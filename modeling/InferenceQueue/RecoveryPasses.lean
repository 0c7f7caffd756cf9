import InferenceQueue.SystemLeases

namespace InferenceQueue.Service

open Scheduler Jobs

namespace Recovery

/-- The cutoff and the `RetryCount` with which `recoverOne` is on its way to requeue `j`. -/
def reading (j : JobID) : Recovery → Option (ℕ × ℤ)
  | recovering cutoff _ jobID (.policy _ n) => if jobID = j then some (cutoff, n) else none
  | recovering cutoff _ jobID (.requeue _ n) => if jobID = j then some (cutoff, n) else none
  | _ => none

/-- The count that `recoverOne`, having requeued `j`, is about to write. -/
def counting (j : JobID) : Recovery → Option ℤ
  | recovering _ _ jobID (.updateCreated n) => if jobID = j then some n else none
  | _ => none

end Recovery

variable {cfg : Config} {s t : System} {e : Event} {i c : ℕ} {j : JobID} {n : ℤ}
  {resp : Response} {r : Recovery}

namespace RecoverOne

variable {stage : RecoverOne} {u : UserID}

theorem updateCreated_of_proceed (h : stage.proceed resp = some (.updateCreated n)) :
    ∃ u k, stage = .requeue u k ∧ resp = .reply (.flag true) ∧ n = k + 1 := by
  unfold RecoverOne.proceed at h
  split at h
  all_goals try split_ifs at h
  all_goals cases h
  exact ⟨_, _, rfl, rfl, rfl⟩

theorem requeue_of_proceed (h : stage.proceed resp = some (.requeue u n)) :
    ∃ m, stage = .policy u n ∧ resp = .policy m ∧ n < m := by
  unfold RecoverOne.proceed at h
  split at h
  all_goals try split_ifs at h with hlimit
  all_goals cases h
  exact ⟨_, rfl, rfl, by omega⟩

theorem policy_of_proceed (h : stage.proceed resp = some (.policy u n)) :
    ∃ job, stage = .byID ∧ resp = .job (.ok job) ∧ job.status = .created ∧
      n = job.currentAttempt ∧ u = job.userID := by
  unfold RecoverOne.proceed at h
  split at h
  all_goals try split_ifs at h with hstatus
  all_goals cases h
  exact ⟨_, rfl, rfl, by simpa using hstatus, rfl, rfl⟩

end RecoverOne

namespace Recovery

theorem counting_eq_some : r.counting j = some n ↔
    ∃ c todo, r = .recovering c todo j (.updateCreated n) := by
  unfold counting
  split <;> simp_all

theorem reading_eq_some : r.reading j = some (c, n) ↔ ∃ todo u,
    r = .recovering c todo j (.policy u n) ∨ r = .recovering c todo j (.requeue u n) := by
  unfold reading
  split <;> simp_all [and_left_comm]

theorem counting_resume (h : (r.resume cfg resp).counting j = some n) :
    ∃ c todo u k, r = .recovering c todo j (.requeue u k) ∧ resp = .reply (.flag true) ∧
      n = k + 1 := by
  -- a pass is about to count only when it has just requeued
  obtain ⟨c, todo, hnext⟩ := counting_eq_some.mp h
  have hmoves := moves cfg r resp
  rw [hnext] at hmoves
  cases hmoves with
  | recover hproceed =>
    obtain ⟨u, k, rfl, rfl, rfl⟩ := RecoverOne.updateCreated_of_proceed hproceed
    exact ⟨c, todo, u, k, rfl, rfl, rfl⟩
  | anew hfresh => cases hfresh

theorem reading_resume (h : (r.resume cfg resp).reading j = some (c, n)) :
    r.reading j = some (c, n) ∨ ∃ todo job, r = .recovering c todo j .byID ∧
      resp = .job (.ok job) ∧ job.status = .created ∧ n = job.currentAttempt := by
  obtain ⟨todo, u, hnext⟩ := reading_eq_some.mp h
  have hmoves := moves cfg r resp
  rcases hnext with hnext | hnext
  · rw [hnext] at hmoves
    cases hmoves with
    | recover hproceed =>
      obtain ⟨job, rfl, rfl, hstatus, rfl, -⟩ := RecoverOne.policy_of_proceed hproceed
      exact Or.inr ⟨todo, job, rfl, rfl, hstatus, rfl⟩
    | anew hfresh => cases hfresh
  · rw [hnext] at hmoves
    cases hmoves with
    | recover hproceed =>
      obtain ⟨m, rfl, -, -⟩ := RecoverOne.requeue_of_proceed hproceed
      exact Or.inl (reading_eq_some.mpr ⟨todo, u, Or.inl rfl⟩)
    | anew hfresh => cases hfresh

theorem requeue_resume {todo : List JobID} {u : UserID}
    (h : r.resume cfg resp = .recovering c todo j (.requeue u n)) :
    ∃ m, r = .recovering c todo j (.policy u n) ∧ resp = .policy m ∧ n < m := by
  have hmoves := moves cfg r resp
  rw [h] at hmoves
  cases hmoves with
  | recover hproceed =>
    obtain ⟨m, rfl, rfl, hlimit⟩ := RecoverOne.requeue_of_proceed hproceed
    exact ⟨m, rfl, rfl, hlimit⟩
  | anew hfresh => cases hfresh

theorem cutoff_of_reading (h : r.reading j = some (c, n)) : r.cutoff = some c := by
  obtain ⟨todo, u, rfl | rfl⟩ := reading_eq_some.mp h <;> rfl

@[simp] theorem cutoff_reconcileNext (todo : List JobID) : (reconcileNext todo).cutoff = none := by
  cases todo <;> rfl

@[simp] theorem cutoff_orphanNext (todo : List Job) : (orphanNext todo).cutoff = none := by
  cases todo <;> rfl

theorem cutoff_sweepNext {todo : List JobID} {c' : ℕ} (h : (sweepNext c todo).cutoff = some c') :
    c = c' := by
  cases todo with
  | nil => cases h
  | cons jobID todo => exact Option.some.inj h

theorem cutoff_resume (h : (r.resume cfg resp).cutoff = some c) :
    r.cutoff = some c ∨ (r = .idle ∧ resp = .time c) := by
  -- a sweep keeps the cutoff it has read from the clock
  unfold resume at h
  split at h
  all_goals try split at h
  all_goals first
    | exact Or.inl h
    | exact Or.inl (congrArg some (cutoff_sweepNext h))
    | exact Or.inr ⟨rfl, congrArg _ (Option.some.inj h)⟩
    | simp at h
    | cases h

end Recovery

theorem Requests.counting {th : Thread} (h : Requests cfg s (.updateCreated j n) th) :
    ∃ i, (s.recoveries i).counting j = some n := by
  cases th with
  | submit i =>
    change (s.submits i).requests _ at h
    cases hp : s.submits i with
    | settle job bound => cases bound <;> simp [hp, Submit.requests] at h
    | _ => simp [hp, Submit.requests] at h
  | worker i =>
    change (s.workers i).request i = _ at h
    cases hp : s.workers i with
    | idle => simp [hp, Worker.request] at h
    | busy claim stage beat =>
      rw [hp] at h
      cases stage <;> cases h
  | heartbeat i =>
    change (s.workers i).beatRequest = _ at h
    cases hp : s.workers i with
    | idle => simp [hp, Worker.beatRequest] at h
    | busy claim stage beat =>
      rw [hp, Worker.beatRequest] at h
      split_ifs at h
      cases h
  | recovery i =>
    change (s.recoveries i).request cfg = _ at h
    refine ⟨i, Recovery.counting_eq_some.mpr ?_⟩
    cases hp : s.recoveries i with
    | recovering c todo job stage =>
      rw [hp] at h
      cases stage <;> cases h
      exact ⟨c, todo, rfl⟩
    | reconciling todo job stage =>
      rw [hp] at h
      cases stage <;> cases h
    | _ => simp [hp, Recovery.request] at h

theorem Step.requeue_lease {th : Thread} {u : UserID}
    (h : Step cfg s (.call th (.redis (.requeueIfExpired j u c)) (.reply (.flag true))) t) :
    (∃ k ∈ s.lease j, k ≤ c) ∧ t.lease j = none := by
  have heff := h.effect h.performed_reply
  refine ⟨heff.zscore_of_recovered rfl, (heff.zscore_eq j).trans ?_⟩
  simp [Event.claims, Event.claimed, Event.ended, Event.recovered]

theorem Step.counting (h : Step cfg s e t) (hcount : (t.recoveries i).counting j = some n) :
    (s.recoveries i).counting j = some n ∨
      ∃ c todo u k, s.recoveries i = .recovering c todo j (.requeue u k) ∧
        e = .call (.recovery i) (.redis (.requeueIfExpired j u c)) (.reply (.flag true)) ∧
        n = k + 1 := by
  rcases h.recovery i with hsame | ⟨resp, rfl, hnext⟩
  · exact Or.inl (hsame ▸ hcount)
  · right
    rw [hnext] at hcount
    obtain ⟨c, todo, u, k, hr, rfl, rfl⟩ := Recovery.counting_resume hcount
    exact ⟨c, todo, u, k, hr, by rw [hr]; rfl, rfl⟩

/-- A pass is on its way to requeue with what it has read, now or before. -/
theorem Step.reading (h : Step cfg s e t) (hread : (t.recoveries i).reading j = some (c, n)) :
    (s.recoveries i).reading j = some (c, n) ∨
      (t.lease j = s.lease j ∧
        ∃ row ∈ s.stores.jobs.lookup j, row.status = .created ∧ row.retryCounts = n) := by
  rcases h.recovery i with hsame | ⟨resp, rfl, hnext⟩
  · exact Or.inl (hsame ▸ hread)
  · rw [hnext] at hread
    rcases Recovery.reading_resume hread with hold | ⟨todo, job, hr, rfl, hstatus, rfl⟩
    · exact Or.inl hold
    · right
      rw [hr] at h
      obtain ⟨-, st, hst, rfl⟩ := h.call
      obtain ⟨row, hrow, hrowstatus, -, hattempt⟩ := lookup_of_jobByID (jobByID_of_serve hst)
      refine ⟨?_, row, hrow, hrowstatus ▸ hstatus, hattempt.symm⟩
      rcases h.redis with ⟨pe, hpe, -⟩ | ⟨-, hsame⟩
      · cases hpe
      · rw [System.lease, hsame]
        rfl

theorem Step.allowed {todo : List JobID} {u : UserID} (h : Step cfg s e t)
    (hrec : t.recoveries i = .recovering c todo j (.requeue u n)) :
    s.recoveries i = .recovering c todo j (.requeue u n) ∨
      ∃ limit, e = .call (.recovery i) (.retryPolicy u) (.policy limit) ∧ n < limit := by
  -- a pass requeues below the limit that the retry policy told it
  rcases h.recovery i with hsame | ⟨resp, rfl, hnext⟩
  · exact Or.inl (hsame ▸ hrec)
  · right
    obtain ⟨limit, hr, rfl, hlimit⟩ := Recovery.requeue_resume (hnext.symm.trans hrec)
    exact ⟨limit, by rw [hr]; rfl, hlimit⟩

theorem Step.cutoff (h : Step cfg s e t)
    (hs : ∀ i c, (s.recoveries i).cutoff = some c → c ≤ s.clock)
    (hcutoff : (t.recoveries i).cutoff = some c) : c ≤ t.clock := by
  rcases h.recovery i with hsame | ⟨resp, rfl, hnext⟩
  · exact (hs i c (hsame ▸ hcutoff)).trans h.clock_le
  · rw [hnext] at hcutoff
    rcases Recovery.cutoff_resume hcutoff with hold | ⟨hr, rfl⟩
    · exact (hs i c hold).trans h.clock_le
    · rw [hr] at h
      obtain ⟨-, st, hst, -⟩ := h.call
      have hans : c = s.clock := answers_of_serve hst (by simp)
      exact hans.le.trans h.clock_le

theorem Step.counted {th : Thread} {row : Row}
    (h : Step cfg s (.call th (.updateCreated j n) resp) t) (hresp : resp ≠ .failed false)
    (hrow : t.stores.jobs.lookup j = some row) (hstatus : row.status = .created) :
    row.retryCounts = n := by
  obtain ⟨-, st, hst, rfl⟩ := h.call
  rcases serve_cases hst with ⟨hfail, -⟩ | ⟨-, rfl, -⟩
  · exact absurd hfail hresp
  · rw [resume_stores] at hrow
    change (updateStatusIfStatus j n .created .created s.stores.jobs).1.lookup j = _ at hrow
    rw [lookup_updateStatusIfStatus, if_pos rfl] at hrow
    obtain ⟨old, -, rfl⟩ := Option.map_eq_some_iff.mp hrow
    split_ifs at hstatus ⊢ with hold
    · rfl
    · exact absurd hstatus hold

theorem Step.row_isSome (h : Step cfg s e t) (hs : s.stores.jobs.lookup j ≠ none) :
    t.stores.jobs.lookup j ≠ none := by
  have hstep := h.row j
  generalize t.stores.jobs.lookup j = next at hstep
  cases hstep with
  | same hsame => exact hsame ▸ hs
  | created | marked | counted => simp

end InferenceQueue.Service

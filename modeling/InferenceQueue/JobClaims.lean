import InferenceQueue.JobOwners

namespace InferenceQueue.Service

open Scheduler Jobs

variable {cfg : Config} {s t : System} {e : Event}

/-- Workers hold jobs under the user of their row. -/
def ClaimsHomed (s : System) : Prop :=
  ∀ i claim stage beat, s.workers i = .busy claim stage beat → UserOf s claim.jobID claim.userID

theorem Worker.busy_of_claimed {resp : Response} {claim : Claim} {stage : Stage}
    {beat : Heartbeat} (h : Worker.claimed resp = .busy claim stage beat) :
    stage = .policy ∧
      ∃ wait, resp = .reply (.claim (.ok (some ⟨claim.userID, claim.jobID, wait⟩))) := by
  unfold Worker.claimed at h
  split at h
  · cases h
    exact ⟨rfl, _, rfl⟩
  · cases h

theorem Worker.claim_of_proceed {claim claim' : Claim} {stage stage' : Stage}
    {beat beat' : Heartbeat} {resp : Response}
    (h : Worker.proceed cfg claim beat stage resp = .busy claim' stage' beat') :
    claim' = claim := by
  -- a worker keeps its claim until it is idle again
  unfold Worker.proceed at h
  split at h
  all_goals try unfold Worker.giveUp at h
  all_goals try split at h
  all_goals cases h
  all_goals rfl

theorem Step.claimed_queue {i w wait : ℕ} {j : JobID} {u : UserID}
    (h : Step cfg s (.call (.worker i) (.redis (.claimNextJob w))
      (.reply (.claim (.ok (some ⟨u, j, wait⟩))))) t) : j ∈ s.stores.redis.queue u := by
  have heffect := h.effect h.performed_reply
  generalize t.stores.redis = after at heffect
  cases heffect with
  | claimed hfirst hqueue =>
    rw [hqueue]
    simp

theorem ClaimsHomed.step (h : ClaimsHomed s) (hhomed : Homed s) (he : Step cfg s e t) :
    ClaimsHomed t := by
  intro i claim stage beat hbusy
  refine UserOf.step ?_ he
  rcases he.worker i with hsame | ⟨resp, rfl, hnext⟩ | ⟨req, resp, rfl, -, hnext⟩
  · exact h i claim stage beat (hsame ▸ hbusy)
  · rw [hnext] at hbusy
    cases hw : s.workers i with
    | idle =>
      rw [hw] at hbusy he
      obtain ⟨-, wait, rfl⟩ := Worker.busy_of_claimed hbusy
      exact hhomed.queue _ _ he.claimed_queue
    | busy claim' stage' beat' =>
      rw [hw] at hbusy
      obtain rfl := Worker.claim_of_proceed hbusy
      exact h i claim stage' beat' hw
  · rw [hnext] at hbusy
    cases hw : s.workers i with
    | idle =>
      rw [hw] at hbusy
      cases hbusy
    | busy claim' stage' beat' =>
      rw [hw] at hbusy
      cases hbusy
      exact h i claim stage beat' hw

theorem Requests.create {j : JobID} {u : UserID} {th : Thread}
    (h : Requests cfg s (.create j u) th) : ∃ i, th = .submit i ∧ s.submits i = .create := by
  cases th with
  | submit i =>
    refine ⟨i, rfl, ?_⟩
    change (s.submits i).requests (.create j u) at h
    cases hp : s.submits i with
    | create => rfl
    | settle job bound => cases bound <;> simp [hp, Submit.requests] at h
    | _ => simp [hp, Submit.requests] at h
  | worker i =>
    change (s.workers i).request i = .create j u at h
    cases hp : s.workers i with
    | idle => simp [hp, Worker.request] at h
    | busy claim stage beat => cases stage <;> simp [hp, Worker.request, Stage.request] at h
  | heartbeat i =>
    change (s.workers i).beatRequest = some (.create j u) at h
    cases hp : s.workers i with
    | idle => simp [hp, Worker.beatRequest] at h
    | busy claim stage beat => simp [hp, Worker.beatRequest] at h
  | recovery i =>
    change (s.recoveries i).request cfg = .create j u at h
    cases hp : s.recoveries i with
    | recovering cutoff todo job stage =>
      rw [hp] at h
      cases stage <;> cases h
    | reconciling todo job stage =>
      rw [hp] at h
      cases stage <;> cases h
    | _ => simp [hp, Recovery.request] at h

/-- A row comes into being only by a `Create` that takes effect. -/
theorem Step.appeared {j : JobID} (h : Step cfg s e t) :
    (t.stores.jobs.lookup j = none ↔ s.stores.jobs.lookup j = none) ∨
      ∃ i u resp, e = .call (.submit i) (.create j u) resp ∧ resp ≠ .failed false ∧
        s.submits i = .create ∧ s.stores.jobs.lookup j = none ∧ UserOf t j u := by
  have hrow := h.row j
  generalize hnext : t.stores.jobs.lookup j = next at hrow
  cases hrow with
  | same hsame => exact Or.inl (by rw [hsame])
  | marked hrow | counted hrow => exact Or.inl (by simp [hrow])
  | @created th u resp hnew =>
    obtain ⟨hreq, st, hst, rfl⟩ := h.call
    obtain ⟨i, rfl, hsubmit⟩ := hreq.create
    refine Or.inr ⟨i, u, resp, rfl, ?_, hsubmit, hnew, ⟨_, hnext, rfl⟩⟩
    rintro rfl
    rcases serve_cases hst with ⟨-, rfl⟩ | ⟨hne, -⟩
    · rw [resume_stores, hnew] at hnext
      cases hnext
    · exact hne rfl

theorem Step.row_of_create {j : JobID} {u : UserID} {i : ℕ} {resp : Response}
    (h : Step cfg s (.call (.submit i) (.create j u) resp) t) (hresp : resp ≠ .failed false) :
    t.stores.jobs.lookup j ≠ none := by
  obtain ⟨-, st, hst, rfl⟩ := h.call
  rcases serve_cases hst with ⟨hfailed, -⟩ | ⟨-, rfl, -⟩
  · exact absurd hfailed hresp
  · rw [resume_stores, Service.effect]
    split_ifs with hnew
    · simp [lookup_save]
    · simpa using hnew

theorem Worker.generate_of_proceed {claim claim' : Claim} {stage : Stage} {n : ℤ}
    {beat beat' : Heartbeat} {resp : Response}
    (h : Worker.proceed cfg claim beat stage resp = .busy claim' (.generate n) beat') :
    stage = .generate n ∨ (stage = .payload n ∧ resp = .flag true) := by
  -- a worker gets to its generation from the payload, and only with one
  unfold Worker.proceed at h
  split at h
  all_goals try unfold Worker.giveUp at h
  all_goals try split at h
  all_goals cases h
  · exact Or.inr ⟨rfl, rfl⟩
  · exact Or.inl rfl

end InferenceQueue.Service

import InferenceQueue.CompletionMarker
import InferenceQueue.RecoveryPasses

namespace InferenceQueue.Service

open Scheduler Jobs

def UserOf (s : System) (j : JobID) (u : UserID) : Prop :=
  ∃ row ∈ s.stores.jobs.lookup j, row.userID = u

def Submit.owner : Submit → Option (JobID × UserID)
  | bind j u | deadline j u | push j u => some (j, u)
  | _ => none

def Recovery.owner : Recovery → Option (JobID × UserID)
  | recovering _ _ j (.policy u _) | recovering _ _ j (.requeue u _) => some (j, u)
  | _ => none

def Recovery.listed : Recovery → List Job
  | enqueueing todo job => job :: todo
  | _ => []

variable {cfg : Config} {s t : System} {e : Event} {j : JobID} {u v : UserID} {i : ℕ}
  {resp : Response} {tr : List Event}

theorem UserOf.unique (h : UserOf s j u) (h' : UserOf s j v) : u = v := by
  obtain ⟨row, hrow, rfl⟩ := h
  obtain ⟨row', hrow', rfl⟩ := h'
  obtain rfl := Option.some.inj (hrow.symm.trans hrow')
  rfl

theorem UserOf.step (h : UserOf s j u) (he : Step cfg s e t) : UserOf t j u := by
  obtain ⟨row, hrow, rfl⟩ := h
  have hstep := he.row j
  generalize hnext : t.stores.jobs.lookup j = next at hstep
  cases hstep with
  | same hsame => exact ⟨row, hnext.trans (hsame.trans hrow), rfl⟩
  | created hnew => simp [hnew] at hrow
  | marked hrow' | counted hrow' =>
    obtain rfl := Option.some.inj (hrow'.symm.trans hrow)
    exact ⟨_, hnext, rfl⟩

theorem userOf_of_jobByID {job : Job} (h : jobByID j s.stores.jobs = .ok job) :
    UserOf s j job.userID := by
  obtain ⟨row, hrow, -, huser, -⟩ := lookup_of_jobByID h
  exact ⟨row, hrow, huser.symm⟩

theorem Submit.owner_resume {p : Submit} {req : Request}
    (h : (p.resume req resp).owner = some (j, u)) :
    p.owner = some (j, u) ∨ (req = .create j u ∧ resp = .result (.ok ())) := by
  unfold Submit.resume at h
  split at h
  all_goals try split_ifs at h
  all_goals first
    | exact Or.inl h
    | (simp only [Submit.owner, Option.some.injEq, Prod.mk.injEq] at h
       exact Or.inr ⟨by rw [h.1, h.2], rfl⟩)
    | cases h

theorem Recovery.owner_eq_some {r : Recovery} : r.owner = some (j, u) ↔ ∃ c todo n,
    r = .recovering c todo j (.policy u n) ∨ r = .recovering c todo j (.requeue u n) := by
  unfold Recovery.owner
  split <;> simp_all [eq_comm]

theorem Recovery.owner_resume {r : Recovery} (h : (r.resume cfg resp).owner = some (j, u)) :
    r.owner = some (j, u) ∨
      ∃ c todo job, r = .recovering c todo j .byID ∧ resp = .job (.ok job) ∧ u = job.userID := by
  obtain ⟨c, todo, n, hnext⟩ := Recovery.owner_eq_some.mp h
  have hmoves := Recovery.moves cfg r resp
  rcases hnext with hnext | hnext <;> rw [hnext] at hmoves
  · cases hmoves with
    | recover hproceed =>
      obtain ⟨job, rfl, rfl, -, -, rfl⟩ := RecoverOne.policy_of_proceed hproceed
      exact Or.inr ⟨c, todo, job, rfl, rfl, rfl⟩
    | anew hfresh => cases hfresh
  · cases hmoves with
    | recover hproceed =>
      obtain ⟨m, rfl, -, -⟩ := RecoverOne.requeue_of_proceed hproceed
      exact Or.inl rfl
    | anew hfresh => cases hfresh

theorem Recovery.listed_orphanNext (jobs : List Job) :
    (Recovery.orphanNext jobs).listed = jobs := by
  cases jobs <;> rfl

theorem Recovery.listed_sweepNext (c : ℕ) (todo : List JobID) :
    (Recovery.sweepNext c todo).listed = [] := by
  cases todo <;> rfl

theorem Recovery.listed_reconcileNext (todo : List JobID) :
    (Recovery.reconcileNext todo).listed = [] := by
  cases todo <;> rfl

theorem Recovery.listed_resume {r : Recovery} {job : Job}
    (h : job ∈ (r.resume cfg resp).listed) :
    job ∈ r.listed ∨ ∃ before jobs, r = .listOrphans before ∧ resp = .orphans jobs ∧
      job ∈ jobs := by
  -- a pass adds to its list only what the SELECT of `PendingOrphans` gives it
  unfold Recovery.resume at h
  split at h
  all_goals try split at h
  all_goals first
    | (rw [Recovery.listed_orphanNext] at h
       first
        | exact Or.inr ⟨_, _, rfl, rfl, h⟩
        | exact Or.inl (List.mem_cons_of_mem _ h))
    | (rw [Recovery.listed_sweepNext] at h; cases h)
    | (rw [Recovery.listed_reconcileNext] at h; cases h)
    | cases h

theorem Step.listed {job : Job} (h : Step cfg s e t) (hjob : job ∈ (t.recoveries i).listed) :
    job ∈ (s.recoveries i).listed ∨
      (t.stores = s.stores ∧ jobByID job.jobID s.stores.jobs = .ok job ∧
        job.status = .created) := by
  rcases h.recovery i with hsame | ⟨resp, rfl, hnext⟩
  · exact Or.inl (hsame ▸ hjob)
  · rw [hnext] at hjob
    rcases Recovery.listed_resume hjob with hold | ⟨before, jobs, hr, rfl, hmem⟩
    · exact Or.inl hold
    · right
      rw [hr] at h
      obtain ⟨-, st, hst, rfl⟩ := h.call
      have hans : PendingOrphans before cfg.batch s.stores.jobs jobs :=
        answers_of_serve hst (by simp)
      refine ⟨?_, hans.1 job hmem, (hans.2.1 job hmem).1⟩
      rw [resume_stores]
      rcases serve_cases hst with ⟨-, rfl⟩ | ⟨-, rfl, -⟩ <;> rfl

/-- Jobs wait and are passed on under the user of their row. -/
structure Homed (s : System) : Prop where
  queue : ∀ u j, j ∈ s.stores.redis.queue u → UserOf s j u
  submits : ∀ i j u, (s.submits i).owner = some (j, u) → UserOf s j u
  recoveries : ∀ i j u, (s.recoveries i).owner = some (j, u) → UserOf s j u
  listed : ∀ i, ∀ job ∈ (s.recoveries i).listed, UserOf s job.jobID job.userID

theorem Homed.initial : Homed System.initial := by
  constructor <;> simp [System.initial, State.empty, Submit.owner, Recovery.owner, Recovery.listed]

/-- What is put on a queue is put there by a thread that knows the user of the job. -/
theorem Homed.pushed (h : Homed s) (he : Step cfg s e t) {pe : Scheduler.Event}
    (hpe : performed cfg s e = some pe) (hpush : pe.pushed = some (u, j)) : UserOf s j u := by
  obtain ⟨th, resp, rfl, -⟩ := Event.redisOp_eq_some (redisOp_of_performed hpe)
  have hissue := he.call.1.issues
  obtain ⟨now, op, reply⟩ := pe
  unfold Scheduler.Event.pushed at hpush
  split at hpush
  · next entry r hop hreply =>
    cases hpush
    cases hop
    cases hissue with
    | push hp => exact h.submits _ _ _ (by rw [hp]; rfl)
  · next job user cutoff hop hreply =>
    cases hpush
    cases hop
    cases hissue with
    | requeue hp => exact h.recoveries _ _ _ (by rw [hp]; rfl)
  · next job user capacity hop hreply =>
    cases hpush
    cases hop
    cases hissue with
    | restore hp => exact h.listed _ _ (by rw [hp]; exact List.mem_cons_self)
  · cases hpush

theorem Homed.step (h : Homed s) (he : Step cfg s e t) : Homed t := by
  refine ⟨?_, ?_, ?_, ?_⟩
  · intro u j hmem
    refine UserOf.step ?_ he
    rcases he.redis with ⟨pe, hpe, hstep⟩ | ⟨-, hsame⟩
    · rcases hstep.effect.mem_queue hmem with hold | hpush
      · exact h.queue u j hold
      · exact h.pushed he hpe hpush
    · exact h.queue u j (hsame ▸ hmem)
  · intro i j u hown
    rcases he.submit i with hsame | ⟨req, resp, rfl, -, hnext⟩
    · exact (h.submits i j u (hsame ▸ hown)).step he
    · rw [hnext] at hown
      rcases Submit.owner_resume hown with hold | ⟨rfl, rfl⟩
      · exact (h.submits i j u hold).step he
      · -- the row is created with this user
        obtain ⟨-, st, hst, rfl⟩ := he.call
        have hans := answers_of_serve hst (by simp)
        rcases serve_cases hst with ⟨hfail, -⟩ | ⟨-, rfl, -⟩
        · cases hfail
        · refine ⟨⟨u, .created, 1, s.clock⟩, ?_, rfl⟩
          rw [resume_stores, effect, if_pos (by rw [hans.2]; rfl)]
          exact (lookup_save s.clock u).trans (if_pos rfl)
  · intro i j u hown
    rcases he.recovery i with hsame | ⟨resp, rfl, hnext⟩
    · exact (h.recoveries i j u (hsame ▸ hown)).step he
    · rw [hnext] at hown
      rcases Recovery.owner_resume hown with hold | ⟨c, todo, job, hr, rfl, rfl⟩
      · exact (h.recoveries i j u hold).step he
      · refine UserOf.step ?_ he
        rw [hr] at he
        obtain ⟨-, st, hst, -⟩ := he.call
        exact userOf_of_jobByID (jobByID_of_serve hst)
  · intro i job hjob
    refine UserOf.step ?_ he
    rcases he.listed hjob with hold | ⟨-, hrow, -⟩
    · exact h.listed i job hold
    · exact userOf_of_jobByID hrow

end InferenceQueue.Service

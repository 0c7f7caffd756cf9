import InferenceQueue.LeaseEpochs
import InferenceQueue.SystemSteps

namespace InferenceQueue.Scheduler

variable {cfg : Config} {s t : State} {e : Event} {j : JobID} {u : UserID}

theorem Effect.mem_queue (h : Effect cfg s e t) (hmem : j ∈ t.queue u) :
    j ∈ s.queue u ∨ e.pushed = some (u, j) := by
  cases h with
  | pushed | requeued | orphaned =>
    rw [show (State.queue _) = _ from State.enlist_queue _ _ _, Function.update_apply] at hmem
    split_ifs at hmem with heq
    · subst heq
      rcases List.mem_cons.mp hmem with rfl | hmem
      · exact Or.inr rfl
      · exact Or.inl hmem
    · exact Or.inl hmem
  | @claimed now w v job remaining hfirst hqueue =>
    rw [show (State.queue _) = _ from State.delist_queue _ _ _, Function.update_apply] at hmem
    split_ifs at hmem with heq
    · subst heq
      exact Or.inl (by simp [hqueue, hmem])
    · exact Or.inl hmem
  | _ => exact Or.inl hmem

theorem Effect.mem_completedJobs (h : Effect cfg s e t) (hmem : j ∈ s.completedJobs) :
    j ∈ t.completedJobs ∨ e.op = .removeCompletedJob j := by
  cases h with
  | pushed | requeued | orphaned =>
    left
    rw [show (State.completedJobs _) = _ from State.enlist_completedJobs _ _ _]
    exact hmem
  | claimed =>
    left
    rw [show (State.completedJobs _) = _ from State.delist_completedJobs _ _ _]
    exact hmem
  | marked => exact Or.inl (Finset.mem_insert_of_mem hmem)
  | @unmarked now job =>
    by_cases heq : j = job
    · exact Or.inr (by rw [heq])
    · exact Or.inl (Finset.mem_erase.mpr ⟨heq, hmem⟩)
  | _ => exact Or.inl hmem

theorem Effect.mem_completedJobs_of_mark (h : Effect cfg s e t) (hop : e.op = .markJobCompleted j) :
    j ∈ t.completedJobs := by
  cases h with
  | marked =>
    obtain rfl := Op.markJobCompleted.inj hop
    exact Finset.mem_insert_self _ _
  | _ => cases hop

theorem Effect.mem_queue_of_claims (h : Effect cfg s e t) (hclaim : e.claims j) :
    ∃ u, j ∈ s.queue u := by
  cases h with
  | @claimed now w u job remaining hfirst hqueue =>
    obtain rfl : job = j := by simpa [Event.claims, Event.claimed] using hclaim
    exact ⟨u, by simp [hqueue]⟩
  | _ => simp [Event.claims, Event.claimed] at hclaim

end InferenceQueue.Scheduler

namespace InferenceQueue.Service

open Scheduler Jobs

def Finished (past : List Event) (j : JobID) : Prop :=
  ∃ e ∈ past, e.redisOp = some (.markJobCompleted j)

/-- The job `RequeueIfExpired` or `EnqueueIfAbsent` put on a queue. -/
def pushedByRecovery (e : Scheduler.Event) : Option JobID :=
  match e.op, e.reply with
  | .requeueIfExpired job _ _, .flag true => some job
  | .enqueueIfAbsent job _ _, .flag true => some job
  | _, _ => none

def NotRunAgain (cfg : Config) (past : List Event) (s : System) (e : Event) : Prop :=
  ∀ j, Finished past j → ∀ pe ∈ performed cfg s e, pushedByRecovery pe ≠ some j ∧ ¬pe.claims j

def Waits (s : System) (j : JobID) : Prop :=
  ∃ u ∈ s.stores.redis.activeUsers.keys, j ∈ s.stores.redis.queue u

/-- A job is marked only while it does not wait, and put on a queue only while it is neither marked
nor closed. -/
def opRespectsMarkers (s : System) : Op → Prop
  | .markJobCompleted job => ¬Waits s job
  | .requeueIfExpired job _ cutoff =>
    (∃ k ∈ s.stores.redis.processingJobs.zscore job, k ≤ cutoff) →
      job ∉ s.stores.redis.completedJobs ∧ Open s job
  | .enqueueIfAbsent job _ _ => job ∉ s.stores.redis.completedJobs → Open s job
  | .pushLeft entry => entry.jobID ∉ s.stores.redis.completedJobs ∧ Open s entry.jobID
  | _ => True

def RespectsMarkers (_ : List Event) (s : System) (e : Event) : Prop :=
  ∀ op ∈ e.redisOp, opRespectsMarkers s op

instance (s : System) (j : JobID) : Decidable (Waits s j) := by unfold Waits; infer_instance

instance (s : System) (op : Op) : Decidable (opRespectsMarkers s op) := by
  induction op using Op.casesOn <;> dsimp only [opRespectsMarkers] <;> infer_instance

instance (past : List Event) (s : System) (e : Event) : Decidable (RespectsMarkers past s e) := by
  unfold RespectsMarkers; infer_instance

variable {cfg : Config} {s t : System} {e : Event} {pe : Scheduler.Event} {j : JobID}
  {past tr : List Event} {th : Thread} {resp : Response}

theorem Closed.step (h : Closed s j) (he : Step cfg s e t) : Closed t j := by
  -- a closed job stays closed
  obtain ⟨row, hrow, hstatus⟩ := h
  have hstep := he.row j
  generalize hnext : t.stores.jobs.lookup j = next at hstep
  cases hstep with
  | same hsame => exact ⟨row, hnext.trans (hsame.trans hrow), hstatus⟩
  | created hnew => simp [hnew] at hrow
  | @marked _ o n _ row' hrow' => exact ⟨_, hnext, o.status_ne_created⟩
  | counted hrow' hstatus' =>
    obtain rfl := Option.some.inj (hrow'.symm.trans hrow)
    exact absurd hstatus' hstatus

/-- A finished job waits nowhere, and either its marker or its row says that it is done. -/
structure Retired (past : List Event) (s : System) : Prop where
  gone : ∀ j, Finished past j → ∀ u, j ∉ s.stores.redis.queue u
  recorded : ∀ j, Finished past j → j ∈ s.stores.redis.completedJobs ∨ Closed s j
  reconciled : ∀ i todo j stage, s.recoveries i = .reconciling todo j stage →
    stage.closing = true → Closed s j

theorem Closed.not_open (h : Closed s j) : ¬Open s j := by
  rintro ⟨row, hrow, hcreated⟩
  obtain ⟨row', hrow', hstatus⟩ := h
  obtain rfl := Option.some.inj (hrow.symm.trans hrow')
  exact hstatus hcreated

/-- Nothing that respects the markers puts a finished job on a queue. -/
theorem Retired.not_pushed {r : State} (h : Retired past s) (hfin : Finished past j)
    (hok : RespectsMarkers past s e) (hpe : performed cfg s e = some pe)
    (heff : Effect cfg.scheduler s.stores.redis pe r) (u : UserID) : pe.pushed ≠ some (u, j) := by
  intro hpush
  have hop := hok pe.op (redisOp_of_performed hpe)
  have hdone : ¬(j ∉ s.stores.redis.completedJobs ∧ Open s j) := by
    rintro ⟨hmark, hopen⟩
    rcases h.recorded j hfin with hmem | hclosed
    · exact hmark hmem
    · exact hclosed.not_open hopen
  cases heff with
  | @pushed now entry hroom hfree =>
    obtain ⟨-, rfl⟩ : entry.userID = u ∧ entry.jobID = j := by simpa [Event.pushed] using hpush
    exact hdone hop
  | @requeued now job user cutoff k hscore hexpired =>
    obtain ⟨-, rfl⟩ : user = u ∧ job = j := by simpa [Event.pushed] using hpush
    exact hdone (hop ⟨k, hscore, hexpired⟩)
  | @orphaned now job user capacity hmark hlease hwait hroom =>
    obtain ⟨-, rfl⟩ : user = u ∧ job = j := by simpa [Event.pushed] using hpush
    exact hdone ⟨hmark, hop hmark⟩
  | _ => cases hpush

/-- Only `ReconcileCompleted` removes markers, after it has seen the row closed. -/
theorem Retired.closed_of_remove (h : Retired past s)
    (hreq : Requests cfg s (.redis (.removeCompletedJob j)) th) : Closed s j := by
  cases hreq.issues with
  | unmark hrec hclosing => exact h.reconciled _ _ _ _ hrec hclosing

theorem Reconcile.closing_of_proceed {stage stage' : Reconcile}
    (h : stage.proceed resp = some stage') (hclosing : stage'.closing = true) :
    stage.closing = true ∨
      (stage = .byID ∧ ∃ job, resp = .job (.ok job) ∧ job.status ≠ .created) ∨
      (stage = .byID ∧ ∃ err, resp = .job (.error err) ∧ err.is .recoveryJobNotFound = true) ∨
      ∃ n, stage = .completeUpdate n ∧ resp = .result (.ok ()) := by
  -- how the loop over the markers gets to where it takes the row to be closed
  cases stage with
  | removeMissing | transition | close | removeMarker => exact Or.inl rfl
  | byID =>
    cases resp with
    | job r =>
      cases r with
      | ok job =>
        rw [Reconcile.proceed] at h
        split_ifs at h with hstatus
        · obtain rfl := Option.some.inj h
          cases hclosing
        · exact Or.inr (Or.inl ⟨rfl, job, rfl, hstatus⟩)
      | error err =>
        rw [Reconcile.proceed] at h
        split_ifs at h with hmissing
        exact Or.inr (Or.inr (Or.inl ⟨rfl, err, rfl, hmissing⟩))
    | _ => cases h
  | completeSelect n =>
    cases resp with
    | result r =>
      cases r with
      | ok _ =>
        obtain rfl := Option.some.inj h
        cases hclosing
      | error err => cases h
    | _ => cases h
  | completeUpdate n =>
    cases resp with
    | result r =>
      cases r with
      | ok _ => exact Or.inr (Or.inr (Or.inr ⟨n, rfl, rfl⟩))
      | error err => cases h
    | _ => cases h

theorem Retired.closed_of_proceed {i : ℕ} {todo : List JobID} {stage stage' : Reconcile}
    (h : Retired past s) (hrec : s.recoveries i = .reconciling todo j stage)
    (he : Step cfg s (.call (.recovery i) (stage.request j) resp) t)
    (hproceed : stage.proceed resp = some stage') (hclosing : stage'.closing = true) :
    Closed t j := by
  obtain ⟨-, st, hst, rfl⟩ := he.call
  rcases Reconcile.closing_of_proceed hproceed hclosing with
    hclosed | ⟨rfl, job, rfl, hstatus⟩ | ⟨rfl, err, rfl, hmissing⟩ | ⟨n, rfl, rfl⟩
  · exact (h.reconciled i todo j stage hrec hclosed).step he
  · -- the pass has read the row as closed
    obtain ⟨row, hrow, hrowstatus, -⟩ := lookup_of_jobByID (jobByID_of_serve hst)
    exact Closed.step ⟨row, hrow, hrowstatus ▸ hstatus⟩ he
  · -- `ByID` never says that a job is missing
    rw [(jobByID_error (jobByID_of_serve hst)).2] at hmissing
    cases hmissing
  · -- its own UPDATE has closed the row
    have hans : .ok () = (markUpdate .completed j n s.stores.jobs).2 :=
      answers_of_serve hst (by simp)
    obtain ⟨row, hrow⟩ := Option.isSome_iff_exists.mp (markUpdate_snd_ok.mp hans.symm)
    rcases serve_cases hst with ⟨hfail, -⟩ | ⟨-, rfl, -⟩
    · cases hfail
    · refine ⟨{ row with status := .completed, retryCounts := n }, ?_, by simp⟩
      change (updateStatus j _ n s.stores.jobs).1.lookup j = _
      rw [lookup_updateStatus, if_pos rfl, hrow]
      rfl

theorem Finished.snoc (h : Finished (past ++ [e]) j) :
    Finished past j ∨ e.redisOp = some (.markJobCompleted j) := by
  obtain ⟨e', he', hop⟩ := h
  rcases List.mem_append.mp he' with hmem | hmem
  · exact Or.inl ⟨e', hmem, hop⟩
  · exact Or.inr (List.mem_singleton.mp hmem ▸ hop)

/-- In Redis the users with a queue are the active ones. -/
theorem waits_of_mem {u : UserID} (hq : ∃ q, Refines s.stores.redis q)
    (hmem : j ∈ s.stores.redis.queue u) : Waits s j := by
  obtain ⟨q, hq⟩ := hq
  have hring : u ∈ q.ring := (hq.mem_ring u).mpr (List.ne_nil_of_mem hmem)
  exact ⟨u, SortedSet.mem_keys_iff.mpr ((hq.ring.mem u).mp hring), hmem⟩

/-- The marker of a finished job outlives every step but the removal by a pass that has seen the
row closed. -/
theorem Retired.recorded_step (h : Retired past s) (he : Step cfg s e t)
    (hfin : Finished (past ++ [e]) j) : j ∈ t.stores.redis.completedJobs ∨ Closed t j := by
  rcases hfin.snoc with hfin | hmark
  · rcases h.recorded j hfin with hmem | hclosed
    · rcases he.redis with ⟨pe, hpe, hstep⟩ | ⟨-, hsame⟩
      · rcases hstep.effect.mem_completedJobs hmem with hmem | hremove
        · exact Or.inl hmem
        · obtain ⟨th, resp, rfl, -⟩ := Event.redisOp_eq_some (hremove ▸ redisOp_of_performed hpe)
          exact Or.inr ((h.closed_of_remove he.call.1).step he)
      · exact Or.inl (hsame ▸ hmem)
    · exact Or.inr (hclosed.step he)
  · obtain ⟨pe, hpe, hop⟩ := performed_of_redisOp hmark
    exact Or.inl ((he.effect hpe).mem_completedJobs_of_mark hop)

theorem Retired.gone_step (h : Retired past s) (hq : ∃ q, Refines s.stores.redis q)
    (hok : RespectsMarkers past s e) (he : Step cfg s e t) (hfin : Finished (past ++ [e]) j)
    (u : UserID) : j ∉ t.stores.redis.queue u := by
  intro hmem
  rcases hfin.snoc with hfin | hmark
  · rcases he.redis with ⟨pe, hpe, hstep⟩ | ⟨-, hsame⟩
    · rcases hstep.effect.mem_queue hmem with hold | hpush
      · exact h.gone j hfin u hold
      · exact h.not_pushed hfin hok hpe hstep.effect u hpush
    · exact h.gone j hfin u (hsame ▸ hmem)
  · obtain ⟨pe, hpe, hop⟩ := performed_of_redisOp hmark
    rcases (he.effect hpe).mem_queue hmem with hold | hpush
    · exact hok _ hmark (waits_of_mem hq hold)
    · simp [Event.pushed, hop] at hpush

theorem Retired.step (h : Retired past s) (hq : ∃ q, Refines s.stores.redis q)
    (hok : RespectsMarkers past s e) (he : Step cfg s e t) : Retired (past ++ [e]) t := by
  refine ⟨fun j hfin => h.gone_step hq hok he hfin, fun j hfin => h.recorded_step he hfin, ?_⟩
  intro i todo j stage hrec hclosing
  rcases he.recovery i with hsame | ⟨resp, rfl, hnext⟩
  · exact (h.reconciled i todo j stage (hsame ▸ hrec) hclosing).step he
  · have hmoves := Recovery.moves cfg (s.recoveries i) resp
    rw [← hnext, hrec] at hmoves
    generalize hr : s.recoveries i = r at hmoves
    cases hmoves with
    | reconcile hproceed =>
      rw [hr] at he
      exact h.closed_of_proceed hr he hproceed hclosing
    | anew hfresh =>
      obtain rfl : stage = .byID := hfresh
      cases hclosing

theorem Retired.initial : Retired [] System.initial := by
  refine ⟨?_, ?_, ?_⟩
  · rintro j ⟨e, he, -⟩
    cases he
  · rintro j ⟨e, he, -⟩
    cases he
  · intro i todo j stage hrec
    cases hrec

theorem pushed_of_recovery (h : pushedByRecovery pe = some j) : ∃ u, pe.pushed = some (u, j) := by
  unfold pushedByRecovery at h
  split at h
  case h_3 => cases h
  all_goals
    rename_i job user _ hop hreply
    obtain rfl := Option.some.inj h
    exact ⟨user, by rw [Event.pushed, hop, hreply]⟩

/-- While every push and every marker respects the markers, a finished job is not run again. -/
theorem finished_never_run_again (h : Run (Step cfg) System.initial tr s)
    (hok : Throughout (Step cfg) System.initial tr RespectsMarkers) :
    Throughout (Step cfg) System.initial tr (NotRunAgain cfg) := by
  refine Throughout.of_invariant (fun past s => (∃ q, Refines s.stores.redis q) ∧ Retired past s)
    ⟨⟨_, Refines.empty⟩, .initial⟩ ?_ ?_ h hok
  · rintro past s e t ⟨hq, hret⟩ hok (he : Step cfg s e t)
    exact ⟨he.refines hq, hret.step hq hok he⟩
  · rintro past s e t ⟨-, hret⟩ hok (he : Step cfg s e t) j hfin pe hpe
    refine ⟨fun hpush => ?_, fun hclaim => ?_⟩
    · obtain ⟨u, hu⟩ := pushed_of_recovery hpush
      exact hret.not_pushed hfin hok hpe (he.effect hpe) u hu
    · obtain ⟨u, hu⟩ := (he.effect hpe).mem_queue_of_claims hclaim
      exact hret.gone j hfin u hu

/-- A worker that stops right after the marker: its lease expires, and the sweep that runs before
`ReconcileCompleted` hands the job to another worker. -/
theorem finished_job_run_again :
    ¬∀ (cfg : Config) (tr : List Event) (s : System), Run (Step cfg) System.initial tr s →
      Throughout (Step cfg) System.initial tr (NotRunAgain cfg) := by
  intro hall
  let past := submitted 0 job1 alice ++ [claiming 0 job1 alice] ++ generated 0 job1 alice ++
    [.tick 30000] ++ requeuing 0 30000 job1 alice 1 3
  obtain ⟨t, hpast, hclaim, hnext⟩ := Run.exists_of_foldlM (step smallService) System.initial past
    (fun t => (∃ pe ∈ performed smallService t (claiming 1 job1 alice), pe.claims job1) ∧
      (step smallService t (claiming 1 job1 alice)).isSome) (by decide +kernel)
  obtain ⟨u, hu⟩ := Option.isSome_iff_exists.mp hnext
  have hfin : Finished past job1 := by
    unfold Finished
    decide +kernel
  obtain ⟨pe, hpe, hclaims⟩ := hclaim
  exact (hall _ _ u (hpast.snoc hu) past _ [] t rfl hpast job1 hfin pe hpe).2 hclaims

/-- A worker that stops before its release: recovery finds the row completed, drops the lease and
then the marker, and the next claim finds nothing. -/
theorem finished_never_run_again_reconciled :
    ∃ tr s, Run (Step smallService) System.initial tr s ∧ Finished tr job1 ∧
      Throughout (Step smallService) System.initial tr (NotRunAgain smallService) := by
  let tr := submitted 0 job1 alice ++ [claiming 0 job1 alice] ++ generated 0 job1 alice ++
    [.call (.worker 0) (.markSelect .completed job1) (.result (.ok ())),
     .call (.worker 0) (.markUpdate .completed job1 1) (.result (.ok ())),
     .tick 30000,
     .call (.recovery 0) .clock (.time 30000),
     .call (.recovery 0) (.expiredJobIDs 30000 10) (.ids [job1]),
     .call (.recovery 0) (.byID job1) (.job (.ok ⟨job1, alice, .completed, 1, 0⟩)),
     .call (.recovery 0) (.redis (.removeIfExpired job1 30000)) (.reply (.flag true)),
     .call (.recovery 0) .completedJobIDs (.ids [job1]),
     .call (.recovery 0) (.byID job1) (.job (.ok ⟨job1, alice, .completed, 1, 0⟩)),
     .call (.recovery 0) (.external (.transitionStatus job1 .completed)) (.flag true),
     .call (.recovery 0) (.external (.closeStream job1)) (.flag true),
     .call (.recovery 0) (.redis (.removeCompletedJob job1)) (.reply (.done (.ok ()))),
     .call (.worker 1) (.redis (.claimNextJob 1)) (.reply (.claim (.ok none)))]
  obtain ⟨s, hrun, -⟩ := Run.exists_of_foldlM (step smallService) System.initial tr
    (fun _ => True) (by decide +kernel)
  refine ⟨tr, s, hrun, ?_, ?_⟩
  · unfold Finished
    decide +kernel
  · exact finished_never_run_again hrun (throughout_of_always (by decide +kernel))

end InferenceQueue.Service

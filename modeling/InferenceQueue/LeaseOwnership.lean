import InferenceQueue.SystemLeases

namespace InferenceQueue.Service

open Scheduler Jobs

/-- The system, and of each worker whether the job it has in hand has left `processing_jobs` since
the worker claimed it. -/
structure Watched where
  sys : System
  ended : ℕ → Bool

def endedNext (s t : System) (ended : Bool) : Worker → Bool
  | .idle => false
  | .busy claim _ _ => ended || (s.lease claim.jobID).isSome && (t.lease claim.jobID).isNone

def watchedStep (cfg : Config) (w : Watched) (e : Event) : Option Watched :=
  (step cfg w.sys e).map fun t =>
    ⟨t, fun i => endedNext w.sys t (w.ended i) (w.sys.workers i)⟩

abbrev WatchedStep (cfg : Config) : Watched → Event → Watched → Prop := Fires (watchedStep cfg)

def Watched.initial : Watched := ⟨System.initial, fun _ => false⟩

/-- Worker `i` is still at work on `j`, but its epoch of `j` has ended. -/
def Watched.Stale (w : Watched) (i : ℕ) (j : JobID) : Prop :=
  (w.sys.workers i).job = some j ∧ w.ended i = true

instance (w : Watched) (i : ℕ) (j : JobID) : Decidable (w.Stale i j) := by
  unfold Watched.Stale
  infer_instance

/-- The heartbeat of a stale worker is told that the lease is gone, its release leaves the lease
alone, and its `MarkCompleted` or `MarkFailed` leaves the row alone. -/
def StaleHarmless (cfg : Config) (_ : List Event) (w : Watched) (e : Event) : Prop :=
  ∀ i j t, w.Stale i j → Step cfg w.sys e t →
    (∀ resp, e = .call (.heartbeat i) (.redis (.extendProcessingLease j)) resp →
      t.lease j = w.sys.lease j ∧ ∀ pe ∈ performed cfg w.sys e,
        pe.reply = .done (.error (.sentinel .schedulerJobNotFound))) ∧
    (∀ resp, e = .call (.worker i) (.redis (.releaseProcessingJob j)) resp →
      t.lease j = w.sys.lease j) ∧
    ∀ o n resp, e = .call (.worker i) (.markUpdate o j n) resp →
      t.stores.jobs.lookup j = w.sys.stores.jobs.lookup j

/-- What an event may not do to worker `i`: have a job claimed on which the worker works without a
lease, take the lease away between the SELECT and the UPDATE of its `MarkCompleted` or `MarkFailed`,
or be the SELECT of a row that is still open after the lease is gone. -/
def FencedAt (w : Watched) (i : ℕ) : Event → Prop
  | .call _ (.redis (.claimNextJob _)) _ => ∀ j ∈ nextJob w.sys.stores.redis, ¬w.Stale i j
  | .call _ (.redis op) _ => ∀ j ∈ taken w.sys.stores.redis op,
      (w.sys.workers i).job = some j → (w.sys.workers i).writing = false
  | .call (.worker k) (.markSelect _ j) _ => k = i → w.Stale i j → ¬Open w.sys j
  | _ => True

instance (w : Watched) (i : ℕ) (e : Event) : Decidable (FencedAt w i e) := by
  unfold FencedAt
  split <;> infer_instance

def Fenced (_ : List Event) (w : Watched) (e : Event) : Prop := ∀ i, FencedAt w i e

variable {cfg : Config} {s t : System} {w w' : Watched} {e : Event} {i : ℕ} {j : JobID}
  {tr : List Event} {pe : Scheduler.Event} {resp : Response}

theorem WatchedStep.sys (h : WatchedStep cfg w e w') :
    Step cfg w.sys e w'.sys ∧
      ∀ i, w'.ended i = endedNext w.sys w'.sys (w.ended i) (w.sys.workers i) := by
  obtain ⟨t, ht, rfl⟩ := Option.map_eq_some_iff.mp h
  exact ⟨ht, fun _ => rfl⟩

theorem Worker.job_proceed {claim : Claim} {beat : Heartbeat} {stage : Stage}
    (h : (Worker.proceed cfg claim beat stage resp).job = some j) : claim.jobID = j := by
  unfold Worker.proceed Worker.giveUp at h
  split at h
  all_goals try split_ifs at h
  all_goals first | exact Option.some.inj h | cases h

theorem Worker.writing_proceed {claim : Claim} {beat : Heartbeat} {stage : Stage}
    (h : (Worker.proceed cfg claim beat stage resp).writing = true) :
    ∃ o, stage.request claim = .markSelect o claim.jobID ∧ resp = .result (.ok ()) := by
  -- a worker gets to an UPDATE by a SELECT that finds the row open
  unfold Worker.proceed Worker.giveUp at h
  split at h
  all_goals try split_ifs at h
  all_goals first | exact ⟨.failed, rfl, rfl⟩ | exact ⟨.completed, rfl, rfl⟩ | cases h

theorem Step.job_of_busy {claim : Claim} {stage : Stage} {beat : Heartbeat} (he : Step cfg s e t)
    (hbusy : s.workers i = .busy claim stage beat) (hjob : (t.workers i).job = some j) :
    claim.jobID = j := by
  rcases he.worker i with hnext | ⟨resp, -, hnext⟩ | ⟨req, resp, -, -, hnext⟩
  · rw [hnext, hbusy] at hjob
    exact Option.some.inj hjob
  · rw [hnext, hbusy] at hjob
    exact Worker.job_proceed hjob
  · rw [hnext, hbusy] at hjob
    exact Option.some.inj hjob

theorem Step.writing (he : Step cfg s e t) (h : (t.workers i).writing = true) :
    (s.workers i).writing = true ∨
      ∃ o job, (s.workers i).job = some job ∧
        e = .call (.worker i) (.markSelect o job) (.result (.ok ())) := by
  rcases he.worker i with hnext | ⟨resp, rfl, hnext⟩ | ⟨req, resp, -, -, hnext⟩
  · exact Or.inl (hnext ▸ h)
  · right
    rw [hnext] at h
    cases hw : s.workers i with
    | idle =>
      rw [hw, Worker.resume] at h
      unfold Worker.claimed at h
      split at h <;> cases h
    | busy claim stage beat =>
      rw [hw] at h
      obtain ⟨o, hreq, rfl⟩ := Worker.writing_proceed h
      exact ⟨o, claim.jobID, rfl, by rw [← hreq]; rfl⟩
  · left
    rw [hnext] at h
    cases hw : s.workers i with
    | idle => simp [hw, Worker.resumeBeat, Worker.writing] at h
    | busy claim stage beat =>
      rw [hw] at h
      cases stage <;> first | rfl | cases h

theorem Worker.writing_of_request {wk : Worker} {o : Outcome} {n : ℤ}
    (h : wk.request i = .markUpdate o j n) : wk.writing = true := by
  cases wk with
  | idle => cases h
  | busy claim stage beat => cases stage <;> first | rfl | cases h

/-- A worker is stale because it was or because its job leaves `processing_jobs` now. -/
theorem WatchedStep.stale (he : WatchedStep cfg w e w') (h : w'.Stale i j) :
    w.Stale i j ∨
      ((w.sys.workers i).job = some j ∧ w.sys.lease j ≠ none ∧ w'.sys.lease j = none) := by
  obtain ⟨hjob, hended⟩ := h
  rw [he.sys.2 i] at hended
  cases hw : w.sys.workers i with
  | idle =>
    rw [hw] at hended
    cases hended
  | busy claim stage beat =>
    obtain rfl := he.sys.1.job_of_busy hw hjob
    rw [hw, endedNext, Bool.or_eq_true, Bool.and_eq_true] at hended
    rcases hended with hold | ⟨hleased, hgone⟩
    · exact Or.inl ⟨by rw [hw]; rfl, hold⟩
    · exact Or.inr ⟨rfl, by simpa [Option.isSome_iff_ne_none] using hleased, by simpa using hgone⟩

/-- A stale worker's job has no lease, and the worker is not about to write. -/
structure Fence (w : Watched) : Prop where
  lost : ∀ i j, w.Stale i j → w.sys.lease j = none
  settled : ∀ i j, w.Stale i j → (w.sys.workers i).writing = false

theorem Fence.lost_step {past : List Event} (h : Fence w) (hok : Fenced past w e)
    (he : WatchedStep cfg w e w') (hst : w'.Stale i j) : w'.sys.lease j = none := by
  rcases he.stale hst with hold | ⟨-, -, hgone⟩
  · rcases he.sys.1.lease_of_none (h.lost i j hold) with hnone | ⟨th, k, resp, rfl, hnext⟩
    · exact hnone
    · exact absurd hold (hok i j hnext)
  · exact hgone

theorem FencedAt.leave {th : Thread} {op : Op} (h : FencedAt w i (.call th (.redis op) resp))
    (htaken : taken w.sys.stores.redis op = some j) (hjob : (w.sys.workers i).job = some j) :
    (w.sys.workers i).writing = false := by
  cases op with
  | claimNextJob k => cases htaken
  | _ => exact h j htaken hjob

theorem Fence.settled_step {past : List Event} (h : Fence w) (hok : Fenced past w e)
    (he : WatchedStep cfg w e w') (hst : w'.Stale i j) :
    (w'.sys.workers i).writing = false := by
  have hbefore := he.stale hst
  by_contra hwriting
  rcases he.sys.1.writing (by simpa using hwriting) with hw | ⟨o, job, hjob, rfl⟩
  · -- it was at its UPDATE before: not without a lease, and the lease does not end there
    rcases hbefore with hold | ⟨hjob, hleased, hgone⟩
    · simp [h.settled i j hold] at hw
    · obtain ⟨pe, hpe⟩ := he.sys.1.exists_performed (hgone ▸ hleased.symm)
      have heff := he.sys.1.effect hpe
      obtain ⟨th, resp, rfl, -⟩ := Event.redisOp_eq_some (redisOp_of_performed hpe)
      have htaken := heff.taken_of_ended (heff.ended_of_zscore hleased hgone)
      simp [(hok i).leave htaken hjob] at hw
  · -- it has just read an open row
    rcases hbefore with hold | ⟨-, hleased, hgone⟩
    · obtain rfl := Option.some.inj (hjob.symm.trans hold.1)
      obtain ⟨-, st, hst, -⟩ := he.sys.1.call
      have hans : .ok () = markSelect o job w.sys.stores.jobs := answers_of_serve hst (by simp)
      exact hok i rfl hold (lookup_of_markSelect hans.symm)
    · obtain ⟨pe, hpe⟩ := he.sys.1.exists_performed (hgone ▸ hleased.symm)
      cases hpe

theorem Fence.harmless {past : List Event} (h : Fence w) : StaleHarmless cfg past w e := by
  intro i j t hst he
  have hlost := h.lost i j hst
  refine ⟨?_, ?_, ?_⟩
  · rintro resp rfl
    refine ⟨?_, fun pe hpe => ?_⟩
    · rcases he.lease_of_none hlost with hnone | ⟨th, k, resp', heq, -⟩
      · exact hnone.trans hlost.symm
      · cases heq
    · have hop : pe.op = .extendProcessingLease j := by
        obtain ⟨th, resp', heq, -⟩ := Event.redisOp_eq_some (redisOp_of_performed hpe)
        exact (Request.redis.inj (Event.call.inj heq).2.1).symm
      exact (he.effect hpe).extend_not_found hlost hop
  · rintro resp rfl
    rcases he.lease_of_none hlost with hnone | ⟨th, k, resp', heq, -⟩
    · exact hnone.trans hlost.symm
    · cases heq
  · rintro o n resp rfl
    have hwriting := Worker.writing_of_request he.call.1
    rw [h.settled i j hst] at hwriting
    cases hwriting

theorem Fence.initial : Fence Watched.initial := by
  refine ⟨?_, ?_⟩
  · rintro i j ⟨hjob, -⟩
    cases hjob
  · rintro i j ⟨hjob, -⟩
    cases hjob

/-- While no event gets between a worker and its lease, a worker whose epoch has ended does no
harm. -/
theorem stale_worker_harmless (h : Run (WatchedStep cfg) Watched.initial tr w)
    (hok : Throughout (WatchedStep cfg) Watched.initial tr Fenced) :
    Throughout (WatchedStep cfg) Watched.initial tr (StaleHarmless cfg) := by
  refine Throughout.of_invariant (fun _ w => Fence w) .initial ?_ ?_ h hok
  · intro past w e w' hfence hok he
    exact ⟨fun i j => hfence.lost_step hok he, fun i j => hfence.settled_step hok he⟩
  · intro past w e w' hfence hok he
    exact hfence.harmless

/-- A worker that pauses past its lease: after the job has been requeued and claimed again, its
heartbeat renews the lease of the new owner. -/
theorem stale_worker_renews :
    ¬∀ (cfg : Config) (tr : List Event) (w : Watched),
      Run (WatchedStep cfg) Watched.initial tr w →
      Throughout (WatchedStep cfg) Watched.initial tr (StaleHarmless cfg) := by
  intro hall
  let past := submitted 0 job1 alice ++ [claiming 0 job1 alice, .tick 30000] ++
    requeuing 0 30000 job1 alice 1 3 ++ [claiming 1 job1 alice, .tick 1]
  let renewal : Event :=
    .call (.heartbeat 0) (.redis (.extendProcessingLease job1)) (.reply (.done (.ok ())))
  obtain ⟨w, hpast, hst, hnext, hok⟩ := Run.exists_of_foldlM (watchedStep smallService)
    Watched.initial past
    (fun w => w.Stale 0 job1 ∧ (watchedStep smallService w renewal).isSome ∧
      ∃ pe ∈ performed smallService w.sys renewal, pe.reply = .done (.ok ()))
    (by decide +kernel)
  obtain ⟨w', hw'⟩ := Option.isSome_iff_exists.mp hnext
  have hharm := hall _ _ w' (hpast.snoc hw') past renewal [] w rfl hpast 0 job1 w'.sys hst
    (WatchedStep.sys hw').1
  obtain ⟨pe, hpe, hreply⟩ := hok
  cases hreply.symm.trans ((hharm.1 _ rfl).2 pe hpe)

theorem fencedAt_of_idle (hidle : w.sys.workers i = .idle) : FencedAt w i e := by
  have hjob : ∀ j, (w.sys.workers i).job ≠ some j := by simp [hidle, Worker.job]
  unfold FencedAt
  split
  · exact fun j _ hst => hjob j hst.1
  · exact fun j _ hheld => absurd hheld (hjob j)
  · exact fun _ hst => absurd hst.1 (hjob _)
  · trivial

theorem fenced_of_within (n : ℕ) (h : Run (WatchedStep cfg) Watched.initial tr w)
    (hok : Throughout (WatchedStep cfg) Watched.initial tr
      fun _ w e => e.within n ∧ ∀ i < n, FencedAt w i e) :
    Throughout (WatchedStep cfg) Watched.initial tr Fenced := by
  refine Throughout.of_invariant (fun _ w => Within n w.sys) (fun i _ => ⟨rfl, rfl⟩) ?_ ?_ h hok
  · intro past w e w' hn hok he
    exact hn.step (WatchedStep.sys he).1 hok.1
  · intro past w e w' hn hok he i
    by_cases hi : i < n
    · exact hok.2 i hi
    · exact fencedAt_of_idle (hn i (Nat.not_lt.mp hi)).1

/-- A worker that hears of its lost lease before the job is claimed again. -/
theorem stale_worker_harmless_expired :
    ∃ tr w, Run (WatchedStep smallService) Watched.initial tr w ∧
      .call (.heartbeat 0) (.redis (.extendProcessingLease job1))
        (.reply (.done (.error (.sentinel .schedulerJobNotFound)))) ∈ tr ∧
      Throughout (WatchedStep smallService) Watched.initial tr (StaleHarmless smallService) := by
  let tr := submitted 0 job1 alice ++ [claiming 0 job1 alice,
      .call (.worker 0) (.retryPolicy alice) (.policy 3),
      .call (.worker 0) (.external (.payload job1)) (.flag true), .tick 30000] ++
    requeuing 0 30000 job1 alice 1 3 ++
    [.call (.heartbeat 0) (.redis (.extendProcessingLease job1))
        (.reply (.done (.error (.sentinel .schedulerJobNotFound)))),
      .call (.worker 0) (.generate job1 3) (.attempts false 1), claiming 1 job1 alice] ++
    generated 1 job1 alice
  obtain ⟨w, hrun, -⟩ := Run.exists_of_foldlM (watchedStep smallService) Watched.initial tr
    (fun _ => True) (by decide +kernel)
  refine ⟨tr, w, hrun, by decide +kernel, stale_worker_harmless hrun (fenced_of_within 2 hrun ?_)⟩
  exact throughout_of_always (by decide +kernel)

end InferenceQueue.Service

import InferenceQueue.WorkerLoop

namespace InferenceQueue.Service

open Retry

namespace JobCalls

variable (w : PoolConfig) (o : JobCalls)

/-- One of the attempts that are made at the payload succeeds, and then one at the generation. -/
def GenerationSucceeds : Prop :=
  (∃ k, SucceedsAt o.loss.context (o.payloadPolicy w) o.payload k ()) ∧
    ∃ k, SucceedsAt o.loss.context (o.generationPolicy w) o.generation k ()

/-- `processJob` begins to end the job at `t`: when it has stopped the heartbeat after a failure, or
at some time after the generation that succeeded has returned. -/
def EndsFrom (t : ℕ) : Prop :=
  match (o.fetched w).result, (o.generated w).result with
  | .error _, _ => t = o.payloadStopped
  | .ok (), .error _ => t = o.generateStopped
  | .ok (), .ok () => (o.generate (o.generated w).calls).returned ≤ t

end JobCalls

/-- Nothing is done to end the job, and the error says that the lease is lost. -/
def Processed.LeavesJobAlone (p : Processed) : Prop :=
  p.actions = [] ∧ ∃ err, p.err = some err ∧ err.is .workerLeaseExtendFailed = true

variable {w : PoolConfig} {o : JobCalls} {claim : Claim} {t : ℕ} {err : GoError}

theorem fetched_ok_iff :
    (o.fetched w).result = .ok () ↔
      ∃ k, SucceedsAt o.loss.context (o.payloadPolicy w) o.payload k () := by
  constructor
  · intro h
    exact ⟨_, doWithRetry_ok_iff.mp ⟨h, rfl⟩⟩
  · rintro ⟨k, hk⟩
    exact (doWithRetry_ok_iff.mpr hk).1

theorem generated_ok_iff :
    (o.generated w).result = .ok () ↔
      ∃ k, SucceedsAt o.loss.context (o.generationPolicy w) o.generation k () := by
  constructor
  · intro h
    exact ⟨_, doWithRetry_ok_iff.mp ⟨h, rfl⟩⟩
  · rintro ⟨k, hk⟩
    exact (doWithRetry_ok_iff.mpr hk).1

theorem generationSucceeds_iff :
    o.GenerationSucceeds w ↔ (o.fetched w).result = .ok () ∧ (o.generated w).result = .ok () := by
  rw [fetched_ok_iff, generated_ok_iff]
  rfl

theorem leavesJobAlone_lost :
    (⟨some (.both (.sentinel .workerLeaseExtendFailed) err), []⟩ : Processed).LeavesJobAlone :=
  ⟨rfl, _, rfl, by simp [GoError.is]⟩

/-- After a success the job is ended whatever has become of the lease. -/
theorem not_leavesJobAlone_of_success (hclaim : o.claim = .ok (some claim))
    (hfetched : (o.fetched w).result = .ok ()) (hgenerated : (o.generated w).result = .ok ()) :
    ¬(processJob w o).LeavesJobAlone := by
  rintro ⟨hactions, -⟩
  simp only [processJob, hclaim, hfetched, hgenerated] at hactions
  cases hmark : o.markCompleted <;> simp [hmark] at hactions

/-- A job whose lease is known to be lost is left alone exactly when its generation has not
succeeded. -/
theorem lost_job_left_alone_iff (hclaim : o.claim = .ok (some claim)) (hends : o.EndsFrom w t)
    (hlost : o.leaseLost t = true) :
    (processJob w o).LeavesJobAlone ↔ ¬o.GenerationSucceeds w := by
  rw [generationSucceeds_iff]
  cases hfetched : (o.fetched w).result with
  | error payloadErr =>
    refine iff_of_true ?_ (by simp)
    obtain rfl : t = o.payloadStopped := by simpa [JobCalls.EndsFrom, hfetched] using hends
    simp only [processJob, hclaim, hfetched, hlost, if_true]
    exact leavesJobAlone_lost
  | ok =>
    cases hgenerated : (o.generated w).result with
    | error err =>
      refine iff_of_true ?_ (by simp)
      obtain rfl : t = o.generateStopped := by
        simpa [JobCalls.EndsFrom, hfetched, hgenerated] using hends
      simp only [processJob, hclaim, hfetched, hgenerated, hlost, if_true]
      exact leavesJobAlone_lost
    | ok =>
      refine iff_of_false ?_ (by simp)
      exact not_leavesJobAlone_of_success hclaim hfetched hgenerated

/-- The lease is lost at 5, and at 6 the generation succeeds all the same. -/
def lateJob : JobCalls :=
  { RunWorker.lostJob with
    generate := fun _ => ⟨.ok (), 6, 6, true⟩
    generate_honors := by simp }

theorem late_job_ended :
    lateJob.EndsFrom RunWorker.threeAttempts 6 ∧ lateJob.leaseLost 6 = true ∧
      processJob RunWorker.threeAttempts lateJob =
        ⟨none, [.markExecutionCompleted job1, .markCompleted job1 1,
          .transitionStatus job1 "completed", .close job1, .release job1]⟩ ∧
      ¬(processJob RunWorker.threeAttempts lateJob).LeavesJobAlone := by
  refine ⟨?_, rfl, rfl, ?_⟩
  · exact le_refl 6
  · rintro ⟨hactions, -⟩
    cases hactions

theorem lost_job_left_alone_generating :
    RunWorker.lostJob.EndsFrom RunWorker.threeAttempts 7 ∧ RunWorker.lostJob.leaseLost 7 = true ∧
      (processJob RunWorker.threeAttempts RunWorker.lostJob).LeavesJobAlone := by
  have hends : RunWorker.lostJob.EndsFrom RunWorker.threeAttempts 7 := rfl
  refine ⟨hends, rfl, (lost_job_left_alone_iff rfl hends rfl).mpr ?_⟩
  rw [generationSucceeds_iff]
  rintro ⟨-, hgenerated⟩
  cases hgenerated

end InferenceQueue.Service

import InferenceQueue.WorkerLoop

namespace InferenceQueue.Service

open Retry

/-- The metrics recorder and the stream publisher may be `nil`. -/
structure Pool extends PoolConfig where
  metrics : Bool
  streamPublisher : Bool

inductive Metric
  | jobStarted
  | jobEnded
  | processingFailure
  | processingSuccess
  | jobRetriedLeaseExpired
  | jobRetriedModelFailure
  | jobFailed
  | jobCompleted
deriving DecidableEq

/-- What the calls of one `processJob` give, in any combination. -/
structure JobOutcomes extends Execution where
  /-- the error of each call that ends the job -/
  ending : JobAction → Option GoError

structure JobReport where
  err : Option GoError
  calls : List (JobAction × Option GoError)
  metrics : List Metric

namespace JobOutcomes

variable (w : Pool) (o : JobOutcomes)

def published (action : JobAction) : List JobAction := if w.streamPublisher then [action] else []

def made (actions : List JobAction) : List (JobAction × Option GoError) :=
  actions.map fun action => (action, o.ending action)

/-- `MarkFailed`, `TransitionStatus`, `Release` and `PublishEvent`, none of which stops the next. -/
def failureCleanup (jobID : JobID) (retryCount : ℤ) : List (JobAction × Option GoError) :=
  o.made ([.markFailed jobID retryCount, .transitionStatus jobID "failed", .release jobID] ++
    published w (.publishEvent jobID "failed" failureMessage))

def completion (jobID : JobID) : JobReport :=
  let retryCount : ℤ := (o.generated w.toPoolConfig).calls
  let marks := [.markExecutionCompleted jobID, .markCompleted jobID retryCount]
  match o.ending (.markCompleted jobID retryCount) with
  | some err =>
    ⟨some err, o.made (marks ++ published w (.close jobID) ++ [.release jobID]), []⟩
  | none =>
    ⟨none, o.made (marks ++ [.transitionStatus jobID "completed"] ++ published w (.close jobID) ++
      [.release jobID]), [.jobCompleted]⟩

def execute (jobID : JobID) : JobReport :=
  match (o.fetched w.toPoolConfig).result with
  | .error payloadErr =>
    if o.leaseLost o.payloadStopped then
      ⟨some (.both (.sentinel .workerLeaseExtendFailed) payloadErr), [], [.jobRetriedLeaseExpired]⟩
    else
      -- the calls of the cleanup have an `err` of their own, so this is the one of `GetRetryPolicy`
      let (policy, err) := o.retryPolicy w.toPoolConfig
      ⟨err, o.failureCleanup w jobID policy.maxAttempts, []⟩
  | .ok () =>
    let retried :=
      ((o.generated w.toPoolConfig).events.filter RetryEvent.willRetry).map fun _ =>
        Metric.jobRetriedModelFailure
    match (o.generated w.toPoolConfig).result with
    | .error err =>
      if o.leaseLost o.generateStopped then
        ⟨some (.both (.sentinel .workerLeaseExtendFailed) err), [], retried⟩
      else
        let retryCount : ℤ := (o.generated w.toPoolConfig).calls
        let failed := if o.ending (.markFailed jobID retryCount) = none then [.jobFailed] else []
        ⟨some err, o.failureCleanup w jobID retryCount, retried ++ failed⟩
    | .ok () =>
      let r := o.completion w jobID
      { r with metrics := retried ++ r.metrics }

/-- The deferred function reads the error that is returned. -/
def processJob : JobReport :=
  match o.claim with
  | .error err => ⟨some err, [], []⟩
  | .ok none => ⟨some (.sentinel .workerNoJobAvailable), [], []⟩
  | .ok (some claim) =>
    let r := o.execute w claim.jobID
    let observed := if r.err = none then Metric.processingSuccess else .processingFailure
    { r with
      metrics := if w.metrics then .jobStarted :: r.metrics ++ [.jobEnded, observed] else [] }

end JobOutcomes

def JobCalls.outcomes (o : JobCalls) (ending : JobAction → Option GoError) : JobOutcomes :=
  ⟨o.toExecution, ending⟩

/-- `MarkCompleted` has been called for the job and did not fail. -/
def JobReport.Completed (r : JobReport) (jobID : JobID) : Prop :=
  ∃ retryCount, (.markCompleted jobID retryCount, none) ∈ r.calls

/-- No error is returned, and a success is recorded, exactly when the job has been marked
completed. -/
structure ReportsCompletion (w : Pool) (o : JobOutcomes) (jobID : JobID) : Prop where
  returned : (o.processJob w).err = none ↔ (o.processJob w).Completed jobID
  recorded : w.metrics = true →
    (.processingSuccess ∈ (o.processJob w).metrics ↔ (o.processJob w).Completed jobID)

/-- The payload is fetched, or its failure is reported: `GetRetryPolicy` had failed before, or the
lease is lost by the time the heartbeat is stopped. -/
def PayloadFailureReported (w : Pool) (o : JobOutcomes) : Prop :=
  (∃ k, SucceedsAt o.loss.context (o.payloadPolicy w.toPoolConfig) o.payload k ()) ∨
    (∃ err, o.policy = .error err) ∨ o.leaseLost o.payloadStopped = true

variable {w : Pool} {o : JobOutcomes} {claim : Claim} {jobID : JobID}

open JobOutcomes

theorem mem_made {action : JobAction} {err : Option GoError} {actions : List JobAction} :
    (action, err) ∈ o.made actions ↔ action ∈ actions ∧ o.ending action = err := by
  unfold made
  rw [List.mem_map]
  constructor
  · rintro ⟨a, ha, heq⟩
    obtain ⟨rfl, rfl⟩ := Prod.mk.inj heq
    exact ⟨ha, rfl⟩
  · rintro ⟨ha, rfl⟩
    exact ⟨action, ha, rfl⟩

theorem mem_published {action action' : JobAction} (h : action ∈ published w action') :
    action = action' := by
  unfold published at h
  split_ifs at h
  · exact List.mem_singleton.mp h
  · cases h

theorem not_completed_failureCleanup {n : ℤ} {err : Option GoError} {metrics : List Metric} :
    ¬JobReport.Completed ⟨err, o.failureCleanup w jobID n, metrics⟩ jobID := by
  rintro ⟨m, hmem⟩
  have hmade := (mem_made.mp hmem).1
  simp only [List.mem_append, List.mem_cons, List.not_mem_nil, reduceCtorEq, or_false,
    false_or] at hmade
  cases mem_published hmade

theorem completion_completed :
    (o.completion w jobID).err = none ↔ (o.completion w jobID).Completed jobID := by
  cases hmark : o.ending (.markCompleted jobID (o.generated w.toPoolConfig).calls) with
  | none =>
    simp only [completion, hmark]
    refine iff_of_true trivial ⟨(o.generated w.toPoolConfig).calls, mem_made.mpr ⟨?_, hmark⟩⟩
    simp
  | some err =>
    simp only [completion, hmark]
    refine iff_of_false (by simp) ?_
    rintro ⟨n, hmem⟩
    obtain ⟨hmem, hnone⟩ := mem_made.mp hmem
    -- the only `MarkCompleted` is the one that failed
    have hn : n = (o.generated w.toPoolConfig).calls := by
      simp only [List.mem_append, List.mem_cons, List.not_mem_nil, reduceCtorEq, or_false,
        false_or] at hmem
      rcases hmem with hmem | hmem
      · exact (JobAction.markCompleted.inj hmem).2
      · cases mem_published hmem
    rw [hn, hmark] at hnone
    cases hnone

theorem execute_completed_of_fetched (hfetched : (o.fetched w.toPoolConfig).result = .ok ()) :
    (o.execute w jobID).err = none ↔ (o.execute w jobID).Completed jobID := by
  -- past the payload the error tells whether the job has been marked completed
  cases hgenerated : (o.generated w.toPoolConfig).result with
  | error err =>
    cases hlost : o.leaseLost o.generateStopped
    · simp only [execute, hfetched, hgenerated, hlost, Bool.false_eq_true, if_false]
      exact iff_of_false (by simp) not_completed_failureCleanup
    · simp only [execute, hfetched, hgenerated, hlost, if_true]
      exact iff_of_false (by simp) (by rintro ⟨n, ⟨⟩⟩)
  | ok =>
    simp only [execute, hfetched, hgenerated]
    exact completion_completed

theorem execute_completed_iff :
    ((o.execute w jobID).err = none ↔ (o.execute w jobID).Completed jobID) ↔
      PayloadFailureReported w o := by
  unfold PayloadFailureReported
  cases hfetched : (o.fetched w.toPoolConfig).result with
  | ok =>
    refine iff_of_true (execute_completed_of_fetched hfetched) (Or.inl ?_)
    exact ⟨_, doWithRetry_ok_iff.mp ⟨hfetched, rfl⟩⟩
  | error payloadErr =>
    have hnone :
        ¬∃ k, SucceedsAt o.loss.context (o.payloadPolicy w.toPoolConfig) o.payload k () := by
      rintro ⟨k, hk⟩
      cases hfetched.symm.trans (doWithRetry_ok_iff.mpr hk).1
    rw [or_iff_right hnone]
    cases hlost : o.leaseLost o.payloadStopped with
    | true =>
      refine iff_of_true ?_ (Or.inr rfl)
      simp only [execute, hfetched, hlost, if_true]
      exact iff_of_false (by simp) (by rintro ⟨n, ⟨⟩⟩)
    | false =>
      simp only [execute, hfetched, hlost, Bool.false_eq_true, if_false, or_false,
        iff_false_right (not_completed_failureCleanup (w := w))]
      unfold Execution.retryPolicy
      cases o.policy <;> simp

theorem processJob_of_claim (hclaim : o.claim = .ok (some claim)) :
    (o.processJob w).err = (o.execute w claim.jobID).err ∧
      (o.processJob w).calls = (o.execute w claim.jobID).calls := by
  unfold JobOutcomes.processJob
  rw [hclaim]
  exact ⟨rfl, rfl⟩

theorem not_success_mem_execute : .processingSuccess ∉ (o.execute w jobID).metrics := by
  have hcompletion : .processingSuccess ∉ (o.completion w jobID).metrics := by
    unfold completion
    dsimp only
    split <;> simp
  unfold execute
  split
  · split_ifs <;> simp
  · dsimp only
    split
    · split_ifs <;> simp
    · simp [hcompletion]

theorem success_recorded_iff (hclaim : o.claim = .ok (some claim)) (hmetrics : w.metrics = true) :
    .processingSuccess ∈ (o.processJob w).metrics ↔ (o.processJob w).err = none := by
  unfold JobOutcomes.processJob
  rw [hclaim]
  have hbody : .processingSuccess ∉ (o.execute w claim.jobID).metrics := not_success_mem_execute
  dsimp only
  split_ifs with herr <;> simp [herr, hbody]

/-- A claimed job is reported as it ended exactly when its payload is fetched, or `GetRetryPolicy`
fails before it, or the lease is lost with it. -/
theorem reports_completion_iff (hclaim : o.claim = .ok (some claim)) :
    ReportsCompletion w o claim.jobID ↔ PayloadFailureReported w o := by
  obtain ⟨herr, hcalls⟩ := processJob_of_claim (w := w) hclaim
  have hcompleted : (o.processJob w).Completed claim.jobID ↔
      (o.execute w claim.jobID).Completed claim.jobID := by
    unfold JobReport.Completed
    rw [hcalls]
  have hexecute : ((o.execute w claim.jobID).err = none ↔
      (o.execute w claim.jobID).Completed claim.jobID) ↔ PayloadFailureReported w o :=
    execute_completed_iff
  rw [← hexecute, ← herr, ← hcompleted]
  constructor
  · exact fun h => h.returned
  · intro h
    exact ⟨h, fun hmetrics => (success_recorded_iff hclaim hmetrics).trans h⟩

def reportingPool : Pool :=
  { RunWorker.threeAttempts with metrics := true, streamPublisher := true }

/-- The payload of the job cannot be loaded, and everything else succeeds. -/
def missingPayload : JobOutcomes where
  claim := .ok (some ⟨alice, job1⟩)
  loss := none
  policy := .ok ⟨3, 0, 0⟩
  payload _ := ⟨.error (.sentinel .jobNotFound), 2, 2, true⟩
  payloadStopped := 3
  generate _ := ⟨.ok (), 6, 6, true⟩
  generateStopped := 7
  ending _ := none

/-- The job is marked failed, and a success is returned and recorded for it. -/
theorem failed_job_recorded_as_success :
    (missingPayload.processJob reportingPool).err = none ∧
      (missingPayload.processJob reportingPool).calls.map Prod.fst =
        [.markFailed job1 3, .transitionStatus job1 "failed", .release job1,
          .publishEvent job1 "failed" failureMessage] ∧
      (missingPayload.processJob reportingPool).metrics =
        [.jobStarted, .jobEnded, .processingSuccess] ∧
      ¬(missingPayload.processJob reportingPool).Completed job1 := by
  refine ⟨rfl, rfl, rfl, ?_⟩
  rintro ⟨n, hmem⟩
  exact not_completed_failureCleanup ⟨n, hmem⟩

def completedJob : JobOutcomes :=
  { missingPayload with
    policy := .error (.text "no retry policy configured")
    payload := fun _ => ⟨.ok (), 2, 2, true⟩ }

theorem reports_completion_completed :
    (completedJob.processJob reportingPool).err = none ∧
      ReportsCompletion reportingPool completedJob job1 := by
  have hclaim : completedJob.claim = .ok (some ⟨alice, job1⟩) := rfl
  refine ⟨rfl, (reports_completion_iff hclaim).mpr ?_⟩
  exact Or.inr (Or.inl ⟨_, rfl⟩)

section

variable {o : JobCalls} {ending : JobAction → Option GoError}

theorem map_fst_made (actions : List JobAction) :
    ((o.outcomes ending).made actions).map Prod.fst = actions := by
  simp [made, Function.comp_def]

theorem map_fst_failureCleanup (hpublisher : w.streamPublisher = true) (n : ℤ) :
    ((o.outcomes ending).failureCleanup w jobID n).map Prod.fst =
      Service.failureCleanup jobID n := by
  rw [JobOutcomes.failureCleanup, map_fst_made, published, if_pos hpublisher]
  rfl

theorem completion_of_jobCalls (hpublisher : w.streamPublisher = true)
    (hending : ∀ j n, ending (.markCompleted j n) = o.markCompleted)
    (hclaim : o.claim = .ok (some claim)) (hfetched : (o.fetched w.toPoolConfig).result = .ok ())
    (hgenerated : (o.generated w.toPoolConfig).result = .ok ()) :
    ((o.outcomes ending).completion w claim.jobID).err =
        (Service.processJob w.toPoolConfig o).err ∧
      ((o.outcomes ending).completion w claim.jobID).calls.map Prod.fst =
        (Service.processJob w.toPoolConfig o).actions := by
  have hmark : ∀ n, (o.outcomes ending).ending (.markCompleted claim.jobID n) = o.markCompleted :=
    hending claim.jobID
  simp only [completion, Service.processJob, hclaim, hfetched, hgenerated, hmark, published,
    hpublisher, if_true]
  cases o.markCompleted with
  | none => exact ⟨rfl, map_fst_made _⟩
  | some err => exact ⟨rfl, map_fst_made _⟩

/-- With a stream publisher, and with the outcome of `MarkCompleted` that `JobCalls` has, the report
has the error and the calls of `processJob` there. -/
theorem report_of_jobCalls (hpublisher : w.streamPublisher = true)
    (hending : ∀ j n, ending (.markCompleted j n) = o.markCompleted) :
    ((o.outcomes ending).processJob w).err = (Service.processJob w.toPoolConfig o).err ∧
      ((o.outcomes ending).processJob w).calls.map Prod.fst =
        (Service.processJob w.toPoolConfig o).actions := by
  have hsame : (o.outcomes ending).toExecution = o.toExecution := rfl
  cases hclaim : (o.outcomes ending).claim with
  | error err =>
    have hclaim' : o.claim = .error err := hclaim
    simp [JobOutcomes.processJob, Service.processJob, hclaim, hclaim']
  | ok claim? =>
    have hclaim' : o.claim = .ok claim? := hclaim
    cases claim? with
    | none => simp [JobOutcomes.processJob, Service.processJob, hclaim, hclaim']
    | some claim =>
      obtain ⟨herr, hcalls⟩ := processJob_of_claim (w := w) hclaim
      rw [herr, hcalls]
      cases hfetched : (o.fetched w.toPoolConfig).result with
      | error payloadErr =>
        simp only [execute, Service.processJob, hsame, hclaim', hfetched]
        split_ifs
        · exact ⟨rfl, rfl⟩
        · exact ⟨rfl, map_fst_failureCleanup hpublisher _⟩
      | ok =>
        cases hgenerated : (o.generated w.toPoolConfig).result with
        | error err =>
          simp only [execute, Service.processJob, hsame, hclaim', hfetched, hgenerated]
          split_ifs
          · exact ⟨rfl, rfl⟩
          · exact ⟨rfl, map_fst_failureCleanup hpublisher _⟩
          · exact ⟨rfl, map_fst_failureCleanup hpublisher _⟩
        | ok =>
          simp only [execute, hsame, hfetched, hgenerated]
          exact completion_of_jobCalls hpublisher hending hclaim' hfetched hgenerated

end

end InferenceQueue.Service

import InferenceQueue.CoalescingModel
import InferenceQueue.IdempotencyModel
import InferenceQueue.SchedulerModel

namespace InferenceQueue.Inference

open Idempotency Coalescing

def errTypeInference : String := "INFERENCE_FAILED"

def errCodeIdempotencyConflict : String := "INFERENCE_IDEMPOTENCY_CONFLICT"

def errCodeCheckIdempotencyFailed : String := "IDEMPOTENCY_CHECK_FAILED"

def errCodeTryCoalescingFailed : String := "TRY_COALESCING_FAILED"

def errCodeCoalescingRejected : String := "COALESCING_REJECTED"

def errCodeRequestValidation : String := "REQUEST_VALIDATION_FAILED"

def errCodeJobCreationFailed : String := "JOB_CREATION_FAILED"

def errCodeIdempotencyUnknown : String := "IDEMPOTENCY_UNKNOWN_STATUS"

def errCodeAdmissionFailed : String := "ADMISSION_FAILED"

def errCodeInferenceEnqueueFailed : String := "INFERENCE_ENQUEUE_FAILED"

def errCodeReleaseCoalescing : String := "RELEASE_COALESCING_FAILED"

def errCodeReleaseIdempotencyKey : String := "RELEASE_IDEMPOTENCY_FAILED"

def errCodeIdempotencyJobFailed : String := "IDEMPOTENCY_JOB_FAILED"

def errTypeScheduler : String := "SCHEDULER_FAILED"

def errCodeEnqueueFailed : String := "ENQUEUE_FAILED"

def errCodeQueueFull : String := "USER_QUEUE_IS_FULL"

def errCodeDuplicatedJob : String := "DUPLICATE_JOB"

/-- An error `Submit` may return: one error, or what `errors.Join` makes of several. -/
inductive SubmitError
  | one (err : GoError)
  | joined (errs : List GoError)
deriving DecidableEq

/-- `EnsureAppError`, which leaves nil alone. -/
def ensure (code : String) (err : Option GoError) : Option SubmitError :=
  err.map fun err => .one (err.ensureAppError code errTypeInference)

def join (errs : List GoError) : Option SubmitError :=
  if errs = [] then none else some (.joined errs)

/-- What the calls of one `Submit` come to. -/
structure SubmitCalls where
  claimOrGet : Except GoError IdempotencyResult
  tryCoalesce : Except GoError CoalescingAction
  admission : Option GoError
  create : Except GoError JobID
  setJobID : Option GoError
  /-- `time.Until` of the deadline in nanoseconds, if there is one -/
  deadline : Option ℤ
  /-- `PushLeft` of the scheduler -/
  pushLeft : Except GoError Scheduler.EnqueueResult
  markFailed : Option GoError
  transitionStatus : Option GoError
  deleteCoalescing : Option GoError
  deleteIdempotency : Option GoError

inductive SubmitCall
  | claimOrGet
  | tryCoalesce
  | admission
  | create
  | setJobID (jobID : JobID)
  | tryEnqueue (jobID : JobID)
  | markFailed (jobID : JobID)
  | transitionStatus (jobID : JobID) (status : String)
  | deleteCoalescing
  | deleteIdempotency
deriving DecidableEq

/-- What `Submit` returns, and the calls it has made. -/
structure Submitted where
  jobID : String
  err : Option SubmitError
  calls : List SubmitCall
deriving DecidableEq

def Submitted.after (calls : List SubmitCall) (s : Submitted) : Submitted :=
  { s with calls := calls ++ s.calls }

/-- `QueueService.Enqueue` and `JobEnqueuerAdapter.TryEnqueue` over `PushLeft`. -/
def tryEnqueue (result : Except GoError Scheduler.EnqueueResult) : Except GoError Bool :=
  match result with
  | .ok r => .ok r.becameActive
  | .error err =>
    let err :=
      if err.is .schedulerQueueFull then err.ensureAppError errCodeQueueFull errTypeScheduler
      else if err.is .schedulerDuplicateJob then
        err.ensureAppError errCodeDuplicatedJob errTypeScheduler
      else err.ensureAppError errCodeEnqueueFailed errTypeScheduler
    .error (if err.isCode errCodeQueueFull then .sentinel .inferenceQueueFull else err)

variable (o : SubmitCalls)

def cleanupClaims : Option SubmitError :=
  join ((o.deleteCoalescing.map
      (·.ensureAppError errCodeReleaseCoalescing errTypeInference)).toList ++
    (o.deleteIdempotency.map
      (·.ensureAppError errCodeReleaseIdempotencyKey errTypeInference)).toList)

def cleanupCalls : List SubmitCall := [.deleteCoalescing, .deleteIdempotency]

/-- What a short deadline and a full queue are answered with; the errors are only logged. -/
def rejectCalls (jobID : JobID) : List SubmitCall :=
  [.markFailed jobID, .transitionStatus jobID "failed", .deleteCoalescing]

/-- From the check of the deadline on. -/
def enqueueJob (jobID : JobID) : Submitted :=
  if o.deadline.any (· < 8000000000) then
    ⟨"", ensure errCodeCheckIdempotencyFailed
      (some (.text "request deadline too short to enqueue job")), rejectCalls jobID⟩
  else
    match tryEnqueue o.pushLeft with
    | .ok _ => ⟨jobID.val, none, [.tryEnqueue jobID]⟩
    | .error err =>
      ⟨"", ensure errCodeInferenceEnqueueFailed (some err), .tryEnqueue jobID ::
        (if err.is .inferenceQueueFull then rejectCalls jobID else [])⟩

/-- From `SetJobID` on. -/
def bindJob (jobID : JobID) : Submitted :=
  .after [.setJobID jobID]
    (match o.setJobID with
    | none => enqueueJob o jobID
    | some _ =>
      .after (.markFailed jobID :: cleanupCalls)
        (match cleanupClaims o with
        | some err => ⟨"", some err, []⟩
        -- the `err` of the inner scope hides that of `SetJobID`
        | none => ⟨"", ensure errCodeCheckIdempotencyFailed none, []⟩))

/-- From the creation of the job on. -/
def createJob : Submitted :=
  .after [.create]
    (match o.create with
    | .ok jobID => bindJob o jobID
    | .error _ =>
      .after cleanupCalls
        (match cleanupClaims o with
        | some err => ⟨"", some err, []⟩
        -- the `err` of the inner scope hides that of `Create`
        | none => ⟨"", ensure errCodeJobCreationFailed none, []⟩))

/-- From `Admit` on. -/
def admitJob : Submitted :=
  .after [.admission]
    (match o.admission with
    | none => createJob o
    | some admitErr =>
      .after cleanupCalls
        (match cleanupClaims o with
        | some err => ⟨"", some err, []⟩
        | none => ⟨"", ensure errCodeAdmissionFailed (some admitErr), []⟩))

/-- From `TryCoalesce` on. -/
def coalesceJob : Submitted :=
  .after [.tryCoalesce]
    (match o.tryCoalesce with
    | .error err => ⟨"", ensure errCodeTryCoalescingFailed (some err), []⟩
    | .ok .rejected =>
      ⟨"", ensure errCodeCoalescingRejected (some (.text "coalescing rejected: REJECTED")), []⟩
    | .ok .proceed => admitJob o)

/-- A request that passed its validation. -/
def claimJob : Submitted :=
  .after [.claimOrGet]
    (match o.claimOrGet with
    | .error err => ⟨"", ensure errCodeCheckIdempotencyFailed (some err), []⟩
    | .ok r =>
      match r.action with
      | .new => coalesceJob o
      | .duplicateInFlight => ⟨"", ensure errCodeIdempotencyConflict r.action.err, []⟩
      -- the script answers "" for a record without a job
      | .replay => ⟨(r.jobID.map Ident.val).getD "", none, []⟩
      | .unknown => ⟨"", ensure errCodeIdempotencyUnknown r.action.err, []⟩
      | .failed => ⟨"", ensure errCodeIdempotencyJobFailed r.action.err, []⟩)

def submit (userID : UserID) (input : InferenceInput) : Submitted :=
  match validateInferenceInput userID input with
  | .error valErr => ⟨"", ensure errCodeRequestValidation (some valErr), []⟩
  | .ok _ => claimJob o

def Enqueued (s : Submitted) (jobID : JobID) : Prop :=
  .tryEnqueue jobID ∈ s.calls ∧ ∃ r, o.pushLeft = .ok r

def Replayed (s : Submitted) (jobID? : Option JobID) : Prop :=
  .claimOrGet ∈ s.calls ∧ o.claimOrGet = .ok ⟨.replay, jobID?⟩

/-- The error is nil exactly when a job was enqueued or a completed record found, and then the
returned ID is that of the job. -/
def Truthful (s : Submitted) : Prop :=
  (s.err = none ↔ (∃ jobID, Enqueued o s jobID) ∨ ∃ jobID?, Replayed o s jobID?) ∧
    (s.err = none → ∃ jobID : JobID, s.jobID = jobID.val ∧
      (Enqueued o s jobID ∨ Replayed o s (some jobID)))

/-- A new job cannot be created or bound, and both keys are given back without an error. -/
def FailsCleanly : Prop :=
  (∃ r, o.claimOrGet = .ok r ∧ r.action = .new) ∧ o.tryCoalesce = .ok .proceed ∧
    o.admission = none ∧ o.deleteCoalescing = none ∧ o.deleteIdempotency = none ∧
    ((∃ err, o.create = .error err) ∨ ∃ jobID, o.create = .ok jobID ∧ o.setJobID ≠ none)

/-- The part of it that is left once the idempotency record is new. -/
def Reports (s : Submitted) : Prop :=
  (s.err = none ↔ ∃ jobID, Enqueued o s jobID) ∧
    (s.err = none → ∃ jobID : JobID, s.jobID = jobID.val ∧ Enqueued o s jobID)

variable {o} {s : Submitted} {calls : List SubmitCall} {code : String} {err : SubmitError}
  {jobID : JobID}

theorem reports_after (hcalls : ∀ jobID, .tryEnqueue jobID ∉ calls) :
    Reports o (s.after calls) ↔ Reports o s := by
  have henq : ∀ jobID, Enqueued o (s.after calls) jobID ↔ Enqueued o s jobID := by
    intro jobID
    simp [Enqueued, Submitted.after, hcalls jobID]
  simp only [Reports, henq]
  rfl

theorem reports_of_err (herr : s.err = some err) (hcalls : ∀ jobID, ¬Enqueued o s jobID) :
    Reports o s := by
  refine ⟨iff_of_false (by simp [herr]) ?_, by simp [herr]⟩
  rintro ⟨jobID, henq⟩
  exact hcalls jobID henq

theorem not_enqueued_nil (jobID : JobID) (h : s.calls = []) : ¬Enqueued o s jobID := by
  simp [Enqueued, h]

theorem not_reports_of_nil (herr : s.err = none) (hcalls : s.calls = []) : ¬Reports o s := by
  rintro ⟨hiff, -⟩
  obtain ⟨jobID, henq⟩ := hiff.mp herr
  exact not_enqueued_nil jobID hcalls henq

theorem cleanupClaims_eq_none :
    cleanupClaims o = none ↔ o.deleteCoalescing = none ∧ o.deleteIdempotency = none := by
  unfold cleanupClaims join
  cases o.deleteCoalescing <;> cases o.deleteIdempotency <;> simp

theorem tryEnqueue_ok_iff {r : Except GoError Scheduler.EnqueueResult} :
    (∃ b, tryEnqueue r = .ok b) ↔ ∃ result, r = .ok result := by
  cases r <;> simp [tryEnqueue]

theorem reports_enqueueJob : Reports o (enqueueJob o jobID) := by
  unfold enqueueJob
  split_ifs
  · exact reports_of_err rfl (by simp [Enqueued, rejectCalls])
  · cases hpush : tryEnqueue o.pushLeft with
    | ok b =>
      obtain ⟨result, hresult⟩ := tryEnqueue_ok_iff.mp ⟨b, hpush⟩
      have henq : Enqueued o ⟨jobID.val, none, [.tryEnqueue jobID]⟩ jobID :=
        ⟨by simp, result, hresult⟩
      exact ⟨iff_of_true rfl ⟨jobID, henq⟩, fun _ => ⟨jobID, rfl, henq⟩⟩
    | error err =>
      refine reports_of_err rfl ?_
      rintro jobID' ⟨-, hok⟩
      obtain ⟨b, hb⟩ := tryEnqueue_ok_iff.mpr hok
      rw [hpush] at hb
      cases hb

theorem reports_cleanup_iff {code : String} :
    Reports o (match cleanupClaims o with
      | some err => ⟨"", some err, []⟩
      | none => ⟨"", ensure code none, []⟩) ↔ cleanupClaims o ≠ none := by
  cases hclean : cleanupClaims o with
  | some err =>
    refine iff_of_true (reports_of_err rfl fun jobID => not_enqueued_nil jobID rfl) ?_
    simp
  | none => exact iff_of_false (not_reports_of_nil rfl rfl) (by simp)

theorem reports_bindJob_iff :
    Reports o (bindJob o jobID) ↔ o.setJobID = none ∨ cleanupClaims o ≠ none := by
  rw [bindJob, reports_after (by simp)]
  cases o.setJobID with
  | none => exact iff_of_true reports_enqueueJob (Or.inl rfl)
  | some err =>
    dsimp only
    rw [reports_after (by simp [cleanupCalls]), reports_cleanup_iff]
    simp

theorem reports_createJob_iff :
    Reports o (createJob o) ↔
      (∃ jobID, o.create = .ok jobID ∧ o.setJobID = none) ∨ cleanupClaims o ≠ none := by
  rw [createJob, reports_after (by simp)]
  cases o.create with
  | ok jobID =>
    dsimp only
    rw [reports_bindJob_iff]
    simp
  | error err =>
    dsimp only
    rw [reports_after (by simp [cleanupCalls]), reports_cleanup_iff]
    simp

theorem reports_admitJob_iff :
    Reports o (admitJob o) ↔ o.admission ≠ none ∨
      (∃ jobID, o.create = .ok jobID ∧ o.setJobID = none) ∨ cleanupClaims o ≠ none := by
  rw [admitJob, reports_after (by simp)]
  cases o.admission with
  | none =>
    dsimp only
    rw [reports_createJob_iff]
    simp
  | some admitErr =>
    refine iff_of_true ?_ (Or.inl (by simp))
    dsimp only
    rw [reports_after (by simp [cleanupCalls])]
    cases cleanupClaims o with
    | some err => exact reports_of_err rfl fun jobID => not_enqueued_nil jobID rfl
    | none => exact reports_of_err rfl fun jobID => not_enqueued_nil jobID rfl

theorem reports_coalesceJob_iff :
    Reports o (coalesceJob o) ↔ o.tryCoalesce ≠ .ok .proceed ∨ o.admission ≠ none ∨
      (∃ jobID, o.create = .ok jobID ∧ o.setJobID = none) ∨ cleanupClaims o ≠ none := by
  rw [coalesceJob, reports_after (by simp)]
  cases o.tryCoalesce with
  | error err =>
    refine iff_of_true ?_ (Or.inl (by simp))
    exact reports_of_err rfl fun jobID => not_enqueued_nil jobID rfl
  | ok action =>
    cases action with
    | rejected =>
      refine iff_of_true ?_ (Or.inl (by simp))
      exact reports_of_err rfl fun jobID => not_enqueued_nil jobID rfl
    | proceed =>
      dsimp only
      rw [reports_admitJob_iff]
      simp

/-- With a new record `Submit` reports a success exactly when it has enqueued a job, unless it fails
cleanly. -/
theorem reports_coalesceJob (hnew : ∃ r, o.claimOrGet = .ok r ∧ r.action = .new) :
    Reports o (coalesceJob o) ↔ ¬FailsCleanly o := by
  rw [reports_coalesceJob_iff, ne_eq (cleanupClaims o), cleanupClaims_eq_none]
  unfold FailsCleanly
  cases o.create with
  | ok jobID =>
    simp only [hnew, Except.ok.injEq, exists_eq_left', reduceCtorEq]
    tauto
  | error err =>
    simp only [hnew, Except.error.injEq, exists_eq', reduceCtorEq, false_and]
    tauto

theorem not_replayed {jobID? : Option JobID} {r : IdempotencyResult} (hr : o.claimOrGet = .ok r)
    (haction : r.action ≠ .replay) : ¬Replayed o s jobID? := by
  rintro ⟨-, hreplay⟩
  obtain rfl := Except.ok.inj (hr.symm.trans hreplay)
  exact haction rfl

theorem truthful_iff_reports (hnot : ∀ jobID?, ¬Replayed o s jobID?) :
    Truthful o s ↔ Reports o s := by
  simp only [Truthful, Reports, hnot, exists_const, or_false]

theorem truthful_of_err (herr : s.err = some err) (hcalls : ∀ jobID, ¬Enqueued o s jobID)
    (hnot : ∀ jobID?, ¬Replayed o s jobID?) : Truthful o s :=
  (truthful_iff_reports hnot).mpr (reports_of_err herr hcalls)

theorem truthful_replay_iff {jobID? : Option JobID} (h : o.claimOrGet = .ok ⟨.replay, jobID?⟩) :
    Truthful o (claimJob o) ↔ jobID? ≠ none := by
  have hclaim : claimJob o = ⟨(jobID?.map Ident.val).getD "", none, [.claimOrGet]⟩ := by
    simp [claimJob, h, Submitted.after]
  have hreplayed : Replayed o (claimJob o) jobID? := ⟨by simp [hclaim], h⟩
  cases jobID? with
  | some jobID =>
    refine iff_of_true ⟨iff_of_true (by rw [hclaim]) (Or.inr ⟨_, hreplayed⟩), fun _ => ?_⟩ (by simp)
    exact ⟨jobID, by rw [hclaim]; rfl, Or.inr hreplayed⟩
  | none =>
    refine iff_of_false ?_ (by simp)
    rintro ⟨-, hname⟩
    obtain ⟨jobID, heq, -⟩ := hname (by rw [hclaim])
    rw [hclaim] at heq
    exact jobID.nonempty heq.symm

theorem truthful_claimJob_iff :
    Truthful o (claimJob o) ↔ ¬FailsCleanly o ∧ o.claimOrGet ≠ .ok ⟨.replay, none⟩ := by
  cases hclaim : o.claimOrGet with
  | error err =>
    have heq : claimJob o = .after [.claimOrGet]
        ⟨"", ensure errCodeCheckIdempotencyFailed (some err), []⟩ := by rw [claimJob, hclaim]
    refine iff_of_true (truthful_of_err (by rw [heq]; rfl) ?_ ?_) ⟨?_, by simp⟩
    · simp [heq, Enqueued, Submitted.after]
    · rintro jobID? ⟨-, hreplay⟩
      cases hclaim.symm.trans hreplay
    · rintro ⟨⟨r, hr, -⟩, -⟩
      cases hclaim.symm.trans hr
  | ok r =>
    obtain ⟨action, jobID?⟩ := r
    have hclean : action ≠ .new → ¬FailsCleanly o := by
      rintro hne ⟨⟨r, hr, hnew⟩, -⟩
      obtain rfl := Except.ok.inj (hclaim.symm.trans hr)
      exact hne hnew
    -- the three refusals carry an error of their own
    have hrefused : action ≠ .new → action ≠ .replay → ∀ code : String, ∀ goErr : GoError,
        claimJob o = .after [.claimOrGet] ⟨"", ensure code (some goErr), []⟩ →
        (Truthful o (claimJob o) ↔
          ¬FailsCleanly o ∧
            (.ok ⟨action, jobID?⟩ : Except GoError IdempotencyResult) ≠ .ok ⟨.replay, none⟩) := by
      intro hnew hreplay code goErr heq
      refine iff_of_true
        (truthful_of_err (by rw [heq]; rfl) ?_ fun _ => not_replayed hclaim hreplay)
        ⟨hclean hnew, ?_⟩
      · simp [heq, Enqueued, Submitted.after]
      · rintro ⟨⟩
        exact hreplay rfl
    cases action with
    | new =>
      rw [truthful_iff_reports fun _ => not_replayed hclaim (by simp)]
      rw [show claimJob o = .after [.claimOrGet] (coalesceJob o) by rw [claimJob, hclaim],
        reports_after (by simp), reports_coalesceJob ⟨_, hclaim, rfl⟩]
      simp
    | replay =>
      rw [truthful_replay_iff hclaim]
      simp [hclean (by simp)]
    | duplicateInFlight | unknown | failed =>
      exact hrefused (by simp) (by simp) _ _ (by rw [claimJob, hclaim]; rfl)

/-- `Submit` tells the truth exactly when a request that gets so far neither fails cleanly nor finds
a completed record without a job. -/
theorem submit_truthful_iff (o : SubmitCalls) (userID : UserID) (input : InferenceInput) :
    Truthful o (submit o userID input) ↔
      (∃ valErr, validateInferenceInput userID input = .error valErr) ∨
        (¬FailsCleanly o ∧ o.claimOrGet ≠ .ok ⟨.replay, none⟩) := by
  unfold submit
  cases validateInferenceInput userID input with
  | error valErr =>
    refine iff_of_true (truthful_of_err rfl ?_ ?_) (Or.inl ⟨valErr, rfl⟩)
    · simp [Enqueued]
    · simp [Replayed]
  | ok request =>
    dsimp only
    rw [truthful_claimJob_iff]
    simp

/-- The database refuses the row; everything else goes well. -/
def refusedRow : SubmitCalls where
  claimOrGet := .ok ⟨.new, none⟩
  tryCoalesce := .ok .proceed
  admission := none
  create := .error (.text "insert job")
  setJobID := none
  deadline := none
  pushLeft := .ok ⟨true⟩
  markFailed := none
  transitionStatus := none
  deleteCoalescing := none
  deleteIdempotency := none

/-- No job, no error. -/
theorem refused_row_accepted :
    submit refusedRow alice ⟨"hello", "llama"⟩ =
        ⟨"", none, [.claimOrGet, .tryCoalesce, .admission, .create, .deleteCoalescing,
          .deleteIdempotency]⟩ ∧
      ¬Truthful refusedRow (submit refusedRow alice ⟨"hello", "llama"⟩) := by
  have hsubmit : submit refusedRow alice ⟨"hello", "llama"⟩ =
      ⟨"", none, [.claimOrGet, .tryCoalesce, .admission, .create, .deleteCoalescing,
        .deleteIdempotency]⟩ := by
    decide +kernel
  refine ⟨hsubmit, fun h => ?_⟩
  rw [hsubmit] at h
  obtain ⟨jobID, heq, -⟩ := h.2 rfl
  exact jobID.nonempty heq.symm

end InferenceQueue.Inference

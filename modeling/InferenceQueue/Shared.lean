import Mathlib.Data.String.Basic

namespace InferenceQueue

/-- Job IDs are printed UUIDs and user IDs the `user_id` column of `users`; neither is empty. -/
structure Ident where
  val : String
  nonempty : val ≠ ""
deriving DecidableEq

theorem Ident.val_injective : Function.Injective Ident.val := by
  rintro ⟨a, ha⟩ ⟨b, hb⟩ h
  obtain rfl : a = b := h
  rfl

instance : LinearOrder Ident := LinearOrder.lift' Ident.val Ident.val_injective

abbrev UserID := Ident
abbrev JobID := Ident

/-- The package-level `errors.New` values, compared by identity: two packages may give the same
text to different values. The two of package `context` and one of `pgx` belong to them. -/
inductive Sentinel
  | contextCanceled
  | contextDeadlineExceeded
  | schedulerDuplicateJob
  | schedulerQueueFull
  | schedulerJobNotFound
  | jobNotFound
  | jobInvalidTransition
  | recoveryJobNotFound
  | admissionRateLimited
  | admissionCostExceedsCapacity
  | admissionModelNotAllowed
  | admissionInputTooLarge
  | admissionContextLengthExceeded
  | inferenceEmptyPrompt
  | inferenceModelNotSet
  | inferenceQueueFull
  | workerNoJobAvailable
  | workerInferenceFailed
  | workerTransientInference
  | workerLeaseExtendFailed
  | oauthAccountNotFound
  | oauthStateParameterNotFound
  | userNotFound
  | txCommitRollback
deriving DecidableEq, Repr

def Sentinel.text : Sentinel → String
  | contextCanceled => "context canceled"
  | contextDeadlineExceeded => "context deadline exceeded"
  | schedulerDuplicateJob => "duplicate job: a job with this ID already exists in the queue"
  | schedulerQueueFull =>
    "queue full: user has reached the maximum number of concurrent jobs allowed"
  | schedulerJobNotFound =>
    "job not found: the job with the specified ID does not exist in the queue"
  | jobNotFound => "job not found"
  | jobInvalidTransition => "invalid job transition"
  | recoveryJobNotFound => "job not found"
  | admissionRateLimited => "request rate limited"
  | admissionCostExceedsCapacity =>
    "request cost (input tokens + max output tokens) exceeded the maximum allowed tokens for " ++
      "the user's tier"
  | admissionModelNotAllowed => "model not allowed for the user's current tier"
  | admissionInputTooLarge => "input exceeds the maximum allowed token count for the user's tier"
  | admissionContextLengthExceeded =>
    "input tokens + max output tokens exceed the model's context window"
  | inferenceEmptyPrompt => "prompt can not be empty"
  | inferenceModelNotSet => "model must be set"
  | inferenceQueueFull => "queue is full"
  | workerNoJobAvailable => "no job available in the queue"
  | workerInferenceFailed => "inference generation failed"
  | workerTransientInference => "transient inference failure"
  | workerLeaseExtendFailed => "processing lease lost"
  | oauthAccountNotFound => "oauth account not found"
  | oauthStateParameterNotFound => "state parameter not found"
  | userNotFound => "user not found"
  | txCommitRollback => "commit unexpectedly resulted in rollback"

/-- A Go error: a sentinel, a text made by `fmt.Errorf` without `%w`, a text in front of one
wrapped error, two wrapped errors (`"%w: %w"`), or an `*AppError`. -/
inductive GoError
  | sentinel (s : Sentinel)
  | text (msg : String)
  | wrap (msg : String) (err : GoError)
  | both (first second : GoError)
  | app (errCode errType : String) (err : GoError)
deriving DecidableEq, Repr

namespace GoError

/-- The `Error` method. -/
def message : GoError → String
  | sentinel s => s.text
  | text msg => msg
  | wrap msg err => msg ++ err.message
  | both first second => first.message ++ ": " ++ second.message
  | app errCode _ err =>
    if errCode = "" then err.message else errCode ++ ": " ++ err.message

/-- `errors.Is` against a sentinel: the `Is` method of `AppError` only accepts other `AppError`s. -/
def is (target : Sentinel) : GoError → Bool
  | sentinel s => s = target
  | text _ => false
  | wrap _ err => err.is target
  | both first second => first.is target || second.is target
  | app _ _ err => err.is target

/-- `errors.As` against `*AppError`: the code of the outermost one. -/
def appCode : GoError → Option String
  | sentinel _ => none
  | text _ => none
  | wrap _ err => err.appCode
  | both first second => first.appCode.or second.appCode
  | app errCode _ _ => some errCode

def isCode (err : GoError) (code : String) : Bool := err.appCode = some code

def ensureAppError (err : GoError) (defaultErrorCode defaultErrorType : String) : GoError :=
  match err.appCode with
  | some _ => err
  | none => app defaultErrorCode defaultErrorType err

end GoError

instance instDecidableEqExcept {ε α : Type*} [DecidableEq ε] [DecidableEq α] :
    DecidableEq (Except ε α)
  | .ok a, .ok b =>
    if h : a = b then isTrue (congrArg Except.ok h) else isFalse fun heq => h (Except.ok.inj heq)
  | .error e, .error e' =>
    if h : e = e' then isTrue (congrArg Except.error h)
    else isFalse fun heq => h (Except.error.inj heq)
  | .ok _, .error _ => isFalse nofun
  | .error _, .ok _ => isFalse nofun

def alice : UserID := ⟨"alice", by decide⟩

def bob : UserID := ⟨"bob", by decide⟩

def job1 : JobID := ⟨"job-1", by decide⟩

def job2 : JobID := ⟨"job-2", by decide⟩

def job3 : JobID := ⟨"job-3", by decide⟩

end InferenceQueue

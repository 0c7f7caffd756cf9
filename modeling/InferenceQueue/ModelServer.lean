import InferenceQueue.WorkerLoop

namespace InferenceQueue.ModelServer

inductive ServerSentinel
  | invalidRequest
  | authenticationFailed
  | modelNotFound
  | contentFiltered
  | maxTokensExceeded
  | serverOverloaded
  | rateLimitExceeded
  | streamInterrupted
  | streamIdleTimeout
  | unknown
  | incompleteGeneration
deriving DecidableEq, Repr

def ServerSentinel.text : ServerSentinel → String
  | invalidRequest => "invalid request"
  | authenticationFailed => "authentication failed"
  | modelNotFound => "model not found"
  | contentFiltered => "content filtered"
  | maxTokensExceeded => "max tokens exceeded"
  | serverOverloaded => "server overloaded"
  | rateLimitExceeded => "rate limit exceeded"
  | streamInterrupted => "stream interrupted"
  | streamIdleTimeout => "stream idle timeout"
  | unknown => "unknown error"
  | incompleteGeneration => "incomplete generation"

/-- An error of the package: one of its values, one with a text (`"%w: %s"`), one in front of
another error (`"%w: %w"`), a text in front of an error, or an error of a library. -/
inductive ServerError
  | sentinel (s : ServerSentinel)
  | detailed (s : ServerSentinel) (msg : String)
  | both (s : ServerSentinel) (err : ServerError)
  | wrap (msg : String) (err : ServerError)
  | foreign (err : GoError)
deriving DecidableEq, Repr

namespace ServerError

/-- `errors.Is` against a value of the package. -/
def is (target : ServerSentinel) : ServerError → Bool
  | sentinel s => s = target
  | detailed s _ => s = target
  | both s err => s = target || err.is target
  | wrap _ err => err.is target
  | foreign _ => false

/-- Nothing outside of the package looks at its `errors.New` values, so they become texts when an
error leaves it. -/
def toGoError : ServerError → GoError
  | sentinel s => .text s.text
  | detailed s msg => .text (s.text ++ ": " ++ msg)
  | both s err => .both (.text s.text) err.toGoError
  | wrap msg err => .wrap msg err.toGoError
  | foreign err => err

end ServerError

structure APIError where
  statusCode : ℤ
  message : String
deriving DecidableEq, Repr

/-- What `stream.Err()` returns, with the API error in its chain and whether there is a `net.Error`
in it.  The libraries know neither `AppError` nor the errors of the worker. -/
structure StreamError where
  err : GoError
  apiErr : Option APIError
  netErr : Bool
  no_appErr : err.appCode = none
  not_transient : err.is .workerTransientInference = false
deriving DecidableEq

def classifyAPIError (apiErr : APIError) : ServerError :=
  match apiErr.statusCode with
  | 400 => .detailed .invalidRequest apiErr.message
  | 401 | 403 => .detailed .authenticationFailed apiErr.message
  | 404 => .detailed .modelNotFound apiErr.message
  | 429 => .detailed .rateLimitExceeded apiErr.message
  | 500 | 502 | 503 => .detailed .serverOverloaded apiErr.message
  | statusCode =>
    .detailed .unknown (apiErr.message ++ " (status: " ++ toString statusCode ++ ")")

def classifyOpenAIError (e : StreamError) : ServerError :=
  match e.apiErr with
  | some apiErr => classifyAPIError apiErr
  | none =>
    if e.err.is .contextDeadlineExceeded then .both .serverOverloaded (.foreign e.err)
    else if e.err.is .contextCanceled then .both .streamInterrupted (.foreign e.err)
    -- with and without `Timeout()`
    else if e.netErr then .both .serverOverloaded (.foreign e.err)
    else .both .unknown (.foreign e.err)

def idleError : ServerError :=
  .wrap "streaming generation: " (.both .serverOverloaded (.sentinel .streamIdleTimeout))

/-- `GenerateStream` once `stream.Next()` is false; `idle` tells whether the context was cancelled
by the idle timer. -/
def conclude (idle : Bool) (streamErr : Option StreamError) (finishReason : String) :
    Option ServerError :=
  if idle then some idleError
  else
    match streamErr with
    | some e => some (.wrap "streaming generation: " (classifyOpenAIError e))
    | none =>
      if finishReason = "" then some (.sentinel .incompleteGeneration)
      else if finishReason = "length" then some (.sentinel .maxTokensExceeded)
      else if finishReason = "content_filter" then some (.sentinel .contentFiltered)
      else none

/-- `GenerateStream` when `onChunk` fails; the error of `onChunk` is dropped. -/
def chunkError : ServerError := .wrap "chunk processing failed: " (.sentinel .streamInterrupted)

def errTypeInferenceServer : String := "INFERENCE_SERVER_FAILED"

def errCodeServerOverloaded : String := "INFERENCE_SERVER_OVERLOADED"

/-- The `switch` of the use case, in its order. -/
def errorCode (err : ServerError) : String :=
  if err.is .invalidRequest then "INFERENCE_INVALID_REQUEST"
  else if err.is .authenticationFailed then "INFERENCE_AUTHENTICATION_FAILED"
  else if err.is .modelNotFound then "INFERENCE_MODEL_NOT_FOUND"
  else if err.is .contentFiltered then "INFERENCE_CONTENT_FILTERED"
  else if err.is .maxTokensExceeded then "INFERENCE_MAX_TOKENS_EXCEEDED"
  else if err.is .serverOverloaded then errCodeServerOverloaded
  else if err.is .rateLimitExceeded then "INFERENCE_RATE_LIMIT_EXCEEDED"
  else if err.is .streamInterrupted then "INFERENCE_STREAM_INTERRUPTED"
  else if err.is .unknown then "INFERENCE_UNKNOWN_ERROR"
  else if err.is .incompleteGeneration then "INFERENCE_INCOMPLETE_GENERATION"
  else "INFERENCE_GENERATION_FAILED"

def usecaseError (err : ServerError) : GoError :=
  err.toGoError.ensureAppError (errorCode err) errTypeInferenceServer

/-- `InferenceEngineAdapter` -/
def adapterError (err : GoError) : GoError :=
  if err.isCode errCodeServerOverloaded then .both (.sentinel .workerTransientInference) err
  else err

/-- The error of one attempt, as the worker gives it to `DoWithRetry`. -/
def attemptError (err : ServerError) : GoError :=
  Service.inferenceError (adapterError (usecaseError err))

/-- `ShouldRetry` of the worker's policy. -/
def retried (err : ServerError) : Bool := (attemptError err).is .workerTransientInference

/-- The errors of the library that are taken for an overloaded server. -/
def StreamError.Overloaded (e : StreamError) : Prop :=
  match e.apiErr with
  | some apiErr => apiErr.statusCode = 500 ∨ apiErr.statusCode = 502 ∨ apiErr.statusCode = 503
  | none => e.err.is .contextDeadlineExceeded = true ∨
      (e.err.is .contextCanceled = false ∧ e.netErr = true)

/-- An error that the use case wraps and that the worker does not take for its own. -/
structure ServerError.Plain (err : ServerError) : Prop where
  no_appErr : err.toGoError.appCode = none
  not_transient : err.toGoError.is .workerTransientInference = false

/-- An attempt is repeated exactly when the use case gives it the code of an overloaded server. -/
theorem retried_iff_errorCode {err : ServerError} (h : err.Plain) :
    retried err = true ↔ errorCode err = errCodeServerOverloaded := by
  have hcode : (usecaseError err).appCode = some (errorCode err) := by
    rw [usecaseError, GoError.ensureAppError, h.no_appErr]
    rfl
  have hplain : (usecaseError err).is .workerTransientInference = false := by
    rw [usecaseError, GoError.ensureAppError, h.no_appErr]
    exact h.not_transient
  unfold retried attemptError adapterError Service.inferenceError
  rw [GoError.isCode, hcode]
  by_cases heq : errorCode err = errCodeServerOverloaded
  · simp [heq, GoError.is]
  · simp [heq, GoError.is, hplain]

theorem classifyAPIError_plain (apiErr : APIError) : (classifyAPIError apiErr).Plain := by
  unfold classifyAPIError
  split <;> exact ⟨rfl, rfl⟩

theorem classifyOpenAIError_plain (e : StreamError) : (classifyOpenAIError e).Plain := by
  have hboth : ∀ s, (ServerError.both s (.foreign e.err)).Plain := by
    intro s
    constructor
    · simp [ServerError.toGoError, GoError.appCode, e.no_appErr]
    · simp [ServerError.toGoError, GoError.is, e.not_transient]
  unfold classifyOpenAIError
  split
  · exact classifyAPIError_plain _
  · split_ifs <;> exact hboth _

theorem errorCode_classifyAPIError (apiErr : APIError) :
    errorCode (classifyAPIError apiErr) = errCodeServerOverloaded ↔
      apiErr.statusCode = 500 ∨ apiErr.statusCode = 502 ∨ apiErr.statusCode = 503 := by
  unfold classifyAPIError
  split <;> simp_all [errorCode, ServerError.is, errCodeServerOverloaded]

theorem errorCode_classifyOpenAIError (e : StreamError) :
    errorCode (classifyOpenAIError e) = errCodeServerOverloaded ↔ e.Overloaded := by
  unfold classifyOpenAIError StreamError.Overloaded
  split
  · exact errorCode_classifyAPIError _
  · split_ifs with hdeadline hcanceled hnet <;>
      simp_all [errorCode, ServerError.is, errCodeServerOverloaded]

theorem errorCode_wrap (msg : String) (err : ServerError) :
    errorCode (.wrap msg err) = errorCode err := rfl

theorem retried_conclude {idle : Bool} {streamErr : Option StreamError} {finishReason : String} :
    (∃ err ∈ conclude idle streamErr finishReason, retried err = true) ↔
      idle = true ∨ ∃ e ∈ streamErr, e.Overloaded := by
  cases idle with
  | true =>
    have hidle : retried idleError = true := by decide
    simp [conclude, hidle]
  | false =>
    cases streamErr with
    | some e =>
      have hplain := classifyOpenAIError_plain e
      have hwrap : (ServerError.wrap "streaming generation: " (classifyOpenAIError e)).Plain :=
        ⟨hplain.no_appErr, hplain.not_transient⟩
      simp [conclude, retried_iff_errorCode hwrap, errorCode_wrap, errorCode_classifyOpenAIError]
    | none =>
      simp only [conclude, Bool.false_eq_true, if_false, Option.not_mem_none, false_and,
        exists_false, or_false, iff_false]
      split_ifs <;> simp <;> decide

theorem retried_chunkError : retried chunkError = false := by decide

end InferenceQueue.ModelServer

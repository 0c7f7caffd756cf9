import InferenceQueue.RedisLayout

namespace InferenceQueue.RedisSubmission

open Redis RedisServer Idempotency Coalescing

def idempotencyScript (args : Args) : Script Resp := do
  let key := args.key 1
  let expiresIn ← tonumber (args.arg 1)
  let now := args.arg 2
  if (← present key) = 0 then
    hset key [("status", "in_flight"), ("created_at", now)]
    expireIn key expiresIn
    return .array [.bulk "NEW", .bulk "in_flight", .bulk now, .bulk ""]
  else
    let status ← hget key "status"
    let createdAt := (← hget key "created_at").getD ""
    let jobID := (← hget key "job_id").getD ""
    let action :=
      if status = some "in_flight" then "DUPLICATE_IN_FLIGHT"
      else if status = some "completed" then "REPLAY"
      else if status = some "failed" then "FAILED"
      else "UNKNOWN_STATE"
    return .array [.bulk action, .bulk (status.getD "missing"), .bulk createdAt, .bulk jobID]

def setJobIDScript (args : Args) : Script Resp := do
  let idemKey := args.key 1
  let reverseKey := args.key 2
  if (← present idemKey) = 0 then return .int 0
  else
    hset idemKey [("job_id", args.arg 1)]
    set reverseKey idemKey
    let remaining ← ttl idemKey
    if remaining > 0 then
      expireIn reverseKey remaining.toNat
      return .int 1
    else return .int 1

def idempotencyTransitionStatusScript (args : Args) : Script Resp := do
  let reverseKey := args.key 1
  let expiresIn ← tonumber (args.arg 3)
  match ← get reverseKey with
  | none => return .bulk "missing"
  | some idemKey =>
    match ← hget idemKey "status" with
    | none => return .bulk "missing"
    | some currentStatus =>
      if currentStatus ≠ "in_flight" then return .bulk "invalid"
      else
        hset idemKey [("status", args.arg 1), ("completed_at", args.arg 2)]
        expireIn idemKey expiresIn
        expireIn reverseKey expiresIn
        return .bulk "ok"

def coalescingScript (args : Args) : Script Resp := do
  let expiresIn ← tonumber (args.arg 1)
  if ← setNXEX (args.key 1) (args.arg 2) expiresIn then return .bulk "PROCEED"
  else return .bulk "REJECTED"

structure IdempotencyResult where
  action : Action
  status : String
  jobID : String
  createdAt : ℕ
  expiresAt : ℕ
  err : Option GoError
deriving DecidableEq

def actionNamed (name : String) : Option Action :=
  if name = "NEW" then some .new
  else if name = "DUPLICATE_IN_FLIGHT" then some .duplicateInFlight
  else if name = "REPLAY" then some .replay
  else if name = "UNKNOWN_STATE" then some .unknown
  else if name = "FAILED" then some .failed
  else none

/-- `toString` of the package -/
def textOf : Resp → String
  | .bulk text => text
  | _ => ""

section

-- `Format` and `Parse` with `time.RFC3339`, for times in seconds
variable (format : ℕ → String) (parse : String → Except GoError ℕ)

def readRecord (expiresIn : ℕ) (reply : Except Error Resp) :
    Except GoError RedisSubmission.IdempotencyResult :=
  match result reply with
  | .error err => .error (.wrap "claim or get idempotency record: " err)
  | .ok (.array [action, status, createdAt, jobID]) =>
    match parse (textOf createdAt) with
    | .error err => .error (.wrap "parse created_at: " err)
    | .ok created =>
      match actionNamed (textOf action) with
      | none => .error (.text ("unrecognized idempotency action: \"" ++ textOf action ++ "\""))
      | some act => .ok ⟨act, textOf status, textOf jobID, created, created + expiresIn, act.err⟩
  | .ok raw => .error (.text ("unexpected lua result: " ++ raw.goType))

variable (us : ℕ) (db : Db)

def claimOrGet (userID : UserID) (header : String) (expiresIn : ℕ) :
    Except GoError RedisSubmission.IdempotencyResult × Db :=
  (idempotencyScript ⟨[buildIdempotencyKey userID header],
    [expiresIn.repr, format (us / 1000000)]⟩ us db).map (readRecord parse expiresIn) id

def reverseKeyOf (jobID : JobID) : String := "jobID:" ++ jobID.val ++ ":IdempotencyKey"

def setJobID (userID : UserID) (header : String) (jobID : JobID) : Except GoError Unit × Db :=
  (setJobIDScript ⟨[buildIdempotencyKey userID header, reverseKeyOf jobID],
    [jobID.val]⟩ us db).map (fun result =>
      match readInt "set idempotency job id: " result with
      | .error err => .error err
      | .ok n =>
        if n ≠ 1 then
          .error (.text ("idempotency record not found for key=" ++
            buildIdempotencyKey userID header))
        else .ok ()) id

def delete (userID : UserID) (header : String) : Except GoError Unit × Db :=
  (del (buildIdempotencyKey userID header) us db).map
    (readCommand "delete idempotency key: ") id

def transition (expiresIn : ℕ) (jobID : JobID) (status : String) : Except Error Resp × Db :=
  idempotencyTransitionStatusScript ⟨[reverseKeyOf jobID],
    [status, format (us / 1000000), expiresIn.repr]⟩ us db

def transitionStatus (expiresIn : ℕ) (jobID : JobID) (status : String) :
    Except GoError Unit × Db :=
  (transition format us db expiresIn jobID status).map (fun reply =>
    match result reply with
    | .error err => .error (.wrap "transition idempotency status: " err)
    | .ok found =>
      if textOf found ≠ "ok" then
        .error (.text ("cannot transition idempotency status for job=" ++ jobID.val ++ ": " ++
          textOf found))
      else .ok ()) id

def transitionStatusIfInFlight (expiresIn : ℕ) (jobID : JobID) (status : String) :
    Except GoError Bool × Db :=
  (transition format us db expiresIn jobID status).map (fun reply =>
    match result reply with
    | .error err => .error (.wrap "transition idempotency status if in-flight: " err)
    | .ok found =>
      if textOf found = "ok" then .ok true
      else if textOf found = "missing" ∨ textOf found = "invalid" then .ok false
      else
        .error (.text ("unexpected transition result for job=" ++ jobID.val ++ ": " ++
          textOf found))) id

inductive CoalescingAction
  | proceed
  | rejected
  | unknown
deriving DecidableEq

structure CoalescingDecision where
  action : RedisSubmission.CoalescingAction
  error : Option GoError
deriving DecidableEq

def readDecision (reply : Except Error Resp) : Except GoError CoalescingDecision :=
  match result reply with
  | .error err => .error (.wrap "coalescing failed: " err)
  | .ok (.bulk text) =>
    if text = "PROCEED" then .ok ⟨.proceed, none⟩
    else if text = "REJECTED" then
      .ok ⟨.rejected, some (.text ("coalescing rejected: " ++ text))⟩
    else .ok ⟨.unknown, some (.text ("unexpected lua action: " ++ text))⟩
  | .ok other => .error (.text ("invalid lua response: " ++ other.goType))

def tryCoalesce (userID : UserID) (hashRequest : UInt64) (expiresIn : ℕ) :
    Except GoError CoalescingDecision × Db :=
  (coalescingScript ⟨[buildCoalescingKey userID hashRequest],
    [expiresIn.repr, format (us / 1000000)]⟩ us db).map readDecision id

def deleteCoalescing (userID : UserID) (hashRequest : UInt64) : Except GoError Unit × Db :=
  (del (buildCoalescingKey userID hashRequest) us db).map (readCommand "delete coalescing key: ") id

end

end InferenceQueue.RedisSubmission

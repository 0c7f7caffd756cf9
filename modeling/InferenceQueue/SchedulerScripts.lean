import InferenceQueue.RedisLayout
import InferenceQueue.SchedulerSteps

namespace InferenceQueue.RedisScheduler

open RedisServer Scheduler

def queueKeyPrefix : String := "queue:user:"

def activeUsersKey : String := "scheduler:active_users"

def processingJobsKey : String := "processing_jobs"

def completedJobsKey : String := "completed_jobs"

def rotationSequenceKey : String := "scheduler:rotation_seq"

def queueEnqueuedAtKey : String := "scheduler:queue_enqueued_at"

def buildQueuePerUserKey (userID : String) : String := queueKeyPrefix ++ userID

/-- `TIME` in milliseconds, as every script calculates it. -/
def nowMillis : Script ℕ := do
  let t ← time
  return (← tonumber t.1) * 1000 + (← tonumber t.2) / 1000

def extendLeaseScript (args : Args) : Script Resp := do
  match ← zscore (args.key 1) (args.arg 2) with
  | none => return .int 0
  | some _ =>
    let now ← nowMillis
    let lease ← tonumber (args.arg 1)
    zaddXX (args.key 1) (now + lease) (args.arg 2)
    return .int 1

def removeExpiredScript (args : Args) : Script Resp := do
  match ← zscore (args.key 1) (args.arg 1) with
  | none => return .int 0
  | some score =>
    let score ← tonumber score
    let cutoff ← tonumber (args.arg 2)
    if score > cutoff then return .int 0
    else
      let removed ← zrem (args.key 1) (args.arg 1)
      if removed = 1 then
        hdel (args.key 2) (args.arg 1)
        return .int removed
      else return .int removed

def requeueExpiredScript (args : Args) : Script Resp := do
  match ← zscore (args.key 1) (args.arg 1) with
  | none => return .int 0
  | some score =>
    let score ← tonumber score
    let cutoff ← tonumber (args.arg 3)
    if score > cutoff then return .int 0
    else
      let _ ← zrem (args.key 1) (args.arg 1)
      let _ ← lpush (args.key 3) (args.arg 1)
      if (← llen (args.key 3)) = 1 then
        let rotation ← incr (args.key 4)
        zaddNX (args.key 2) rotation (args.arg 2)
        return .int 1
      else return .int 1

/-- The user goes to the end of the round, or out of it when no job remains. -/
def moveOn (args : Args) (user : String) (remaining : ℕ) : Script Unit :=
  if remaining > 0 then do
    let score ← incr (args.key 3)
    zadd (args.key 1) score user
  else do
    let _ ← zrem (args.key 1) user

def fairDequeueScript (args : Args) : Script Resp := do
  if (← zcard (args.key 1)) = 0 then return .nil
  else
    -- a set that is not empty has a first member
    let user := (← zrangeFirst (args.key 1)).getD ""
    match ← rpop ("queue:user:" ++ user) with
    | none =>
      let _ ← zrem (args.key 1) user
      return .nil
    | some job =>
      let now ← nowMillis
      let enqueuedAt ← tonumber ((← hget (args.key 4) job).getD now.repr)
      hdel (args.key 4) job
      let remaining ← llen ("queue:user:" ++ user)
      moveOn args user remaining
      let lease ← tonumber (args.arg 1)
      zadd (args.key 2) (now + lease) job
      return .array [.bulk user, .bulk job, .int (max 0 ((now : ℤ) - enqueuedAt))]

def enqueueScript (args : Args) : Script Resp := do
  let queueLength ← llen (args.key 2)
  let maxLength ← tonumber (args.arg 3)
  if queueLength ≥ maxLength then return .array [.int 0]
  else
    let ttl ← tonumber (args.arg 2)
    if ← setNXEX (args.key 1) "1" ttl then
      let now ← nowMillis
      let _ ← lpush (args.key 2) (args.arg 1)
      hset (args.key 5) [(args.arg 1, now.repr)]
      if queueLength = 0 then
        let score ← incr (args.key 4)
        zaddNX (args.key 3) score (args.arg 4)
        return .array [.int 2]
      else return .array [.int 3]
    else return .array [.int 1]

def enqueueOrphanScript (args : Args) : Script Resp := do
  if (← sismember (args.key 1) (args.arg 1)) = 1 then return .int 0
  else if (← zscore (args.key 2) (args.arg 1)).isSome then return .int 0
  else if (← lpos (args.key 3) (args.arg 1)).isSome then return .int 0
  else
    let capacity ← tonumber (args.arg 3)
    if (← llen (args.key 3)) ≥ capacity then return .int 2
    else
      let wasEmpty := (← llen (args.key 3)) = 0
      let _ ← lpush (args.key 3) (args.arg 1)
      let now ← nowMillis
      hset (args.key 6) [(args.arg 1, now.repr)]
      if wasEmpty then
        let seq ← incr (args.key 5)
        zaddNX (args.key 4) seq (args.arg 2)
        return .int 1
      else return .int 1

def redisInt64 : Resp → Option ℤ
  | .int n => some n
  | .bulk text => (decimal? text).map (↑)
  | _ => none

structure FairDequeueResult where
  userID : String
  jobID : String
  queueWait : ℤ
deriving DecidableEq

inductive Answer
  | enqueue (r : Except GoError EnqueueResult)
  | claim (r : Except GoError (Option FairDequeueResult))
  | flag (r : Except GoError Bool)
  | done (r : Except GoError Unit)
  | ids (r : Except GoError (List String))
  | members (r : Except GoError (Finset String))

def readClaim (reply : Except Error Resp) : Except GoError (Option FairDequeueResult) :=
  match result reply with
  | .error err => if err = redisNil then .ok none else .error (.wrap "fair dequeue failed: " err)
  | .ok (.array [user, job, wait]) =>
    match user.asString, job.asString, redisInt64 wait with
    | some userID, some jobID, some waitMillis =>
      if userID = "" ∨ jobID = "" then .error (.text "fair dequeue: empty userID or jobID")
      else .ok (some ⟨userID, jobID, waitMillis⟩)
    | _, _, _ => .error (.text "fair dequeue: non-string elements in result")
  | .ok val => .error (.text ("fair dequeue: unexpected result type " ++ val.goType))

def readEnqueue (reply : Except Error Resp) : Except GoError EnqueueResult :=
  match result reply with
  | .error err => .error (.wrap "redis enqueue script: " err)
  | .ok (.array [first]) =>
    match redisInt64 first with
    | none =>
      .error (.text ("unexpected success value type from redis enqueue script: got " ++
        first.goType))
    | some decision =>
      if decision = 0 then .error (.wrap "" (.sentinel .schedulerQueueFull))
      else if decision = 1 then .error (.wrap "" (.sentinel .schedulerDuplicateJob))
      else if decision = 2 then .ok ⟨true⟩
      else if decision = 3 then .ok ⟨false⟩
      else .error (.text ("unexpected result from redis enqueue script: " ++ toString decision))
  | .ok other =>
    .error (.text ("unexpected result format from redis enqueue script: got " ++ other.goType))

section

variable (cfg : Config) (us : ℕ) (db : Db)

def claimNextJob : Except GoError (Option FairDequeueResult) × Db :=
  (fairDequeueScript
    ⟨[activeUsersKey, processingJobsKey, rotationSequenceKey, queueEnqueuedAtKey],
      [cfg.lease.repr]⟩ us db).map readClaim id

def pushLeft (entry : QueueEntry) : Except GoError EnqueueResult × Db :=
  (enqueueScript
    ⟨[buildJobIdempotencyKey entry.userID.val entry.jobID.val entry.currentAttempt,
        buildQueuePerUserKey entry.userID.val, activeUsersKey, rotationSequenceKey,
        queueEnqueuedAtKey],
      [entry.jobID.val, cfg.idempotencyKeyTTL.repr, cfg.queueCapacity.repr, entry.userID.val]⟩
    us db).map readEnqueue id

def releaseProcessingJob (jobID : String) : Except GoError Unit × Db :=
  (zrem processingJobsKey jobID us db).map (fun removed =>
    match readCommand "release processing job: " removed with
    | .error err => .error err
    | .ok removed => if removed = 0 then .error (.text "jobID not found") else .ok ()) id

def extendProcessingLease (jobID : String) : Except GoError Unit × Db :=
  (extendLeaseScript ⟨[processingJobsKey], [cfg.lease.repr, jobID]⟩ us db).map (fun updated =>
    match readInt "extend processing lease: " updated with
    | .error err => .error err
    | .ok updated => if updated = 0 then .error (.sentinel .schedulerJobNotFound) else .ok ()) id

def markJobCompleted (jobID : String) : Except GoError Unit × Db :=
  (sadd completedJobsKey jobID us db).map (readCommand "mark completed job: ") id

def expiredJobIDs (cutoffMs limit : ℕ) : Except GoError (List String) × Db :=
  -- the client sends no `LIMIT` for a count of 0
  (zrangeByScore processingJobsKey cutoffMs (if limit = 0 then none else some limit) us db).map
    (readCommand "list expired processing jobs: ") id

def removeIfExpired (jobID : String) (cutoffMs : ℕ) : Except GoError Bool × Db :=
  (removeExpiredScript ⟨[processingJobsKey, queueEnqueuedAtKey], [jobID, cutoffMs.repr]⟩ us db).map
    (fun n => (readInt "remove expired processing job: " n).map (· = 1)) id

def requeueIfExpired (jobID userID : String) (cutoffMs : ℕ) : Except GoError Bool × Db :=
  (requeueExpiredScript
    ⟨[processingJobsKey, activeUsersKey, buildQueuePerUserKey userID, rotationSequenceKey],
      [jobID, userID, cutoffMs.repr]⟩ us db).map
    (fun n => (readInt "requeue expired processing job: " n).map (· = 1)) id

def completedJobIDs : Except GoError (Finset String) × Db :=
  (smembers completedJobsKey us db).map (readCommand "list completed jobs: ") id

def removeCompletedJob (jobID : String) : Except GoError Unit × Db :=
  (srem completedJobsKey jobID us db).map (readCommand "remove completed job marker: ") id

def enqueueIfAbsent (jobID userID : String) (capacity : ℕ) : Except GoError Bool × Db :=
  (enqueueOrphanScript
    ⟨[completedJobsKey, processingJobsKey, buildQueuePerUserKey userID, activeUsersKey,
        rotationSequenceKey, queueEnqueuedAtKey],
      [jobID, userID, capacity.repr]⟩ us db).map
    (fun n => (readInt "enqueue orphan job: " n).map (· = 1)) id

def call : Op → Answer × Db
  | .pushLeft entry => (pushLeft cfg us db entry).map .enqueue id
  | .claimNextJob _ => (claimNextJob cfg us db).map .claim id
  | .requeueIfExpired job user cutoff =>
    (requeueIfExpired us db job.val user.val cutoff).map .flag id
  | .removeIfExpired job cutoff => (removeIfExpired us db job.val cutoff).map .flag id
  | .enqueueIfAbsent job user capacity =>
    (enqueueIfAbsent us db job.val user.val capacity).map .flag id
  | .extendProcessingLease job => (extendProcessingLease cfg us db job.val).map .done id
  | .releaseProcessingJob job => (releaseProcessingJob us db job.val).map .done id
  | .markJobCompleted job => (markJobCompleted us db job.val).map .done id
  | .removeCompletedJob job => (removeCompletedJob us db job.val).map .done id

end

def answerOf : Reply → Answer
  | .enqueue r => .enqueue r
  | .claim r => .claim (r.map (Option.map fun c => ⟨c.userID.val, c.jobID.val, c.queueWait⟩))
  | .flag b => .flag (.ok b)
  | .done r => .done r

end InferenceQueue.RedisScheduler

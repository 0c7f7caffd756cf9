import InferenceQueue.Shared
import InferenceQueue.SortedSet

namespace InferenceQueue

namespace Scheduler

structure Config where
  /-- lease duration in milliseconds -/
  lease : ℕ
  queueCapacity : ℕ
  /-- `int(IdempotencyKeyTTL.Seconds())` -/
  idempotencyKeyTTL : ℕ

/-- The keys of the scheduler. A script is atomic, so it is a function from this state to the next
one and its reply; its `now` is the millisecond value computed from TIME. -/
structure State where
  /-- scheduler:active_users -/
  activeUsers : SortedSet UserID
  /-- queue:user:ID, the left end first; an empty list is a missing key -/
  queue : UserID → List JobID
  /-- scheduler:rotation_seq -/
  rotationSeq : ℕ
  /-- processing_jobs, scored by lease deadline -/
  processingJobs : SortedSet JobID
  /-- completed_jobs -/
  completedJobs : Finset JobID
  /-- scheduler:queue_enqueued_at -/
  queueEnqueuedAt : JobID → Option ℕ
  /-- queue_idempotency_key:..., each with its expiry in milliseconds -/
  idempotencyKeys : String → Option ℕ

namespace State

def empty : State where
  activeUsers := ∅
  queue _ := []
  rotationSeq := 0
  processingJobs := ∅
  completedJobs := ∅
  queueEnqueuedAt _ := none
  idempotencyKeys _ := none

/-- LPUSH queue:user:ID job -/
def lpush (s : State) (user : UserID) (job : JobID) : State :=
  { s with queue := Function.update s.queue user (job :: s.queue user) }

/-- INCR scheduler:rotation_seq, then ZADD scheduler:active_users NX -/
def activate (s : State) (user : UserID) : State :=
  { s with
    rotationSeq := s.rotationSeq + 1
    activeUsers := s.activeUsers.zaddNX (s.rotationSeq + 1) user }

/-- HSET scheduler:queue_enqueued_at job now -/
def stamp (s : State) (job : JobID) (now : ℕ) : State :=
  { s with queueEnqueuedAt := Function.update s.queueEnqueuedAt job (some now) }

/-- HDEL scheduler:queue_enqueued_at job -/
def unstamp (s : State) (job : JobID) : State :=
  { s with queueEnqueuedAt := Function.update s.queueEnqueuedAt job none }

def keyLive (s : State) (key : String) (now : ℕ) : Bool :=
  match s.idempotencyKeys key with
  | none => false
  | some expiry => now ≤ expiry

end State

def extendLeaseScript (lease : ℕ) (job : JobID) (now : ℕ) (s : State) : State × ℕ :=
  match s.processingJobs.zscore job with
  | none => (s, 0)
  | some _ => ({ s with processingJobs := s.processingJobs.zaddXX (now + lease) job }, 1)

def removeExpiredScript (job : JobID) (cutoff : ℕ) (s : State) : State × ℕ :=
  match s.processingJobs.zscore job with
  | none => (s, 0)
  | some score =>
    if cutoff < score then (s, 0)
    else (State.unstamp { s with processingJobs := s.processingJobs.zrem job } job, 1)

def requeueExpiredScript (job : JobID) (user : UserID) (cutoff : ℕ) (s : State) : State × ℕ :=
  match s.processingJobs.zscore job with
  | none => (s, 0)
  | some score =>
    if cutoff < score then (s, 0)
    else
      let s := State.lpush { s with processingJobs := s.processingJobs.zrem job } user job
      if (s.queue user).length = 1 then (s.activate user, 1) else (s, 1)

/-- The reply is the user, the job and the milliseconds the job waited. -/
def fairDequeueScript (lease now : ℕ) (s : State) : State × Option (UserID × JobID × ℕ) :=
  match s.activeUsers.zrangeFirst with
  | none => (s, none)
  | some user =>
    match (s.queue user).getLast? with
    | none => ({ s with activeUsers := s.activeUsers.zrem user }, none)
    | some job =>
      let enqueuedAt := (s.queueEnqueuedAt job).getD now
      let remaining := (s.queue user).dropLast
      let s := State.unstamp { s with queue := Function.update s.queue user remaining } job
      let s :=
        if 0 < remaining.length then
          { s with
            rotationSeq := s.rotationSeq + 1
            activeUsers := s.activeUsers.zadd (s.rotationSeq + 1) user }
        else { s with activeUsers := s.activeUsers.zrem user }
      ({ s with processingJobs := s.processingJobs.zadd (now + lease) job },
        some (user, job, now - enqueuedAt))

def enqueueScript (key : String) (job : JobID) (ttl maxLength : ℕ) (user : UserID) (now : ℕ)
    (s : State) : State × ℕ :=
  let queueLength := (s.queue user).length
  if maxLength ≤ queueLength then (s, 0)
  else if s.keyLive key now then (s, 1)
  else
    let s := { s with
      idempotencyKeys := Function.update s.idempotencyKeys key (some (now + 1000 * ttl)) }
    let s := (s.lpush user job).stamp job now
    if queueLength = 0 then (s.activate user, 2) else (s, 3)

def enqueueOrphanScript (job : JobID) (user : UserID) (maxCapacity now : ℕ) (s : State) :
    State × ℕ :=
  if job ∈ s.completedJobs then (s, 0)
  else if (s.processingJobs.zscore job).isSome then (s, 0)
  else if job ∈ s.queue user then (s, 0)
  else if maxCapacity ≤ (s.queue user).length then (s, 2)
  else
    let wasEmpty := (s.queue user).length = 0
    let s := (s.lpush user job).stamp job now
    if wasEmpty then (s.activate user, 1) else (s, 1)

structure QueueEntry where
  jobID : JobID
  userID : UserID
  currentAttempt : ℤ
deriving DecidableEq

structure EnqueueResult where
  becameActive : Bool
deriving DecidableEq

structure FairDequeueResult where
  userID : UserID
  jobID : JobID
  queueWait : ℕ
deriving DecidableEq

def buildJobIdempotencyKey (userID jobID : String) (attempt : ℤ) : String :=
  s!"queue_idempotency_key:{userID}:{jobID}:{attempt}"

def QueueEntry.idempotencyKey (entry : QueueEntry) : String :=
  buildJobIdempotencyKey entry.userID.val entry.jobID.val entry.currentAttempt

variable (cfg : Config)

def claimNextJob (now : ℕ) (s : State) :
    State × Except GoError (Option FairDequeueResult) :=
  match fairDequeueScript cfg.lease now s with
  | (s, none) => (s, .ok none)
  | (s, some (userID, jobID, wait)) =>
    if userID.val = "" ∨ jobID.val = "" then
      (s, .error (.text "fair dequeue: empty userID or jobID"))
    else (s, .ok (some ⟨userID, jobID, wait⟩))

def pushLeft (entry : QueueEntry) (now : ℕ) (s : State) : State × Except GoError EnqueueResult :=
  let (s, decision) := enqueueScript entry.idempotencyKey entry.jobID cfg.idempotencyKeyTTL
    cfg.queueCapacity entry.userID now s
  match decision with
  | 0 => (s, .error (.wrap "" (.sentinel .schedulerQueueFull)))
  | 1 => (s, .error (.wrap "" (.sentinel .schedulerDuplicateJob)))
  | 2 => (s, .ok ⟨true⟩)
  | 3 => (s, .ok ⟨false⟩)
  | _ => (s, .error (.text "unexpected result from redis enqueue script"))

def releaseProcessingJob (job : JobID) (s : State) : State × Except GoError Unit :=
  match s.processingJobs.zscore job with
  | none => (s, .error (.text "jobID not found"))
  | some _ => ({ s with processingJobs := s.processingJobs.zrem job }, .ok ())

def extendProcessingLease (job : JobID) (now : ℕ) (s : State) : State × Except GoError Unit :=
  let (s, updated) := extendLeaseScript cfg.lease job now s
  if updated = 0 then (s, .error (.sentinel .schedulerJobNotFound)) else (s, .ok ())

def markJobCompleted (job : JobID) (s : State) : State :=
  { s with completedJobs := insert job s.completedJobs }

def expiredJobIDs (cutoff limit : ℕ) (s : State) : List JobID :=
  s.processingJobs.zrangeByScore cutoff limit

def removeIfExpired (job : JobID) (cutoff : ℕ) (s : State) : State × Bool :=
  let (s, n) := removeExpiredScript job cutoff s
  (s, n = 1)

def requeueIfExpired (job : JobID) (user : UserID) (cutoff : ℕ) (s : State) : State × Bool :=
  let (s, n) := requeueExpiredScript job user cutoff s
  (s, n = 1)

def removeCompletedJob (job : JobID) (s : State) : State :=
  { s with completedJobs := s.completedJobs.erase job }

def enqueueIfAbsent (job : JobID) (user : UserID) (capacity now : ℕ) (s : State) : State × Bool :=
  let (s, result) := enqueueOrphanScript job user capacity now s
  (s, result = 1)

end Scheduler

end InferenceQueue

import InferenceQueue.SystemCalls

namespace InferenceQueue.Service

open Scheduler Jobs

structure Claim where
  userID : UserID
  jobID : JobID
deriving DecidableEq

/-- A second thread that shares the job context: it only extends the lease, and tells the first that
the lease is gone. -/
structure Heartbeat where
  running : Bool
  /-- the job context was cancelled with `ErrLeaseExtendFailed` -/
  leaseLost : Bool
  consecutiveFailures : ℕ
deriving DecidableEq

inductive Stage
  | policy
  | payload (maxAttempts : ℤ)
  | generate (maxAttempts : ℤ)
  | failSelect (retryCount : ℤ)
  | failUpdate (retryCount : ℤ)
  | failTransition
  | failRelease
  | failPublish
  | marker (retryCount : ℤ)
  | completeSelect (retryCount : ℤ)
  | completeUpdate (retryCount : ℤ)
  | abortClose
  | abortRelease
  | completeTransition
  | completeClose
  | completeRelease
deriving DecidableEq

inductive Worker
  | idle
  | busy (claim : Claim) (stage : Stage) (beat : Heartbeat)
deriving DecidableEq

def Stage.request (claim : Claim) : Stage → Request
  | policy => .retryPolicy claim.userID
  | payload _ => .external (.payload claim.jobID)
  | generate maxAttempts => .generate claim.jobID maxAttempts
  | failSelect _ => .markSelect .failed claim.jobID
  | failUpdate retryCount => .markUpdate .failed claim.jobID retryCount
  | failTransition => .external (.transitionStatus claim.jobID .failed)
  | failRelease => .redis (.releaseProcessingJob claim.jobID)
  | failPublish => .external (.publishFailed claim.jobID)
  | marker _ => .redis (.markJobCompleted claim.jobID)
  | completeSelect _ => .markSelect .completed claim.jobID
  | completeUpdate retryCount => .markUpdate .completed claim.jobID retryCount
  | abortClose => .external (.closeStream claim.jobID)
  | abortRelease => .redis (.releaseProcessingJob claim.jobID)
  | completeTransition => .external (.transitionStatus claim.jobID .completed)
  | completeClose => .external (.closeStream claim.jobID)
  | completeRelease => .redis (.releaseProcessingJob claim.jobID)

def Stage.releases : Stage → Bool
  | failRelease | abortRelease | completeRelease => true
  | _ => false

namespace Worker

def request (workerID : ℕ) : Worker → Request
  | idle => .redis (.claimNextJob workerID)
  | busy claim stage _ => stage.request claim

/-- `stopHeartbeatAndWait` -/
def stopHeartbeat (beat : Heartbeat) : Heartbeat := { beat with running := false }

/-- After a failed payload fetch or generation the lease decides whether to clean up. -/
def giveUp (claim : Claim) (beat : Heartbeat) (retryCount : ℤ) : Worker :=
  if beat.leaseLost then idle else busy claim (.failSelect retryCount) (stopHeartbeat beat)

def claimed : Response → Worker
  | .reply (.claim (.ok (some r))) => busy ⟨r.userID, r.jobID⟩ .policy ⟨true, false, 0⟩
  | _ => idle

def proceed (cfg : Config) (claim : Claim) (beat : Heartbeat) : Stage → Response → Worker
  | .policy, .policy maxAttempts => busy claim (.payload maxAttempts) beat
  | .policy, _ => busy claim (.payload cfg.defaultMaxAttempts) beat
  | .payload maxAttempts, .flag true => busy claim (.generate maxAttempts) beat
  | .payload maxAttempts, _ => giveUp claim beat maxAttempts
  | .generate _, .attempts true n => busy claim (.marker n) beat
  | .generate _, .attempts false n => giveUp claim beat n
  | .generate maxAttempts, _ => busy claim (.generate maxAttempts) beat
  -- on the failure path an error is logged and the next call made
  | .failSelect retryCount, .result (.ok ()) => busy claim (.failUpdate retryCount) beat
  | .failSelect _, _ => busy claim .failTransition beat
  | .failUpdate _, _ => busy claim .failTransition beat
  | .failTransition, _ => busy claim .failRelease beat
  | .failRelease, _ => busy claim .failPublish beat
  | .failPublish, _ => idle
  -- from here on nobody looks at `leaseLost`
  | .marker retryCount, _ => busy claim (.completeSelect retryCount) beat
  | .completeSelect retryCount, .result (.ok ()) => busy claim (.completeUpdate retryCount) beat
  | .completeSelect _, _ => busy claim .abortClose (stopHeartbeat beat)
  | .completeUpdate _, .result (.ok ()) => busy claim .completeTransition (stopHeartbeat beat)
  | .completeUpdate _, _ => busy claim .abortClose (stopHeartbeat beat)
  | .abortClose, _ => busy claim .abortRelease beat
  | .abortRelease, _ => idle
  | .completeTransition, _ => busy claim .completeClose beat
  | .completeClose, _ => busy claim .completeRelease beat
  | .completeRelease, _ => idle

def resume (cfg : Config) : Worker → Response → Worker
  | idle, resp => claimed resp
  | busy claim stage beat, resp => proceed cfg claim beat stage resp

/-- The heartbeat's only call. -/
def beatRequest : Worker → Option Request
  | idle => none
  | busy claim _ beat =>
    if beat.running then some (.redis (.extendProcessingLease claim.jobID)) else none

/-- `QueueAdapter.ExtendLease` turns the scheduler's `ErrJobNotFound` into
`ErrLeaseExtendFailed`. -/
def beaten (maxRenewalFailures : ℕ) (beat : Heartbeat) : Response → Heartbeat
  | .reply (.done (.ok ())) => { beat with consecutiveFailures := 0 }
  | .reply (.done (.error err)) =>
    if err.is .schedulerJobNotFound then { beat with running := false, leaseLost := true }
    else missed
  | _ => missed
where
  missed : Heartbeat :=
    if maxRenewalFailures ≤ beat.consecutiveFailures + 1 then
      ⟨false, true, beat.consecutiveFailures + 1⟩
    else { beat with consecutiveFailures := beat.consecutiveFailures + 1 }

def resumeBeat (cfg : Config) : Worker → Response → Worker
  | idle, _ => idle
  | busy claim stage beat, resp => busy claim stage (beaten cfg.maxRenewalFailures beat resp)

def job : Worker → Option JobID
  | idle => none
  | busy claim _ _ => some claim.jobID

/-- Between the SELECT of `MarkCompleted` or `MarkFailed` and its UPDATE. -/
def writing : Worker → Bool
  | busy _ (.failUpdate _) _ => true
  | busy _ (.completeUpdate _) _ => true
  | _ => false

end Worker

end InferenceQueue.Service

import InferenceQueue.SystemCalls

namespace InferenceQueue.Service

open Scheduler Jobs

/-- The call `recoverOne` makes next.  `retryCount` is the `RetryCount` it has read, and in
`updateCreated` the one it writes. -/
inductive RecoverOne
  | byID
  | policy (userID : UserID) (retryCount : ℤ)
  | removeStale
  | removeExhausted (retryCount : ℤ)
  | failSelect (retryCount : ℤ)
  | failUpdate (retryCount : ℤ)
  | failTransition
  | failPublish
  | requeue (userID : UserID) (retryCount : ℤ)
  | updateCreated (retryCount : ℤ)
deriving DecidableEq

/-- The call the body of the loop in `ReconcileCompleted` makes next. -/
inductive Reconcile
  | byID
  | removeMissing
  | completeSelect (retryCount : ℤ)
  | completeUpdate (retryCount : ℤ)
  | transition
  | close
  | removeMarker
deriving DecidableEq

/-- One tick of the loop in `Start`: `Sweep`, then `ReconcileCompleted`, then `SweepOrphans`, each
between two of its store calls. -/
inductive Recovery
  | idle
  | listExpired (cutoff : ℕ)
  | recovering (cutoff : ℕ) (todo : List JobID) (jobID : JobID) (stage : RecoverOne)
  | listCompleted
  | reconciling (todo : List JobID) (jobID : JobID) (stage : Reconcile)
  | orphanClock
  | listOrphans (before : ℕ)
  | enqueueing (todo : List Job) (job : Job)
deriving DecidableEq

def RecoverOne.request (cutoff : ℕ) (jobID : JobID) : RecoverOne → Request
  | byID => .byID jobID
  | policy userID _ => .retryPolicy userID
  | removeStale => .redis (.removeIfExpired jobID cutoff)
  | removeExhausted _ => .redis (.removeIfExpired jobID cutoff)
  | failSelect _ => .markSelect .failed jobID
  | failUpdate retryCount => .markUpdate .failed jobID retryCount
  | failTransition => .external (.transitionStatus jobID .failed)
  | failPublish => .external (.publishFailed jobID)
  | requeue userID _ => .redis (.requeueIfExpired jobID userID cutoff)
  | updateCreated retryCount => .updateCreated jobID retryCount

/-- The next call, or `none` when `recoverOne` returns. -/
def RecoverOne.proceed : RecoverOne → Response → Option RecoverOne
  | byID, .job (.ok job) =>
    if job.status ≠ .created then some removeStale
    else some (policy job.userID job.currentAttempt)
  | byID, .job (.error err) => if err.is .recoveryJobNotFound then some removeStale else none
  | byID, _ => none
  | policy userID retryCount, .policy maxAttempts =>
    if maxAttempts ≤ retryCount then some (removeExhausted retryCount)
    else some (requeue userID retryCount)
  | policy _ _, _ => none
  | removeStale, _ => none
  -- `claimed` tells the one pass that marks the job failed
  | removeExhausted retryCount, .reply (.flag true) => some (failSelect retryCount)
  | removeExhausted _, _ => none
  | failSelect retryCount, .result (.ok ()) => some (failUpdate retryCount)
  | failSelect _, _ => none
  | failUpdate _, .result (.ok ()) => some failTransition
  | failUpdate _, _ => none
  | failTransition, .flag true => some failPublish
  | failTransition, _ => none
  | failPublish, _ => none
  -- the row is written only after Redis has the job back
  | requeue _ retryCount, .reply (.flag true) => some (updateCreated (retryCount + 1))
  | requeue _ _, _ => none
  | updateCreated _, _ => none

def Reconcile.request (jobID : JobID) : Reconcile → Request
  | byID => .byID jobID
  | removeMissing => .redis (.removeCompletedJob jobID)
  | completeSelect _ => .markSelect .completed jobID
  | completeUpdate retryCount => .markUpdate .completed jobID retryCount
  | transition => .external (.transitionStatus jobID .completed)
  | close => .external (.closeStream jobID)
  | removeMarker => .redis (.removeCompletedJob jobID)

/-- The next call for the marker, or `none` when the loop goes on. -/
def Reconcile.proceed : Reconcile → Response → Option Reconcile
  | byID, .job (.ok job) =>
    if job.status = .created then some (completeSelect job.currentAttempt) else some transition
  | byID, .job (.error err) => if err.is .recoveryJobNotFound then some removeMissing else none
  | byID, _ => none
  | removeMissing, _ => none
  | completeSelect retryCount, .result (.ok ()) => some (completeUpdate retryCount)
  | completeSelect _, _ => none
  | completeUpdate _, .result (.ok ()) => some transition
  | completeUpdate _, _ => none
  | transition, .flag true => some close
  | transition, _ => none
  | close, _ => some removeMarker
  | removeMarker, _ => none

/-- Past the point where `ReconcileCompleted` takes the row to be closed. -/
def Reconcile.closing : Reconcile → Bool
  | removeMissing | transition | close | removeMarker => true
  | byID | completeSelect _ | completeUpdate _ => false

namespace Recovery

def sweepNext (cutoff : ℕ) : List JobID → Recovery
  | [] => listCompleted
  | jobID :: todo => recovering cutoff todo jobID .byID

def reconcileNext : List JobID → Recovery
  | [] => orphanClock
  | jobID :: todo => reconciling todo jobID .byID

def orphanNext : List Job → Recovery
  | [] => idle
  | job :: todo => enqueueing todo job

def request (cfg : Config) : Recovery → Request
  | idle => .clock
  | listExpired cutoff => .expiredJobIDs cutoff cfg.batch
  | recovering cutoff _ jobID stage => stage.request cutoff jobID
  | listCompleted => .completedJobIDs
  | reconciling _ jobID stage => stage.request jobID
  | orphanClock => .clock
  | listOrphans before => .pendingOrphans before cfg.batch
  | enqueueing _ job => .redis (.enqueueIfAbsent job.jobID job.userID cfg.recoveryCapacity)

def resume (cfg : Config) : Recovery → Response → Recovery
  | idle, .time now => listExpired now
  | idle, _ => idle
  | listExpired cutoff, .ids jobIDs => sweepNext cutoff jobIDs
  | listExpired _, _ => listCompleted
  | recovering cutoff todo jobID stage, resp =>
    match stage.proceed resp with
    | some stage => recovering cutoff todo jobID stage
    | none => sweepNext cutoff todo
  | listCompleted, .ids jobIDs => reconcileNext jobIDs
  | listCompleted, _ => orphanClock
  -- an error of `RemoveCompletedJob` ends the pass over the markers
  | reconciling _ _ .removeMarker, .failed _ => orphanClock
  | reconciling todo jobID stage, resp =>
    match stage.proceed resp with
    | some stage => reconciling todo jobID stage
    | none => reconcileNext todo
  | orphanClock, .time now => listOrphans (now - cfg.orphanGrace)
  | orphanClock, _ => orphanClock
  | listOrphans _, .orphans jobs => orphanNext jobs
  | listOrphans _, _ => idle
  | enqueueing todo _, _ => orphanNext todo

def fresh : Recovery → Prop
  | recovering _ _ _ stage => stage = .byID
  | reconciling _ _ stage => stage = .byID
  | _ => True

def cutoff : Recovery → Option ℕ
  | listExpired cutoff => some cutoff
  | recovering cutoff _ _ _ => some cutoff
  | _ => none

inductive Moves : Recovery → Response → Recovery → Prop
  | recover {cutoff todo job stage stage' resp} (h : RecoverOne.proceed stage resp = some stage') :
      Moves (recovering cutoff todo job stage) resp (recovering cutoff todo job stage')
  | reconcile {todo job stage stage' resp} (h : Reconcile.proceed stage resp = some stage') :
      Moves (reconciling todo job stage) resp (reconciling todo job stage')
  | anew {r resp r'} (hfresh : r'.fresh) : Moves r resp r'

theorem sweepNext_fresh (c : ℕ) (todo : List JobID) : (sweepNext c todo).fresh := by
  cases todo
  · trivial
  · rfl

theorem reconcileNext_fresh (todo : List JobID) : (reconcileNext todo).fresh := by
  cases todo
  · trivial
  · rfl

theorem orphanNext_fresh (todo : List Job) : (orphanNext todo).fresh := by
  cases todo <;> trivial

theorem moves (cfg : Config) (r : Recovery) (resp : Response) :
    Moves r resp (r.resume cfg resp) := by
  cases r with
  | recovering c todo job stage =>
    rw [resume]
    cases h : stage.proceed resp with
    | some stage' => exact .recover h
    | none => exact .anew (sweepNext_fresh c todo)
  | reconciling todo job stage =>
    by_cases hend : stage = .removeMarker ∧ ∃ b, resp = .failed b
    · obtain ⟨rfl, b, rfl⟩ := hend
      exact .anew trivial
    · rw [resume]
      · cases h : stage.proceed resp with
        | some stage' => exact .reconcile h
        | none => exact .anew (reconcileNext_fresh todo)
      · intro b hresp hstage
        exact hend ⟨hstage, b, hresp⟩
  | idle => cases resp <;> exact .anew trivial
  | listExpired c =>
    cases resp with
    | ids l => exact .anew (sweepNext_fresh c l)
    | _ => exact .anew trivial
  | listCompleted =>
    cases resp with
    | ids l => exact .anew (reconcileNext_fresh l)
    | _ => exact .anew trivial
  | orphanClock => cases resp <;> exact .anew trivial
  | listOrphans before =>
    cases resp with
    | orphans l => exact .anew (orphanNext_fresh l)
    | _ => exact .anew trivial
  | enqueueing todo job => exact .anew (orphanNext_fresh todo)

end Recovery

end InferenceQueue.Service

import InferenceQueue.RetryModel
import InferenceQueue.Runs
import InferenceQueue.WorkerModel

namespace InferenceQueue.Service

open Retry

/-- Why the heartbeat cancels the job context. -/
inductive LeaseLoss
  | notHeld
  | maxFailures

def LeaseLoss.cause : LeaseLoss → GoError
  | notHeld => .both (.sentinel .workerLeaseExtendFailed) (.text "lease no longer held")
  | maxFailures =>
    .both (.sentinel .workerLeaseExtendFailed) (.text "max consecutive failures reached")

/-- When and why the heartbeat of one `processJob` cancels the job context, if it does. The context
is made from `context.Background()`, so nobody else can. -/
abbrev Loss := Option (ℕ × LeaseLoss)

def Loss.canceled (loss : Loss) (t : ℕ) : Bool := loss.any (·.1 ≤ t)

theorem Loss.canceled_mono {loss : Loss} {t t' : ℕ} (hle : t ≤ t') (h : loss.canceled t = true) :
    loss.canceled t' = true := by
  cases loss with
  | none => exact h
  | some l =>
    simp only [Loss.canceled, Option.any_some, decide_eq_true_eq] at h ⊢
    omega

def Loss.context (loss : Loss) : Context where
  err t := if loss.canceled t then some (.sentinel .contextCanceled) else none
  sticky := by
    intro t t' e hle h
    split_ifs at h with ht
    rw [if_pos (Loss.canceled_mono hle ht), h]

/-- `context.Cause(jobCtx)` -/
def Loss.cause (loss : Loss) (t : ℕ) : Option GoError :=
  if loss.canceled t then loss.map (·.2.cause) else none

structure InferenceRetryPolicy where
  maxAttempts : ℤ
  baseDelay : ℤ
  maxDelay : ℤ

/-- A call under the job context reports `context.Canceled` only once that context is cancelled. -/
def HonorsContext (loss : Loss) (returned : ℕ) (err : GoError) : Prop :=
  err.is .contextCanceled = true → loss.canceled returned = true

/-- What the calls of one `processJob` up to the generation give. -/
structure Execution where
  claim : Except GoError (Option Claim)
  loss : Loss
  policy : Except GoError InferenceRetryPolicy
  payload : ℕ → Attempt Unit
  /-- when the heartbeat has been stopped after a failed payload fetch -/
  payloadStopped : ℕ
  generate : ℕ → Attempt Unit
  /-- when the heartbeat has been stopped after a failed generation -/
  generateStopped : ℕ

/-- Calls whose errors are only logged are left out. -/
structure JobCalls extends Execution where
  policyReturned : ℕ
  markCompleted : Option GoError
  stopped_after : policyReturned ≤ payloadStopped
  policy_honors : ∀ err, policy = .error err → HonorsContext loss policyReturned err
  payload_honors : ∀ k err, (payload k).result = .error err →
    HonorsContext loss (payload k).returned err
  generate_honors : ∀ k err, (generate k).result = .error err →
    HonorsContext loss (generate k).returned err
  /-- the context of the cleanup has a deadline, but nobody cancels it -/
  markCompleted_honors : ∀ err, markCompleted = some err → err.is .contextCanceled = false

structure PoolConfig where
  defaultPolicy : InferenceRetryPolicy
  /-- `errors.As(err, &netErr) && netErr.Timeout()` -/
  netTimeout : GoError → Bool

def isTransient (netTimeout : GoError → Bool) (err : GoError) : Bool :=
  if err.is .contextCanceled then false
  else if err.is .contextDeadlineExceeded then true
  else netTimeout err

/-- The calls `processJob` makes to end a job. -/
inductive JobAction
  | markFailed (jobID : JobID) (retryCount : ℤ)
  | transitionStatus (jobID : JobID) (status : String)
  | release (jobID : JobID)
  | publishEvent (jobID : JobID) (eventType data : String)
  | markExecutionCompleted (jobID : JobID)
  | markCompleted (jobID : JobID) (retryCount : ℤ)
  | close (jobID : JobID)
deriving DecidableEq

structure Processed where
  err : Option GoError
  actions : List JobAction

def failureMessage : String :=
  "\x7b\"message\":\"We could not complete your request after several attempts. " ++
    "Please try again later.\"\x7d"

def failureCleanup (jobID : JobID) (retryCount : ℤ) : List JobAction :=
  [.markFailed jobID retryCount, .transitionStatus jobID "failed", .release jobID,
   .publishEvent jobID "failed" failureMessage]

def inferenceError (genErr : GoError) : GoError :=
  .both (.sentinel .workerInferenceFailed) genErr

namespace Execution

variable (w : PoolConfig) (o : Execution)

/-- The policy in force, and the error of `GetRetryPolicy` if it is the default. -/
def retryPolicy : InferenceRetryPolicy × Option GoError :=
  match o.policy with
  | .ok policy => (policy, none)
  | .error err => (w.defaultPolicy, some err)

def payloadPolicy : RetryPolicy :=
  let policy := (o.retryPolicy w).1
  ⟨policy.maxAttempts, policy.baseDelay, policy.maxDelay, isTransient w.netTimeout⟩

def fetched : Retried Unit := doWithRetry o.loss.context (o.payloadPolicy w) o.payload

def generationPolicy : RetryPolicy :=
  let policy := (o.retryPolicy w).1
  ⟨policy.maxAttempts, policy.baseDelay, policy.maxDelay, GoError.is .workerTransientInference⟩

def generation (k : ℕ) : Attempt Unit :=
  { o.generate k with result := (o.generate k).result.mapError inferenceError }

def generated : Retried Unit := doWithRetry o.loss.context (o.generationPolicy w) o.generation

/-- `errors.Is(context.Cause(jobCtx), ErrLeaseExtendFailed)` -/
def leaseLost (t : ℕ) : Bool := (o.loss.cause t).any (GoError.is .workerLeaseExtendFailed)

end Execution

def processJob (w : PoolConfig) (o : JobCalls) : Processed :=
  match o.claim with
  | .error err => ⟨some err, []⟩
  | .ok none => ⟨some (.sentinel .workerNoJobAvailable), []⟩
  | .ok (some claim) =>
    match (o.fetched w).result with
    | .error payloadErr =>
      if o.leaseLost o.payloadStopped then
        ⟨some (.both (.sentinel .workerLeaseExtendFailed) payloadErr), []⟩
      else
        -- `err` is still that of `GetRetryPolicy`
        ⟨(o.retryPolicy w).2, failureCleanup claim.jobID (o.retryPolicy w).1.maxAttempts⟩
    | .ok () =>
      match (o.generated w).result with
      | .error err =>
        if o.leaseLost o.generateStopped then
          ⟨some (.both (.sentinel .workerLeaseExtendFailed) err), []⟩
        else ⟨some err, failureCleanup claim.jobID (o.generated w).calls⟩
      | .ok () =>
        match o.markCompleted with
        | some err =>
          ⟨some err, [.markExecutionCompleted claim.jobID,
            .markCompleted claim.jobID (o.generated w).calls, .close claim.jobID,
            .release claim.jobID]⟩
        | none =>
          ⟨none, [.markExecutionCompleted claim.jobID,
            .markCompleted claim.jobID (o.generated w).calls,
            .transitionStatus claim.jobID "completed", .close claim.jobID, .release claim.jobID]⟩

inductive Loop
  | top
  | processing
  | waiting
  | returned
deriving DecidableEq

/-- A worker, and whether the context of the pool is cancelled. -/
structure RunWorker where
  poolDone : Bool
  loop : Loop
deriving DecidableEq

namespace RunWorker

inductive Event
  | cancelPool
  | check
  | job (calls : JobCalls)
  | timer
  | done

/-- The `switch` on the error of `processJob`. -/
def afterJob : Option GoError → Loop
  | none => .top
  | some err =>
    if err.is .workerNoJobAvailable then .waiting
    else if err.is .contextCanceled then .returned
    else .waiting

/-- `ClaimNextJob` runs under the context of the pool. -/
def ClaimHonors (s : RunWorker) (o : JobCalls) : Prop :=
  ∀ err, o.claim = .error err → err.is .contextCanceled = true → s.poolDone = true

instance (s : RunWorker) (o : JobCalls) : Decidable (s.ClaimHonors o) :=
  match h : o.claim with
  | .ok _ => isTrue (by simp [ClaimHonors, h])
  | .error err => decidable_of_iff (err.is .contextCanceled = true → s.poolDone = true)
      (by simp [ClaimHonors, h])

def step (w : PoolConfig) (s : RunWorker) : Event → Option RunWorker
  | .cancelPool => some { s with poolDone := true }
  | .check =>
    if s.loop = .top then some { s with loop := if s.poolDone then .returned else .processing }
    else none
  | .job calls =>
    if s.loop = .processing ∧ s.ClaimHonors calls then
      some { s with loop := afterJob (processJob w calls).err }
    else none
  | .timer => if s.loop = .waiting then some { s with loop := .top } else none
  | .done => if s.loop = .waiting ∧ s.poolDone then some { s with loop := .returned } else none

abbrev Step (w : PoolConfig) : RunWorker → Event → RunWorker → Prop := Fires (step w)

def initial : RunWorker := ⟨false, .top⟩

/-- The worker has returned only if the pool is stopped, and as long as it is not, the worker goes
on to claim a job by itself. -/
def Survives (w : PoolConfig) (s : RunWorker) : Prop :=
  (s.loop = .returned → s.poolDone = true) ∧
    (s.poolDone = false → ∃ tr, (∀ e ∈ tr, e = .timer ∨ e = .check) ∧
      Run (Step w) s tr { s with loop := .processing })

/-- No attempt at the payload or the generation that fails finds the job context cancelled, and no
delay after one is cut short. -/
def Uninterrupted : Event → Prop
  | .job o => ∀ k,
    ((o.payload k).result ≠ .ok () →
      o.loss.canceled (o.payload k).returned = false ∧
        o.loss.canceled (o.payload k).woken = false) ∧
    ((o.generate k).result ≠ .ok () →
      o.loss.canceled (o.generate k).returned = false ∧
        o.loss.canceled (o.generate k).woken = false)
  | _ => True

end RunWorker

variable {w : PoolConfig} {o : JobCalls} {loss : Loss} {policy : RetryPolicy}
  {fn : ℕ → Attempt Unit} {err : GoError}

theorem not_canceled_of_doWithRetry
    (hctx : ∀ k, (fn k).result ≠ .ok () →
      loss.canceled (fn k).returned = false ∧ loss.canceled (fn k).woken = false)
    (hfn : ∀ k err, (fn k).result = .error err → HonorsContext loss (fn k).returned err)
    (h : (doWithRetry loss.context policy fn).result = .error err) :
    err.is .contextCanceled = false := by
  rcases failedBy_of_doWithRetry h with rfl | ⟨k, err', hres, hcase⟩
  · rfl
  · obtain ⟨hreturned, hwoken⟩ := hctx k (by simp [hres])
    rcases hcase with rfl | hdone | ⟨c, hdone, -⟩
    · -- a call that reports the cancellation of its context comes after it
      by_contra hcanceled
      have hlost := hfn k err' hres (by simpa [failedAfter, GoError.is] using hcanceled)
      rw [hreturned] at hlost
      cases hlost
    · simp [Loss.context, hreturned] at hdone
    · simp [Loss.context, hwoken] at hdone

theorem generation_error {k : ℕ} (h : (o.generation k).result = .error err) :
    ∃ genErr, (o.generate k).result = .error genErr ∧ err = inferenceError genErr := by
  unfold Execution.generation at h
  cases hres : (o.generate k).result with
  | ok x => simp [hres, Except.mapError] at h
  | error genErr =>
    rw [hres] at h
    cases h
    exact ⟨genErr, rfl, rfl⟩

theorem fetched_not_canceled (hok : RunWorker.Uninterrupted (.job o))
    (h : (o.fetched w).result = .error err) : err.is .contextCanceled = false :=
  not_canceled_of_doWithRetry (fun k => (hok k).1) o.payload_honors h

theorem generated_not_canceled (hok : RunWorker.Uninterrupted (.job o))
    (h : (o.generated w).result = .error err) : err.is .contextCanceled = false := by
  refine not_canceled_of_doWithRetry ?_ ?_ h
  · intro k hne
    apply (hok k).2
    intro hgen
    exact hne (by simp [Execution.generation, hgen, Except.mapError])
  · intro k err hres hcanceled
    obtain ⟨genErr, hgen, rfl⟩ := generation_error hres
    apply o.generate_honors k genErr hgen
    simpa [inferenceError, GoError.is] using hcanceled

theorem leaseLost_eq_canceled (t : ℕ) : o.leaseLost t = o.loss.canceled t := by
  unfold Execution.leaseLost Loss.cause
  rcases o.loss with - | ⟨at', reason⟩
  · rfl
  · cases hcanceled : Loss.canceled (some (at', reason)) t
    · simp
    · cases reason <;> rfl

/-- The error of `GetRetryPolicy` is returned only while the lease is held. -/
theorem policyErr_not_canceled (hlost : o.leaseLost o.payloadStopped = false)
    (h : (o.retryPolicy w).2 = some err) : err.is .contextCanceled = false := by
  unfold Execution.retryPolicy at h
  cases hpolicy : o.policy with
  | ok policy => simp [hpolicy] at h
  | error err' =>
    rw [hpolicy] at h
    cases h
    by_contra hcanceled
    have hearly := o.policy_honors _ hpolicy (by simpa using hcanceled)
    have hlate := Loss.canceled_mono o.stopped_after hearly
    rw [leaseLost_eq_canceled, hlate] at hlost
    cases hlost

/-- An uninterrupted `processJob` reports `context.Canceled` only if its claim did. -/
theorem claim_of_canceled (hok : RunWorker.Uninterrupted (.job o))
    (h : (processJob w o).err = some err) (hcanceled : err.is .contextCanceled = true) :
    o.claim = .error err := by
  unfold processJob at h
  split at h
  · next err' hclaim =>
    cases h
    exact hclaim
  · cases h
    cases hcanceled
  · -- from here on every call runs under the job context
    exfalso
    revert hcanceled
    rw [imp_false, Bool.not_eq_true]
    split at h
    · next payloadErr hfetched =>
      split_ifs at h with hlost
      · cases h
        simpa [GoError.is] using fetched_not_canceled hok hfetched
      · exact policyErr_not_canceled (by simpa using hlost) h
    · split at h
      · next err' hgenerated =>
        have hnot := generated_not_canceled hok hgenerated
        split_ifs at h with hlost
        · cases h
          simpa [GoError.is] using hnot
        · cases h
          exact hnot
      · split at h
        · next err' hmark =>
          cases h
          exact o.markCompleted_honors _ hmark
        · cases h

namespace RunWorker

variable {s t : RunWorker} {e : Event} {tr : List Event}

theorem afterJob_eq_returned {err? : Option GoError} (h : afterJob err? = .returned) :
    ∃ err, err? = some err ∧ err.is .contextCanceled = true := by
  unfold afterJob at h
  split at h
  · cases h
  · next err =>
    split_ifs at h with hnone hcanceled
    exact ⟨err, rfl, hcanceled⟩

theorem poolDone_of_returned (hok : Uninterrupted e) (he : Step w s e t)
    (hret : t.loop = .returned) : t.poolDone = true := by
  -- a worker returns at the top of the loop, out of a wait or after a job
  unfold Step Fires step at he
  cases e with
  | cancelPool =>
    cases he
    rfl
  | check =>
    dsimp only at he
    split_ifs at he with htop hdone
    · cases he
      exact hdone
    · cases he
      cases hret
  | job o =>
    dsimp only at he
    split_ifs at he with hproc
    cases he
    obtain ⟨err, herr, hcanceled⟩ := afterJob_eq_returned hret
    exact hproc.2 err (claim_of_canceled hok herr hcanceled) hcanceled
  | timer =>
    dsimp only at he
    split_ifs at he
    cases he
    cases hret
  | done =>
    dsimp only at he
    split_ifs at he with hdone
    cases he
    exact hdone.2

theorem goes_on (hret : s.loop ≠ .returned) (hpool : s.poolDone = false) :
    ∃ tr, (∀ e ∈ tr, e = .timer ∨ e = .check) ∧
      Run (Step w) s tr { s with loop := .processing } := by
  obtain ⟨poolDone, loop⟩ := s
  obtain rfl : poolDone = false := hpool
  have hcheck : Run (Step w) ⟨false, .top⟩ [.check] ⟨false, .processing⟩ := Run.single rfl
  cases loop with
  | top => exact ⟨[.check], by simp, hcheck⟩
  | processing => exact ⟨[], by simp, Run.nil⟩
  | waiting =>
    have htimer : Run (Step w) ⟨false, .waiting⟩ [.timer] ⟨false, .top⟩ := Run.single rfl
    exact ⟨[.timer, .check], by simp, htimer.append hcheck⟩
  | returned => exact absurd rfl hret

/-- A worker none of whose jobs is interrupted by its heartbeat returns only when the pool is
stopped, and goes on to claim the next job otherwise. -/
theorem worker_survives_jobs (h : Run (Step w) initial tr s)
    (hok : Throughout (Step w) initial tr fun _ _ => Uninterrupted) : Survives w s := by
  have hret : s.loop = .returned → s.poolDone = true := by
    refine h.guarded (fun _ s => s.loop = .returned → s.poolDone = true) (by simp [initial]) ?_ hok
    intro past s e t _ hok he
    exact poolDone_of_returned hok he
  refine ⟨hret, fun hpool => goes_on ?_ hpool⟩
  intro hreturned
  rw [hret hreturned] at hpool
  cases hpool

def threeAttempts : PoolConfig := ⟨⟨3, 0, 0⟩, fun _ => false⟩

/-- The lease is lost at 5 during the generation, which ends at 6 with the error of its context. -/
def lostJob : JobCalls where
  claim := .ok (some ⟨alice, job1⟩)
  loss := some (5, .notHeld)
  policy := .ok ⟨3, 0, 0⟩
  policyReturned := 1
  payload _ := ⟨.ok (), 2, 2, true⟩
  payloadStopped := 2
  generate _ := ⟨.error (.sentinel .contextCanceled), 6, 6, true⟩
  generateStopped := 7
  markCompleted := none
  stopped_after := by decide
  policy_honors := by simp
  payload_honors := by simp
  generate_honors := by
    intro k err h
    cases h
    exact fun _ => rfl
  markCompleted_honors := by simp

/-- A worker leaves the pool because one of its jobs lost its lease. -/
theorem worker_ends_with_lost_job :
    ∃ s, Run (Step threeAttempts) initial [.check, .job lostJob] s ∧ s.loop = .returned ∧
      s.poolDone = false ∧ ¬Survives threeAttempts s := by
  obtain ⟨s, hrun, hret, hpool⟩ := Run.exists_of_foldlM (step threeAttempts) initial
    [.check, .job lostJob] (fun s => s.loop = .returned ∧ s.poolDone = false) (by decide +kernel)
  refine ⟨s, hrun, hret, hpool, fun hs => ?_⟩
  rw [hs.1 hret] at hpool
  cases hpool

/-- The generation fails for good, and the lease is lost right after its last attempt. -/
def failedJob : JobCalls where
  claim := .ok (some ⟨alice, job1⟩)
  loss := some (7, .maxFailures)
  policy := .error (.sentinel .contextDeadlineExceeded)
  policyReturned := 1
  payload _ := ⟨.ok (), 2, 2, true⟩
  payloadStopped := 2
  generate _ := ⟨.error (.text "model not found"), 6, 6, true⟩
  generateStopped := 8
  markCompleted := none
  stopped_after := by decide
  policy_honors := by
    intro err h
    cases h
    exact fun h => by cases h
  payload_honors := by simp
  generate_honors := by
    intro k err h
    cases h
    exact fun h => by cases h
  markCompleted_honors := by simp

theorem worker_survives_failed_job :
    ∃ s, Run (Step threeAttempts) initial [.check, .job failedJob, .timer] s ∧
      s.poolDone = false ∧ Survives threeAttempts s := by
  obtain ⟨s, hrun, hpool⟩ := Run.exists_of_foldlM (step threeAttempts) initial
    [.check, .job failedJob, .timer] (fun s => s.poolDone = false) (by decide +kernel)
  refine ⟨s, hrun, hpool, worker_survives_jobs hrun ?_⟩
  intro past e rest t htr _
  have hmem : e ∈ [Event.check, .job failedJob, .timer] := by simp [htr]
  simp only [List.mem_cons, List.not_mem_nil, or_false] at hmem
  rcases hmem with rfl | rfl | rfl
  · trivial
  · exact fun k => ⟨fun hne => absurd rfl hne, fun _ => ⟨rfl, rfl⟩⟩
  · trivial

end RunWorker

end InferenceQueue.Service

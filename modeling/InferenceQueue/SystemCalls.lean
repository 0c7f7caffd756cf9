import InferenceQueue.JobModel
import InferenceQueue.SchedulerSteps

namespace InferenceQueue.Service

open Scheduler Jobs

structure Config where
  scheduler : Scheduler.Config
  /-- `BatchSize`, `OrphanGrace` and `QueueCapacity` of the recovery service -/
  batch : ℕ
  orphanGrace : ℕ
  recoveryCapacity : ℕ
  defaultMaxAttempts : ℤ
  /-- the field of the worker pool, which `NewWorkerPool` leaves at 0 -/
  maxRenewalFailures : ℕ

/-- Submits, workers and recovery passes meet only in Redis and PostgreSQL. -/
structure Stores where
  redis : Scheduler.State
  jobs : Table

/-- Calls that only report how they went. -/
inductive External
  | setJobID (jobID : JobID)
  | deadline
  | transitionStatus (jobID : JobID) (o : Outcome)
  | cleanupClaims
  | publishFailed (jobID : JobID)
  | closeStream (jobID : JobID)
  | payload (jobID : JobID)
deriving DecidableEq

inductive Request
  | redis (op : Op)
  | clock
  | expiredJobIDs (cutoff limit : ℕ)
  | completedJobIDs
  | create (jobID : JobID) (userID : UserID)
  | markSelect (o : Outcome) (jobID : JobID)
  | markUpdate (o : Outcome) (jobID : JobID) (retryCount : ℤ)
  | byID (jobID : JobID)
  | updateCreated (jobID : JobID) (retryCount : ℤ)
  | pendingOrphans (before limit : ℕ)
  | retryPolicy (userID : UserID)
  | generate (jobID : JobID) (maxAttempts : ℤ)
  | external (what : External)
deriving DecidableEq

inductive Response
  | reply (r : Reply)
  | time (now : ℕ)
  | ids (jobIDs : List JobID)
  | result (r : Except GoError Unit)
  | job (r : Except GoError Job)
  | flag (b : Bool)
  | orphans (jobs : List Job)
  | policy (maxAttempts : ℤ)
  /-- whether the generation succeeded, and the attempts it took -/
  | attempts (ok : Bool) (n : ℕ)
  /-- the call failed, after its effect or before it -/
  | failed (applied : Bool)
deriving DecidableEq

/-- `JobAdapter.ByID` of the recovery module over `JobUsecase.GetByID`. -/
def byID (jobID : JobID) (db : Table) : Except GoError Job :=
  match jobByID jobID db with
  | .ok job => .ok job
  | .error err =>
    if err.isCode errCodeJobNotFound then .error (.sentinel .recoveryJobNotFound) else .error err

/-- The effect a call has on the stores, whether or not its reply arrives. -/
def effect (cfg : Config) (now : ℕ) (st : Stores) : Request → Stores
  | .redis op => { st with redis := (call cfg.scheduler now st.redis op).1 }
  | .create jobID userID =>
    if (st.jobs.lookup jobID).isNone then { st with jobs := save jobID userID now st.jobs } else st
  | .markUpdate o jobID retryCount =>
    { st with jobs := (updateStatus jobID o.status retryCount st.jobs).1 }
  | .updateCreated jobID retryCount =>
    { st with jobs := (updateStatusIfStatus jobID retryCount .created .created st.jobs).1 }
  | _ => st

/-- The replies a call may give when it does not fail. -/
def Answers (cfg : Config) (now : ℕ) (st : Stores) : Request → Response → Prop
  | .redis op, .reply r => r = (call cfg.scheduler now st.redis op).2
  | .clock, .time t => t = now
  | .expiredJobIDs cutoff limit, .ids l => l = expiredJobIDs cutoff limit st.redis
  -- SMEMBERS gives the members in any order
  | .completedJobIDs, .ids l => l.Nodup ∧ l.toFinset = st.redis.completedJobs
  -- a new UUID
  | .create jobID _, .result r => r = .ok () ∧ st.jobs.lookup jobID = none
  | .markSelect o jobID, .result r => r = markSelect o jobID st.jobs
  | .markUpdate o jobID retryCount, .result r => r = (markUpdate o jobID retryCount st.jobs).2
  | .byID jobID, .job r => r = byID jobID st.jobs
  | .updateCreated jobID retryCount, .flag b =>
    b = (updateStatusIfStatus jobID retryCount .created .created st.jobs).2
  | .pendingOrphans before limit, .orphans l => PendingOrphans before limit st.jobs l
  | .retryPolicy _, .policy _ => True
  | .generate _ maxAttempts, .attempts ok n =>
    (n : ℤ) ≤ max maxAttempts 0 ∧ (0 < maxAttempts → 0 < n) ∧ (ok = true → 0 < n)
  | .external _, .flag _ => True
  | _, _ => False

instance (cfg : Config) (now : ℕ) (st : Stores) (req : Request) (resp : Response) :
    Decidable (Answers cfg now st req resp) := by
  cases req <;> cases resp <;> unfold Answers <;> infer_instance

/-- Reading the clock and waiting for the model server cannot fail otherwise. -/
def Request.mayFail : Request → Bool
  | .clock => false
  | .generate _ _ => false
  | _ => true

/-- A call is atomic, and one that fails may or may not have had its effect. -/
def serve (cfg : Config) (now : ℕ) (st : Stores) (req : Request) (resp : Response) :
    Option Stores :=
  if resp = .failed false then if req.mayFail then some st else none
  else if (resp = .failed true ∧ req.mayFail) ∨ Answers cfg now st req resp then
    some (effect cfg now st req)
  else none

variable {cfg : Config} {now : ℕ} {st st' : Stores} {req : Request} {resp : Response} {j : JobID}

/-- A served call had its effect or failed before it. -/
theorem serve_cases (h : serve cfg now st req resp = some st') :
    (resp = .failed false ∧ st' = st) ∨
      (resp ≠ .failed false ∧ st' = effect cfg now st req ∧
        (resp = .failed true ∨ Answers cfg now st req resp)) := by
  unfold serve at h
  split_ifs at h with hbefore _ hafter
  · exact Or.inl ⟨hbefore, (Option.some.inj h).symm⟩
  · exact Or.inr ⟨hbefore, (Option.some.inj h).symm, hafter.imp And.left id⟩

theorem answers_of_serve (h : serve cfg now st req resp = some st')
    (hresp : ∀ b, resp ≠ .failed b) : Answers cfg now st req resp := by
  rcases serve_cases h with ⟨rfl, -⟩ | ⟨-, -, rfl | hans⟩
  · exact absurd rfl (hresp false)
  · exact absurd rfl (hresp true)
  · exact hans

theorem ne_failed_of_answers (h : Answers cfg now st req resp) (b : Bool) : resp ≠ .failed b := by
  rintro rfl
  cases req <;> cases h

theorem serve_of_answers (h : Answers cfg now st req resp) :
    serve cfg now st req resp = some (effect cfg now st req) := by
  rw [serve, if_neg (ne_failed_of_answers h false), if_pos (Or.inr h)]

/-- The error of `GetByID` carries no code, so `ByID` never reports a missing job as missing. -/
theorem byID_eq : byID j st.jobs = jobByID j st.jobs := by
  unfold byID
  cases h : jobByID j st.jobs with
  | ok job => rfl
  | error err => simp [GoError.isCode, (jobByID_error h).1]

theorem jobByID_of_answers {found : Except GoError Job}
    (h : Answers cfg now st (.byID j) (.job found)) : jobByID j st.jobs = found := by
  rw [← byID_eq]
  exact h.symm

theorem jobByID_of_serve {found : Except GoError Job}
    (h : serve cfg now st (.byID j) (.job found) = some st') : jobByID j st.jobs = found :=
  jobByID_of_answers (answers_of_serve h (by simp))

end InferenceQueue.Service

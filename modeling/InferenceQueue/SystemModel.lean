import InferenceQueue.RecoveryModel
import InferenceQueue.WorkerModel

namespace InferenceQueue.Service

open Scheduler Jobs

/-- `Submit` from the creation of the job on. -/
inductive Submit
  | create
  | bind (jobID : JobID) (userID : UserID)
  | deadline (jobID : JobID) (userID : UserID)
  | push (jobID : JobID) (userID : UserID)
  /-- `MarkFailed` as compensation; `bound` tells whether the idempotency record knows the job -/
  | failSelect (jobID : JobID) (bound : Bool)
  | failUpdate (jobID : JobID) (bound : Bool)
  | settle (jobID : JobID) (bound : Bool)
  | ended
deriving DecidableEq

namespace Submit

/-- `JobCreatorAdapter` does not pass the attempt on, so `CurrentAttempt` is 0. -/
def requests : Submit → Request → Prop
  | create, req => ∃ jobID userID, req = .create jobID userID
  | bind jobID _, req => req = .external (.setJobID jobID)
  | deadline _ _, req => req = .external .deadline
  | push jobID userID, req => req = .redis (.pushLeft ⟨jobID, userID, 0⟩)
  | failSelect jobID _, req => req = .markSelect .failed jobID
  | failUpdate jobID _, req => req = .markUpdate .failed jobID 0
  | settle jobID true, req => req = .external (.transitionStatus jobID .failed)
  | settle _ false, req => req = .external .cleanupClaims
  | ended, _ => False

instance (p : Submit) (req : Request) : Decidable (p.requests req) :=
  match p, req with
  | create, .create jobID userID => isTrue ⟨jobID, userID, rfl⟩
  | create, .redis _ | create, .clock | create, .expiredJobIDs .. | create, .completedJobIDs
  | create, .markSelect .. | create, .markUpdate .. | create, .byID _ | create, .updateCreated ..
  | create, .pendingOrphans .. | create, .retryPolicy _ | create, .generate ..
  | create, .external _ => isFalse (by rintro ⟨_, _, ⟨⟩⟩)
  | bind jobID _, req => inferInstanceAs (Decidable (req = .external (.setJobID jobID)))
  | deadline _ _, req => inferInstanceAs (Decidable (req = .external .deadline))
  | push jobID userID, req =>
    inferInstanceAs (Decidable (req = .redis (.pushLeft ⟨jobID, userID, 0⟩)))
  | failSelect jobID _, req => inferInstanceAs (Decidable (req = .markSelect .failed jobID))
  | failUpdate jobID _, req => inferInstanceAs (Decidable (req = .markUpdate .failed jobID 0))
  | settle jobID true, req =>
    inferInstanceAs (Decidable (req = .external (.transitionStatus jobID .failed)))
  | settle _ false, req => inferInstanceAs (Decidable (req = .external .cleanupClaims))
  | ended, _ => isFalse id

def resume : Submit → Request → Response → Submit
  | create, .create jobID userID, .result (.ok ()) => bind jobID userID
  | create, _, _ => ended
  | bind jobID userID, _, .flag true => deadline jobID userID
  | bind jobID _, _, _ => failSelect jobID false
  | deadline jobID userID, _, .flag true => push jobID userID
  | deadline jobID _, _, _ => failSelect jobID true
  -- any other error leaves the job to the orphan sweep
  | push jobID _, _, .reply (.enqueue (.error err)) =>
    if err.is .schedulerQueueFull then failSelect jobID true else ended
  | push _ _, _, _ => ended
  | failSelect jobID bound, _, .result (.ok ()) => failUpdate jobID bound
  | failSelect jobID bound, _, _ => settle jobID bound
  | failUpdate jobID bound, _, _ => settle jobID bound
  | settle _ _, _, _ => ended
  | ended, _, _ => ended

end Submit

/-- Any number of submits, workers and recovery passes. A thread that is never scheduled again has
stopped. -/
structure System where
  clock : ℕ
  stores : Stores
  submits : ℕ → Submit
  workers : ℕ → Worker
  recoveries : ℕ → Recovery

def System.initial : System where
  clock := 0
  stores := ⟨State.empty, ∅⟩
  submits _ := .create
  workers _ := .idle
  recoveries _ := .idle

inductive Thread
  | submit (i : ℕ)
  | worker (i : ℕ)
  | heartbeat (i : ℕ)
  | recovery (i : ℕ)
deriving DecidableEq

inductive Event
  | tick (ms : ℕ)
  | call (th : Thread) (req : Request) (resp : Response)
deriving DecidableEq

def Requests (cfg : Config) (s : System) (req : Request) : Thread → Prop
  | .submit i => (s.submits i).requests req
  | .worker i => (s.workers i).request i = req
  | .heartbeat i => (s.workers i).beatRequest = some req
  | .recovery i => (s.recoveries i).request cfg = req

instance (cfg : Config) (s : System) (req : Request) (th : Thread) :
    Decidable (Requests cfg s req th) :=
  match th with
  | .submit i => inferInstanceAs (Decidable ((s.submits i).requests req))
  | .worker i => inferInstanceAs (Decidable ((s.workers i).request i = req))
  | .heartbeat i => inferInstanceAs (Decidable ((s.workers i).beatRequest = some req))
  | .recovery i => inferInstanceAs (Decidable ((s.recoveries i).request cfg = req))

def resume (cfg : Config) (s : System) (req : Request) (resp : Response) : Thread → System
  | .submit i =>
    { s with submits := Function.update s.submits i ((s.submits i).resume req resp) }
  | .worker i => { s with workers := Function.update s.workers i ((s.workers i).resume cfg resp) }
  | .heartbeat i =>
    { s with workers := Function.update s.workers i ((s.workers i).resumeBeat cfg resp) }
  | .recovery i =>
    { s with recoveries := Function.update s.recoveries i ((s.recoveries i).resume cfg resp) }

def step (cfg : Config) (s : System) : Event → Option System
  | .tick ms => some { s with clock := s.clock + ms }
  | .call th req resp =>
    if Requests cfg s req th then
      (serve cfg s.clock s.stores req resp).map fun st =>
        resume cfg { s with stores := st } req resp th
    else none

abbrev Step (cfg : Config) : System → Event → System → Prop := Fires (step cfg)

end InferenceQueue.Service

import InferenceQueue.CoalescingModel
import InferenceQueue.IdempotencySteps
import InferenceQueue.SystemModel

namespace InferenceQueue.Platform

open Service Idempotency Coalescing

/-- TTLs in whole seconds, as the stores are given them: 0 for a duration below one second. -/
structure InferenceConfig where
  coalescingTTL : ℕ
  idempotencyTTL : ℕ
  completedIdempotencyTTL : ℕ

structure Config where
  service : Service.Config
  inference : InferenceConfig
  hashRequest : String → UInt64

structure Task where
  request : InferenceRequest
  header : String
deriving DecidableEq

def Task.idempotencyKey (task : Task) : String :=
  buildIdempotencyKey task.request.userID task.header

def Task.coalescingKey (cfg : Config) (task : Task) : String :=
  buildCoalescingKey task.request.userID (cfg.hashRequest task.request.generateKey)

/-- Why `Submit` gives its keys back. -/
inductive Ending
  | admission
  | creation
  | binding
  /-- a short deadline or a full queue -/
  | rejection
deriving DecidableEq

/-- The call `Submit` makes next. -/
inductive Front
  | start
  | invalid
  | claim (task : Task)
  | coalesce (task : Task)
  | admitting (task : Task)
  /-- from the creation of the job on -/
  | running (task : Task)
  | release (task : Task) (ending : Ending)
  /-- `clean` tells whether the coalescing key was deleted without an error -/
  | forget (task : Task) (ending : Ending) (clean : Bool)
  /-- the returned job ID, and whether the returned error is nil -/
  | returned (task : Task) (jobID : Option JobID) (ok : Bool)
deriving DecidableEq

inductive Answer
  | claimed (result : IdempotencyResult)
  | decided (action : CoalescingAction)
  | admitted (ok : Bool)
  | deleted
  | failed (applied : Bool)
deriving DecidableEq

structure State where
  system : System
  idempotency : Idempotency.Store
  coalescing : Coalescing.Store
  fronts : ℕ → Front

def State.initial : State where
  system := System.initial
  idempotency := .empty
  coalescing := ∅
  fronts _ := .start

def State.clock (p : State) : ℕ := p.system.clock

inductive Event
  | submit (i : ℕ) (userID : UserID) (header : String) (input : InferenceInput)
  | front (i : ℕ) (answer : Answer)
  | system (e : Service.Event)
deriving DecidableEq

namespace Front

def begin (userID : UserID) (header : String) (input : InferenceInput) : Front :=
  match validateInferenceInput userID input with
  | .ok request => claim ⟨request, header⟩
  | .error _ => invalid

def resume : Front → Answer → Front
  | claim task, .claimed r =>
    match r.action with
    | .new => coalesce task
    | .replay => returned task r.jobID true
    | .duplicateInFlight | .unknown | .failed => returned task none false
  | claim task, _ => returned task none false
  | coalesce task, .decided .proceed => admitting task
  -- the idempotency record stays
  | coalesce task, _ => returned task none false
  | admitting task, .admitted true => running task
  | admitting task, _ => release task .admission
  | release task .rejection, _ => returned task none false
  | release task ending, answer => forget task ending (answer = .deleted)
  | forget task .admission _, _ => returned task none false
  -- `err` is by now that of `cleanupClaims`
  | forget task _ clean, answer => returned task none (clean && answer = .deleted)
  | front, _ => front

/-- How `Submit` goes on after a call of its second half. -/
def follow (task : Task) (before after : Submit) (resp : Response) : Front :=
  match before, after with
  | .create, .ended => release task .creation
  | _, .settle _ false => release task .binding
  | .settle _ true, .ended => release task .rejection
  | .push jobID _, .ended =>
    match resp with
    | .reply (.enqueue (.ok _)) => returned task (some jobID) true
    | _ => returned task none false
  | _, _ => running task

def idempotencyOp (cfg : Config) : Front → Option Idempotency.Op
  | claim task =>
    some (.claimOrGet task.request.userID task.header cfg.inference.idempotencyTTL)
  | forget task _ _ => some (.delete task.request.userID task.header)
  | _ => none

def coalescingOp (cfg : Config) : Front → Option Coalescing.Op
  | coalesce task => some (.tryCoalesce (task.coalescingKey cfg))
  | release task _ => some (.delete (task.coalescingKey cfg))
  | _ => none

/-- The answers the next call may give. -/
def Answers (cfg : Config) (p : State) : Front → Answer → Prop
  | claim task, .claimed r =>
    r = (claimOrGet p.clock task.request.userID task.header cfg.inference.idempotencyTTL
      p.idempotency).1
  | coalesce task, .decided action =>
    (tryCoalesce p.clock cfg.inference.coalescingTTL (task.coalescingKey cfg) p.coalescing).1 =
      .ok action
  | admitting _, .admitted _ => True
  | release _ _, .deleted | forget _ _ _, .deleted => True
  | claim _, .failed _ | coalesce _, .failed _ | release _ _, .failed _
  | forget _ _ _, .failed _ => True
  | _, _ => False

instance (cfg : Config) (p : State) (front : Front) (answer : Answer) :
    Decidable (front.Answers cfg p answer) := by
  cases front <;> cases answer <;> unfold Answers <;> infer_instance

end Front

def recordStatus : Jobs.Outcome → RecordStatus
  | .completed => .completed
  | .failed => .failed

/-- The call of the idempotency store behind a call of the system. -/
def externalOp (p : State) : Thread → External → Option Idempotency.Op
  | .submit i, .setJobID jobID =>
    match p.fronts i with
    | .running task => some (.setJobID task.request.userID task.header jobID)
    | _ => none
  | .recovery _, .transitionStatus jobID o =>
    some (.transitionStatusIfInFlight jobID (recordStatus o))
  | _, .transitionStatus jobID o => some (.transitionStatus jobID (recordStatus o))
  | _, _ => none

/-- What the calls of the idempotency store tell the system when they do not fail.  Recovery does
not look at the flag of `TransitionStatusIfInFlight`. -/
def ExternalAnswers (cfg : Config) (p : State) : Thread → External → Bool → Prop
  | .submit i, .setJobID jobID, b =>
    match p.fronts i with
    | .running task => b = (setJobIDScript p.clock task.idempotencyKey jobID p.idempotency).1
    | _ => False
  | .recovery _, .transitionStatus _ _, b => b = true
  | _, .transitionStatus jobID o, b =>
    b = decide ((transitionScript p.clock cfg.inference.completedIdempotencyTTL jobID
      (recordStatus o) p.idempotency).1 = .ok)
  | _, _, _ => True

instance (cfg : Config) (p : State) (th : Thread) (what : External) (b : Bool) :
    Decidable (ExternalAnswers cfg p th what b) := by
  unfold ExternalAnswers
  split
  · split <;> infer_instance
  all_goals infer_instance

/-- The second half of a `Submit` runs after the first, for the user of its request. -/
def SubmitAllowed (p : State) (i : ℕ) (req : Request) : Prop :=
  match p.fronts i with
  | .running task =>
    match req with
    | .create _ userID => userID = task.request.userID
    | _ => True
  | _ => False

instance (p : State) (i : ℕ) (req : Request) : Decidable (SubmitAllowed p i req) := by
  dsimp only [SubmitAllowed]
  generalize p.fronts i = front
  induction front using Front.casesOn with
  | running task => induction req using Request.casesOn <;> dsimp only <;> infer_instance
  | _ => exact isFalse id

def Allowed (cfg : Config) (p : State) : Service.Event → Prop
  | .tick _ => True
  | .call th req resp =>
    (match th with
      | .submit i => SubmitAllowed p i req
      | _ => True) ∧
    match req, resp with
    | .external what, .flag b => ExternalAnswers cfg p th what b
    | _, _ => True

instance (cfg : Config) (p : State) (e : Service.Event) : Decidable (Allowed cfg p e) := by
  induction e using Service.Event.casesOn with
  | tick => exact isTrue trivial
  | call th req resp =>
    refine @instDecidableAnd _ _ ?_ ?_
    · induction th using Thread.casesOn <;> dsimp only <;> infer_instance
    · induction req using Request.casesOn with
      | external what => induction resp using Response.casesOn <;> dsimp only <;> infer_instance
      | _ => exact isTrue trivial

/-- The call of the idempotency store that takes effect. -/
def idempotencyOp (cfg : Config) (p : State) : Event → Option Idempotency.Op
  | .submit _ _ _ _ => none
  | .front i answer => if answer = .failed false then none else (p.fronts i).idempotencyOp cfg
  | .system (.call th (.external what) resp) =>
    if resp = .failed false then none else externalOp p th what
  | .system _ => none

/-- The call of the coalescing store that takes effect. -/
def coalescingOp (cfg : Config) (p : State) : Event → Option Coalescing.Op
  | .front i answer => if answer = .failed false then none else (p.fronts i).coalescingOp cfg
  | _ => none

/-- The stores after an event. -/
def withStores (cfg : Config) (p : State) (e : Event) (q : State) : State :=
  { q with
    idempotency :=
      match idempotencyOp cfg p e with
      | some op =>
        Idempotency.perform cfg.inference.completedIdempotencyTTL p.clock op p.idempotency
      | none => p.idempotency
    coalescing :=
      match coalescingOp cfg p e with
      | some op => Coalescing.perform p.clock cfg.inference.coalescingTTL op p.coalescing
      | none => p.coalescing }

def frontsAfter (p : State) (system : System) : Service.Event → ℕ → Front
  | .call (.submit i) _ resp =>
    match p.fronts i with
    | .running task =>
      Function.update p.fronts i
        (.follow task (p.system.submits i) (system.submits i) resp)
    | _ => p.fronts
  | _ => p.fronts

def move (cfg : Config) (p : State) : Event → Option State
  | .submit i userID header input =>
    if p.fronts i = .start then
      some { p with fronts := Function.update p.fronts i (.begin userID header input) }
    else none
  | .front i answer =>
    if (p.fronts i).Answers cfg p answer then
      some { p with fronts := Function.update p.fronts i ((p.fronts i).resume answer) }
    else none
  | .system e =>
    if Allowed cfg p e then
      (Service.step cfg.service p.system e).map fun system =>
        { p with system, fronts := frontsAfter p system e }
    else none

def step (cfg : Config) (p : State) (e : Event) : Option State :=
  (move cfg p e).map (withStores cfg p e)

abbrev Step (cfg : Config) : State → Event → State → Prop := Fires (step cfg)

end InferenceQueue.Platform

import InferenceQueue.Heartbeat
import InferenceQueue.LeaseEpochs
import InferenceQueue.SchedulerPlacement

namespace InferenceQueue.LeaseTiming

open Service (WorkerPool WorkerConfig newWorkerPool Renewal Beating)

/-- `Duration.Milliseconds`, and what the scripts make of TIME. -/
def milliseconds (ns : ℕ) : ℕ := ns / 1000000

def lease (pool : WorkerPool) : ℕ := pool.leaseTimeout.toNat

def interval (pool : WorkerPool) : ℕ := if lease pool / 3 = 0 then 1000000000 else lease pool / 3

/-- The channel of a ticker holds one tick: after a tick was taken the next one to come is the first
that is due later. -/
def nextTick (interval base taken : ℕ) : ℕ := base + ((taken - base) / interval + 1) * interval

/-- Where the heartbeat of a claimed job is.  `base` is when its ticker was made, `due` when the
tick of its next renewal comes. -/
inductive Stage
  /-- the script has claimed the job, and the goroutine is not there yet -/
  | claimed (since : ℕ)
  | waiting (base due : ℕ)
  /-- a tick was taken, and Redis has not executed the renewal -/
  | renewing (base due taken : ℕ)
  /-- Redis has executed it -/
  | replying (base due : ℕ) (renewed : Bool)
  /-- the job context is canceled, or `processJob` has stopped the heartbeat -/
  | ended
deriving DecidableEq

def Stage.running : Stage → Bool
  | ended => false
  | _ => true

structure Beat where
  job : JobID
  beating : Beating
  stage : Stage

/-- One clock in nanoseconds; Redis and the cutoffs of recovery see its milliseconds. -/
structure State where
  clock : ℕ
  redis : Scheduler.State
  /-- the cutoffs of the recovery passes so far -/
  passes : List ℕ
  beats : List Beat

inductive Event
  | tick (ns : ℕ)
  | startPass
  /-- any call, also a claim whose reply is lost -/
  | call (e : Scheduler.Event)
  | claim (e : Scheduler.Event)
  | begins (i : ℕ)
  | take (i : ℕ)
  | renew (i : ℕ) (e : Scheduler.Event)
  | answer (i : ℕ) (r : Renewal)
  | stop (i : ℕ)

def Event.redisCall : Event → Option Scheduler.Event
  | .call e | .claim e | .renew _ e => some e
  | _ => none

def config (pool : WorkerPool) (cfg : Scheduler.Config) : Scheduler.Config :=
  { cfg with lease := milliseconds (lease pool) }

variable (pool : WorkerPool) (cfg : Scheduler.Config)

def execute (s : State) (e : Scheduler.Event) : Option Scheduler.State :=
  if e.now = milliseconds s.clock ∧ ∀ c ∈ e.op.cutoff, c ∈ s.passes then
    Scheduler.step (config pool cfg) s.redis e
  else none

/-- What the worker is told is what the script did, unless the call failed. -/
def answers : Stage → Renewal → Bool
  | .renewing _ _ _, .failed _ => true
  | .replying _ _ true, .extended => true
  | .replying _ _ false, .notHeld => true
  | .replying _ _ _, .failed _ => true
  | _, _ => false

def Beat.answer (b : Beat) (r : Renewal) : Beat :=
  let beating := b.beating.beat pool.maxRenewalFailures r.extendLease
  { b with
    beating
    stage :=
      if beating.canceled.isSome then .ended
      else
        match b.stage with
        | .renewing base _ taken => .waiting base (nextTick (interval pool) base taken)
        | .replying base due _ => .waiting base due
        | stage => stage }

def step (s : State) : Event → Option State
  | .tick ns => some { s with clock := s.clock + ns }
  | .startPass => some { s with passes := milliseconds s.clock :: s.passes }
  | .call e => (execute pool cfg s e).map fun redis => { s with redis }
  | .claim e =>
    match e.claimed with
    | some (_, job) => (execute pool cfg s e).map fun redis =>
      { s with redis, beats := s.beats ++ [⟨job, .start, .claimed s.clock⟩] }
    | none => none
  | .begins i =>
    match s.beats[i]? with
    | some ⟨job, beating, .claimed _⟩ => some { s with
        beats := s.beats.set i ⟨job, beating, .waiting s.clock (s.clock + interval pool)⟩ }
    | _ => none
  | .take i =>
    match s.beats[i]? with
    | some ⟨job, beating, .waiting base due⟩ =>
      if due ≤ s.clock then
        some { s with beats := s.beats.set i ⟨job, beating, .renewing base due s.clock⟩ }
      else none
    | _ => none
  | .renew i e =>
    match s.beats[i]? with
    | some ⟨job, beating, .renewing base _ taken⟩ =>
      if e.op = .extendProcessingLease job then
        (execute pool cfg s e).map fun redis => { s with
          redis
          beats := s.beats.set i ⟨job, beating,
            .replying base (nextTick (interval pool) base taken) (e.reply = .done (.ok ()))⟩ }
      else none
    | _ => none
  | .answer i r =>
    match s.beats[i]? with
    | some b =>
      if answers b.stage r then some { s with beats := s.beats.set i (b.answer pool r) } else none
    | none => none
  | .stop i =>
    match s.beats[i]? with
    | some b => some { s with beats := s.beats.set i { b with stage := .ended } }
    | none => none

def initial : State := ⟨0, .empty, [], []⟩

abbrev Step : State → Event → State → Prop := Fires (step pool cfg)

inductive Moves (clock : ℕ) : Beat → Beat → Prop
  | begins {job beating since} : Moves clock ⟨job, beating, .claimed since⟩
      ⟨job, beating, .waiting clock (clock + interval pool)⟩
  | take {job beating base due} (hdue : due ≤ clock) : Moves clock ⟨job, beating, .waiting base due⟩
      ⟨job, beating, .renewing base due clock⟩
  | answer {b r} (hr : answers b.stage r = true) : Moves clock b (b.answer pool r)
  | stop {b} : Moves clock b { b with stage := .ended }

structure Executes (s : State) (e : Scheduler.Event) (redis : Scheduler.State) : Prop where
  now : e.now = milliseconds s.clock
  cutoff : ∀ c ∈ e.op.cutoff, c ∈ s.passes
  step : Scheduler.Step (config pool cfg) s.redis e redis

inductive Effect (s : State) : Event → State → Prop
  | tick {ns} : Effect s (.tick ns) { s with clock := s.clock + ns }
  | startPass : Effect s .startPass { s with passes := milliseconds s.clock :: s.passes }
  | call {e redis} (he : Executes pool cfg s e redis) : Effect s (.call e) { s with redis }
  | claim {e user job redis} (hclaimed : e.claimed = some (user, job))
      (he : Executes pool cfg s e redis) : Effect s (.claim e)
        { s with redis, beats := s.beats ++ [⟨job, .start, .claimed s.clock⟩] }
  | renew {i e job beating base due taken redis}
      (hb : s.beats[i]? = some ⟨job, beating, .renewing base due taken⟩)
      (hop : e.op = .extendProcessingLease job) (he : Executes pool cfg s e redis) :
      Effect s (.renew i e) { s with
        redis
        beats := s.beats.set i ⟨job, beating,
          .replying base (nextTick (interval pool) base taken) (e.reply = .done (.ok ()))⟩ }
  | moves {e i b b'} (hcall : e.redisCall = none) (hb : s.beats[i]? = some b)
      (hmoves : Moves pool s.clock b b') :
      Effect s e { s with beats := s.beats.set i b' }

variable {pool cfg}
variable {s t : State} {e : Event} {call : Scheduler.Event} {redis : Scheduler.State}

theorem executes_of_execute (h : execute pool cfg s call = some redis) :
    Executes pool cfg s call redis := by
  unfold execute at h
  split_ifs at h with hcall
  exact ⟨hcall.1, hcall.2, h⟩

theorem Step.effect (h : Step pool cfg s e t) : Effect pool cfg s e t := by
  simp only [Step, Fires] at h
  cases e with
  | tick ns =>
    cases h
    exact .tick
  | startPass =>
    cases h
    exact .startPass
  | call e =>
    obtain ⟨redis, hredis, rfl⟩ := Option.map_eq_some_iff.mp h
    exact .call (executes_of_execute hredis)
  | claim e =>
    simp only [step] at h
    split at h
    · next hclaimed =>
      obtain ⟨redis, hredis, rfl⟩ := Option.map_eq_some_iff.mp h
      exact .claim hclaimed (executes_of_execute hredis)
    · cases h
  | begins i =>
    simp only [step] at h
    split at h
    · next hb =>
      cases h
      exact .moves rfl hb .begins
    · cases h
  | take i =>
    simp only [step] at h
    split at h
    · next hb =>
      split_ifs at h with hdue
      cases h
      exact .moves rfl hb (.take hdue)
    · cases h
  | renew i e =>
    simp only [step] at h
    split at h
    · next hb =>
      split_ifs at h with hop
      obtain ⟨redis, hredis, rfl⟩ := Option.map_eq_some_iff.mp h
      exact .renew hb hop (executes_of_execute hredis)
    · cases h
  | answer i r =>
    simp only [step] at h
    split at h
    · next hb =>
      split_ifs at h with hr
      cases h
      exact .moves rfl hb (.answer hr)
    · cases h
  | stop i =>
    simp only [step] at h
    split at h
    · next hb =>
      cases h
      exact .moves rfl hb .stop
    · cases h

/-- How long it takes at most from the script that claims a job to the ticker of its heartbeat, and
from a tick to the script that renews the lease. -/
structure Delays where
  claim : ℕ
  renewal : ℕ

variable (delays : Delays)

def Stage.InTime (clock : ℕ) : Stage → Prop
  | claimed since => clock ≤ since + delays.claim
  | waiting _ due | renewing _ due _ | replying _ due _ => clock ≤ due + delays.renewal
  | ended => True

instance (clock : ℕ) : DecidablePred (Stage.InTime delays clock)
  | .claimed since => inferInstanceAs (Decidable (clock ≤ since + delays.claim))
  | .waiting _ due | .renewing _ due _ | .replying _ due _ =>
    inferInstanceAs (Decidable (clock ≤ due + delays.renewal))
  | .ended => isTrue trivial

/-- Time passes only as far as the delays allow, callers present jobs as they should, and nobody
releases a job whose heartbeat goes on: `processJob` has stopped its own by then. -/
def Regular (owner : JobID → UserID) (past : List Event) (s : State) (e : Event) : Prop :=
  (∀ call ∈ e.redisCall,
    Scheduler.Disciplined owner (past.filterMap Event.redisCall) s.redis call) ∧
  match e with
  | .tick ns => ∀ b ∈ s.beats, b.stage.InTime delays (s.clock + ns)
  | .call ⟨_, .releaseProcessingJob job, _⟩ =>
    ∀ b ∈ s.beats, b.job = job → b.stage.running = false
  | _ => True

instance (owner : JobID → UserID) (past : List Event) (s : State) (e : Event) :
    Decidable (Regular delays owner past s e) := by
  unfold Regular
  refine @instDecidableAnd _ _ inferInstance ?_
  split <;> infer_instance

end InferenceQueue.LeaseTiming

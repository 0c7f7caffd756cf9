import InferenceQueue.WaitGroup
import InferenceQueue.WorkerLoop

namespace InferenceQueue.PoolLifecycle

open Service

structure Goroutine where
  /-- the call of `context.WithCancel` its context is from -/
  generation : ℕ
  loop : Loop
  /-- `wg.Done()` has been called -/
  exited : Bool
deriving DecidableEq

/-- A call of `Start` or `Stop` that has had `startMu`: `Start` holds it while it starts the
workers, `Stop` only to take the cancel function. -/
inductive Caller
  /-- in the loop of `Start` -/
  | starting (generation remaining : ℕ)
  /-- in `Stop`, with the function it has taken from the pool -/
  | canceling (cancel : Option ℕ)
  /-- in the `select` of `Stop` -/
  | selecting
  | returned (err : Option GoError)
deriving DecidableEq

structure State where
  started : Bool
  /-- the generation the cancel function is of -/
  cancel : Option ℕ
  /-- `startMu` is held across steps -/
  locked : Bool
  wg : WaitGroup ℕ
  /-- whether the context of each generation is done -/
  contexts : List Bool
  workers : List Goroutine
  callers : List Caller
  /-- the calls of `Stop` whose goroutine has not come to `wg.Wait()` yet -/
  pending : List ℕ
  panicked : Bool
deriving DecidableEq

def State.initial : State := ⟨false, none, false, .empty, [], [], [], [], false⟩

inductive Event
  | start
  | spawn (c : ℕ)
  | startReturn (c : ℕ)
  | stop
  | cancel (c : ℕ)
  | wait (c : ℕ)
  | wake (c : ℕ)
  /-- `<-done` -/
  | stopped (c : ℕ)
  /-- `<-ctx.Done()`; the argument is for `context.DeadlineExceeded` -/
  | timedOut (c : ℕ) (deadline : Bool)
  /-- the context `Start` was called with is done -/
  | parentDone (generation : ℕ)
  | worker (k : ℕ) (e : RunWorker.Event)
  | exit (k : ℕ)

def alreadyStarted : GoError := .text "worker pool: already started"

def shutdownTimedOut (deadline : Bool) : GoError :=
  .wrap "worker pool: shutdown timed out: "
    (.sentinel (if deadline then .contextDeadlineExceeded else .contextCanceled))

def State.done (s : State) (generation : ℕ) : Bool := s.contexts[generation]?.getD false

/-- `runWorker` of a worker, with the context it shares with the others. -/
def State.runWorker (s : State) (r : Goroutine) : RunWorker := ⟨s.done r.generation, r.loop⟩

variable (w : PoolConfig) (workerCount : ℕ)

def act (s : State) : Event → Option State
  | .start =>
    if s.locked then none
    else if s.started then
      some { s with callers := s.callers ++ [.returned (some alreadyStarted)] }
    else
      some { s with
        started := true
        cancel := some s.contexts.length
        locked := true
        contexts := s.contexts ++ [false]
        callers := s.callers ++ [.starting s.contexts.length workerCount] }
  | .spawn c =>
    match s.callers[c]? with
    | some (.starting g (n + 1)) =>
      some { s with
        wg := s.wg.add
        workers := s.workers ++ [⟨g, .top, false⟩]
        callers := s.callers.set c (.starting g n) }
    | _ => none
  | .startReturn c =>
    match s.callers[c]? with
    | some (.starting _ 0) =>
      some { s with locked := false, callers := s.callers.set c (.returned none) }
    | _ => none
  | .stop =>
    if s.locked then none
    else if s.started then
      some { s with
        started := false
        cancel := none
        callers := s.callers ++ [.canceling s.cancel] }
    else some { s with callers := s.callers ++ [.returned none] }
  | .cancel c =>
    match s.callers[c]? with
    | some (.canceling (some g)) =>
      some { s with
        contexts := s.contexts.set g true
        callers := s.callers.set c .selecting
        pending := c :: s.pending }
    -- a call of a nil function
    | some (.canceling none) => some { s with panicked := true }
    | _ => none
  | .wait c =>
    if c ∈ s.pending then some { s with pending := s.pending.erase c, wg := s.wg.wait c }
    else none
  | .wake c =>
    if c ∈ s.wg.woken then
      match s.wg.wake c with
      | some wg => some { s with wg }
      | none => some { s with panicked := true }
    else none
  | .stopped c =>
    if s.callers[c]? = some .selecting ∧ c ∈ s.wg.passed then
      some { s with callers := s.callers.set c (.returned none) }
    else none
  | .timedOut c deadline =>
    if s.callers[c]? = some .selecting then
      some { s with callers := s.callers.set c (.returned (some (shutdownTimedOut deadline))) }
    else none
  | .parentDone g =>
    if g < s.contexts.length then some { s with contexts := s.contexts.set g true } else none
  | .worker k e =>
    match e, s.workers[k]? with
    -- a worker's context is done with that of its generation only
    | .cancelPool, _ => none
    | e, some r =>
      (RunWorker.step w (s.runWorker r) e).map fun u =>
        { s with workers := s.workers.set k { r with loop := u.loop } }
    | _, none => none
  | .exit k =>
    match s.workers[k]? with
    | some r =>
      if r.loop = .returned ∧ r.exited = false then
        match s.wg.done with
        | some wg => some { s with wg, workers := s.workers.set k { r with exited := true } }
        | none => some { s with panicked := true }
      else none
    | none => none

/-- A panic ends the process. -/
def step (s : State) (e : Event) : Option State :=
  if s.panicked then none else act w workerCount s e

abbrev Step : State → Event → State → Prop := Fires (step w workerCount)

inductive Effect (s : State) : Event → State → Prop
  | refused (hlock : s.locked = false) (hstarted : s.started = true) :
      Effect s .start { s with callers := s.callers ++ [.returned (some alreadyStarted)] }
  | starts (hlock : s.locked = false) (hstarted : s.started = false) :
      Effect s .start
        { s with
          started := true
          cancel := some s.contexts.length
          locked := true
          contexts := s.contexts ++ [false]
          callers := s.callers ++ [.starting s.contexts.length workerCount] }
  | spawn {c g n} (hcaller : s.callers[c]? = some (.starting g (n + 1))) :
      Effect s (.spawn c)
        { s with
          wg := s.wg.add
          workers := s.workers ++ [⟨g, .top, false⟩]
          callers := s.callers.set c (.starting g n) }
  | startReturn {c g} (hcaller : s.callers[c]? = some (.starting g 0)) :
      Effect s (.startReturn c)
        { s with locked := false, callers := s.callers.set c (.returned none) }
  | stops (hlock : s.locked = false) (hstarted : s.started = true) :
      Effect s .stop
        { s with
          started := false
          cancel := none
          callers := s.callers ++ [.canceling s.cancel] }
  | idle (hlock : s.locked = false) (hstarted : s.started = false) :
      Effect s .stop { s with callers := s.callers ++ [.returned none] }
  | cancel {c g} (hcaller : s.callers[c]? = some (.canceling (some g))) :
      Effect s (.cancel c)
        { s with
          contexts := s.contexts.set g true
          callers := s.callers.set c .selecting
          pending := c :: s.pending }
  | cancelNil {c} (hcaller : s.callers[c]? = some (.canceling none)) :
      Effect s (.cancel c) { s with panicked := true }
  | wait {c} (hpending : c ∈ s.pending) :
      Effect s (.wait c) { s with pending := s.pending.erase c, wg := s.wg.wait c }
  | wake {c wg} (hwoken : c ∈ s.wg.woken) (hwake : s.wg.wake c = some wg) :
      Effect s (.wake c) { s with wg }
  | reused {c} (hwoken : c ∈ s.wg.woken) (hwake : s.wg.wake c = none) :
      Effect s (.wake c) { s with panicked := true }
  | stopped {c} (hcaller : s.callers[c]? = some .selecting) (hpassed : c ∈ s.wg.passed) :
      Effect s (.stopped c) { s with callers := s.callers.set c (.returned none) }
  | timedOut {c deadline} (hcaller : s.callers[c]? = some .selecting) :
      Effect s (.timedOut c deadline)
        { s with callers := s.callers.set c (.returned (some (shutdownTimedOut deadline))) }
  | parentDone {g} (hg : g < s.contexts.length) :
      Effect s (.parentDone g) { s with contexts := s.contexts.set g true }
  | worker {k e r u} (hr : s.workers[k]? = some r) (he : e ≠ .cancelPool)
      (hu : RunWorker.Step w (s.runWorker r) e u) :
      Effect s (.worker k e) { s with workers := s.workers.set k { r with loop := u.loop } }
  | exit {k r wg} (hr : s.workers[k]? = some r) (hreturned : r.loop = .returned)
      (hexited : r.exited = false) (hdone : s.wg.done = some wg) :
      Effect s (.exit k) { s with wg, workers := s.workers.set k { r with exited := true } }
  | negative {k r} (hr : s.workers[k]? = some r) (hexited : r.exited = false)
      (hdone : s.wg.done = none) : Effect s (.exit k) { s with panicked := true }

variable {w workerCount} {s t : State} {e : Event} {tr : List Event}

theorem Step.effect (h : Step w workerCount s e t) : Effect w workerCount s e t := by
  simp only [Step, Fires, step] at h
  split_ifs at h
  cases e with
  | start =>
    simp only [act] at h
    split_ifs at h with hlock hstarted
    · cases h
      exact .refused (by simpa using hlock) hstarted
    · cases h
      exact .starts (by simpa using hlock) (by simpa using hstarted)
  | stop =>
    simp only [act] at h
    split_ifs at h with hlock hstarted
    · cases h
      exact .stops (by simpa using hlock) hstarted
    · cases h
      exact .idle (by simpa using hlock) (by simpa using hstarted)
  | spawn c =>
    simp only [act] at h
    split at h
    · next hcaller =>
      cases h
      exact .spawn hcaller
    · cases h
  | startReturn c =>
    simp only [act] at h
    split at h
    · next hcaller =>
      cases h
      exact .startReturn hcaller
    · cases h
  | cancel c =>
    simp only [act] at h
    split at h
    · next hcaller =>
      cases h
      exact .cancel hcaller
    · next hcaller =>
      cases h
      exact .cancelNil hcaller
    · cases h
  | wait c =>
    simp only [act] at h
    split_ifs at h with hpending
    cases h
    exact .wait hpending
  | wake c =>
    simp only [act] at h
    split_ifs at h with hwoken
    split at h
    · next hwake =>
      cases h
      exact .wake hwoken hwake
    · next hwake =>
      cases h
      exact .reused hwoken hwake
  | stopped c =>
    simp only [act] at h
    split_ifs at h with hcond
    cases h
    exact .stopped hcond.1 hcond.2
  | timedOut c deadline =>
    simp only [act] at h
    split_ifs at h with hcaller
    cases h
    exact .timedOut hcaller
  | parentDone g =>
    simp only [act] at h
    split_ifs at h with hg
    cases h
    exact .parentDone hg
  | worker k e =>
    simp only [act] at h
    split at h
    · cases h
    · next hne hr =>
      obtain ⟨u, hu, rfl⟩ := Option.map_eq_some_iff.mp h
      exact .worker hr hne hu
    · cases h
  | exit k =>
    simp only [act] at h
    split at h
    · next hr =>
      split_ifs at h with hcond
      split at h
      · next hdone =>
        cases h
        exact .exit hr hcond.1 hcond.2 hdone
      · next hdone =>
        cases h
        exact .negative hr hcond.2 hdone
    · cases h

end InferenceQueue.PoolLifecycle

import Mathlib.Data.List.Basic

namespace InferenceQueue.Lifecycle

/-- An error of a module, of the HTTP server or of Redis; a text; a text in front of a wrapped
error; or what `errors.Join` makes of several. -/
inductive RunError (ε : Type*)
  | of (err : ε)
  | text (msg : String)
  | wrap (msg : String) (err : RunError ε)
  | join (errs : List (RunError ε))

/-- `e` is found in an error by `Unwrap`. -/
inductive RunError.Contains {ε : Type*} (e : RunError ε) : RunError ε → Prop
  | self : Contains e e
  | wrap {msg err} (h : Contains e err) : Contains e (.wrap msg err)
  | join {errs err} (hmem : err ∈ errs) (h : Contains e err) : Contains e (.join errs)

/-- `errors.Join`: nothing when there is nothing to join. -/
def joinErrors {ε : Type*} : List (RunError ε) → Option (RunError ε)
  | [] => none
  | err :: errs => some (.join (err :: errs))

/-- A registered module with the result of each call it may get, `none` where it does not have the
interface. -/
structure Module (ε : Type*) where
  name : String
  registerRootRoutes : Option (Except ε Unit)
  registerRoutes : Option (Except ε Unit)
  start : Option (Except ε Unit)
  stop : Option (Except ε Unit)

inductive Call (ε : Type*)
  | registerRootRoutes (m : Module ε)
  | registerRoutes (m : Module ε)
  | start (m : Module ε)
  | stop (m : Module ε)
  | serve
  | shutdownHTTP
  | closePool
  | shutdownRedis

/-- The error that is returned, if any, and the calls that were made. -/
structure Outcome (ε : Type*) where
  err : Option (RunError ε)
  calls : List (Call ε)

variable {ε : Type*}

def Module.startable (m : Module ε) : Bool := m.start.isSome

def Module.stoppable (m : Module ε) : Bool := m.stop.isSome

def Module.Fails (m : Module ε) : Prop := ∃ err, m.start = some (.error err)

instance (m : Module ε) : Decidable m.Fails :=
  match h : m.start with
  | some (.error err) => isTrue ⟨err, h⟩
  | some (.ok _) => isFalse (by simp [Module.Fails, h])
  | none => isFalse (by simp [Module.Fails, h])

/-- What is noted of a `Stop` that fails. -/
def Module.stopError (what : String) (m : Module ε) : Option (RunError ε) :=
  match m.stop with
  | some (.error err) => some (.wrap (what ++ m.name ++ ": ") (.of err))
  | _ => none

/-- The loops that stop modules one after the other, whatever each `Stop` returns. -/
def stopEach (what : String) : List (Module ε) → List (RunError ε) × List (Call ε)
  | [] => ([], [])
  | m :: rest =>
    let (errs, calls) := stopEach what rest
    match m.stop with
    | none => (errs, calls)
    | some (.ok ()) => (errs, .stop m :: calls)
    | some (.error err) => (.wrap (what ++ m.name ++ ": ") (.of err) :: errs, .stop m :: calls)

structure Registry (ε : Type*) where
  modules : List (Module ε)

namespace Registry

def register (r : Registry ε) (ms : List (Module ε)) : Registry ε := ⟨r.modules ++ ms⟩

/-- The loop of `Start`; `started` are the stoppable modules it has started. -/
def startFrom : List (Module ε) → List (Module ε) → Outcome ε
  | _, [] => ⟨none, []⟩
  | started, m :: rest =>
    match m.start with
    | none => startFrom started rest
    | some (.ok ()) =>
      let r := startFrom (if m.stoppable then started ++ [m] else started) rest
      { r with calls := .start m :: r.calls }
    | some (.error err) =>
      let (rollbackErrs, calls) := stopEach "rollback " started.reverse
      ⟨joinErrors (.wrap ("start " ++ m.name ++ ": ") (.of err) :: rollbackErrs),
        .start m :: calls⟩

def start (r : Registry ε) : Outcome ε := startFrom [] r.modules

def shutdown (r : Registry ε) : Outcome ε :=
  let (errs, calls) := stopEach "error shutting down " r.modules.reverse
  ⟨joinErrors errs, calls⟩

end Registry

theorem joinErrors_eq_none {errs : List (RunError ε)} : joinErrors errs = none ↔ errs = [] := by
  cases errs <;> simp [joinErrors]

theorem eq_join_of_joinErrors {errs : List (RunError ε)} {e : RunError ε}
    (h : joinErrors errs = some e) : e = .join errs := by
  cases errs with
  | nil => cases h
  | cons err errs => exact (Option.some.inj h).symm

theorem stopEach_eq (what : String) (ms : List (Module ε)) :
    stopEach what ms =
      (ms.filterMap (Module.stopError what), (ms.filter Module.stoppable).map .stop) := by
  induction ms with
  | nil => rfl
  | cons m ms ih =>
    rw [stopEach, ih]
    cases hstop : m.stop with
    | none => simp [hstop, Module.stopError, Module.stoppable]
    | some r => cases r <;> simp [hstop, Module.stopError, Module.stoppable]

/-- The modules that a failed start stops, in that order, when `before` came before it. -/
def rolledBack (before : List (Module ε)) : List (Module ε) :=
  (before.filter fun m => m.startable && m.stoppable).reverse

namespace Registry

variable {before after started : List (Module ε)} {m : Module ε} {err : ε}

/-- Modules that do not fail are started in order and pushed on the stack if they can be stopped. -/
theorem startFrom_append (started after : List (Module ε)) (hbefore : ∀ b ∈ before, ¬b.Fails) :
    startFrom started (before ++ after) =
      { startFrom (started ++ (rolledBack before).reverse) after with
        calls := (before.filter Module.startable).map .start ++
          (startFrom (started ++ (rolledBack before).reverse) after).calls } := by
  induction before generalizing started with
  | nil => simp [rolledBack]
  | cons b before ih =>
    have hrest := fun started => ih started
      fun b' hb' => hbefore b' (List.mem_cons_of_mem b hb')
    rw [List.cons_append, startFrom]
    cases hstart : b.start with
    | none => simp [hstart, hrest, rolledBack, Module.startable]
    | some r =>
      cases r with
      | error err => exact absurd ⟨err, hstart⟩ (hbefore b List.mem_cons_self)
      | ok =>
        cases hstop : b.stoppable <;>
          simp [hstart, hstop, hrest, rolledBack, Module.startable]

theorem startFrom_failing (hm : m.start = some (.error err))
    (hstarted : started.filter Module.stoppable = started) :
    startFrom started (m :: after) =
      ⟨some (.join (.wrap ("start " ++ m.name ++ ": ") (.of err) ::
          started.reverse.filterMap (Module.stopError "rollback "))),
        .start m :: started.reverse.map .stop⟩ := by
  rw [startFrom, hm]
  simp only [stopEach_eq, List.filter_reverse, hstarted, joinErrors]

theorem filter_stoppable_rolledBack (before : List (Module ε)) :
    (rolledBack before).reverse.filter Module.stoppable = (rolledBack before).reverse := by
  rw [rolledBack, List.reverse_reverse, List.filter_filter]
  congr 1
  funext m
  cases m.startable <;> simp

/-- `Start` calls `Start` up to and including the first failure.  If there is one, it then stops the
stoppable modules that had been started, the last one first and each once, and returns the start
error joined with every error of a `Stop`. -/
theorem start_rolls_back (r : Registry ε) :
    ((∀ m ∈ r.modules, ¬m.Fails) →
        r.start = ⟨none, (r.modules.filter Module.startable).map .start⟩) ∧
      ∀ before m after err, r.modules = before ++ m :: after → (∀ b ∈ before, ¬b.Fails) →
        m.start = some (.error err) →
        r.start = ⟨some (.join (.wrap ("start " ++ m.name ++ ": ") (.of err) ::
            (rolledBack before).filterMap (Module.stopError "rollback "))),
          (before.filter Module.startable).map .start ++
            .start m :: (rolledBack before).map .stop⟩ := by
  constructor
  · intro hnone
    have hall := startFrom_append [] [] hnone
    rw [List.append_nil] at hall
    rw [start, hall]
    simp [startFrom]
  · intro before m after err hmodules hbefore hm
    rw [start, hmodules, startFrom_append [] _ hbefore, List.nil_append,
      startFrom_failing hm (filter_stoppable_rolledBack before), List.reverse_reverse]

end Registry

def scheduler : Module String := ⟨"Scheduler", none, none, some (.ok ()), some (.ok ())⟩

def worker : Module String :=
  ⟨"Worker", none, none, some (.ok ()), some (.error "shutdown timed out")⟩

def admission : Module String := ⟨"Admission", none, none, none, none⟩

def recovery : Module String := ⟨"Recovery", none, none, some (.error "no interval"), some (.ok ())⟩

theorem start_rolls_back_recovery :
    Registry.start ⟨[scheduler, admission, worker, recovery]⟩ =
      ⟨some (.join [.wrap "start Recovery: " (.of "no interval"),
          .wrap "rollback Worker: " (.of "shutdown timed out")]),
        [.start scheduler, .start worker, .start recovery, .stop worker, .stop scheduler]⟩ ∧
    Registry.start ⟨[scheduler, admission, worker]⟩ =
      ⟨none, [.start scheduler, .start worker]⟩ := by
  constructor
  · exact (Registry.start_rolls_back _).2 [scheduler, admission, worker] recovery [] "no interval"
      rfl (by decide) rfl
  · exact (Registry.start_rolls_back _).1 (by decide)

end InferenceQueue.Lifecycle

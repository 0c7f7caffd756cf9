import InferenceQueue.RegistryModel

namespace InferenceQueue.Lifecycle

variable {ε : Type*}

/-- The loops that register routes end with the first error. -/
def registerEach (what : String) (call : Module ε → Call ε)
    (result : Module ε → Option (Except ε Unit)) : List (Module ε) → Outcome ε
  | [] => ⟨none, []⟩
  | m :: rest =>
    match result m with
    | none => registerEach what call result rest
    | some (.ok ()) =>
      let r := registerEach what call result rest
      { r with calls := call m :: r.calls }
    | some (.error err) => ⟨some (.wrap (what ++ m.name ++ ": ") (.of err)), [call m]⟩

def Registry.registerRootRoutes (r : Registry ε) : Outcome ε :=
  registerEach "register root routes " .registerRootRoutes Module.registerRootRoutes r.modules

def Registry.registerRoutes (r : Registry ε) : Outcome ε :=
  registerEach "register routes " .registerRoutes Module.registerRoutes r.modules

/-- The next part of `Run`, unless it has returned. -/
def Outcome.andThen (o next : Outcome ε) : Outcome ε :=
  match o.err with
  | some err => ⟨some err, o.calls⟩
  | none => ⟨next.err, o.calls ++ next.calls⟩

inductive Stopped (ε : Type*)
  | signal
  | serverFailed (err : ε)
  | contextDone

/-- What `Run` meets from `serve` on. -/
structure Serving (ε : Type*) where
  stopped : Stopped ε
  shutdownHTTP : Except ε Unit
  shutdownRedis : Except ε Unit

/-- The PostgreSQL pool and the Redis client may be `nil`. -/
structure Application (ε : Type*) where
  registry : Registry ε
  pgPool : Bool
  redisClient : Bool

namespace Application

variable (app : Application ε) (o : Serving ε)

def runErrors : List (RunError ε) :=
  match o.stopped with
  | .serverFailed err => [.of err]
  | .signal | .contextDone => []

/-- The `else` belongs to `err != nil`: the error that is wrapped is `nil`, and the one of a
shutdown that fails is at most logged. -/
def httpErrors : List (RunError ε) :=
  match o.shutdownHTTP with
  | .error _ => []
  | .ok () => [.text "http server shutdown: %!w(<nil>)"]

def moduleErrors : List (RunError ε) :=
  (app.registry.shutdown.err.map (.wrap "module shutdown: ")).toList

def redisErrors : List (RunError ε) :=
  match app.redisClient, o.shutdownRedis with
  | true, .error err => [.wrap "redis shutdown: " (.of err)]
  | _, _ => []

/-- `Run` from `serve` on. -/
def serve : Outcome ε :=
  ⟨joinErrors (runErrors o ++ httpErrors o ++ app.moduleErrors ++ app.redisErrors o),
    [.serve, .shutdownHTTP] ++ app.registry.shutdown.calls ++
      (if app.pgPool then [.closePool] else []) ++
      (if app.redisClient then [.shutdownRedis] else [])⟩

def run : Outcome ε :=
  app.registry.registerRootRoutes.andThen
    (app.registry.registerRoutes.andThen (app.registry.start.andThen (app.serve o)))

/-- Routes are registered and modules started without an error. -/
structure Serves : Prop where
  rootRoutes : app.registry.registerRootRoutes.err = none
  routes : app.registry.registerRoutes.err = none
  start : app.registry.start.err = none

/-- What has failed, under the words `Run` and `Shutdown` have for it: two failures may be the same
error, a deadline for example. -/
inductive Failure : RunError ε → Prop
  | http {err} (h : o.shutdownHTTP = .error err) :
      Failure (.wrap "http server shutdown: " (.of err))
  | module {m err} (hm : m ∈ app.registry.modules) (h : m.stop = some (.error err)) :
      Failure (.wrap ("error shutting down " ++ m.name ++ ": ") (.of err))
  | redis {err} (hclient : app.redisClient = true) (h : o.shutdownRedis = .error err) :
      Failure (.wrap "redis shutdown: " (.of err))

end Application

def Call.stopped : Call ε → Option (Module ε)
  | .stop m => some m
  | _ => none

/-- Every module that can be stopped is, the last one first; `Run` returns no error exactly when
nothing failed, and otherwise one that contains each failure. -/
structure ReportsShutdown (app : Application ε) (o : Serving ε) : Prop where
  stops : (app.run o).calls.filterMap Call.stopped =
    (app.registry.modules.filter Module.stoppable).reverse
  clean : (app.run o).err = none ↔ ∀ f, ¬app.Failure o f
  contains : ∀ e, (app.run o).err = some e → ∀ f, app.Failure o f → f.Contains e

theorem contains_wrap_iff {msg : String} {f e : RunError ε} :
    f.Contains (.wrap msg e) ↔ f = .wrap msg e ∨ f.Contains e := by
  constructor
  · intro h
    cases h with
    | self => exact Or.inl rfl
    | wrap h => exact Or.inr h
  · rintro (rfl | h)
    · exact .self
    · exact .wrap h

theorem contains_join_iff {errs : List (RunError ε)} {f : RunError ε} :
    f.Contains (.join errs) ↔ f = .join errs ∨ ∃ err ∈ errs, f.Contains err := by
  constructor
  · intro h
    cases h with
    | self => exact Or.inl rfl
    | join hmem h => exact Or.inr ⟨_, hmem, h⟩
  · rintro (rfl | ⟨err, hmem, h⟩)
    · exact .self
    · exact .join hmem h

theorem contains_of_iff {err : ε} {f : RunError ε} : f.Contains (.of err) ↔ f = .of err := by
  constructor
  · intro h
    cases h
    rfl
  · rintro rfl
    exact .self

theorem stopped_registerEach {what : String} {call : Module ε → Call ε}
    (hcall : ∀ m, (call m).stopped = none) (result : Module ε → Option (Except ε Unit))
    (ms : List (Module ε)) :
    (registerEach what call result ms).calls.filterMap Call.stopped = [] := by
  fun_induction registerEach what call result ms with
  | case1 => rfl
  | case2 m rest hresult ih => exact ih
  | case3 m rest hresult r ih => simp [hcall, r, ih]
  | case4 m rest err hresult => simp [hcall]

theorem err_of_andThen {o next : Outcome ε} (h : o.err = none) :
    (o.andThen next).err = next.err := by
  simp [Outcome.andThen, h]

theorem stopped_andThen {o next : Outcome ε} (h : o.err = none)
    (hcalls : o.calls.filterMap Call.stopped = []) :
    (o.andThen next).calls.filterMap Call.stopped = next.calls.filterMap Call.stopped := by
  simp [Outcome.andThen, h, hcalls]

theorem filterMap_stopped_stop (ms : List (Module ε)) :
    (ms.map Call.stop).filterMap Call.stopped = ms := by
  simp [List.filterMap_map, Function.comp_def, Call.stopped]

theorem stopped_startFrom {started ms : List (Module ε)}
    (h : (Registry.startFrom started ms).err = none) :
    (Registry.startFrom started ms).calls.filterMap Call.stopped = [] := by
  fun_induction Registry.startFrom started ms with
  | case1 => rfl
  | case2 started m rest hstart ih => exact ih h
  | case3 started m rest hstart r ih =>
    rw [List.filterMap_cons_none rfl]
    exact ih h
  | case4 started m rest err hstart rollbackErrs calls hrollback => simp [joinErrors] at h

namespace Application

variable {app : Application ε} {o : Serving ε}

theorem Serves.err_run (h : app.Serves) : (app.run o).err = (app.serve o).err := by
  rw [run, err_of_andThen h.rootRoutes, err_of_andThen h.routes, err_of_andThen h.start]

theorem Serves.stops (h : app.Serves) : (app.run o).calls.filterMap Call.stopped =
    (app.registry.modules.filter Module.stoppable).reverse := by
  rw [run, stopped_andThen h.rootRoutes (stopped_registerEach (fun _ => rfl) _ _),
    stopped_andThen h.routes (stopped_registerEach (fun _ => rfl) _ _),
    stopped_andThen h.start (stopped_startFrom h.start)]
  have hpool : (if app.pgPool then [Call.closePool (ε := ε)] else []).filterMap
      Call.stopped = [] := by
    split_ifs <;> rfl
  have hredis : (if app.redisClient then [Call.shutdownRedis (ε := ε)] else []).filterMap
      Call.stopped = [] := by
    split_ifs <;> rfl
  simp only [serve, Registry.shutdown, stopEach_eq, List.filterMap_append, filterMap_stopped_stop,
    hpool, hredis, List.append_nil, List.filter_reverse]
  rfl

theorem mem_stopErrors {f : RunError ε} :
    f ∈ app.registry.modules.reverse.filterMap (Module.stopError "error shutting down ") ↔
      ∃ m ∈ app.registry.modules, ∃ err, m.stop = some (.error err) ∧
        f = .wrap ("error shutting down " ++ m.name ++ ": ") (.of err) := by
  simp only [List.mem_filterMap, List.mem_reverse]
  constructor
  · rintro ⟨m, hm, hf⟩
    unfold Module.stopError at hf
    split at hf
    · next err hstop => exact ⟨m, hm, err, hstop, (Option.some.inj hf).symm⟩
    · cases hf
  · rintro ⟨m, hm, err, hstop, rfl⟩
    exact ⟨m, hm, by simp [Module.stopError, hstop]⟩

theorem mem_moduleErrors {e : RunError ε} (h : e ∈ app.moduleErrors) :
    e = .wrap "module shutdown: " (.join
      (app.registry.modules.reverse.filterMap (Module.stopError "error shutting down "))) := by
  simp only [moduleErrors, Registry.shutdown, stopEach_eq, Option.mem_toList,
    Option.map_eq_some_iff] at h
  obtain ⟨err, herr, rfl⟩ := h
  rw [eq_join_of_joinErrors herr]

theorem mem_redisErrors {e : RunError ε} : e ∈ app.redisErrors o ↔
    app.redisClient = true ∧ ∃ err, o.shutdownRedis = .error err ∧
      e = .wrap "redis shutdown: " (.of err) := by
  unfold redisErrors
  cases app.redisClient <;> cases o.shutdownRedis <;> simp

theorem contains_of_stop_error {m : Module ε} {err : ε} (hm : m ∈ app.registry.modules)
    (h : m.stop = some (.error err)) : ∃ e ∈ app.moduleErrors,
      (RunError.wrap ("error shutting down " ++ m.name ++ ": ") (.of err)).Contains e := by
  have hmem := mem_stopErrors.mpr ⟨m, hm, err, h, rfl⟩
  obtain ⟨e, he⟩ := Option.ne_none_iff_exists'.mp
    (mt joinErrors_eq_none.mp (List.ne_nil_of_mem hmem))
  refine ⟨.wrap "module shutdown: " e, ?_, .wrap ?_⟩
  · simp only [moduleErrors, Registry.shutdown, stopEach_eq, he, Option.map_some,
      Option.toList_some, List.mem_singleton]
  · rw [eq_join_of_joinErrors he]
    exact .join hmem .self

theorem not_contains_http {err : ε} {e : RunError ε}
    (he : e ∈ app.moduleErrors ++ app.redisErrors o) :
    ¬(RunError.wrap "http server shutdown: " (.of err)).Contains e := by
  rcases List.mem_append.mp he with he | he
  · rw [mem_moduleErrors he, contains_wrap_iff, contains_join_iff]
    rintro (heq | heq | ⟨f, hf, hcontains⟩)
    · simp at heq
    · cases heq
    · obtain ⟨m, -, err', -, rfl⟩ := mem_stopErrors.mp hf
      rw [contains_wrap_iff, contains_of_iff] at hcontains
      rcases hcontains with heq | heq
      · -- the two texts differ in their first letter
        have htext := congrArg String.toList (RunError.wrap.inj heq).1
        simp at htext
      · cases heq
  · obtain ⟨-, err', -, rfl⟩ := mem_redisErrors.mp he
    rw [contains_wrap_iff, contains_of_iff]
    rintro (heq | heq)
    · simp at heq
    · cases heq

/-- A module cannot be stopped, or Redis cannot be shut down. -/
def LaterFails (app : Application ε) (o : Serving ε) : Prop :=
  (∃ m ∈ app.registry.modules, ∃ err, m.stop = some (.error err)) ∨
    (app.redisClient = true ∧ ∃ err, o.shutdownRedis = .error err)

theorem LaterFails.failure (h : app.LaterFails o) : ∃ f, app.Failure o f := by
  rcases h with ⟨m, hm, err, herr⟩ | ⟨hclient, err, herr⟩
  · exact ⟨_, .module hm herr⟩
  · exact ⟨_, .redis hclient herr⟩

theorem Failure.later {f : RunError ε} (h : app.Failure o f) (hhttp : o.shutdownHTTP = .ok ()) :
    app.LaterFails o ∧ ∃ e ∈ app.moduleErrors ++ app.redisErrors o, f.Contains e := by
  cases h with
  | http herr => cases hhttp.symm.trans herr
  | module hm herr =>
    obtain ⟨e, he, hcontains⟩ := contains_of_stop_error hm herr
    exact ⟨Or.inl ⟨_, hm, _, herr⟩, e, List.mem_append_left _ he, hcontains⟩
  | redis hclient herr =>
    exact ⟨Or.inr ⟨hclient, _, herr⟩, _,
      List.mem_append_right _ (mem_redisErrors.mpr ⟨hclient, _, herr, rfl⟩), .self⟩

theorem Serves.err_of_stopped (h : app.Serves) (hstop : ∀ err, o.stopped ≠ .serverFailed err) :
    (app.run o).err = joinErrors (httpErrors o ++ (app.moduleErrors ++ app.redisErrors o)) := by
  have hrun : runErrors o = [] := by
    unfold runErrors
    cases hstopped : o.stopped with
    | serverFailed err => exact absurd hstopped (hstop err)
    | signal => rfl
    | contextDone => rfl
  rw [h.err_run, serve, hrun, List.nil_append, List.append_assoc]

end Application

/-- `Run` reports its shutdown truthfully exactly when the HTTP server is shut down without an
error and something else is not. -/
theorem reports_shutdown_iff (app : Application ε) (o : Serving ε) (h : app.Serves)
    (hstop : ∀ err, o.stopped ≠ .serverFailed err) :
    ReportsShutdown app o ↔ o.shutdownHTTP = .ok () ∧ app.LaterFails o := by
  have herr := h.err_of_stopped hstop
  constructor
  · intro hreports
    cases hhttp : o.shutdownHTTP with
    | ok =>
      refine ⟨rfl, ?_⟩
      by_contra hlater
      -- nothing has failed, but `Run` has appended the error of the HTTP server it does not have
      have hnone := hreports.clean.mpr fun f hf => hlater (hf.later hhttp).1
      rw [herr, Application.httpErrors, hhttp] at hnone
      cases hnone
    | error err =>
      -- the error of the HTTP server is only logged
      have hfailure : app.Failure o _ := .http hhttp
      cases hrun : (app.run o).err with
      | none => exact absurd hfailure (hreports.clean.mp hrun _)
      | some e =>
        have hcontains := hreports.contains e hrun _ hfailure
        rw [hrun, Application.httpErrors, hhttp, List.nil_append] at herr
        rw [eq_join_of_joinErrors herr.symm, contains_join_iff] at hcontains
        rcases hcontains with heq | ⟨e', he', hcontains⟩
        · cases heq
        · exact absurd hcontains (Application.not_contains_http he')
  · rintro ⟨hhttp, hlater⟩
    have hsome : (app.run o).err = some (.join (.text "http server shutdown: %!w(<nil>)" ::
        (app.moduleErrors ++ app.redisErrors o))) := by
      rw [herr, Application.httpErrors, hhttp]
      rfl
    refine ⟨h.stops, ?_, ?_⟩
    · obtain ⟨f, hf⟩ := hlater.failure
      refine iff_of_false (by simp [hsome]) fun hnone => hnone f hf
    · intro e he f hf
      obtain rfl := Option.some.inj (hsome.symm.trans he)
      obtain ⟨-, e', he', hcontains⟩ := hf.later hhttp
      exact .join (List.mem_cons_of_mem _ he') hcontains

def smallApplication : Application String := ⟨⟨[scheduler]⟩, true, true⟩

def cleanStop : Serving String := ⟨.signal, .ok (), .ok ()⟩

theorem smallApplication_serves : smallApplication.Serves := ⟨rfl, rfl, rfl⟩

/-- The HTTP server, the module and Redis are shut down without an error, and `Run` returns one. -/
theorem clean_shutdown_reported_failed :
    smallApplication.Serves ∧ (∀ f, ¬smallApplication.Failure cleanStop f) ∧
      (smallApplication.run cleanStop).err =
        some (.join [.text "http server shutdown: %!w(<nil>)"]) := by
  refine ⟨smallApplication_serves, ?_, rfl⟩
  intro f hf
  cases hf with
  | http h => cases h
  | module hm h =>
    obtain rfl := List.mem_singleton.mp hm
    cases h
  | redis hclient h => cases h

def dirtyStop : Serving String := ⟨.signal, .ok (), .error "connection reset"⟩

theorem reports_shutdown_dirty :
    smallApplication.Serves ∧ ReportsShutdown smallApplication dirtyStop := by
  refine ⟨smallApplication_serves, (reports_shutdown_iff _ _ smallApplication_serves ?_).mpr ?_⟩
  · intro err h
    cases h
  · exact ⟨rfl, Or.inr ⟨rfl, "connection reset", rfl⟩⟩

end InferenceQueue.Lifecycle

import InferenceQueue.PlatformSteps

namespace InferenceQueue.Platform

open Service Coalescing Redis

/-- Some `Submit` has returned a job for the request, and the job has not ended. -/
def InFlight (p : State) (request : InferenceRequest) : Prop :=
  ∃ i task j ok, p.fronts i = .returned task (some j) ok ∧ task.request = request ∧
    Open p.system j

/-- A request is turned away exactly when an equal one is in flight. -/
def FollowsFlight (_ : List Event) (p : State) (e : Event) : Prop :=
  ∀ i action task, e = .front i (.decided action) → p.fronts i = .coalesce task →
    (action = .rejected ↔ InFlight p task.request)

inductive Note
  | passed (request : InferenceRequest) (time : ℕ)
  | freed (request : InferenceRequest)
deriving DecidableEq

namespace Note

def request : Note → InferenceRequest
  | passed r _ | freed r => r

/-- The key was set for one of these requests, and its time is not over. -/
def Opens (same : InferenceRequest → Prop) (ttl now : ℕ) : Note → Prop
  | passed r time => same r ∧ now ≤ time + 1000 * ttl
  | freed _ => False

def Frees (same : InferenceRequest → Prop) : Note → Prop
  | passed _ _ => False
  | freed r => same r

variable {same same' : InferenceRequest → Prop} {n : Note}

theorem opens_congr {ttl now : ℕ} (h : same n.request ↔ same' n.request) :
    n.Opens same ttl now ↔ n.Opens same' ttl now := by
  cases n with
  | passed r time => exact and_congr_left fun _ => h
  | freed r => exact Iff.rfl

theorem frees_congr (h : same n.request ↔ same' n.request) : n.Frees same ↔ n.Frees same' := by
  cases n with
  | passed r time => exact Iff.rfl
  | freed r => exact h

end Note

/-- `TryCoalesce` has set the key, or a `Submit` has deleted it. -/
def coalescingNote (cfg : Config) (p : State) : Event → Option Note
  | .front i answer =>
    if answer = .failed false then none
    else
      match p.fronts i with
      | .coalesce task =>
        match (tryCoalesce p.clock cfg.inference.coalescingTTL (task.coalescingKey cfg)
          p.coalescing).1 with
        | .ok .proceed => some (.passed task.request p.clock)
        | _ => none
      | .release task _ => some (.freed task.request)
      | _ => none
  | _ => none

abbrev Journal := Logged State Note

abbrev JournalStep (cfg : Config) : Journal → Event → Journal → Prop :=
  Fires (loggedStep (step cfg) (coalescingNote cfg))

def Journal.initial : Journal := ⟨State.initial, []⟩

/-- The two requests of a user have the same request key. -/
def Equivalent (r r' : InferenceRequest) : Prop :=
  r'.userID = r.userID ∧ r'.generateKey = r.generateKey

/-- Within `CoalescingTTL` a request like this one has set the key, and it was not deleted since. -/
def Window (cfg : Config) (same : InferenceRequest → Prop) (now : ℕ) (log : List Note) : Prop :=
  Since (Note.Opens same cfg.inference.coalescingTTL now) (Note.Frees same) log

def FollowsWindow (cfg : Config) (_ : List Event) (a : Journal) (e : Event) : Prop :=
  ∀ i action task, e = .front i (.decided action) → a.state.fronts i = .coalesce task →
    (action = .rejected ↔ Window cfg (Equivalent task.request) a.state.clock a.log)

def Event.requested : Event → Option InferenceRequest
  | .submit _ userID _ input => (validateInferenceInput userID input).toOption
  | _ => none

/-- Among the requests of the run, different request keys have different hashes. -/
def DistinctHashes (cfg : Config) (tr : List Event) : Prop :=
  ∀ r ∈ tr.filterMap Event.requested, ∀ r' ∈ tr.filterMap Event.requested,
    cfg.hashRequest r'.generateKey = cfg.hashRequest r.generateKey →
      r'.generateKey = r.generateKey

instance (cfg : Config) (tr : List Event) : Decidable (DistinctHashes cfg tr) := by
  unfold DistinctHashes
  infer_instance

inductive KeyChange (cfg : Config) (p : State) : Option Note → Coalescing.Store → Prop
  | same : KeyChange cfg p none p.coalescing
  | passed {i task} (hfront : p.fronts i = .coalesce task)
      (hfree : p.coalescing.get p.clock (task.coalescingKey cfg) = none) :
      KeyChange cfg p (some (.passed task.request p.clock))
        (p.coalescing.put (task.coalescingKey cfg)
          (some ⟨p.clock / 1000, some (p.clock + 1000 * cfg.inference.coalescingTTL)⟩))
  | freed {i task ending} (hfront : p.fronts i = .release task ending) :
      KeyChange cfg p (some (.freed task.request))
        (p.coalescing.put (task.coalescingKey cfg) none)

def Front.task : Front → Option Task
  | start | invalid => none
  | claim task | coalesce task | admitting task | running task | release task _ | forget task _ _
  | returned task _ _ => some task

variable {cfg : Config} {p q : State} {e : Event} {i : ℕ} {a b : Journal} {task : Task}
  {past tr : List Event}

theorem Step.keyChange (he : Step cfg p e q) :
    KeyChange cfg p (coalescingNote cfg p e) q.coalescing := by
  cases e with
  | submit | system =>
    rw [he.coalescing_none rfl]
    exact .same
  | front i answer =>
    by_cases hfail : answer = .failed false
    · rw [he.coalescing_none (if_pos hfail), coalescingNote, if_pos hfail]
      exact .same
    · rw [coalescingNote, if_neg hfail]
      cases hfront : p.fronts i with
      | coalesce task =>
        have hop : coalescingOp cfg p (.front i answer) =
            some (.tryCoalesce (task.coalescingKey cfg)) := by
          simp [coalescingOp, Front.coalescingOp, hfail, hfront]
        dsimp only
        rw [he.coalescing_some hop, perform]
        by_cases httl : cfg.inference.coalescingTTL = 0
        · obtain ⟨err, herr⟩ := tryCoalesce_zero p.clock (task.coalescingKey cfg) p.coalescing
          rw [httl, herr]
          exact .same
        · cases hget : p.coalescing.get p.clock (task.coalescingKey cfg) with
          | none =>
            rw [tryCoalesce_of_none httl hget]
            exact .passed hfront hget
          | some set =>
            rw [tryCoalesce_of_some httl hget]
            exact .same
      | release task ending =>
        have hop : coalescingOp cfg p (.front i answer) =
            some (.delete (task.coalescingKey cfg)) := by
          simp [coalescingOp, Front.coalescingOp, hfail, hfront]
        rw [he.coalescing_some hop]
        exact .freed hfront
      | _ =>
        rw [he.coalescing_none (by simp [coalescingOp, Front.coalescingOp, hfront])]
        exact .same

theorem Front.task_resume (front : Front) (answer : Answer) :
    (front.resume answer).task = front.task := by
  unfold Front.resume
  split
  all_goals try split
  all_goals rfl

theorem Front.task_follow (before after : Submit) (resp : Response) :
    (Front.follow task before after resp).task = some task := by
  unfold Front.follow
  split
  all_goals try split
  all_goals rfl

theorem Front.task_begin {userID : UserID} {header : String} {input : InferenceInput}
    (h : (Front.begin userID header input).task = some task) :
    (Event.submit i userID header input).requested = some task.request := by
  unfold Front.begin at h
  rw [Event.requested]
  cases hvalid : validateInferenceInput userID input with
  | error err =>
    rw [hvalid] at h
    cases h
  | ok request =>
    rw [hvalid] at h
    cases h
    rfl

theorem Step.keeps_task (he : Step cfg p e q) (h : (q.fronts i).task = some task) :
    (p.fronts i).task = some task ∨ e.requested = some task.request := by
  have hstep := he.front i
  generalize q.fronts i = next at hstep h
  cases hstep with
  | same => exact Or.inl h
  | began => exact Or.inr (Front.task_begin h)
  | answered =>
    rw [Front.task_resume] at h
    exact Or.inl h
  | followed hrunning =>
    rw [Front.task_follow] at h
    cases h
    left
    rw [hrunning]
    rfl

def keyOf (cfg : Config) (r : InferenceRequest) : String :=
  buildCoalescingKey r.userID (cfg.hashRequest r.generateKey)

/-- Every coalescing key is live exactly within its window. -/
structure Watched (cfg : Config) (past : List Event) (a : Journal) : Prop where
  tasks : ∀ i task, (a.state.fronts i).task = some task →
    task.request ∈ past.filterMap Event.requested
  notes : ∀ n ∈ a.log, n.request ∈ past.filterMap Event.requested
  window : ∀ key now, a.state.clock ≤ now → (a.state.coalescing.get now key ≠ none ↔
    Window cfg (fun r => keyOf cfg r = key) now
      a.log)

theorem Watched.initial : Watched cfg [] Journal.initial := by
  refine ⟨?_, ?_, ?_⟩
  · intro i task h
    cases h
  · intro n h
    cases h
  · intro key now _
    simp [Journal.initial, State.initial, Keyspace.get_empty, Window, not_since_nil]

theorem Watched.window_step (h : Watched cfg past a) (he : JournalStep cfg a e b) (key : String)
    (now : ℕ) (hnow : b.state.clock ≤ now) :
    b.state.coalescing.get now key ≠ none ↔
      Window cfg (fun r => keyOf cfg r = key) now
        b.log := by
  obtain ⟨hstep, hlog⟩ := loggedStep_inv he
  have hlater : a.state.clock ≤ now := (Step.clock_le hstep).trans hnow
  have hold := h.window key now hlater
  have hchange := Step.keyChange hstep
  rw [hlog]
  generalize coalescingNote cfg a.state e = note at hchange
  generalize b.state.coalescing = next at hchange
  cases hchange with
  | same => simpa using hold
  | @passed i task hfront hfree =>
    rw [Keyspace.get_put, Option.toList_some, Window, since_snoc]
    by_cases hkey : key = task.coalescingKey cfg
    · -- the key had run out, so nothing set before still counts
      have hgone : a.state.coalescing.get now key = none := by
        by_contra hne
        obtain ⟨set, hset⟩ := Option.ne_none_iff_exists'.mp hne
        have hlive := fetch_earlier hlater hset
        rw [hkey] at hlive
        cases hfree.symm.trans hlive
      have hclosed := mt hold.mpr (not_not.mpr hgone)
      rw [if_pos hkey, fetch_until, or_iff_left fun hwindow => hclosed hwindow.1]
      have hsame : keyOf cfg task.request = key := hkey.symm
      simp [Note.Opens, hsame]
    · have hother : keyOf cfg task.request ≠ key := fun heq => hkey heq.symm
      rw [if_neg hkey, hold]
      simp [Note.Opens, Note.Frees, hother, Window]
  | @freed i task ending hfront =>
    rw [Keyspace.get_put, Option.toList_some, Window, since_snoc]
    by_cases hkey : key = task.coalescingKey cfg
    · have hsame : keyOf cfg task.request = key := hkey.symm
      simp [Note.Opens, Note.Frees, hkey, hsame]
    · have hother : keyOf cfg task.request ≠ key := fun heq => hkey heq.symm
      rw [if_neg hkey, hold]
      simp [Note.Opens, Note.Frees, hother, Window]

theorem Watched.step (h : Watched cfg past a) (he : JournalStep cfg a e b) :
    Watched cfg (past ++ [e]) b := by
  obtain ⟨hstep, hlog⟩ := loggedStep_inv he
  have hkeeps : ∀ r ∈ past.filterMap Event.requested,
      r ∈ (past ++ [e]).filterMap Event.requested := by
    intro r hr
    rw [filterMap_snoc]
    exact List.mem_append_left _ hr
  refine ⟨?_, ?_, h.window_step he⟩
  · intro i task htask
    rcases Step.keeps_task hstep htask with hold | hnew
    · exact hkeeps _ (h.tasks i task hold)
    · rw [filterMap_snoc, hnew]
      exact List.mem_append_right _ (by simp)
  · intro n hn
    apply hkeeps
    have hchange := Step.keyChange hstep
    rw [hlog, List.mem_append, Option.mem_toList] at hn
    rcases hn with hold | hnew
    · exact h.notes n hold
    · rw [hnew] at hchange
      generalize b.state.coalescing = next at hchange
      cases hchange with
      | passed hfront | freed hfront => exact h.tasks _ _ (by rw [hfront]; rfl)

/-- Where hashes are distinct, requests share a coalescing key just when they are equivalent. -/
theorem DistinctHashes.keyOf_eq {r r' : InferenceRequest} (h : DistinctHashes cfg tr)
    (hr : r ∈ tr.filterMap Event.requested) (hr' : r' ∈ tr.filterMap Event.requested) :
    keyOf cfg r' = keyOf cfg r ↔ Equivalent r r' := by
  rw [keyOf, keyOf, buildCoalescingKey_inj]
  constructor
  · rintro ⟨huser, hhash⟩
    exact ⟨huser, h r hr r' hr' hhash⟩
  · rintro ⟨huser, hkey⟩
    exact ⟨huser, by rw [hkey]⟩

/-- A request is turned away exactly within the window of an equivalent one. -/
theorem coalescing_follows_window (h : Run (JournalStep cfg) Journal.initial tr b)
    (hdistinct : DistinctHashes cfg tr) :
    Throughout (JournalStep cfg) Journal.initial tr (FollowsWindow cfg) := by
  rintro past e rest a rfl hpast i action task rfl hfront
  have hwatched : Watched cfg past a := by
    refine hpast.history (fun past a => Watched cfg past a) Watched.initial ?_
    intro past a e b ha he
    exact ha.step he
  obtain ⟨m, hm, -⟩ := Run.cons_iff.mp (h.rest hpast)
  have hanswers := Step.answers (loggedStep_inv hm).1
  rw [hfront] at hanswers
  have hin : ∀ r ∈ past.filterMap Event.requested,
      r ∈ (past ++ .front i (.decided action) :: rest).filterMap Event.requested := by
    intro r hr
    rw [List.filterMap_append]
    exact List.mem_append_left _ hr
  have htask := hin _ (hwatched.tasks i task (by rw [hfront]; rfl))
  have hsame : ∀ n ∈ a.log, keyOf cfg n.request = task.coalescingKey cfg ↔
      Equivalent task.request n.request :=
    fun n hn => hdistinct.keyOf_eq htask (hin _ (hwatched.notes n hn))
  -- so far for the coalescing key; it stands for the equivalent requests of the run
  rw [tryCoalesce_rejects hanswers, hwatched.window _ _ le_rfl]
  apply since_congr
  · intro n hn
    exact Note.opens_congr (hsame n hn)
  · intro n hn
    exact Note.frees_congr (hsame n hn)

/-- A `Submit` that is not admitted frees the key for the next one, which keeps it from a third. -/
def freedThenTaken : List Event :=
  [.submit 0 alice "k" hello,
   .front 0 (.claimed ⟨.new, none⟩),
   .front 0 (.decided .proceed),
   .front 0 (.admitted false),
   .front 0 .deleted,
   .submit 1 alice "l" hello,
   .submit 2 alice "m" hello,
   .front 1 (.claimed ⟨.new, none⟩),
   .front 2 (.claimed ⟨.new, none⟩),
   .front 1 (.decided .proceed),
   .front 2 (.decided .rejected)]

theorem coalescing_follows_window_freed :
    ∃ b, Run (JournalStep smallPlatform) Journal.initial freedThenTaken b ∧
      DistinctHashes smallPlatform freedThenTaken ∧
      Throughout (JournalStep smallPlatform) Journal.initial freedThenTaken
        (FollowsWindow smallPlatform) := by
  obtain ⟨b, hrun, -⟩ := Run.exists_of_foldlM
    (loggedStep (step smallPlatform) (coalescingNote smallPlatform)) Journal.initial freedThenTaken
    (fun _ => True) (by decide +kernel)
  have hdistinct : DistinctHashes smallPlatform freedThenTaken := by decide +kernel
  exact ⟨b, hrun, hdistinct, coalescing_follows_window hrun hdistinct⟩

/-- The job has completed when the second `Submit` comes. -/
def afterCompletion : List Event :=
  accepted 0 alice "k" hello job1 ++
    calls (claiming 0 job1 alice :: generated 0 job1 alice ++
     [.call (.worker 0) (.markSelect .completed job1) (.result (.ok ())),
      .call (.worker 0) (.markUpdate .completed job1 1) (.result (.ok ())),
      .call (.worker 0) (.external (.transitionStatus job1 .completed)) (.flag true)]) ++
    [.submit 1 alice "l" hello, .front 1 (.claimed ⟨.new, none⟩)]

/-- The job still waits when the key has run out. -/
def afterExpiry : List Event :=
  accepted 0 alice "k" hello job1 ++
    [.system (.tick 3600001), .submit 1 alice "l" hello, .front 1 (.claimed ⟨.new, none⟩)]

def helloTask (header : String) : Task := ⟨⟨alice, "hello", "llama"⟩, header⟩

/-- The key outlives the job, and the job may outlive the key. -/
theorem coalescing_leaves_flight :
    (∃ p q, Run (Step smallPlatform) State.initial afterCompletion p ∧
      Step smallPlatform p (.front 1 (.decided .rejected)) q ∧
      ¬FollowsFlight afterCompletion p (.front 1 (.decided .rejected))) ∧
    ∃ p q, Run (Step smallPlatform) State.initial afterExpiry p ∧
      Step smallPlatform p (.front 1 (.decided .proceed)) q ∧
      ¬FollowsFlight afterExpiry p (.front 1 (.decided .proceed)) := by
  constructor
  · obtain ⟨p, hrun, hfront, hnext, hclosed⟩ := Run.exists_of_foldlM (step smallPlatform)
      State.initial afterCompletion
      (fun p => p.fronts 1 = .coalesce (helloTask "l") ∧
        (step smallPlatform p (.front 1 (.decided .rejected))).isSome ∧
        ∀ j ∈ p.system.stores.jobs.keys, ¬Open p.system j) (by decide +kernel)
    obtain ⟨q, hq⟩ := Option.isSome_iff_exists.mp hnext
    refine ⟨p, q, hrun, hq, fun hflight => ?_⟩
    obtain ⟨i, task, j, ok, -, -, row, hrow, hopen⟩ := (hflight 1 _ _ rfl hfront).mp rfl
    refine hclosed j ?_ ⟨row, hrow, hopen⟩
    rw [Finmap.mem_keys, ← Finmap.lookup_isSome]
    exact Option.isSome_of_mem hrow
  · obtain ⟨p, hrun, hfront, hnext, hreturned, hopen⟩ := Run.exists_of_foldlM (step smallPlatform)
      State.initial afterExpiry
      (fun p => p.fronts 1 = .coalesce (helloTask "l") ∧
        (step smallPlatform p (.front 1 (.decided .proceed))).isSome ∧
        p.fronts 0 = .returned (helloTask "k") (some job1) true ∧ Open p.system job1)
      (by decide +kernel)
    obtain ⟨q, hq⟩ := Option.isSome_iff_exists.mp hnext
    refine ⟨p, q, hrun, hq, fun hflight => ?_⟩
    have hrejected := (hflight 1 _ _ rfl hfront).mpr ⟨0, _, job1, true, hreturned, rfl, hopen⟩
    cases hrejected

end InferenceQueue.Platform

import InferenceQueue.PlatformSteps
import InferenceQueue.StreamEvents

namespace InferenceQueue.Delivery

open Service InferenceQueue.Stream

/-- Where `DoWithRetry` stands around `GenerateStream`. -/
inductive Generation
  /-- before the next attempt -/
  | ready (attempts : ℕ)
  /-- in an attempt that has published `text` so far -/
  | streaming (attempt : ℕ) (text : String)
  /-- about to return an error -/
  | failed (attempts : ℕ)
deriving DecidableEq

/-- A stream keeps all that was ever appended to it. -/
structure State where
  platform : Platform.State
  generations : ℕ → Generation
  streams : JobID → List StreamEvent

def State.initial : State where
  platform := Platform.State.initial
  generations _ := .ready 0
  streams _ := []

def State.worker (s : State) (i : ℕ) : Worker := s.platform.system.workers i

def State.recovery (s : State) (i : ℕ) : Recovery := s.platform.system.recoveries i

inductive Published
  | done
  | failed (applied : Bool)
deriving DecidableEq

def Published.applied : Published → Bool
  | done => true
  | failed applied => applied

inductive Event
  | attempt (i : ℕ)
  | chunk (i : ℕ) (text : String) (published : Published)
  /-- `transient` is for `ErrTransientInference`; `published` is about the retrying event -/
  | attemptFailed (i : ℕ) (transient : Bool) (published : Published)
  /-- the context is cancelled during the delay before the next attempt -/
  | interrupted (i : ℕ)
  | platform (e : Platform.Event)
deriving DecidableEq

def Event.fails : Event → Bool
  | .chunk _ _ (.failed _) | .attemptFailed _ _ _ | .interrupted _ => true
  | .platform (.front _ (.failed _)) | .platform (.system (.call _ _ (.failed _))) => true
  | _ => false

structure Generating where
  jobID : JobID
  maxAttempts : ℤ
  leaseLost : Bool
deriving DecidableEq

def generatingOf : Worker → Option Generating
  | .busy claim (.generate maxAttempts) beat => some ⟨claim.jobID, maxAttempts, beat.leaseLost⟩
  | _ => none

def State.generating (s : State) (i : ℕ) : Option Generating := generatingOf (s.worker i)

def retryMessage (attempt : ℕ) (maxAttempts : ℤ) : String :=
  "\x7b\"attempt\":" ++ toString attempt ++ ",\"max_attempts\":" ++ toString maxAttempts ++
    ",\"message\":\"The inference service is temporarily unavailable. Retrying...\"\x7d"

def failureMessage : Thread → String
  | .recovery _ => "recovery retry limit exceeded"
  | _ => "\x7b\"message\":\"We could not complete your request after several attempts. " ++
      "Please try again later.\"\x7d"

/-- `willRetry`, when the context is alive -/
def Generating.willRetry (g : Generating) (attempt : ℕ) (transient : Bool) : Bool :=
  !g.leaseLost && transient && (attempt : ℤ) < g.maxAttempts

def appended (resp : Response) : Bool := resp ≠ .failed false && resp ≠ .flag false

/-- What an event appends to which stream, and who does. -/
def publication (s : State) : Event → Option (Thread × JobID × StreamEvent)
  | .chunk i text published =>
    if published.applied then (s.generating i).map fun g => (.worker i, g.jobID, ⟨.chunk, text⟩)
    else none
  | .attemptFailed i transient published =>
    match s.generating i, s.generations i with
    | some g, .streaming n _ =>
      if g.willRetry n transient && published.applied then
        some (.worker i, g.jobID, ⟨.retrying, retryMessage n g.maxAttempts⟩)
      else none
    | _, _ => none
  | .platform (.system (.call th (.external (.publishFailed jobID)) resp)) =>
    if appended resp then some (th, jobID, ⟨.failed, failureMessage th⟩) else none
  | .platform (.system (.call th (.external (.closeStream jobID)) resp)) =>
    if appended resp then some (th, jobID, ⟨.completed, ""⟩) else none
  | _ => none

def published (s : State) (e : Event) : JobID → List StreamEvent :=
  match publication s e with
  | some (_, jobID, event) => Function.update s.streams jobID (s.streams jobID ++ [event])
  | none => s.streams

/-- The results of `DoWithRetry` that the attempts allow. -/
def Generation.Returns (g : Generation) (maxAttempts : ℤ) (ok : Bool) (attempts : ℕ) : Prop :=
  match g, ok with
  | streaming n _, true => attempts = n
  | failed n, false => attempts = n
  -- a policy without attempts is refused at once
  | ready n, false => n = 0 ∧ attempts = 0 ∧ maxAttempts ≤ 0
  | _, _ => False

instance (g : Generation) (maxAttempts : ℤ) (ok : Bool) (attempts : ℕ) :
    Decidable (g.Returns maxAttempts ok attempts) := by
  induction g using Generation.casesOn <;> induction ok using Bool.casesOn <;>
    dsimp only [Generation.Returns] <;> infer_instance

def Allowed (s : State) : Platform.Event → Prop
  | .system (.call (.worker i) (.generate _ maxAttempts) (.attempts ok n)) =>
    (s.generations i).Returns maxAttempts ok n
  | _ => True

instance (s : State) (e : Platform.Event) : Decidable (Allowed s e) := by
  unfold Allowed
  split <;> infer_instance

def attempted (s : State) : Event → Option (ℕ × Generation)
  | .attempt i =>
    match s.generating i, s.generations i with
    | some g, .ready n => if (n : ℤ) < g.maxAttempts then some (i, .streaming (n + 1) "") else none
    | _, _ => none
  | .chunk i text published =>
    match s.generating i, s.generations i with
    | some _, .streaming n sofar =>
      if text = "" then none
      else
        match published with
        | .done => some (i, .streaming n (sofar ++ text))
        -- the error is not transient
        | .failed _ => some (i, .failed n)
    | _, _ => none
  | .attemptFailed i transient _ =>
    match s.generating i, s.generations i with
    | some g, .streaming n _ => some (i, if g.willRetry n transient then .ready n else .failed n)
    | _, _ => none
  | .interrupted i =>
    match s.generating i, s.generations i with
    | some g, .ready n => if g.leaseLost && n ≠ 0 then some (i, .failed n) else none
    | _, _ => none
  | .platform _ => none

/-- `DoWithRetry` has returned. -/
def generationsAfter (s : State) : Platform.Event → ℕ → Generation
  | .system (.call (.worker i) (.generate _ _) _) => Function.update s.generations i (.ready 0)
  | _ => s.generations

def step (cfg : Platform.Config) (s : State) (e : Event) : Option State :=
  match e with
  | .platform pe =>
    if Allowed s pe then
      (Platform.step cfg s.platform pe).map fun platform =>
        ⟨platform, generationsAfter s pe, published s e⟩
    else none
  | e =>
    (attempted s e).map fun a =>
      ⟨s.platform, Function.update s.generations a.1 a.2, published s e⟩

abbrev Step (cfg : Platform.Config) : State → Event → State → Prop := Fires (step cfg)

/-- Who publishes what, and when. -/
inductive Publishes (s : State) : Event → Thread → JobID → StreamEvent → Prop
  | chunk {i g text published} (h : s.generating i = some g) :
      Publishes s (.chunk i text published) (.worker i) g.jobID ⟨.chunk, text⟩
  | retrying {i g n text transient published} (h : s.generating i = some g)
      (hattempt : s.generations i = .streaming n text) (hretry : g.willRetry n transient = true) :
      Publishes s (.attemptFailed i transient published) (.worker i) g.jobID
        ⟨.retrying, retryMessage n g.maxAttempts⟩
  | failed {th jobID resp} :
      Publishes s (.platform (.system (.call th (.external (.publishFailed jobID)) resp))) th jobID
        ⟨.failed, failureMessage th⟩
  | completed {th jobID resp} :
      Publishes s (.platform (.system (.call th (.external (.closeStream jobID)) resp))) th jobID
        ⟨.completed, ""⟩

variable {cfg : Platform.Config} {s t : State} {e : Event} {pe : Platform.Event} {i : ℕ}
  {j : JobID} {th : Thread} {event : StreamEvent}

inductive Attempted (s : State) : Event → ℕ → Generation → Prop
  | begun {i g n} (h : s.generating i = some g) (hready : s.generations i = .ready n)
      (hmax : (n : ℤ) < g.maxAttempts) : Attempted s (.attempt i) i (.streaming (n + 1) "")
  | streamed {i g n sofar text} (h : s.generating i = some g)
      (hattempt : s.generations i = .streaming n sofar) :
      Attempted s (.chunk i text .done) i (.streaming n (sofar ++ text))
  | broken {i g n sofar text applied} (h : s.generating i = some g)
      (hattempt : s.generations i = .streaming n sofar) :
      Attempted s (.chunk i text (.failed applied)) i (.failed n)
  | retried {i g n sofar transient published} (h : s.generating i = some g)
      (hattempt : s.generations i = .streaming n sofar) (hretry : g.willRetry n transient = true) :
      Attempted s (.attemptFailed i transient published) i (.ready n)
  | gaveUp {i g n sofar transient published} (h : s.generating i = some g)
      (hattempt : s.generations i = .streaming n sofar) :
      Attempted s (.attemptFailed i transient published) i (.failed n)
  | interrupted {i g n} (h : s.generating i = some g) (hready : s.generations i = .ready n)
      (hlost : g.leaseLost = true) : Attempted s (.interrupted i) i (.failed n)

theorem attempted_cases {g : Generation} (h : attempted s e = some (i, g)) :
    Attempted s e i g := by
  unfold attempted at h
  split at h
  · split at h
    · next hg hready =>
      split_ifs at h with hmax
      cases h
      exact .begun hg hready hmax
    · cases h
  · split at h
    · next hg hattempt =>
      split_ifs at h
      split at h
      · cases h
        exact .streamed hg hattempt
      · cases h
        exact .broken hg hattempt
    · cases h
  · split at h
    · next hg hattempt =>
      split_ifs at h with hretry
      · cases h
        exact .retried hg hattempt hretry
      · cases h
        exact .gaveUp hg hattempt
    · cases h
  · split at h
    · next hg hready =>
      split_ifs at h with hlost
      cases h
      exact .interrupted hg hready (Bool.and_eq_true_iff.mp hlost).1
    · cases h
  · cases h

theorem Attempted.generating {g : Generation} (h : Attempted s e i g) :
    ∃ call, s.generating i = some call := by
  cases h with
  | begun h | streamed h | broken h | retried h | gaveUp h | interrupted h => exact ⟨_, h⟩

theorem publishes_of_publication (h : publication s e = some (th, j, event)) :
    Publishes s e th j event := by
  unfold publication at h
  split at h
  · split_ifs at h
    obtain ⟨g, hg, heq⟩ := Option.map_eq_some_iff.mp h
    cases heq
    exact .chunk hg
  · split at h
    · next g n text hg hattempt =>
      split_ifs at h with hretry
      cases h
      exact .retrying hg hattempt (Bool.and_eq_true_iff.mp hretry).1
    · cases h
  · split_ifs at h
    cases h
    exact .failed
  · split_ifs at h
    cases h
    exact .completed
  · cases h

theorem Step.platform (h : Step cfg s (.platform pe) t) :
    Allowed s pe ∧ Platform.Step cfg s.platform pe t.platform ∧
      t.generations = generationsAfter s pe := by
  simp only [Step, Fires, step] at h
  split_ifs at h with hallowed
  obtain ⟨platform, hplatform, rfl⟩ := Option.map_eq_some_iff.mp h
  exact ⟨hallowed, hplatform, rfl⟩

theorem Step.attempted (h : Step cfg s e t) (he : ∀ pe, e ≠ .platform pe) :
    t.platform = s.platform ∧ ∃ i g, Attempted s e i g ∧
      t.generations = Function.update s.generations i g := by
  -- an event of a worker alone leaves the platform as it is
  cases e with
  | platform pe => exact absurd rfl (he pe)
  | _ =>
    obtain ⟨⟨i, g⟩, hg, rfl⟩ := Option.map_eq_some_iff.mp h
    exact ⟨rfl, i, g, attempted_cases hg, rfl⟩

theorem Step.system (h : Step cfg s e t) :
    (∃ se, e = .platform (.system se) ∧
        Service.Step cfg.service s.platform.system se t.platform.system) ∨
      ((∀ se, e ≠ .platform (.system se)) ∧ t.platform.system = s.platform.system) := by
  by_cases hpe : ∃ pe, e = .platform pe
  · obtain ⟨pe, rfl⟩ := hpe
    rcases h.platform.2.1.system with ⟨se, rfl, -, hs⟩ | ⟨hnone, hsame⟩
    · exact Or.inl ⟨se, rfl, hs⟩
    · exact Or.inr ⟨fun se heq => hnone se (Event.platform.inj heq), hsame⟩
  · have hne : ∀ pe, e ≠ .platform pe := fun pe heq => hpe ⟨pe, heq⟩
    exact Or.inr ⟨fun se => hne _, congrArg Platform.State.system (h.attempted hne).1⟩

theorem Step.service {se : Service.Event} (h : Step cfg s (.platform (.system se)) t) :
    Service.Step cfg.service s.platform.system se t.platform.system := h.platform.2.1.service.2

theorem Step.worker (h : Step cfg s e t) (i : ℕ) :
    t.worker i = s.worker i ∨
      (∃ resp, e = .platform (.system (.call (.worker i) ((s.worker i).request i) resp)) ∧
        t.worker i = (s.worker i).resume cfg.service resp) ∨
      ∃ req resp, e = .platform (.system (.call (.heartbeat i) req resp)) ∧
        t.worker i = (s.worker i).resumeBeat cfg.service resp := by
  rcases h.system with ⟨se, rfl, hs⟩ | ⟨-, hsame⟩
  · rcases hs.worker i with hi | ⟨resp, rfl, hi⟩ | ⟨req, resp, rfl, -, hi⟩
    · exact Or.inl hi
    · exact Or.inr (Or.inl ⟨resp, rfl, hi⟩)
    · exact Or.inr (Or.inr ⟨req, resp, rfl, hi⟩)
  · exact Or.inl (by rw [State.worker, hsame]; rfl)

theorem Step.recovery (h : Step cfg s e t) (i : ℕ) :
    t.recovery i = s.recovery i ∨
      ∃ resp, e = .platform (.system (.call (.recovery i)
          ((s.recovery i).request cfg.service) resp)) ∧
        t.recovery i = (s.recovery i).resume cfg.service resp := by
  rcases h.system with ⟨se, rfl, hs⟩ | ⟨-, hsame⟩
  · rcases hs.recovery i with hi | ⟨resp, rfl, hi⟩
    · exact Or.inl hi
    · exact Or.inr ⟨resp, rfl, hi⟩
  · exact Or.inl (by rw [State.recovery, hsame]; rfl)

theorem Step.streams (h : Step cfg s e t) : t.streams = published s e := by
  cases e with
  | platform pe =>
    simp only [Step, Fires, step] at h
    split_ifs at h
    obtain ⟨platform, -, rfl⟩ := Option.map_eq_some_iff.mp h
    rfl
  | _ =>
    obtain ⟨a, -, rfl⟩ := Option.map_eq_some_iff.mp h
    rfl

theorem Step.stream (h : Step cfg s e t) (j : JobID) :
    (t.streams j = s.streams j ∧ ∀ th event, publication s e ≠ some (th, j, event)) ∨
      ∃ th event, publication s e = some (th, j, event) ∧
        t.streams j = s.streams j ++ [event] := by
  rw [h.streams]
  unfold published
  cases hpub : publication s e with
  | none => exact Or.inl ⟨rfl, nofun⟩
  | some p =>
    obtain ⟨th, j', event⟩ := p
    by_cases hj : j = j'
    · subst hj
      exact Or.inr ⟨th, event, rfl, Function.update_self _ _ _⟩
    · refine Or.inl ⟨Function.update_of_ne hj _ _, ?_⟩
      intro th' event' heq
      cases heq
      exact hj rfl

theorem Step.stream_of_some (h : Step cfg s e t) (hpub : publication s e = some (th, j, event)) :
    t.streams j = s.streams j ++ [event] := by
  rcases h.stream j with ⟨-, hnone⟩ | ⟨th', event', hpub', happend⟩
  · exact absurd hpub (hnone th event)
  · cases hpub'.symm.trans hpub
    exact happend

def runs (l : List Service.Event) : List Event := (Platform.calls l).map .platform

def accepted (i : ℕ) (job : JobID) (user : UserID) : List Event :=
  (Platform.accepted i user "" Platform.hello job).map .platform

def streaming (i : ℕ) (job : JobID) (user : UserID) (chunks : List String) : List Event :=
  runs [.call (.worker i) (.retryPolicy user) (.policy 3),
    .call (.worker i) (.external (.payload job)) (.flag true)] ++
  .attempt i :: chunks.map (.chunk i · .done)

def generatedText (i : ℕ) (job : JobID) (user : UserID) (chunks : List String) : List Event :=
  streaming i job user chunks ++
  runs [.call (.worker i) (.generate job 3) (.attempts true 1),
    .call (.worker i) (.redis (.markJobCompleted job)) (.reply (.done (.ok ())))]

def completed (i : ℕ) (job : JobID) : List Service.Event :=
  [.call (.worker i) (.markSelect .completed job) (.result (.ok ())),
   .call (.worker i) (.markUpdate .completed job 1) (.result (.ok ())),
   .call (.worker i) (.external (.transitionStatus job .completed)) (.flag true),
   .call (.worker i) (.external (.closeStream job)) (.flag true),
   .call (.worker i) (.redis (.releaseProcessingJob job)) (.reply (.done (.ok ())))]

end InferenceQueue.Delivery

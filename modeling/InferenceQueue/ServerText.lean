import InferenceQueue.DeliveredText
import InferenceQueue.GenerateStream

namespace InferenceQueue.ServerText

open Service Delivery ModelServer

/-- The client of one attempt, with the signals that brought it where it is. -/
structure Attempt (streamIdleTimeout : ℕ) where
  signals : List Signal
  session : Session
  run : Run (ModelServer.Step streamIdleTimeout) Session.start signals session

variable {streamIdleTimeout : ℕ}

def Attempt.start : Attempt streamIdleTimeout := ⟨[], Session.start, .nil⟩

def Attempt.signal (a : Attempt streamIdleTimeout) (e : Signal) :
    Option (Attempt streamIdleTimeout) :=
  match h : ModelServer.step streamIdleTimeout a.session e with
  | some session => some ⟨a.signals ++ [e], session, a.run.snoc h⟩
  | none => none

structure State (streamIdleTimeout : ℕ) where
  audit : Logged Delivery.State Note
  /-- the current or last attempt of each worker -/
  attempts : ℕ → Attempt streamIdleTimeout

def State.initial : State streamIdleTimeout := ⟨⟨Delivery.State.initial, []⟩, fun _ => .start⟩

/-- What the client of an attempt hands to `onChunk` is published; what it returns decides between
another attempt, success and failure. -/
inductive Event
  | attempt (i : ℕ)
  /-- what happens in the client between two calls of `onChunk` -/
  | signal (i : ℕ) (e : Signal)
  | chunk (i : ℕ) (published : Published)
  /-- `published` is about the retrying event -/
  | done (i : ℕ) (streamErr : Option StreamError) (published : Published)
  | delivery (e : Delivery.Event)

/-- The attempts make the events of their own; a generation succeeds when its client says so. -/
def Allowed (s : State streamIdleTimeout) : Delivery.Event → Prop
  | .attempt _ | .chunk _ _ _ | .attemptFailed _ _ _ => False
  | .platform (.system (.call (.worker i) (.generate _ _) (.attempts true _))) =>
    (s.attempts i).session.client = .returned none
  | _ => True

instance (s : State streamIdleTimeout) (e : Delivery.Event) : Decidable (Allowed s e) := by
  unfold Allowed
  split <;> infer_instance

/-- Not a call of `onChunk` and not the end. -/
def internal : Signal → Bool
  | .chunk _ | .done _ => false
  | _ => true

def nextText (client : Client) : Option String :=
  match client with
  | .choosing (c :: _) => some c.content
  | _ => none

def failure (client : Client) : Option ServerError :=
  match client with
  | .returned err => err
  | _ => none

/-- The event of the stream model behind an event, where there is one. -/
def visible (s : State streamIdleTimeout) : Event → Option Delivery.Event
  | .attempt i => some (.attempt i)
  | .signal _ _ => none
  | .chunk i published =>
    (nextText (s.attempts i).session.client).map fun text => .chunk i text published
  | .done i streamErr published =>
    (((s.attempts i).signal (.done streamErr)).bind fun a => failure a.session.client).map
      fun err => .attemptFailed i (retried err) published
  | .delivery e => some e

def attempted (s : State streamIdleTimeout) : Event → Option (ℕ × Attempt streamIdleTimeout)
  | .attempt i => some (i, .start)
  | .signal i e => if internal e then ((s.attempts i).signal e).map (i, ·) else none
  | .chunk i published => ((s.attempts i).signal (.chunk (published = .done))).map (i, ·)
  | .done i streamErr _ => ((s.attempts i).signal (.done streamErr)).map (i, ·)
  | .delivery _ => none

variable (cfg : Platform.Config)

def step (s : State streamIdleTimeout) (e : Event) : Option (State streamIdleTimeout) :=
  match e with
  | .delivery de =>
    if Allowed s de then
      (loggedStep (Delivery.step cfg) note s.audit de).map fun audit => { s with audit }
    else none
  | e =>
    (attempted s e).bind fun a =>
      match visible s e with
      | some de =>
        (loggedStep (Delivery.step cfg) note s.audit de).map fun audit =>
          ⟨audit, Function.update s.attempts a.1 a.2⟩
      | none => some { s with attempts := Function.update s.attempts a.1 a.2 }

abbrev Step : State streamIdleTimeout → Event → State streamIdleTimeout → Prop :=
  Fires (step cfg)

/-- How an attempt goes on, and what the stream sees of it. -/
inductive Moves (s : State streamIdleTimeout) :
    Event → Option Delivery.Event → ℕ → Attempt streamIdleTimeout → Prop
  | begun {i} : Moves s (.attempt i) (some (.attempt i)) i .start
  | internal {i e a} (hdelivered : a.session.delivered = (s.attempts i).session.delivered) :
      Moves s (.signal i e) none i a
  | taken {i text a}
      (hdelivered : a.session.delivered = (s.attempts i).session.delivered ++ [text]) :
      Moves s (.chunk i .done) (some (.chunk i text .done)) i a
  | refused {i text applied a} :
      Moves s (.chunk i (.failed applied)) (some (.chunk i text (.failed applied))) i a
  | succeeded {i streamErr published a}
      (hdelivered : a.session.delivered = (s.attempts i).session.delivered) :
      Moves s (.done i streamErr published) none i a
  | failed {i streamErr published transient a} :
      Moves s (.done i streamErr published) (some (.attemptFailed i transient published)) i a

variable {cfg} {s t : State streamIdleTimeout} {e : Event} {tr : List Event} {i : ℕ} {j : JobID}

theorem Attempt.signal_eq_some {a b : Attempt streamIdleTimeout} {e : Signal}
    (h : a.signal e = some b) : ModelServer.Step streamIdleTimeout a.session e b.session := by
  unfold Attempt.signal at h
  split at h
  · next session hstep =>
    cases h
    exact hstep
  · cases h

section Client

variable {session session' : Session} {e : Signal}

theorem delivered_internal (h : ModelServer.Step streamIdleTimeout session e session')
    (he : internal e = true) : session'.delivered = session.delivered := by
  cases h.effect with
  | taken | refused | done => cases he
  | _ => rfl

theorem delivered_done {streamErr : Option StreamError}
    (h : ModelServer.Step streamIdleTimeout session (.done streamErr) session') :
    session'.delivered = session.delivered ∧ ∃ err, session'.client = .returned err := by
  cases h.effect with
  | done => exact ⟨rfl, _, rfl⟩

theorem delivered_chunk_true
    (h : ModelServer.Step streamIdleTimeout session (.chunk true) session') :
    ∃ text, nextText session.client = some text ∧
      session'.delivered = session.delivered ++ [text] := by
  cases h.effect with
  | taken hclient => exact ⟨_, by rw [hclient]; rfl, rfl⟩

theorem nextText_chunk_false
    (h : ModelServer.Step streamIdleTimeout session (.chunk false) session') :
    ∃ text, nextText session.client = some text := by
  cases h.effect with
  | refused hclient => exact ⟨_, by rw [hclient]; rfl⟩

end Client

theorem moves_of_attempted {a : Attempt streamIdleTimeout} (h : attempted s e = some (i, a)) :
    Moves s e (visible s e) i a := by
  cases e with
  | attempt k =>
    cases h
    exact .begun
  | signal k e =>
    simp only [attempted] at h
    split_ifs at h with hinternal
    obtain ⟨b, hb, heq⟩ := Option.map_eq_some_iff.mp h
    cases heq
    exact .internal (delivered_internal (Attempt.signal_eq_some hb) hinternal)
  | chunk k published =>
    obtain ⟨b, hb, heq⟩ := Option.map_eq_some_iff.mp h
    cases heq
    have hstep := Attempt.signal_eq_some hb
    cases published with
    | done =>
      obtain ⟨text, htext, hdelivered⟩ := delivered_chunk_true hstep
      rw [visible, htext]
      exact .taken hdelivered
    | failed applied =>
      obtain ⟨text, htext⟩ := nextText_chunk_false hstep
      rw [visible, htext]
      exact .refused
  | done k streamErr published =>
    obtain ⟨b, hb, heq⟩ := Option.map_eq_some_iff.mp h
    cases heq
    obtain ⟨hdelivered, err, herr⟩ := delivered_done (Attempt.signal_eq_some hb)
    have hfailure : failure a.session.client = err := by rw [herr]; rfl
    rw [visible, hb, Option.bind_some, hfailure]
    cases err with
    | none => exact .succeeded hdelivered
    | some err => exact .failed
  | delivery de => cases h

theorem Step.audit (h : Step cfg s e t) :
    (visible s e = none ∧ t.audit = s.audit) ∨
      ∃ de, visible s e = some de ∧
        Fires (loggedStep (Delivery.step cfg) note) s.audit de t.audit := by
  cases e with
  | delivery de =>
    simp only [Step, Fires, step] at h
    split_ifs at h
    obtain ⟨audit, haudit, rfl⟩ := Option.map_eq_some_iff.mp h
    exact Or.inr ⟨de, rfl, haudit⟩
  | _ =>
    simp only [Step, Fires, step] at h
    obtain ⟨a, ha, hrest⟩ := Option.bind_eq_some_iff.mp h
    split at hrest
    · next de hde =>
      obtain ⟨audit, haudit, rfl⟩ := Option.map_eq_some_iff.mp hrest
      exact Or.inr ⟨de, hde, haudit⟩
    · next hnone =>
      cases hrest
      exact Or.inl ⟨hnone, rfl⟩

theorem Step.attempts (h : Step cfg s e t) :
    (∃ de, e = .delivery de ∧ Allowed s de ∧ t.attempts = s.attempts) ∨
      ∃ k a, Moves s e (visible s e) k a ∧ t.attempts = Function.update s.attempts k a := by
  cases e with
  | delivery de =>
    simp only [Step, Fires, step] at h
    split_ifs at h with hallowed
    obtain ⟨audit, -, rfl⟩ := Option.map_eq_some_iff.mp h
    exact Or.inl ⟨de, rfl, hallowed, rfl⟩
  | _ =>
    simp only [Step, Fires, step] at h
    obtain ⟨⟨k, a⟩, ha, hrest⟩ := Option.bind_eq_some_iff.mp h
    refine Or.inr ⟨k, a, moves_of_attempted ha, ?_⟩
    split at hrest
    · obtain ⟨audit, -, rfl⟩ := Option.map_eq_some_iff.mp hrest
      rfl
    · cases hrest
      rfl

def worker : Delivery.Event → Option ℕ
  | .attempt i | .chunk i _ _ | .attemptFailed i _ _ | .interrupted i => some i
  | .platform _ => none

/-- An attempt that is under way after a step began with it, took a chunk, or was left alone. -/
theorem streaming_cases {s t : Delivery.State} {e : Delivery.Event} {n : ℕ} {text : String}
    (he : Delivery.Step cfg s e t) (h : t.generations i = .streaming n text) :
    (e = .attempt i ∧ text = "") ∨
      (∃ x y, e = .chunk i y .done ∧ s.generations i = .streaming n x ∧ text = x ++ y) ∨
        (worker e ≠ some i ∧ s.generations i = .streaming n text) := by
  by_cases hpe : ∃ pe, e = .platform pe
  · obtain ⟨pe, rfl⟩ := hpe
    rw [he.platform.2.2] at h
    refine Or.inr (Or.inr ⟨nofun, ?_⟩)
    unfold generationsAfter at h
    split at h
    · next k _ _ _ =>
      by_cases hk : i = k
      · subst hk
        rw [Function.update_self] at h
        cases h
      · rwa [Function.update_of_ne hk] at h
    · exact h
  · obtain ⟨-, k, g, hattempted, hgen⟩ := he.attempted fun pe heq => hpe ⟨pe, heq⟩
    have hworker : worker e = some k := by cases hattempted <;> rfl
    rw [hgen] at h
    by_cases hk : i = k
    · subst hk
      rw [Function.update_self] at h
      subst h
      cases hattempted with
      | begun => exact Or.inl ⟨rfl, rfl⟩
      | streamed _ hattempt => exact Or.inr (Or.inl ⟨_, _, rfl, hattempt, rfl⟩)
    · rw [Function.update_of_ne hk] at h
      refine Or.inr (Or.inr ⟨?_, h⟩)
      rw [hworker]
      exact fun heq => hk (Option.some.inj heq).symm

/-- The text of an attempt is what its client has delivered. -/
def Matches (s : State streamIdleTimeout) : Prop :=
  ∀ i n text, s.audit.state.generations i = .streaming n text →
    String.join (s.attempts i).session.delivered = text

theorem Moves.worker {de : Delivery.Event} {a : Attempt streamIdleTimeout}
    (h : Moves s e (some de) i a) : worker de = some i := by
  cases h <;> rfl

theorem Moves.delivered_of_hidden {a : Attempt streamIdleTimeout} (h : Moves s e none i a) :
    a.session.delivered = (s.attempts i).session.delivered := by
  cases h with
  | internal hdelivered | succeeded hdelivered => exact hdelivered

theorem Matches.step (h : Matches s) (he : Step cfg s e t) : Matches t := by
  intro i n text hstreaming
  rcases he.audit with ⟨hvisible, hsame⟩ | ⟨de, hvisible, hfires⟩
  · rw [hsame] at hstreaming
    rcases he.attempts with ⟨de, rfl, -, -⟩ | ⟨k, a, hmoves, hattempts⟩
    · cases hvisible
    · rw [hvisible] at hmoves
      have hdelivered : (t.attempts i).session.delivered = (s.attempts i).session.delivered := by
        rw [hattempts]
        by_cases hk : i = k
        · subst hk
          rw [Function.update_self]
          exact hmoves.delivered_of_hidden
        · rw [Function.update_of_ne hk]
      rw [hdelivered]
      exact h i n text hstreaming
  · have hcases := streaming_cases (loggedStep_inv hfires).1 hstreaming
    rcases he.attempts with ⟨de, rfl, hallowed, hattempts⟩ | ⟨k, a, hmoves, hattempts⟩
    · cases hvisible
      rw [hattempts]
      rcases hcases with ⟨rfl, -⟩ | ⟨x, y, rfl, -⟩ | ⟨-, hbefore⟩
      · exact hallowed.elim
      · exact hallowed.elim
      · exact h i n text hbefore
    · rw [hvisible] at hmoves
      rw [hattempts]
      rcases hcases with ⟨rfl, rfl⟩ | ⟨x, y, rfl, hbefore, rfl⟩ | ⟨hother, hbefore⟩
      · cases hmoves
        rw [Function.update_self]
        rfl
      · cases hmoves with
        | taken hdelivered =>
          rw [Function.update_self, hdelivered, String.join_append, h i n x hbefore]
          simp
      · rw [hmoves.worker] at hother
        rw [Function.update_of_ne fun hk => hother (congrArg some hk.symm)]
        exact h i n text hbefore

def succeeding (i : ℕ) (j : JobID) (maxAttempts : ℤ) (attempts : ℕ) : Event :=
  .delivery (.platform (.system (.call (.worker i) (.generate j maxAttempts)
    (.attempts true attempts))))

/-- The client of an attempt at the job whose success the worker went on with. -/
def SucceededWith (cfg : Platform.Config) (tr : List Event) (j : JobID)
    (a : Attempt streamIdleTimeout) : Prop :=
  ∃ past i maxAttempts attempts, ∃ s : State streamIdleTimeout,
    past ++ [succeeding i j maxAttempts attempts] <+: tr ∧
      Run (Step cfg) State.initial past s ∧ s.attempts i = a

/-- Behind every success stands a client that has returned without an error. -/
def Vouched (cfg : Platform.Config) (tr : List Event) (s : State streamIdleTimeout) : Prop :=
  ∀ j i text, .succeeded j i text ∈ s.audit.log →
    ∃ a : Attempt streamIdleTimeout, SucceededWith cfg tr j a ∧
      a.session.client = .returned none ∧ String.join a.session.delivered = text

theorem SucceededWith.mono {a : Attempt streamIdleTimeout} (h : SucceededWith cfg tr j a) :
    SucceededWith cfg (tr ++ [e]) j a := by
  obtain ⟨past, i, maxAttempts, attempts, s, hpast, hrest⟩ := h
  exact ⟨past, i, maxAttempts, attempts, s, hpast.trans (List.prefix_append _ _), hrest⟩

theorem Vouched.step (h : Vouched cfg tr s) (hm : Matches s)
    (hrun : Run (Step cfg) State.initial tr s) (he : Step cfg s e t) :
    Vouched cfg (tr ++ [e]) t := by
  intro j i text hmem
  have hold : .succeeded j i text ∈ s.audit.log →
      ∃ a : Attempt streamIdleTimeout, SucceededWith cfg (tr ++ [e]) j a ∧
        a.session.client = .returned none ∧ String.join a.session.delivered = text := by
    intro hbefore
    obtain ⟨a, ha, hrest⟩ := h j i text hbefore
    exact ⟨a, ha.mono, hrest⟩
  rcases he.audit with ⟨-, hsame⟩ | ⟨de, hvisible, hfires⟩
  · rw [hsame] at hmem
    exact hold hmem
  · rw [(loggedStep_inv hfires).2, List.mem_append] at hmem
    rcases hmem with hbefore | hnote
    · exact hold hbefore
    · obtain ⟨m, n, k, rfl, hattempt⟩ := note_succeeded (Option.mem_toList.mp hnote)
      rcases he.attempts with ⟨de, rfl, hallowed, -⟩ | ⟨k, a, hmoves, -⟩
      · cases hvisible
        have hsucceeded : SucceededWith cfg (tr ++ [succeeding i j m n]) j (s.attempts i) :=
          ⟨tr, i, m, n, s, List.prefix_rfl, hrun, rfl⟩
        exact ⟨s.attempts i, hsucceeded, hallowed, hm _ _ _ hattempt⟩
      · rw [hvisible] at hmoves
        cases hmoves.worker

/-- What the stream sees of an event keeps the order the workers of a job must keep, and is
published without an error. -/
def Orderly (j : JobID) (_ : List Event) (s : State streamIdleTimeout) (e : Event) : Prop :=
  ∀ de ∈ visible s e, InOrder j [] s.audit de ∧ de.published = true

instance (j : JobID) (past : List Event) (s : State streamIdleTimeout) (e : Event) :
    Decidable (Orderly j past s e) := by
  unfold Orderly; infer_instance

/-- The run so far, seen from the job. -/
structure Traced (cfg : Platform.Config) (j : JobID) (tr : List Event)
    (s : State streamIdleTimeout) : Prop where
  run : Run (Step cfg) State.initial tr s
  matched : Matches s
  vouched : Vouched cfg tr s
  follows : Follows j s.audit

theorem Traced.step {past : List Event} (h : Traced cfg j tr s) (hok : Orderly j past s e)
    (he : Step cfg s e t) : Traced cfg j (tr ++ [e]) t where
  run := h.run.snoc he
  matched := h.matched.step he
  vouched := h.vouched.step h.matched h.run he
  follows := by
    rcases he.audit with ⟨-, hsame⟩ | ⟨de, hvisible, hfires⟩
    · rw [hsame]
      exact h.follows
    · obtain ⟨horder, hpub⟩ := hok de hvisible
      exact h.follows.step horder hpub hfires

theorem Traced.initial (cfg : Platform.Config) (j : JobID) :
    Traced cfg j [] (@State.initial streamIdleTimeout) where
  run := .nil
  matched := nofun
  vouched := nofun
  follows := Follows.initial j

theorem mem_of_successes {log : List Note} {text : String} (h : text ∈ successes j log) :
    ∃ i, .succeeded j i text ∈ log := by
  obtain ⟨n, hn, hsuccess⟩ := List.mem_filterMap.mp h
  cases n with
  | claimed => cases hsuccess
  | succeeded jobID i text' =>
    simp only [Note.success] at hsuccess
    split_ifs at hsuccess with hj
    cases hsuccess
    subst hj
    exact ⟨i, hn⟩

theorem Traced.run_of (h : Run (Step cfg) (@State.initial streamIdleTimeout) tr s)
    (hok : Throughout (Step cfg) (@State.initial streamIdleTimeout) tr (Orderly j)) :
    Traced cfg j tr s :=
  h.guarded (Traced cfg j) (Traced.initial cfg j) (fun _ _ _ _ hi ho he => hi.step ho he) hok

theorem Traced.sent {before after : List Stream.StreamEvent} {event : Stream.StreamEvent}
    (h : Traced cfg j tr s) (hstream : s.audit.state.streams j = before ++ event :: after)
    (hcompleted : event.type = .completed) :
    ∃ a : Attempt streamIdleTimeout, SucceededWith cfg tr j a ∧
      delivered before = String.join (texts (received a.signals)) ∧
      lastReason (received a.signals) ∉ ["", "length", "content_filter"] := by
  have hsuccess : successes j s.audit.log = [delivered before] :=
    h.follows.delivers before event after hstream hcompleted
  obtain ⟨i, hnote⟩ := mem_of_successes (by rw [hsuccess]; exact List.mem_singleton_self _)
  obtain ⟨a, hsucceeded, hclient, htext⟩ := h.vouched j i _ hnote
  have hprogress := Progress.run a.run
  rw [hclient] at hprogress
  generalize hnone : (none : Option ServerError) = err at hprogress
  cases hprogress with
  | broken => cases hnone
  | ended hhandled =>
    obtain ⟨-, -, hreason⟩ := conclude_eq_none.mp hnone.symm
    rw [hhandled.finishReason] at hreason
    exact ⟨a, hsucceeded, by rw [← htext, hhandled.delivered], hreason⟩

/-- While the workers keep out of each other's way, the text in front of a completed event is what
the model server sent to the attempt that succeeded: all of it, in order, and none of what came
before a retry.  The server ended it with a reason other than the token limit or the content
filter. -/
theorem delivers_what_the_server_sent {before after : List Stream.StreamEvent}
    {event : Stream.StreamEvent} (h : Run (Step cfg) (@State.initial streamIdleTimeout) tr s)
    (hok : Throughout (Step cfg) (@State.initial streamIdleTimeout) tr (Orderly j))
    (hstream : s.audit.state.streams j = before ++ event :: after)
    (hcompleted : event.type = .completed) :
    ∃ a : Attempt streamIdleTimeout, SucceededWith cfg tr j a ∧
      delivered before = String.join (texts (received a.signals)) ∧
      lastReason (received a.signals) ∉ ["", "length", "content_filter"] :=
  (Traced.run_of h hok).sent hstream hcompleted

/-- The server falls silent in the middle of the text; the second attempt gets all of it, in two
events, and a tick longer than the timeout passes while a chunk is published. -/
def silentFirst : List Event :=
  (Delivery.accepted 0 job1 alice ++ Delivery.runs [claiming 0 job1 alice,
    .call (.worker 0) (.retryPolicy alice) (.policy 3),
    .call (.worker 0) (.external (.payload job1)) (.flag true)]).map .delivery ++
  [.attempt 0, .signal 0 (.next [⟨"", "Hel"⟩]), .chunk 0 .done, .signal 0 .reset,
   .signal 0 (.tick 30000), .signal 0 .expire, .signal 0 .idle,
   .done 0 (some canceledError) .done,
   .attempt 0, .signal 0 (.next [⟨"", "Hello"⟩, ⟨"", ""⟩]), .signal 0 (.tick 40000),
   .chunk 0 .done, .signal 0 .skip, .signal 0 .reset, .signal 0 (.next [⟨"stop", "!"⟩]),
   .chunk 0 .done, .signal 0 .reset, .done 0 none .done, succeeding 0 job1 3 2] ++
  (Delivery.runs [.call (.worker 0) (.redis (.markJobCompleted job1)) (.reply (.done (.ok ()))),
    .call (.worker 0) (.markSelect .completed job1) (.result (.ok ())),
    .call (.worker 0) (.markUpdate .completed job1 2) (.result (.ok ())),
    .call (.worker 0) (.external (.transitionStatus job1 .completed)) (.flag true),
    .call (.worker 0) (.external (.closeStream job1)) (.flag true)]).map .delivery

theorem delivers_what_the_server_sent_retried :
    ∃ a : Attempt 30000, SucceededWith Platform.smallPlatform silentFirst job1 a ∧
      "Hello!" = String.join (texts (received a.signals)) ∧
      lastReason (received a.signals) ∉ ["", "length", "content_filter"] := by
  let before : List Stream.StreamEvent :=
    [⟨.chunk, "Hel"⟩, ⟨.retrying, retryMessage 1 3⟩, ⟨.chunk, "Hello"⟩, ⟨.chunk, "!"⟩]
  obtain ⟨s, hrun, hstream⟩ := Run.exists_of_foldlM (step Platform.smallPlatform)
    (@State.initial 30000) silentFirst
    (fun s => s.audit.state.streams job1 = before ++ ⟨.completed, ""⟩ :: []) (by decide +kernel)
  have hdelivered : delivered before = "Hello!" := by decide +kernel
  rw [← hdelivered]
  exact delivers_what_the_server_sent hrun (throughout_of_always (by decide +kernel)) hstream rfl

end InferenceQueue.ServerText

import InferenceQueue.AppendLog
import InferenceQueue.Runs
import Mathlib.Data.Prod.Lex
import Mathlib.Order.Nat

namespace InferenceQueue.Subscription

/-- A stream ID `ms-seq`; `0-0` comes before all others. -/
abbrev StreamID := ℕ ×ₗ ℕ

structure StreamMessage where
  type : String
  data : String
deriving DecidableEq, Repr

def StreamMessage.isTerminal (m : StreamMessage) : Bool :=
  m.type == "completed" || m.type == "failed"

abbrev Values := Option String

abbrev Entry := StreamID × Values

/-- Where the goroutine stands; `lastID` is the cursor. -/
inductive Reader
  | reading (lastID : StreamID)
  | handling (lastID : StreamID) (messages : List Entry)
  | sending (event : StreamMessage) (lastID : StreamID) (messages : List Entry)
  | closed
deriving DecidableEq

/-- `channel` lists all events put on the channel, of which `received` have been taken. -/
structure State where
  stream : AppendLog StreamID Values
  canceled : Bool
  reader : Reader
  channel : List StreamMessage
  received : ℕ

/-- The goroutine moves one statement at a time. `XREAD` returns entries after the cursor, oldest
first; how many of them is up to the server. -/
inductive Event
  | append (id : StreamID) (values : Values)
  | cancel
  | read (count : ℕ)
  | timeout
  | readError
  | next
  | send
  | done
  | receive
deriving DecidableEq

def start (stream : AppendLog StreamID Values) : State := ⟨stream, false, .reading ⊥, [], 0⟩

variable (unmarshal : String → Option StreamMessage)

/-- An entry without a payload, or with one that is no message, is skipped. -/
def decode (values : Values) : Option StreamMessage := values.bind unmarshal

def decodable (entries : List Entry) : List StreamMessage :=
  entries.filterMap (decode unmarshal ·.2)

def handle (e : Entry) (messages : List Entry) : Reader :=
  match decode unmarshal e.2 with
  | none => .handling e.1 messages
  | some event => .sending event e.1 messages

def step (s : State) : Event → Option State
  | .append id values =>
    if h : s.stream.Fresh id then some { s with stream := s.stream.append id values h } else none
  | .cancel => some { s with canceled := true }
  | .read count =>
    match s.reader with
    | .reading lastID =>
      if 1 ≤ count ∧ count ≤ 100 ∧ s.stream.after lastID ≠ [] then
        some { s with reader := .handling lastID ((s.stream.after lastID).take count) }
      else none
    | _ => none
  | .timeout =>
    match s.reader with
    | .reading _ => some s
    | _ => none
  | .readError =>
    match s.reader with
    | .reading _ => some { s with reader := .closed }
    | _ => none
  | .next =>
    match s.reader with
    | .handling _ (e :: messages) => some { s with reader := handle unmarshal e messages }
    | .handling lastID [] => some { s with reader := .reading lastID }
    | _ => none
  | .send =>
    match s.reader with
    | .sending event lastID messages =>
      if s.channel.length - s.received < 100 then
        some { s with
          channel := s.channel ++ [event]
          reader := if event.isTerminal then .closed else .handling lastID messages }
      else none
    | _ => none
  | .done =>
    match s.reader, s.canceled with
    | .sending _ _ _, true => some { s with reader := .closed }
    | _, _ => none
  | .receive =>
    if s.received < s.channel.length then some { s with received := s.received + 1 } else none

def replay (stream : AppendLog StreamID Values) : List StreamMessage :=
  takeThrough StreamMessage.isTerminal (decodable unmarshal stream.entries)

/-- Every event up to the entries `done` is on the channel, and none of them ended the stream. -/
structure Caught (channel : List StreamMessage) (entries : List Entry) : Prop where
  channel : channel = decodable unmarshal entries
  goesOn : ∀ m ∈ decodable unmarshal entries, m.isTerminal = false

/-- The cursor and the entries in hand against the channel. -/
inductive Follows (stream : AppendLog StreamID Values) (channel : List StreamMessage) :
    Reader → Prop
  | reading {lastID seen rest} (hsplit : stream.Split lastID seen rest)
      (hcaught : Caught unmarshal channel seen) : Follows stream channel (.reading lastID)
  | handling {lastID messages seen rest} (hsplit : stream.Split lastID seen (messages ++ rest))
      (hcaught : Caught unmarshal channel seen) :
      Follows stream channel (.handling lastID messages)
  | sending {event lastID messages seen e rest}
      (hsplit : stream.Split lastID (seen ++ [e]) (messages ++ rest))
      (hevent : decode unmarshal e.2 = some event) (hcaught : Caught unmarshal channel seen) :
      Follows stream channel (.sending event lastID messages)
  | closed (h : channel <+: replay unmarshal stream) : Follows stream channel .closed

variable {unmarshal} {stream : AppendLog StreamID Values} {channel : List StreamMessage}
  {reader : Reader} {lastID : StreamID} {seen rest messages : List Entry} {e : Entry}
  {event : StreamMessage}

theorem decodable_append :
    decodable unmarshal (seen ++ rest) = decodable unmarshal seen ++ decodable unmarshal rest :=
  List.filterMap_append

theorem decodable_snoc :
    decodable unmarshal (seen ++ [e]) =
      decodable unmarshal seen ++ (decode unmarshal e.2).toList :=
  filterMap_snoc _ seen e

namespace Caught

theorem skip (h : Caught unmarshal channel seen) (he : decode unmarshal e.2 = none) :
    Caught unmarshal channel (seen ++ [e]) := by
  have hseen : decodable unmarshal (seen ++ [e]) = decodable unmarshal seen := by
    rw [decodable_snoc, he, Option.toList_none, List.append_nil]
  constructor
  · rw [hseen, h.channel]
  · rw [hseen]
    exact h.goesOn

theorem send (h : Caught unmarshal channel seen) (he : decode unmarshal e.2 = some event)
    (hopen : event.isTerminal = false) : Caught unmarshal (channel ++ [event]) (seen ++ [e]) := by
  have hseen : decodable unmarshal (seen ++ [e]) = decodable unmarshal seen ++ [event] := by
    rw [decodable_snoc, he, Option.toList_some]
  constructor
  · rw [hseen, h.channel]
  · rw [hseen]
    intro m hm
    rcases List.mem_append.mp hm with hm | hm
    · exact h.goesOn m hm
    · rw [List.mem_singleton.mp hm, hopen]

theorem prefix_replay (h : Caught unmarshal channel seen)
    (hsplit : stream.entries = seen ++ rest) : channel <+: replay unmarshal stream := by
  rw [replay, hsplit, decodable_append, takeThrough_append h.goesOn, h.channel]
  exact List.prefix_append _ _

/-- The channel is closed with the first terminal event. -/
theorem replay_eq (h : Caught unmarshal channel seen)
    (hsplit : stream.entries = seen ++ [e] ++ rest) (he : decode unmarshal e.2 = some event)
    (hend : event.isTerminal = true) : replay unmarshal stream = channel ++ [event] := by
  have hlist : decodable unmarshal stream.entries =
      decodable unmarshal seen ++ event :: decodable unmarshal rest := by
    rw [hsplit, List.append_assoc]
    simp [decodable, he]
  rw [replay, hlist, takeThrough_append_cons h.goesOn hend, h.channel]

end Caught

theorem replay_prefix_append {id : StreamID} {values : Values} (hid : stream.Fresh id) :
    replay unmarshal stream <+: replay unmarshal (stream.append id values hid) := by
  rw [replay, replay, AppendLog.append_entries, decodable_append]
  exact takeThrough_prefix_append

namespace Follows

theorem start (stream : AppendLog StreamID Values) : Follows unmarshal stream [] (.reading ⊥) :=
  .reading (.start stream) ⟨rfl, by simp [decodable]⟩

theorem prefix_replay (h : Follows unmarshal stream channel reader) :
    channel <+: replay unmarshal stream := by
  cases h with
  | reading hsplit hcaught => exact hcaught.prefix_replay hsplit.entries
  | handling hsplit hcaught => exact hcaught.prefix_replay hsplit.entries
  | sending hsplit _ hcaught =>
    have hentries := hsplit.entries
    rw [List.append_assoc] at hentries
    exact hcaught.prefix_replay hentries
  | closed h => exact h

theorem append {id : StreamID} {values : Values} (h : Follows unmarshal stream channel reader)
    (hid : stream.Fresh id) : Follows unmarshal (stream.append id values hid) channel reader := by
  cases h with
  | reading hsplit hcaught => exact .reading (hsplit.append hid) hcaught
  | handling hsplit hcaught =>
    have hsplit := hsplit.append (a := values) hid
    rw [List.append_assoc] at hsplit
    exact .handling hsplit hcaught
  | sending hsplit hevent hcaught =>
    have hsplit := hsplit.append (a := values) hid
    rw [List.append_assoc] at hsplit
    exact .sending hsplit hevent hcaught
  | closed h => exact .closed (h.trans (replay_prefix_append hid))

theorem read (h : Follows unmarshal stream channel (.reading lastID)) (count : ℕ) :
    Follows unmarshal stream channel (.handling lastID ((stream.after lastID).take count)) := by
  cases h with
  | reading hsplit hcaught =>
    -- what `XREAD` returns is the beginning of what is left
    have hcut := hsplit
    rw [← hsplit.after_eq, ← List.take_append_drop count (stream.after lastID)] at hcut
    exact .handling hcut hcaught

theorem next (h : Follows unmarshal stream channel (.handling lastID (e :: messages))) :
    Follows unmarshal stream channel (handle unmarshal e messages) := by
  cases h with
  | handling hsplit hcaught =>
    unfold handle
    split
    · rename_i he
      exact .handling hsplit.advance (hcaught.skip he)
    · rename_i he
      exact .sending hsplit.advance he hcaught

theorem handled (h : Follows unmarshal stream channel (.handling lastID [])) :
    Follows unmarshal stream channel (.reading lastID) := by
  cases h with
  | handling hsplit hcaught => exact .reading hsplit hcaught

theorem send (h : Follows unmarshal stream channel (.sending event lastID messages)) :
    Follows unmarshal stream (channel ++ [event])
      (if event.isTerminal then .closed else .handling lastID messages) := by
  cases h with
  | sending hsplit hevent hcaught =>
    split
    · rename_i hend
      rw [← hcaught.replay_eq hsplit.entries hevent hend]
      exact .closed List.prefix_rfl
    · rename_i hopen
      exact .handling hsplit (hcaught.send hevent (by simpa using hopen))

end Follows

/-- What one step does, with the state of the goroutine it needs. -/
inductive Effect (unmarshal : String → Option StreamMessage) (s : State) : Event → State → Prop
  | append {id : StreamID} {values : Values} (hid : s.stream.Fresh id) :
      Effect unmarshal s (.append id values) { s with stream := s.stream.append id values hid }
  | cancel : Effect unmarshal s .cancel { s with canceled := true }
  | read {lastID : StreamID} {count : ℕ} (hreader : s.reader = .reading lastID) :
      Effect unmarshal s (.read count)
        { s with reader := .handling lastID ((s.stream.after lastID).take count) }
  | timeout : Effect unmarshal s .timeout s
  | readError : Effect unmarshal s .readError { s with reader := .closed }
  | next {lastID : StreamID} {e : Entry} {messages : List Entry}
      (hreader : s.reader = .handling lastID (e :: messages)) :
      Effect unmarshal s .next { s with reader := handle unmarshal e messages }
  | handled {lastID : StreamID} (hreader : s.reader = .handling lastID []) :
      Effect unmarshal s .next { s with reader := .reading lastID }
  | send {event : StreamMessage} {lastID : StreamID} {messages : List Entry}
      (hreader : s.reader = .sending event lastID messages) :
      Effect unmarshal s .send
        { s with
          channel := s.channel ++ [event]
          reader := if event.isTerminal then .closed else .handling lastID messages }
  | done (hcanceled : s.canceled = true) : Effect unmarshal s .done { s with reader := .closed }
  | receive : Effect unmarshal s .receive { s with received := s.received + 1 }

theorem effect_of_step {s t : State} {ev : Event} (h : step unmarshal s ev = some t) :
    Effect unmarshal s ev t := by
  cases ev with
  | append id values =>
    obtain ⟨hid, h⟩ := Option.dite_none_right_eq_some.mp h
    obtain rfl := Option.some.inj h
    exact .append hid
  | cancel =>
    obtain rfl := Option.some.inj h
    exact .cancel
  | read count =>
    simp only [step] at h
    split at h <;> try contradiction
    rename_i hreader
    obtain ⟨-, h⟩ := Option.ite_none_right_eq_some.mp h
    obtain rfl := Option.some.inj h
    exact .read hreader
  | timeout =>
    simp only [step] at h
    split at h <;> try contradiction
    obtain rfl := Option.some.inj h
    exact .timeout
  | readError =>
    simp only [step] at h
    split at h <;> try contradiction
    obtain rfl := Option.some.inj h
    exact .readError
  | next =>
    simp only [step] at h
    split at h <;> try contradiction
    all_goals
      rename_i hreader
      obtain rfl := Option.some.inj h
    · exact .next hreader
    · exact .handled hreader
  | send =>
    simp only [step] at h
    split at h <;> try contradiction
    rename_i hreader
    obtain ⟨-, h⟩ := Option.ite_none_right_eq_some.mp h
    obtain rfl := Option.some.inj h
    exact .send hreader
  | done =>
    simp only [step] at h
    split at h <;> try contradiction
    rename_i hcanceled
    obtain rfl := Option.some.inj h
    exact .done hcanceled
  | receive =>
    obtain ⟨-, h⟩ := Option.ite_none_right_eq_some.mp h
    obtain rfl := Option.some.inj h
    exact .receive

theorem step_follows {s t : State} {ev : Event} (h : step unmarshal s ev = some t)
    (hs : Follows unmarshal s.stream s.channel s.reader) :
    Follows unmarshal t.stream t.channel t.reader := by
  cases effect_of_step h with
  | append hid => exact hs.append hid
  | cancel | timeout | receive => exact hs
  | readError | done _ => exact .closed hs.prefix_replay
  | read hreader =>
    rw [hreader] at hs
    exact hs.read _
  | next hreader =>
    rw [hreader] at hs
    exact hs.next
  | handled hreader =>
    rw [hreader] at hs
    exact hs.handled
  | send hreader =>
    rw [hreader] at hs
    exact hs.send

def Event.Interrupts (ev : Event) : Prop := ev = .cancel ∨ ev = .readError

instance (ev : Event) : Decidable ev.Interrupts := inferInstanceAs (Decidable (_ ∨ _))

/-- The last event on the channel is a terminal one. -/
def Ended (channel : List StreamMessage) : Prop :=
  ∃ sent event, channel = sent ++ [event] ∧ event.isTerminal = true

/-- Without interruption the context stays live and the channel is closed by its last event. -/
structure Undisturbed (s : State) : Prop where
  live : s.canceled = false
  ended : s.reader = .closed → Ended s.channel

theorem handle_ne_closed : handle unmarshal e messages ≠ .closed := by
  unfold handle
  split <;> simp

theorem step_undisturbed {s t : State} {ev : Event} (h : step unmarshal s ev = some t)
    (hev : ¬ev.Interrupts) (hs : Undisturbed s) : Undisturbed t := by
  cases effect_of_step h with
  | cancel => exact absurd (Or.inl rfl) hev
  | readError => exact absurd (Or.inr rfl) hev
  | append _ | timeout | receive => exact ⟨hs.live, hs.ended⟩
  | read _ | handled _ => exact ⟨hs.live, by simp⟩
  | next _ => exact ⟨hs.live, fun hclosed => absurd hclosed handle_ne_closed⟩
  | done hcanceled => simp [hs.live] at hcanceled
  | send _ =>
    refine ⟨hs.live, fun hclosed => ⟨_, _, rfl, ?_⟩⟩
    by_contra hopen
    rw [if_neg hopen] at hclosed
    contradiction

/-- In every run the channel carries the decodable entries in order, up to the first terminal
event; without cancellation or read error it is closed only after that event. -/
theorem subscribe_replays {tr : List Event} {t : State}
    (h : Run (Fires (step unmarshal)) (start stream) tr t) :
    t.channel <+: replay unmarshal t.stream ∧
      ((∀ ev ∈ tr, ¬ev.Interrupts) → t.reader = .closed →
        t.channel = replay unmarshal t.stream ∧ Ended t.channel) := by
  have hfollows : Follows unmarshal t.stream t.channel t.reader :=
    h.history (fun _ s => Follows unmarshal s.stream s.channel s.reader) (.start stream)
      fun _ _ _ _ hs hstep => step_follows hstep hs
  refine ⟨hfollows.prefix_replay, fun htr hclosed => ?_⟩
  have hlive : Throughout (Fires (step unmarshal)) (start stream) tr
      fun _ _ ev => ¬ev.Interrupts := .of_forall htr
  have hquiet : Undisturbed t := by
    refine h.guarded (fun _ s => Undisturbed s) ?_ ?_ hlive
    · exact ⟨rfl, by simp [start]⟩
    · exact fun _ _ _ _ hs hev hstep => step_undisturbed hstep hev hs
  have hended := hquiet.ended hclosed
  refine ⟨?_, hended⟩
  -- the terminal event is the first of the stream, so nothing of the replay is left out
  obtain ⟨sent, event, hchannel, hend⟩ := hended
  have hreplay := hfollows.prefix_replay
  rw [hchannel] at hreplay ⊢
  exact eq_takeThrough_of_prefix hreplay hend

/-- One event, an entry without a payload and one with a payload that is no message. -/
def sampleStream : AppendLog StreamID Values where
  entries := [(toLex (1, 0), some "hello"), (toLex (1, 1), none), (toLex (2, 0), some "?")]
  sorted := by decide
  pos := by decide

def sampleUnmarshal : String → Option StreamMessage
  | "hello" => some ⟨"chunk", "Hello"⟩
  | "end" => some ⟨"completed", ""⟩
  | _ => none

def sampleEvents : List Event :=
  [.timeout, .read 1, .next, .send, .next, .append (toLex (3, 0)) (some "end"), .receive,
    .read 100, .next, .next, .next, .append (toLex (4, 0)) (some "hello"), .send]

theorem subscribe_replays_sample :
    ∃ t, Run (Fires (step sampleUnmarshal)) (start sampleStream) sampleEvents t ∧
      t.channel = [⟨"chunk", "Hello"⟩, ⟨"completed", ""⟩] ∧
      t.channel = replay sampleUnmarshal t.stream ∧ Ended t.channel := by
  obtain ⟨t, hrun, hclosed, hchannel⟩ := Run.exists_of_foldlM (step sampleUnmarshal)
    (start sampleStream) sampleEvents
    (fun t => t.reader = .closed ∧ t.channel = [⟨"chunk", "Hello"⟩, ⟨"completed", ""⟩])
    (by decide +kernel)
  exact ⟨t, hrun, hchannel, (subscribe_replays hrun).2 (by decide) hclosed⟩

end InferenceQueue.Subscription

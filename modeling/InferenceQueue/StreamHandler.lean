import InferenceQueue.StreamPayload

namespace InferenceQueue.StreamHandler

open EventStream InferenceQueue.Stream Subscription

structure State where
  subscription : Subscription.State
  returned : Bool
  /-- what the client has received -/
  wire : Text

/-- The ticker, the channel and the context race in one `select`, and every write may fail after
some of its characters. -/
inductive Event
  /-- the goroutine moves, the stream grows or the context of the request is canceled -/
  | subscription (e : Subscription.Event)
  /-- `failed` tells how much was written before an error -/
  | heartbeat (failed : Option ℕ)
  | event (failed : Option ℕ)
  /-- the channel is closed and empty -/
  | closed
  | done

def start (stream : AppendLog StreamID Values) : State := ⟨Subscription.start stream, false, []⟩

def State.write (s : State) (signal : Signal) (returns : Bool) : Option ℕ → State
  | none => { s with wire := s.wire ++ Stream.write (handleStream [signal]), returned := returns }
  | some n =>
    { s with wire := s.wire ++ (Stream.write (handleStream [signal])).take n, returned := true }

def signalOf (m : StreamMessage) : Signal := .event m.type m.data

/-- The handler takes from the channel itself. -/
def step (s : State) : Event → Option State
  | .subscription e =>
    if e = .receive then none
    else (Subscription.step unmarshal s.subscription e).map fun subscription =>
      { s with subscription }
  | .heartbeat failed => if s.returned then none else some (s.write .tick false failed)
  | .event failed =>
    if s.returned then none
    else
      match s.subscription.channel[s.subscription.received]? with
      | some m =>
        -- nothing is written for a type the handler does not know
        if handleStream [signalOf m] = [] ∧ failed ≠ none then none
        else
          (Subscription.step unmarshal s.subscription .receive).map fun subscription =>
            ({ s with subscription }).write (signalOf m) m.isTerminal failed
      | none => none
  | .closed =>
    if s.returned = false ∧ s.subscription.reader = .closed ∧
        s.subscription.received = s.subscription.channel.length then
      some { s with returned := true }
    else none
  | .done =>
    if s.returned = false ∧ s.subscription.canceled = true then some { s with returned := true }
    else none

abbrev Step : State → Event → State → Prop := Fires step

inductive Effect (s : State) : Event → State → Prop
  | subscription {e sub} (he : e ≠ .receive)
      (hsub : Subscription.step unmarshal s.subscription e = some sub) :
      Effect s (.subscription e) { s with subscription := sub }
  | heartbeat {failed} (hopen : s.returned = false) :
      Effect s (.heartbeat failed) (s.write .tick false failed)
  | event {failed m sub} (hopen : s.returned = false)
      (hm : s.subscription.channel[s.subscription.received]? = some m)
      (hsub : Subscription.step unmarshal s.subscription .receive = some sub) :
      Effect s (.event failed)
        (State.write { s with subscription := sub } (signalOf m) m.isTerminal failed)
  | ends {e} (hopen : s.returned = false) : Effect s e { s with returned := true }

variable {s t : State} {e : Event} {tr : List Event}

theorem Step.effect (h : Step s e t) : Effect s e t := by
  cases e with
  | subscription e =>
    simp only [Step, Fires, step] at h
    split_ifs at h with he
    obtain ⟨sub, hsub, rfl⟩ := Option.map_eq_some_iff.mp h
    exact .subscription he hsub
  | heartbeat failed =>
    simp only [Step, Fires, step] at h
    split_ifs at h with hopen
    cases h
    exact .heartbeat (by simpa using hopen)
  | event failed =>
    simp only [Step, Fires, step] at h
    split_ifs at h with hopen
    split at h
    · next m hm =>
      split_ifs at h
      obtain ⟨sub, hsub, rfl⟩ := Option.map_eq_some_iff.mp h
      exact .event (by simpa using hopen) hm hsub
    · cases h
  | closed =>
    simp only [Step, Fires, step] at h
    split_ifs at h with hclosed
    cases h
    exact .ends hclosed.1
  | done =>
    simp only [Step, Fires, step] at h
    split_ifs at h with hdone
    cases h
    exact .ends hdone.1

theorem follows_step (h : Follows unmarshal s.subscription.stream s.subscription.channel
    s.subscription.reader) (he : Step s e t) :
    Follows unmarshal t.subscription.stream t.subscription.channel t.subscription.reader := by
  cases he.effect with
  | subscription _ hsub => exact step_follows hsub h
  | @event failed m sub _ _ hsub =>
    have hsub := step_follows hsub h
    cases failed <;> exact hsub
  | @heartbeat failed => cases failed <;> exact h
  | ends => exact h

def messageOf : Signal → Option StreamMessage
  | .tick => none
  | .event type data => some ⟨type, data⟩

def messages (signals : List Signal) : List StreamMessage := signals.filterMap messageOf

/-- Until it returns, the handler has written what it was given; afterwards perhaps less. -/
structure Written (s : State) (signals : List Signal) : Prop where
  wire : s.wire <+: Stream.write (handleStream signals)
  given : messages signals <+: s.subscription.channel
  received : s.subscription.received ≤ s.subscription.channel.length
  complete : s.returned = false → s.wire = Stream.write (handleStream signals) ∧
    messages signals = s.subscription.channel.take s.subscription.received ∧
    ∀ m ∈ messages signals, m.isTerminal = false

variable {signals rest : List Signal} {signal : Signal} {m : StreamMessage}

theorem handleStream_append (h : ∀ m ∈ messages signals, m.isTerminal = false) :
    handleStream (signals ++ rest) = handleStream signals ++ handleStream rest := by
  fun_induction handleStream signals with
  | case1 => rfl
  | case2 signals ih =>
    rw [List.cons_append, handleStream, ih h, List.cons_append]
  | case3 data signals ih | case4 data signals ih =>
    have htail : ∀ m ∈ messages signals, m.isTerminal = false :=
      fun m hm => h m (List.mem_cons_of_mem _ hm)
    rw [List.cons_append, handleStream, ih htail, List.cons_append]
  | case5 data signals | case6 data signals =>
    have hhead := h _ (List.mem_cons_self ..)
    cases hhead
  | case7 type data signals hchunk hretrying hcompleted hfailed ih =>
    have htail : ∀ m ∈ messages signals, m.isTerminal = false :=
      fun m hm => h m (List.mem_cons_of_mem _ hm)
    rw [List.cons_append, handleStream, ih htail]
    all_goals assumption

theorem write_append (blocks more : List Block) :
    Stream.write (blocks ++ more) = Stream.write blocks ++ Stream.write more :=
  List.flatMap_append ..

theorem channel_step {sub sub' : Subscription.State} {e : Subscription.Event}
    (h : Subscription.step unmarshal sub e = some sub') :
    sub.channel <+: sub'.channel ∧
      sub'.received = if e = .receive then sub.received + 1 else sub.received := by
  cases effect_of_step h with
  | send => exact ⟨List.prefix_append _ _, rfl⟩
  | _ => exact ⟨List.prefix_rfl, rfl⟩

theorem receive_step {sub sub' : Subscription.State}
    (h : Subscription.step unmarshal sub .receive = some sub') :
    sub.received < sub.channel.length ∧ sub' = { sub with received := sub.received + 1 } := by
  simp only [Subscription.step] at h
  split_ifs at h with hlt
  cases h
  exact ⟨hlt, rfl⟩

theorem wire_write (hwire : s.wire = Stream.write (handleStream signals))
    (hend : ∀ m ∈ messages signals, m.isTerminal = false) (returns : Bool) (failed : Option ℕ) :
    (s.write signal returns failed).wire <+: Stream.write (handleStream (signals ++ [signal])) ∧
      ((s.write signal returns failed).returned = false → returns = false ∧
        (s.write signal returns failed).wire =
          Stream.write (handleStream (signals ++ [signal]))) := by
  rw [handleStream_append hend, write_append, ← hwire]
  cases failed with
  | none => exact ⟨List.prefix_rfl, fun hreturns => ⟨hreturns, rfl⟩⟩
  | some n =>
    refine ⟨?_, by simp [State.write]⟩
    exact (List.prefix_append_right_inj _).mpr (List.take_prefix _ _)

@[simp] theorem subscription_write (s : State) (returns : Bool) (failed : Option ℕ) :
    (s.write signal returns failed).subscription = s.subscription := by
  cases failed <;> rfl

theorem messages_tick : messages (signals ++ [.tick]) = messages signals := by
  simp [messages, messageOf]

theorem messages_signalOf : messages (signals ++ [signalOf m]) = messages signals ++ [m] := by
  simp [messages, messageOf, signalOf]

namespace Written

theorem heartbeat (h : Written s signals) (hopen : s.returned = false) (failed : Option ℕ) :
    Written (s.write .tick false failed) (signals ++ [.tick]) := by
  obtain ⟨hwire, hmessages, hend⟩ := h.complete hopen
  obtain ⟨hsome, hall⟩ := @wire_write s signals .tick hwire hend false failed
  refine ⟨hsome, ?_, ?_, fun hlive => ⟨(hall hlive).2, ?_, ?_⟩⟩
  · rw [messages_tick, subscription_write]
    exact h.given
  · rw [subscription_write]
    exact h.received
  · rw [messages_tick, subscription_write]
    exact hmessages
  · rw [messages_tick]
    exact hend

theorem event {sub : Subscription.State} (h : Written s signals) (hopen : s.returned = false)
    (hm : s.subscription.channel[s.subscription.received]? = some m)
    (hsub : Subscription.step unmarshal s.subscription .receive = some sub) (failed : Option ℕ) :
    Written (State.write { s with subscription := sub } (signalOf m) m.isTerminal failed)
      (signals ++ [signalOf m]) := by
  obtain ⟨hlt, hsub'⟩ := receive_step hsub
  obtain ⟨hwire, hmessages, hend⟩ := h.complete hopen
  have htaken : messages (signals ++ [signalOf m]) =
      s.subscription.channel.take (s.subscription.received + 1) := by
    rw [messages_signalOf, hmessages, List.take_add_one, hm]
    rfl
  obtain ⟨hsome, hall⟩ := @wire_write { s with subscription := sub } signals (signalOf m) hwire
    hend m.isTerminal failed
  refine ⟨hsome, ?_, ?_, fun hlive => ⟨(hall hlive).2, ?_, ?_⟩⟩
  · rw [htaken, subscription_write, hsub']
    exact List.take_prefix _ _
  · rw [subscription_write, hsub']
    exact hlt
  · rw [subscription_write, hsub']
    exact htaken
  · rw [messages_signalOf]
    intro m' hm'
    rcases List.mem_append.mp hm' with hm' | hm'
    · exact hend m' hm'
    · rw [List.mem_singleton.mp hm']
      exact (hall hlive).1

theorem subscription {sub : Subscription.State} {e : Subscription.Event} (h : Written s signals)
    (he : e ≠ .receive) (hsub : Subscription.step unmarshal s.subscription e = some sub) :
    Written { s with subscription := sub } signals := by
  obtain ⟨hchannel, hreceived⟩ := channel_step hsub
  rw [if_neg he] at hreceived
  refine ⟨h.wire, h.given.trans hchannel, ?_, fun hopen => ?_⟩
  · show sub.received ≤ sub.channel.length
    rw [hreceived]
    exact h.received.trans hchannel.length_le
  · obtain ⟨hwire, hmessages, hend⟩ := h.complete hopen
    refine ⟨hwire, ?_, hend⟩
    show messages signals = sub.channel.take sub.received
    obtain ⟨more, hmore⟩ := hchannel
    rw [hmessages, hreceived, ← hmore, List.take_append_of_le_length h.received]

theorem step (h : Written s signals) (he : Step s e t) : ∃ signals', Written t signals' := by
  cases he.effect with
  | subscription hne hsub => exact ⟨signals, h.subscription hne hsub⟩
  | heartbeat hopen => exact ⟨_, h.heartbeat hopen _⟩
  | event hopen hm hsub => exact ⟨_, h.event hopen hm hsub _⟩
  | ends => exact ⟨signals, h.wire, h.given, h.received, nofun⟩

theorem start (stream : AppendLog StreamID Values) :
    Written (StreamHandler.start stream) [] where
  wire := List.prefix_rfl
  given := List.nil_prefix
  received := Nat.le_refl _
  complete _ := ⟨rfl, rfl, by simp [messages]⟩

end Written

def toMessage (e : StreamEvent) : StreamMessage := ⟨e.type.text, e.data⟩

def payload (e : StreamEvent) : Values := some (toMessage e).marshal

def isTerminal (e : StreamEvent) : Bool := (toMessage e).isTerminal

theorem text_injective : Function.Injective EventType.text := by
  intro a b h
  cases a <;> cases b <;> simp_all [EventType.text]

theorem toMessage_injective : Function.Injective toMessage := by
  intro a b h
  have htype : a.type.text = b.type.text := congrArg StreamMessage.type h
  have hdata : a.data = b.data := congrArg StreamMessage.data h
  obtain ⟨type, data⟩ := a
  obtain rfl : data = b.data := hdata
  obtain rfl : type = b.type := text_injective htype
  rfl

theorem eq_of_messages_cons {es : List StreamEvent} {e : StreamEvent} {ms : List StreamMessage}
    (h : toMessage e :: ms = es.map toMessage) :
    ∃ es', es = e :: es' ∧ ms = es'.map toMessage := by
  cases es with
  | nil => cases h
  | cons e' es' =>
    obtain ⟨he, hms⟩ := List.cons.inj h
    obtain rfl : e = e' := toMessage_injective he
    exact ⟨es', rfl, hms⟩

/-- The handler writes the events it is given up to the first one that ends the stream. -/
theorem events_handleStream {es : List StreamEvent} (h : messages signals = es.map toMessage) :
    (handleStream signals).filterMap Block.event? = takeThrough isTerminal es := by
  fun_induction handleStream signals generalizing es with
  | case1 =>
    obtain rfl : es = [] := List.map_eq_nil_iff.mp h.symm
    rfl
  | case2 signals ih => exact ih h
  | case3 data signals ih =>
    obtain ⟨es, rfl, hrest⟩ := @eq_of_messages_cons es ⟨.chunk, data⟩ _ h
    exact congrArg _ (ih hrest)
  | case4 data signals ih =>
    obtain ⟨es, rfl, hrest⟩ := @eq_of_messages_cons es ⟨.retrying, data⟩ _ h
    exact congrArg _ (ih hrest)
  | case5 data signals =>
    obtain ⟨es, rfl, -⟩ := @eq_of_messages_cons es ⟨.completed, data⟩ _ h
    rfl
  | case6 data signals =>
    obtain ⟨es, rfl, -⟩ := @eq_of_messages_cons es ⟨.failed, data⟩ _ h
    rfl
  | case7 type data signals hchunk hretrying hcompleted hfailed ih =>
    -- the publisher knows four types only
    cases es with
    | nil => cases h
    | cons e es =>
      have htype : type = e.type.text := congrArg StreamMessage.type (List.cons.inj h).1
      cases he : e.type <;> simp_all [EventType.text]

variable {stream : AppendLog StreamID Values} {events : List StreamEvent}

theorem decode_payload (e : StreamEvent) :
    Subscription.decode unmarshal (payload e) = some (toMessage e) := by
  rw [payload, Subscription.decode, Option.bind_some, unmarshal_marshal]

theorem replay_payload (h : stream.entries.map Prod.snd = events.map payload) :
    replay unmarshal stream = (takeThrough isTerminal events).map toMessage := by
  have hall : decodable unmarshal stream.entries =
      (stream.entries.map Prod.snd).filterMap (Subscription.decode unmarshal) := by
    rw [decodable, List.filterMap_map]
    rfl
  have hone : Subscription.decode unmarshal ∘ payload = some ∘ toMessage := by
    funext e
    rw [Function.comp_apply, Function.comp_apply, decode_payload]
  have hmessages : decodable unmarshal stream.entries = events.map toMessage := by
    rw [hall, h, List.filterMap_map, hone, List.filterMap_eq_map]
  rw [replay, hmessages]
  exact takeThrough_map (fun _ => rfl) events

structure Received (s : State) (events got : List StreamEvent) : Prop where
  decoded : EventStream.decode s.wire = got.map StreamEvent.message
  inOrder : got <+: takeThrough isTerminal events
  /-- who has got the end has got everything before it -/
  ended : (∃ e ∈ got, isTerminal e = true) → got = takeThrough isTerminal events

theorem map_of_prefix_map {α β : Type*} {f : α → β} {l : List β} {m : List α}
    (h : l <+: m.map f) : ∃ m', m' <+: m ∧ l = m'.map f := by
  refine ⟨m.take l.length, List.take_prefix _ _, ?_⟩
  rw [List.map_take]
  exact List.prefix_iff_eq_take.mp h

theorem eq_of_terminal_mem {got : List StreamEvent} (h : got <+: takeThrough isTerminal events)
    {e : StreamEvent} (he : e ∈ got) (hend : isTerminal e = true) :
    got = takeThrough isTerminal events := by
  obtain ⟨before, after, rfl⟩ := List.append_of_mem he
  have hl : before ++ [e] <+: before ++ e :: after := ⟨after, by simp⟩
  have hall := eq_takeThrough_of_prefix (hl.trans h) hend
  apply h.eq_of_length_le
  rw [← hall]
  simp

theorem Written.decoded (h : Written s signals) {es : List StreamEvent}
    (hes : messages signals = es.map toMessage) (hcr : ∀ e ∈ es, '\r' ∉ e.data.toList) :
    EventStream.decode s.wire <+: (takeThrough isTerminal es).map StreamEvent.message := by
  have hevents := events_handleStream hes
  have hall : EventStream.decode (Stream.write (handleStream signals)) =
      (takeThrough isTerminal es).map StreamEvent.message := by
    rw [decode_write, hevents]
    intro e he
    rw [hevents] at he
    exact hcr e (List.IsPrefix.subset takeThrough_prefix he)
  rw [← hall]
  exact decode_prefix h.wire

theorem written_of_run {tr : List Event} (h : Run Step (start stream) tr s) :
    Follows unmarshal s.subscription.stream s.subscription.channel s.subscription.reader ∧
      ∃ signals, Written s signals := by
  refine h.history (fun _ s => Follows unmarshal s.subscription.stream s.subscription.channel
    s.subscription.reader ∧ ∃ signals, Written s signals) ?_ ?_
  · exact ⟨Follows.start stream, [], Written.start stream⟩
  · rintro _ s e t ⟨hfollows, signals, hwritten⟩ he
    exact ⟨follows_step hfollows he, hwritten.step he⟩

theorem Received.of_written (hfollows : Follows unmarshal s.subscription.stream
    s.subscription.channel s.subscription.reader) (hwritten : Written s signals)
    (hentries : s.subscription.stream.entries.map Prod.snd = events.map payload)
    (hcr : ∀ e ∈ events, '\r' ∉ e.data.toList) : ∃ got, Received s events got := by
  have hgiven := hwritten.given.trans hfollows.prefix_replay
  rw [replay_payload hentries] at hgiven
  obtain ⟨es, hes, hmessages⟩ := map_of_prefix_map hgiven
  have hsub : es <+: events := hes.trans takeThrough_prefix
  obtain ⟨got, hgot, hdecoded⟩ :=
    map_of_prefix_map (hwritten.decoded hmessages fun e he => hcr e (hsub.subset he))
  have horder := hgot.trans (takeThrough_mono hsub)
  exact ⟨got, hdecoded, horder, fun ⟨e, he, hend⟩ => eq_of_terminal_mem horder he hend⟩

/-- However the publisher, the goroutine of the subscription, the ticker and the client interleave,
and wherever the connection breaks off: the client has got the published events from the first one
on, in order and none left out, and all of them once it has got the one that ends the stream. -/
theorem client_reads_stream {tr : List Event} (h : Run Step (start stream) tr s)
    (hentries : s.subscription.stream.entries.map Prod.snd = events.map payload)
    (hcr : ∀ e ∈ events, '\r' ∉ e.data.toList) : ∃ got, Received s events got := by
  obtain ⟨hfollows, signals, hwritten⟩ := written_of_run h
  exact Received.of_written hfollows hwritten hentries hcr

/-- Two texts with characters that are special in JSON, in HTML and in the event stream. -/
def twoTexts : List StreamEvent := [⟨.chunk, "a\"\\<b>\n\ndata: "⟩, ⟨.completed, ""⟩]

def emptyStream : AppendLog StreamID Values := ⟨[], by simp, by simp⟩

/-- The second event is appended while the first is on its way. -/
def twoTextsRead : List Event :=
  [.heartbeat none,
   .subscription (.append (toLex (1, 0)) (payload ⟨.chunk, "a\"\\<b>\n\ndata: "⟩)),
   .subscription .timeout, .subscription (.read 100), .subscription .next, .subscription .send,
   .subscription (.append (toLex (2, 0)) (payload ⟨.completed, ""⟩)), .event none, .heartbeat none,
   .subscription .next, .subscription (.read 1), .subscription .next, .subscription .send,
   .event none]

theorem client_reads_two_texts :
    ∃ s got, Run Step (start emptyStream) twoTextsRead s ∧ s.returned = true ∧
      Received s twoTexts got := by
  obtain ⟨s, hrun, hreturned, hentries⟩ := Run.exists_of_foldlM step (start emptyStream)
    twoTextsRead (fun s => s.returned = true ∧
      s.subscription.stream.entries.map Prod.snd = twoTexts.map payload) (by decide +kernel)
  obtain ⟨got, hgot⟩ := client_reads_stream hrun hentries (by decide)
  exact ⟨s, got, hrun, hreturned, hgot⟩

end InferenceQueue.StreamHandler

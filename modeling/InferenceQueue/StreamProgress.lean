import InferenceQueue.StreamHandler

namespace InferenceQueue.StreamHandler

open EventStream InferenceQueue.Stream Subscription

variable {s t : State} {signals : List Signal} {stream : AppendLog StreamID Values}
  {events : List StreamEvent}

/-- Steps by which the two move on, without failures and without anything new. -/
def Event.onward : Event → Bool
  | .subscription (.read _) | .subscription .next | .subscription .send | .event none => true
  | _ => false

def readerLeft (stream : AppendLog StreamID Values) : Reader → ℕ
  | .reading lastID => 8 * (stream.after lastID).length + 2
  | .handling lastID [] => 8 * (stream.after lastID).length + 3
  | .handling lastID (_ :: _) => 8 * (stream.after lastID).length + 1
  | .sending _ lastID _ => 8 * (stream.after lastID).length + 6
  | .closed => 0

def State.left (s : State) : ℕ :=
  readerLeft s.subscription.stream s.subscription.reader +
    (s.subscription.channel.length - s.subscription.received)

theorem readerLeft_handling_le (stream : AppendLog StreamID Values) (lastID : StreamID)
    (messages : List Entry) :
    readerLeft stream (.handling lastID messages) ≤ 8 * (stream.after lastID).length + 3 := by
  cases messages <;> simp [readerLeft]

/-- The goroutine has sent the end of the stream, if it has returned. -/
def Sent (s : State) : Prop := s.subscription.reader = .closed → Ended s.subscription.channel

/-- All of the stream has been handed on and written. -/
def Complete (s : State) : Prop :=
  ∃ signals, s.wire = Stream.write (handleStream signals) ∧
    messages signals = replay unmarshal s.subscription.stream

theorem decode_of_complete (h : Complete s)
    (hentries : s.subscription.stream.entries.map Prod.snd = events.map payload)
    (hcr : ∀ e ∈ events, '\r' ∉ e.data.toList) :
    EventStream.decode s.wire = (takeThrough isTerminal events).map StreamEvent.message := by
  obtain ⟨signals, hwire, hmessages⟩ := h
  rw [replay_payload hentries] at hmessages
  have hevents := events_handleStream hmessages
  have hstop : takeThrough isTerminal (takeThrough isTerminal events) =
      takeThrough isTerminal events := takeThrough_takeThrough
  rw [hstop] at hevents
  rw [hwire, decode_write, hevents]
  intro e he
  rw [hevents] at he
  exact hcr e (List.IsPrefix.subset takeThrough_prefix he)

theorem after_of_handling {channel : List StreamMessage} {lastID : StreamID} {e : Entry}
    {messages : List Entry}
    (h : Follows unmarshal stream channel (.handling lastID (e :: messages))) :
    (stream.after lastID).length = (stream.after e.1).length + 1 := by
  -- the entry in hand is behind the cursor afterwards
  cases h with
  | handling hsplit =>
    rw [hsplit.after_eq, hsplit.advance.after_eq]
    rfl

theorem goroutine_advances {sub : Subscription.State}
    (hfollows : Follows unmarshal sub.stream sub.channel sub.reader)
    (hempty : sub.received = sub.channel.length)
    (hmore : ∀ lastID, sub.reader = .reading lastID → sub.stream.after lastID ≠ [])
    (hopen : sub.reader ≠ .closed) :
    ∃ e sub', Event.onward (.subscription e) = true ∧
      Subscription.step unmarshal sub e = some sub' ∧
      sub'.stream = sub.stream ∧ sub'.received = sub.received ∧
      readerLeft sub'.stream sub'.reader + (sub'.channel.length - sub'.received) <
        readerLeft sub.stream sub.reader ∧
      (sub'.reader = .closed → Ended sub'.channel) := by
  cases hreader : sub.reader with
  | closed => exact absurd hreader hopen
  | reading lastID =>
    have hafter := hmore lastID hreader
    refine ⟨.read 100, { sub with reader := .handling lastID ((sub.stream.after lastID).take 100) },
      rfl, by simp [Subscription.step, hreader, hafter], rfl, rfl, ?_, by simp⟩
    obtain ⟨e, rest, hcons⟩ := List.exists_cons_of_ne_nil hafter
    simp [readerLeft, hcons, hempty]
  | handling lastID messages =>
    cases messages with
    | nil =>
      refine ⟨.next, { sub with reader := .reading lastID }, rfl,
        by simp [Subscription.step, hreader], rfl, rfl, ?_, by simp⟩
      simp [readerLeft, hempty]
    | cons e messages =>
      rw [hreader] at hfollows
      refine ⟨.next, { sub with reader := handle unmarshal e messages }, rfl,
        by simp [Subscription.step, hreader], rfl, rfl, ?_, fun h => absurd h handle_ne_closed⟩
      have hafter := after_of_handling hfollows
      have hgap : sub.channel.length - sub.received = 0 := by omega
      have hless : readerLeft sub.stream (handle unmarshal e messages) ≤
          8 * (sub.stream.after e.1).length + 6 := by
        unfold handle
        split
        · have := readerLeft_handling_le sub.stream e.1 messages
          omega
        · exact Nat.le_refl _
      show readerLeft sub.stream (handle unmarshal e messages) +
        (sub.channel.length - sub.received) < 8 * (sub.stream.after lastID).length + 1
      omega
  | sending event lastID messages =>
    have hroom : sub.channel.length - sub.received < 100 := by omega
    refine ⟨.send, { sub with
        channel := sub.channel ++ [event]
        reader := if event.isTerminal then .closed else .handling lastID messages },
      rfl, by simp [Subscription.step, hreader, hroom], rfl, rfl, ?_, ?_⟩
    · have hle := readerLeft_handling_le sub.stream lastID messages
      have hgap : (sub.channel ++ [event]).length - sub.received = 1 := by
        rw [List.length_append, List.length_singleton]
        omega
      show readerLeft sub.stream (if event.isTerminal then .closed else .handling lastID messages) +
        ((sub.channel ++ [event]).length - sub.received) <
          8 * (sub.stream.after lastID).length + 6
      rw [hgap]
      split_ifs
      · simp [readerLeft]
      · omega
    · intro hclosed
      refine ⟨sub.channel, event, rfl, ?_⟩
      by_contra hend
      simp [hend] at hclosed

inductive Outcome (s t : State) : Prop
  | finished (h : Complete t)
  | advanced (hopen : t.returned = false) (hsent : Sent t) (hleft : t.left < s.left)

theorem event_advances (hwritten : Written s signals) (hsent : Sent s) (hopen : s.returned = false)
    (hfollows : Follows unmarshal s.subscription.stream s.subscription.channel
      s.subscription.reader)
    (hsome : s.subscription.received < s.subscription.channel.length) :
    ∃ t, Step s (.event none) t ∧ t.subscription.stream = s.subscription.stream ∧ Outcome s t := by
  obtain ⟨m, hm⟩ : ∃ m, s.subscription.channel[s.subscription.received]? = some m :=
    ⟨_, List.getElem?_eq_getElem hsome⟩
  let sub := { s.subscription with received := s.subscription.received + 1 }
  have hsub : Subscription.step unmarshal s.subscription .receive = some sub := if_pos hsome
  refine ⟨State.write { s with subscription := sub } (signalOf m) m.isTerminal none, ?_, rfl, ?_⟩
  · simp [Step, Fires, step, hopen, hm, hsub]
  · obtain ⟨hwire, hmessages, hend⟩ := hwritten.complete hopen
    cases hterminal : m.isTerminal with
    | false =>
      refine .advanced rfl hsent ?_
      have hgap : s.subscription.channel.length - (s.subscription.received + 1) <
          s.subscription.channel.length - s.subscription.received := by omega
      exact Nat.add_lt_add_left hgap _
    | true =>
      refine .finished ⟨signals ++ [signalOf m], ?_, ?_⟩
      · rw [handleStream_append hend, write_append, ← hwire]
        rfl
      · have hgiven := (hwritten.event hopen hm hsub none).given.trans hfollows.prefix_replay
        rw [messages_signalOf] at hgiven ⊢
        exact eq_takeThrough_of_prefix hgiven hterminal

theorem complete_of_idle (hwritten : Written s signals) (hsent : Sent s)
    (hopen : s.returned = false)
    (hfollows : Follows unmarshal s.subscription.stream s.subscription.channel
      s.subscription.reader)
    (hempty : s.subscription.received = s.subscription.channel.length)
    (hidle : s.subscription.reader = .closed ∨
      ∃ lastID, s.subscription.reader = .reading lastID ∧
        s.subscription.stream.after lastID = []) : Complete s := by
  -- where nothing is left to do, everything has been written
  obtain ⟨hwire, hmessages, hend⟩ := hwritten.complete hopen
  rw [hempty, List.take_length] at hmessages
  refine ⟨signals, hwire, ?_⟩
  rcases hidle with hclosed | ⟨lastID, hreading, hafter⟩
  · -- the handler would have returned with the last event
    obtain ⟨before, m, hchannel, hterminal⟩ := hsent hclosed
    have hopen' := hend m (by rw [hmessages, hchannel]; simp)
    rw [hterminal] at hopen'
    cases hopen'
  · rw [hreading] at hfollows
    cases hfollows with
    | @reading _ seen rest hsplit hcaught =>
      have hrest : rest = [] := hsplit.after_eq.symm.trans hafter
      have hentries : s.subscription.stream.entries = seen := by
        rw [hsplit.entries, hrest, List.append_nil]
      have hall := @takeThrough_append _ _ _ [] hcaught.goesOn
      rw [List.append_nil] at hall
      rw [hmessages, replay, hentries, hall, hcaught.channel, takeThrough, List.append_nil]

/-- The handler is in its loop and the goroutine has not given up. -/
structure Going (s : State) : Prop where
  open_ : s.returned = false
  sent : Sent s
  follows : Follows unmarshal s.subscription.stream s.subscription.channel s.subscription.reader
  written : ∃ signals, Written s signals

/-- One step nearer, unless all is written. -/
theorem Going.advance (h : Going s) :
    Complete s ∨ ∃ e t, e.onward = true ∧ Step s e t ∧
      t.subscription.stream = s.subscription.stream ∧ Outcome s t := by
  obtain ⟨signals, hwritten⟩ := h.written
  by_cases hsome : s.subscription.received < s.subscription.channel.length
  · obtain ⟨t, hstep, hstream, hout⟩ :=
      event_advances hwritten h.sent h.open_ h.follows hsome
    exact Or.inr ⟨_, t, rfl, hstep, hstream, hout⟩
  have hempty : s.subscription.received = s.subscription.channel.length :=
    Nat.le_antisymm hwritten.received (Nat.le_of_not_lt hsome)
  by_cases hidle : s.subscription.reader = .closed ∨ ∃ lastID,
      s.subscription.reader = .reading lastID ∧ s.subscription.stream.after lastID = []
  · exact Or.inl (complete_of_idle hwritten h.sent h.open_ h.follows hempty hidle)
  · rw [not_or, not_exists] at hidle
    obtain ⟨e, sub, honward, hsub, hstream, hreceived, hleft, hclosed⟩ :=
      goroutine_advances h.follows hempty (fun lastID hr ha => hidle.2 lastID ⟨hr, ha⟩) hidle.1
    have hne : e ≠ .receive := by
      rintro rfl
      cases honward
    refine Or.inr ⟨_, { s with subscription := sub }, honward, ?_, hstream,
      .advanced h.open_ hclosed ?_⟩
    · simp [Step, Fires, step, hne, hsub]
    · exact Nat.lt_of_lt_of_le hleft (Nat.le_add_right _ _)

theorem Going.completes (h : Going s) :
    ∃ tr t, Run Step s tr t ∧ (∀ e ∈ tr, e.onward = true) ∧
      t.subscription.stream = s.subscription.stream ∧ Complete t := by
  -- by what the two have left to do
  generalize hleft : s.left = n
  induction n using Nat.strong_induction_on generalizing s with
  | _ n ih =>
    rcases h.advance with hcomplete | ⟨e, t, honward, hstep, hstream, hout⟩
    · exact ⟨[], s, .nil, by simp, rfl, hcomplete⟩
    · cases hout with
      | finished hcomplete =>
        exact ⟨[e], t, Run.single hstep, by simpa using honward, hstream, hcomplete⟩
      | advanced hopen hsent hless =>
        obtain ⟨signals, hwritten⟩ := h.written
        have hgoing : Going t := ⟨hopen, hsent, follows_step h.follows hstep, hwritten.step hstep⟩
        obtain ⟨tr, u, hrun, hall, hstream', hcomplete⟩ := ih _ (hleft ▸ hless) hgoing rfl
        refine ⟨e :: tr, u, Run.cons_iff.mpr ⟨t, hstep, hrun⟩, ?_, hstream'.trans hstream,
          hcomplete⟩
        simpa [honward] using hall

/-- From every state a run comes to in which the handler is still in its loop and the goroutine has
not given up, the steps of the two alone can bring the client all that has been published. -/
theorem client_can_read_on {tr : List Event} (h : Run Step (start stream) tr s)
    (hopen : s.returned = false) (hsent : Sent s)
    (hentries : s.subscription.stream.entries.map Prod.snd = events.map payload)
    (hcr : ∀ e ∈ events, '\r' ∉ e.data.toList) :
    ∃ more t, Run Step s more t ∧ (∀ e ∈ more, e.onward = true) ∧
      EventStream.decode t.wire = (takeThrough isTerminal events).map StreamEvent.message := by
  obtain ⟨hfollows, hwritten⟩ := written_of_run h
  obtain ⟨more, t, hrun, honward, hstream, hcomplete⟩ :=
    Going.completes ⟨hopen, hsent, hfollows, hwritten⟩
  rw [← hstream] at hentries
  exact ⟨more, t, hrun, honward, decode_of_complete hcomplete hentries hcr⟩

/-- The client comes while nothing is there, and goes on to read two texts. -/
theorem client_can_read_two_texts :
    ∃ s more t, Run Step (start emptyStream) (twoTextsRead.take 8) s ∧ s.returned = false ∧
      Run Step s more t ∧ (∀ e ∈ more, e.onward = true) ∧
      EventStream.decode t.wire = (takeThrough isTerminal twoTexts).map StreamEvent.message := by
  obtain ⟨s, hrun, hopen, hreader, hentries⟩ := Run.exists_of_foldlM step (start emptyStream)
    (twoTextsRead.take 8) (fun s => s.returned = false ∧ s.subscription.reader ≠ .closed ∧
      s.subscription.stream.entries.map Prod.snd = twoTexts.map payload) (by decide +kernel)
  obtain ⟨more, t, hmore, honward, hdecode⟩ := client_can_read_on hrun hopen
    (fun hclosed => absurd hclosed hreader) hentries (by decide)
  exact ⟨s, more, t, hrun, hopen, hmore, honward, hdecode⟩

end InferenceQueue.StreamHandler

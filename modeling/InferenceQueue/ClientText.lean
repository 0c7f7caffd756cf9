import InferenceQueue.ServerText
import InferenceQueue.StreamHandler

namespace InferenceQueue.ClientText

open Service Delivery ModelServer ServerText StreamHandler

/-- The text a client shows: the chunks behind the last notice of a retry. -/
def shown (messages : List EventStream.Message) : String :=
  String.join ((messages.rtakeWhile (·.type ≠ "retrying".toList)).map fun m =>
    if m.type = "chunk".toList then String.ofList m.data else "")

theorem shown_message (events : List Stream.StreamEvent) :
    shown (events.map Stream.StreamEvent.message) = delivered events := by
  have hretrying : ∀ e : Stream.StreamEvent,
      decide (e.message.type ≠ "retrying".toList) = decide (e.type ≠ .retrying) := by
    rintro ⟨type, data⟩
    cases type <;> simp [Stream.StreamEvent.message, Stream.EventType.text]
  have hchunk : ∀ e : Stream.StreamEvent,
      (if e.message.type = "chunk".toList then String.ofList e.message.data else "") =
        chunkText e := by
    rintro ⟨type, data⟩
    cases type <;> simp [Stream.StreamEvent.message, Stream.EventType.text, chunkText]
  unfold shown delivered
  congr 1
  induction events using List.reverseRecOn with
  | nil => rfl
  | append_singleton events e ih =>
    rw [List.map_append, List.map_singleton, List.rtakeWhile_concat, List.rtakeWhile_concat,
      hretrying]
    split_ifs
    · rw [List.map_append, List.map_append, ih, List.map_singleton, List.map_singleton, hchunk]
    · rfl

variable {streamIdleTimeout : ℕ} {cfg : Platform.Config} {s : ServerText.State streamIdleTimeout}
  {tr : List ServerText.Event} {j : JobID} {stream : AppendLog Subscription.StreamID
    Subscription.Values} {reads : List StreamHandler.Event} {c : StreamHandler.State}
  {events got : List Stream.StreamEvent}

theorem received_completed (h : Received c events got)
    (hmem : ∃ data, ⟨"completed".toList, data⟩ ∈ EventStream.decode c.wire) :
    ∃ before event after, event.type = .completed ∧ got = before ++ [event] ∧
      events = before ++ event :: after := by
  obtain ⟨data, hmem⟩ := hmem
  rw [h.decoded] at hmem
  obtain ⟨event, hevent, hmessage⟩ := List.mem_map.mp hmem
  have htype : event.type = .completed := by
    have htext : event.type.text.toList = "completed".toList :=
      congrArg EventStream.Message.type hmessage
    cases htype : event.type <;> rw [htype] at htext <;> revert htext <;> decide
  have hend : isTerminal event = true := by
    rw [StreamHandler.isTerminal, StreamHandler.toMessage, htype]
    rfl
  obtain ⟨before, rest, hgot⟩ := List.append_of_mem hevent
  have hprefix : before ++ [event] <+: takeThrough isTerminal events :=
    List.IsPrefix.trans ⟨rest, by rw [hgot]; simp⟩ h.inOrder
  have hall := eq_takeThrough_of_prefix hprefix hend
  have hgot' : got = before ++ [event] := (h.ended ⟨event, hevent, hend⟩).trans hall.symm
  obtain ⟨after, hafter⟩ := hprefix.trans takeThrough_prefix
  exact ⟨before, event, after, htype, hgot', by rw [← hafter]; simp⟩

/-- A client that reads a job's stream up to the completed message has got the text the model server
sent to the attempt that succeeded, behind the last notice of a retry. -/
theorem client_reads_what_the_server_sent
    (h : Run (ServerText.Step cfg) (@ServerText.State.initial streamIdleTimeout) tr s)
    (hok : Throughout (ServerText.Step cfg) (@ServerText.State.initial streamIdleTimeout) tr
      (Orderly j))
    (hread : Run StreamHandler.Step (StreamHandler.start stream) reads c)
    (hentries : c.subscription.stream.entries.map Prod.snd =
      (s.audit.state.streams j).map payload)
    (hcr : ∀ e ∈ s.audit.state.streams j, '\r' ∉ e.data.toList)
    (hmem : ∃ data, ⟨"completed".toList, data⟩ ∈ EventStream.decode c.wire) :
    ∃ a : Attempt streamIdleTimeout, SucceededWith cfg tr j a ∧
      shown (EventStream.decode c.wire) = String.join (texts (received a.signals)) := by
  obtain ⟨hfollows, signals, hwritten⟩ := written_of_run hread
  obtain ⟨got, hgot⟩ := Received.of_written hfollows hwritten hentries hcr
  obtain ⟨before, event, after, htype, hall, hstream⟩ := received_completed hgot hmem
  obtain ⟨a, hsucceeded, htext, -⟩ := (Traced.run_of h hok).sent hstream htype
  refine ⟨a, hsucceeded, ?_⟩
  rw [hgot.decoded, shown_message, hall, delivered_terminal (Or.inl htype), htext]

def retriedStream : List Stream.StreamEvent :=
  [⟨.chunk, "Hel"⟩, ⟨.retrying, retryMessage 1 3⟩, ⟨.chunk, "Hello"⟩, ⟨.chunk, "!"⟩,
   ⟨.completed, ""⟩]

def readRetried : List StreamHandler.Event :=
  retriedStream.zipIdx.map (fun e =>
    .subscription (.append (toLex (e.2 + 1, 0)) (payload e.1))) ++
  .subscription (.read 100) ::
    retriedStream.flatMap fun _ => [.subscription .next, .subscription .send, .event none]

theorem client_reads_what_the_server_sent_retried :
    ∃ c, Run StreamHandler.Step (StreamHandler.start emptyStream) readRetried c ∧
      shown (EventStream.decode c.wire) = "Hello!" ∧
      ∃ a : Attempt 30000, SucceededWith Platform.smallPlatform silentFirst job1 a ∧
        shown (EventStream.decode c.wire) = String.join (texts (received a.signals)) := by
  obtain ⟨s, hrun, hstream⟩ := Run.exists_of_foldlM (ServerText.step Platform.smallPlatform)
    (@ServerText.State.initial 30000) silentFirst
    (fun s => s.audit.state.streams job1 = retriedStream) (by decide +kernel)
  obtain ⟨c, hread, hentries, hmem, hshown⟩ := Run.exists_of_foldlM StreamHandler.step
    (StreamHandler.start emptyStream) readRetried
    (fun c => c.subscription.stream.entries.map Prod.snd = retriedStream.map payload ∧
      ⟨"completed".toList, []⟩ ∈ EventStream.decode c.wire ∧
      shown (EventStream.decode c.wire) = "Hello!") (by decide +kernel)
  rw [← hstream] at hentries
  refine ⟨c, hread, hshown, client_reads_what_the_server_sent hrun
    (throughout_of_always (by decide +kernel)) hread hentries ?_ ⟨[], hmem⟩⟩
  rw [hstream]
  decide +kernel

end InferenceQueue.ClientText

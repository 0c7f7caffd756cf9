import InferenceQueue.EventStreamFormat

namespace InferenceQueue.Stream

open EventStream

inductive EventType
  | chunk
  | retrying
  | completed
  | failed
deriving DecidableEq, Repr

def EventType.text : EventType → String
  | chunk => "chunk"
  | retrying => "retrying"
  | completed => "completed"
  | failed => "failed"

structure StreamEvent where
  type : EventType
  data : String
deriving DecidableEq, Repr

/-- `strings.Split` at LF, one `data` field for each piece. -/
def writeSSEEvent (eventType : EventType) (data : String) : Text :=
  "event: ".toList ++ eventType.text.toList ++ ['\n'] ++
    (data.toList.splitOn '\n').flatMap (fun line => "data: ".toList ++ line ++ ['\n']) ++ ['\n']

/-- What the handler puts on the wire in one round of its loop. -/
inductive Block
  | heartbeat
  | event (e : StreamEvent)
deriving DecidableEq, Repr

def Block.write : Block → Text
  | heartbeat => ": heartbeat\n\n".toList
  | event e => writeSSEEvent e.type e.data

/-- What the loop of `HandleStream` waits for: its ticker or an entry of the subscription. -/
inductive Signal
  | tick
  | event (type data : String)
deriving DecidableEq, Repr

/-- An entry of another type is passed over; `completed` and `failed` end the stream. -/
def handleStream : List Signal → List Block
  | [] => []
  | .tick :: rest => .heartbeat :: handleStream rest
  | .event "chunk" data :: rest => .event ⟨.chunk, data⟩ :: handleStream rest
  | .event "retrying" data :: rest => .event ⟨.retrying, data⟩ :: handleStream rest
  | .event "completed" data :: _ => [.event ⟨.completed, data⟩]
  | .event "failed" data :: _ => [.event ⟨.failed, data⟩]
  | .event _ _ :: rest => handleStream rest

def write (blocks : List Block) : Text := blocks.flatMap Block.write

def StreamEvent.message (e : StreamEvent) : Message := ⟨e.type.text.toList, e.data.toList⟩

def Block.event? : Block → Option StreamEvent
  | heartbeat => none
  | event e => some e

def dataLines (e : StreamEvent) : List Text := e.data.toList.splitOn '\n'

def Block.lines : Block → List Text
  | heartbeat => [": heartbeat".toList, []]
  | event e => ("event: ".toList ++ e.type.text.toList) ::
      ((dataLines e).map ("data: ".toList ++ ·) ++ [[]])

theorem write_eq_unlines (b : Block) : b.write = unlines b.lines := by
  cases b with
  | heartbeat => decide +kernel
  | event e =>
    unfold Block.write Block.lines writeSSEEvent unlines dataLines
    -- which texts come first does not matter here
    generalize "event: ".toList = event, "data: ".toList = data
    simp [List.flatMap_map]

theorem text_unbroken (t : EventType) : Unbroken ("event: ".toList ++ t.text.toList) := by
  cases t <;> decide

theorem text_ne_nil (t : EventType) : t.text.toList ≠ [] := by
  cases t <;> decide

theorem not_mem_and_subset_of_mem_splitOn {α : Type*} [DecidableEq α] {a : α} {xs l : List α}
    (hl : l ∈ xs.splitOn a) : a ∉ l ∧ l ⊆ xs := by
  induction xs generalizing l with
  | nil => simp_all
  | cons x xs ih =>
    rw [List.splitOn, List.splitOnP_cons_eq_if_modifyHead] at hl
    split at hl
    · obtain rfl | hl := List.mem_cons.mp hl
      · simp
      · exact (ih hl).imp_right fun h => List.Subset.trans h (List.subset_cons_self _ _)
    · next hx =>
      -- the head piece is the one that grows by `x`
      cases hs : xs.splitOnP (· == a) with
      | nil => exact absurd hs (List.splitOn_ne_nil a xs)
      | cons p ps =>
        rw [hs, List.modifyHead_cons] at hl
        obtain rfl | hl := List.mem_cons.mp hl
        · obtain ⟨hp, hsub⟩ := ih (show p ∈ xs.splitOn a by rw [List.splitOn, hs]; simp)
          refine ⟨?_, List.cons_subset_cons _ hsub⟩
          simp only [List.mem_cons, not_or]
          exact ⟨fun h => hx (by simp [h]), hp⟩
        · have hl' := ih (show l ∈ xs.splitOn a by rw [List.splitOn, hs]; simp [hl])
          exact hl'.imp_right fun h => List.Subset.trans h (List.subset_cons_self _ _)

theorem lines_unbroken {b : Block} (h : ∀ e, b.event? = some e → '\r' ∉ e.data.toList) :
    ∀ l ∈ b.lines, Unbroken l := by
  cases b with
  | heartbeat => decide
  | event e =>
    intro l hl
    simp only [Block.lines, List.mem_cons, List.mem_append, List.mem_map, List.not_mem_nil,
      or_false] at hl
    obtain rfl | ⟨d, hd, rfl⟩ | rfl := hl
    · exact text_unbroken e.type
    · obtain ⟨hlf, hsub⟩ := not_mem_and_subset_of_mem_splitOn hd
      exact unbroken_append.mpr ⟨by decide, fun hcr => h e rfl (hsub hcr), hlf⟩
    · decide

theorem messages_lines (b : Block) (ls : List Text) :
    messages .empty (b.lines ++ ls) =
      (b.event?.map StreamEvent.message).toList ++ messages .empty ls := by
  cases b with
  | heartbeat =>
    rw [Block.lines, List.cons_append, show ": heartbeat".toList = ':' :: " heartbeat".toList from
      rfl, messages_comment, List.cons_append, List.nil_append, messages_blank]
    rfl
  | event e =>
    have hne : dataLines e ≠ [] := List.splitOn_ne_nil '\n' e.data.toList
    have hdata : ['\n'].intercalate (dataLines e) = e.data.toList :=
      List.intercalate_splitOn '\n'
    rw [Block.lines, List.cons_append, List.append_assoc, List.cons_append, List.nil_append,
      messages_event (text_ne_nil e.type) hne, hdata]
    rfl

theorem decode_write {blocks : List Block}
    (h : ∀ e ∈ blocks.filterMap Block.event?, '\r' ∉ e.data.toList) :
    decode (write blocks) = (blocks.filterMap Block.event?).map StreamEvent.message := by
  induction blocks with
  | nil => rfl
  | cons b blocks ih =>
    have hb : ∀ l ∈ b.lines, Unbroken l :=
      lines_unbroken fun e he => h e (List.mem_filterMap.mpr ⟨b, by simp, he⟩)
    have hrest := ih fun e he => h e (by
      obtain ⟨b', hb', he'⟩ := List.mem_filterMap.mp he
      exact List.mem_filterMap.mpr ⟨b', by simp [hb'], he'⟩)
    have hcons : write (b :: blocks) = unlines b.lines ++ write blocks := by
      simp [write, write_eq_unlines]
    rw [decode, hcons, lines_unlines hb, messages_lines,
      show messages .empty (lines (write blocks)) = decode (write blocks) from rfl, hrest]
    cases hev : b.event? <;> simp [hev]

def forgedCompletion : List Block := [.event ⟨.chunk, "x\r\revent: completed\rdata: "⟩]

/-- A chunk of model output that a client reads as a chunk followed by a completion. -/
theorem carriage_return_forges_event :
    decode (write forgedCompletion) =
        [⟨"chunk".toList, "x".toList⟩, ⟨"completed".toList, "".toList⟩] ∧
      decode (write forgedCompletion) ≠
        (forgedCompletion.filterMap Block.event?).map StreamEvent.message := by
  decide +kernel

/-- A client gets back the events that were written, with heartbeats anywhere between them, exactly
when no text contains a carriage return. -/
theorem decode_write_eq_iff_no_carriage_return (blocks : List Block) :
    decode (write blocks) = (blocks.filterMap Block.event?).map StreamEvent.message ↔
      ∀ e ∈ blocks.filterMap Block.event?, '\r' ∉ e.data.toList := by
  constructor
  · intro h e he
    exact no_cr_of_mem_decode (m := e.message) (h ▸ List.mem_map_of_mem he)
  · exact decode_write

end InferenceQueue.Stream

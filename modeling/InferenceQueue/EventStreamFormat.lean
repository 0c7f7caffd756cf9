import Mathlib.Data.List.Basic

namespace InferenceQueue.EventStream

abbrev Text := List Char

structure Message where
  type : Text
  data : Text
deriving DecidableEq, Repr

/-- The lines of a stream, the first one continuing `line`. A line ends at CR LF, LF or CR; what
follows the last terminator is not a line. -/
def linesFrom (line : Text) : Text → List Text
  | [] => []
  | '\r' :: '\n' :: cs => line :: linesFrom [] cs
  | '\r' :: cs => line :: linesFrom [] cs
  | '\n' :: cs => line :: linesFrom [] cs
  | c :: cs => linesFrom (line ++ [c]) cs

def lines (cs : Text) : List Text := linesFrom [] cs

def dropSpace : Text → Text
  | ' ' :: value => value
  | value => value

def field (line : Text) : Text × Text :=
  match line.dropWhile (· ≠ ':') with
  | [] => (line, [])
  | _ :: value => (line.takeWhile (· ≠ ':'), dropSpace value)

structure Buffers where
  type : Text
  data : Text
deriving DecidableEq, Repr

namespace Buffers

def empty : Buffers := ⟨[], []⟩

/-- A line that starts with a colon is a comment. The fields `id` and `retry` touch neither
buffer. -/
def read (b : Buffers) (line : Text) : Buffers :=
  if line.head? = some ':' then b
  else if (field line).1 = "event".toList then { b with type := (field line).2 }
  else if (field line).1 = "data".toList then { b with data := b.data ++ (field line).2 ++ ['\n'] }
  else b

def dispatch (b : Buffers) : Option Message :=
  if b.data = [] then none
  else some ⟨if b.type = [] then "message".toList else b.type, b.data.dropLast⟩

end Buffers

def messages (b : Buffers) : List Text → List Message
  | [] => []
  | [] :: ls => b.dispatch.toList ++ messages .empty ls
  | line :: ls => messages (b.read line) ls

def decode (cs : Text) : List Message := messages .empty (lines cs)

def Unbroken (line : Text) : Prop := '\r' ∉ line ∧ '\n' ∉ line

instance (line : Text) : Decidable (Unbroken line) := inferInstanceAs (Decidable (_ ∧ _))

theorem unbroken_append {a b : Text} : Unbroken (a ++ b) ↔ Unbroken a ∧ Unbroken b := by
  simp only [Unbroken, List.mem_append, not_or]
  tauto

def unlines (ls : List Text) : Text := ls.flatMap (· ++ ['\n'])

theorem linesFrom_cons {c : Char} (hr : c ≠ '\r') (hn : c ≠ '\n') (line cs : Text) :
    linesFrom line (c :: cs) = linesFrom (line ++ [c]) cs := by
  rw [linesFrom] <;> simp [hr, hn]

theorem linesFrom_append (line : Text) {l : Text} (hl : Unbroken l) (cs : Text) :
    linesFrom line (l ++ '\n' :: cs) = (line ++ l) :: lines cs := by
  induction l generalizing line with
  | nil => simp [linesFrom, lines]
  | cons c l ih =>
    obtain ⟨hc, hl⟩ := unbroken_append.mp (show Unbroken ([c] ++ l) from hl)
    have hr : c ≠ '\r' := fun h => hc.1 (by simp [h])
    have hn : c ≠ '\n' := fun h => hc.2 (by simp [h])
    rw [List.cons_append, linesFrom_cons hr hn, ih _ hl]
    simp

theorem lines_unlines {ls : List Text} (hls : ∀ l ∈ ls, Unbroken l) (cs : Text) :
    lines (unlines ls ++ cs) = ls ++ lines cs := by
  induction ls with
  | nil => rfl
  | cons l ls ih =>
    have hl : lines (l ++ '\n' :: (unlines ls ++ cs)) = l :: lines (unlines ls ++ cs) := by
      simpa [lines] using linesFrom_append [] (hls l (by simp)) (unlines ls ++ cs)
    rw [show unlines (l :: ls) ++ cs = l ++ '\n' :: (unlines ls ++ cs) by simp [unlines], hl,
      ih fun l' h => hls l' (by simp [h])]
    rfl

theorem no_cr_of_mem_linesFrom {line cs l : Text} (hline : '\r' ∉ line)
    (hl : l ∈ linesFrom line cs) : '\r' ∉ l := by
  fun_induction linesFrom line cs with
  | case1 => simp at hl
  | case2 line cs ih | case3 line cs _ ih | case4 line cs ih =>
    obtain rfl | hl := List.mem_cons.mp hl
    · exact hline
    · exact ih (by simp) hl
  | case5 line c cs hcrlf hcr hlf ih =>
    refine ih ?_ hl
    simp only [List.mem_append, List.mem_singleton, not_or]
    exact ⟨hline, fun h => hcr h.symm⟩

theorem messages_cons (b : Buffers) {line : Text} (h : line ≠ []) (ls : List Text) :
    messages b (line :: ls) = messages (b.read line) ls := by
  cases line with
  | nil => exact absurd rfl h
  | cons c line => rfl

theorem mem_of_mem_field {line : Text} {c : Char} (h : c ∈ (field line).2) : c ∈ line := by
  unfold field at h
  split at h
  · simp at h
  · next value heq =>
    have hvalue : c ∈ value := by
      unfold dropSpace at h
      split at h
      · exact List.mem_cons_of_mem _ h
      · exact h
    exact (List.dropWhile_suffix _).subset (heq ▸ List.mem_cons_of_mem _ hvalue)

theorem no_cr_of_mem_messages {b : Buffers} {ls : List Text} {m : Message} (hb : '\r' ∉ b.data)
    (hls : ∀ l ∈ ls, '\r' ∉ l) (hm : m ∈ messages b ls) : '\r' ∉ m.data := by
  fun_induction messages b ls with
  | case1 => simp at hm
  | case2 b ls ih =>
    rw [List.mem_append, Option.mem_toList] at hm
    obtain hm | hm := hm
    · unfold Buffers.dispatch at hm
      split at hm
      · cases hm
      · cases hm
        exact fun h => hb (List.dropLast_subset _ h)
    · exact ih (by simp [Buffers.empty]) (fun l h => hls l (by simp [h])) hm
  | case3 b line ls _ ih =>
    have hline := hls line (by simp)
    refine ih ?_ (fun l h => hls l (by simp [h])) hm
    unfold Buffers.read
    split_ifs
    · exact hb
    · exact hb
    · simp only [List.mem_append, List.mem_singleton, not_or]
      exact ⟨⟨hb, fun h => hline (mem_of_mem_field h)⟩, by decide⟩
    · exact hb

theorem no_cr_of_mem_decode {cs : Text} {m : Message} (hm : m ∈ decode cs) : '\r' ∉ m.data :=
  no_cr_of_mem_messages (by simp [Buffers.empty])
    (fun _ hl => no_cr_of_mem_linesFrom (by simp) hl) hm

theorem messages_comment (b : Buffers) (comment : Text) (ls : List Text) :
    messages b ((':' :: comment) :: ls) = messages b ls := by
  simp [messages, Buffers.read]

theorem messages_blank (ls : List Text) : messages .empty ([] :: ls) = messages .empty ls := by
  simp [messages, Buffers.dispatch, Buffers.empty]

theorem read_event (b : Buffers) (value : Text) :
    b.read ("event: ".toList ++ value) = { b with type := value } := by
  simp [Buffers.read, field, dropSpace]

theorem read_data (b : Buffers) (value : Text) :
    b.read ("data: ".toList ++ value) = { b with data := b.data ++ value ++ ['\n'] } := by
  simp [Buffers.read, field, dropSpace]

theorem messages_data (b : Buffers) (ds ls : List Text) :
    messages b (ds.map ("data: ".toList ++ ·) ++ ls) =
      messages { b with data := b.data ++ unlines ds } ls := by
  induction ds generalizing b with
  | nil => simp [unlines]
  | cons d ds ih =>
    rw [List.map_cons, List.cons_append, messages_cons _ (by simp), read_data, ih]
    simp [unlines]

theorem unlines_dropLast {ds : List Text} (hds : ds ≠ []) :
    (unlines ds).dropLast = ['\n'].intercalate ds := by
  induction ds with
  | nil => exact absurd rfl hds
  | cons d ds ih =>
    cases ds with
    | nil => simp [unlines]
    | cons d' ds =>
      have hne : unlines (d' :: ds) ≠ [] := by simp [unlines]
      have hih := ih (by simp)
      rw [show unlines (d :: d' :: ds) = (d ++ ['\n']) ++ unlines (d' :: ds) by simp [unlines],
        List.dropLast_append_of_ne_nil hne, hih]
      simp [List.intercalate]

/-- An event line, data lines and a blank line give one message, the data lines joined by LF. -/
theorem messages_event {type : Text} (htype : type ≠ []) {ds : List Text} (hds : ds ≠ [])
    (ls : List Text) :
    messages .empty (("event: ".toList ++ type) :: (ds.map ("data: ".toList ++ ·) ++ [] :: ls)) =
      ⟨type, ['\n'].intercalate ds⟩ :: messages .empty ls := by
  rw [messages_cons _ (by simp), read_event, messages_data, ← unlines_dropLast hds]
  have hne : unlines ds ≠ [] := by
    cases ds with
    | nil => exact absurd rfl hds
    | cons d ds => simp [unlines]
  simp [messages, Buffers.dispatch, Buffers.empty, htype, hne]

theorem linesFrom_prefix (line cs ds : Text) : linesFrom line cs <+: linesFrom line (cs ++ ds) := by
  fun_induction linesFrom line cs with
  | case1 => exact List.nil_prefix
  | case2 line cs ih =>
    rw [List.cons_append, List.cons_append, linesFrom]
    exact (List.prefix_cons_inj _).mpr ih
  | case3 line cs hlf ih =>
    -- the LF of a CR LF may be what is missing
    by_cases hds : ∃ ds', cs ++ ds = '\n' :: ds'
    · obtain ⟨ds', hds'⟩ := hds
      have hnil : cs = [] := by
        cases cs with
        | nil => rfl
        | cons c cs =>
          obtain rfl : c = '\n' := (List.cons.inj hds').1
          exact absurd rfl (hlf cs)
      rw [List.cons_append, hds', linesFrom, hnil]
      exact (List.prefix_cons_inj _).mpr List.nil_prefix
    · rw [List.cons_append, linesFrom]
      · exact (List.prefix_cons_inj _).mpr ih
      · exact fun ds' hds' => hds ⟨ds', hds'⟩
  | case4 line cs ih =>
    rw [List.cons_append, linesFrom]
    exact (List.prefix_cons_inj _).mpr ih
  | case5 line c cs hcrlf hcr hlf ih =>
    rw [List.cons_append, linesFrom_cons (fun h => hcr h) (fun h => hlf h)]
    exact ih

theorem messages_prefix (b : Buffers) (ls ms : List Text) :
    messages b ls <+: messages b (ls ++ ms) := by
  fun_induction messages b ls with
  | case1 => exact List.nil_prefix
  | case2 b ls ih => exact (List.prefix_append_right_inj _).mpr ih
  | case3 b line ls hline ih =>
    rw [List.cons_append, messages_cons b hline]
    exact ih

/-- What a client gets from a stream that breaks off is the beginning of what it would have got. -/
theorem decode_prefix {cs ds : Text} (h : cs <+: ds) : decode cs <+: decode ds := by
  obtain ⟨rest, rfl⟩ := h
  obtain ⟨more, hmore⟩ := linesFrom_prefix [] cs rest
  rw [decode, decode, lines, lines, ← hmore]
  exact messages_prefix .empty _ _

end InferenceQueue.EventStream

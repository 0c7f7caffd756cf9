import Mathlib.Order.BoundedOrder.Basic
import Mathlib.Order.Lattice

namespace InferenceQueue

section

variable {α : Type*} {p : α → Bool} {a : α} {l r : List α}

/-- The list up to and including the first element that meets `p`. -/
def takeThrough (p : α → Bool) : List α → List α
  | [] => []
  | a :: l => if p a then [a] else a :: takeThrough p l

theorem takeThrough_append (h : ∀ a ∈ l, p a = false) :
    takeThrough p (l ++ r) = l ++ takeThrough p r := by
  induction l with
  | nil => rfl
  | cons a l ih =>
    rw [List.forall_mem_cons] at h
    rw [List.cons_append, takeThrough, if_neg (by simp [h.1]), ih h.2, List.cons_append]

theorem takeThrough_append_cons (h : ∀ a ∈ l, p a = false) (ha : p a = true) :
    takeThrough p (l ++ a :: r) = l ++ [a] := by
  rw [takeThrough_append h, takeThrough, if_pos ha]

theorem takeThrough_prefix_append : takeThrough p l <+: takeThrough p (l ++ r) := by
  induction l with
  | nil => exact List.nil_prefix
  | cons a l ih =>
    rw [List.cons_append, takeThrough, takeThrough]
    split
    · exact List.prefix_rfl
    · exact List.prefix_cons_inj a |>.mpr ih

theorem takeThrough_prefix : takeThrough p l <+: l := by
  induction l with
  | nil => exact List.nil_prefix
  | cons a l ih =>
    rw [takeThrough]
    split
    · exact (List.prefix_cons_inj a).mpr List.nil_prefix
    · exact (List.prefix_cons_inj a).mpr ih

theorem takeThrough_mono (h : l <+: r) : takeThrough p l <+: takeThrough p r := by
  obtain ⟨rest, rfl⟩ := h
  exact takeThrough_prefix_append

theorem takeThrough_takeThrough : takeThrough p (takeThrough p l) = takeThrough p l := by
  induction l with
  | nil => rfl
  | cons a l ih =>
    rw [takeThrough]
    split
    case isTrue ha => rw [takeThrough, if_pos ha]
    case isFalse ha => rw [takeThrough, if_neg ha, ih]

theorem takeThrough_map {β : Type*} {q : β → Bool} {f : β → α} (h : ∀ b, p (f b) = q b)
    (m : List β) : takeThrough p (m.map f) = (takeThrough q m).map f := by
  induction m with
  | nil => rfl
  | cons b m ih =>
    rw [List.map_cons, takeThrough, takeThrough, h b]
    split
    · rfl
    · rw [ih, List.map_cons]

theorem eq_takeThrough_of_prefix (h : l ++ [a] <+: takeThrough p r) (ha : p a = true) :
    l ++ [a] = takeThrough p r := by
  -- nothing follows the first element that meets `p`
  induction r generalizing l with
  | nil => simp [takeThrough] at h
  | cons b r ih =>
    rw [takeThrough] at h ⊢
    split at h
    case isTrue hb =>
      have hlen := h.length_le
      rw [if_pos hb]
      exact h.eq_of_length (by simp at hlen ⊢; omega)
    case isFalse hb =>
      rw [if_neg hb]
      cases l with
      | nil =>
        obtain rfl : a = b := by simpa using h
        exact absurd ha hb
      | cons c l =>
        rw [List.cons_append, List.cons_prefix_cons] at h
        rw [List.cons_append, h.1, ih h.2]

end

/-- Entries in the order of their IDs, none of which is the least one. -/
structure AppendLog (ι α : Type*) [LinearOrder ι] [OrderBot ι] where
  entries : List (ι × α)
  sorted : entries.Pairwise (·.1 < ·.1)
  pos : ∀ e ∈ entries, ⊥ < e.1

namespace AppendLog

variable {ι α : Type*} [LinearOrder ι] [OrderBot ι] {log : AppendLog ι α} {i c : ι} {a : α}
  {e : ι × α} {done rest : List (ι × α)}

def Fresh (log : AppendLog ι α) (i : ι) : Prop := ⊥ < i ∧ ∀ e ∈ log.entries, e.1 < i

instance [DecidableLT ι] (log : AppendLog ι α) (i : ι) : Decidable (log.Fresh i) :=
  inferInstanceAs (Decidable (_ ∧ _))

def append (log : AppendLog ι α) (i : ι) (a : α) (h : log.Fresh i) : AppendLog ι α where
  entries := log.entries ++ [(i, a)]
  sorted := by
    rw [List.pairwise_append]
    refine ⟨log.sorted, List.pairwise_singleton _ _, fun e he e' he' => ?_⟩
    rw [List.mem_singleton.mp he']
    exact h.2 e he
  pos := by
    intro e he
    rcases List.mem_append.mp he with he | he
    · exact log.pos e he
    · rw [List.mem_singleton.mp he]
      exact h.1

@[simp] theorem append_entries (h : log.Fresh i) :
    (log.append i a h).entries = log.entries ++ [(i, a)] := rfl

def after (log : AppendLog ι α) (c : ι) : List (ι × α) := log.entries.filter (c < ·.1)

/-- A reader whose cursor is `c` has seen `done`, and `rest` is still to come. -/
structure Split (log : AppendLog ι α) (c : ι) (done rest : List (ι × α)) : Prop where
  entries : log.entries = done ++ rest
  cursor : c = ⊥ ∨ ∃ e ∈ done, e.1 = c
  seen : ∀ e ∈ done, e.1 ≤ c
  unseen : ∀ e ∈ rest, c < e.1

namespace Split

theorem start (log : AppendLog ι α) : log.Split ⊥ [] log.entries where
  entries := rfl
  cursor := Or.inl rfl
  seen := by simp
  unseen := log.pos

/-- What comes after the cursor is what the reader has not seen. -/
theorem after_eq (h : log.Split c done rest) : log.after c = rest := by
  rw [after, h.entries, List.filter_append, List.filter_eq_nil_iff.mpr, List.nil_append,
    List.filter_eq_self.mpr]
  · intro e he
    exact decide_eq_true (h.unseen e he)
  · intro e he
    simpa using h.seen e he

theorem advance (h : log.Split c done (e :: rest)) : log.Split e.1 (done ++ [e]) rest where
  entries := by
    rw [h.entries]
    simp
  cursor := Or.inr ⟨e, by simp, rfl⟩
  seen := by
    intro e' he'
    rcases List.mem_append.mp he' with he' | he'
    · exact (h.seen e' he').trans (h.unseen e List.mem_cons_self).le
    · rw [List.mem_singleton.mp he']
  unseen := by
    have hsorted := log.sorted
    rw [h.entries, List.pairwise_append] at hsorted
    exact (List.pairwise_cons.mp hsorted.2.1).1

theorem append (h : log.Split c done rest) (hi : log.Fresh i) :
    (log.append i a hi).Split c done (rest ++ [(i, a)]) where
  entries := by
    rw [append_entries, h.entries, List.append_assoc]
  cursor := h.cursor
  seen := h.seen
  unseen := by
    intro e he
    rcases List.mem_append.mp he with he | he
    · exact h.unseen e he
    · rw [List.mem_singleton.mp he]
      rcases h.cursor with rfl | ⟨e', he', rfl⟩
      · exact hi.1
      · exact hi.2 e' (by simp [h.entries, he'])

end Split

end AppendLog

end InferenceQueue

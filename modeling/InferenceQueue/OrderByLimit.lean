import Mathlib.Data.Finset.Card
import Mathlib.Data.List.Sort

namespace InferenceQueue

variable {α β : Type*} [LinearOrder β] {key : α → β} {n : ℕ} {rows good : Finset α} {l : List α}

/-- What `SELECT … ORDER BY key LIMIT n` may return: rows of one key come in any order. -/
structure OrderByLimit (key : α → β) (n : ℕ) (rows : Finset α) (l : List α) : Prop where
  nodup : l.Nodup
  sorted : l.Pairwise (key · ≤ key ·)
  mem : ∀ a ∈ l, a ∈ rows
  limit : l.length ≤ n
  rest : ∀ a ∈ rows, a ∉ l → l.length = n ∧ ∀ b ∈ l, key b ≤ key a

theorem exists_orderByLimit (key : α → β) (n : ℕ) (rows : Finset α) :
    ∃ l, OrderByLimit key n rows l := by
  have htotal : Std.Total fun a b : α => key a ≤ key b := ⟨fun a b => le_total (key a) (key b)⟩
  have htrans : IsTrans α fun a b => key a ≤ key b := ⟨fun _ _ _ => le_trans⟩
  let all := rows.toList.insertionSort fun a b => key a ≤ key b
  have hperm : all.Perm rows.toList := List.perm_insertionSort _ _
  have hmem : ∀ a, a ∈ all ↔ a ∈ rows := fun a => hperm.mem_iff.trans Finset.mem_toList
  have hsorted : (all.take n ++ all.drop n).Pairwise fun a b => key a ≤ key b := by
    rw [List.take_append_drop]
    exact List.pairwise_insertionSort _ _
  rw [List.pairwise_append] at hsorted
  refine ⟨all.take n, ?_, hsorted.1, ?_, List.length_take_le n all, ?_⟩
  · exact (hperm.nodup_iff.mpr rows.nodup_toList).sublist (List.take_sublist n all)
  · exact fun a ha => (hmem a).mp (List.mem_of_mem_take ha)
  · intro a ha hnot
    have hdrop : a ∈ all.drop n := by
      have hall := (hmem a).mpr ha
      rw [← List.take_append_drop n all, List.mem_append] at hall
      exact hall.resolve_left hnot
    refine ⟨?_, fun b hb => hsorted.2.2 b hb a hdrop⟩
    have hlength := List.length_pos_of_mem hdrop
    rw [List.length_drop] at hlength
    rw [List.length_take]
    omega

/-- If only rows of a part are returned, enough of them come no later than any other row. -/
theorem OrderByLimit.le_card_filter [DecidableEq α] (h : OrderByLimit key n rows l)
    (hgood : ∀ a ∈ l, a ∈ good) {a : α} (ha : a ∈ rows) (hnot : a ∉ good) :
    n ≤ (good.filter (key · ≤ key a)).card := by
  obtain ⟨hlength, hle⟩ := h.rest a ha fun hmem => hnot (hgood a hmem)
  rw [← hlength, ← List.toFinset_card_of_nodup h.nodup]
  refine Finset.card_le_card fun b hb => ?_
  rw [List.mem_toFinset] at hb
  exact Finset.mem_filter.mpr ⟨hgood b hb, hle b hb⟩

theorem OrderByLimit.length_eq (h : OrderByLimit key n rows l) (hn : n ≤ rows.card) :
    l.length = n := by
  by_cases hall : ∀ a ∈ rows, a ∈ l
  · have hle : rows.card ≤ l.length := by
      classical
      rw [← List.toFinset_card_of_nodup h.nodup]
      exact Finset.card_le_card fun a ha => List.mem_toFinset.mpr (hall a ha)
    exact le_antisymm h.limit (hn.trans hle)
  · simp only [not_forall] at hall
    obtain ⟨a, ha, hout⟩ := hall
    exact (h.rest a ha hout).1

theorem OrderByLimit.key_le [DecidableEq α] (h : OrderByLimit key n rows l) {k : β}
    (hn : n ≤ (rows.filter (key · ≤ k)).card) : ∀ a ∈ l, key a ≤ k := by
  intro a ha
  by_contra hlt
  -- all rows up to the key are returned, and `a` on top of them
  have hbefore : rows.filter (key · ≤ k) ⊆ l.toFinset.erase a := by
    intro b hb
    obtain ⟨hb, hle⟩ := Finset.mem_filter.mp hb
    have hne : b ≠ a := by
      rintro rfl
      exact hlt hle
    refine Finset.mem_erase.mpr ⟨hne, List.mem_toFinset.mpr ?_⟩
    by_contra hout
    exact hlt (((h.rest b hb hout).2 a ha).trans hle)
  have hle := Finset.card_le_card hbefore
  rw [Finset.card_erase_of_mem (List.mem_toFinset.mpr ha),
    List.toFinset_card_of_nodup h.nodup] at hle
  have hpos := List.length_pos_of_mem ha
  have hlimit := h.limit
  omega

/-- The rows of a part may be all that is returned, if and only if enough of them come no later
than any of the others. -/
theorem exists_orderByLimit_within_iff [DecidableEq α] (hsub : good ⊆ rows) :
    (∃ l, OrderByLimit key n rows l ∧ ∀ a ∈ l, a ∈ good) ↔
      ∀ a ∈ rows, a ∉ good → n ≤ (good.filter (key · ≤ key a)).card := by
  constructor
  · rintro ⟨l, h, hgood⟩ a ha hnot
    exact h.le_card_filter hgood ha hnot
  · intro hcard
    -- what the statement returns of the part alone will do
    obtain ⟨l, h⟩ := exists_orderByLimit key n good
    refine ⟨l, ⟨h.nodup, h.sorted, fun a ha => hsub (h.mem a ha), h.limit, ?_⟩, h.mem⟩
    intro a ha hnot
    by_cases hgood : a ∈ good
    · exact h.rest a hgood hnot
    · have hn := hcard a ha hgood
      exact ⟨h.length_eq (hn.trans (Finset.card_filter_le _ _)), h.key_le hn⟩

end InferenceQueue

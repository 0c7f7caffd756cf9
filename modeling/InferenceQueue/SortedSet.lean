import Mathlib.Data.Finmap
import Mathlib.Data.Finset.Max
import Mathlib.Data.Prod.Lex

namespace InferenceQueue

/-- A finite map from members to scores. The scores are counters and millisecond clock values; the
doubles of Redis represent those exactly below `2 ^ 53`. -/
abbrev SortedSet (α : Type*) := Finmap (fun _ : α => ℕ)

namespace SortedSet

variable {α : Type*} [LinearOrder α] {s : SortedSet α} {m m' : α} {k k' : ℕ}

/-- ZSCORE key member -/
def zscore (s : SortedSet α) (m : α) : Option ℕ := s.lookup m

/-- ZADD key score member -/
def zadd (s : SortedSet α) (k : ℕ) (m : α) : SortedSet α := s.insert m k

/-- ZADD key NX score member: only new members are added. -/
def zaddNX (s : SortedSet α) (k : ℕ) (m : α) : SortedSet α :=
  if (s.zscore m).isSome then s else s.zadd k m

/-- ZADD key XX score member: only existing members are updated. -/
def zaddXX (s : SortedSet α) (k : ℕ) (m : α) : SortedSet α :=
  if (s.zscore m).isSome then s.zadd k m else s

/-- ZREM key member -/
def zrem (s : SortedSet α) (m : α) : SortedSet α := s.erase m

/-- The pairs of the set, ordered as Redis orders them. -/
def pairs (s : SortedSet α) : Finset (ℕ ×ₗ α) :=
  s.keys.image fun m => toLex ((s.zscore m).getD 0, m)

/-- ZRANGE key 0 0 -/
def zrangeFirst (s : SortedSet α) : Option α :=
  if h : s.pairs.Nonempty then some (ofLex (s.pairs.min' h)).2 else none

/-- ZRANGE key -inf cutoff BYSCORE LIMIT 0 n -/
def zrangeByScore (s : SortedSet α) (cutoff : ℕ) : ℕ → List α
  | 0 => []
  | n + 1 =>
    match s.zrangeFirst with
    | none => []
    | some m => if (s.zscore m).getD 0 ≤ cutoff then m :: (s.zrem m).zrangeByScore cutoff n else []

@[simp] theorem zscore_empty (m : α) : zscore (∅ : SortedSet α) m = none := Finmap.lookup_empty m

theorem zscore_zadd (s : SortedSet α) (k : ℕ) (m m' : α) :
    (s.zadd k m).zscore m' = if m' = m then some k else s.zscore m' := by
  unfold zscore zadd
  split_ifs with h
  · subst h
    exact Finmap.lookup_insert s
  · exact Finmap.lookup_insert_of_ne s h

theorem zscore_zrem (s : SortedSet α) (m m' : α) :
    (s.zrem m).zscore m' = if m' = m then none else s.zscore m' := by
  unfold zscore zrem
  split_ifs with h
  · subst h
    exact Finmap.lookup_erase m' s
  · exact Finmap.lookup_erase_ne h

theorem isSome_of_zrem (h : ((s.zrem m).zscore m').isSome) : (s.zscore m').isSome := by
  rw [zscore_zrem] at h
  split_ifs at h
  · cases h
  · exact h

theorem isSome_of_zadd (hm : s.zscore m = some k') (h : ((s.zadd k m).zscore m').isSome) :
    (s.zscore m').isSome := by
  rw [zscore_zadd] at h
  split_ifs at h with heq
  · rw [heq, hm]
    rfl
  · exact h

theorem zaddNX_of_none (h : s.zscore m = none) : s.zaddNX k m = s.zadd k m := by
  simp [zaddNX, h]

theorem zaddXX_of_some (h : s.zscore m = some k') : s.zaddXX k m = s.zadd k m := by
  simp [zaddXX, h]

theorem mem_keys_iff : m ∈ s.keys ↔ ∃ k, s.zscore m = some k := by
  rw [Finmap.mem_keys, Finmap.mem_iff]
  rfl

theorem mem_pairs : toLex (k, m) ∈ s.pairs ↔ s.zscore m = some k := by
  simp only [pairs, Finset.mem_image, mem_keys_iff, toLex_inj, Prod.mk.injEq]
  constructor
  · rintro ⟨m', ⟨k', hk'⟩, hk, rfl⟩
    rw [hk'] at hk ⊢
    simpa using hk
  · intro h
    exact ⟨m, ⟨k, h⟩, by simp [h], rfl⟩

theorem zrangeFirst_eq_none : s.zrangeFirst = none ↔ ∀ m, s.zscore m = none := by
  simp only [zrangeFirst, dite_eq_right_iff, reduceCtorEq, imp_false,
    Finset.not_nonempty_iff_eq_empty]
  constructor
  · intro hempty m
    cases hm : s.zscore m with
    | none => rfl
    | some k =>
      have hmem := mem_pairs.mpr hm
      simp [hempty] at hmem
  · intro hnone
    apply Finset.eq_empty_of_forall_notMem
    intro p hp
    have hscore : s.zscore (ofLex p).2 = some (ofLex p).1 := mem_pairs.mp hp
    simp [hnone] at hscore

theorem zrangeFirst_eq_some (h : s.zrangeFirst = some m) :
    ∃ k, s.zscore m = some k ∧ ∀ m' k', s.zscore m' = some k' → k ≤ k' := by
  unfold zrangeFirst at h
  split_ifs at h with hne
  obtain rfl : (ofLex (s.pairs.min' hne)).2 = m := by simpa using h
  refine ⟨(ofLex (s.pairs.min' hne)).1, mem_pairs.mp (Finset.min'_mem _ hne), ?_⟩
  intro m' k' hk'
  have hle : s.pairs.min' hne ≤ toLex (k', m') := Finset.min'_le _ _ (mem_pairs.mpr hk')
  exact Prod.Lex.monotone_fst _ _ hle

def upTo (s : SortedSet α) (cutoff : ℕ) : Finset α :=
  s.keys.filter fun m => ∃ k ∈ s.zscore m, k ≤ cutoff

theorem mem_upTo {cutoff : ℕ} : m ∈ s.upTo cutoff ↔ ∃ k, s.zscore m = some k ∧ k ≤ cutoff := by
  rw [upTo, Finset.mem_filter, mem_keys_iff]
  constructor
  · rintro ⟨-, k, hk, hle⟩
    exact ⟨k, hk, hle⟩
  · rintro ⟨k, hk, hle⟩
    exact ⟨⟨k, hk⟩, k, hk, hle⟩

theorem mem_upTo_zrem {cutoff : ℕ} :
    m' ∈ (s.zrem m).upTo cutoff ↔ m' ≠ m ∧ m' ∈ s.upTo cutoff := by
  rw [mem_upTo, mem_upTo, zscore_zrem]
  by_cases h : m' = m <;> simp [h]

theorem upTo_zrem {cutoff : ℕ} : (s.zrem m).upTo cutoff = (s.upTo cutoff).erase m := by
  ext m'
  rw [Finset.mem_erase, mem_upTo_zrem]

theorem mem_zrangeByScore {cutoff n : ℕ} (h : m ∈ s.zrangeByScore cutoff n) :
    m ∈ s.upTo cutoff := by
  induction n generalizing s with
  | zero => cases h
  | succ n ih =>
    rw [zrangeByScore] at h
    split at h
    · cases h
    · next first hfirst =>
      obtain ⟨k, hk, -⟩ := zrangeFirst_eq_some hfirst
      rw [hk, Option.getD_some] at h
      by_cases hcut : k ≤ cutoff
      · rw [if_pos hcut] at h
        rcases List.mem_cons.mp h with rfl | hmem
        · exact mem_upTo.mpr ⟨k, hk, hcut⟩
        · exact (mem_upTo_zrem.mp (ih hmem)).2
      · rw [if_neg hcut] at h
        cases h

theorem nodup_zrangeByScore (s : SortedSet α) (cutoff n : ℕ) :
    (s.zrangeByScore cutoff n).Nodup := by
  induction n generalizing s with
  | zero => exact List.nodup_nil
  | succ n ih =>
    rw [zrangeByScore]
    split
    · exact List.nodup_nil
    · next first _ =>
      split_ifs
      · refine List.nodup_cons.mpr ⟨fun hmem => ?_, ih _⟩
        exact (mem_upTo_zrem.mp (mem_zrangeByScore hmem)).1 rfl
      · exact List.nodup_nil

theorem mem_zrangeByScore_of_card_le {cutoff n : ℕ} (hcard : (s.upTo cutoff).card ≤ n)
    (hm : m ∈ s.upTo cutoff) : m ∈ s.zrangeByScore cutoff n := by
  -- a limit that is large enough leaves nothing out
  induction n generalizing s with
  | zero =>
    have hempty : s.upTo cutoff = ∅ := Finset.card_eq_zero.mp (Nat.le_zero.mp hcard)
    rw [hempty] at hm
    cases hm
  | succ n ih =>
    obtain ⟨k, hk, hle⟩ := mem_upTo.mp hm
    rw [zrangeByScore]
    split
    · next hnone =>
      rw [zrangeFirst_eq_none.mp hnone] at hk
      cases hk
    · next first hfirst =>
      obtain ⟨k', hk', hleast⟩ := zrangeFirst_eq_some hfirst
      have hcut : k' ≤ cutoff := (hleast m k hk).trans hle
      rw [hk', Option.getD_some, if_pos hcut]
      by_cases heq : m = first
      · exact List.mem_cons.mpr (Or.inl heq)
      · apply List.mem_cons_of_mem
        have hfirst' : first ∈ s.upTo cutoff := mem_upTo.mpr ⟨k', hk', hcut⟩
        apply ih
        · rw [upTo_zrem, Finset.card_erase_of_mem hfirst']
          omega
        · exact mem_upTo_zrem.mpr ⟨heq, hm⟩

/-- The list names the members in the order of their scores, no two of which are equal. -/
structure Orders (s : SortedSet α) (l : List α) : Prop where
  mem : ∀ m, m ∈ l ↔ ∃ k, s.zscore m = some k
  increasing : l.Pairwise fun a b =>
    ∀ k k', s.zscore a = some k → s.zscore b = some k' → k < k'

namespace Orders

variable {l : List α}

theorem empty : Orders (∅ : SortedSet α) [] := ⟨by simp, List.Pairwise.nil⟩

theorem nodup (h : s.Orders l) : l.Nodup := by
  apply h.increasing.imp_of_mem
  intro a b ha _ hlt heq
  subst heq
  obtain ⟨k, hk⟩ := (h.mem a).mp ha
  exact (hlt k k hk hk).false

theorem injective (h : s.Orders l) (hm : s.zscore m = some k) (hm' : s.zscore m' = some k) :
    m = m' := by
  have hmem' := (h.mem m').mpr ⟨k, hm'⟩
  obtain ⟨l₁, l₂, rfl⟩ := List.append_of_mem ((h.mem m).mpr ⟨k, hm⟩)
  obtain ⟨-, hright, hcross⟩ := List.pairwise_append.mp h.increasing
  rcases List.mem_append.mp hmem' with hleft | hmem'
  · exact absurd (hcross m' hleft m List.mem_cons_self k k hm' hm) (lt_irrefl k)
  · rcases List.mem_cons.mp hmem' with heq | hmem'
    · exact heq.symm
    · exact absurd ((List.pairwise_cons.mp hright).1 m' hmem' k k hm hm') (lt_irrefl k)

theorem zrangeFirst_nil (h : s.Orders []) : s.zrangeFirst = none := by
  rw [zrangeFirst_eq_none]
  intro m
  cases hm : s.zscore m with
  | none => rfl
  | some k => simpa using (h.mem m).mpr ⟨k, hm⟩

theorem zrangeFirst_cons (h : s.Orders (m :: l)) : s.zrangeFirst = some m := by
  obtain ⟨k, hk⟩ := (h.mem m).mp (by simp)
  cases hf : s.zrangeFirst with
  | none =>
    rw [zrangeFirst_eq_none] at hf
    simp [hf] at hk
  | some m' =>
    obtain ⟨k', hk', hmin⟩ := zrangeFirst_eq_some hf
    rcases List.mem_cons.mp ((h.mem m').mpr ⟨k', hk'⟩) with rfl | hmem
    · rfl
    · have hlt := (List.pairwise_cons.mp h.increasing).1 m' hmem k k' hk hk'
      have hle := hmin m k hk
      omega

theorem zadd (h : s.Orders l) (hm : m ∉ l) (habove : ∀ m' k', s.zscore m' = some k' → k' < k) :
    (s.zadd k m).Orders (l ++ [m]) := by
  refine ⟨fun m' => ?_, List.pairwise_append.mpr ⟨?_, List.pairwise_singleton _ _, ?_⟩⟩
  · rw [List.mem_append, List.mem_singleton, h.mem, zscore_zadd]
    split_ifs with heq <;> simp [heq]
  · apply h.increasing.imp_of_mem
    intro a b ha hb hlt
    have ham : a ≠ m := fun heq => hm (heq ▸ ha)
    have hbm : b ≠ m := fun heq => hm (heq ▸ hb)
    simpa only [zscore_zadd, if_neg ham, if_neg hbm] using hlt
  · intro a ha b hb k₁ k₂ hk₁ hk₂
    obtain rfl := List.mem_singleton.mp hb
    have ham : a ≠ b := fun heq => hm (heq ▸ ha)
    rw [zscore_zadd, if_neg ham] at hk₁
    rw [zscore_zadd, if_pos rfl] at hk₂
    obtain rfl : k = k₂ := by simpa using hk₂
    exact habove a k₁ hk₁

theorem zrem (h : s.Orders (m :: l)) : (s.zrem m).Orders l := by
  have hm := (List.nodup_cons.mp h.nodup).1
  refine ⟨fun m' => ?_, ?_⟩
  · have hmem := h.mem m'
    rw [List.mem_cons] at hmem
    rw [zscore_zrem]
    split_ifs with heq
    · subst heq
      simp [hm]
    · rw [← hmem]
      simp [heq]
  · apply (List.pairwise_cons.mp h.increasing).2.imp_of_mem
    intro a b ha hb hlt
    have ham : a ≠ m := fun heq => hm (heq ▸ ha)
    have hbm : b ≠ m := fun heq => hm (heq ▸ hb)
    simpa only [zscore_zrem, if_neg ham, if_neg hbm] using hlt

/-- A score above all others sends the first member to the end. -/
theorem rotate (h : s.Orders (m :: l)) (habove : ∀ m' k', s.zscore m' = some k' → k' < k) :
    (s.zadd k m).Orders (l ++ [m]) := by
  have hrem : ((s.zrem m).zadd k m).Orders (l ++ [m]) := by
    apply h.zrem.zadd (List.nodup_cons.mp h.nodup).1
    intro m' k' hk'
    rw [zscore_zrem] at hk'
    split_ifs at hk' with heq
    exact habove m' k' hk'
  have heq : (s.zrem m).zadd k m = s.zadd k m := by
    apply Finmap.ext_lookup
    intro m'
    change ((s.zrem m).zadd k m).zscore m' = (s.zadd k m).zscore m'
    rw [zscore_zadd, zscore_zadd, zscore_zrem]
    split_ifs <;> rfl
  rwa [heq] at hrem

end Orders

end SortedSet

end InferenceQueue

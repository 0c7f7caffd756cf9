import Mathlib.Data.List.Basic
import Mathlib.Logic.Basic

namespace InferenceQueue.Transactions

variable {δ : Type*}

/-- What a statement is sent to: a connection of the pool, where it commits by itself, or an open
transaction. -/
inductive Executor
  | pool
  | tx (id : ℕ)
deriving DecidableEq

/-- The committed rows, and those that each transaction has added since it began: `none` once it is
over. -/
structure Store (δ : Type*) where
  committed : δ
  transactions : List (Option δ)
deriving DecidableEq

/-- `p` says of rows that a certain one is among them. -/
structure IsRow [Append δ] [EmptyCollection δ] (p : δ → Prop) : Prop where
  append : ∀ {x y : δ}, p (x ++ y) → p x ∨ p y
  empty : ¬p ∅

namespace Store

def staged (s : Store δ) (id : ℕ) : Option δ := s.transactions[id]?.join

/-- A transaction is numbered by those begun before it. -/
def beginTx [EmptyCollection δ] (s : Store δ) : Store δ :=
  { s with transactions := s.transactions ++ [some ∅] }

def insert [Append δ] (s : Store δ) (executor : Executor) (rows : δ) : Store δ :=
  match executor with
  | .pool => { s with committed := s.committed ++ rows }
  | .tx id => { s with transactions := s.transactions.modify id (Option.map (· ++ rows)) }

def rollback (s : Store δ) (id : ℕ) : Store δ :=
  { s with transactions := s.transactions.set id none }

def commit [Append δ] (s : Store δ) (id : ℕ) : Store δ :=
  { s.rollback id with committed := (s.staged id).elim s.committed (s.committed ++ ·) }

def visible [Append δ] (s : Store δ) : Executor → δ
  | .pool => s.committed
  | .tx id => (s.staged id).elim s.committed (s.committed ++ ·)

def usable (s : Store δ) : Executor → Bool
  | .pool => true
  | .tx id => (s.staged id).isSome

def Everywhere (s : Store δ) (p : δ → Prop) : Prop :=
  p s.committed ∧ ∀ t ∈ s.transactions, ∀ rows ∈ t, p rows

instance (s : Store δ) (p : δ → Prop) [DecidablePred p] : Decidable (s.Everywhere p) :=
  inferInstanceAs (Decidable (_ ∧ _))

/-- A row is there, committed or not. -/
def Holds (s : Store δ) (p : δ → Prop) : Prop :=
  p s.committed ∨ ∃ id rows, s.staged id = some rows ∧ p rows

variable {s : Store δ} {id : ℕ} {rows : δ} {executor : Executor} {p q : δ → Prop}

theorem staged_eq_some : s.staged id = some rows ↔ s.transactions[id]? = some (some rows) :=
  Option.join_eq_some_iff

theorem Everywhere.not_holds (h : s.Everywhere p) (hpq : ∀ rows, p rows → ¬q rows) :
    ¬s.Holds q := by
  rintro (hq | ⟨id, rows, hstaged, hq⟩)
  · exact hpq _ h.1 hq
  · have hmem := List.mem_of_getElem? (staged_eq_some.mp hstaged)
    exact hpq rows (h.2 _ hmem rows rfl) hq

theorem staged_rollback (s : Store δ) (id id' : ℕ) :
    (s.rollback id).staged id' = if id' = id then none else s.staged id' := by
  unfold staged rollback
  dsimp only
  by_cases h : id' = id
  · subst h
    rw [if_pos rfl, List.getElem?_set_self']
    cases s.transactions[id']? <;> rfl
  · rw [if_neg h, List.getElem?_set_ne (Ne.symm h)]

@[simp] theorem length_rollback (s : Store δ) (id : ℕ) :
    (s.rollback id).transactions.length = s.transactions.length :=
  List.length_set

theorem Holds.of_rollback (h : (s.rollback id).Holds p) : s.Holds p := by
  obtain h | ⟨id', rows, hstaged, h⟩ := h
  · exact Or.inl h
  · rw [staged_rollback] at hstaged
    split_ifs at hstaged
    exact Or.inr ⟨id', rows, hstaged, h⟩

section

variable [EmptyCollection δ]

theorem staged_beginTx (s : Store δ) (id : ℕ) :
    s.beginTx.staged id = if id = s.transactions.length then some ∅ else s.staged id := by
  unfold staged beginTx
  dsimp only
  rcases Nat.lt_trichotomy id s.transactions.length with hlt | rfl | hgt
  · rw [if_neg (Nat.ne_of_lt hlt), List.getElem?_append_left hlt]
  · rw [if_pos rfl, List.getElem?_concat_length]
    rfl
  · rw [if_neg (Nat.ne_of_gt hgt), List.getElem?_eq_none (Nat.le_of_lt hgt),
      List.getElem?_eq_none]
    rw [List.length_append, List.length_singleton]
    exact hgt

@[simp] theorem length_beginTx (s : Store δ) :
    s.beginTx.transactions.length = s.transactions.length + 1 :=
  List.length_append

theorem Holds.of_beginTx [Append δ] (hp : IsRow p) (h : s.beginTx.Holds p) : s.Holds p := by
  obtain h | ⟨id, rows, hstaged, h⟩ := h
  · exact Or.inl h
  · rw [staged_beginTx] at hstaged
    split_ifs at hstaged
    · obtain rfl := Option.some.inj hstaged
      exact absurd h hp.empty
    · exact Or.inr ⟨id, rows, hstaged, h⟩

end

section

variable [Append δ]

theorem staged_insert (s : Store δ) (id id' : ℕ) (rows : δ) :
    (s.insert (.tx id) rows).staged id' =
      if id' = id then (s.staged id).map (· ++ rows) else s.staged id' := by
  unfold staged insert
  dsimp only
  by_cases h : id' = id
  · subst h
    rw [if_pos rfl, List.getElem?_modify_eq]
    cases s.transactions[id']? <;> rfl
  · rw [if_neg h, List.getElem?_modify_ne _ _ (Ne.symm h)]

@[simp] theorem length_insert (s : Store δ) (executor : Executor) (rows : δ) :
    (s.insert executor rows).transactions.length = s.transactions.length := by
  cases executor with
  | pool => rfl
  | tx id => exact List.length_modify _ _ _

@[simp] theorem length_commit (s : Store δ) (id : ℕ) :
    (s.commit id).transactions.length = s.transactions.length :=
  length_rollback s id

theorem staged_commit (s : Store δ) (id id' : ℕ) :
    (s.commit id).staged id' = if id' = id then none else s.staged id' :=
  staged_rollback s id id'

theorem committed_commit (h : s.staged id = some rows) :
    (s.commit id).committed = s.committed ++ rows := by
  rw [commit, h]
  rfl

theorem committed_commit_none (h : s.staged id = none) :
    (s.commit id).committed = s.committed := by
  rw [commit, h]
  rfl

variable [EmptyCollection δ]

theorem Holds.of_insert (hp : IsRow p) (h : (s.insert executor rows).Holds p) :
    s.Holds p ∨ p rows := by
  cases executor with
  | pool =>
    obtain h | hstaged := h
    · exact (hp.append h).imp Or.inl fun h => h
    · exact Or.inl (Or.inr hstaged)
  | tx id =>
    obtain h | ⟨id', rows', hstaged, h⟩ := h
    · exact Or.inl (Or.inl h)
    · rw [staged_insert] at hstaged
      split_ifs at hstaged
      · obtain ⟨rows₀, hrows₀, rfl⟩ := Option.map_eq_some_iff.mp hstaged
        exact (hp.append h).imp (fun h => Or.inr ⟨id, rows₀, hrows₀, h⟩) (fun h => h)
      · exact Or.inl (Or.inr ⟨id', rows', hstaged, h⟩)

theorem Holds.of_commit (hp : IsRow p) (h : (s.commit id).Holds p) : s.Holds p := by
  obtain h | ⟨id', rows, hstaged, h⟩ := h
  · cases hrows : s.staged id with
    | none =>
      rw [committed_commit_none hrows] at h
      exact Or.inl h
    | some rows =>
      rw [committed_commit hrows] at h
      exact (hp.append h).imp (fun h => h) fun h => ⟨id, rows, hrows, h⟩
  · rw [staged_commit] at hstaged
    split_ifs at hstaged
    exact Or.inr ⟨id', rows, hstaged, h⟩

end

end Store

end InferenceQueue.Transactions

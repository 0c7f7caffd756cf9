import Mathlib.Data.Finmap

namespace InferenceQueue.Redis

variable {α : Type*}

/-- What is stored under a key; without an expiry it stays. Times are in milliseconds, TTLs in
seconds. -/
structure Volatile (α : Type*) where
  value : α
  expiresAt : Option ℕ
deriving DecidableEq, Repr

def Volatile.Live (now : ℕ) (k : Volatile α) : Prop := ∀ t ∈ k.expiresAt, now ≤ t

instance (now : ℕ) (k : Volatile α) : Decidable (k.Live now) := by
  unfold Volatile.Live
  infer_instance

/-- What a command sees under a key: an expired key is as good as deleted. -/
def fetch (now : ℕ) : Option (Volatile α) → Option α
  | none => none
  | some k => if k.Live now then some k.value else none

/-- `EXPIRE` on a key just written; a TTL of 0 deletes it at once. -/
def expire (now ttl : ℕ) (value : α) : Option (Volatile α) :=
  if ttl = 0 then none else some ⟨value, some (now + 1000 * ttl)⟩

/-- `EXPIRE` on a key that may be gone. -/
def expireAgain (now ttl : ℕ) (k : Option (Volatile α)) : Option (Volatile α) :=
  (fetch now k).bind (expire now ttl)

/-- `EXPIRE` with `NX`: an expiry the key has stays. -/
def expireNX (now ttl : ℕ) : Option (Volatile α) → Option (Volatile α)
  | some ⟨value, none⟩ => expire now ttl value
  | k => k

/-- `TTL`, which rounds to whole seconds; `none` for a key without expiry. -/
def Volatile.ttl (now : ℕ) (k : Volatile α) : Option ℕ :=
  k.expiresAt.map fun t => (t - now + 500) / 1000

/-- A write that leaves the expiry of the key alone. -/
def Volatile.set (value : α) (k : Volatile α) : Volatile α := { k with value }

/-- `XADD`: the stream goes on where there is one, with its expiry, and starts anew otherwise. -/
def xadd (now : ℕ) (a : α) : Option (Volatile (List α)) → Volatile (List α)
  | some k => if k.Live now then k.set (k.value ++ [a]) else ⟨[a], none⟩
  | none => ⟨[a], none⟩

@[simp] theorem fetch_none (now : ℕ) : fetch now (none : Option (Volatile α)) = none := rfl

theorem fetch_some {now : ℕ} {k : Option (Volatile α)} {a : α} :
    fetch now k = some a ↔ ∃ v, k = some v ∧ v.Live now ∧ v.value = a := by
  cases k with
  | none => simp
  | some v => simp [fetch]

theorem Volatile.Live.earlier {now now' : ℕ} (h : now ≤ now') {k : Volatile α}
    (hk : k.Live now') : k.Live now := fun t ht => Nat.le_trans h (hk t ht)

theorem fetch_earlier {now now' : ℕ} (h : now ≤ now') {k : Option (Volatile α)} {a : α}
    (hk : fetch now' k = some a) : fetch now k = some a := by
  obtain ⟨v, rfl, hv, rfl⟩ := fetch_some.mp hk
  exact fetch_some.mpr ⟨v, rfl, hv.earlier h, rfl⟩

@[simp] theorem fetch_persistent (now : ℕ) (a : α) : fetch now (some ⟨a, none⟩) = some a := by
  simp [fetch, Volatile.Live]

@[simp] theorem fetch_until (now t : ℕ) (a : α) :
    fetch now (some ⟨a, some t⟩) = if now ≤ t then some a else none := by
  simp [fetch, Volatile.Live]

/-- Every key a store holds. -/
abbrev Keyspace (κ α : Type*) := Finmap (fun _ : κ => Volatile α)

namespace Keyspace

variable {κ : Type*} [DecidableEq κ]

def put (m : Keyspace κ α) (k : κ) : Option (Volatile α) → Keyspace κ α
  | some v => m.insert k v
  | none => m.erase k

def get (now : ℕ) (m : Keyspace κ α) (k : κ) : Option α := fetch now (m.lookup k)

theorem lookup_put (m : Keyspace κ α) (k k' : κ) (v : Option (Volatile α)) :
    (m.put k v).lookup k' = if k' = k then v else m.lookup k' := by
  split_ifs with h
  · subst h
    cases v <;> simp [put]
  · cases v <;> simp [put, h]

theorem get_put (now : ℕ) (m : Keyspace κ α) (k k' : κ) (v : Option (Volatile α)) :
    (m.put k v).get now k' = if k' = k then fetch now v else m.get now k' := by
  rw [get, lookup_put]
  split_ifs <;> rfl

theorem get_empty (now : ℕ) (k : κ) : (∅ : Keyspace κ α).get now k = none := by
  simp [get]

theorem forall_get_ne_iff {now : ℕ} {m : Keyspace κ α} {a : α} {p : κ → Prop} :
    (∀ k, p k → m.get now k ≠ some a) ↔ ∀ k ∈ m.keys, p k → m.get now k ≠ some a := by
  constructor
  · intro h k _
    exact h k
  · intro h k hp hk
    have hmem : k ∈ m.keys := by
      rw [Finmap.mem_keys, ← Finmap.lookup_isSome]
      obtain ⟨v, hv, -⟩ := fetch_some.mp hk
      simp [hv]
    exact h k hmem hp hk

instance [DecidableEq α] (now : ℕ) (m : Keyspace κ α) (a : α) (p : κ → Prop) [DecidablePred p] :
    Decidable (∀ k, p k → m.get now k ≠ some a) :=
  decidable_of_iff' _ forall_get_ne_iff

instance [DecidableEq α] (now : ℕ) (m : Keyspace κ α) (a : α) :
    Decidable (∀ k, m.get now k ≠ some a) :=
  decidable_of_iff (∀ k, True → m.get now k ≠ some a) (by simp)

end Keyspace

theorem value_of_expire {now ttl : ℕ} {a : α} {v : Volatile α} (h : expire now ttl a = some v) :
    v.value = a := by
  unfold expire at h
  split at h
  · cases h
  · cases h
    rfl

theorem fetch_expire {now now' ttl : ℕ} {a b : α} (h : fetch now' (expire now ttl a) = some b) :
    b = a := by
  obtain ⟨v, hv, -, rfl⟩ := fetch_some.mp h
  exact value_of_expire hv

end InferenceQueue.Redis

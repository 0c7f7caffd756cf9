import InferenceQueue.RedisKeys
import InferenceQueue.SortedSet
import Mathlib.Data.String.Basic

namespace InferenceQueue.SortedSet

variable {α β : Type*} [LinearOrder α] [LinearOrder β] {f : α → β} {s : SortedSet α}
  {t : SortedSet β} {m : α} {k : ℕ}

theorem zrem_of_none (h : s.zscore m = none) : s.zrem m = s := by
  apply Finmap.ext_lookup
  intro m'
  show (s.zrem m).zscore m' = s.zscore m'
  rw [zscore_zrem]
  split_ifs with heq
  · rw [heq, h]
  · rfl

/-- The second sorted set has the members of the first under the names that `f` gives them. -/
structure Renders (f : α → β) (s : SortedSet α) (t : SortedSet β) : Prop where
  score : ∀ m, t.zscore (f m) = s.zscore m
  named : ∀ m', (t.zscore m').isSome → ∃ m, f m = m'

namespace Renders

theorem empty (f : α → β) : Renders f ∅ ∅ := ⟨by simp, by simp⟩

theorem zadd (hf : Function.Injective f) (h : Renders f s t) :
    Renders f (s.zadd k m) (t.zadd k (f m)) := by
  refine ⟨fun m' => ?_, fun m' hm' => ?_⟩
  · simp only [zscore_zadd, h.score, hf.eq_iff]
  · rw [zscore_zadd] at hm'
    split_ifs at hm' with heq
    · exact ⟨m, heq.symm⟩
    · exact h.named m' hm'

theorem zrem (hf : Function.Injective f) (h : Renders f s t) :
    Renders f (s.zrem m) (t.zrem (f m)) := by
  refine ⟨fun m' => ?_, fun m' hm' => h.named m' (isSome_of_zrem hm')⟩
  simp only [zscore_zrem, h.score, hf.eq_iff]

theorem zaddNX (hf : Function.Injective f) (h : Renders f s t) :
    Renders f (s.zaddNX k m) (t.zaddNX k (f m)) := by
  unfold SortedSet.zaddNX
  rw [h.score]
  split_ifs
  · exact h
  · exact h.zadd hf

theorem zaddXX (hf : Function.Injective f) (h : Renders f s t) :
    Renders f (s.zaddXX k m) (t.zaddXX k (f m)) := by
  unfold SortedSet.zaddXX
  rw [h.score]
  split_ifs
  · exact h.zadd hf
  · exact h

theorem pairs_eq (h : Renders f s t) :
    t.pairs = s.pairs.image fun p => toLex ((ofLex p).1, f (ofLex p).2) := by
  ext p
  rw [Finset.mem_image]
  constructor
  · intro hp
    have hscore : t.zscore (ofLex p).2 = some (ofLex p).1 := mem_pairs.mp hp
    obtain ⟨m, hm⟩ := h.named (ofLex p).2 (by rw [hscore]; rfl)
    refine ⟨toLex ((ofLex p).1, m), mem_pairs.mpr ?_, by rw [ofLex_toLex, hm]; rfl⟩
    rw [← h.score, hm, hscore]
  · rintro ⟨q, hq, rfl⟩
    apply mem_pairs.mpr
    rw [h.score]
    exact mem_pairs.mp hq

theorem zrangeFirst (hf : StrictMono f) (h : Renders f s t) :
    t.zrangeFirst = s.zrangeFirst.map f := by
  -- names in the same order leave the first member the first one
  have hmono : Monotone fun p : ℕ ×ₗ α => toLex ((ofLex p).1, f (ofLex p).2) := by
    intro p q hpq
    rw [Prod.Lex.toLex_le_toLex]
    rcases Prod.Lex.le_iff.mp hpq with hlt | ⟨heq, hle⟩
    · exact Or.inl hlt
    · exact Or.inr ⟨heq, hf.monotone hle⟩
  unfold SortedSet.zrangeFirst
  by_cases hne : s.pairs.Nonempty
  · have hne' : t.pairs.Nonempty := by
      rw [h.pairs_eq]
      exact hne.image _
    rw [dif_pos hne, dif_pos hne', Option.map_some]
    have hmin : t.pairs.min' hne' =
        toLex ((ofLex (s.pairs.min' hne)).1, f (ofLex (s.pairs.min' hne)).2) := by
      simp only [h.pairs_eq]
      exact Finset.min'_image hmono s.pairs _
    rw [hmin, ofLex_toLex]
  · have hne' : ¬t.pairs.Nonempty := by
      rw [h.pairs_eq, Finset.image_nonempty]
      exact hne
    rw [dif_neg hne, dif_neg hne', Option.map_none]

theorem zrangeByScore (hf : StrictMono f) (h : Renders f s t) (cutoff n : ℕ) :
    t.zrangeByScore cutoff n = (s.zrangeByScore cutoff n).map f := by
  induction n generalizing s t with
  | zero => rfl
  | succ n ih =>
    rw [SortedSet.zrangeByScore, SortedSet.zrangeByScore, h.zrangeFirst hf]
    cases s.zrangeFirst with
    | none => rfl
    | some m =>
      simp only [Option.map_some, h.score, ih (h.zrem hf.injective)]
      split_ifs <;> rfl

theorem card_eq_zero_iff (hf : StrictMono f) (h : Renders f s t) :
    t.keys.card = 0 ↔ s.zrangeFirst = none := by
  have hempty : t.keys = ∅ ↔ ∀ m, t.zscore m = none := by
    rw [Finset.eq_empty_iff_forall_notMem]
    refine forall_congr' fun m => ?_
    rw [mem_keys_iff, Option.eq_none_iff_forall_ne_some, not_exists]
  rw [Finset.card_eq_zero, hempty, ← zrangeFirst_eq_none, h.zrangeFirst hf, Option.map_eq_none_iff]

end Renders

end InferenceQueue.SortedSet

namespace InferenceQueue.RedisServer

open Redis

abbrev Hash := Finmap (fun _ : String => String)

/-- A command fails on a key of another type, and a key goes away with its last element. -/
inductive Value
  | string (text : String)
  | list (items : List String)
  | set (members : Finset String)
  | zset (members : SortedSet String)
  | hash (fields : Hash)

abbrev Db := Keyspace String Value

inductive Error
  | wrongType
  | notInteger
  | overflow
  | invalidExpireTime
  /-- `tonumber` has given nil -/
  | arithmeticOnNil
deriving DecidableEq

def Error.text : Error → String
  | wrongType => "WRONGTYPE Operation against a key holding the wrong kind of value"
  | notInteger => "ERR value is not an integer or out of range"
  | overflow => "ERR increment or decrement would overflow"
  | invalidExpireTime => "ERR invalid expire time in 'set' command"
  | arithmeticOnNil => "ERR attempt to perform arithmetic on a nil value"

inductive Resp
  | nil
  | int (n : ℤ)
  | bulk (text : String)
  | array (items : List Resp)

/-- `KEYS` and `ARGV`, which count from 1; numbers arrive in decimal. -/
structure Args where
  keys : List String
  argv : List String

def Args.key (args : Args) (i : ℕ) : String := args.keys.getD (i - 1) ""

def Args.arg (args : Args) (i : ℕ) : String := args.argv.getD (i - 1) ""

/-- A computation at a moment, given in microseconds. An error ends it, and what it has written by
then stays. -/
def Script (α : Type) : Type := ℕ → Db → Except Error α × Db

namespace Script

variable {α β : Type} {us : ℕ} {db db' : Db}

def fail (err : Error) : Script α := fun _ db => (.error err, db)

instance : Monad Script where
  pure a := fun _ db => (.ok a, db)
  bind x f := fun us db =>
    match x us db with
    | (.ok a, db) => f a us db
    | (.error err, db) => (.error err, db)

theorem pure_eq (a : α) : (pure a : Script α) us db = (.ok a, db) := rfl

/-- A command that goes through is followed by the rest of the script. -/
theorem bind_eq {x : Script α} {f : α → Script β} {a : α} (h : x us db = (.ok a, db')) :
    (x >>= f) us db = f a us db' := by
  show (match x us db with
    | (.ok a, db) => f a us db
    | (.error err, db) => (.error err, db)) = _
  rw [h]

theorem fail_bind {x : Script α} {f : α → Script β} {err : Error}
    (h : x us db = (.error err, db')) : (x >>= f) us db = (.error err, db') := by
  show (match x us db with
    | (.ok a, db) => f a us db
    | (.error err, db) => (.error err, db)) = _
  rw [h]

end Script

def decimal? (s : String) : Option ℕ :=
  if s = "" then none
  else if s.toList.all Char.isDigit then some (Nat.ofDigitChars 10 s.toList 0) else none

theorem decimal?_repr (n : ℕ) : decimal? n.repr = some n := by
  have hdigits : ∀ c ∈ n.repr.toList, c.isDigit := by
    intro c hc
    exact Nat.isDigit_of_mem_toDigits (b := 10) (n := n) (by decide) (by decide)
      (by simpa [Nat.repr] using hc)
  have hne : n.repr ≠ "" := by
    intro hempty
    have hlength := Nat.length_toDigits_pos (b := 10) (n := n)
    have hnil : Nat.toDigits 10 n = [] := by
      simpa [Nat.repr] using congrArg String.toList hempty
    rw [hnil] at hlength
    exact lt_irrefl _ hlength
  rw [decimal?, if_neg hne, if_pos (List.all_eq_true.mpr hdigits)]
  simp [Nat.repr, Nat.ofDigitChars_ten_toDigits]

/-- Lua's `tonumber` where the result is calculated with. -/
def tonumber (s : String) : Script ℕ :=
  match decimal? s with
  | some n => pure n
  | none => Script.fail .arithmeticOnNil

/-- `TIME`: seconds and microseconds. -/
def time : Script (String × String) := fun us db =>
  (.ok ((us / 1000000).repr, (us % 1000000).repr), db)

section

variable {us : ℕ} {db : Db}

theorem tonumber_repr (n : ℕ) : tonumber n.repr us db = (.ok n, db) := by
  rw [tonumber, decimal?_repr]
  rfl

end

/-- A container a key can hold; an empty one is a missing key. -/
class Container (α : Type) extends EmptyCollection α where
  wrap : α → Value
  unwrap : Value → Option α
  unwrap_wrap : ∀ a, unwrap (wrap a) = some a
  dec : DecidablePred fun a : α => a = ∅

open Container

instance : Container (List String) where
  wrap := .list
  unwrap
    | .list l => some l
    | _ => none
  unwrap_wrap _ := rfl
  dec a := inferInstanceAs (Decidable (a = []))

instance : Container (Finset String) where
  wrap := .set
  unwrap
    | .set s => some s
    | _ => none
  unwrap_wrap _ := rfl
  dec a := inferInstanceAs (Decidable (a = ∅))

instance : Container (SortedSet String) where
  wrap := .zset
  unwrap
    | .zset z => some z
    | _ => none
  unwrap_wrap _ := rfl
  dec a := inferInstanceAs (Decidable (a = ∅))

instance : Container Hash where
  wrap := .hash
  unwrap
    | .hash h => some h
    | _ => none
  unwrap_wrap _ := rfl
  dec a := inferInstanceAs (Decidable (a = ∅))

section

variable {α β : Type} [Container α]

def entry (a : α) (expiresAt : Option ℕ) : Option (Volatile Value) :=
  have := Container.dec a
  if a = ∅ then none else some ⟨wrap a, expiresAt⟩

def read (k : String) : Script α := fun us db =>
  match fetch (us / 1000) (db.lookup k) with
  | none => (.ok ∅, db)
  | some v =>
    match unwrap v with
    | some a => (.ok a, db)
    | none => (.error .wrongType, db)

def expiry (now : ℕ) : Option (Volatile Value) → Option ℕ
  | some v => if v.Live now then v.expiresAt else none
  | none => none

def write (k : String) (a : α) : Script Unit := fun us db =>
  (.ok (), db.put k (entry a (expiry (us / 1000) (db.lookup k))))

def change (k : String) (f : α → β × α) : Script β := do
  let a ← read k
  write k (f a).2
  return (f a).1

end

def llen (k : String) : Script ℕ := do
  let l : List String ← read k
  return l.length

def lpush (k item : String) : Script ℕ :=
  change k fun l : List String => (l.length + 1, item :: l)

def rpop (k : String) : Script (Option String) :=
  change k fun l : List String => (l.getLast?, l.dropLast)

def lpos (k item : String) : Script (Option ℕ) := do
  let l : List String ← read k
  return l.idxOf? item

def sismember (k member : String) : Script ℕ := do
  let s : Finset String ← read k
  return if member ∈ s then 1 else 0

def sadd (k member : String) : Script Unit :=
  change k fun s : Finset String => ((), insert member s)

def srem (k member : String) : Script Unit :=
  change k fun s : Finset String => ((), s.erase member)

/-- `SMEMBERS` gives the members in any order. -/
def smembers (k : String) : Script (Finset String) := read k

/-- Scores are read as text. -/
def zscore (k member : String) : Script (Option String) := do
  let z : SortedSet String ← read k
  return (z.zscore member).map Nat.repr

def zcard (k : String) : Script ℕ := do
  let z : SortedSet String ← read k
  return z.keys.card

/-- `ZRANGE key 0 0`, the first of whose elements may be missing -/
def zrangeFirst (k : String) : Script (Option String) := do
  let z : SortedSet String ← read k
  return z.zrangeFirst

/-- `ZRANGE key -inf cutoff BYSCORE`, with or without `LIMIT 0 limit` -/
def zrangeByScore (k : String) (cutoff : ℕ) (limit : Option ℕ) : Script (List String) := do
  let z : SortedSet String ← read k
  return z.zrangeByScore cutoff (limit.getD z.keys.card)

def zadd (k : String) (score : ℕ) (member : String) : Script Unit :=
  change k fun z : SortedSet String => ((), z.zadd score member)

def zaddNX (k : String) (score : ℕ) (member : String) : Script Unit :=
  change k fun z : SortedSet String => ((), z.zaddNX score member)

def zaddXX (k : String) (score : ℕ) (member : String) : Script Unit :=
  change k fun z : SortedSet String => ((), z.zaddXX score member)

def zrem (k member : String) : Script ℕ :=
  change k fun z : SortedSet String => (if (z.zscore member).isSome then 1 else 0, z.zrem member)

def hget (k field : String) : Script (Option String) := do
  let h : Hash ← read k
  return h.lookup field

/-- `HSET key field value …` -/
def hset (k : String) (fields : List (String × String)) : Script Unit :=
  change k fun h : Hash => ((), fields.foldl (fun h p => h.insert p.1 p.2) h)

def hdel (k field : String) : Script Unit :=
  change k fun h : Hash => ((), h.erase field)

def get (k : String) : Script (Option String) := fun us db =>
  match fetch (us / 1000) (db.lookup k) with
  | none => (.ok none, db)
  | some (.string text) => (.ok (some text), db)
  | some _ => (.error .wrongType, db)

def set (k text : String) : Script Unit := fun _ db =>
  (.ok (), db.put k (some ⟨.string text, none⟩))

/-- `SET key text NX EX ttl`; the reply tells whether the key has been set. -/
def setNXEX (k text : String) (ttl : ℕ) : Script Bool := fun us db =>
  if ttl = 0 then (.error .invalidExpireTime, db)
  else
    match fetch (us / 1000) (db.lookup k) with
    | none => (.ok true, db.put k (expire (us / 1000) ttl (.string text)))
    | some _ => (.ok false, db)

section

variable {us n : ℕ} {db : Db} {k : String}

theorem setNXEX_zero (k text : String) :
    setNXEX k text 0 us db = (.error .invalidExpireTime, db) := if_pos rfl

theorem setNXEX_new (hn : n ≠ 0) (h : fetch (us / 1000) (db.lookup k) = none) (text : String) :
    setNXEX k text n us db = (.ok true, db.put k (expire (us / 1000) n (.string text))) := by
  rw [setNXEX, if_neg hn, h]

theorem setNXEX_old {v : Value} (hn : n ≠ 0) (h : fetch (us / 1000) (db.lookup k) = some v)
    (text : String) : setNXEX k text n us db = (.ok false, db) := by
  rw [setNXEX, if_neg hn, h]

end

/-- The number in a counter, which is 0 for a missing key. -/
def counted : Option String → Script ℕ
  | none => pure 0
  | some text =>
    match decimal? text with
    | some n => pure n
    | none => Script.fail .notInteger

def recount (k : String) (n : ℕ) : Script Unit := fun us db =>
  (.ok (), db.put k (some ⟨.string n.repr, expiry (us / 1000) (db.lookup k)⟩))

/-- `INCR` on a counter that has only been counted up. -/
def incr (k : String) : Script ℕ := do
  let n ← counted (← get k)
  if n + 1 < 2 ^ 63 then
    recount k (n + 1)
    return n + 1
  else Script.fail .overflow

/-- `EXISTS` -/
def present (k : String) : Script ℕ := fun us db =>
  (.ok (if (fetch (us / 1000) (db.lookup k)).isSome then 1 else 0), db)

def del (k : String) : Script Unit := fun _ db => (.ok (), db.put k none)

def expireIn (k : String) (ttl : ℕ) : Script Unit := fun us db =>
  (.ok (), db.put k (expireAgain (us / 1000) ttl (db.lookup k)))

/-- `TTL`: -2 for a missing key and -1 for one that stays. -/
def ttl (k : String) : Script ℤ := fun us db =>
  match db.lookup k with
  | some v =>
    if v.Live (us / 1000) then (.ok ((v.ttl (us / 1000)).elim (-1) (↑·)), db) else (.ok (-2), db)
  | none => (.ok (-2), db)

/-- The key holds the container and does not expire. -/
def Holds {α : Type} [Container α] (db : Db) (k : String) (a : α) : Prop :=
  db.lookup k = entry a none

section

variable {α β : Type} [Container α] {us now : ℕ} {db : Db} {k k' : String} {a b : α}
  {e : Option (Volatile Value)}

theorem entry_empty (x : Option ℕ) : entry (∅ : α) x = none := by
  simp [entry]

theorem entry_of_ne (h : a ≠ ∅) (x : Option ℕ) : entry a x = some ⟨wrap a, x⟩ := by
  simp [entry, h]

theorem holds_put (db : Db) (k : String) (a : α) : Holds (db.put k (entry a none)) k a := by
  rw [Holds, Keyspace.lookup_put, if_pos rfl]

theorem Holds.put_ne (h : Holds db k a) (hne : k ≠ k') : Holds (db.put k' e) k a := by
  rw [Holds, Keyspace.lookup_put, if_neg hne]
  exact h

theorem Holds.expiry_eq (h : Holds db k a) : expiry now (db.lookup k) = none := by
  rw [h]
  by_cases ha : a = ∅
  · rw [ha, entry_empty]
    rfl
  · rw [entry_of_ne ha]
    simp [expiry]

theorem Holds.read_eq (h : Holds db k a) : read k us db = (.ok a, db) := by
  rw [read, h]
  by_cases ha : a = ∅
  · rw [ha, entry_empty]
    rfl
  · rw [entry_of_ne ha, fetch_persistent]
    simp [unwrap_wrap]

theorem Holds.write_eq (h : Holds db k a) (b : α) :
    write k b us db = (.ok (), db.put k (entry b none)) := by
  rw [write, h.expiry_eq]

theorem Holds.change_eq (h : Holds db k a) (f : α → β × α) :
    change k f us db = (.ok (f a).1, db.put k (entry (f a).2 none)) := by
  rw [change, Script.bind_eq h.read_eq, Script.bind_eq (h.write_eq (f a).2)]
  rfl

end

section

variable {us : ℕ} {db : Db} {k : String} {l : List String} {s : Finset String}
  {z : SortedSet String} {h : Hash}

theorem Holds.llen_eq (hk : Holds db k l) : llen k us db = (.ok l.length, db) := by
  rw [llen, Script.bind_eq hk.read_eq]
  rfl

theorem Holds.lpush_eq (hk : Holds db k l) (item : String) :
    lpush k item us db = (.ok (l.length + 1), db.put k (entry (item :: l) none)) := hk.change_eq _

theorem Holds.rpop_eq (hk : Holds db k l) :
    rpop k us db = (.ok l.getLast?, db.put k (entry l.dropLast none)) := hk.change_eq _

theorem Holds.lpos_eq (hk : Holds db k l) (item : String) :
    lpos k item us db = (.ok (l.idxOf? item), db) := by
  rw [lpos, Script.bind_eq hk.read_eq]
  rfl

theorem Holds.sismember_eq (hk : Holds db k s) (m : String) :
    sismember k m us db = (.ok (if m ∈ s then 1 else 0), db) := by
  rw [sismember, Script.bind_eq hk.read_eq]
  rfl

theorem Holds.sadd_eq (hk : Holds db k s) (m : String) :
    sadd k m us db = (.ok (), db.put k (entry (insert m s) none)) := hk.change_eq _

theorem Holds.srem_eq (hk : Holds db k s) (m : String) :
    srem k m us db = (.ok (), db.put k (entry (s.erase m) none)) := hk.change_eq _

theorem Holds.zscore_eq (hk : Holds db k z) (m : String) :
    zscore k m us db = (.ok ((z.zscore m).map Nat.repr), db) := by
  rw [zscore, Script.bind_eq hk.read_eq]
  rfl

theorem Holds.zcard_eq (hk : Holds db k z) : zcard k us db = (.ok z.keys.card, db) := by
  rw [zcard, Script.bind_eq hk.read_eq]
  rfl

theorem Holds.zrangeFirst_eq (hk : Holds db k z) :
    zrangeFirst k us db = (.ok z.zrangeFirst, db) := by
  rw [zrangeFirst, Script.bind_eq hk.read_eq]
  rfl

theorem Holds.zrangeByScore_eq (hk : Holds db k z) (cutoff limit : ℕ) :
    zrangeByScore k cutoff (some limit) us db = (.ok (z.zrangeByScore cutoff limit), db) := by
  rw [zrangeByScore, Script.bind_eq hk.read_eq]
  rfl

theorem Holds.zadd_eq (hk : Holds db k z) (score : ℕ) (m : String) :
    zadd k score m us db = (.ok (), db.put k (entry (z.zadd score m) none)) := hk.change_eq _

theorem Holds.zaddNX_eq (hk : Holds db k z) (score : ℕ) (m : String) :
    zaddNX k score m us db = (.ok (), db.put k (entry (z.zaddNX score m) none)) := hk.change_eq _

theorem Holds.zaddXX_eq (hk : Holds db k z) (score : ℕ) (m : String) :
    zaddXX k score m us db = (.ok (), db.put k (entry (z.zaddXX score m) none)) := hk.change_eq _

theorem Holds.zrem_eq (hk : Holds db k z) (m : String) :
    zrem k m us db = (.ok (if (z.zscore m).isSome then 1 else 0),
      db.put k (entry (z.zrem m) none)) := hk.change_eq _

theorem Holds.hget_eq (hk : Holds db k h) (field : String) :
    hget k field us db = (.ok (h.lookup field), db) := by
  rw [hget, Script.bind_eq hk.read_eq]
  rfl

theorem Holds.hset_eq (hk : Holds db k h) (field value : String) :
    hset k [(field, value)] us db = (.ok (), db.put k (entry (h.insert field value) none)) :=
  hk.change_eq _

theorem Holds.hdel_eq (hk : Holds db k h) (field : String) :
    hdel k field us db = (.ok (), db.put k (entry (h.erase field) none)) := hk.change_eq _

end

section

variable {α β : Type} [Container α] {us now : ℕ} {db : Db} {k : String} {a : α} {x : Option ℕ}
  {e e' : Option (Volatile Value)}

theorem fetch_of_live {v : Volatile Value} (h : v.Live now) :
    fetch now (some v) = some v.value := by
  rw [fetch, if_pos h]

theorem put_put (db : Db) (k : String) : (db.put k e).put k e' = db.put k e' := by
  apply Finmap.ext_lookup
  intro k'
  simp only [Keyspace.lookup_put]
  split_ifs <;> rfl

theorem read_live (h : db.lookup k = some ⟨wrap a, x⟩)
    (hx : Volatile.Live (us / 1000) ⟨wrap a, x⟩) : read k us db = (.ok a, db) := by
  rw [read, h, fetch_of_live hx]
  simp [unwrap_wrap]

theorem read_gone (h : fetch (us / 1000) (db.lookup k) = none) :
    read k us db = (.ok (∅ : α), db) := by
  rw [read, h]

theorem change_live (h : db.lookup k = some ⟨wrap a, x⟩)
    (hx : Volatile.Live (us / 1000) ⟨wrap a, x⟩) (f : α → β × α) :
    change k f us db = (.ok (f a).1, db.put k (entry (f a).2 x)) := by
  have hwrite : write k (f a).2 us db = (.ok (), db.put k (entry (f a).2 x)) := by
    rw [write, h, expiry, if_pos hx]
  rw [change, Script.bind_eq (read_live h hx), Script.bind_eq hwrite]
  rfl

theorem change_gone (h : fetch (us / 1000) (db.lookup k) = none) (f : α → β × α) :
    change k f us db = (.ok (f ∅).1, db.put k (entry (f ∅).2 none)) := by
  have hexpiry : expiry (us / 1000) (db.lookup k) = none := by
    cases hk : db.lookup k with
    | none => rfl
    | some v =>
      rw [expiry, if_neg]
      intro hlive
      rw [hk, fetch_of_live hlive] at h
      cases h
  have hwrite : write k (f ∅).2 us db = (.ok (), db.put k (entry (f ∅).2 none)) := by
    rw [write, hexpiry]
  rw [change, Script.bind_eq (read_gone h), Script.bind_eq hwrite]
  rfl

theorem present_gone (h : fetch (us / 1000) (db.lookup k) = none) :
    present k us db = (.ok 0, db) := by
  rw [present, h]
  rfl

theorem present_live {v : Volatile Value} (h : db.lookup k = some v) (hlive : v.Live (us / 1000)) :
    present k us db = (.ok 1, db) := by
  rw [present, h, fetch_of_live hlive]
  rfl

theorem get_gone (h : fetch (us / 1000) (db.lookup k) = none) : get k us db = (.ok none, db) := by
  rw [get, h]

theorem get_live {text : String} (h : db.lookup k = some ⟨.string text, x⟩)
    (hx : Volatile.Live (us / 1000) (⟨.string text, x⟩ : Volatile Value)) :
    get k us db = (.ok (some text), db) := by
  rw [get, h, fetch_of_live hx]

theorem hget_live {f : Hash} (h : db.lookup k = some ⟨.hash f, x⟩)
    (hx : Volatile.Live (us / 1000) (⟨.hash f, x⟩ : Volatile Value)) (field : String) :
    hget k field us db = (.ok (f.lookup field), db) := by
  have hread : read k us db = (.ok f, db) := read_live h hx
  rw [hget, Script.bind_eq hread]
  rfl

theorem hget_gone (h : fetch (us / 1000) (db.lookup k) = none) (field : String) :
    hget k field us db = (.ok none, db) := by
  have hread : read k us db = (.ok (∅ : Hash), db) := read_gone h
  rw [hget, Script.bind_eq hread]
  rfl

theorem insert_ne_empty (f : Hash) (field value : String) : f.insert field value ≠ ∅ := by
  intro hempty
  have hlookup := congrArg (Finmap.lookup field) hempty
  rw [Finmap.lookup_insert, Finmap.lookup_empty] at hlookup
  cases hlookup

theorem hset_live {f g : Hash} {fields : List (String × String)}
    (h : db.lookup k = some ⟨.hash f, x⟩)
    (hx : Volatile.Live (us / 1000) (⟨.hash f, x⟩ : Volatile Value))
    (hg : fields.foldl (fun h p => h.insert p.1 p.2) f = g) (hne : g ≠ ∅) :
    hset k fields us db = (.ok (), db.put k (some ⟨.hash g, x⟩)) := by
  have hchange : hset k fields us db = (.ok (), db.put k _) := change_live h hx _
  rw [hchange, hg, entry_of_ne hne]
  rfl

theorem hset_gone {g : Hash} {fields : List (String × String)}
    (h : fetch (us / 1000) (db.lookup k) = none)
    (hg : fields.foldl (fun h p => h.insert p.1 p.2) ∅ = g) (hne : g ≠ ∅) :
    hset k fields us db = (.ok (), db.put k (some ⟨.hash g, none⟩)) := by
  have hchange : hset k fields us db = (.ok (), db.put k _) := change_gone h _
  rw [hchange, hg, entry_of_ne hne]
  rfl

theorem expireIn_live {v : Volatile Value} (h : db.lookup k = some v) (hlive : v.Live (us / 1000))
    (n : ℕ) : expireIn k n us db = (.ok (), db.put k (expire (us / 1000) n v.value)) := by
  rw [expireIn, h, expireAgain, fetch_of_live hlive]
  rfl

theorem expireIn_put (v : Value) (hx : Volatile.Live (us / 1000) ⟨v, x⟩) (n : ℕ) :
    expireIn k n us (db.put k (some ⟨v, x⟩)) = (.ok (), db.put k (expire (us / 1000) n v)) := by
  have hlookup : (db.put k (some ⟨v, x⟩)).lookup k = some ⟨v, x⟩ := by
    rw [Keyspace.lookup_put, if_pos rfl]
  rw [expireIn_live hlookup hx, put_put]

theorem ttl_live {v : Volatile Value} (h : db.lookup k = some v) (hlive : v.Live (us / 1000)) :
    ttl k us db = (.ok ((v.ttl (us / 1000)).elim (-1) (↑·)), db) := by
  rw [ttl, h]
  exact if_pos hlive

end

/-- What is stored for a counter that has been counted up from nothing. -/
def counter (n : ℕ) : Option (Volatile Value) :=
  if n = 0 then none else some ⟨.string n.repr, none⟩

theorem incr_eq {us n : ℕ} {db : Db} {k : String} (h : db.lookup k = counter n)
    (hn : n + 1 < 2 ^ 63) : incr k us db = (.ok (n + 1), db.put k (counter (n + 1))) := by
  have hexpiry : expiry (us / 1000) (db.lookup k) = none := by
    rw [h, counter]
    split_ifs <;> simp [expiry]
  have hnext : counter (n + 1) = some ⟨.string (n + 1).repr, none⟩ := if_neg (by omega)
  have hget : ∃ found, get k us db = (.ok found, db) ∧ counted found us db = (.ok n, db) := by
    by_cases hzero : n = 0
    · refine ⟨none, ?_, by rw [hzero]; rfl⟩
      rw [get, h, counter, if_pos hzero, fetch_none]
    · refine ⟨some n.repr, ?_, ?_⟩
      · rw [get, h, counter, if_neg hzero, fetch_persistent]
      · rw [counted, decimal?_repr]
        rfl
  obtain ⟨found, hfound, hn'⟩ := hget
  have hset : recount k (n + 1) us db = (.ok (), db.put k (counter (n + 1))) := by
    rw [recount, hexpiry, hnext]
  rw [incr, Script.bind_eq hfound, Script.bind_eq hn', if_pos hn, Script.bind_eq hset]
  rfl

/-- Texts none of which begins with another one can be told apart at the beginning of a key. -/
theorem tag_append_inj {ι : Type*} {text : ι → String}
    (hfree : ∀ i j, (text i).toList <+: (text j).toList → i = j) {i j : ι} {rest rest' : String}
    (h : text i ++ rest = text j ++ rest') : i = j ∧ rest = rest' := by
  have hlists := congrArg String.toList h
  rw [String.toList_append, String.toList_append] at hlists
  have hi : (text i).toList <+: (text i).toList ++ rest.toList := List.prefix_append _ _
  have hj : (text j).toList <+: (text i).toList ++ rest.toList := by
    rw [hlists]
    exact List.prefix_append _ _
  have heq : i = j := by
    rcases List.prefix_or_prefix_of_prefix hi hj with hle | hle
    · exact hfree i j hle
    · exact (hfree j i hle).symm
  subst heq
  exact ⟨rfl, String.toList_inj.mp (List.append_cancel_left hlists)⟩

end InferenceQueue.RedisServer

import InferenceQueue.RedisKeys
import InferenceQueue.Shared

namespace InferenceQueue.Coalescing

open Redis

structure InferenceInput where
  prompt : String
  model : String
deriving DecidableEq

structure InferenceRequest where
  userID : UserID
  prompt : String
  model : String
deriving DecidableEq

/-- `unicode.IsSpace` -/
def isSpace (c : Char) : Bool :=
  let n := c.toNat
  (9 ≤ n && n ≤ 13) || n = 32 || n = 0x85 || n = 0xA0 || n = 0x1680 ||
    (0x2000 ≤ n && n ≤ 0x200A) || n = 0x2028 || n = 0x2029 || n = 0x202F || n = 0x205F ||
    n = 0x3000

def trimSpace (s : String) : String :=
  String.ofList ((s.toList.dropWhile isSpace).reverse.dropWhile isSpace).reverse

def normalizeRequest (input : InferenceInput) : InferenceInput :=
  ⟨trimSpace input.prompt, trimSpace input.model⟩

/-- `ValidateInferenceInput`, with the user `Submit` fills in. -/
def validateInferenceInput (userID : UserID) (input : InferenceInput) :
    Except GoError InferenceRequest :=
  let normalized := normalizeRequest input
  if normalized.prompt = "" then .error (.sentinel .inferenceEmptyPrompt)
  else if normalized.model = "" then .error (.sentinel .inferenceModelNotSet)
  else .ok ⟨userID, normalized.prompt, normalized.model⟩

def InferenceRequest.generateKey (r : InferenceRequest) : String :=
  r.userID.val ++ ":" ++ r.prompt ++ ":" ++ r.model

/-- `HashRequest`: 64-bit FNV-1a. -/
def fnv1a (key : String) : UInt64 :=
  key.toUTF8.data.toList.foldl (fun h b => (h ^^^ b.toUInt64) * 1099511628211) 14695981039346656037

def buildCoalescingKey (userID : UserID) (hashRequest : UInt64) : String :=
  "coalescing:" ++ userID.val ++ ":inference:" ++ hashRequest.toNat.repr

inductive CoalescingAction
  | proceed
  | rejected
deriving DecidableEq, Repr

/-- Under a key stands when it was set. -/
abbrev Store := Keyspace String ℕ

/-- `SET key now NX EX ttl`, which Redis refuses for a TTL of 0. -/
def coalescingScript (now ttl : ℕ) (key : String) (s : Store) :
    Except GoError CoalescingAction × Store :=
  if ttl = 0 then (.error (.text "ERR invalid expire time in 'set' command"), s)
  else
    match s.get now key with
    | none => (.ok .proceed, s.put key (expire now ttl (now / 1000)))
    | some _ => (.ok .rejected, s)

def tryCoalesce (now ttl : ℕ) (key : String) (s : Store) :
    Except GoError CoalescingAction × Store :=
  let r := coalescingScript now ttl key s
  (r.1.mapError (.wrap "coalescing failed: "), r.2)

inductive Op
  | tryCoalesce (key : String)
  | delete (key : String)
deriving DecidableEq

def perform (now ttl : ℕ) : Op → Store → Store
  | .tryCoalesce key, s => (tryCoalesce now ttl key s).2
  | .delete key, s => s.put key none

section

variable {now ttl : ℕ} {key : String} {s : Store}

theorem tryCoalesce_zero (now : ℕ) (key : String) (s : Store) :
    ∃ err, tryCoalesce now 0 key s = (.error err, s) := ⟨_, rfl⟩

theorem tryCoalesce_of_none (httl : ttl ≠ 0) (h : s.get now key = none) :
    tryCoalesce now ttl key s =
      (.ok .proceed, s.put key (some ⟨now / 1000, some (now + 1000 * ttl)⟩)) := by
  simp [tryCoalesce, coalescingScript, httl, h, expire, Except.mapError]

theorem tryCoalesce_of_some {set : ℕ} (httl : ttl ≠ 0) (h : s.get now key = some set) :
    tryCoalesce now ttl key s = (.ok .rejected, s) := by
  simp [tryCoalesce, coalescingScript, httl, h, Except.mapError]

theorem tryCoalesce_rejects {action : CoalescingAction}
    (h : (tryCoalesce now ttl key s).1 = .ok action) :
    action = .rejected ↔ s.get now key ≠ none := by
  by_cases httl : ttl = 0
  · subst httl
    obtain ⟨err, herr⟩ := tryCoalesce_zero now key s
    rw [herr] at h
    cases h
  · cases hget : s.get now key with
    | none =>
      rw [tryCoalesce_of_none httl hget] at h
      cases h
      simp
    | some set =>
      rw [tryCoalesce_of_some httl hget] at h
      cases h
      simp

theorem tryCoalesce_rejected_snd (h : (tryCoalesce now ttl key s).1 = .ok .rejected) :
    (tryCoalesce now ttl key s).2 = s := by
  have httl : ttl ≠ 0 := by
    rintro rfl
    cases h
  obtain ⟨set, hset⟩ := Option.ne_none_iff_exists'.mp ((tryCoalesce_rejects h).mp rfl)
  rw [tryCoalesce_of_some httl hset]

end

theorem colon_not_mem_repr (n : ℕ) : ':' ∉ n.repr.toList := by
  intro hmem
  have hdigit := Nat.isDigit_of_mem_toDigits (b := 10) (n := n) (c := ':') (by decide) (by decide)
    (by simpa [Nat.repr] using hmem)
  cases hdigit

theorem takeWhile_reverse_append {d x : List Char} (h : ':' ∉ d) :
    (x ++ ':' :: d).reverse.takeWhile (· ≠ ':') = d.reverse := by
  rw [List.reverse_append, List.reverse_cons, List.append_assoc, List.takeWhile_append_of_pos]
  · simp
  · intro c hc
    simp only [ne_eq, decide_not, Bool.not_eq_true', decide_eq_false_iff_not]
    rintro rfl
    exact h (List.mem_reverse.mp hc)

/-- The last colon of a key stands before the hash. -/
theorem buildCoalescingKey_inj {u u' : UserID} {h h' : UInt64} :
    buildCoalescingKey u h = buildCoalescingKey u' h' ↔ u = u' ∧ h = h' := by
  refine ⟨fun heq => ?_, fun ⟨hu, hh⟩ => by rw [hu, hh]⟩
  have hcut : ∀ (u : UserID) (h : UInt64), (buildCoalescingKey u h).toList =
      ("coalescing:".toList ++ u.val.toList ++ ":inference".toList) ++
        ':' :: h.toNat.repr.toList := by
    intro u h
    have hsep : ":inference:".toList = ":inference".toList ++ [':'] := by decide
    simp [buildCoalescingKey, hsep]
  have hlists := String.toList_inj.mpr heq
  have hdigits : Nat.toDigits 10 h.toNat = Nat.toDigits 10 h'.toNat := by
    have htail := congrArg (fun l => l.reverse.takeWhile (· ≠ ':')) hlists
    simp only [hcut] at htail
    rw [takeWhile_reverse_append (colon_not_mem_repr _),
      takeWhile_reverse_append (colon_not_mem_repr _), List.reverse_inj] at htail
    simpa [Nat.repr] using htail
  have hh : h = h' := by
    apply UInt64.toNat_inj.mp
    rw [← Nat.ofDigitChars_ten_toDigits (n := h.toNat), hdigits, Nat.ofDigitChars_ten_toDigits]
  subst hh
  rw [hcut, hcut, List.append_cancel_right_eq, List.append_cancel_right_eq,
    List.append_cancel_left_eq, String.toList_inj] at hlists
  exact ⟨Ident.val_injective hlists, rfl⟩

end InferenceQueue.Coalescing

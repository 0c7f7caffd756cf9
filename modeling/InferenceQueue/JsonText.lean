import Mathlib.Data.List.Basic

namespace InferenceQueue.JsonText

abbrev Text := List Char

inductive Json
  | null
  | bool (b : Bool)
  | number (text : Text)
  | string (s : Text)
  | array (elements : List Json)
  | object (members : List (Text × Json))

def hexDigit (n : ℕ) : Char := if n < 10 then Char.ofNat (48 + n) else Char.ofNat (87 + n)

def hexValue (c : Char) : Option ℕ :=
  if '0' ≤ c ∧ c ≤ '9' then some (c.toNat - 48)
  else if 'a' ≤ c ∧ c ≤ 'f' then some (c.toNat - 87)
  else if 'A' ≤ c ∧ c ≤ 'F' then some (c.toNat - 55)
  else none

def unicodeEscape (n : ℕ) : Text :=
  ['\\', 'u', hexDigit (n / 4096 % 16), hexDigit (n / 256 % 16), hexDigit (n / 16 % 16),
    hexDigit (n % 16)]

def shortEscape (c : Char) : Option Char :=
  if c = '"' ∨ c = '\\' then some c
  else if c = '\x08' then some 'b'
  else if c = '\x0c' then some 'f'
  else if c = '\n' then some 'n'
  else if c = '\r' then some 'r'
  else if c = '\t' then some 't'
  else none

/-- Control characters, those of HTML, and the two line separators. -/
def escapesAsUnicode (c : Char) : Prop :=
  c.toNat < 32 ∨ c = '<' ∨ c = '>' ∨ c = '&' ∨ c = '\u2028' ∨ c = '\u2029'

instance (c : Char) : Decidable (escapesAsUnicode c) := by
  unfold escapesAsUnicode; infer_instance

def escape (c : Char) : Text :=
  match shortEscape c with
  | some letter => ['\\', letter]
  | none => if escapesAsUnicode c then unicodeEscape c.toNat else [c]

/-- `json.Marshal` of a string. -/
def quote (s : Text) : Text := '"' :: (s.flatMap escape ++ ['"'])

def hex4 : Text → Option (ℕ × Text)
  | a :: b :: c :: d :: cs =>
    match hexValue a, hexValue b, hexValue c, hexValue d with
    | some a, some b, some c, some d => some (4096 * a + 256 * b + 16 * c + d, cs)
    | _, _, _, _ => none
  | _ => none

def isSurrogate (n : ℕ) : Bool := 0xD800 ≤ n && n < 0xE000

def surrogatePair (hi lo : ℕ) : Option Char :=
  if hi < 0xDC00 ∧ 0xDC00 ≤ lo ∧ lo < 0xE000 then
    some (Char.ofNat ((hi - 0xD800) * 0x400 + (lo - 0xDC00) + 0x10000))
  else none

/-- The second half of a surrogate pair, if it is there. -/
def lowSurrogate (hi : ℕ) : Text → Option (Char × Text)
  | '\\' :: 'u' :: cs => (hex4 cs).bind fun lo => (surrogatePair hi lo.1).map (·, lo.2)
  | _ => none

/-- A surrogate that is no part of a pair becomes U+FFFD. -/
def unicodeChar (n : ℕ) (cs : Text) : Char × Text :=
  if isSurrogate n then (lowSurrogate n cs).getD ('\ufffd', cs) else (Char.ofNat n, cs)

def stringChar : Text → Option (Char × Text)
  | '\\' :: 'u' :: cs => (hex4 cs).map fun n => unicodeChar n.1 n.2
  | '\\' :: c :: cs =>
    match c with
    | '"' | '\\' | '/' => some (c, cs)
    | 'b' => some ('\x08', cs)
    | 'f' => some ('\x0c', cs)
    | 'n' => some ('\n', cs)
    | 'r' => some ('\r', cs)
    | 't' => some ('\t', cs)
    | _ => none
  | c :: cs => if c.toNat < 32 ∨ c = '\\' then none else some (c, cs)
  | [] => none

/-- A string behind its first quote; the first argument bounds its length. -/
def stringBody : ℕ → Text → Option (Text × Text)
  | 0, _ => none
  | _ + 1, '"' :: cs => some ([], cs)
  | n + 1, cs =>
    (stringChar cs).bind fun c => (stringBody n c.2).map fun s => (c.1 :: s.1, s.2)

def string (cs : Text) : Option (Text × Text) := stringBody cs.length cs

def isDigit (c : Char) : Bool := '0' ≤ c && c ≤ '9'

def digits (cs : Text) : Option (Text × Text) :=
  if (cs.takeWhile isDigit).isEmpty then none
  else some (cs.takeWhile isDigit, cs.dropWhile isDigit)

def fraction : Text → Option (Text × Text)
  | '.' :: cs => (digits cs).map fun d => ('.' :: d.1, d.2)
  | cs => some ([], cs)

def exponent : Text → Option (Text × Text)
  | e :: cs =>
    if e = 'e' ∨ e = 'E' then
      match cs with
      | '+' :: cs => (digits cs).map fun d => (e :: '+' :: d.1, d.2)
      | '-' :: cs => (digits cs).map fun d => (e :: '-' :: d.1, d.2)
      | cs => (digits cs).map fun d => (e :: d.1, d.2)
    else some ([], e :: cs)
  | [] => some ([], [])

def integer : Text → Option (Text × Text)
  | '0' :: cs => some (['0'], cs)
  | cs => digits cs

def unsigned (cs : Text) : Option (Text × Text) := do
  let (i, cs) ← integer cs
  let (f, cs) ← fraction cs
  let (e, cs) ← exponent cs
  return (i ++ f ++ e, cs)

def number : Text → Option (Text × Text)
  | '-' :: cs => (unsigned cs).map fun n => ('-' :: n.1, n.2)
  | cs => unsigned cs

def isSpace (c : Char) : Bool := c = ' ' || c = '\t' || c = '\r' || c = '\n'

def skipSpace (cs : Text) : Text := cs.dropWhile isSpace

mutual

/-- The first argument bounds the length of the text, the second how deep it is nested. -/
def value : ℕ → ℕ → Text → Option (Json × Text)
  | 0, _, _ => none
  | n + 1, depth, cs =>
    match skipSpace cs with
    | 'n' :: 'u' :: 'l' :: 'l' :: cs => some (.null, cs)
    | 't' :: 'r' :: 'u' :: 'e' :: cs => some (.bool true, cs)
    | 'f' :: 'a' :: 'l' :: 's' :: 'e' :: cs => some (.bool false, cs)
    | '"' :: cs => (string cs).map fun s => (.string s.1, s.2)
    | '[' :: cs =>
      match depth with
      | 0 => none
      | depth + 1 =>
        match skipSpace cs with
        | ']' :: cs => some (.array [], cs)
        | cs => (elements n depth cs).map fun l => (.array l.1, l.2)
    | '\x7b' :: cs =>
      match depth with
      | 0 => none
      | depth + 1 =>
        match skipSpace cs with
        | '\x7d' :: cs => some (.object [], cs)
        | cs => (members n depth cs).map fun l => (.object l.1, l.2)
    | cs => (number cs).map fun d => (.number d.1, d.2)

def elements : ℕ → ℕ → Text → Option (List Json × Text)
  | 0, _, _ => none
  | n + 1, depth, cs =>
    (value n depth cs).bind fun v =>
      match skipSpace v.2 with
      | ']' :: cs => some ([v.1], cs)
      | ',' :: cs => (elements n depth cs).map fun l => (v.1 :: l.1, l.2)
      | _ => none

def members : ℕ → ℕ → Text → Option (List (Text × Json) × Text)
  | 0, _, _ => none
  | n + 1, depth, cs =>
    match skipSpace cs with
    | '"' :: cs =>
      (string cs).bind fun key =>
        match skipSpace key.2 with
        | ':' :: cs =>
          (value n depth cs).bind fun v =>
            match skipSpace v.2 with
            | '\x7d' :: cs => some ([(key.1, v.1)], cs)
            | ',' :: cs => (members n depth cs).map fun l => ((key.1, v.1) :: l.1, l.2)
            | _ => none
        | _ => none
    | _ => none

end

/-- A whole text; `maxDepth` bounds how deep arrays and objects are nested. -/
def parse (maxDepth : ℕ) (cs : Text) : Option Json :=
  (value (2 * cs.length + 2) maxDepth cs).bind fun v =>
    if (skipSpace v.2).isEmpty then some v.1 else none

variable {n depth : ℕ} {c : Char} {s cs : Text}

theorem hexValue_hexDigit (h : n < 16) : hexValue (hexDigit n) = some n := by
  have hall : ∀ k : Fin 16, hexValue (hexDigit k) = some k.val := by decide
  exact hall ⟨n, h⟩

theorem hex4_digits (h : n < 65536) (cs : Text) :
    hex4 ((unicodeEscape n).drop 2 ++ cs) = some (n, cs) := by
  have ha : hexValue (hexDigit (n / 4096 % 16)) = some (n / 4096 % 16) :=
    hexValue_hexDigit (by omega)
  have hb : hexValue (hexDigit (n / 256 % 16)) = some (n / 256 % 16) :=
    hexValue_hexDigit (by omega)
  have hc : hexValue (hexDigit (n / 16 % 16)) = some (n / 16 % 16) :=
    hexValue_hexDigit (by omega)
  have hd : hexValue (hexDigit (n % 16)) = some (n % 16) := hexValue_hexDigit (by omega)
  have hn : 4096 * (n / 4096 % 16) + 256 * (n / 256 % 16) + 16 * (n / 16 % 16) + n % 16 = n := by
    omega
  simp only [unicodeEscape, List.drop_succ_cons, List.drop_zero, List.cons_append, List.nil_append,
    hex4, ha, hb, hc, hd, hn]

theorem toNat_of_escapesAsUnicode (h : escapesAsUnicode c) : c.toNat < 0xD800 := by
  rcases h with h | rfl | rfl | rfl | rfl | rfl
  · omega
  all_goals decide

theorem stringChar_unicodeEscape (h : c.toNat < 0xD800) (cs : Text) :
    stringChar (unicodeEscape c.toNat ++ cs) = some (c, cs) := by
  have hhex := hex4_digits (show c.toNat < 65536 by omega) cs
  have hplain : isSurrogate c.toNat = false := by
    simp only [isSurrogate, Bool.and_eq_false_iff, decide_eq_false_iff_not]
    omega
  show (hex4 ((unicodeEscape c.toNat).drop 2 ++ cs)).map _ = _
  rw [hhex]
  simp [unicodeChar, hplain]

theorem stringChar_shortEscape {letter : Char} (h : shortEscape c = some letter) (cs : Text) :
    stringChar ('\\' :: letter :: cs) = some (c, cs) := by
  unfold shortEscape at h
  split_ifs at h with hself
  · cases h
    rcases hself with rfl | rfl <;> rfl
  all_goals
    subst_vars
    cases h
    rfl

theorem stringChar_plain (hshort : shortEscape c = none) (h : ¬escapesAsUnicode c) (cs : Text) :
    stringChar (c :: cs) = some (c, cs) := by
  have hslash : c ≠ '\\' := by
    rintro rfl
    cases hshort
  have hcontrol : ¬c.toNat < 32 := fun hlt => h (Or.inl hlt)
  unfold stringChar
  split
  all_goals simp_all

theorem stringChar_escape (c : Char) (cs : Text) :
    stringChar (escape c ++ cs) = some (c, cs) := by
  unfold escape
  split
  · next letter hshort => exact stringChar_shortEscape hshort cs
  · next hshort =>
    split_ifs with hunicode
    · exact stringChar_unicodeEscape (toNat_of_escapesAsUnicode hunicode) cs
    · exact stringChar_plain hshort hunicode cs

theorem head_escape (c : Char) : ∃ d ds, escape c = d :: ds ∧ d ≠ '"' := by
  -- no quote stands in front of a character
  unfold escape
  split
  · exact ⟨_, _, rfl, by decide⟩
  · next hshort =>
    split_ifs
    · exact ⟨_, _, rfl, by decide⟩
    · refine ⟨_, _, rfl, ?_⟩
      rintro rfl
      cases hshort

theorem stringBody_escape (h : s.length < n) (cs : Text) :
    stringBody n (s.flatMap escape ++ '"' :: cs) = some (s, cs) := by
  induction s generalizing n with
  | nil =>
    obtain ⟨n, rfl⟩ : ∃ m, n = m + 1 := ⟨n - 1, by simp at h; omega⟩
    rfl
  | cons c s ih =>
    obtain ⟨n, rfl⟩ : ∃ m, n = m + 1 := ⟨n - 1, by simp at h; omega⟩
    obtain ⟨d, ds, hd, hquote⟩ := head_escape c
    have hchar := stringChar_escape c (s.flatMap escape ++ '"' :: cs)
    rw [List.flatMap_cons, List.append_assoc]
    rw [hd, List.cons_append] at hchar ⊢
    rw [stringBody, hchar, Option.bind_some, ih (by simpa using h)]
    · rfl
    · simpa using hquote

theorem length_flatMap_escape (s : Text) : s.length ≤ (s.flatMap escape).length := by
  induction s with
  | nil => simp
  | cons c s ih =>
    obtain ⟨d, ds, hd, -⟩ := head_escape c
    rw [List.flatMap_cons, hd]
    simp only [List.length_cons, List.cons_append, List.length_append]
    omega

theorem string_escape (s cs : Text) : string (s.flatMap escape ++ '"' :: cs) = some (s, cs) := by
  have hlen := length_flatMap_escape s
  apply stringBody_escape
  simp only [List.length_append, List.length_cons]
  omega

theorem value_quote (n depth : ℕ) (s cs : Text) :
    value (n + 1) depth (quote s ++ cs) = some (.string s, cs) := by
  have hread := string_escape s cs
  rw [quote, List.cons_append, List.append_assoc, List.singleton_append, value,
    show skipSpace ('"' :: (s.flatMap escape ++ '"' :: cs)) =
      '"' :: (s.flatMap escape ++ '"' :: cs) from rfl]
  simp only [hread, Option.map_some]

def writeMembers : List (Text × Text) → Text
  | [] => []
  | [f] => quote f.1 ++ ':' :: quote f.2
  | f :: fs => quote f.1 ++ ':' :: (quote f.2 ++ ',' :: writeMembers fs)

def writeObject (fs : List (Text × Text)) : Text := '\x7b' :: (writeMembers fs ++ ['\x7d'])

def stringMember (f : Text × Text) : Text × Json := (f.1, .string f.2)

theorem members_member (n depth : ℕ) (f : Text × Text) (cs : Text) :
    members (n + 2) depth (quote f.1 ++ ':' :: (quote f.2 ++ cs)) =
      match skipSpace cs with
      | '\x7d' :: cs => some ([stringMember f], cs)
      | ',' :: cs => (members (n + 1) depth cs).map fun l => (stringMember f :: l.1, l.2)
      | _ => none := by
  have hkey := string_escape f.1 (':' :: (quote f.2 ++ cs))
  rw [quote, List.cons_append, List.append_assoc, List.singleton_append, members,
    show skipSpace ('"' :: (f.1.flatMap escape ++ '"' :: ':' :: (quote f.2 ++ cs))) =
      '"' :: (f.1.flatMap escape ++ '"' :: ':' :: (quote f.2 ++ cs)) from rfl]
  simp only [hkey, Option.bind_some,
    show skipSpace (':' :: (quote f.2 ++ cs)) = ':' :: (quote f.2 ++ cs) from rfl, value_quote]
  rfl

theorem members_write {fs : List (Text × Text)} (hne : fs ≠ []) (h : fs.length < n)
    (depth : ℕ) (cs : Text) :
    members n depth (writeMembers fs ++ '\x7d' :: cs) = some (fs.map stringMember, cs) := by
  induction fs generalizing n with
  | nil => exact absurd rfl hne
  | cons f fs ih =>
    obtain ⟨n, rfl⟩ : ∃ m, n = m + 2 := ⟨n - 2, by simp at h; omega⟩
    cases fs with
    | nil =>
      rw [writeMembers, List.append_assoc, List.cons_append, members_member]
      rfl
    | cons g fs =>
      rw [writeMembers, List.append_assoc, List.cons_append, List.append_assoc, members_member,
        List.cons_append]
      · show (members (n + 1) depth _).map _ = _
        rw [ih (by simp) (by simpa using h)]
        rfl
      · simp

theorem length_quote (s : Text) : 2 ≤ (quote s).length := by
  simp only [quote, List.length_cons, List.length_append, List.length_nil]
  omega

theorem length_writeMembers (fs : List (Text × Text)) : fs.length ≤ (writeMembers fs).length := by
  induction fs with
  | nil => exact Nat.le_refl _
  | cons f fs ih =>
    have hquote := length_quote f.1
    cases fs with
    | nil =>
      simp only [writeMembers, List.length_append, List.length_cons, List.length_nil]
      omega
    | cons g fs =>
      simp only [writeMembers, List.length_append, List.length_cons] at ih ⊢
      omega

theorem skipSpace_writeMembers (f : Text × Text) (fs : List (Text × Text)) (cs : Text) :
    ∃ ds, writeMembers (f :: fs) ++ cs = '"' :: ds := by
  cases fs <;> exact ⟨_, rfl⟩

/-- An object of strings reads back, whatever its keys and strings are. -/
theorem parse_writeObject {fs : List (Text × Text)} {maxDepth : ℕ} (h : 0 < maxDepth) :
    parse maxDepth (writeObject fs) = some (.object (fs.map stringMember)) := by
  obtain ⟨depth, rfl⟩ : ∃ m, maxDepth = m + 1 := ⟨maxDepth - 1, by omega⟩
  cases fs with
  | nil => rfl
  | cons f fs =>
    have hlen := length_writeMembers (f :: fs)
    have hread : ∀ n, (writeMembers (f :: fs)).length < n →
        members n depth (writeMembers (f :: fs) ++ ['\x7d']) =
          some ((f :: fs).map stringMember, []) := by
      intro n hn
      exact members_write (by simp) (by omega) depth []
    obtain ⟨ds, hds⟩ := skipSpace_writeMembers f fs ['\x7d']
    have hvalue : ∀ n, (writeMembers (f :: fs)).length < n →
        value (n + 1) (depth + 1) (writeObject (f :: fs)) =
          some (.object ((f :: fs).map stringMember), []) := by
      intro n hn
      have hmembers := hread n hn
      rw [hds] at hmembers
      rw [writeObject, hds, value,
        show skipSpace ('\x7b' :: '"' :: ds) = '\x7b' :: '"' :: ds from rfl]
      show (members n depth ('"' :: ds)).map _ = _
      rw [hmembers]
      rfl
    rw [parse, hvalue]
    · rfl
    · simp only [writeObject, List.length_cons, List.length_append, List.length_nil]
      omega

end InferenceQueue.JsonText

import Mathlib.Algebra.Order.Field.Power
import Mathlib.Algebra.Order.Floor.Ring
import Mathlib.Data.Int.Log
import Mathlib.Data.Rat.Floor
import Mathlib.Tactic.Linarith
import Mathlib.Tactic.Positivity
import Mathlib.Tactic.Ring

namespace InferenceQueue.Binary64

/-- The nearest integer, and of two of them the even one. -/
def roundEven (x : ℚ) : ℤ :=
  if x - ⌊x⌋ < 1 / 2 then ⌊x⌋
  else if 1 / 2 < x - ⌊x⌋ then ⌊x⌋ + 1
  else if ⌊x⌋ % 2 = 0 then ⌊x⌋
  else ⌊x⌋ + 1

/-- The exponent of the last place: there are 53 of them, and none below `2 ^ -1074`. -/
def exponent (x : ℚ) : ℤ := max (Int.log 2 |x| - 52) (-1074)

def ulp (x : ℚ) : ℚ := 2 ^ exponent x

/-- The double nearest to `x`, for results below `2 ^ 1024`: there is no infinity here. -/
def round (x : ℚ) : ℚ := roundEven (x / ulp x) * ulp x

/-- Fifty-three bits and an exponent. -/
def IsDouble (x : ℚ) : Prop :=
  ∃ m e : ℤ, |m| ≤ 2 ^ 53 ∧ -1074 ≤ e ∧ x = m * 2 ^ e

variable {x d : ℚ} {n c : ℤ}

theorem le_roundEven (h : (n : ℚ) ≤ x) : n ≤ roundEven x := by
  have hfloor : n ≤ ⌊x⌋ := Int.le_floor.mpr h
  unfold roundEven
  split_ifs <;> omega

theorem roundEven_le (h : x ≤ n) : roundEven x ≤ n := by
  have hfloor : ⌊x⌋ ≤ n := Int.floor_le_iff.mpr (by linarith)
  have hsucc : 1 / 2 ≤ x - ⌊x⌋ → ⌊x⌋ + 1 ≤ n := by
    intro hhalf
    have hlt : (⌊x⌋ : ℚ) < n := by linarith
    exact Int.add_one_le_iff.mpr (by exact_mod_cast hlt)
  unfold roundEven
  split_ifs with hbelow habove heven
  · exact hfloor
  · exact hsucc habove.le
  · exact hfloor
  · exact hsucc (not_lt.mp hbelow)

@[simp] theorem roundEven_intCast (n : ℤ) : roundEven n = n :=
  le_antisymm (roundEven_le le_rfl) (le_roundEven le_rfl)

@[simp] theorem round_zero : round 0 = 0 := by
  have hzero := roundEven_intCast 0
  rw [Int.cast_zero] at hzero
  rw [round, zero_div, hzero, Int.cast_zero, zero_mul]

theorem ulp_pos (x : ℚ) : 0 < ulp x := zpow_pos (by norm_num) _

theorem two_zpow_add (a b : ℤ) : (2 : ℚ) ^ (a + b) = 2 ^ a * 2 ^ b :=
  zpow_add₀ (by norm_num) a b

/-- The largest mantissa is one with a larger exponent. -/
theorem IsDouble.normal (h : IsDouble d) :
    ∃ m e : ℤ, |m| < 2 ^ 53 ∧ -1074 ≤ e ∧ d = m * 2 ^ e := by
  obtain ⟨m, e, hm, he, rfl⟩ := h
  rcases hm.lt_or_eq with hlt | heq
  · exact ⟨m, e, hlt, he, rfl⟩
  · rcases (abs_eq (by norm_num)).mp heq with rfl | rfl
    · exact ⟨1, 53 + e, by norm_num, by omega, by rw [two_zpow_add]; norm_num⟩
    · exact ⟨-1, 53 + e, by norm_num, by omega, by rw [two_zpow_add]; norm_num⟩

theorem div_ulp_eq {m e : ℤ} (h : exponent x ≤ e) :
    (m : ℚ) * 2 ^ e / ulp x = ((m * 2 ^ (e - exponent x).toNat : ℤ) : ℚ) := by
  have hsplit : (2 : ℚ) ^ e = 2 ^ (e - exponent x).toNat * ulp x := by
    rw [ulp, ← zpow_natCast, ← two_zpow_add, Int.toNat_of_nonneg (by omega), sub_add_cancel]
  rw [div_eq_iff (ulp_pos x).ne', hsplit]
  push_cast
  ring

theorem abs_mul_two_zpow_lt {m e : ℤ} (hm : |m| < 2 ^ 53) :
    |(m : ℚ) * 2 ^ e| < 2 ^ (53 + e) := by
  have hpos : (0 : ℚ) < 2 ^ e := zpow_pos (by norm_num) e
  rw [abs_mul, abs_of_pos hpos, two_zpow_add]
  have hcast : |(m : ℚ)| < 2 ^ (53 : ℤ) := by exact_mod_cast hm
  exact mul_lt_mul_of_pos_right hcast hpos

theorem two_zpow_le_abs (hx : x ≠ 0) (h : -1074 < exponent x) : 2 ^ (52 + exponent x) ≤ |x| := by
  have hlog : exponent x = Int.log 2 |x| - 52 := by
    unfold exponent at h ⊢
    omega
  rw [hlog, add_sub_cancel]
  exact Int.zpow_log_le_self (by norm_num) (abs_pos.mpr hx)

/-- The power of two that a number starts with is not lost. -/
theorem two_zpow_le_round (hx : 0 < x) (h : -1074 < exponent x) :
    2 ^ (52 + exponent x) ≤ round x := by
  have hstart := two_zpow_le_abs hx.ne' h
  rw [abs_of_pos hx, two_zpow_add] at hstart
  have hunits : (2 : ℚ) ^ (52 : ℤ) ≤ x / ulp x := (le_div_iff₀ (ulp_pos x)).mpr hstart
  have hle : (2 ^ 52 : ℤ) ≤ roundEven (x / ulp x) := le_roundEven (by exact_mod_cast hunits)
  have hcast : (2 : ℚ) ^ (52 : ℤ) ≤ roundEven (x / ulp x) := by exact_mod_cast hle
  rw [two_zpow_add]
  exact mul_le_mul_of_nonneg_right hcast (ulp_pos x).le

theorem IsDouble.le_round (hd : IsDouble d) (h : d ≤ x) : d ≤ round x := by
  by_cases hx : x = 0
  · rw [hx] at h ⊢
    rwa [round_zero]
  obtain ⟨m, e, hm, he, hdm⟩ := hd.normal
  rcases le_or_gt (exponent x) e with hexp | hexp
  · have hdiv := div_ulp_eq (x := x) (m := m) hexp
    rw [← hdm] at hdiv
    have hle := le_roundEven (hdiv ▸ div_le_div_of_nonneg_right h (ulp_pos x).le)
    rw [round, ← div_le_iff₀ (ulp_pos x), hdiv]
    exact_mod_cast hle
  · -- the double is below the power of two that `x` starts with
    have hsmall : |d| < 2 ^ (52 + exponent x) := by
      rw [hdm]
      refine (abs_mul_two_zpow_lt hm).trans_le (zpow_le_zpow_right₀ (by norm_num) ?_)
      omega
    rcases lt_or_gt_of_ne hx with hneg | hpos
    · have hstart := two_zpow_le_abs hx (he.trans_lt hexp)
      rw [abs_of_neg hneg] at hstart
      have hlower := (abs_lt.mp hsmall).1
      linarith
    · exact (le_abs_self d).trans (hsmall.le.trans (two_zpow_le_round hpos (he.trans_lt hexp)))

theorem round_nonneg (h : 0 ≤ x) : 0 ≤ round x :=
  IsDouble.le_round ⟨0, 0, by norm_num, by norm_num, by simp⟩ h

-- a tenth of a second is not a double, and 29 of them in tokens fall short
example : round (round (290 / 1000) * 100) < 29 := by decide +kernel

end InferenceQueue.Binary64

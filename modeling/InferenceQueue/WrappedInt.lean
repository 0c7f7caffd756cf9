import Mathlib.Algebra.Order.Ring.Int
import Mathlib.Tactic.Linarith
import Mathlib.Tactic.Ring

namespace InferenceQueue

variable {w k : ℕ} {x : ℤ}

theorem bmod_of_fits (hlo : -2 ^ w ≤ x) (hhi : x < 2 ^ w) : x.bmod (2 ^ (w + 1)) = x := by
  apply Int.bmod_eq_of_le_mul_two
  · push_cast
    rw [pow_succ]
    omega
  · push_cast
    rw [pow_succ]
    omega

theorem bmod_of_overflows (hlo : 2 ^ w ≤ x) (hhi : x < 2 ^ (w + 1)) :
    x.bmod (2 ^ (w + 1)) = x - 2 ^ (w + 1) := by
  have hwrap : (x - 2 ^ (w + 1)).bmod (2 ^ (w + 1)) = x.bmod (2 ^ (w + 1)) := by
    exact_mod_cast Int.sub_bmod_right x (2 ^ (w + 1))
  rw [← hwrap]
  rw [pow_succ] at hhi ⊢
  exact bmod_of_fits (by omega) (by omega)

/-- Doubling leaves the range by one bit first. -/
theorem exists_first_overflow (hx : x < 2 ^ w) (h : 2 ^ w ≤ x * 2 ^ k) :
    ∃ i ≤ k, 2 ^ w ≤ x * 2 ^ i ∧ x * 2 ^ i < 2 ^ (w + 1) := by
  induction k with
  | zero =>
    rw [pow_zero, mul_one] at h
    exact absurd h (not_le.mpr hx)
  | succ k ih =>
    by_cases hk : 2 ^ w ≤ x * 2 ^ k
    · obtain ⟨i, hi, hover⟩ := ih hk
      exact ⟨i, by omega, hover⟩
    · -- below the range before the last doubling, so below twice the range after it
      refine ⟨k + 1, le_rfl, h, ?_⟩
      rw [pow_succ, pow_succ, ← mul_assoc]
      linarith

end InferenceQueue

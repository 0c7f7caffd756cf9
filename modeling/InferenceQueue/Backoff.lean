import InferenceQueue.JobPolicies
import InferenceQueue.RetryModel
import InferenceQueue.WrappedInt

namespace InferenceQueue

namespace Retry

variable {baseDelay maxDelay : ℤ} {attempt : ℕ}

theorem retryDelay_of_fits (hbase : 0 < baseDelay) (hmax : baseDelay ≤ maxDelay)
    (hattempt : 1 ≤ attempt) (h : baseDelay * 2 ^ (attempt - 1) < 2 ^ 63) :
    retryDelay baseDelay maxDelay attempt = min (baseDelay * 2 ^ (attempt - 1)) maxDelay := by
  have hpos : 0 < baseDelay * 2 ^ (attempt - 1) := by positivity
  have hshift : (baseDelay * 2 ^ (attempt - 1)).bmod (2 ^ 64) = baseDelay * 2 ^ (attempt - 1) :=
    bmod_of_fits (w := 63) (by omega) h
  rw [retryDelay, if_neg (by omega), hshift]
  dsimp only
  split_ifs <;> omega

/-- A shift that is one bit too far gives a negative delay, which no maximum stops. -/
theorem retryDelay_neg (hbase : 0 < baseDelay) (hattempt : 1 ≤ attempt)
    (hlo : 2 ^ 63 ≤ baseDelay * 2 ^ (attempt - 1)) (hhi : baseDelay * 2 ^ (attempt - 1) < 2 ^ 64) :
    retryDelay baseDelay maxDelay attempt < 0 := by
  have hshift : (baseDelay * 2 ^ (attempt - 1)).bmod (2 ^ 64) =
      baseDelay * 2 ^ (attempt - 1) - 2 ^ 64 :=
    bmod_of_overflows (w := 63) hlo hhi
  rw [retryDelay, if_neg (by omega), hshift]
  dsimp only
  rw [if_neg (by omega)]
  omega

end Retry

namespace Jobs

namespace RetryPolicy

variable {p : RetryPolicy}

def delay (p : RetryPolicy) (attempt : ℕ) : ℤ :=
  Retry.retryDelay p.baseDelay.toInt p.maxDelay.toInt attempt

def Retried (p : RetryPolicy) (attempt : ℕ) : Prop := 1 ≤ attempt ∧ attempt < p.maxAttempts.toInt

/-- The delays double from `BaseDelay` on until they come to `MaxDelay`. -/
structure BackoffBounded (p : RetryPolicy) : Prop where
  doubles : ∀ a, p.Retried a →
    p.delay a = min (p.baseDelay.toInt * 2 ^ (a - 1)) p.maxDelay.toInt
  least : ∀ a, p.Retried a → p.baseDelay.toInt ≤ p.delay a
  most : ∀ a, p.Retried a → p.delay a ≤ p.maxDelay.toInt
  grows : ∀ a b, p.Retried a → p.Retried b → a ≤ b → p.delay a ≤ p.delay b

theorem BackoffBounded.of_doubles (h : ∀ a, p.Retried a →
    p.delay a = min (p.baseDelay.toInt * 2 ^ (a - 1)) p.maxDelay.toInt) : p.BackoffBounded where
  doubles := h
  least a ha := by
    -- the other bounds follow from the doubling
    have hbase := p.baseDelay_pos
    have hle := p.baseDelay_le
    have hpow : (1 : ℤ) ≤ 2 ^ (a - 1) := one_le_pow₀ (by norm_num)
    rw [h a ha]
    exact le_min (le_mul_of_one_le_right hbase.le hpow) hle
  most a ha := by
    rw [h a ha]
    exact min_le_right _ _
  grows a b ha hb hab := by
    have hbase := p.baseDelay_pos
    have hpow : (2 : ℤ) ^ (a - 1) ≤ 2 ^ (b - 1) := pow_le_pow_right₀ (by norm_num) (by omega)
    rw [h a ha, h b hb]
    exact min_le_min_right _ (mul_le_mul_of_nonneg_left hpow hbase.le)

theorem shift_lt_of_last {a : ℕ} (ha : p.Retried a)
    (h : p.baseDelay.toInt * 2 ^ (p.maxAttempts.toInt.toNat - 2) < 2 ^ 63) :
    p.baseDelay.toInt * 2 ^ (a - 1) < 2 ^ 63 := by
  -- the largest shift is the one before the last attempt
  obtain ⟨hpos, hlt⟩ := ha
  have hpow : (2 : ℤ) ^ (a - 1) ≤ 2 ^ (p.maxAttempts.toInt.toNat - 2) :=
    pow_le_pow_right₀ (by norm_num) (by omega)
  exact (mul_le_mul_of_nonneg_left hpow p.baseDelay_pos.le).trans_lt h

/-- If the last shift overflows, some attempt is followed by a negative delay. -/
theorem exists_delay_neg (h : 2 ^ 63 ≤ p.baseDelay.toInt * 2 ^ (p.maxAttempts.toInt.toNat - 2)) :
    ∃ a, p.Retried a ∧ p.delay a < 0 := by
  have hbase : p.baseDelay.toInt < 2 ^ 63 := p.baseDelay.toInt_lt
  -- later shifts may come out positive again, the first that overflows does not
  obtain ⟨i, hi, hlo, hhi⟩ := exists_first_overflow hbase h
  have hne : i ≠ 0 := by
    rintro rfl
    rw [pow_zero, mul_one] at hlo
    omega
  exact ⟨i + 1, ⟨by omega, by omega⟩,
    Retry.retryDelay_neg p.baseDelay_pos (by omega) hlo hhi⟩

theorem backoffBounded_iff : p.BackoffBounded ↔
    p.baseDelay.toInt * 2 ^ (p.maxAttempts.toInt.toNat - 2) < 2 ^ 63 := by
  constructor
  · intro h
    by_contra hover
    obtain ⟨a, ha, hneg⟩ := exists_delay_neg (not_lt.mp hover)
    have hleast := h.least a ha
    have hbase := p.baseDelay_pos
    omega
  · intro h
    apply BackoffBounded.of_doubles
    intro a ha
    exact Retry.retryDelay_of_fits p.baseDelay_pos p.baseDelay_le ha.1 (shift_lt_of_last ha h)

end RetryPolicy

/-- An accepted configuration keeps a tier's delays within their bounds exactly when the largest
shift of `BaseDelay` fits into 64 bits. -/
theorem backoff_bounded_iff_shift_fits (cfg : JobConfig) (policies : JobPolicyConfig)
    (tierName : String) (r : RetryConfig) (h : buildJobPolicyConfig cfg = .ok policies)
    (hr : (tierName, r) ∈ cfg.tiers) :
    ∃ p, getRetryPolicy policies (.ok tierName) = .ok p ∧ p.Configured r ∧
      (p.BackoffBounded ↔
        r.baseDelay.toInt * 2 ^ (r.maxAttempt.toInt.toNat - 2) < 2 ^ 63) := by
  obtain ⟨p, hp, hconfigured⟩ := exists_policy h hr
  refine ⟨p, hp, hconfigured, ?_⟩
  rw [← hconfigured.baseDelay, ← hconfigured.maxAttempts]
  exact RetryPolicy.backoffBounded_iff

/-- The tiers of `job.yml`. -/
def standardTiers : JobConfig where
  tiers := [("free", ⟨2, 500000000, 5000000000⟩), ("premium", ⟨3, 200000000, 2000000000⟩)]
  nodup := by decide

theorem backoff_bounded_premium :
    ∃ policies p, buildJobPolicyConfig standardTiers = .ok policies ∧
      getRetryPolicy policies (.ok "premium") = .ok p ∧ p.BackoffBounded := by
  have hmem : ("premium", ⟨3, 200000000, 2000000000⟩) ∈ standardTiers.tiers := by
    simp [standardTiers]
  obtain ⟨policies, h⟩ : ∃ policies, buildJobPolicyConfig standardTiers = .ok policies := ⟨_, rfl⟩
  obtain ⟨p, hp, -, hiff⟩ := backoff_bounded_iff_shift_fits _ _ _ _ h hmem
  exact ⟨policies, p, h, hp, hiff.mpr (by decide +kernel)⟩

/-- A hundred attempts from half a second on: the delay after the 36th is negative. -/
def patientTiers : JobConfig where
  tiers := [("free", ⟨100, 500000000, 5000000000⟩)]
  nodup := by decide

theorem backoff_overflows :
    ∃ policies p, buildJobPolicyConfig patientTiers = .ok policies ∧
      getRetryPolicy policies (.ok "free") = .ok p ∧ p.Retried 36 ∧
      min (p.baseDelay.toInt * 2 ^ 35) p.maxDelay.toInt = 5000000000 ∧
      p.delay 36 = -1266874889709551616 := by
  refine ⟨_, _, rfl, rfl, ?_⟩
  unfold RetryPolicy.Retried
  decide +kernel

end Jobs

end InferenceQueue

import InferenceQueue.RateLimiter

namespace InferenceQueue.Admission

open Redis (fetch)

/-- What the source asks of `EXPIRE`. -/
def expiring (l : TierRateLimit) : Retention := .seconds l.ttlSeconds

def lasting (_ : TierRateLimit) : Retention := .forever

def answers (retention : TierRateLimit → Retention) (cfg : RateLimitConfig) (tier : String) :
    Option Cell → List Call → List (Option GoError)
  | _, [] => []
  | key, c :: calls =>
    (allow id retention cfg tier key c).1 ::
      answers retention cfg tier (allow id retention cfg tier key c).2 calls

/-- An empty bucket is full again before its key can be gone. -/
def OutlivesRefill (l : TierRateLimit) : Prop :=
  1 ≤ l.ttlSeconds ∧ 1000 * l.capacity ≤ l.fillRate * (1000 * l.ttlSeconds + 1)

instance (l : TierRateLimit) : Decidable (OutlivesRefill l) := inferInstanceAs (Decidable (_ ∧ _))

def expiringCell (l : TierRateLimit) (c : Cell) : Cell :=
  ⟨c.value, some (c.value.last + 1000 * l.ttlSeconds)⟩

structure Matches (l : TierRateLimit) (key key' : Option Cell) : Prop where
  same : key = key'.map (expiringCell l)
  stays : ∀ c ∈ key', c.expiresAt = none
  nonneg : ∀ c ∈ key', 0 ≤ c.value.tokens

theorem Matches.initial (l : TierRateLimit) : Matches l none none := by
  constructor <;> simp

/-- A bucket is full once the key that expires is gone. -/
theorem refill_full {l : TierRateLimit} (h : OutlivesRefill l) {b : Bucket} (hb : 0 ≤ b.tokens)
    {now : ℕ} (hnow : b.last + 1000 * l.ttlSeconds < now) :
    refill id l.capacity l.fillRate now (some b) = l.capacity := by
  have hrate := l.fillRate_nonneg
  have helapsed : (1000 * l.ttlSeconds + 1 : ℚ) ≤ now - b.last := by
    have : 1000 * (l.ttlSeconds : ℤ) + 1 ≤ now - b.last := by omega
    exact_mod_cast this
  have hfull : (1000 : ℚ) * l.capacity ≤ l.fillRate * (1000 * l.ttlSeconds + 1) := by
    exact_mod_cast h.2
  have hgain : (l.fillRate : ℚ) * (1000 * l.ttlSeconds + 1) ≤ l.fillRate * (now - b.last) := by
    gcongr
  have hpos : (0 : ℚ) ≤ now - b.last := le_trans (by positivity) helapsed
  have heq : max 0 (now - b.last : ℚ) / 1000 * l.fillRate = l.fillRate * (now - b.last) / 1000 := by
    rw [max_eq_right hpos]
    ring
  rw [refill_id, heq]
  refine min_eq_left ?_
  linarith

theorem Matches.refill_eq {l : TierRateLimit} (hl : OutlivesRefill l) {key key' : Option Cell}
    (h : Matches l key key') (now : ℕ) :
    refill id l.capacity l.fillRate now (fetch now key) =
      refill id l.capacity l.fillRate now (fetch now key') := by
  cases key' with
  | none => rw [h.same]; rfl
  | some c =>
    have hkeep : fetch now (some c) = some c.value := by
      rw [show c = ⟨c.value, none⟩ by rw [← h.stays c rfl], Redis.fetch_persistent]
    rw [h.same, Option.map_some, hkeep]
    by_cases hnow : now ≤ c.value.last + 1000 * l.ttlSeconds
    · have hlive : fetch now (some (expiringCell l c)) = some c.value := by
        simp [expiringCell, hnow]
      rw [hlive]
    · -- the key is gone, and the bucket that was kept is full by now
      have hgone : fetch now (some (expiringCell l c)) = none := by
        simp [expiringCell, hnow]
      rw [hgone, refill_full hl (h.nonneg c rfl) (not_le.mp hnow)]
      rfl

theorem Matches.store {l : TierRateLimit} (hl : OutlivesRefill l) {b : Bucket}
    (hb : 0 ≤ b.tokens) :
    Matches l ((expiring l).store b.last b) ((lasting l).store b.last b) := by
  obtain ⟨ttl, httl⟩ : ∃ ttl, l.ttlSeconds = ttl + 1 := Nat.exists_eq_add_of_le' hl.1
  constructor
  · simp [expiring, lasting, Retention.store, Redis.expire, expiringCell, httl]
  · rintro c ⟨⟩
    rfl
  · rintro c ⟨⟩
    exact hb

theorem Matches.fetch_nonneg {l : TierRateLimit} {key key' : Option Cell} (h : Matches l key key')
    (now : ℕ) : ∀ b, fetch now key' = some b → 0 ≤ b.tokens := by
  intro b hb
  obtain ⟨c, rfl, -, rfl⟩ := Redis.fetch_some.mp hb
  exact h.nonneg c rfl

theorem Matches.allow {cfg : RateLimitConfig} {tier : String} {l : TierRateLimit}
    (hcfg : cfg.tierConfig tier = some l) (hl : OutlivesRefill l) {key key' : Option Cell}
    (h : Matches l key key') (c : Call) :
    (Admission.allow id expiring cfg tier key c).1 =
        (Admission.allow id lasting cfg tier key' c).1 ∧
      Matches l (Admission.allow id expiring cfg tier key c).2
        (Admission.allow id lasting cfg tier key' c).2 := by
  rw [allow_eq hcfg, allow_eq hcfg]
  have hfill := h.refill_eq hl c.now
  have hnonneg := refill_nonneg l c.now (h.fetch_nonneg c.now)
  dsimp only [allowScript]
  rw [hfill]
  split_ifs with hcost htokens
  · exact ⟨rfl, h⟩
  · exact ⟨rfl, .store hl (b := ⟨_, c.now⟩) (sub_nonneg.mpr htokens)⟩
  · exact ⟨rfl, .store hl (b := ⟨_, c.now⟩) hnonneg⟩

theorem Matches.answers_eq {cfg : RateLimitConfig} {tier : String} {l : TierRateLimit}
    (hcfg : cfg.tierConfig tier = some l) (hl : OutlivesRefill l) {key key' : Option Cell}
    (h : Matches l key key') (calls : List Call) :
    answers expiring cfg tier key calls = answers lasting cfg tier key' calls := by
  induction calls generalizing key key' with
  | nil => rfl
  | cons c calls ih =>
    obtain ⟨heq, hnext⟩ := h.allow hcfg hl c
    rw [answers, answers, heq, ih hnext]

def drainTwice (l : TierRateLimit) (now : ℕ) : List Call :=
  [⟨0, 0, l.capacity⟩, ⟨now, 0, l.capacity⟩]

theorem answers_drainTwice {cfg : RateLimitConfig} {tier : String} {l : TierRateLimit}
    (hcfg : cfg.tierConfig tier = some l) (retention : TierRateLimit → Retention) (now : ℕ) :
    answers retention cfg tier none (drainTwice l now) =
      [none, if (l.capacity : ℚ) ≤ refill id l.capacity l.fillRate now
          (fetch now ((retention l).store 0 ⟨0, 0⟩))
        then none else some (.sentinel .admissionRateLimited)] := by
  have hfirst : allow id retention cfg tier none ⟨0, 0, l.capacity⟩ =
      (none, (retention l).store 0 ⟨0, 0⟩) := by
    rw [allow_eq hcfg]
    simp [allowScript, Call.cost, fetch, refill, Decision.error]
  simp only [answers, drainTwice, hfirst]
  rw [allow_eq hcfg]
  split_ifs with h <;> simp [allowScript, Call.cost, h, Decision.error]

/-- The earliest moment at which the key of a bucket drained at time 0 is gone. -/
def TierRateLimit.goneAt (l : TierRateLimit) : ℕ :=
  if l.ttlSeconds = 0 then 0 else 1000 * l.ttlSeconds + 1

theorem fetch_goneAt (l : TierRateLimit) :
    fetch l.goneAt ((expiring l).store 0 ⟨0, 0⟩) = none := by
  unfold expiring TierRateLimit.goneAt
  cases l.ttlSeconds with
  | zero => rfl
  | succ ttl => simp [Retention.store, Redis.expire]

theorem outlivesRefill_of_full {l : TierRateLimit}
    (h : (l.capacity : ℚ) ≤ refill id l.capacity l.fillRate l.goneAt
      (fetch l.goneAt ((lasting l).store 0 ⟨0, 0⟩))) : OutlivesRefill l := by
  have hkept : fetch l.goneAt ((lasting l).store 0 ⟨0, 0⟩) = some ⟨0, 0⟩ := by
    simp [lasting, Retention.store]
  have hle : (l.capacity : ℚ) ≤ l.fillRate * l.goneAt / 1000 := by
    rw [hkept] at h
    simpa using h.trans (refill_le_of_le (Nat.zero_le _))
  have hint : 1000 * l.capacity ≤ l.fillRate * l.goneAt := by
    have : (1000 : ℚ) * l.capacity ≤ l.fillRate * l.goneAt := by linarith
    exact_mod_cast this
  have hpos := l.capacity_pos
  by_cases httl : l.ttlSeconds = 0
  · simp only [TierRateLimit.goneAt, httl, if_true, mul_zero] at hint
    omega
  · rw [TierRateLimit.goneAt, if_neg httl] at hint
    exact ⟨Nat.one_le_iff_ne_zero.mpr httl, hint⟩

/-- Every sequence of calls in the order of their timestamps gets the same answers with and without
the expiry of the key exactly if an empty bucket is full again before its key can be gone. -/
theorem expiry_unobservable_iff (cfg : RateLimitConfig) (tier : String) (l : TierRateLimit)
    (hcfg : cfg.tierConfig tier = some l) :
    (∀ calls : List Call, calls.Pairwise (fun c c' => c.now ≤ c'.now) →
      answers expiring cfg tier none calls = answers lasting cfg tier none calls) ↔
    OutlivesRefill l := by
  constructor
  · intro h
    -- the expired key gives a full bucket, so the kept one must be full as well
    have heq := h (drainTwice l l.goneAt) (by simp [drainTwice])
    rw [answers_drainTwice hcfg, answers_drainTwice hcfg, fetch_goneAt] at heq
    have hfull : (l.capacity : ℚ) ≤ refill id l.capacity l.fillRate l.goneAt
        (fetch l.goneAt ((lasting l).store 0 ⟨0, 0⟩)) := by
      by_contra hlt
      have hfresh : (l.capacity : ℚ) ≤ refill id l.capacity l.fillRate l.goneAt none := le_refl _
      rw [if_pos hfresh, if_neg hlt] at heq
      simp at heq
    exact outlivesRefill_of_full hfull
  · intro hl calls _
    exact (Matches.initial l).answers_eq hcfg hl calls

theorem expiry_unobservable_slow :
    OutlivesRefill slowLimit ∧
      ∀ calls : List Call, calls.Pairwise (fun c c' => c.now ≤ c'.now) →
        answers expiring slowTiers "free" none calls =
          answers lasting slowTiers "free" none calls :=
  ⟨by decide, (expiry_unobservable_iff slowTiers "free" slowLimit rfl).mpr (by decide)⟩

/-- Two tokens, one token a second, and a key that is kept for one second. -/
def hastyLimit : TierRateLimit :=
  ⟨2, 1, 1000000000, by decide, slowLimit.fillRate_pos, by decide⟩

def hastyTiers : RateLimitConfig := fun tier => if tier = "free" then some hastyLimit else none

/-- An accepted configuration under which a drained bucket is full again after one second. -/
theorem expiry_observable :
    validateRateLimit "free" ⟨2, 1, 1000000000⟩ = .ok hastyLimit ∧
      (drainTwice hastyLimit 1001).Pairwise (fun c c' => c.now ≤ c'.now) ∧
      answers expiring hastyTiers "free" none (drainTwice hastyLimit 1001) = [none, none] ∧
      answers lasting hastyTiers "free" none (drainTwice hastyLimit 1001) =
        [none, some (.sentinel .admissionRateLimited)] := by
  decide +kernel

end InferenceQueue.Admission

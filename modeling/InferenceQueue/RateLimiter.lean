import Mathlib.Algebra.Order.Field.Rat
import Mathlib.Data.Rat.Cast.Order
import Mathlib.Order.Bounds.Basic
import Mathlib.Tactic.Linarith
import Mathlib.Tactic.Ring
import Mathlib.Tactic.Positivity
import InferenceQueue.Shared
import InferenceQueue.RedisKeys
import InferenceQueue.Runs

namespace InferenceQueue.Admission

open Redis (fetch)

/-- The limit of one tier as it stands in the configuration; the TTL is in nanoseconds. -/
structure RateLimit where
  capacity : ℤ
  refillRate : ℤ
  ttl : ℤ
deriving DecidableEq, Repr

/-- A limit that passed `validateRateLimit`. -/
structure TierRateLimit where
  capacity : ℤ
  fillRate : ℤ
  ttl : ℤ
  capacity_pos : 0 < capacity
  fillRate_pos : 0 < fillRate
  ttl_pos : 0 < ttl
deriving DecidableEq, Repr

def validateRateLimit (name : String) (limit : RateLimit) : Except GoError TierRateLimit :=
  if h : limit.capacity ≤ 0 ∨ limit.refillRate ≤ 0 ∨ limit.ttl ≤ 0 then
    .error (.text ("admission configuration: " ++ name ++
      " rate limit capacity, refill rate, and TTL must be positive"))
  else
    .ok ⟨limit.capacity, limit.refillRate, limit.ttl, by omega, by omega, by omega⟩

theorem TierRateLimit.capacity_nonneg (l : TierRateLimit) : (0 : ℚ) ≤ l.capacity := by
  exact_mod_cast l.capacity_pos.le

theorem TierRateLimit.fillRate_nonneg (l : TierRateLimit) : (0 : ℚ) ≤ l.fillRate := by
  exact_mod_cast l.fillRate_pos.le

theorem TierRateLimit.gain_nonneg (l : TierRateLimit) {lo now : ℕ} (h : lo ≤ now) :
    0 ≤ (l.fillRate : ℚ) * (now - lo) / 1000 := by
  have hrate := l.fillRate_nonneg
  have hdiff : (0 : ℚ) ≤ now - lo := sub_nonneg.mpr (by exact_mod_cast h)
  positivity

/-- `int(tierCfg.TTL.Seconds())` -/
def TierRateLimit.ttlSeconds (l : TierRateLimit) : ℕ := (l.ttl / 1000000000).toNat

abbrev RateLimitConfig := String → Option TierRateLimit

def RateLimitConfig.tierConfig (cfg : RateLimitConfig) (tier : String) : Option TierRateLimit :=
  (cfg tier).or (cfg "free")

/-- The hash behind a rate limit key. -/
structure Bucket where
  tokens : ℚ
  last : ℕ
deriving DecidableEq

abbrev Cell := Redis.Volatile Bucket

/-- What `EXPIRE` is asked for. -/
inductive Retention
  | forever
  | seconds (ttl : ℕ)
deriving DecidableEq

/-- `HSET` followed by `EXPIRE`. -/
def Retention.store (r : Retention) (now : ℕ) (b : Bucket) : Option Cell :=
  match r with
  | forever => some ⟨b, none⟩
  | seconds ttl => Redis.expire now ttl b

/-- The script's answers `-1`, `1` and `0`. -/
inductive Decision
  | exceedsCapacity
  | allowed
  | limited
deriving DecidableEq, Repr

section

-- how the numbers of a script are rounded: each result, and each text that `tonumber` reads
variable (round : ℚ → ℚ)

def refill (capacity fillRate : ℤ) (now : ℕ) : Option Bucket → ℚ
  | none => round capacity
  | some b =>
    let elapsed := round (max 0 (round (round now - round b.last)) / 1000)
    min (round capacity) (round (round b.tokens + round (elapsed * round fillRate)))

def allowScript (capacity fillRate : ℤ) (now : ℕ) (ttl : Retention) (cost : ℤ)
    (key : Option Cell) : Decision × Option Cell :=
  if round capacity < round cost then (.exceedsCapacity, key)
  else
    let tokens := refill round capacity fillRate now (fetch now key)
    if round cost ≤ tokens then (.allowed, ttl.store now ⟨round (tokens - round cost), now⟩)
    else (.limited, ttl.store now ⟨tokens, now⟩)

end

/-- The arguments of `Allow` that vary between the calls on one key, and the clock it reads. -/
structure Call where
  now : ℕ
  inputTokens : ℤ
  maxOutputTokens : ℤ
deriving DecidableEq, Repr

def Call.cost (c : Call) : ℤ := c.inputTokens + c.maxOutputTokens

def Decision.error : Decision → Option GoError
  | exceedsCapacity => some (.sentinel .admissionCostExceedsCapacity)
  | allowed => none
  | limited => some (.sentinel .admissionRateLimited)

/-- `RedisRateLimiter.Allow` on the key of one user and tier; the source's retention is
`fun l => .seconds l.ttlSeconds`. -/
def allow (round : ℚ → ℚ) (retention : TierRateLimit → Retention) (cfg : RateLimitConfig)
    (tier : String) (key : Option Cell) (c : Call) : Option GoError × Option Cell :=
  match cfg.tierConfig tier with
  | none =>
    (some (.text ("no rate limit configuration for tier " ++ tier.quote ++ " and no fallback")),
      key)
  | some l =>
    let r := allowScript round l.capacity l.fillRate c.now (retention l) c.cost key
    (r.1.error, r.2)

theorem allow_eq {cfg : RateLimitConfig} {tier : String} {l : TierRateLimit}
    (hl : cfg.tierConfig tier = some l) (round : ℚ → ℚ) (retention : TierRateLimit → Retention)
    (key : Option Cell) (c : Call) :
    allow round retention cfg tier key c =
      ((allowScript round l.capacity l.fillRate c.now (retention l) c.cost key).1.error,
        (allowScript round l.capacity l.fillRate c.now (retention l) c.cost key).2) := by
  simp only [allow, hl]

/-- The three ways through the script. -/
theorem allowScript_cases (round : ℚ → ℚ) (capacity fillRate : ℤ) (now : ℕ) (ttl : Retention)
    (cost : ℤ) (key : Option Cell) :
    (round capacity < round cost ∧
      allowScript round capacity fillRate now ttl cost key = (.exceedsCapacity, key)) ∨
    (round cost ≤ round capacity ∧
      round cost ≤ refill round capacity fillRate now (fetch now key) ∧
      allowScript round capacity fillRate now ttl cost key = (.allowed, ttl.store now
        ⟨round (refill round capacity fillRate now (fetch now key) - round cost), now⟩)) ∨
    (round cost ≤ round capacity ∧
      refill round capacity fillRate now (fetch now key) < round cost ∧
      allowScript round capacity fillRate now ttl cost key =
        (.limited, ttl.store now ⟨refill round capacity fillRate now (fetch now key), now⟩)) := by
  rcases lt_or_ge (round capacity) (round cost) with hcost | hcost
  · left
    exact ⟨hcost, if_pos hcost⟩
  · right
    rcases le_or_gt (round cost) (refill round capacity fillRate now (fetch now key)) with h | h
    · left
      exact ⟨hcost, h, by simp only [allowScript, if_neg hcost.not_gt, if_pos h]⟩
    · right
      exact ⟨hcost, h, by simp only [allowScript, if_neg hcost.not_gt, if_neg h.not_ge]⟩

theorem refill_le (round : ℚ → ℚ) (capacity fillRate : ℤ) (now : ℕ) (stored : Option Bucket) :
    refill round capacity fillRate now stored ≤ round capacity := by
  cases stored with
  | none => exact le_refl _
  | some b => exact min_le_left _ _

theorem refill_id (capacity fillRate : ℤ) (now : ℕ) (b : Bucket) :
    refill id capacity fillRate now (some b) =
      min (capacity : ℚ) (b.tokens + max 0 (now - b.last : ℚ) / 1000 * fillRate) := rfl

theorem refill_nonneg (l : TierRateLimit) (now : ℕ) {stored : Option Bucket}
    (h : ∀ b, stored = some b → 0 ≤ b.tokens) :
    0 ≤ refill id l.capacity l.fillRate now stored := by
  cases stored with
  | none => exact l.capacity_nonneg
  | some b =>
    have htokens := h b rfl
    have hrate := l.fillRate_nonneg
    have helapsed : 0 ≤ max 0 (now - b.last : ℚ) / 1000 * l.fillRate := by positivity
    exact le_min l.capacity_nonneg (add_nonneg htokens helapsed)

/-- Time that has passed is paid for once. -/
theorem refill_le_of_le {capacity fillRate : ℤ} {now : ℕ} {b : Bucket} (h : b.last ≤ now) :
    refill id capacity fillRate now (some b) ≤ b.tokens + fillRate * (now - b.last) / 1000 := by
  have hle : (b.last : ℚ) ≤ now := by exact_mod_cast h
  calc refill id capacity fillRate now (some b)
      ≤ b.tokens + max 0 (now - b.last : ℚ) / 1000 * fillRate := min_le_right _ _
    _ = b.tokens + fillRate * (now - b.last) / 1000 := by
        rw [max_eq_right (by linarith)]
        ring

structure Event where
  call : Call
  err : Option GoError
deriving DecidableEq, Repr

/-- The calls on one key in the order in which their scripts run, and what each returned, in exact
arithmetic. -/
def bucketStep (retention : TierRateLimit → Retention) (cfg : RateLimitConfig) (tier : String)
    (key : Option Cell) (e : Event) : Option (Option Cell) :=
  if (allow id retention cfg tier key e.call).1 = e.err then
    some (allow id retention cfg tier key e.call).2
  else none

def Event.admitted (e : Event) : ℤ := if e.err = none then e.call.cost else 0

def admittedCost (tr : List Event) : ℤ := (tr.map Event.admitted).sum

def timestamps (tr : List Event) : Set ℕ := {t | ∃ e ∈ tr, e.call.now = t}

theorem isLeast_timestamps {tr : List Event} {lo : ℕ} :
    IsLeast (timestamps tr) lo ↔ (∃ e ∈ tr, e.call.now = lo) ∧ ∀ e ∈ tr, lo ≤ e.call.now := by
  simp [IsLeast, timestamps, lowerBounds]

theorem isGreatest_timestamps {tr : List Event} {hi : ℕ} :
    IsGreatest (timestamps tr) hi ↔ (∃ e ∈ tr, e.call.now = hi) ∧ ∀ e ∈ tr, e.call.now ≤ hi := by
  simp [IsGreatest, timestamps, upperBounds]

theorem admittedCost_snoc (tr : List Event) (e : Event) :
    admittedCost (tr ++ [e]) = admittedCost tr + e.admitted := by
  simp [admittedCost]

theorem bucketStep_cases {cfg : RateLimitConfig} {tier : String} {l : TierRateLimit}
    (hl : cfg.tierConfig tier = some l) {key key' : Option Cell} {e : Event}
    (h : Fires (bucketStep (fun _ => .forever) cfg tier) key e key') :
    (l.capacity < e.call.cost ∧ e.admitted = 0 ∧ key' = key) ∨
      ∃ tokens : ℚ, tokens + e.admitted =
          refill id l.capacity l.fillRate e.call.now (fetch e.call.now key) ∧
        (e.admitted = 0 ∨ 0 ≤ tokens) ∧ e.call.cost ≤ l.capacity ∧
        key' = some ⟨⟨tokens, e.call.now⟩, none⟩ := by
  unfold Fires bucketStep at h
  rw [allow_eq hl] at h
  split at h
  · next herr =>
    cases h
    obtain ⟨hcost, heq⟩ | ⟨hcost, hle, heq⟩ | ⟨hcost, -, heq⟩ := allowScript_cases id l.capacity
      l.fillRate e.call.now .forever e.call.cost key <;> rw [heq] at herr ⊢
    · left
      exact ⟨Int.cast_lt.mp hcost, by simp [Event.admitted, ← herr, Decision.error], rfl⟩
    · right
      have hadm : e.admitted = e.call.cost := by simp [Event.admitted, ← herr, Decision.error]
      refine ⟨_, ?_, Or.inr (sub_nonneg.mpr hle), Int.cast_le.mp hcost, rfl⟩
      rw [hadm]
      exact sub_add_cancel _ _
    · right
      have hadm : e.admitted = 0 := by simp [Event.admitted, ← herr, Decision.error]
      refine ⟨_, ?_, Or.inl hadm, Int.cast_le.mp hcost, rfl⟩
      rw [hadm, Int.cast_zero, add_zero]
  · cases h

/-- The call does not go back behind the timestamp stored by the one before it. -/
def InOrder (l : TierRateLimit) (key : Option Cell) (e : Event) : Prop :=
  e.call.cost ≤ l.capacity → ∀ c ∈ key, c.value.last ≤ e.call.now

instance (l : TierRateLimit) (key : Option Cell) (e : Event) : Decidable (InOrder l key e) := by
  unfold InOrder
  infer_instance

/-- The cost admitted and the balance left are covered by the capacity and the refill since
`lo`. -/
structure Covered (l : TierRateLimit) (lo : ℕ) (tr : List Event) (key : Option Cell) : Prop where
  fresh : key = none → admittedCost tr = 0
  nonneg : ∀ c ∈ key, 0 ≤ c.value.tokens
  stays : ∀ c ∈ key, c.expiresAt = none
  seen : ∀ c ∈ key, c.value.last ∈ timestamps tr
  covered : ∀ c ∈ key, (admittedCost tr : ℚ) + c.value.tokens ≤
    l.capacity + l.fillRate * (c.value.last - lo) / 1000

theorem Covered.initial (l : TierRateLimit) (lo : ℕ) : Covered l lo [] none := by
  constructor <;> simp [admittedCost]

theorem Covered.fetch_eq {l : TierRateLimit} {lo : ℕ} {tr : List Event} {key : Option Cell}
    (h : Covered l lo tr key) (now : ℕ) : fetch now key = key.map (·.value) := by
  cases key with
  | none => rfl
  | some c =>
    rw [show c = ⟨c.value, none⟩ by rw [← h.stays c rfl], Redis.fetch_persistent]
    rfl

theorem Covered.refill_le {l : TierRateLimit} {lo : ℕ} {tr : List Event} {key : Option Cell}
    (h : Covered l lo tr key) {now : ℕ} (hlo : lo ≤ now)
    (hord : ∀ c ∈ key, c.value.last ≤ now) :
    (admittedCost tr : ℚ) + refill id l.capacity l.fillRate now (fetch now key) ≤
      l.capacity + l.fillRate * (now - lo) / 1000 := by
  rw [h.fetch_eq]
  cases key with
  | none =>
    have hgain := l.gain_nonneg hlo
    rw [h.fresh rfl]
    simp only [Option.map_none, refill, Int.cast_zero, id]
    linarith
  | some c =>
    have hcov := h.covered c rfl
    have hfill : refill id l.capacity l.fillRate now (some c.value) ≤ _ :=
      refill_le_of_le (hord c rfl)
    have hsplit : (l.fillRate : ℚ) * (now - lo) / 1000 =
        l.fillRate * (c.value.last - lo) / 1000 + l.fillRate * (now - c.value.last) / 1000 := by
      ring
    rw [Option.map_some, hsplit]
    linarith

theorem Covered.step {cfg : RateLimitConfig} {tier : String} {l : TierRateLimit}
    (hl : cfg.tierConfig tier = some l) {lo : ℕ} {tr : List Event} {key key' : Option Cell}
    {e : Event} (h : Covered l lo tr key) (hlo : lo ≤ e.call.now) (hord : InOrder l key e)
    (he : Fires (bucketStep (fun _ => .forever) cfg tier) key e key') :
    Covered l lo (tr ++ [e]) key' := by
  obtain ⟨hbig, hadm, rfl⟩ | ⟨tokens, hsum, hpos, hfits, rfl⟩ := bucketStep_cases hl he
  · have hcost : admittedCost (tr ++ [e]) = admittedCost tr := by
      rw [admittedCost_snoc, hadm, add_zero]
    refine ⟨fun hkey => hcost ▸ h.fresh hkey, h.nonneg, h.stays, ?_, ?_⟩
    · intro c hc
      obtain ⟨e', he', ht⟩ := h.seen c hc
      exact ⟨e', by simp [he'], ht⟩
    · rw [hcost]
      exact h.covered
  · -- the balance before the deduction is non-negative, so it is afterwards
    have hnonneg : 0 ≤ tokens := by
      obtain hadm | hpos := hpos
      · have hstored : ∀ b, fetch e.call.now key = some b → 0 ≤ b.tokens := by
          intro b hb
          rw [h.fetch_eq, Option.map_eq_some_iff] at hb
          obtain ⟨c, hc, rfl⟩ := hb
          exact h.nonneg c hc
        have := refill_nonneg l e.call.now hstored
        rw [hadm, Int.cast_zero, add_zero] at hsum
        exact hsum ▸ this
      · exact hpos
    refine ⟨by simp, ?_, ?_, ?_, ?_⟩
    · rintro c ⟨⟩
      exact hnonneg
    · rintro c ⟨⟩
      rfl
    · rintro c ⟨⟩
      exact ⟨e, by simp, rfl⟩
    · rintro c ⟨⟩
      have hle := h.refill_le hlo (hord hfits)
      rw [admittedCost_snoc]
      push_cast
      linarith

/-- If no script runs with a timestamp behind the stored one, what a bucket admits up to any point
is bounded by its capacity and the refill between the smallest and the largest timestamp seen. -/
theorem admitted_cost_bounded (cfg : RateLimitConfig) (tier : String) (l : TierRateLimit)
    (hl : cfg.tierConfig tier = some l) (tr : List Event) (key : Option Cell)
    (hrun : Run (Fires (bucketStep (fun _ => .forever) cfg tier)) none tr key)
    (hord : Throughout (Fires (bucketStep (fun _ => .forever) cfg tier)) none tr
      fun _ => InOrder l)
    (lo hi : ℕ) (hlo : IsLeast (timestamps tr) lo) (hhi : IsGreatest (timestamps tr) hi) :
    (admittedCost tr : ℚ) ≤ l.capacity + l.fillRate * (hi - lo) / 1000 := by
  have hok : Throughout (Fires (bucketStep (fun _ => .forever) cfg tier)) none tr
      fun _ key e => InOrder l key e ∧ lo ≤ e.call.now := by
    intro past e rest t heq hpast
    refine ⟨hord past e rest t heq hpast, hlo.2 ⟨e, ?_, rfl⟩⟩
    simp [heq]
  have hcov := hrun.guarded (fun tr key => Covered l lo tr key) (.initial l lo)
    (fun tr key e key' h hok he => h.step hl hok.2 hok.1 he) hok
  cases key with
  | none =>
    have hgain := l.gain_nonneg (hlo.2 hhi.1)
    have hcapacity := l.capacity_nonneg
    rw [hcov.fresh rfl, Int.cast_zero]
    linarith
  | some c =>
    have hrate := l.fillRate_nonneg
    have hlast : (c.value.last : ℚ) ≤ hi := by exact_mod_cast hhi.2 (hcov.seen c rfl)
    have htokens := hcov.nonneg c rfl
    have hgain : (l.fillRate : ℚ) * (c.value.last - lo) / 1000 ≤ l.fillRate * (hi - lo) / 1000 := by
      gcongr
    linarith [hcov.covered c rfl]

def slowLimit : TierRateLimit :=
  ⟨1, 1, 3600000000000, by decide, by decide, by decide⟩

def slowTiers : RateLimitConfig := fun tier => if tier = "free" then some slowLimit else none

def granted (now : ℕ) : Event := ⟨⟨now, 0, 1⟩, none⟩

def refused (now : ℕ) : Event := ⟨⟨now, 0, 1⟩, some (.sentinel .admissionRateLimited)⟩

def overtaken : List Event := [granted 1000, refused 0, granted 1000, refused 0, granted 1000]

/-- A refused call with an older timestamp sets the clock of the bucket back, so that the same
second is paid out again. -/
theorem admitted_cost_not_bounded :
    (∃ key, Run (Fires (bucketStep (fun _ => .forever) slowTiers "free")) none overtaken key) ∧
      IsLeast (timestamps overtaken) 0 ∧ IsGreatest (timestamps overtaken) 1000 ∧
      ¬ (admittedCost overtaken : ℚ) ≤
        slowLimit.capacity + slowLimit.fillRate * (1000 - 0) / 1000 := by
  refine ⟨?_, isLeast_timestamps.mpr (by decide), isGreatest_timestamps.mpr (by decide), ?_⟩
  · obtain ⟨key, hrun, -⟩ := Run.exists_of_foldlM
      (bucketStep (fun _ => .forever) slowTiers "free") none overtaken (fun _ => True)
      (by decide +kernel)
    exact ⟨key, hrun⟩
  · have hcost : admittedCost overtaken = 3 := by decide
    norm_num [hcost, slowLimit]

def queued : List Event := [granted 0, refused 500, refused 500, granted 1000]

theorem admitted_cost_bounded_queued :
    (admittedCost queued : ℚ) ≤ slowLimit.capacity + slowLimit.fillRate * (1000 - 0) / 1000 := by
  obtain ⟨key, hrun, -⟩ := Run.exists_of_foldlM
    (bucketStep (fun _ => .forever) slowTiers "free") none queued (fun _ => True)
    (by decide +kernel)
  exact_mod_cast admitted_cost_bounded slowTiers "free" slowLimit rfl queued key hrun
    (throughout_of_always (by decide +kernel)) 0 1000 (isLeast_timestamps.mpr (by decide))
    (isGreatest_timestamps.mpr (by decide))

end InferenceQueue.Admission

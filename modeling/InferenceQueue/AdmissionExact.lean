import InferenceQueue.AdmissionModel
import InferenceQueue.WrappedInt

namespace InferenceQueue.Admission

open Binary64 (round_nonneg)
open Redis (fetch)

variable {cfg : AdmissionConfig} {limits : RateLimits} {tier : String} {req : AdmitInput}
  {t : TierConfig} {m : ModelInfo} {now : ℕ} {key : Option Cell}

def TierConfig.cost (t : TierConfig) (req : AdmitInput) : ℤ :=
  estimatedTokens req.prompt + t.maxOutputTokens.toInt

/-- An unlisted tier is limited as the free one. -/
def RateLimits.used (limits : RateLimits) (tier : String) : TierRateLimit :=
  if tier = "premium" then limits.premium else limits.free

/-- The refilled balance in doubles. -/
def TierRateLimit.refilled (l : TierRateLimit) (now : ℕ) (key : Option Cell) : ℚ :=
  refill Binary64.round l.capacity l.fillRate now (fetch now key)

/-- A request for model `m` of tier `t` that is within its limits at this cost. -/
structure Passes (cost : ℤ) (cfg : AdmissionConfig) (tier : String) (req : AdmitInput)
    (t : TierConfig) (m : ModelInfo) : Prop where
  configured : (tier, t) ∈ cfg.tiers
  model : t.lastEntry req.model = some m
  input : estimatedTokens req.prompt ≤ t.maxInputTokens.toInt
  context : cost ≤ m.contextLength.toInt

def verdict (cfg : AdmissionConfig) (limits : RateLimits) (tier : String) (req : AdmitInput)
    (now : ℕ) (key : Option Cell) : Verdict :=
  admitRequest (buildAdmissionPolicyConfig cfg) limits.tiers (.ok tier) now req key

def Solvent (key : Option Cell) : Prop := ∀ c ∈ key, 0 ≤ c.value.tokens

def TierConfig.intCost (t : TierConfig) (req : AdmitInput) : ℤ :=
  intAdd (estimatedTokens req.prompt) t.maxOutputTokens.toInt

theorem intAdd_estimatedTokens :
    intAdd (estimatedTokens req.prompt) t.maxOutputTokens.toInt = t.intCost req := rfl

theorem tierConfig_tiers (limits : RateLimits) (tier : String) :
    limits.tiers.tierConfig tier = some (limits.used tier) := by
  unfold RateLimitConfig.tierConfig RateLimits.tiers RateLimits.used
  split_ifs <;> simp_all

theorem tier_eq_buildTierPolicy (h : (tier, t) ∈ cfg.tiers) :
    (buildAdmissionPolicyConfig cfg).tier tier = buildTierPolicy t := by
  rw [AdmissionPolicyConfig.tier, lookup_tiers.mpr ⟨t, h, rfl⟩, Option.getD_some]

theorem tier_eq_default (h : ∀ t, (tier, t) ∉ cfg.tiers) :
    (buildAdmissionPolicyConfig cfg).tier tier = default := by
  have hnone : (buildAdmissionPolicyConfig cfg).tiers.lookup tier = none := by
    rw [Option.eq_none_iff_forall_ne_some]
    intro p hp
    obtain ⟨t, ht, -⟩ := lookup_tiers.mp hp
    exact h t ht
  rw [AdmissionPolicyConfig.tier, hnone, Option.getD_none]

theorem verdict_of_passes (h : Passes (t.intCost req) cfg tier req t m) :
    verdict cfg limits tier req now key =
      conclude req t.maxOutputTokens
        (allow Binary64.round expiring limits.tiers tier key ⟨now, t.intCost req, 0⟩) := by
  have hlisted : req.model ∈ (buildTierPolicy t).allowedModels :=
    mem_allowedModels.mpr ⟨m, mem_of_lastEntry h.model⟩
  simp only [verdict, admitRequest, modelAccessPolicy, tier_eq_buildTierPolicy h.configured,
    if_pos hlisted, tokenLimitPolicy, buildTierPolicy_maxInputTokens, if_neg h.input.not_gt,
    lookup_modelContextLengths, h.model, Option.map_some, Option.mem_some_iff, exists_eq_left',
    buildTierPolicy_maxOutputTokens, intAdd_estimatedTokens, if_neg h.context.not_gt,
    rateLimitPolicy]

def Verdict.Rejects (v : Verdict) (key : Option Cell) : Prop :=
  (∃ err, v.output = .error err) ∧ v.key = key

theorem reject_rejects (reason : RejectionReason) (code : String) (err : GoError)
    (key : Option Cell) : (reject reason code err key).Rejects key :=
  ⟨⟨_, rfl⟩, rfl⟩

theorem rejectTokens_rejects (err : GoError) (key : Option Cell) :
    (rejectTokens err key).Rejects key := by
  unfold rejectTokens
  split_ifs <;> exact reject_rejects _ _ _ _

theorem rejectRate_rejects (err : GoError) (key : Option Cell) :
    (rejectRate err key).Rejects key := by
  unfold rejectRate
  split_ifs <;> exact reject_rejects _ _ _ _

theorem verdict_of_not_allowed
    (h : req.model ∉ ((buildAdmissionPolicyConfig cfg).tier tier).allowedModels) :
    (verdict cfg limits tier req now key).Rejects key := by
  simp only [verdict, admitRequest, modelAccessPolicy, if_neg h]
  exact reject_rejects _ _ _ _

theorem verdict_of_not_passes (h : ∀ t m, ¬Passes (t.intCost req) cfg tier req t m) :
    (verdict cfg limits tier req now key).Rejects key := by
  by_cases hconfigured : ∃ t, (tier, t) ∈ cfg.tiers
  · obtain ⟨t, ht⟩ := hconfigured
    have hpolicy := tier_eq_buildTierPolicy ht
    by_cases hlisted : req.model ∈ (buildTierPolicy t).allowedModels
    · obtain ⟨m, hm⟩ := exists_lastEntry (mem_allowedModels.mp hlisted)
      simp only [verdict, admitRequest, modelAccessPolicy, hpolicy, if_pos hlisted,
        tokenLimitPolicy, buildTierPolicy_maxInputTokens, lookup_modelContextLengths, hm,
        Option.map_some, Option.mem_some_iff, exists_eq_left', buildTierPolicy_maxOutputTokens,
        intAdd_estimatedTokens]
      by_cases hinput : t.maxInputTokens.toInt < estimatedTokens req.prompt
      · rw [if_pos hinput]
        exact rejectTokens_rejects _ _
      by_cases hcontext : m.contextLength.toInt < t.intCost req
      · rw [if_neg hinput, if_pos hcontext]
        exact rejectTokens_rejects _ _
      exact absurd ⟨ht, hm, not_lt.mp hinput, not_lt.mp hcontext⟩ (h t m)
    · apply verdict_of_not_allowed
      rwa [hpolicy]
  · apply verdict_of_not_allowed
    rw [tier_eq_default (not_exists.mp hconfigured)]
    exact Finset.notMem_empty _

theorem verdict_cases (h : Passes (t.intCost req) cfg tier req t m) (limits : RateLimits)
    (now : ℕ) (key : Option Cell) :
    (Binary64.round (limits.used tier).capacity < Binary64.round (t.intCost req) ∧
      (verdict cfg limits tier req now key).Rejects key) ∨
    (Binary64.round (t.intCost req) ≤ (limits.used tier).refilled now key ∧
      verdict cfg limits tier req now key =
        ⟨.ok ⟨true, req.userID, req.prompt, req.model, t.maxOutputTokens⟩, none,
          (expiring (limits.used tier)).store now ⟨Binary64.round
            ((limits.used tier).refilled now key - Binary64.round (t.intCost req)), now⟩⟩) ∨
    (Binary64.round (t.intCost req) ≤ Binary64.round (limits.used tier).capacity ∧
      (limits.used tier).refilled now key < Binary64.round (t.intCost req) ∧
      (verdict cfg limits tier req now key).Rejects
        ((expiring (limits.used tier)).store now
          ⟨(limits.used tier).refilled now key, now⟩)) := by
  have hcost : (⟨now, t.intCost req, 0⟩ : Call).cost = t.intCost req := add_zero _
  rw [verdict_of_passes h, allow_eq (tierConfig_tiers limits tier), hcost]
  obtain ⟨hbig, heq⟩ | ⟨-, hle, heq⟩ | ⟨hfits, hlt, heq⟩ := allowScript_cases Binary64.round
    (limits.used tier).capacity (limits.used tier).fillRate now (expiring (limits.used tier))
    (t.intCost req) key
  · rw [heq]
    exact Or.inl ⟨hbig, rejectRate_rejects _ _⟩
  · rw [heq]
    exact Or.inr (Or.inl ⟨hle, rfl⟩)
  · rw [heq]
    exact Or.inr (Or.inr ⟨hfits, hlt, rejectRate_rejects _ _⟩)

section Balances

variable {l : TierRateLimit}

theorem refilled_nonneg (l : TierRateLimit) (now : ℕ) (h : Solvent key) :
    0 ≤ l.refilled now key := by
  have hcapacity := round_nonneg l.capacity_nonneg
  unfold TierRateLimit.refilled
  cases hb : fetch now key with
  | none => exact hcapacity
  | some b =>
    obtain ⟨c, rfl, -, rfl⟩ := Redis.fetch_some.mp hb
    have helapsed : 0 ≤ max 0 (Binary64.round (Binary64.round now -
      Binary64.round c.value.last)) / 1000 := by positivity
    have hgain := mul_nonneg (round_nonneg helapsed) (round_nonneg l.fillRate_nonneg)
    have htokens := round_nonneg (h c rfl)
    exact le_min hcapacity (round_nonneg (add_nonneg htokens (round_nonneg hgain)))

end Balances

theorem Passes.listed {cost : ℤ} (h : Passes cost cfg tier req t m) :
    ∃ m ∈ t.models, m.name = req.model :=
  ⟨m, mem_of_lastEntry h.model⟩

theorem Solvent.store {l : TierRateLimit} {b : Bucket} (h : 0 ≤ b.tokens) (now : ℕ) :
    Solvent ((expiring l).store now b) := by
  intro c hc
  unfold expiring Retention.store Redis.expire at hc
  dsimp only at hc
  split_ifs at hc
  · cases hc
  · obtain rfl := Option.mem_some_iff.mp hc
    exact h

/-- The limiter leaves no bucket in debt. -/
theorem Solvent.verdict (h : Solvent key) :
    Solvent (Admission.verdict cfg limits tier req now key).key := by
  by_cases hpass : ∃ t m, Passes (t.intCost req) cfg tier req t m
  · obtain ⟨t, m, hpass⟩ := hpass
    obtain ⟨-, -, hv⟩ | ⟨hle, hv⟩ | ⟨-, -, -, hv⟩ := verdict_cases hpass limits now key
    · rwa [hv]
    · rw [hv]
      exact .store (round_nonneg (sub_nonneg.mpr hle)) now
    · rw [hv]
      exact .store (refilled_nonneg _ _ h) now
  · have hrejects : (Admission.verdict cfg limits tier req now key).Rejects key :=
      verdict_of_not_passes fun t m h => hpass ⟨t, m, h⟩
    rwa [hrejects.2]

def servedTier : TierConfig := ⟨1000, 512, [⟨"llama3:8b", 512⟩, ⟨"llama3:8b", 128000⟩]⟩

def hourly : RateLimit := ⟨2000, 20, 3600000000000⟩

def hourlyLimit : TierRateLimit :=
  ⟨2000, 20, 3600000000000, by decide, by decide, slowLimit.ttl_pos⟩

/-- Two tiers, one of them with the free limits. -/
def servedConfig : AdmissionConfig :=
  ⟨hourly, hourly, [("premium", servedTier), ("trial", servedTier)], by decide⟩

end InferenceQueue.Admission

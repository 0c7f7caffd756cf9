import InferenceQueue.Binary64
import InferenceQueue.RateLimitExpiry

namespace InferenceQueue.Admission

structure ModelInfo where
  name : String
  contextLength : Int64
deriving DecidableEq

structure TierConfig where
  maxInputTokens : Int64
  maxOutputTokens : Int64
  models : List ModelInfo
deriving DecidableEq

/-- The map `Tiers` is the list of its entries in the order in which a loop visits them. -/
structure AdmissionConfig where
  free : RateLimit
  premium : RateLimit
  tiers : List (String × TierConfig)
  nodup : (tiers.map Prod.fst).Nodup

structure RateLimits where
  free : TierRateLimit
  premium : TierRateLimit
deriving DecidableEq

def invalid (msg : String) : GoError := .text ("admission configuration: " ++ msg)

/-- The map that `buildAdmissionDeps` hands to the rate limiter. -/
def RateLimits.tiers (limits : RateLimits) : RateLimitConfig := fun tier =>
  if tier = "free" then some limits.free
  else if tier = "premium" then some limits.premium
  else none

structure TierPolicy where
  maxInputTokens : Int64
  maxOutputTokens : Int64
  allowedModels : Finset String
  modelContextLengths : Finmap fun _ : String => Int64

/-- The zero value, which a missing entry of the map yields. -/
instance : Inhabited TierPolicy := ⟨⟨0, 0, ∅, ∅⟩⟩

structure AdmissionPolicyConfig where
  tiers : Finmap fun _ : String => TierPolicy

def TierPolicy.addModel (p : TierPolicy) (model : ModelInfo) : TierPolicy :=
  { p with
    allowedModels := insert model.name p.allowedModels
    modelContextLengths := p.modelContextLengths.insert model.name model.contextLength }

def buildTierPolicy (tierCfg : TierConfig) : TierPolicy :=
  tierCfg.models.foldl TierPolicy.addModel
    ⟨tierCfg.maxInputTokens, tierCfg.maxOutputTokens, ∅, ∅⟩

def buildAdmissionPolicyConfig (cfg : AdmissionConfig) : AdmissionPolicyConfig :=
  ⟨cfg.tiers.foldl (fun tiers e => tiers.insert e.1 (buildTierPolicy e.2)) ∅⟩

/-- `p.policy.Tiers[userTier]` -/
def AdmissionPolicyConfig.tier (policy : AdmissionPolicyConfig) (userTier : String) :
    TierPolicy :=
  (policy.tiers.lookup userTier).getD default

structure AdmitInput where
  userID : String
  prompt : String
  model : String
deriving DecidableEq

structure AdmitOutput where
  admitted : Bool
  userID : String
  prompt : String
  model : String
  maxOutputTokens : Int64
deriving DecidableEq

structure RequestMetadata where
  inputTokens : ℤ
  maxOutputTokens : Int64

structure PolicyEvaluationContext where
  request : AdmitInput
  metadata : RequestMetadata
  userTier : String

/-- The sum of two Go `int`s. -/
def intAdd (x y : ℤ) : ℤ := (x + y).bmod (2 ^ 64)

/-- `utf8.RuneCountInString(prompt) / 4`; the number of runes of a Go string fits an `int`. -/
def estimatedTokens (prompt : String) : ℤ := prompt.length / 4

def modelAccessPolicy (policy : AdmissionPolicyConfig) (ctx : PolicyEvaluationContext) :
    Except GoError Unit :=
  if ctx.request.model ∈ (policy.tier ctx.userTier).allowedModels then .ok ()
  else .error (.sentinel .admissionModelNotAllowed)

/-- Writes the metadata that the rate limit is charged with. -/
def tokenLimitPolicy (policy : AdmissionPolicyConfig) (ctx : PolicyEvaluationContext) :
    Except GoError PolicyEvaluationContext :=
  let estimated := estimatedTokens ctx.request.prompt
  let pl := policy.tier ctx.userTier
  if pl.maxInputTokens.toInt < estimated then .error (.sentinel .admissionInputTooLarge)
  else if ∃ contextLength ∈ pl.modelContextLengths.lookup ctx.request.model,
      contextLength.toInt < intAdd estimated pl.maxOutputTokens.toInt then
    .error (.sentinel .admissionContextLengthExceeded)
  else .ok { ctx with metadata := ⟨estimated, pl.maxOutputTokens⟩ }

/-- The cost, an `int`, is all that `Allow` takes from the two numbers of tokens. The numbers of a
Lua script are doubles. -/
def rateLimitPolicy (limits : RateLimitConfig) (now : ℕ) (ctx : PolicyEvaluationContext)
    (key : Option Cell) : Option GoError × Option Cell :=
  allow Binary64.round expiring limits ctx.userTier key
    ⟨now, intAdd ctx.metadata.inputTokens ctx.metadata.maxOutputTokens.toInt, 0⟩

inductive RejectionReason
  | tokenLimit
  | modelNotAllowed
  | rateLimited
  | other
deriving DecidableEq, Repr

def RejectionReason.text : RejectionReason → String
  | tokenLimit => "token_limit"
  | modelNotAllowed => "model_not_allowed"
  | rateLimited => "rate_limited"
  | other => "other"

/-- What `Admit` returns, the rejection it counts, and the key of the user's bucket afterwards. -/
structure Verdict where
  output : Except GoError AdmitOutput
  rejected : Option RejectionReason
  key : Option Cell
deriving DecidableEq

def errTypeAdmission : String := "ADMISSION_FAILED"

def reject (reason : RejectionReason) (code : String) (err : GoError) (key : Option Cell) :
    Verdict :=
  ⟨.error (err.ensureAppError code errTypeAdmission), some reason, key⟩

def rejectTokens (err : GoError) (key : Option Cell) : Verdict :=
  if err.is .admissionInputTooLarge then
    reject .tokenLimit "INPUT_TOKEN_EXCEEDS_TIER_LIMIT" err key
  else if err.is .admissionContextLengthExceeded then
    reject .tokenLimit "REQUEST_COST_EXCEEDS_TIER_LIMIT" err key
  else reject .other "INTERNAL_ERROR" err key

def rejectRate (err : GoError) (key : Option Cell) : Verdict :=
  if err.is .admissionRateLimited then
    reject .rateLimited "RATE_LIMIT_EXCEEDED" err key
  else if err.is .admissionCostExceedsCapacity then
    reject .rateLimited "REQUEST_COST_EXCEEDS_TIER_LIMIT" err key
  else reject .other "INTERNAL_ERROR" err key

/-- The answer to what the rate limit policy returned. -/
def conclude (req : AdmitInput) (maxOutputTokens : Int64) :
    Option GoError × Option Cell → Verdict
  | (some err, key) => rejectRate err key
  | (none, key) =>
    ⟨.ok ⟨true, req.userID, req.prompt, req.model, maxOutputTokens⟩, none, key⟩

/-- `user` is what `GetUserPolicy` returned, `key` what Redis holds for the user and tier. -/
def admitRequest (policy : AdmissionPolicyConfig) (limits : RateLimitConfig)
    (user : Except GoError String) (now : ℕ) (req : AdmitInput) (key : Option Cell) : Verdict :=
  match user with
  | .error err =>
    ⟨.error (.app "POLICY_FETCH_FAILED" errTypeAdmission err), some .other, key⟩
  | .ok userTier =>
    let ctx : PolicyEvaluationContext := ⟨req, ⟨0, 0⟩, userTier⟩
    match modelAccessPolicy policy ctx with
    | .error err => reject .modelNotAllowed "MODEL_NOT_ALLOWED_FOR_TIER" err key
    | .ok () =>
      match tokenLimitPolicy policy ctx with
      | .error err => rejectTokens err key
      | .ok ctx =>
        conclude req ctx.metadata.maxOutputTokens (rateLimitPolicy limits now ctx key)

section Maps

variable {κ α β : Type*} [DecidableEq κ]

/-- A map filled by a loop holds the last entry of each name. -/
theorem lookup_foldl_insert (name : β → κ) (val : β → α) (l : List β)
    (m : Finmap fun _ : κ => α) (k : κ) :
    (l.foldl (fun m b => m.insert (name b) (val b)) m).lookup k =
      ((l.findRev? (name · = k)).map val).or (m.lookup k) := by
  induction l generalizing m with
  | nil => rfl
  | cons b l ih =>
    rw [List.foldl_cons, ih, List.findRev?]
    cases hlast : l.findRev? (name · = k) with
    | some b' => simp
    | none =>
      by_cases hk : name b = k
      · subst hk
        simp
      · simp [hk, Finmap.lookup_insert_of_ne _ (Ne.symm hk)]

end Maps

theorem foldl_addModel (models : List ModelInfo) (p : TierPolicy) :
    models.foldl TierPolicy.addModel p =
      { p with
        allowedModels := models.foldl (fun s m => insert m.name s) p.allowedModels
        modelContextLengths :=
          models.foldl (fun s m => s.insert m.name m.contextLength) p.modelContextLengths } := by
  induction models generalizing p with
  | nil => rfl
  | cons m models ih => exact ih _

theorem mem_foldl_insert_name {models : List ModelInfo} {s : Finset String} {name : String} :
    name ∈ models.foldl (fun s m => insert m.name s) s ↔
      name ∈ s ∨ ∃ m ∈ models, m.name = name := by
  induction models generalizing s with
  | nil => simp
  | cons m models ih =>
    rw [List.foldl_cons, ih, Finset.mem_insert, List.exists_mem_cons_iff]
    tauto

def TierConfig.lastEntry (t : TierConfig) (model : String) : Option ModelInfo :=
  t.models.findRev? (·.name = model)

section

variable {t : TierConfig} {model : String}

@[simp] theorem buildTierPolicy_maxInputTokens :
    (buildTierPolicy t).maxInputTokens = t.maxInputTokens := by
  rw [buildTierPolicy, foldl_addModel]

@[simp] theorem buildTierPolicy_maxOutputTokens :
    (buildTierPolicy t).maxOutputTokens = t.maxOutputTokens := by
  rw [buildTierPolicy, foldl_addModel]

theorem mem_allowedModels :
    model ∈ (buildTierPolicy t).allowedModels ↔ ∃ m ∈ t.models, m.name = model := by
  rw [buildTierPolicy, foldl_addModel]
  simp [mem_foldl_insert_name]

theorem lookup_modelContextLengths :
    (buildTierPolicy t).modelContextLengths.lookup model =
      (t.lastEntry model).map ModelInfo.contextLength := by
  rw [buildTierPolicy, foldl_addModel]
  refine (lookup_foldl_insert ModelInfo.name ModelInfo.contextLength t.models ∅ model).trans ?_
  rw [Finmap.lookup_empty, Option.or_none]
  rfl

theorem exists_lastEntry (h : ∃ m ∈ t.models, m.name = model) :
    ∃ m, t.lastEntry model = some m := by
  rw [← Option.isSome_iff_exists, TierConfig.lastEntry, List.findRev?_eq_find?_reverse,
    List.find?_isSome]
  simpa using h

theorem mem_of_lastEntry {m : ModelInfo} (h : t.lastEntry model = some m) :
    m ∈ t.models ∧ m.name = model := by
  rw [TierConfig.lastEntry, List.findRev?_eq_find?_reverse] at h
  refine ⟨List.mem_reverse.mp (List.mem_of_find?_eq_some h), ?_⟩
  simpa using List.find?_some h

end

theorem tier_eq_of_mem {cfg : AdmissionConfig} {tier : String} {t t' : TierConfig}
    (h : (tier, t) ∈ cfg.tiers) (h' : (tier, t') ∈ cfg.tiers) : t = t' :=
  (Prod.mk.inj (List.inj_on_of_nodup_map cfg.nodup h h' rfl)).2

theorem lookup_tiers {cfg : AdmissionConfig} {tier : String} {p : TierPolicy} :
    (buildAdmissionPolicyConfig cfg).tiers.lookup tier = some p ↔
      ∃ t, (tier, t) ∈ cfg.tiers ∧ buildTierPolicy t = p := by
  have hlast : (buildAdmissionPolicyConfig cfg).tiers.lookup tier =
      (cfg.tiers.findRev? (·.1 = tier)).map fun e => buildTierPolicy e.2 := by
    rw [buildAdmissionPolicyConfig, lookup_foldl_insert Prod.fst fun e => buildTierPolicy e.2,
      Finmap.lookup_empty, Option.or_none]
  rw [hlast, Option.map_eq_some_iff, List.findRev?_eq_find?_reverse]
  constructor
  · rintro ⟨⟨name, t⟩, hfind, hp⟩
    obtain rfl : name = tier := by simpa using List.find?_some hfind
    exact ⟨t, List.mem_reverse.mp (List.mem_of_find?_eq_some hfind), hp⟩
  · rintro ⟨t, ht, hp⟩
    have hsome : (cfg.tiers.reverse.find? (·.1 = tier)).isSome := by
      rw [List.find?_isSome]
      exact ⟨(tier, t), List.mem_reverse.mpr ht, by simp⟩
    obtain ⟨⟨name, t'⟩, hfind⟩ := Option.isSome_iff_exists.mp hsome
    obtain rfl : name = tier := by simpa using List.find?_some hfind
    have ht' := List.mem_reverse.mp (List.mem_of_find?_eq_some hfind)
    exact ⟨_, hfind, by rw [tier_eq_of_mem ht' ht, hp]⟩

end InferenceQueue.Admission

import InferenceQueue.JobModel

namespace InferenceQueue.Jobs

structure RetryConfig where
  maxAttempt : Int64
  baseDelay : Int64
  maxDelay : Int64
deriving DecidableEq

/-- The map `Tiers` is the list of its entries in the order in which a loop visits them. -/
structure JobConfig where
  tiers : List (String × RetryConfig)
  nodup : (tiers.map Prod.fst).Nodup

/-- A policy that passed `BuildJobPolicyConfig`.  Durations are in nanoseconds. -/
structure RetryPolicy where
  maxAttempts : Int64
  baseDelay : Int64
  maxDelay : Int64
  attempts_pos : 0 < maxAttempts
  attempts_le : maxAttempts ≤ 255
  base_pos : 0 < baseDelay
  base_le_max : baseDelay ≤ maxDelay
deriving DecidableEq

structure JobPolicyConfig where
  tiers : Finmap fun _ : String => RetryPolicy

def misconfigured (msg : String) : GoError := .text ("job configuration: " ++ msg)

/-- The body of the loop in `BuildJobPolicyConfig`. -/
def buildRetryPolicy (tierName : String) (retryCfg : RetryConfig) : Except GoError RetryPolicy :=
  if tierName = "" then .error (misconfigured "user tier name must not be empty")
  else if hpos : retryCfg.maxAttempt ≤ 0 then
    .error (misconfigured ("max_attempt must be greater than zero for tier " ++ tierName.quote))
  else if hle : 255 < retryCfg.maxAttempt then
    .error (misconfigured ("max_attempt must be <= 255 for tier " ++ tierName.quote))
  else if hbase : retryCfg.baseDelay ≤ 0 then
    .error (misconfigured ("base_delay must be greater than zero for tier " ++ tierName.quote))
  else if hmax : retryCfg.maxDelay < retryCfg.baseDelay then
    .error (misconfigured ("max_delay must be greater than or equal to base_delay for tier " ++
      tierName.quote))
  else
    .ok ⟨retryCfg.maxAttempt, retryCfg.baseDelay, retryCfg.maxDelay, Int64.not_le.mp hpos,
      Int64.not_lt.mp hle, Int64.not_le.mp hbase, Int64.not_lt.mp hmax⟩

def buildTiers (tiers : Finmap fun _ : String => RetryPolicy) :
    List (String × RetryConfig) → Except GoError (Finmap fun _ : String => RetryPolicy)
  | [] => .ok tiers
  | (tierName, retryCfg) :: rest =>
    match buildRetryPolicy tierName retryCfg with
    | .error err => .error err
    | .ok policy => buildTiers (tiers.insert tierName policy) rest

def buildJobPolicyConfig (cfg : JobConfig) : Except GoError JobPolicyConfig :=
  if cfg.tiers = [] then .error (misconfigured "at least one user tier must be configured")
  else (buildTiers ∅ cfg.tiers).map JobPolicyConfig.mk

def errCodePolicyFetchFailed : String := "JOB_POLICY_FETCH_FAILED"

/-- `GetRetryPolicy`, from the tier that `GetUserPolicy` returns. -/
def getRetryPolicy (cfg : JobPolicyConfig) : Except GoError String → Except GoError RetryPolicy
  | .error err => .error (err.ensureAppError errCodePolicyFetchFailed errTypeJob)
  | .ok tier =>
    match cfg.tiers.lookup tier with
    | none => .error (.app errCodePolicyFetchFailed errTypeJob
        (.text ("no retry policy configured for tier: " ++ tier)))
    | some policy => .ok policy

structure RetryPolicy.Configured (p : RetryPolicy) (r : RetryConfig) : Prop where
  maxAttempts : p.maxAttempts = r.maxAttempt
  baseDelay : p.baseDelay = r.baseDelay
  maxDelay : p.maxDelay = r.maxDelay

variable {tierName : String} {r : RetryConfig} {p : RetryPolicy} {cfg : JobConfig}
  {policies : JobPolicyConfig} {tiers tiers' : Finmap fun _ : String => RetryPolicy}
  {l : List (String × RetryConfig)}

theorem configured_of_build (h : buildRetryPolicy tierName r = .ok p) : p.Configured r := by
  unfold buildRetryPolicy at h
  split_ifs at h
  obtain rfl := Except.ok.inj h
  exact ⟨rfl, rfl, rfl⟩

theorem lookup_buildTiers_of_notMem (h : buildTiers tiers l = .ok tiers')
    (hnot : tierName ∉ l.map Prod.fst) : tiers'.lookup tierName = tiers.lookup tierName := by
  induction l generalizing tiers with
  | nil =>
    obtain rfl := Except.ok.inj h
    rfl
  | cons e l ih =>
    rw [List.map_cons, List.mem_cons, not_or] at hnot
    rw [buildTiers] at h
    split at h
    · cases h
    · rw [ih h hnot.2, Finmap.lookup_insert_of_ne _ hnot.1]

theorem exists_lookup_buildTiers (h : buildTiers tiers l = .ok tiers')
    (hnodup : (l.map Prod.fst).Nodup) (hr : (tierName, r) ∈ l) :
    ∃ p, tiers'.lookup tierName = some p ∧ p.Configured r := by
  induction l generalizing tiers with
  | nil => cases hr
  | cons e l ih =>
    rw [List.map_cons, List.nodup_cons] at hnodup
    rw [buildTiers] at h
    split at h
    · cases h
    next p hp =>
      rcases List.mem_cons.mp hr with rfl | hr
      · refine ⟨p, ?_, configured_of_build hp⟩
        rw [lookup_buildTiers_of_notMem h hnodup.1, Finmap.lookup_insert]
      · exact ih h hnodup.2 hr

theorem exists_policy (h : buildJobPolicyConfig cfg = .ok policies)
    (hr : (tierName, r) ∈ cfg.tiers) :
    ∃ p, getRetryPolicy policies (.ok tierName) = .ok p ∧ p.Configured r := by
  unfold buildJobPolicyConfig at h
  split_ifs at h
  cases htiers : buildTiers ∅ cfg.tiers with
  | error err =>
    rw [htiers] at h
    cases h
  | ok tiers =>
    rw [htiers] at h
    obtain rfl := Except.ok.inj h
    obtain ⟨p, hp, hconfigured⟩ := exists_lookup_buildTiers htiers cfg.nodup hr
    exact ⟨p, by rw [getRetryPolicy, hp], hconfigured⟩

namespace RetryPolicy

variable (p : RetryPolicy)

theorem one_le_attempts : 1 ≤ p.maxAttempts.toInt := by
  have h := Int64.lt_iff_toInt_lt.mp p.attempts_pos
  rwa [Int64.toInt_zero] at h

theorem attempts_le_max : p.maxAttempts.toInt ≤ 255 := Int64.le_iff_toInt_le.mp p.attempts_le

theorem baseDelay_pos : 0 < p.baseDelay.toInt := by
  have h := Int64.lt_iff_toInt_lt.mp p.base_pos
  rwa [Int64.toInt_zero] at h

theorem baseDelay_le : p.baseDelay.toInt ≤ p.maxDelay.toInt :=
  Int64.le_iff_toInt_le.mp p.base_le_max

end RetryPolicy

end InferenceQueue.Jobs

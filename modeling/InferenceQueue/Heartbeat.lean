import InferenceQueue.WorkerLoop
import Mathlib.Data.List.DropRight

namespace InferenceQueue.Service

/-- Durations are in nanoseconds. -/
structure WorkerConfig where
  workerCounts : ℤ
  pollInterval : ℤ
  leaseTimeout : ℤ
  /-- the bits of a `float32` -/
  temperature : UInt32
  defaultMaxAttempts : ℤ
  defaultMaxDelay : ℤ
  defaultBaseDelay : ℤ
  maxRenewalFailures : ℤ

structure WorkerPool where
  workerCount : ℤ
  pollInterval : ℤ
  leaseTimeout : ℤ
  temperature : UInt32
  defaultMaxAttempts : ℤ
  defaultMaxDelay : ℤ
  defaultBaseDelay : ℤ
  maxRenewalFailures : ℤ

/-- `durationString` is the `String` method of `time.Duration`. -/
def newWorkerPool (durationString : ℤ → String) : Option WorkerConfig → Except GoError WorkerPool
  | none => .error (.text "worker pool: configuration must not be nil")
  | some cfg =>
    if cfg.workerCounts ≤ 0 then
      .error (.text ("worker pool: WorkerCounts must be > 0, got " ++ toString cfg.workerCounts))
    else if cfg.pollInterval ≤ 0 then
      .error (.text ("worker pool: PollInterval must be > 0, got " ++
        durationString cfg.pollInterval))
    else if cfg.leaseTimeout ≤ 0 then
      .error (.text ("worker pool: LeaseTimeout must be > 0, got " ++
        durationString cfg.leaseTimeout))
    else if cfg.defaultMaxAttempts = 0 then
      .error (.text "worker pool: DefaultMaxAttempts must be > 0")
    else if cfg.defaultBaseDelay ≤ 0 then
      .error (.text ("worker pool: DefaultBaseDelay must be > 0, got " ++
        durationString cfg.defaultBaseDelay))
    else if cfg.defaultMaxDelay ≤ 0 then
      .error (.text ("worker pool: DefaultMaxDelay must be > 0, got " ++
        durationString cfg.defaultMaxDelay))
    else if cfg.defaultMaxDelay < cfg.defaultBaseDelay then
      .error (.text "worker pool: DefaultMaxDelay must be >= DefaultBaseDelay")
    else if cfg.maxRenewalFailures ≤ 0 then
      .error (.text ("worker pool: maxRenewalFailures must be > 0, got " ++
        toString cfg.maxRenewalFailures))
    else
      .ok {
        workerCount := cfg.workerCounts
        pollInterval := cfg.pollInterval
        leaseTimeout := cfg.leaseTimeout
        temperature := cfg.temperature
        defaultMaxAttempts := cfg.defaultMaxAttempts
        defaultMaxDelay := cfg.defaultMaxDelay
        defaultBaseDelay := cfg.defaultBaseDelay
        -- the literal does not name this field, so it has its zero value
        maxRenewalFailures := 0 }

/-- An error of the Redis client holds none of the repository's own errors. -/
structure ClientError where
  err : GoError
  no_code : err.appCode = none
  not_ours : err.is .schedulerJobNotFound = false ∧ err.is .workerLeaseExtendFailed = false

inductive Renewal
  | extended
  | notHeld
  | failed (c : ClientError)

def Renewal.isFailed : Renewal → Bool
  | failed _ => true
  | extended | notHeld => false

def errTypeScheduler : String := "SCHEDULER_FAILED"

def errCodeSchedulerJobNotFound : String := "JOB_NOT_FOUND"

def errCodeReleaseExtendingFailed : String := "RELEASE_EXTENDING_FAILED"

/-- `ExtendProcessingLease` of the repository. -/
def Renewal.repositoryErr : Renewal → Option GoError
  | extended => none
  | notHeld => some (.sentinel .schedulerJobNotFound)
  | failed c => some (.wrap "extend processing lease: " c.err)

/-- `ExtendProcessingLease` of the use case. -/
def Renewal.serviceErr (r : Renewal) : Option GoError :=
  r.repositoryErr.map fun err =>
    if err.is .schedulerJobNotFound then
      err.ensureAppError errCodeSchedulerJobNotFound errTypeScheduler
    else err.ensureAppError errCodeReleaseExtendingFailed errTypeScheduler

/-- `ExtendLease` of the worker's adapter. -/
def Renewal.extendLease (r : Renewal) : Option GoError :=
  r.serviceErr.map fun err =>
    if err.isCode errCodeSchedulerJobNotFound then .both (.sentinel .workerLeaseExtendFailed) err
    else err

/-- The loop of the heartbeat goroutine after so many beats. -/
structure Beating where
  beats : ℕ
  consecutiveFailures : ℕ
  /-- the beat that cancelled the job context, and why -/
  canceled : Option (ℕ × LeaseLoss)

namespace Beating

def start : Beating := ⟨0, 0, none⟩

def beat (maxRenewalFailures : ℤ) (b : Beating) (err : Option GoError) : Beating :=
  if b.canceled.isSome then b
  else
    match err with
    | none => ⟨b.beats + 1, 0, none⟩
    | some err =>
      if err.is .workerLeaseExtendFailed then
        ⟨b.beats + 1, b.consecutiveFailures, some (b.beats, .notHeld)⟩
      else if maxRenewalFailures ≤ b.consecutiveFailures + 1 then
        ⟨b.beats + 1, b.consecutiveFailures + 1, some (b.beats, .maxFailures)⟩
      else ⟨b.beats + 1, b.consecutiveFailures + 1, none⟩

end Beating

def heartbeat (maxRenewalFailures : ℤ) (outcomes : List Renewal) : Beating :=
  outcomes.foldl (fun b r => b.beat maxRenewalFailures r.extendLease) .start

/-- The beat at which the pool cancels a job whose renewals have these outcomes. -/
def WorkerPool.cancelsAt (pool : WorkerPool) (outcomes : List Renewal) : Option ℕ :=
  (heartbeat pool.maxRenewalFailures outcomes).canceled.map Prod.fst

/-- After `past` it is time to give up: the lease is not held, or the last `n` renewals and maybe
more failed otherwise. -/
def Due (n : ℕ) (past : List Renewal) : Prop :=
  past.getLast? = some .notHeld ∨ n ≤ (past.rtakeWhile Renewal.isFailed).length

def FirstDue (n : ℕ) (outcomes : List Renewal) (k : ℕ) : Prop :=
  k < outcomes.length ∧ Due n (outcomes.take (k + 1)) ∧ ∀ i < k, ¬Due n (outcomes.take (i + 1))

/-- The pool cancels the job at the first outcome at which the configuration says so. -/
def GivesUpAsConfigured (cfg : WorkerConfig) (pool : WorkerPool) (outcomes : List Renewal) : Prop :=
  ∀ k, pool.cancelsAt outcomes = some k ↔ FirstDue cfg.maxRenewalFailures.toNat outcomes k

variable {n k : ℕ} {limit : ℤ} {past outcomes : List Renewal} {r : Renewal} {c : ClientError}
  {durationString : ℤ → String} {cfg : WorkerConfig} {pool : WorkerPool}

theorem extendLease_extended : Renewal.extended.extendLease = none := rfl

theorem extendLease_notHeld :
    ∃ err, Renewal.notHeld.extendLease = some err ∧ err.is .workerLeaseExtendFailed = true := by
  refine ⟨_, rfl, ?_⟩
  decide

theorem extendLease_failed (c : ClientError) :
    ∃ err, (Renewal.failed c).extendLease = some err ∧
      err.is .workerLeaseExtendFailed = false := by
  -- any other error comes up as one that does not say that the lease is lost
  have hcode : (GoError.wrap "extend processing lease: " c.err).appCode = none := c.no_code
  have hfound : (GoError.wrap "extend processing lease: " c.err).is .schedulerJobNotFound = false :=
    c.not_ours.1
  have hservice : (Renewal.failed c).serviceErr = some (.app errCodeReleaseExtendingFailed
      errTypeScheduler (.wrap "extend processing lease: " c.err)) := by
    simp [Renewal.serviceErr, Renewal.repositoryErr, hfound, GoError.ensureAppError, hcode]
  refine ⟨.app errCodeReleaseExtendingFailed errTypeScheduler
    (.wrap "extend processing lease: " c.err), ?_, c.not_ours.2⟩
  rw [Renewal.extendLease, hservice, Option.map_some, if_neg (by simp [GoError.isCode,
    GoError.appCode, errCodeReleaseExtendingFailed, errCodeSchedulerJobNotFound])]

theorem heartbeat_snoc : heartbeat limit (past ++ [r]) =
    (heartbeat limit past).beat limit r.extendLease := by
  simp [heartbeat, List.foldl_append]

theorem beat_canceled {b : Beating} {err : Option GoError} (h : b.canceled.isSome = true) :
    b.beat limit err = b := by
  simp [Beating.beat, h]

theorem beat_extended {b : Beating} (h : b.canceled = none) :
    b.beat limit Renewal.extended.extendLease = ⟨b.beats + 1, 0, none⟩ := by
  simp [Beating.beat, h, extendLease_extended]

theorem beat_notHeld {b : Beating} (h : b.canceled = none) :
    b.beat limit Renewal.notHeld.extendLease =
      ⟨b.beats + 1, b.consecutiveFailures, some (b.beats, .notHeld)⟩ := by
  obtain ⟨err, herr, his⟩ := extendLease_notHeld
  simp [Beating.beat, h, herr, his]

theorem beat_failed {b : Beating} (h : b.canceled = none) :
    b.beat limit (Renewal.failed c).extendLease =
      if limit ≤ b.consecutiveFailures + 1 then
        ⟨b.beats + 1, b.consecutiveFailures + 1, some (b.beats, .maxFailures)⟩
      else ⟨b.beats + 1, b.consecutiveFailures + 1, none⟩ := by
  obtain ⟨err, herr, his⟩ := extendLease_failed c
  simp [Beating.beat, h, herr, his]

def Renewal.response : Renewal → Response
  | extended => .reply (.done (.ok ()))
  | notHeld => .reply (.done (.error (.sentinel .schedulerJobNotFound)))
  | failed _ => .failed false

/-- The heartbeats of the system count as this loop does. -/
theorem beaten_eq_beat (limit beats failures : ℕ) (r : Renewal) :
    let b := (⟨beats, failures, none⟩ : Beating).beat limit r.extendLease
    Worker.beaten limit ⟨true, false, failures⟩ r.response =
      ⟨b.canceled.isNone, b.canceled.isSome, b.consecutiveFailures⟩ := by
  cases r with
  | extended =>
    rw [beat_extended rfl]
    rfl
  | notHeld =>
    rw [beat_notHeld rfl]
    rfl
  | failed c =>
    rw [beat_failed rfl]
    have hlimit : (limit : ℤ) ≤ failures + 1 ↔ limit ≤ failures + 1 := by omega
    simp only [Renewal.response, Worker.beaten, Worker.beaten.missed, hlimit]
    split_ifs <;> rfl

theorem due_extended_snoc (hn : 0 < n) : ¬Due n (past ++ [.extended]) := by
  rintro (h | h)
  · simp at h
  · simp [Renewal.isFailed] at h
    omega

theorem due_notHeld_snoc : Due n (past ++ [.notHeld]) := Or.inl (by simp)

theorem due_failed_snoc :
    Due n (past ++ [.failed c]) ↔ n ≤ (past.rtakeWhile Renewal.isFailed).length + 1 := by
  simp [Due, List.rtakeWhile_concat, Renewal.isFailed]

theorem firstDue_snoc_of_firstDue (h : FirstDue n past k) : FirstDue n (past ++ [r]) k := by
  obtain ⟨hk, hdue, hfirst⟩ := h
  refine ⟨by simp; omega, ?_, fun i hi => ?_⟩
  · rwa [List.take_append_of_le_length (by omega)]
  · rw [List.take_append_of_le_length (by omega)]
    exact hfirst i hi

/-- What the loop knows after the outcomes `past`: it has counted the errors at the end, unless it
has given up at the first chance. -/
structure CountsFailures (n : ℕ) (past : List Renewal) (b : Beating) : Prop where
  failures : b.canceled = none → b.beats = past.length ∧
    b.consecutiveFailures = (past.rtakeWhile Renewal.isFailed).length ∧
    ∀ i < past.length, ¬Due n (past.take (i + 1))
  canceled : ∀ k why, b.canceled = some (k, why) → FirstDue n past k

theorem CountsFailures.snoc_running (hn : 0 < n) {b : Beating} (h : CountsFailures n past b)
    (hrunning : b.canceled = none) : CountsFailures n (past ++ [r]) (b.beat n r.extendLease) := by
  obtain ⟨hbeats, hcount, hnot⟩ := h.failures hrunning
  have hearlier : ∀ i < past.length, ¬Due n ((past ++ [r]).take (i + 1)) := by
    intro i hi
    rw [List.take_append_of_le_length (by omega)]
    exact hnot i hi
  have hlast : (past ++ [r]).take (past.length + 1) = past ++ [r] := by
    rw [List.take_of_length_le (by simp)]
  -- the beat gives up, or after it there is still no reason to
  have hgive : Due n (past ++ [r]) → FirstDue n (past ++ [r]) past.length := by
    intro hdue
    exact ⟨by simp, by rwa [hlast], hearlier⟩
  have hgoOn : ¬Due n (past ++ [r]) →
      ∀ i < (past ++ [r]).length, ¬Due n ((past ++ [r]).take (i + 1)) := by
    intro hdue i hi
    rcases Nat.lt_or_ge i past.length with hlt | hge
    · exact hearlier i hlt
    · obtain rfl : i = past.length := by simp at hi; omega
      rwa [hlast]
  cases r with
  | extended =>
    rw [beat_extended hrunning]
    refine ⟨fun _ => ⟨by simp [hbeats], ?_, hgoOn (due_extended_snoc hn)⟩, by simp⟩
    simp [Renewal.isFailed]
  | notHeld =>
    rw [beat_notHeld hrunning]
    refine ⟨by simp, ?_⟩
    rintro k why ⟨⟩
    rw [hbeats]
    exact hgive due_notHeld_snoc
  | failed c =>
    rw [beat_failed hrunning]
    split_ifs with hlimit
    · refine ⟨by simp, ?_⟩
      rintro k why ⟨⟩
      rw [hbeats]
      exact hgive (due_failed_snoc.mpr (by omega))
    · have hdue : ¬Due n (past ++ [.failed c]) := by
        rw [due_failed_snoc]
        omega
      refine ⟨fun _ => ⟨by simp [hbeats], ?_, hgoOn hdue⟩, by simp⟩
      simp [List.rtakeWhile_concat, Renewal.isFailed, hcount]

theorem countsFailures_heartbeat (hn : 0 < n) (past : List Renewal) :
    CountsFailures n past (heartbeat n past) := by
  induction past using List.reverseRecOn with
  | nil => exact ⟨fun _ => ⟨rfl, rfl, by simp⟩, by rintro k why ⟨⟩⟩
  | append_singleton past r ih =>
    rw [heartbeat_snoc]
    cases hcanceled : (heartbeat n past).canceled with
    | none => exact ih.snoc_running hn hcanceled
    | some at' =>
      rw [beat_canceled (by rw [hcanceled]; rfl)]
      refine ⟨by simp [hcanceled], fun k why hk => ?_⟩
      exact firstDue_snoc_of_firstDue (ih.canceled k why hk)

theorem firstDue_unique {k' : ℕ} (h : FirstDue n past k) (h' : FirstDue n past k') : k = k' := by
  rcases Nat.lt_trichotomy k k' with hlt | heq | hgt
  · exact absurd h.2.1 (h'.2.2 k hlt)
  · exact heq
  · exact absurd h'.2.1 (h.2.2 k' hgt)

theorem heartbeat_cancels_iff (hn : 0 < n) (outcomes : List Renewal) (k : ℕ) :
    (heartbeat n outcomes).canceled.map Prod.fst = some k ↔ FirstDue n outcomes k := by
  have hcount := countsFailures_heartbeat hn outcomes
  cases hcanceled : (heartbeat n outcomes).canceled with
  | none =>
    simp only [Option.map_none, reduceCtorEq, false_iff]
    intro hfirst
    exact (hcount.failures hcanceled).2.2 k hfirst.1 hfirst.2.1
  | some at' =>
    have hfirst := hcount.canceled at'.1 at'.2 hcanceled
    simp only [Option.map_some, Option.some.injEq]
    constructor
    · rintro rfl
      exact hfirst
    · exact firstDue_unique hfirst

theorem heartbeat_zero (outcomes : List Renewal) : heartbeat 0 outcomes = heartbeat 1 outcomes := by
  -- a limit of zero is reached by the first error, like a limit of one
  have hbeat : ∀ (b : Beating) (err : Option GoError), b.beat 0 err = b.beat 1 err := by
    intro b err
    unfold Beating.beat
    have hzero : (0 : ℤ) ≤ b.consecutiveFailures + 1 := by omega
    have hone : (1 : ℤ) ≤ b.consecutiveFailures + 1 := by omega
    simp only [hzero, hone, if_true]
  simp only [heartbeat, hbeat]

theorem ite_error_eq_ok {α ε : Type*} {c : Prop} [Decidable c] {err : ε} {x : Except ε α} {a : α} :
    (if c then .error err else x) = .ok a ↔ ¬c ∧ x = .ok a := by
  split_ifs with hc <;> simp [hc]

theorem newWorkerPool_ok (h : newWorkerPool durationString (some cfg) = .ok pool) :
    0 < cfg.maxRenewalFailures ∧ pool.maxRenewalFailures = 0 := by
  rw [newWorkerPool] at h
  simp only [ite_error_eq_ok] at h
  obtain ⟨-, -, -, -, -, -, -, hmax, hpool⟩ := h
  cases hpool
  exact ⟨by omega, rfl⟩

/-- What the pool does is to give up at the first error of any kind. -/
theorem cancelsAt_iff (h : newWorkerPool durationString (some cfg) = .ok pool) :
    pool.cancelsAt outcomes = some k ↔ FirstDue 1 outcomes k := by
  rw [WorkerPool.cancelsAt, (newWorkerPool_ok h).2, heartbeat_zero]
  exact heartbeat_cancels_iff (by decide) outcomes k

/-- The first outcome other than a success, if there is one, is the loss of the lease. -/
def LossComesFirst (outcomes : List Renewal) : Prop :=
  ∀ k c after, outcomes ≠ List.replicate k Renewal.extended ++ Renewal.failed c :: after

theorem not_due_replicate (hn : 0 < n) (k : ℕ) : ¬Due n (List.replicate k .extended) := by
  cases k with
  | zero => simp [Due, hn.ne']
  | succ k =>
    rw [List.replicate_succ']
    exact due_extended_snoc hn

theorem take_replicate_append {i : ℕ} {after : List Renewal} (hi : i < k) :
    (List.replicate k Renewal.extended ++ r :: after).take (i + 1) =
      List.replicate (i + 1) .extended := by
  rw [List.take_append_of_le_length (by simp; omega), List.take_replicate, min_eq_left (by omega)]

theorem firstDue_replicate (hn : 0 < n) {after : List Renewal} :
    FirstDue n (List.replicate k .extended ++ r :: after) k ↔
      Due n (List.replicate k .extended ++ [r]) := by
  have htake : (List.replicate k Renewal.extended ++ r :: after).take (k + 1) =
      List.replicate k .extended ++ [r] := by
    rw [List.take_append, List.take_of_length_le (by simp)]
    simp
  constructor
  · rintro ⟨-, hdue, -⟩
    rwa [htake] at hdue
  · intro hdue
    refine ⟨by simp, by rwa [htake], fun i hi => ?_⟩
    rw [take_replicate_append hi]
    exact not_due_replicate hn (i + 1)

theorem not_firstDue_replicate (hn : 0 < n) {m : ℕ} :
    ¬FirstDue n (List.replicate m .extended) k := by
  rintro ⟨hk, hdue, -⟩
  rw [List.take_replicate] at hdue
  exact not_due_replicate hn _ hdue

theorem replicate_or_first (outcomes : List Renewal) :
    (∃ k, outcomes = List.replicate k .extended) ∨
      ∃ k r after, outcomes = List.replicate k .extended ++ r :: after ∧
        (r = .notHeld ∨ ∃ c, r = .failed c) := by
  induction outcomes with
  | nil => exact Or.inl ⟨0, rfl⟩
  | cons r outcomes ih =>
    cases r with
    | extended =>
      rcases ih with ⟨k, rfl⟩ | ⟨k, r, after, rfl, hr⟩
      · exact Or.inl ⟨k + 1, rfl⟩
      · exact Or.inr ⟨k + 1, r, after, rfl, hr⟩
    | notHeld => exact Or.inr ⟨0, _, outcomes, rfl, Or.inl rfl⟩
    | failed c => exact Or.inr ⟨0, _, outcomes, rfl, Or.inr ⟨c, rfl⟩⟩

theorem lossComesFirst_replicate {m : ℕ} : LossComesFirst (List.replicate m .extended) := by
  intro k c after heq
  have hmem : Renewal.failed c ∈ List.replicate m .extended := by simp [heq]
  cases List.eq_of_mem_replicate hmem

theorem lossComesFirst_notHeld {after : List Renewal} :
    LossComesFirst (List.replicate k .extended ++ .notHeld :: after) := by
  intro m c after' heq
  -- both lists have their first other element in one place
  have hdrop := congrArg (List.dropWhile fun r => match r with | .extended => true | _ => false) heq
  simp at hdrop

/-- Limits above one make a difference exactly when the first error is not the loss of the lease. -/
theorem firstDue_one_iff (hn : 0 < n) :
    (∀ k, FirstDue 1 outcomes k ↔ FirstDue n outcomes k) ↔ n = 1 ∨ LossComesFirst outcomes := by
  have hone : 0 < 1 := by decide
  rcases replicate_or_first outcomes with ⟨m, rfl⟩ | ⟨m, r, after, rfl, rfl | ⟨c, rfl⟩⟩
  · refine iff_of_true (fun k => ?_) (Or.inr lossComesFirst_replicate)
    exact iff_of_false (not_firstDue_replicate hone) (not_firstDue_replicate hn)
  · refine iff_of_true (fun k => ?_) (Or.inr lossComesFirst_notHeld)
    have hfirst : ∀ {n : ℕ}, 0 < n →
        FirstDue n (List.replicate m .extended ++ .notHeld :: after) m := fun hn =>
      (firstDue_replicate hn).mpr due_notHeld_snoc
    constructor
    · intro hk
      rw [firstDue_unique hk (hfirst hone)]
      exact hfirst hn
    · intro hk
      rw [firstDue_unique hk (hfirst hn)]
      exact hfirst hone
  · have hcount : ((List.replicate m Renewal.extended).rtakeWhile Renewal.isFailed).length = 0 := by
      by_contra hpos
      exact not_due_replicate (Nat.pos_of_ne_zero hpos) m (Or.inr le_rfl)
    have hdue : ∀ {n : ℕ}, 0 < n →
        (FirstDue n (List.replicate m .extended ++ .failed c :: after) m ↔ n ≤ 1) := by
      intro n hn
      rw [firstDue_replicate hn, due_failed_snoc, hcount]
    constructor
    · intro hall
      have hle := (hdue hn).mp ((hall m).mp ((hdue hone).mpr le_rfl))
      exact Or.inl (by omega)
    · rintro (rfl | hloss)
      · exact fun k => Iff.rfl
      · exact absurd rfl (hloss m c after)

/-- An accepted configuration is followed exactly when its limit is one or the first renewal that
does not succeed finds the lease gone. -/
theorem gives_up_as_configured_iff (h : newWorkerPool durationString (some cfg) = .ok pool)
    (outcomes : List Renewal) :
    GivesUpAsConfigured cfg pool outcomes ↔
      cfg.maxRenewalFailures = 1 ∨ LossComesFirst outcomes := by
  have hpos := (newWorkerPool_ok h).1
  unfold GivesUpAsConfigured
  simp only [cancelsAt_iff h]
  rw [firstDue_one_iff (by omega)]
  refine or_congr_left ?_
  omega

def threeFailures : WorkerConfig where
  workerCounts := 5
  pollInterval := 100000000
  leaseTimeout := 60000000000
  temperature := 0x3f333333
  defaultMaxAttempts := 3
  defaultMaxDelay := 5000000000
  defaultBaseDelay := 1000000000
  maxRenewalFailures := 3

def timeout : ClientError := ⟨.sentinel .contextDeadlineExceeded, rfl, rfl, rfl⟩

/-- One timeout between two renewals that go through cancels the job. -/
theorem one_timeout_cancels_job :
    ∃ pool, newWorkerPool toString (some threeFailures) = .ok pool ∧
      pool.cancelsAt [.extended, .failed timeout, .extended] = some 1 ∧
      ¬GivesUpAsConfigured threeFailures pool [.extended, .failed timeout, .extended] := by
  refine ⟨_, rfl, rfl, fun h => ?_⟩
  have hfirst := (h 1).mp rfl
  rcases hfirst.2.1 with hlast | hcount
  · cases hlast
  · revert hcount
    decide

theorem gives_up_as_configured_lease_gone :
    ∃ pool, newWorkerPool toString (some threeFailures) = .ok pool ∧
      GivesUpAsConfigured threeFailures pool [.extended, .notHeld] := by
  obtain ⟨pool, hpool⟩ : ∃ pool, newWorkerPool toString (some threeFailures) = .ok pool := ⟨_, rfl⟩
  refine ⟨pool, hpool, (gives_up_as_configured_iff hpool _).mpr (Or.inr ?_)⟩
  change LossComesFirst (List.replicate 1 .extended ++ .notHeld :: [])
  exact lossComesFirst_notHeld

end InferenceQueue.Service

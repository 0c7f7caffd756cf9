import InferenceQueue.LeaseTiming

namespace InferenceQueue.LeaseTiming

open Service (WorkerPool WorkerConfig newWorkerPool Renewal Beating)

variable {owner : JobID → UserID} {past : List Scheduler.Event} {job : JobID} {user : UserID}
  {c : Scheduler.Config} {r r' : Scheduler.State} {k : ℕ} {call : Scheduler.Event}

theorem op_of_claimed (he : Scheduler.Step c r call r')
    (hclaimed : call.claimed = some (user, job)) : ∃ w, call.op = .claimNextJob w := by
  cases he.effect with
  | claimed => exact ⟨_, rfl⟩
  | _ => cases hclaimed

/-- A job with a lease waits in no queue, and so nobody claims it. -/
theorem claimed_ne_of_leased (hplaced : Scheduler.Placed owner past r)
    (he : Scheduler.Step c r call r') (hscore : r.processingJobs.zscore job = some k) :
    call.claimed ≠ some (user, job) := by
  intro hclaimed
  cases he.effect with
  | @claimed _ _ user' job' remaining _ hqueue =>
    obtain ⟨rfl, rfl⟩ : user' = user ∧ job' = job := by
      simpa [Scheduler.Event.claimed] using hclaimed
    have hmem : job' ∈ r.queue user' := by simp [hqueue]
    have hhome := hplaced.home user' job' hmem
    rw [hhome] at hmem
    exact hplaced.notMem_queue hscore hmem
  | _ => cases hclaimed

theorem zscore_step (hplaced : Scheduler.Placed owner past r) (he : Scheduler.Step c r call r')
    (hscore : r.processingJobs.zscore job = some k) (hcutoff : ∀ n ∈ call.op.cutoff, n < k)
    (hrelease : call.op ≠ .releaseProcessingJob job) :
    r'.processingJobs.zscore job = some k ∨
      r'.processingJobs.zscore job = some (call.now + c.lease) := by
  -- a lease that is not past the cutoffs and not released stays, or is renewed
  have hclaim : ¬call.claims job := by
    intro hclaims
    obtain ⟨⟨user, job'⟩, hclaimed, hjob⟩ := Option.map_eq_some_iff.mp hclaims
    obtain rfl : job' = job := hjob
    exact claimed_ne_of_leased hplaced he hscore hclaimed
  have hended : call.ended ≠ some job := by
    intro hended
    cases he.effect with
    | @requeued _ _ _ _ k' hk hexpired | @removed _ _ _ k' hk hexpired =>
      have hjob := Option.some.inj hended
      rw [← hjob, hk] at hscore
      have hlt := hcutoff _ rfl
      have heq := Option.some.inj hscore
      omega
    | released => exact hrelease (congrArg _ (Option.some.inj hended))
    | _ => cases hended
  rw [he.effect.zscore_eq, if_neg hclaim, if_neg hended]
  split_ifs
  · exact Or.inr rfl
  · exact Or.inl hscore

theorem zscore_extend (he : Scheduler.Step c r call r')
    (hop : call.op = .extendProcessingLease job)
    (hscore : r.processingJobs.zscore job = some k) :
    r'.processingJobs.zscore job = some (call.now + c.lease) := by
  cases he.effect with
  | extendMissing hnone =>
    cases hop
    rw [hnone] at hscore
    cases hscore
  | extended =>
    cases hop
    simp [SortedSet.zscore_zadd]
  | _ => cases hop

theorem zscore_claim (he : Scheduler.Step c r call r')
    (hclaimed : call.claimed = some (user, job)) :
    r'.processingJobs.zscore job = some (call.now + c.lease) := by
  have hclaims : call.claims job := by rw [Scheduler.Event.claims, hclaimed]; rfl
  rw [he.effect.zscore_eq, if_pos hclaims]

theorem zscore_le_step {clock : ℕ} (he : Scheduler.Step c r call r') (hnow : call.now = clock)
    (hfresh : ∀ job k, r.processingJobs.zscore job = some k → k ≤ clock + c.lease)
    (hk : r'.processingJobs.zscore job = some k) : k ≤ clock + c.lease := by
  rw [he.effect.zscore_eq, hnow] at hk
  split_ifs at hk
  · exact (Option.some.inj hk).symm.le
  · exact (Option.some.inj hk).symm.le
  · exact hfresh job k hk

variable (delays : Delays)

def Stage.limit (interval : ℕ) : Stage → Option ℕ
  | claimed since => some (since + delays.claim + interval + delays.renewal)
  | waiting _ due | renewing _ due _ | replying _ due _ => some (due + delays.renewal)
  | ended => none

def Stage.Sound (clock : ℕ) : Stage → Prop
  | waiting base _ | replying base _ _ => base ≤ clock
  | renewing base due taken => base ≤ taken ∧ due ≤ taken ∧ taken ≤ clock
  | claimed _ | ended => True

/-- The lease lasts until the next renewal, however late it is. -/
structure Covered (interval clock : ℕ) (score : Option ℕ) (stage : Stage) : Prop where
  inTime : stage.InTime delays clock
  sound : stage.Sound clock
  lasts : ∀ m ∈ stage.limit delays interval, ∃ k, score = some k ∧ milliseconds m < k

variable {delays}
variable {clock ns base taken : ℕ} {score score' : Option ℕ} {stage : Stage}

theorem milliseconds_mono {m n : ℕ} (h : m ≤ n) : milliseconds m ≤ milliseconds n :=
  Nat.div_le_div_right h

/-- Two milliseconds are lost by rounding. -/
theorem milliseconds_lt {m n lease : ℕ} (h : n + 2000000 ≤ m + lease) :
    milliseconds n < milliseconds m + milliseconds lease := by
  unfold milliseconds
  omega

theorem le_nextTick {interval : ℕ} (hpos : 0 < interval) (hbase : base ≤ taken) :
    taken ≤ nextTick interval base taken := by
  have hlt := @Nat.lt_div_mul_add (taken - base) interval hpos
  rw [nextTick, Nat.add_mul, Nat.one_mul]
  omega

theorem nextTick_le {interval : ℕ} (hbase : base ≤ taken) :
    nextTick interval base taken ≤ taken + interval := by
  have hle := Nat.div_mul_le_self (taken - base) interval
  rw [nextTick, Nat.add_mul, Nat.one_mul]
  omega

theorem interval_pos (pool : WorkerPool) : 0 < interval pool := by
  unfold interval
  split_ifs <;> omega

namespace Covered

variable {interval : ℕ}

theorem ended : Covered delays interval clock score .ended :=
  ⟨trivial, trivial, fun _ hm => nomatch hm⟩

theorem tick (h : Covered delays interval clock score stage)
    (htime : stage.InTime delays (clock + ns)) :
    Covered delays interval (clock + ns) score stage := by
  refine ⟨htime, ?_, h.lasts⟩
  have hsound := h.sound
  cases stage with
  | claimed | ended => trivial
  | waiting | replying => exact Nat.le_add_right_of_le hsound
  | renewing => exact ⟨hsound.1, hsound.2.1, Nat.le_add_right_of_le hsound.2.2⟩

theorem mono (h : Covered delays interval clock score stage)
    (hscore : ∀ k, score = some k → ∃ k', score' = some k' ∧ k ≤ k') :
    Covered delays interval clock score' stage := by
  -- others can only make the lease longer
  refine ⟨h.inTime, h.sound, fun m hm => ?_⟩
  obtain ⟨k, hk, hlt⟩ := h.lasts m hm
  obtain ⟨k', hk', hle⟩ := hscore k hk
  exact ⟨k', hk', hlt.trans_le hle⟩

theorem held (h : Covered delays interval clock score stage) (hrunning : stage.running = true) :
    ∃ k, score = some k ∧ milliseconds clock < k := by
  have htime := h.inTime
  have hlease : ∀ m ∈ stage.limit delays interval, clock ≤ m →
      ∃ k, score = some k ∧ milliseconds clock < k := by
    intro m hm hle
    obtain ⟨k, hk, hlt⟩ := h.lasts m hm
    exact ⟨k, hk, (milliseconds_mono hle).trans_lt hlt⟩
  cases stage with
  | claimed since =>
    have htime : clock ≤ since + delays.claim := htime
    exact hlease _ rfl (by omega)
  | waiting | renewing | replying => exact hlease _ rfl htime
  | ended => cases hrunning

theorem claim (pool : WorkerPool)
    (hdelays : delays.claim + interval + delays.renewal + 2000000 ≤ lease pool) :
    Covered delays interval clock (some (milliseconds clock + milliseconds (lease pool)))
      (.claimed clock) := by
  refine ⟨Nat.le_add_right _ _, trivial, fun m hm => ⟨_, rfl, ?_⟩⟩
  obtain rfl := Option.some.inj hm
  apply milliseconds_lt
  omega

theorem begins {since : ℕ} (h : Covered delays interval clock score (.claimed since)) :
    Covered delays interval clock score (.waiting clock (clock + interval)) := by
  have htime : clock ≤ since + delays.claim := h.inTime
  refine ⟨?_, le_rfl, fun m hm => ?_⟩
  · show clock ≤ clock + interval + delays.renewal
    omega
  · obtain ⟨k, hk, hlt⟩ := h.lasts _ rfl
    obtain rfl := Option.some.inj hm
    exact ⟨k, hk, (milliseconds_mono (by omega)).trans_lt hlt⟩

theorem take {due : ℕ} (h : Covered delays interval clock score (.waiting base due))
    (hdue : due ≤ clock) : Covered delays interval clock score (.renewing base due clock) :=
  ⟨h.inTime, ⟨h.sound, hdue, le_rfl⟩, h.lasts⟩

theorem renew {due : ℕ} {renewed : Bool} (pool : WorkerPool) (hpos : 0 < interval)
    (hdelays : delays.claim + interval + delays.renewal + 2000000 ≤ lease pool)
    (h : Covered delays interval clock score (.renewing base due taken)) :
    Covered delays interval clock (some (milliseconds clock + milliseconds (lease pool)))
      (.replying base (nextTick interval base taken) renewed) := by
  obtain ⟨hbase, hdue, htaken⟩ := h.sound
  have htime : clock ≤ due + delays.renewal := h.inTime
  have hnext := @nextTick_le base taken interval hbase
  have hlate := le_nextTick hpos hbase
  refine ⟨?_, hbase.trans htaken, fun m hm => ⟨_, rfl, ?_⟩⟩
  · show clock ≤ nextTick interval base taken + delays.renewal
    omega
  · obtain rfl := Option.some.inj hm
    apply milliseconds_lt
    omega

theorem stage_of_extended (h : answers stage .extended = true) :
    ∃ base due, stage = .replying base due true := by
  cases stage with
  | replying base due renewed =>
    cases renewed with
    | true => exact ⟨base, due, rfl⟩
    | false => cases h
  | _ => cases h

/-- A pool that `NewWorkerPool` has built ends the heartbeat at the first error. -/
theorem answer {pool : WorkerPool} {b : Beat} {r : Renewal} (hmax : pool.maxRenewalFailures = 0)
    (h : Covered delays interval clock score b.stage) (hr : answers b.stage r = true) :
    Covered delays interval clock score (b.answer pool r).stage := by
  obtain ⟨job, beating, stage⟩ := b
  cases hcanceled : (beating.beat pool.maxRenewalFailures r.extendLease).canceled with
  | some =>
    have hended : (Beat.answer pool ⟨job, beating, stage⟩ r).stage = .ended := by
      simp [Beat.answer, hcanceled]
    rw [hended]
    exact ended
  | none =>
    have hrunning : beating.canceled = none := by
      by_contra hsome
      rw [Service.beat_canceled (Option.isSome_iff_ne_none.mpr hsome)] at hcanceled
      exact hsome hcanceled
    cases r with
    | extended =>
      obtain ⟨base, due, rfl⟩ := stage_of_extended hr
      have hwaiting : (Beat.answer pool ⟨job, beating, .replying base due true⟩ .extended).stage =
          .waiting base due := by
        simp [Beat.answer, hcanceled]
      rw [hwaiting]
      exact ⟨h.inTime, h.sound, h.lasts⟩
    | notHeld =>
      rw [Service.beat_notHeld hrunning] at hcanceled
      cases hcanceled
    | failed e =>
      rw [Service.beat_failed hrunning, hmax, if_pos (by omega)] at hcanceled
      cases hcanceled

end Covered

section

variable (pool : WorkerPool) (cfg : Scheduler.Config) (delays : Delays) (owner : JobID → UserID)

/-- The system with its assumptions met. -/
structure Leased (past : List Event) (s : State) : Prop where
  placed : Scheduler.Placed owner (past.filterMap Event.redisCall) s.redis
  passes : ∀ n ∈ s.passes, n ≤ milliseconds s.clock
  fresh : ∀ job k, s.redis.processingJobs.zscore job = some k →
    k ≤ milliseconds s.clock + (config pool cfg).lease
  covered : ∀ b ∈ s.beats, Covered delays (interval pool) s.clock
    (s.redis.processingJobs.zscore b.job) b.stage
  single : ∀ (i i' : ℕ) (b b' : Beat), s.beats[i]? = some b → s.beats[i']? = some b' →
    b.stage.running = true → b'.stage.running = true → b.job = b'.job → i = i'

end

variable {pool : WorkerPool} {cfg : Scheduler.Config} {s t : State} {e : Event}
  {redis : Scheduler.State}

namespace Leased

variable {trace : List Event} {b b' : Beat} {i : ℕ}

theorem start : Leased pool cfg delays owner [] initial where
  placed := Scheduler.Placed.empty
  passes _ hn := nomatch hn
  fresh _ _ hk := nomatch hk
  covered _ hb := nomatch hb
  single _ _ _ _ hb := nomatch hb

theorem move (h : Leased pool cfg delays owner trace s) (hb : s.beats[i]? = some b)
    (hjob : b'.job = b.job) (hrunning : b'.stage.running = true → b.stage.running = true)
    (hcovered : Covered delays (interval pool) s.clock (s.redis.processingJobs.zscore b.job)
      b'.stage) :
    Leased pool cfg delays owner trace { s with beats := s.beats.set i b' } where
  placed := h.placed
  passes := h.passes
  fresh := h.fresh
  covered d hd := by
    rcases List.mem_or_eq_of_mem_set hd with hold | rfl
    · exact h.covered d hold
    · rw [hjob]
      exact hcovered
  single j j' d d' hd hd' hr hr' hsame := by
    have hold : ∀ {j : ℕ} {d : Beat}, (s.beats.set i b')[j]? = some d →
        d.stage.running = true →
          ∃ d₀, s.beats[j]? = some d₀ ∧ d₀.stage.running = true ∧ d₀.job = d.job := by
      intro j d hd hr
      rcases getElem?_set_cases hb hd with ⟨rfl, rfl⟩ | hd
      · exact ⟨b, hb, hrunning hr, hjob.symm⟩
      · exact ⟨d, hd.2, hr, rfl⟩
    obtain ⟨d₀, hd₀, hr₀, hjob₀⟩ := hold hd hr
    obtain ⟨d₁, hd₁, hr₁, hjob₁⟩ := hold hd' hr'
    exact h.single j j' d₀ d₁ hd₀ hd₁ hr₀ hr₁ (hjob₀.trans (hsame.trans hjob₁.symm))

theorem moves (hmax : pool.maxRenewalFailures = 0) (h : Leased pool cfg delays owner trace s)
    (hb : s.beats[i]? = some b) (hmoves : Moves pool s.clock b b') :
    Leased pool cfg delays owner trace { s with beats := s.beats.set i b' } := by
  have hcovered := h.covered b (List.mem_of_getElem? hb)
  cases hmoves with
  | begins => exact h.move hb rfl (fun _ => rfl) hcovered.begins
  | take hdue => exact h.move hb rfl (fun _ => rfl) (hcovered.take hdue)
  | @answer _ r hr =>
    refine h.move hb rfl (fun _ => ?_) (hcovered.answer hmax hr)
    cases hstage : b.stage with
    | ended =>
      rw [hstage] at hr
      cases r <;> cases hr
    | _ => rfl
  | stop => exact h.move hb rfl (fun hr => nomatch hr) .ended

theorem silent (h : Leased pool cfg delays owner trace s) (he : e.redisCall = none) :
    Leased pool cfg delays owner (trace ++ [e]) s := by
  refine ⟨?_, h.passes, h.fresh, h.covered, h.single⟩
  rw [filterMap_snoc, he]
  simpa using h.placed

theorem held (h : Leased pool cfg delays owner trace s) (hb : b ∈ s.beats)
    (hrunning : b.stage.running = true) :
    ∃ k, s.redis.processingJobs.zscore b.job = some k ∧ milliseconds s.clock < k :=
  (h.covered b hb).held hrunning

theorem executes (h : Leased pool cfg delays owner trace s) (hcall : e.redisCall = some call)
    (he : Executes pool cfg s call redis)
    (hok : Scheduler.Disciplined owner (trace.filterMap Event.redisCall) s.redis call)
    (hrelease : ∀ b ∈ s.beats, call.op = .releaseProcessingJob b.job → b.stage.running = false) :
    Leased pool cfg delays owner (trace ++ [e]) { s with redis } where
  placed := by
    rw [filterMap_snoc, hcall]
    exact h.placed.step hok he.step
  passes := h.passes
  fresh job k hk := zscore_le_step he.step he.now h.fresh hk
  covered b hb := by
    cases hrunning : b.stage.running with
    | false =>
      have hended : b.stage = .ended := by
        cases hstage : b.stage <;> simp_all [Stage.running]
      rw [hended]
      exact .ended
    | true =>
      obtain ⟨n, hn, hlt⟩ := h.held hb hrunning
      have hcutoff : ∀ c ∈ call.op.cutoff, c < n := by
        intro c hc
        have hle := h.passes c (he.cutoff c hc)
        omega
      have hop : call.op ≠ .releaseProcessingJob b.job := by
        intro hop
        rw [hrelease b hb hop] at hrunning
        cases hrunning
      refine (h.covered b hb).mono fun k hk => ?_
      obtain rfl := Option.some.inj (hn.symm.trans hk)
      rcases zscore_step h.placed he.step hn hcutoff hop with hsame | hrenewed
      · exact ⟨n, hsame, le_rfl⟩
      · refine ⟨_, hrenewed, ?_⟩
        rw [he.now]
        exact h.fresh b.job n hn
  single := h.single

theorem add (h : Leased pool cfg delays owner trace s)
    (hfree : ∀ d ∈ s.beats, d.stage.running = true → d.job ≠ b.job)
    (hcovered : Covered delays (interval pool) s.clock (s.redis.processingJobs.zscore b.job)
      b.stage) :
    Leased pool cfg delays owner trace { s with beats := s.beats ++ [b] } where
  placed := h.placed
  passes := h.passes
  fresh := h.fresh
  covered d hd := by
    rcases List.mem_append.mp hd with hold | hnew
    · exact h.covered d hold
    · rw [List.mem_singleton.mp hnew]
      exact hcovered
  single j j' d d' hd hd' hr hr' hsame := by
    rcases getElem?_concat_cases hd with hold | ⟨rfl, rfl⟩
    · rcases getElem?_concat_cases hd' with hold' | ⟨rfl, rfl⟩
      · exact h.single j j' d d' hold hold' hr hr' hsame
      · exact absurd hsame (hfree d (List.mem_of_getElem? hold) hr)
    · rcases getElem?_concat_cases hd' with hold' | ⟨rfl, rfl⟩
      · exact absurd hsame.symm (hfree d' (List.mem_of_getElem? hold') hr')
      · rfl

theorem step (hmax : pool.maxRenewalFailures = 0)
    (hdelays : delays.claim + interval pool + delays.renewal + 2000000 ≤ lease pool)
    (h : Leased pool cfg delays owner trace s) (hok : Regular delays owner trace s e)
    (he : Step pool cfg s e t) : Leased pool cfg delays owner (trace ++ [e]) t := by
  cases he.effect with
  | @tick ns =>
    have hquiet := h.silent (e := .tick ns) rfl
    refine ⟨hquiet.placed, fun n hn => ?_, fun job k hk => ?_, fun b hb => ?_, h.single⟩
    · exact (h.passes n hn).trans (milliseconds_mono (Nat.le_add_right _ _))
    · have hle := h.fresh job k hk
      have hmono : milliseconds s.clock ≤ milliseconds (s.clock + ns) :=
        milliseconds_mono (Nat.le_add_right _ _)
      show k ≤ milliseconds (s.clock + ns) + _
      omega
    · exact (h.covered b hb).tick (hok.2 b hb)
  | startPass =>
    have hquiet := h.silent (e := .startPass) rfl
    refine ⟨hquiet.placed, fun n hn => ?_, h.fresh, h.covered, h.single⟩
    rcases List.mem_cons.mp hn with rfl | hn
    · exact le_rfl
    · exact h.passes n hn
  | @call call redis hcall =>
    refine h.executes rfl hcall (hok.1 call rfl) fun b hb hop => ?_
    obtain ⟨now, op, reply⟩ := call
    cases hop
    exact hok.2 b hb rfl
  | @claim call user job redis hclaimed hcall =>
    obtain ⟨w, hop⟩ := op_of_claimed hcall.step hclaimed
    have hcalled := h.executes (e := .claim call) rfl hcall (hok.1 call rfl)
      fun b _ hrelease => by rw [hop] at hrelease; cases hrelease
    refine hcalled.add (fun d hd hrunning hjob => ?_) ?_
    · obtain ⟨k, hk, -⟩ := h.held hd hrunning
      rw [hjob] at hk
      exact claimed_ne_of_leased h.placed hcall.step hk hclaimed
    · rw [zscore_claim hcall.step hclaimed, hcall.now]
      exact .claim pool hdelays
  | @renew i call job beating base due taken redis hb hop hcall =>
    have hcalled := h.executes (e := .renew i call) rfl hcall (hok.1 call rfl)
      fun b _ hrelease => by rw [hop] at hrelease; cases hrelease
    have hmem := List.mem_of_getElem? hb
    obtain ⟨k, hk, -⟩ := h.held hmem rfl
    refine hcalled.move hb rfl (fun _ => rfl) ?_
    rw [zscore_extend hcall.step hop hk, hcall.now]
    exact (h.covered _ hmem).renew pool (interval_pos pool) hdelays
  | moves hcall hb hmoves => exact (h.silent hcall).moves hmax hb hmoves

end Leased

/-- As long as a third of the lease timeout, the delay of a claim and that of a renewal leave two
milliseconds of the lease, no job has two running heartbeats, and the lease of a running one is not
over: recovery takes a job only from a worker that has canceled its job or is done with it. -/
theorem one_worker_per_job {durationString : ℤ → String} {workerCfg : WorkerConfig}
    {tr : List Event} (hpool : newWorkerPool durationString (some workerCfg) = .ok pool)
    (hdelays : delays.claim + interval pool + delays.renewal + 2000000 ≤ lease pool)
    (h : Run (Step pool cfg) initial tr s)
    (hok : Throughout (Step pool cfg) initial tr (Regular delays owner)) :
    (∀ (i i' : ℕ) (b b' : Beat), s.beats[i]? = some b → s.beats[i']? = some b' →
      b.stage.running = true → b'.stage.running = true → b.job = b'.job → i = i') ∧
    ∀ b ∈ s.beats, b.stage.running = true →
      ∃ k, s.redis.processingJobs.zscore b.job = some k ∧ milliseconds s.clock < k := by
  have hleased := h.guarded (Leased pool cfg delays owner) Leased.start
    (fun _ _ _ _ hleased hok he => hleased.step (Service.newWorkerPool_ok hpool).2 hdelays hok he)
    hok
  exact ⟨hleased.single, fun b hb hrunning => hleased.held hb hrunning⟩

/-- A slow renewal keeps the job from recovery.  When the next one fails the worker gives the job
up, and another one gets it once the lease is over. -/
def handOver : List Event :=
  [.call ⟨0, .pushLeft ⟨job1, alice, 1⟩, .enqueue (.ok ⟨true⟩)⟩,
   .claim ⟨0, .claimNextJob 1, .claim (.ok (some ⟨alice, job1, 0⟩))⟩,
   .tick 1000000000, .begins 0, .tick 22000000000, .take 0, .tick 10000000000,
   .renew 0 ⟨33000, .extendProcessingLease job1, .done (.ok ())⟩, .answer 0 .extended,
   .tick 28000000000, .startPass,
   .call ⟨61000, .requeueIfExpired job1 alice 61000, .flag false⟩,
   .take 0, .answer 0 (.failed Service.timeout), .tick 40000000000, .startPass,
   .call ⟨101000, .requeueIfExpired job1 alice 101000, .flag true⟩,
   .claim ⟨101000, .claimNextJob 2, .claim (.ok (some ⟨alice, job1, 0⟩))⟩]

def minutePool : WorkerPool where
  workerCount := 5
  pollInterval := 100000000
  leaseTimeout := 60000000000
  temperature := 0x3f333333
  defaultMaxAttempts := 3
  defaultMaxDelay := 5000000000
  defaultBaseDelay := 1000000000
  maxRenewalFailures := 0

/-- Five seconds for a claim, and half a minute for a renewal. -/
def longDelays : Delays := ⟨5000000000, 30000000000⟩

theorem one_worker_per_job_hand_over :
    ∃ s, newWorkerPool toString (some Service.threeFailures) = .ok minutePool ∧
      Run (Step minutePool Scheduler.smallConfig) initial handOver s ∧
      s.beats.map (fun b => (b.job, b.stage)) =
        [(job1, .ended), (job1, .claimed 101000000000)] ∧
      ∀ b ∈ s.beats, b.stage.running = true →
        ∃ k, s.redis.processingJobs.zscore b.job = some k ∧ milliseconds s.clock < k := by
  have hpool : newWorkerPool toString (some Service.threeFailures) = .ok minutePool := rfl
  obtain ⟨s, hrun, hbeats⟩ := Run.exists_of_foldlM (step minutePool Scheduler.smallConfig) initial
    handOver (fun s => s.beats.map (fun b => (b.job, b.stage)) =
      [(job1, .ended), (job1, .claimed 101000000000)]) (by decide +kernel)
  have hdelays : longDelays.claim + interval minutePool + longDelays.renewal + 2000000 ≤
      lease minutePool := by decide +kernel
  have hok : Throughout (Step minutePool Scheduler.smallConfig) initial handOver
      (Regular longDelays fun _ => alice) := throughout_of_always (by decide +kernel)
  exact ⟨s, hpool, hrun, hbeats, (one_worker_per_job hpool hdelays hrun hok).2⟩

end InferenceQueue.LeaseTiming

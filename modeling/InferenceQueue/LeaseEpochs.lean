import InferenceQueue.SchedulerSteps

namespace InferenceQueue.Scheduler

/-- One ownership of a job, from the claim on, with the deadline last written for it. -/
structure Epoch where
  claimedAt : ℕ
  deadline : ℕ

namespace Event

def renewed (e : Event) : Option JobID :=
  match e.op, e.reply with
  | .extendProcessingLease job, .done (.ok _) => some job
  | _, _ => none

def recovered (e : Event) : Option (JobID × ℕ) :=
  match e.op, e.reply with
  | .requeueIfExpired job _ cutoff, .flag true => some (job, cutoff)
  | .removeIfExpired job cutoff, .flag true => some (job, cutoff)
  | _, _ => none

def ended (e : Event) : Option JobID :=
  match e.op, e.reply with
  | .releaseProcessingJob job, .done (.ok _) => some job
  | _, _ => e.recovered.map Prod.fst

def claims (j : JobID) (e : Event) : Prop := e.claimed.map Prod.snd = some j

instance (j : JobID) : DecidablePred (claims j) := fun e =>
  inferInstanceAs (Decidable (e.claimed.map Prod.snd = some j))

end Event

def nextEpoch (cfg : Config) (j : JobID) (o : Option Epoch) (e : Event) : Option Epoch :=
  if e.claims j then some ⟨e.now, e.now + cfg.lease⟩
  else if e.ended = some j then none
  else if e.renewed = some j then o.map fun ep => { ep with deadline := e.now + cfg.lease }
  else o

def epoch (cfg : Config) (j : JobID) (calls : List Event) : Option Epoch :=
  calls.foldl (nextEpoch cfg j) none

/-- Redis under the clock that it shares with the application, and the cutoffs of the recovery
passes started so far. -/
structure TimedState where
  redis : State
  clock : ℕ
  passes : List ℕ

def TimedState.empty : TimedState := ⟨State.empty, 0, []⟩

inductive Action
  | tick (ms : ℕ)
  | startPass
  | call (e : Event)

def Op.cutoff : Op → Option ℕ
  | .requeueIfExpired _ _ cutoff => some cutoff
  | .removeIfExpired _ cutoff => some cutoff
  | _ => none

def timedStep (cfg : Config) (w : TimedState) : Action → Option TimedState
  | .tick ms => some { w with clock := w.clock + ms }
  | .startPass => some { w with passes := w.clock :: w.passes }
  | .call e =>
    if e.now = w.clock ∧ ∀ c ∈ e.op.cutoff, c ∈ w.passes then
      (step cfg w.redis e).map fun r => { w with redis := r }
    else none

def Action.event : Action → Option Event
  | .tick _ => none
  | .startPass => none
  | .call e => some e

def calls (tr : List Action) : List Event := tr.filterMap Action.event

variable {cfg : Config} {s t : State} {e : Event} {j : JobID} {o : Option Epoch}
  {past rest tr : List Action} {w w' : TimedState}

theorem epoch_snoc (cfg : Config) (j : JobID) (events : List Event) (e : Event) :
    epoch cfg j (events ++ [e]) = nextEpoch cfg j (epoch cfg j events) e := by
  rw [epoch, List.foldl_append]
  rfl

theorem nextEpoch_none (h : ¬e.claims j) : nextEpoch cfg j none e = none := by
  unfold nextEpoch
  rw [if_neg h]
  split_ifs <;> rfl

theorem epoch_none_append {events later : List Event} (h : epoch cfg j events = none)
    (hno : ∀ e ∈ later, ¬e.claims j) : epoch cfg j (events ++ later) = none := by
  induction later using List.reverseRecOn with
  | nil => simpa using h
  | append_singleton later e ih =>
    rw [← List.append_assoc, epoch_snoc, ih fun e' he' => hno e' (by simp [he'])]
    exact nextEpoch_none (hno e (by simp))

theorem nextEpoch_ended (h : e.ended = some j) : nextEpoch cfg j o e = none := by
  have hclaim : ¬e.claims j := by
    obtain ⟨now, op, reply⟩ := e
    cases reply with
    | claim r => cases op <;> simp [Event.ended, Event.recovered] at h
    | _ => simp [Event.claims, Event.claimed]
  rw [nextEpoch, if_neg hclaim, if_pos h]

theorem Effect.zscore_eq (h : Effect cfg s e t) (j : JobID) :
    t.processingJobs.zscore j =
      if e.claims j then some (e.now + cfg.lease)
      else if e.ended = some j then none
      else if e.renewed = some j then some (e.now + cfg.lease)
      else s.processingJobs.zscore j := by
  cases h with
  | claimed | extended =>
    simp [Event.claims, Event.claimed, Event.ended, Event.recovered, Event.renewed,
      SortedSet.zscore_zadd, eq_comm]
  | requeued | removed | released =>
    simp [Event.claims, Event.claimed, Event.ended, Event.recovered, Event.renewed,
      SortedSet.zscore_zrem, eq_comm]
  | pushed | orphaned =>
    simp [Event.claims, Event.claimed, Event.ended, Event.recovered, Event.renewed]
  | _ => rfl

theorem Effect.zscore_of_recovered {cutoff : ℕ} (h : Effect cfg s e t)
    (he : e.recovered = some (j, cutoff)) :
    ∃ k, s.processingJobs.zscore j = some k ∧ k ≤ cutoff := by
  cases h with
  | requeued hscore hexpired | removed hscore hexpired =>
    obtain ⟨rfl, rfl⟩ : _ = j ∧ _ = cutoff := by simpa [Event.recovered] using he
    exact ⟨_, hscore, hexpired⟩
  | _ => cases he

theorem Effect.zscore_of_ended (h : Effect cfg s e t) (he : e.ended = some j) :
    ∃ k, s.processingJobs.zscore j = some k := by
  cases h with
  | requeued hscore _ | removed hscore _ | released hscore =>
    obtain rfl : _ = j := by simpa [Event.ended, Event.recovered] using he
    exact ⟨_, hscore⟩
  | _ => cases he

theorem Effect.zscore_of_renewed (h : Effect cfg s e t) (he : e.renewed = some j) :
    ∃ k, s.processingJobs.zscore j = some k := by
  cases h with
  | extended hscore =>
    obtain rfl : _ = j := by simpa [Event.renewed] using he
    exact ⟨_, hscore⟩
  | _ => cases he

theorem Effect.extend_not_found (h : Effect cfg s e t)
    (hnone : s.processingJobs.zscore j = none) (he : e.op = .extendProcessingLease j) :
    e.reply = .done (.error (.sentinel .schedulerJobNotFound)) := by
  cases h with
  | extended hscore =>
    obtain rfl := Op.extendProcessingLease.inj he
    rw [hnone] at hscore
    cases hscore
  | extendMissing _ => rfl
  | _ => cases he

structure Tracks (cfg : Config) (w : TimedState) (j : JobID) (o : Option Epoch) : Prop where
  score : w.redis.processingJobs.zscore j = o.map Epoch.deadline
  lasts : ∀ ep ∈ o, ep.claimedAt + cfg.lease ≤ ep.deadline
  started : ∀ ep ∈ o, ep.claimedAt ≤ w.clock

theorem timedStep_call (h : timedStep cfg w (.call e) = some w') :
    e.now = w.clock ∧ Step cfg w.redis e w'.redis ∧ w'.clock = w.clock := by
  rw [timedStep] at h
  split_ifs at h with hguard
  obtain ⟨r, hr, rfl⟩ := Option.map_eq_some_iff.mp h
  exact ⟨hguard.1, hr, rfl⟩

theorem Tracks.later (h : Tracks cfg w j o) (hredis : w'.redis = w.redis)
    (hclock : w.clock ≤ w'.clock) : Tracks cfg w' j o :=
  ⟨hredis ▸ h.score, h.lasts, fun ep hep => (h.started ep hep).trans hclock⟩

theorem Tracks.step_call (h : Tracks cfg w j o) (he : timedStep cfg w (.call e) = some w') :
    Tracks cfg w' j (nextEpoch cfg j o e) := by
  obtain ⟨hnow, hstep, hclock⟩ := timedStep_call he
  have hscore := hstep.effect.zscore_eq j
  unfold nextEpoch
  split_ifs at hscore ⊢ with hclaim hend hrenew
  · refine ⟨hscore, ?_, ?_⟩
    · rintro ep ⟨⟩
      exact le_rfl
    · rintro ep ⟨⟩
      exact (hnow.trans hclock.symm).le
  · exact ⟨hscore, by simp, by simp⟩
  · obtain ⟨k, hk⟩ := hstep.effect.zscore_of_renewed hrenew
    rw [h.score] at hk
    obtain ⟨ep, rfl, -⟩ := Option.map_eq_some_iff.mp hk
    have hstart := h.started ep rfl
    refine ⟨hscore, ?_, ?_⟩
    · rintro _ ⟨⟩
      change ep.claimedAt + cfg.lease ≤ e.now + cfg.lease
      omega
    · rintro _ ⟨⟩
      change ep.claimedAt ≤ w'.clock
      omega
  · exact ⟨hscore.trans h.score, h.lasts, hclock ▸ h.started⟩

theorem Tracks.run (h : Run (Fires (timedStep cfg)) TimedState.empty tr w) (j : JobID) :
    Tracks cfg w j (epoch cfg j (calls tr)) := by
  refine h.history (fun tr w => Tracks cfg w j (epoch cfg j (calls tr))) ?_ ?_
  · exact ⟨rfl, by simp [epoch, calls], by simp [epoch, calls]⟩
  · intro tr w a w' hw ha
    unfold calls at hw ⊢
    rw [filterMap_snoc]
    cases a with
    | tick ms =>
      obtain rfl := Option.some.inj ha
      rw [Action.event, Option.toList_none, List.append_nil]
      exact hw.later rfl (Nat.le_add_right _ _)
    | startPass =>
      obtain rfl := Option.some.inj ha
      rw [Action.event, Option.toList_none, List.append_nil]
      exact hw.later rfl le_rfl
    | call e =>
      have hnext := hw.step_call ha
      rwa [← epoch_snoc] at hnext

/-- Recovery and release against the epochs of a run. -/
structure LeaseEpochs (cfg : Config) (tr : List Action) : Prop where
  /-- A recovery call succeeds only on an epoch that was claimed before the start of its pass and
  whose deadline had passed by then. -/
  expired : ∀ past e rest job cutoff, tr = past ++ .call e :: rest →
    e.recovered = some (job, cutoff) →
    ∃ ep, epoch cfg job (calls past) = some ep ∧ ep.claimedAt < cutoff ∧ ep.deadline ≤ cutoff
  /-- Two calls that end an epoch of one job have a claim of that job between them. -/
  ended_once : ∀ past e mid e' rest job, tr = past ++ .call e :: (mid ++ .call e' :: rest) →
    e.ended = some job → e'.ended = some job → ∃ c ∈ calls mid, c.claims job
  /-- Until the next claim a heartbeat finds nothing to renew. -/
  not_recreated : ∀ past e mid e' rest job, tr = past ++ .call e :: (mid ++ .call e' :: rest) →
    e.ended = some job → (∀ c ∈ calls mid, ¬c.claims job) →
    e'.op = .extendProcessingLease job →
    e'.reply = .done (.error (.sentinel .schedulerJobNotFound))

theorem exists_before_call (h : Run (Fires (timedStep cfg)) TimedState.empty tr w)
    (heq : tr = past ++ .call e :: rest) (j : JobID) :
    ∃ s t, Effect cfg s e t ∧
      s.processingJobs.zscore j = (epoch cfg j (calls past)).map Epoch.deadline ∧
      ∀ ep ∈ epoch cfg j (calls past), ep.claimedAt + cfg.lease ≤ ep.deadline := by
  -- the state a call of the run found, and the epochs it found there
  obtain ⟨w₁, hpast, hnext⟩ := Run.append_iff.mp (heq ▸ h)
  obtain ⟨w₂, he, -⟩ := Run.cons_iff.mp hnext
  have htracks := Tracks.run hpast j
  exact ⟨w₁.redis, w₂.redis, (timedStep_call he).2.1.effect, htracks.score, htracks.lasts⟩

/-- After a call that ended an epoch the job has no lease until it is claimed again. -/
theorem zscore_none_until_claim {mid : List Action} {e' : Event}
    (h : Run (Fires (timedStep cfg)) TimedState.empty tr w)
    (heq : tr = past ++ .call e :: (mid ++ .call e' :: rest)) (hend : e.ended = some j)
    (hno : ∀ c ∈ calls mid, ¬c.claims j) :
    ∃ s t, Effect cfg s e' t ∧ s.processingJobs.zscore j = none := by
  have hsplit : tr = (past ++ .call e :: mid) ++ .call e' :: rest := by simp [heq]
  obtain ⟨s, t, heff, hscore, -⟩ := exists_before_call h hsplit j
  refine ⟨s, t, heff, hscore.trans ?_⟩
  have hcalls : calls (past ++ .call e :: mid) = calls past ++ [e] ++ calls mid := by
    simp [calls, Action.event]
  rw [hcalls, epoch_none_append _ hno]
  · rfl
  · rw [epoch_snoc, nextEpoch_ended hend]

theorem lease_epochs (hlease : 1 ≤ cfg.lease)
    (h : Run (Fires (timedStep cfg)) TimedState.empty tr w) : LeaseEpochs cfg tr := by
  refine ⟨?_, ?_, ?_⟩
  · intro past e rest job cutoff heq hrec
    obtain ⟨s, t, heff, hscore, hlasts⟩ := exists_before_call h heq job
    obtain ⟨k, hk, hle⟩ := heff.zscore_of_recovered hrec
    rw [hscore] at hk
    obtain ⟨ep, hep, rfl⟩ := Option.map_eq_some_iff.mp hk
    have hlong := hlasts ep hep
    exact ⟨ep, hep, by omega, hle⟩
  · intro past e mid e' rest job heq hend hend'
    by_contra hno
    have hnone : ∀ c ∈ calls mid, ¬c.claims job := fun c hc hclaim => hno ⟨c, hc, hclaim⟩
    obtain ⟨s, t, heff, hscore⟩ := zscore_none_until_claim h heq hend hnone
    obtain ⟨k, hk⟩ := heff.zscore_of_ended hend'
    rw [hscore] at hk
    cases hk
  · intro past e mid e' rest job heq hend hno hext
    obtain ⟨s, t, heff, hscore⟩ := zscore_none_until_claim h heq hend hno
    exact heff.extend_not_found hscore hext

/-- A claim that is renewed once, times out and is requeued by a pass that starts later. -/
def timeout : List Action :=
  [.call ⟨0, .pushLeft ⟨job1, alice, 1⟩, .enqueue (.ok ⟨true⟩)⟩,
    .call ⟨0, .claimNextJob 1, .claim (.ok (some ⟨alice, job1, 0⟩))⟩, .startPass, .tick 10000,
    .call ⟨10000, .extendProcessingLease job1, .done (.ok ())⟩, .tick 30000, .startPass,
    .call ⟨40000, .removeIfExpired job1 0, .flag false⟩,
    .call ⟨40000, .requeueIfExpired job1 alice 40000, .flag true⟩,
    .call ⟨40000, .extendProcessingLease job1,
      .done (.error (.sentinel .schedulerJobNotFound))⟩]

theorem lease_epochs_timeout :
    ∃ w, Run (Fires (timedStep smallConfig)) TimedState.empty timeout w ∧
      w.redis.queue alice = [job1] ∧ LeaseEpochs smallConfig timeout := by
  obtain ⟨w, hrun, hqueue⟩ := Run.exists_of_foldlM (timedStep smallConfig) TimedState.empty
    timeout (fun w => w.redis.queue alice = [job1]) (by decide +kernel)
  exact ⟨w, hrun, hqueue, lease_epochs (by decide) hrun⟩

end InferenceQueue.Scheduler

import InferenceQueue.SchedulerPlacement

namespace InferenceQueue.Scheduler

def Reply.isError (err : Sentinel) : Reply → Bool
  | .enqueue (.error e) => e.is err
  | _ => false

/-- The job was never enqueued: it waits nowhere, has no lease and was never claimed. -/
structure Unseen (past : List Event) (s : State) (j : JobID) : Prop where
  notPushed : ∀ old ∈ past.filterMap Event.pushedEntry, old.jobID ≠ j
  notQueued : ∀ u, j ∉ s.queue u
  notLeased : s.processingJobs.zscore j = none
  notClaimed : ∀ p ∈ past.filterMap Event.claimed, p.2 ≠ j

/-- A push that reports a full queue is for a job that was never enqueued; a push of an entry that
was enqueued before reports the duplicate. -/
def Truthful (past : List Event) (s : State) (e : Event) : Prop :=
  ∀ entry, e.op = .pushLeft entry →
    (e.reply.isError .schedulerQueueFull = true → Unseen past s entry.jobID) ∧
      (entry ∈ past.filterMap Event.pushedEntry → e.reply.isError .schedulerDuplicateJob = true)

/-- A push under a live key finds room. -/
def RepeatsWithRoom (cfg : Config) (s : State) (e : Event) : Prop :=
  ∀ entry, e.op = .pushLeft entry → s.keyLive entry.idempotencyKey e.now = true →
    (s.queue entry.userID).length < cfg.queueCapacity

instance (cfg : Config) (s : State) (e : Event) : Decidable (RepeatsWithRoom cfg s e) :=
  match h : e.op with
  | .pushLeft entry =>
    decidable_of_iff (s.keyLive entry.idempotencyKey e.now = true →
      (s.queue entry.userID).length < cfg.queueCapacity) (by simp [RepeatsWithRoom, h])
  | .claimNextJob _ | .requeueIfExpired .. | .removeIfExpired .. | .enqueueIfAbsent ..
  | .extendProcessingLease _ | .releaseProcessingJob _ | .markJobCompleted _
  | .removeCompletedJob _ => isTrue (by simp [RepeatsWithRoom, h])

variable {cfg : Config} {owner : JobID → UserID} {past tr : List Event} {s t : State} {e : Event}
  {j : JobID}

theorem mem_introduced_of_pushed {old : QueueEntry}
    (h : old ∈ past.filterMap Event.pushedEntry) :
    old.jobID ∈ past.filterMap Event.introduced := by
  obtain ⟨e, he, hold⟩ := List.mem_filterMap.mp h
  exact List.mem_filterMap.mpr ⟨e, he, by simp [Event.introduced, hold]⟩

theorem mem_pushed_or_orphaned (h : j ∈ past.filterMap Event.introduced) :
    (∃ old ∈ past.filterMap Event.pushedEntry, old.jobID = j) ∨
      j ∈ past.filterMap Event.orphaned := by
  obtain ⟨e, he, hintro⟩ := List.mem_filterMap.mp h
  rcases Option.or_eq_some_iff.mp hintro with hpush | ⟨-, horphan⟩
  · obtain ⟨old, hold, rfl⟩ := Option.map_eq_some_iff.mp hpush
    exact Or.inl ⟨old, List.mem_filterMap.mpr ⟨e, he, hold⟩, rfl⟩
  · exact Or.inr (List.mem_filterMap.mpr ⟨e, he, horphan⟩)

theorem Effect.mem_of_claimed (h : Effect cfg s e t) {u : UserID} (hc : e.claimed = some (u, j)) :
    j ∈ s.queue u := by
  cases h with
  | claimed hfirst hqueue =>
    simp only [Event.claimed, Option.some.injEq, Prod.mk.injEq] at hc
    obtain ⟨rfl, rfl⟩ := hc
    simp [hqueue]
  | _ => simp [Event.claimed] at hc

/-- Where jobs are, and that every claimed job was enqueued before. -/
structure Tracked (owner : JobID → UserID) (past : List Event) (s : State) : Prop where
  placed : Placed owner past s
  claimed : ∀ p ∈ past.filterMap Event.claimed, p.2 ∈ past.filterMap Event.introduced

theorem Tracked.empty : Tracked owner [] State.empty := ⟨Placed.empty, by simp⟩

theorem Tracked.step (h : Tracked owner past s) (hok : Disciplined owner past s e)
    (he : Step cfg s e t) : Tracked owner (past ++ [e]) t := by
  refine ⟨h.placed.step hok he, ?_⟩
  rintro ⟨u, j⟩ hp
  rw [filterMap_snoc, List.mem_append, Option.mem_toList] at hp
  rw [filterMap_snoc, List.mem_append]
  left
  obtain hold | hnew := hp
  · exact h.claimed _ hold
  · -- the job waited in its owner's queue, so it was enqueued before
    have hmem : j ∈ s.queue u := he.effect.mem_of_claimed hnew
    have hu : u = owner j := h.placed.home u j hmem
    have hpos : 0 < (s.queue (owner j)).count j := List.count_pos_iff.mpr (hu ▸ hmem)
    apply h.placed.known j
    unfold copies
    omega

theorem Tracked.unseen (h : Tracked owner past s) (hj : j ∉ past.filterMap Event.introduced) :
    Unseen past s j := by
  have hzero : copies owner s j = 0 := by
    have hpos := mt (h.placed.known j) hj
    omega
  unfold copies at hzero
  refine ⟨?_, ?_, ?_, ?_⟩
  · rintro old hold rfl
    exact hj (mem_introduced_of_pushed hold)
  · intro u hmem
    have hu : u = owner j := h.placed.home u j hmem
    have hpos : 0 < (s.queue (owner j)).count j := List.count_pos_iff.mpr (hu ▸ hmem)
    omega
  · cases hscore : s.processingJobs.zscore j with
    | none => rfl
    | some k =>
      rw [hscore, Option.isSome_some, if_pos rfl] at hzero
      omega
  · rintro p hp rfl
    exact hj (h.claimed p hp)

theorem Tracked.truthful (h : Tracked owner past s) (hok : Disciplined owner past s e)
    (hroom : RepeatsWithRoom cfg s e) (he : Step cfg s e t) : Truthful past s e := by
  intro entry hop
  obtain ⟨-, hrepeat⟩ := hok
  rw [hop] at hrepeat
  obtain ⟨hrepeat, horphan⟩ := hrepeat
  have hroom := hroom entry hop
  have heff := he.effect
  constructor
  · intro hfull
    -- a full queue under a live key is excluded, and the key of a repeated push is live
    have hlen : cfg.queueCapacity ≤ (s.queue entry.userID).length := by
      cases heff with
      | pushFull hlen =>
        cases hop
        exact hlen
      | pushDuplicate => simp [Reply.isError, GoError.is] at hfull
      | pushed => simp [Reply.isError] at hfull
      | _ => cases hop
    apply h.unseen
    intro hintro
    rcases mem_pushed_or_orphaned hintro with ⟨old, hold, hid⟩ | horph
    · have hlive := (hrepeat old hold hid).2
      have := hroom hlive
      omega
    · exact horphan horph
  · intro hmem
    have hlive := (hrepeat entry hmem rfl).2
    have hlen := hroom hlive
    cases heff with
    | pushFull hfull =>
      cases hop
      omega
    | pushDuplicate => rfl
    | pushed _ hfree =>
      cases hop
      rw [hfree] at hlive
      cases hlive
    | _ => cases hop

/-- If every push under a live key finds room, "queue full" is said only of jobs that were never
enqueued and every repeated push is reported as a duplicate. -/
theorem queue_full_means_not_queued (owner : JobID → UserID) (tr : List Event) (s : State)
    (hrun : Run (Step cfg) State.empty tr s)
    (hok : Throughout (Step cfg) State.empty tr (Disciplined owner))
    (hroom : Throughout (Step cfg) State.empty tr fun _ => RepeatsWithRoom cfg) :
    Throughout (Step cfg) State.empty tr Truthful := by
  have hboth : Throughout (Step cfg) State.empty tr
      fun past s e => Disciplined owner past s e ∧ RepeatsWithRoom cfg s e := hok.and hroom
  refine Throughout.of_invariant (Tracked owner) Tracked.empty ?_ ?_ hrun hboth
  · intro tr s e t h hok he
    exact h.step hok.1 he
  · intro tr s e t h hok he
    exact h.truthful hok.1 hok.2 he

def filled : List Event × State :=
  perform smallConfig State.empty
    [(0, .pushLeft ⟨job1, alice, 0⟩), (1, .pushLeft ⟨job2, alice, 0⟩)]

/-- The push of the first job is executed again. -/
def pushedAgain : Event :=
  ⟨2, .pushLeft ⟨job1, alice, 0⟩, .enqueue (.error (.wrap "" (.sentinel .schedulerQueueFull)))⟩

/-- The repeated push reports a full queue although its job waits there. -/
theorem queue_full_of_queued_job :
    (∃ s, Run (Step smallConfig) State.empty (filled.1 ++ [pushedAgain]) s ∧
      job1 ∈ s.queue alice) ∧
    Throughout (Step smallConfig) State.empty (filled.1 ++ [pushedAgain])
      (Disciplined fun _ => alice) ∧
    ¬ Throughout (Step smallConfig) State.empty (filled.1 ++ [pushedAgain]) Truthful := by
  refine ⟨?_, throughout_of_always (by decide +kernel), ?_⟩
  · exact Run.exists_of_foldlM (step smallConfig) State.empty (filled.1 ++ [pushedAgain])
      (fun s => job1 ∈ s.queue alice) (by decide +kernel)
  · intro h
    have htruth := h filled.1 pushedAgain [] filled.2 rfl (run_perform _ _ _)
    exact ((htruth ⟨job1, alice, 0⟩ rfl).1 (by decide)).notQueued alice (by decide +kernel)

/-- A push repeated while there is room, and one for which there is none. -/
def pushes : List Event × State :=
  perform smallConfig State.empty
    [(0, .pushLeft ⟨job1, alice, 0⟩), (1, .pushLeft ⟨job1, alice, 0⟩),
      (2, .pushLeft ⟨job2, alice, 0⟩), (3, .pushLeft ⟨job3, alice, 0⟩)]

theorem queue_full_means_not_queued_pushes :
    pushes.1.map (·.reply.isError .schedulerQueueFull) = [false, false, false, true] ∧
      Throughout (Step smallConfig) State.empty pushes.1 Truthful :=
  ⟨by decide +kernel,
    queue_full_means_not_queued (fun _ => alice) pushes.1 pushes.2 (run_perform _ _ _)
      (throughout_of_always (by decide +kernel)) (throughout_of_always (by decide +kernel))⟩

end InferenceQueue.Scheduler

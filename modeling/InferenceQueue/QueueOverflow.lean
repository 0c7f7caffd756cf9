import InferenceQueue.SchedulerPlacement

namespace InferenceQueue.Scheduler

section

variable (owner : JobID → UserID) (u : UserID)

def leases (s : State) : Finset JobID := s.processingJobs.keys.filter fun j => owner j = u

def Op.orphanCapacity : Op → Option ℕ
  | .enqueueIfAbsent _ _ capacity => some capacity
  | _ => none

/-- Jobs are presented with their owner, orphans are enqueued with a capacity of at most `m`, and
`u` has no more than `k` leases. -/
def LeasesWithin (m k : ℕ) (_ : List Event) (s : State) (e : Event) : Prop :=
  (∀ p ∈ e.op.presented, p.2 = owner p.1) ∧ (leases owner u s).card ≤ k ∧
    ∀ capacity ∈ e.op.orphanCapacity, capacity ≤ m

instance (m k : ℕ) (past : List Event) (s : State) (e : Event) :
    Decidable (LeasesWithin owner u m k past s e) :=
  inferInstanceAs (Decidable (_ ∧ _ ∧ _))

structure Overflows (bound k : ℕ) (s : State) : Prop where
  home : ∀ u j, j ∈ s.queue u → owner j = u
  total : (s.queue u).length + (leases owner u s).card ≤ bound + k

end

variable {owner : JobID → UserID} {cfg : Config} {s t : State} {e : Event} {tr past : List Event}
  {u v : UserID} {j : JobID} {bound m k n : ℕ}

theorem keys_zadd (s : SortedSet JobID) : (s.zadd n j).keys = insert j s.keys := by
  ext m
  simp only [SortedSet.mem_keys_iff, SortedSet.zscore_zadd, Finset.mem_insert]
  split_ifs with hm <;> simp [hm]

theorem keys_zrem (s : SortedSet JobID) : (s.zrem j).keys = s.keys.erase j := by
  ext m
  simp only [SortedSet.mem_keys_iff, SortedSet.zscore_zrem, Finset.mem_erase]
  split_ifs with hm <;> simp [hm]

theorem leases_congr (h : t.processingJobs = s.processingJobs) :
    leases owner u t = leases owner u s := by
  rw [leases, h, leases]

theorem leases_zadd (h : t.processingJobs = s.processingJobs.zadd n j) :
    leases owner u t = if owner j = u then insert j (leases owner u s) else leases owner u s := by
  rw [leases, h, keys_zadd, Finset.filter_insert]
  rfl

theorem leases_zrem (h : t.processingJobs = s.processingJobs.zrem j) :
    leases owner u t = (leases owner u s).erase j := by
  rw [leases, h, keys_zrem, Finset.filter_erase]
  rfl

theorem mem_leases (hscore : s.processingJobs.zscore j = some n) (hu : owner j = u) :
    j ∈ leases owner u s :=
  Finset.mem_filter.mpr ⟨SortedSet.mem_keys_iff.mpr ⟨n, hscore⟩, hu⟩

namespace Overflows

theorem home_enlist (h : ∀ u j, j ∈ s.queue u → owner j = u) (hv : owner j = v)
    (hqueue : t.queue = Function.update s.queue v (j :: s.queue v)) :
    ∀ u j, j ∈ t.queue u → owner j = u := by
  intro u i hi
  rw [hqueue, Function.update_apply] at hi
  split_ifs at hi with hu
  · rcases List.mem_cons.mp hi with rfl | hi
    · exact hv.trans hu.symm
    · exact (h v i hi).trans hu.symm
  · exact h u i hi

theorem enter (h : Overflows owner u bound k s) (hv : owner j = v)
    (hqueue : t.queue = Function.update s.queue v (j :: s.queue v))
    (hlease : t.processingJobs = s.processingJobs)
    (hroom : (s.queue v).length < bound) (hk : (leases owner u s).card ≤ k) :
    Overflows owner u bound k t := by
  refine ⟨home_enlist h.home hv hqueue, ?_⟩
  rw [leases_congr hlease, hqueue, Function.update_apply]
  split_ifs with hu
  · rw [List.length_cons]
    omega
  · exact h.total

theorem requeue (h : Overflows owner u bound k s) (hv : owner j = v)
    (hqueue : t.queue = Function.update s.queue v (j :: s.queue v))
    (hscore : s.processingJobs.zscore j = some n)
    (hlease : t.processingJobs = s.processingJobs.zrem j) : Overflows owner u bound k t := by
  refine ⟨home_enlist h.home hv hqueue, ?_⟩
  have htotal := h.total
  rw [leases_zrem hlease, hqueue, Function.update_apply]
  split_ifs with hu
  · -- what the queue gains the leases lose
    have hmem := mem_leases hscore (hv.trans hu.symm)
    have hpos := Finset.card_pos.mpr ⟨j, hmem⟩
    rw [List.length_cons, Finset.card_erase_of_mem hmem, ← hu]
    omega
  · have hle := Finset.card_erase_le (s := leases owner u s) (a := j)
    omega

theorem claim {remaining : List JobID} (h : Overflows owner u bound k s)
    (hpop : s.queue v = remaining ++ [j])
    (hqueue : t.queue = Function.update s.queue v remaining)
    (hlease : t.processingJobs = s.processingJobs.zadd n j) : Overflows owner u bound k t := by
  have hv : owner j = v := h.home v j (by simp [hpop])
  have htotal := h.total
  constructor
  · intro u i hi
    rw [hqueue, Function.update_apply] at hi
    split_ifs at hi with hu
    · exact h.home u i (by simp [hu, hpop, hi])
    · exact h.home u i hi
  · rw [leases_zadd hlease, hqueue, Function.update_apply]
    by_cases hu : u = v
    · have hle := Finset.card_insert_le j (leases owner u s)
      have hlen : (s.queue u).length = remaining.length + 1 := by simp [hu, hpop]
      rw [if_pos hu, if_pos (hv.trans hu.symm)]
      omega
    · rw [if_neg hu, if_neg fun howner => hu (howner.symm.trans hv)]
      exact htotal

theorem shrink (h : Overflows owner u bound k s) (hqueue : t.queue = s.queue)
    (hlease : leases owner u t ⊆ leases owner u s) : Overflows owner u bound k t := by
  have hle := Finset.card_le_card hlease
  have htotal := h.total
  refine ⟨by rw [hqueue]; exact h.home, ?_⟩
  rw [hqueue]
  omega

theorem step (h : Overflows owner u (max cfg.queueCapacity m) k s)
    (hok : LeasesWithin owner u m k past s e) (he : Step cfg s e t) :
    Overflows owner u (max cfg.queueCapacity m) k t := by
  obtain ⟨howner, hk, hcapacity⟩ := hok
  cases he.effect with
  | pushed hroom =>
    exact h.enter (howner _ rfl).symm (State.enlist_queue _ _ _)
      (State.enlist_processingJobs _ _ _) (hroom.trans_le (le_max_left _ _)) hk
  | orphaned _ _ _ hroom =>
    exact h.enter (howner _ rfl).symm (State.enlist_queue _ _ _)
      (State.enlist_processingJobs _ _ _)
      (hroom.trans_le ((hcapacity _ rfl).trans (le_max_right _ _))) hk
  | claimed _ hqueue => exact h.claim hqueue (State.delist_queue _ _ _) rfl
  | requeued hscore => exact h.requeue (howner _ rfl).symm (State.enlist_queue _ _ _) hscore rfl
  | removed | released =>
    refine h.shrink rfl ?_
    rw [leases_zrem rfl]
    exact Finset.erase_subset _ _
  | extended hscore =>
    refine h.shrink rfl ?_
    rw [leases_zadd rfl]
    split_ifs with hu
    · exact Finset.insert_subset (mem_leases hscore hu) subset_rfl
    · exact subset_rfl
  | claimDangling | marked | unmarked => exact h.shrink rfl subset_rfl
  | _ => exact h

end Overflows

/-- In every run a user's queue and leases together stay within the larger of the capacities that
jobs are enqueued with and the most leases the user has had at a time: a queue outgrows its capacity
by no more than that. -/
theorem queue_and_leases_bounded (h : Run (Step cfg) State.empty tr s)
    (hok : Throughout (Step cfg) State.empty tr (LeasesWithin owner u m k)) :
    (s.queue u).length + (leases owner u s).card ≤ max cfg.queueCapacity m + k := by
  have hstart : Overflows owner u (max cfg.queueCapacity m) k State.empty := by
    refine ⟨fun _ _ hj => (nomatch hj), ?_⟩
    simp [State.empty, leases]
  have hstep : ∀ past s e t, Overflows owner u (max cfg.queueCapacity m) k s →
      LeasesWithin owner u m k past s e → Step cfg s e t →
      Overflows owner u (max cfg.queueCapacity m) k t :=
    fun _ _ _ _ hs hok he => hs.step hok he
  exact (h.guarded (fun _ s => Overflows owner u _ k s) hstart hstep hok).total

/-- The queue of one is full again before the claim of the first job times out, and the orphan sweep
has a capacity of three. -/
def overfull : List Event × State :=
  perform { smallConfig with queueCapacity := 1 } State.empty
    [(0, .pushLeft ⟨job1, alice, 1⟩), (1, .claimNextJob 1), (2, .pushLeft ⟨job3, alice, 1⟩),
      (30001, .requeueIfExpired job1 alice 30001), (30002, .enqueueIfAbsent job2 alice 3)]

theorem queue_and_leases_bounded_overfull :
    overfull.2.queue alice = [job2, job1, job3] ∧
      (overfull.2.queue alice).length + (leases (fun _ => alice) alice overfull.2).card ≤
        max 1 3 + 1 :=
  ⟨by decide +kernel, @queue_and_leases_bounded (fun _ => alice)
    { smallConfig with queueCapacity := 1 } overfull.2 overfull.1 alice 3 1 (run_perform _ _ _)
    (throughout_of_always (by decide +kernel))⟩

end InferenceQueue.Scheduler

import InferenceQueue.SchedulerSteps
import Mathlib.Algebra.BigOperators.Group.Finset.Basic

namespace InferenceQueue.Scheduler

open Finset

/-- The job a method is called for, together with the user it is said to belong to. -/
def Op.presented : Op → Option (JobID × UserID)
  | .pushLeft entry => some (entry.jobID, entry.userID)
  | .requeueIfExpired job user _ => some (job, user)
  | .enqueueIfAbsent job user _ => some (job, user)
  | _ => none

namespace Event

def pushedEntry (e : Event) : Option QueueEntry :=
  match e.op, e.reply with
  | .pushLeft entry, .enqueue (.ok _) => some entry
  | _, _ => none

def orphaned (e : Event) : Option JobID :=
  match e.op, e.reply with
  | .enqueueIfAbsent job _ _, .flag true => some job
  | _, _ => none

def introduced (e : Event) : Option JobID :=
  (e.pushedEntry.map QueueEntry.jobID).or e.orphaned

end Event

/-- How callers present jobs: always with the same user, `PushLeft` again only with the attempt
whose key is still live, and not at all once the job was enqueued as an orphan. -/
def Disciplined (owner : JobID → UserID) (past : List Event) (s : State) (e : Event) : Prop :=
  (∀ p ∈ e.op.presented, p.2 = owner p.1) ∧
    match e.op with
    | .pushLeft entry =>
      (∀ old ∈ past.filterMap Event.pushedEntry, old.jobID = entry.jobID →
        old.currentAttempt = entry.currentAttempt ∧ s.keyLive entry.idempotencyKey e.now = true) ∧
        entry.jobID ∉ past.filterMap Event.orphaned
    | _ => True

instance (owner : JobID → UserID) (past : List Event) (s : State) (e : Event) :
    Decidable (Disciplined owner past s e) := by
  obtain ⟨now, op, reply⟩ := e
  induction op using Op.casesOn <;> dsimp only [Disciplined] <;> infer_instance

def copies (owner : JobID → UserID) (s : State) (j : JobID) : ℕ :=
  (s.queue (owner j)).count j + if (s.processingJobs.zscore j).isSome then 1 else 0

structure Placed (owner : JobID → UserID) (past : List Event) (s : State) : Prop where
  home : ∀ u j, j ∈ s.queue u → u = owner j
  once : ∀ j, copies owner s j ≤ 1
  known : ∀ j, 0 < copies owner s j → j ∈ past.filterMap Event.introduced

namespace Placed

variable {cfg : Config} {owner : JobID → UserID} {past : List Event} {s t : State} {e : Event}
  {u : UserID} {j : JobID}

theorem empty : Placed owner [] State.empty where
  home := by simp [State.empty]
  once := by simp [copies, State.empty]
  known := by simp [copies, State.empty]

theorem weaken (h : Placed owner past s) : Placed owner (past ++ [e]) s where
  home := h.home
  once := h.once
  known j hj := by
    rw [filterMap_snoc, List.mem_append]
    exact Or.inl (h.known j hj)

theorem shrink (h : Placed owner past s) (hqueue : t.queue = s.queue)
    (hlease : ∀ j, (t.processingJobs.zscore j).isSome → (s.processingJobs.zscore j).isSome) :
    Placed owner past t := by
  have hle : ∀ j, copies owner t j ≤ copies owner s j := by
    intro j
    unfold copies
    rw [hqueue]
    have hj := hlease j
    split_ifs with ht hs
    · exact le_rfl
    · exact absurd (hj ht) hs
    · omega
    · exact le_rfl
  refine ⟨?_, fun j => (hle j).trans (h.once j), ?_⟩
  · rw [hqueue]
    exact h.home
  · intro j hj
    exact h.known j (hj.trans_le (hle j))

theorem add (h : Placed owner past s) (hu : u = owner j) (hzero : copies owner s j = 0)
    (hqueue : t.queue = Function.update s.queue u (j :: s.queue u))
    (hlease : t.processingJobs = s.processingJobs)
    (hknown : j ∈ past.filterMap Event.introduced) : Placed owner past t := by
  subst hu
  have hcopies : ∀ j', copies owner t j' = copies owner s j' + if j' = j then 1 else 0 := by
    intro j'
    unfold copies
    rw [hqueue, hlease, Function.update_apply]
    by_cases heq : j' = j
    · subst heq
      simp only [if_true, List.count_cons_self]
      omega
    · split_ifs with howner <;> simp [Ne.symm heq, howner]
  refine ⟨?_, ?_, ?_⟩
  · intro v j' hmem
    rw [hqueue, Function.update_apply] at hmem
    split_ifs at hmem with hv
    · rcases List.mem_cons.mp hmem with rfl | hmem
      · exact hv
      · exact hv.trans (h.home _ _ hmem)
    · exact h.home v j' hmem
  · intro j'
    have hone := h.once j'
    rw [hcopies]
    split_ifs with heq
    · rw [heq, hzero]
    · exact hone
  · intro j' hj'
    rw [hcopies] at hj'
    split_ifs at hj' with heq
    · exact heq ▸ hknown
    · exact h.known j' hj'

theorem move {remaining : List JobID} {k : ℕ} (h : Placed owner past s)
    (hpop : s.queue u = remaining ++ [j])
    (hqueue : t.queue = Function.update s.queue u remaining)
    (hlease : t.processingJobs = s.processingJobs.zadd k j) : Placed owner past t := by
  obtain rfl : u = owner j := h.home u j (by simp [hpop])
  have hle : ∀ j', copies owner t j' ≤ copies owner s j' := by
    intro j'
    unfold copies
    rw [hqueue, hlease, Function.update_apply, SortedSet.zscore_zadd]
    by_cases heq : j' = j
    · subst heq
      simp [hpop]
    · split_ifs with howner <;> simp_all
  refine ⟨?_, fun j' => (hle j').trans (h.once j'), fun j' hj' => ?_⟩
  · intro v j' hmem
    rw [hqueue, Function.update_apply] at hmem
    split_ifs at hmem with hv
    · exact h.home v j' (by simp [hv, hpop, hmem])
    · exact h.home v j' hmem
  · exact h.known j' (hj'.trans_le (hle j'))

theorem notMem_queue {k : ℕ} (h : Placed owner past s)
    (hscore : s.processingJobs.zscore j = some k) : j ∉ s.queue (owner j) := by
  have hone := h.once j
  rw [copies, hscore, Option.isSome_some, if_pos rfl] at hone
  apply List.count_eq_zero.mp
  omega

theorem step (h : Placed owner past s) (hok : Disciplined owner past s e)
    (he : Step cfg s e t) : Placed owner (past ++ [e]) t := by
  have hpast : Placed owner (past ++ [e]) s := h.weaken
  cases he.effect with
  | @pushed now entry hroom hfree =>
    obtain ⟨hhome, hrepeat, horphan⟩ := hok
    have hfresh : entry.jobID ∉ past.filterMap Event.introduced := by
      intro hmem
      obtain ⟨e, he, hintro⟩ := List.mem_filterMap.mp hmem
      rcases Option.or_eq_some_iff.mp hintro with hpush | ⟨-, horph⟩
      · obtain ⟨old, hold, hid⟩ := Option.map_eq_some_iff.mp hpush
        have hlive := (hrepeat old (List.mem_filterMap.mpr ⟨e, he, hold⟩) hid).2
        rw [hfree] at hlive
        cases hlive
      · exact horphan (List.mem_filterMap.mpr ⟨e, he, horph⟩)
    have hzero : copies owner s entry.jobID = 0 := by
      have hpos := mt (h.known entry.jobID) hfresh
      omega
    exact hpast.add (hhome _ rfl) hzero (State.enlist_queue _ _ _)
      (State.enlist_processingJobs _ _ _) (by simp [Event.introduced, Event.pushedEntry])
  | @claimed now w u j remaining hfirst hqueue =>
    exact hpast.move hqueue (State.delist_queue _ _ _) rfl
  | @requeued now j u cutoff k hscore hexpired =>
    have hu : u = owner j := hok.1 (j, u) rfl
    have hgone : Placed owner (past ++ _) { s with processingJobs := s.processingJobs.zrem j } :=
      hpast.shrink rfl fun _ => SortedSet.isSome_of_zrem
    have hzero : copies owner { s with processingJobs := s.processingJobs.zrem j } j = 0 := by
      rw [copies, SortedSet.zscore_zrem, if_pos rfl, List.count_eq_zero.mpr (h.notMem_queue hscore)]
      rfl
    have hknown := hpast.known j (by simp [copies, hscore])
    exact hgone.add hu hzero (State.enlist_queue _ _ _) rfl hknown
  | @orphaned now j u capacity hmark hlease hwait hroom =>
    have hu : u = owner j := hok.1 (j, u) rfl
    have hzero : copies owner s j = 0 := by
      rw [copies, hlease, ← hu, List.count_eq_zero.mpr hwait]
      rfl
    exact hpast.add hu hzero (State.enlist_queue _ _ _) (State.enlist_processingJobs _ _ _)
      (by simp [Event.introduced, Event.pushedEntry, Event.orphaned])
  | removed hscore hexpired => exact hpast.shrink rfl fun _ => SortedSet.isSome_of_zrem
  | released hscore => exact hpast.shrink rfl fun _ => SortedSet.isSome_of_zrem
  | extended hscore => exact hpast.shrink rfl fun _ => SortedSet.isSome_of_zadd hscore
  | claimDangling hfirst hempty => exact hpast.shrink rfl fun _ => id
  | marked => exact hpast.shrink rfl fun _ => id
  | unmarked => exact hpast.shrink rfl fun _ => id
  | _ => exact hpast

end Placed

variable {cfg : Config} {tr : List Event} {s : State}

/-- Over all user queues and the leases together a job occurs at most once. -/
theorem job_in_one_place (owner : JobID → UserID) (h : Run (Step cfg) State.empty tr s)
    (hok : Throughout (Step cfg) State.empty tr (Disciplined owner)) (j : JobID)
    (users : Finset UserID) :
    ∑ u ∈ users, (s.queue u).count j +
      (if (s.processingJobs.zscore j).isSome then 1 else 0) ≤ 1 := by
  have hplaced := h.guarded (Placed owner) Placed.empty (fun _ _ _ _ => Placed.step) hok
  have haway : ∀ u, u ≠ owner j → (s.queue u).count j = 0 := by
    intro u hu
    exact List.count_eq_zero.mpr fun hmem => hu (hplaced.home u j hmem)
  have hsum : ∑ u ∈ users, (s.queue u).count j ≤ (s.queue (owner j)).count j := by
    by_cases hmem : owner j ∈ users
    · rw [Finset.sum_eq_single_of_mem (owner j) hmem fun u _ hu => haway u hu]
    · rw [Finset.sum_eq_zero fun u hu => haway u fun heq => hmem (heq ▸ hu)]
      omega
  have hone := hplaced.once j
  unfold copies at hone
  omega

/-- A repeated push, a timed-out claim, and orphan sweeps that find one job waiting and another
missing. -/
def repeats : List Event × State :=
  perform smallConfig State.empty
    [(0, .pushLeft ⟨job1, alice, 1⟩), (1, .pushLeft ⟨job1, alice, 1⟩), (2, .claimNextJob 1),
      (30002, .requeueIfExpired job1 alice 30002), (30003, .enqueueIfAbsent job1 alice 2),
      (30004, .enqueueIfAbsent job2 bob 2)]

theorem job_in_one_place_repeats :
    (repeats.2.queue alice).count job1 = 1 ∧
      ∑ u ∈ {alice, bob}, (repeats.2.queue u).count job1 +
        (if (repeats.2.processingJobs.zscore job1).isSome then 1 else 0) ≤ 1 :=
  ⟨by decide +kernel,
    job_in_one_place (fun j => if j = job2 then bob else alice) (run_perform _ _ _)
      (throughout_of_always (by decide +kernel)) job1 {alice, bob}⟩

end InferenceQueue.Scheduler

import InferenceQueue.RoundRobin
import InferenceQueue.SchedulerSteps

namespace InferenceQueue.Scheduler

namespace Event

def turn (e : Event) : Option (Turn UserID JobID) :=
  match e.pushed with
  | some (u, j) => some (.arrived u j)
  | none => e.claimed.map fun p => .served p.1 p.2

def pushedFor (u : UserID) (e : Event) : Option JobID :=
  e.pushed.bind fun p => if p.1 = u then some p.2 else none

def claimedFor (u : UserID) (e : Event) : Option JobID :=
  e.claimed.bind fun p => if p.1 = u then some p.2 else none

def served (e : Event) : Option UserID := e.claimed.map Prod.fst

def isClaim (e : Event) : Bool :=
  match e.op with
  | .claimNextJob _ => true
  | _ => false

theorem claimed_eq_none {e : Event} {p : UserID × JobID} (h : e.pushed = some p) :
    e.claimed = none := by
  obtain ⟨now, op, reply⟩ := e
  cases reply with
  | claim r => cases op <;> simp [pushed] at h
  | enqueue r => rfl
  | flag b => rfl
  | done r => rfl

theorem turn_arrival (u : UserID) (e : Event) :
    e.turn.bind (Turn.arrival u) = e.pushedFor u := by
  unfold turn pushedFor
  cases hp : e.pushed with
  | some p => rfl
  | none => cases e.claimed <;> rfl

theorem turn_service (u : UserID) (e : Event) :
    e.turn.bind (Turn.service u) = e.claimedFor u := by
  unfold turn claimedFor
  cases hp : e.pushed with
  | some p => simp [Turn.service, claimed_eq_none hp]
  | none => cases e.claimed <;> rfl

theorem turn_server (e : Event) : e.turn.bind Turn.server = e.served := by
  unfold turn served
  cases hp : e.pushed with
  | some p => simp [Turn.server, claimed_eq_none hp]
  | none => cases e.claimed <;> rfl

end Event

/-- Redis holds the round-robin queue `q`: the lists are its work, newest first, and the sorted
set of active users is its ring, in the order of the rotation sequence. -/
structure Refines (s : State) (q : RoundRobin UserID JobID) : Prop where
  jobs : ∀ u, q.jobs u = (s.queue u).reverse
  ring : s.activeUsers.Orders q.ring
  bound : ∀ u k, s.activeUsers.zscore u = some k → k ≤ s.rotationSeq

namespace Refines

variable {cfg : Config} {s t : State} {q : RoundRobin UserID JobID} {e : Event}
  {u : UserID} {j : JobID} {remaining : List JobID} {tr : List Event}

theorem empty : Refines State.empty RoundRobin.empty :=
  ⟨fun _ => rfl, SortedSet.Orders.empty, by simp [State.empty]⟩

theorem mem_ring (h : Refines s q) (u : UserID) : u ∈ q.ring ↔ s.queue u ≠ [] := by
  rw [q.mem_ring, h.jobs]
  simp

theorem enlist (h : Refines s q) (u : UserID) (j : JobID) :
    Refines (s.enlist u j) (q.arrive u j) := by
  have hjobs : ∀ v, (q.arrive u j).jobs v = ((s.enlist u j).queue v).reverse := by
    intro v
    rw [RoundRobin.arrive_jobs, State.enlist_queue, Function.update_apply, Function.update_apply]
    split_ifs <;> simp [h.jobs]
  by_cases hempty : s.queue u = []
  · have hnot : u ∉ q.ring := fun hmem => (h.mem_ring u).mp hmem hempty
    have hnone : s.activeUsers.zscore u = none := by
      cases hk : s.activeUsers.zscore u with
      | none => rfl
      | some k => exact absurd ((h.ring.mem u).mpr ⟨k, hk⟩) hnot
    have hseq : (s.enlist u j).rotationSeq = s.rotationSeq + 1 := by
      simp [State.enlist, hempty, State.activate, State.lpush]
    have hactive : (s.enlist u j).activeUsers = s.activeUsers.zadd (s.rotationSeq + 1) u := by
      simp [State.enlist, hempty, State.activate, State.lpush, SortedSet.zaddNX_of_none hnone]
    refine ⟨hjobs, ?_, ?_⟩
    · rw [RoundRobin.arrive_ring, if_neg hnot, hactive]
      exact h.ring.zadd hnot fun v k hk => Nat.lt_succ_of_le (h.bound v k hk)
    · intro v k hk
      rw [hactive, SortedSet.zscore_zadd] at hk
      rw [hseq]
      split_ifs at hk
      · have : s.rotationSeq + 1 = k := by simpa using hk
        omega
      · have := h.bound v k hk
        omega
  · have hmem : u ∈ q.ring := (h.mem_ring u).mpr hempty
    have heq : s.enlist u j = s.lpush u j := by simp [State.enlist, hempty]
    refine ⟨hjobs, ?_, ?_⟩
    · rw [RoundRobin.arrive_ring, if_pos hmem, heq]
      exact h.ring
    · rw [heq]
      exact h.bound

theorem delist {rest : List UserID} (h : Refines s q) (hring : q.ring = u :: rest)
    (hjobs : q.jobs u = j :: remaining.reverse) :
    Refines (s.delist u remaining) (q.serve hring hjobs) := by
  have hwork : ∀ v, (q.serve hring hjobs).jobs v = ((s.delist u remaining).queue v).reverse := by
    intro v
    rw [RoundRobin.serve_jobs, State.delist_queue, Function.update_apply, Function.update_apply]
    split_ifs
    · rfl
    · exact h.jobs v
  have horder := h.ring
  rw [hring] at horder
  by_cases hnil : remaining = []
  · refine ⟨hwork, ?_, ?_⟩
    · rw [RoundRobin.serve_ring, State.delist, if_pos hnil]
      simpa [hnil] using horder.zrem
    · rw [State.delist, if_pos hnil]
      intro v k hk
      rw [SortedSet.zscore_zrem] at hk
      split_ifs at hk
      exact h.bound v k hk
  · refine ⟨hwork, ?_, ?_⟩
    · rw [RoundRobin.serve_ring, State.delist, if_neg hnil]
      simpa [hnil] using horder.rotate fun v k hk => Nat.lt_succ_of_le (h.bound v k hk)
    · rw [State.delist, if_neg hnil]
      intro v k hk
      rw [SortedSet.zscore_zadd] at hk
      change k ≤ s.rotationSeq + 1
      split_ifs at hk
      · have : s.rotationSeq + 1 = k := by simpa using hk
        omega
      · have := h.bound v k hk
        omega

/-- The user `ZRANGE` picks is the head of the ring, so it has a job to pop. -/
theorem head (h : Refines s q) (hfirst : s.activeUsers.zrangeFirst = some u) :
    ∃ rest, q.ring = u :: rest := by
  cases hr : q.ring with
  | nil =>
    rw [SortedSet.Orders.zrangeFirst_nil (hr ▸ h.ring)] at hfirst
    cases hfirst
  | cons v rest =>
    rw [SortedSet.Orders.zrangeFirst_cons (hr ▸ h.ring)] at hfirst
    obtain rfl : v = u := by simpa using hfirst
    exact ⟨rest, rfl⟩

theorem queue_ne_nil (h : Refines s q) (hfirst : s.activeUsers.zrangeFirst = some u) :
    s.queue u ≠ [] := by
  obtain ⟨rest, hring⟩ := h.head hfirst
  exact (h.mem_ring u).mp (by simp [hring])

/-- One call of the scheduler is at most one turn of the round-robin queue. -/
theorem step (h : Refines s q) (he : Step cfg s e t) :
    ∃ q', Refines t q' ∧ Run RoundRobin.Step q e.turn.toList q' := by
  cases he.effect with
  | pushed hroom hfree =>
    obtain ⟨hj, hr, hb⟩ := h.enlist _ _
    exact ⟨_, ⟨hj, hr, hb⟩, .single (.arrive q _ _)⟩
  | requeued hscore hexpired =>
    obtain ⟨hj, hr, hb⟩ := h.enlist _ _
    exact ⟨_, ⟨hj, hr, hb⟩, .single (.arrive q _ _)⟩
  | orphaned hmark hlease hwait hroom =>
    obtain ⟨hj, hr, hb⟩ := h.enlist _ _
    exact ⟨_, ⟨hj, hr, hb⟩, .single (.arrive q _ _)⟩
  | @claimed now w u j remaining hfirst hqueue =>
    obtain ⟨rest, hring⟩ := h.head hfirst
    have hjobs : q.jobs u = j :: remaining.reverse := by simp [h.jobs, hqueue]
    obtain ⟨hj, hr, hb⟩ := h.delist hring hjobs
    exact ⟨_, ⟨hj, hr, hb⟩, .single (.serve q hring hjobs)⟩
  | claimDangling hfirst hempty => exact absurd hempty (h.queue_ne_nil hfirst)
  | _ => exact ⟨q, ⟨h.jobs, h.ring, h.bound⟩, .nil⟩

theorem run (h : Refines s q) (hrun : Run (Step cfg) s tr t) :
    ∃ q', Refines t q' ∧ Run RoundRobin.Step q (tr.filterMap Event.turn) q' :=
  hrun.simulate Refines Event.turn (fun _ _ _ _ he hr => hr.step he) h

end Refines

/-- The active users, the user queues and the rotation sequence agree, so that a claim comes back
empty-handed only when nothing waits. -/
structure Consistent (cfg : Config) (s : State) : Prop where
  active_iff : ∀ u, (∃ k, s.activeUsers.zscore u = some k) ↔ s.queue u ≠ []
  distinct : ∀ u v k, s.activeUsers.zscore u = some k → s.activeUsers.zscore v = some k → u = v
  bounded : ∀ u k, s.activeUsers.zscore u = some k → k ≤ s.rotationSeq
  idle_iff : ∀ now, (claimNextJob cfg now s).2 = .ok none ↔ ∀ u, s.queue u = []
  no_error : ∀ now err, (claimNextJob cfg now s).2 ≠ .error err
  never_dangling : ∀ u, s.activeUsers.zrangeFirst = some u → s.queue u ≠ []

variable {cfg : Config} {s t : State} {q : RoundRobin UserID JobID} {tr tr' : List Event}
  {u v : UserID}

theorem Refines.idle_iff (h : Refines s q) (now : ℕ) :
    (claimNextJob cfg now s).2 = .ok none ↔ ∀ u, s.queue u = [] := by
  have heff := @claimNextJob_effect cfg s now 0
  generalize claimNextJob cfg now s = r at heff
  obtain ⟨s', reply⟩ := r
  cases heff with
  | claimIdle hidle =>
    rw [SortedSet.zrangeFirst_eq_none] at hidle
    have hnone : ∀ u, s'.queue u = [] := by
      intro u
      by_contra hne
      obtain ⟨k, hk⟩ := (h.ring.mem u).mp ((h.mem_ring u).mpr hne)
      simp [hidle] at hk
    simp [hnone]
  | claimDangling hfirst hempty => exact absurd hempty (h.queue_ne_nil hfirst)
  | @claimed _ _ u _ _ hfirst hqueue =>
    have hne : ¬∀ u, s.queue u = [] := fun hall => h.queue_ne_nil hfirst (hall u)
    simp [hne]

theorem claimNextJob_ne_error (now : ℕ) (err : GoError) :
    (claimNextJob cfg now s).2 ≠ .error err := by
  have heff := @claimNextJob_effect cfg s now 0
  generalize claimNextJob cfg now s = r at heff
  obtain ⟨s', reply⟩ := r
  cases heff <;> simp

theorem run_consistent (h : Run (Step cfg) State.empty tr s) : Consistent cfg s := by
  obtain ⟨q, hq, -⟩ := Refines.empty.run h
  refine ⟨?_, ?_, hq.bound, hq.idle_iff, claimNextJob_ne_error, fun u => hq.queue_ne_nil⟩
  · intro u
    rw [← hq.ring.mem, hq.mem_ring]
  · intro u v k hu hv
    exact hq.ring.injective hu hv

/-- Alice's first job is claimed, times out and comes back behind the second. -/
def rotation : List (ℕ × Op) :=
  [(0, .pushLeft ⟨job1, alice, 1⟩), (1, .pushLeft ⟨job2, bob, 1⟩), (2, .claimNextJob 1),
    (3, .pushLeft ⟨job3, alice, 1⟩), (30002, .requeueIfExpired job1 alice 30002)]

def rotated : List Event × State := perform smallConfig State.empty rotation

theorem run_consistent_rotation :
    rotated.2.queue alice = [job1, job3] ∧ rotated.2.queue bob = [job2] ∧
      Consistent smallConfig rotated.2 :=
  ⟨by decide +kernel, by decide +kernel, run_consistent (run_perform _ _ _)⟩

theorem Refines.served_ahead (hq : Refines s q) (h : Run (Step cfg) s tr t)
    (hv : s.queue v ≠ []) (hwait : v ∉ tr.filterMap Event.served) :
    t.queue v ≠ [] ∧
      ∃ ahead behind, q.ring = tr.filterMap Event.served ++ ahead ++ v :: behind := by
  obtain ⟨q', hq', hrun⟩ := hq.run h
  obtain ⟨ahead, behind, hring⟩ := List.append_of_mem ((hq.mem_ring v).mpr hv)
  have hserved : (tr.filterMap Event.turn).filterMap Turn.server = tr.filterMap Event.served := by
    simp only [List.filterMap_filterMap, Event.turn_server]
  obtain ⟨ahead', behind', hring', rfl⟩ := RoundRobin.fair hrun hring (by rwa [hserved])
  refine ⟨(hq'.mem_ring v).mp (by simp [hring']), ahead', behind, ?_⟩
  rw [hring, hserved]

theorem Refines.claim_serves {e : Event} (hq : Refines s q) (he : Step cfg s e t)
    (hv : s.queue v ≠ []) : e.served.toList.length = if e.isClaim then 1 else 0 := by
  cases he.effect with
  | claimIdle hidle =>
    rw [SortedSet.zrangeFirst_eq_none] at hidle
    obtain ⟨k, hk⟩ := (hq.ring.mem v).mp ((hq.mem_ring v).mpr hv)
    simp [hidle] at hk
  | claimDangling hfirst hempty => exact absurd hempty (hq.queue_ne_nil hfirst)
  | _ => rfl

theorem Refines.claims_serve (hq : Refines s q) (h : Run (Step cfg) s tr t)
    (hv : s.queue v ≠ []) (hwait : v ∉ tr.filterMap Event.served) :
    tr.countP Event.isClaim = (tr.filterMap Event.served).length := by
  induction h with
  | nil => rfl
  | @snoc tr t e t' h he ih =>
    rw [filterMap_snoc, List.mem_append, not_or] at hwait
    obtain ⟨q', hq', -⟩ := hq.run h
    have hone := hq'.claim_serves he (hq.served_ahead h hv hwait.1).1
    rw [filterMap_snoc, List.length_append, hone, List.countP_append, ih hwait.1,
      List.countP_singleton]

/-- A user with waiting work that no claim serves sees every other user served at most once, and
only users that were active when the wait began. -/
theorem round_robin_fair (hs : Run (Step cfg) State.empty tr s) (h : Run (Step cfg) s tr' t)
    (hv : s.queue v ≠ []) (hwait : v ∉ tr'.filterMap Event.served) :
    (tr'.filterMap Event.served).Nodup ∧
      (∀ u ∈ tr'.filterMap Event.served, u ∈ s.activeUsers.keys.erase v) ∧
      tr'.countP Event.isClaim ≤ (s.activeUsers.keys.erase v).card := by
  obtain ⟨q, hq, -⟩ := Refines.empty.run hs
  obtain ⟨-, ahead, behind, hring⟩ := hq.served_ahead h hv hwait
  have hnodup : (tr'.filterMap Event.served).Nodup := by
    have hn := q.nodup
    rw [hring, List.append_assoc] at hn
    exact (List.nodup_append.mp hn).1
  have hactive : ∀ u ∈ tr'.filterMap Event.served, u ∈ s.activeUsers.keys.erase v := by
    intro u hu
    have hne : u ≠ v := fun heq => hwait (heq ▸ hu)
    rw [Finset.mem_erase, SortedSet.mem_keys_iff, ← hq.ring.mem, hring]
    exact ⟨hne, by simp [hu]⟩
  refine ⟨hnodup, hactive, ?_⟩
  calc tr'.countP Event.isClaim = (tr'.filterMap Event.served).length := hq.claims_serve h hv hwait
    _ = (tr'.filterMap Event.served).toFinset.card := (List.toFinset_card_of_nodup hnodup).symm
    _ ≤ (s.activeUsers.keys.erase v).card := by
      apply Finset.card_le_card
      intro u hu
      exact hactive u (List.mem_toFinset.mp hu)

theorem round_robin_fair_rotation :
    (perform smallConfig rotated.2 [(30003, .claimNextJob 2)]).1.countP Event.isClaim ≤
      (rotated.2.activeUsers.keys.erase alice).card :=
  (round_robin_fair (run_perform _ _ rotation) (run_perform _ _ _) (by decide +kernel)
    (by decide +kernel)).2.2

/-- What was pushed for a user has been claimed in the same order or still waits. -/
theorem per_user_fifo (h : Run (Step cfg) State.empty tr s) (u : UserID) :
    tr.filterMap (Event.pushedFor u) =
      tr.filterMap (Event.claimedFor u) ++ (s.queue u).reverse := by
  obtain ⟨q, hq, hrun⟩ := Refines.empty.run h
  have hfifo := RoundRobin.fifo hrun u
  simpa only [List.filterMap_filterMap, Event.turn_arrival, Event.turn_service, hq.jobs,
    RoundRobin.empty, List.nil_append] using hfifo

theorem per_user_fifo_rotation :
    rotated.1.filterMap (Event.pushedFor alice) = [job1, job3, job1] ∧
      rotated.1.filterMap (Event.pushedFor alice) =
        rotated.1.filterMap (Event.claimedFor alice) ++ (rotated.2.queue alice).reverse :=
  ⟨by decide +kernel, per_user_fifo (run_perform _ _ _) alice⟩

end InferenceQueue.Scheduler

import InferenceQueue.SchedulerPlacement

namespace InferenceQueue.Scheduler

def Event.pushes (j : JobID) (e : Event) : Prop := e.pushed.map Prod.snd = some j

instance (j : JobID) : DecidablePred (Event.pushes j) := fun e =>
  inferInstanceAs (Decidable (e.pushed.map Prod.snd = some j))

def lastPush (j : JobID) (past : List Event) : Option ℕ :=
  past.foldl (fun last e => if e.pushes j then some e.now else last) none

def Waits (s : State) (j : JobID) : Prop := ∃ u, j ∈ s.queue u

/-- The jobs with a field are those that wait, and each field is the time of the latest push. -/
structure Stamped (past : List Event) (s : State) : Prop where
  fields : ∀ j, (s.queueEnqueuedAt j).isSome ↔ Waits s j
  latest : ∀ j at', s.queueEnqueuedAt j = some at' → lastPush j past = some at'

/-- A claim reports the time since the latest push of its job; `math.max` keeps it from falling
below 0, as the subtraction does here. -/
def ReportsWait (past : List Event) (e : Event) : Prop :=
  ∀ r, e.reply = .claim (.ok (some r)) →
    ∃ at', lastPush r.jobID past = some at' ∧ r.queueWait = e.now - at'

def TakesBack (s : State) (e : Event) : Prop :=
  match e.op with
  | .requeueIfExpired job _ cutoff => ∃ k ∈ s.processingJobs.zscore job, k ≤ cutoff
  | _ => False

instance (s : State) : (e : Event) → Decidable (TakesBack s e)
  | ⟨_, .requeueIfExpired job _ cutoff, _⟩ =>
    inferInstanceAs (Decidable (∃ k ∈ s.processingJobs.zscore job, k ≤ cutoff))
  | ⟨_, .pushLeft _, _⟩ | ⟨_, .claimNextJob _, _⟩ | ⟨_, .removeIfExpired _ _, _⟩
  | ⟨_, .enqueueIfAbsent _ _ _, _⟩ | ⟨_, .extendProcessingLease _, _⟩
  | ⟨_, .releaseProcessingJob _, _⟩ | ⟨_, .markJobCompleted _, _⟩
  | ⟨_, .removeCompletedJob _, _⟩ => instDecidableFalse

variable {cfg : Config} {owner : JobID → UserID} {past tr : List Event} {s t : State} {e : Event}
  {u : UserID} {j : JobID}

theorem lastPush_snoc :
    lastPush j (past ++ [e]) = if e.pushes j then some e.now else lastPush j past := by
  simp [lastPush]

theorem waits_of_push (hqueue : t.queue = Function.update s.queue u (j :: s.queue u))
    (j' : JobID) : Waits t j' ↔ j' = j ∨ Waits s j' := by
  unfold Waits
  rw [hqueue]
  constructor
  · rintro ⟨v, hmem⟩
    rw [Function.update_apply] at hmem
    split_ifs at hmem with hv
    · rcases List.mem_cons.mp hmem with rfl | hmem
      · exact Or.inl rfl
      · exact Or.inr ⟨u, hmem⟩
    · exact Or.inr ⟨v, hmem⟩
  · rintro (rfl | ⟨v, hmem⟩)
    · exact ⟨u, by simp⟩
    · refine ⟨v, ?_⟩
      rw [Function.update_apply]
      split_ifs with hv
      · exact List.mem_cons_of_mem _ (hv ▸ hmem)
      · exact hmem

theorem not_waits_of_lease {k : ℕ} (hplaced : Placed owner past s)
    (hscore : s.processingJobs.zscore j = some k) : ¬Waits s j := by
  rintro ⟨u, hmem⟩
  obtain rfl := hplaced.home u j hmem
  exact hplaced.notMem_queue hscore hmem

/-- A job that is popped was on no other queue, and only once on its own. -/
theorem waits_of_pop {remaining : List JobID} (hplaced : Placed owner past s)
    (hpop : s.queue u = remaining ++ [j])
    (hqueue : t.queue = Function.update s.queue u remaining) (j' : JobID) :
    Waits t j' ↔ Waits s j' ∧ j' ≠ j := by
  obtain rfl := hplaced.home u j (by simp [hpop])
  have hgone : j ∉ remaining := by
    have hone := hplaced.once j
    rw [copies, hpop, List.count_append, List.count_singleton_self] at hone
    apply List.count_eq_zero.mp
    omega
  unfold Waits
  rw [hqueue]
  constructor
  · rintro ⟨v, hmem⟩
    rw [Function.update_apply] at hmem
    split_ifs at hmem with hv
    · exact ⟨⟨owner j, by simp [hpop, hmem]⟩, fun heq => hgone (heq ▸ hmem)⟩
    · refine ⟨⟨v, hmem⟩, ?_⟩
      rintro rfl
      exact hv (hplaced.home v j' hmem)
  · rintro ⟨⟨v, hmem⟩, hne⟩
    refine ⟨v, ?_⟩
    rw [Function.update_apply]
    split_ifs with hv
    · rw [hv, hpop, List.mem_append, List.mem_singleton] at hmem
      exact hmem.resolve_right hne
    · exact hmem

namespace Stamped

theorem empty : Stamped [] State.empty where
  fields j := by simp [State.empty, Waits]
  latest j at' h := by simp [State.empty] at h

theorem keep (h : Stamped past s) (hqueue : t.queue = s.queue)
    (hstamps : t.queueEnqueuedAt = s.queueEnqueuedAt) (hnot : ∀ j, ¬e.pushes j) :
    Stamped (past ++ [e]) t where
  fields j := by
    rw [hstamps, h.fields, Waits, Waits, hqueue]
  latest j at' hat := by
    rw [lastPush_snoc, if_neg (hnot j)]
    exact h.latest j at' (hstamps ▸ hat)

theorem push (h : Stamped past s) (hpushed : e.pushed = some (u, j))
    (hqueue : t.queue = Function.update s.queue u (j :: s.queue u))
    (hstamps : t.queueEnqueuedAt = Function.update s.queueEnqueuedAt j (some e.now)) :
    Stamped (past ++ [e]) t := by
  have hpushes : ∀ j', e.pushes j' ↔ j = j' := by simp [Event.pushes, hpushed]
  refine ⟨fun j' => ?_, fun j' at' hat => ?_⟩
  · rw [hstamps, waits_of_push hqueue, Function.update_apply]
    split_ifs with heq
    · simp [heq]
    · simp [heq, h.fields]
  · rw [hstamps, Function.update_apply] at hat
    rw [lastPush_snoc]
    split_ifs at hat with heq
    · rw [if_pos ((hpushes j').mpr heq.symm), hat]
    · rw [if_neg fun hp => heq ((hpushes j').mp hp).symm]
      exact h.latest j' at' hat

theorem drop (h : Stamped past s) (hwaits : ∀ j', Waits t j' ↔ Waits s j' ∧ j' ≠ j)
    (hstamps : t.queueEnqueuedAt = Function.update s.queueEnqueuedAt j none)
    (hnot : ∀ j, ¬e.pushes j) : Stamped (past ++ [e]) t := by
  refine ⟨fun j' => ?_, fun j' at' hat => ?_⟩
  · rw [hstamps, hwaits, Function.update_apply]
    split_ifs with heq
    · simp [heq]
    · simp [heq, h.fields]
  · rw [hstamps, Function.update_apply] at hat
    split_ifs at hat
    rw [lastPush_snoc, if_neg (hnot j')]
    exact h.latest j' at' hat

theorem step (h : Stamped past s) (hplaced : Placed owner past s) (hback : ¬TakesBack s e)
    (he : Step cfg s e t) : Stamped (past ++ [e]) t := by
  cases he.effect with
  | pushed hroom hfree => exact h.push rfl (State.enlist_queue _ _ _) rfl
  | orphaned hmark hlease hwait hroom => exact h.push rfl (State.enlist_queue _ _ _) rfl
  | requeued hscore hexpired => exact absurd ⟨_, hscore, hexpired⟩ hback
  | claimed hfirst hqueue =>
    exact h.drop (waits_of_pop hplaced hqueue (State.delist_queue _ _ _)) rfl
      (by simp [Event.pushes, Event.pushed])
  | @removed now job cutoff k hscore hexpired =>
    -- the script deletes the field as well, but a job with a lease has none
    refine h.drop (j := job) (fun j' => ?_) rfl (by simp [Event.pushes, Event.pushed])
    have hnot := not_waits_of_lease hplaced hscore
    exact ⟨fun hw => ⟨hw, fun heq => hnot (heq ▸ hw)⟩, And.left⟩
  | _ => exact h.keep rfl rfl (by simp [Event.pushes, Event.pushed])

theorem reports (h : Stamped past s) (he : Step cfg s e t) : ReportsWait past e := by
  intro r hr
  cases he.effect with
  | @claimed now w user job remaining hfirst hqueue =>
    cases hr
    have hfield := (h.fields job).mpr ⟨user, by simp [hqueue]⟩
    obtain ⟨at', hat⟩ := Option.isSome_iff_exists.mp hfield
    refine ⟨at', h.latest job at' hat, ?_⟩
    rw [hat, Option.getD_some]
  | _ => cases hr

end Stamped

theorem not_stamped_of_takesBack (h : Stamped past s) (hplaced : Placed owner past s)
    (hback : TakesBack s e) (he : Step cfg s e t) : ¬Stamped (past ++ [e]) t := by
  -- a job that is taken back waits without a field
  intro hafter
  obtain ⟨now, op, reply⟩ := e
  cases op with
  | requeueIfExpired job user cutoff =>
    obtain ⟨k, hscore, hexpired⟩ := hback
    cases he.effect with
    | requeueRefused hheld => exact absurd (hheld k hscore) (Nat.not_lt.mpr hexpired)
    | requeued =>
      -- the script pushes the job and writes no field, and the claim has deleted the old one
      have hwaits := (waits_of_push (State.enlist_queue s user job) job).mpr (Or.inl rfl)
      have hfield := (hafter.fields job).mpr hwaits
      have hsame : (s.enlist user job).queueEnqueuedAt = s.queueEnqueuedAt := by
        unfold State.enlist
        split_ifs <;> rfl
      rw [hsame] at hfield
      exact not_waits_of_lease hplaced hscore ((h.fields job).mp hfield)
  | _ => exact hback

/-- The hash is right after every call, and every claim reports the wait of its job, exactly as
long as no expired job is put back on its queue. -/
theorem queue_wait_kept_iff (owner : JobID → UserID) (h : Run (Step cfg) State.empty tr s)
    (hok : Throughout (Step cfg) State.empty tr (Disciplined owner)) :
    ((∀ past rest t, tr = past ++ rest → Run (Step cfg) State.empty past t → Stamped past t) ∧
        Throughout (Step cfg) State.empty tr fun past _ => ReportsWait past) ↔
      Throughout (Step cfg) State.empty tr fun _ t e => ¬TakesBack t e := by
  have hplaced : ∀ past rest t, tr = past ++ rest → Run (Step cfg) State.empty past t →
      Placed owner past t := by
    rintro past rest t rfl hrun
    exact hrun.guarded (Placed owner) Placed.empty (fun _ _ _ _ => Placed.step) hok.take
  constructor
  · rintro ⟨hstamped, -⟩ past e rest t rfl hrun hback
    obtain ⟨t', he, -⟩ := Run.cons_iff.mp (h.rest hrun)
    exact not_stamped_of_takesBack (hstamped past _ t rfl hrun) (hplaced past _ t rfl hrun) hback
      he (hstamped (past ++ [e]) rest t' (by simp) (hrun.snoc he))
  · intro hnot
    have hstamped : ∀ past rest t, tr = past ++ rest → Run (Step cfg) State.empty past t →
        Stamped past t ∧ Placed owner past t := by
      rintro past rest t rfl hrun
      have hboth : Throughout (Step cfg) State.empty past fun past t e =>
          ¬TakesBack t e ∧ Disciplined owner past t e := hnot.take.and hok.take
      refine hrun.guarded (fun past t => Stamped past t ∧ Placed owner past t)
        ⟨Stamped.empty, Placed.empty⟩ ?_ hboth
      rintro past v e w ⟨hs, hp⟩ ⟨hb, hd⟩ he
      exact ⟨hs.step hp hb he, hp.step hd he⟩
    refine ⟨fun past rest t heq hrun => (hstamped past rest t heq hrun).1, ?_⟩
    rintro past e rest t rfl hrun
    obtain ⟨t', he, -⟩ := Run.cons_iff.mp (h.rest hrun)
    exact (hstamped past _ t rfl hrun).1.reports he

/-- A claim that times out, so that recovery puts the job back. -/
def takenBack : List Event × State :=
  perform smallConfig State.empty
    [(0, .pushLeft ⟨job1, alice, 0⟩), (1, .claimNextJob 1),
      (30001, .requeueIfExpired job1 alice 30001)]

/-- The job waits without a field, and the claim ten seconds later reports that it has not waited
at all. -/
theorem queue_wait_lost :
    Run (Step smallConfig) State.empty takenBack.1 takenBack.2 ∧
      Throughout (Step smallConfig) State.empty takenBack.1 (Disciplined fun _ => alice) ∧
      takenBack.2.queue alice = [job1] ∧ takenBack.2.queueEnqueuedAt job1 = none ∧
      lastPush job1 takenBack.1 = some 30001 ∧
      (call smallConfig 40001 takenBack.2 (.claimNextJob 2)).2 =
        .claim (.ok (some ⟨alice, job1, 0⟩)) :=
  ⟨run_perform _ _ _, throughout_of_always (by decide +kernel), by decide +kernel,
    by decide +kernel, by decide +kernel, by decide +kernel⟩

/-- An orphan and a job of the same user, both claimed, one of them given up. -/
def waited : List Event × State :=
  perform smallConfig State.empty
    [(0, .pushLeft ⟨job1, alice, 0⟩), (5, .enqueueIfAbsent job2 alice 2), (7, .claimNextJob 1),
      (9, .claimNextJob 2), (30009, .removeIfExpired job1 30009)]

theorem queue_wait_kept_waited :
    (waited.1.map Event.reply)[3]? = some (.claim (.ok (some ⟨alice, job2, 4⟩))) ∧
      (∀ past rest t, waited.1 = past ++ rest → Run (Step smallConfig) State.empty past t →
        Stamped past t) ∧
      Throughout (Step smallConfig) State.empty waited.1 fun past _ => ReportsWait past :=
  ⟨by decide +kernel, (queue_wait_kept_iff (fun _ => alice) (run_perform _ _ _)
    (throughout_of_always (by decide +kernel))).mpr (throughout_of_always (by decide +kernel))⟩

end InferenceQueue.Scheduler

import InferenceQueue.SchedulerSteps

namespace InferenceQueue.Scheduler

/-- The methods that take jobs on or off the queues, orphans enqueued with the capacity `c`. -/
def Op.Sized (c : ℕ) : Op → Prop
  | .pushLeft _ | .claimNextJob _ | .requeueIfExpired .. | .removeIfExpired .. => True
  | .enqueueIfAbsent _ _ capacity => capacity = c
  | .releaseProcessingJob _ => True
  | .extendProcessingLease _ | .markJobCompleted _ | .removeCompletedJob _ => False

instance (c : ℕ) : DecidablePred (Op.Sized c)
  | .pushLeft _ | .claimNextJob _ | .requeueIfExpired .. | .removeIfExpired .. => isTrue trivial
  | .enqueueIfAbsent _ _ capacity => inferInstanceAs (Decidable (capacity = c))
  | .releaseProcessingJob _ => isTrue trivial
  | .extendProcessingLease _ | .markJobCompleted _ | .removeCompletedJob _ => isFalse id

def Bounded (cfg : Config) (s : State) : Prop := ∀ u, (s.queue u).length ≤ cfg.queueCapacity

/-- A job whose lease is past the cutoff is only requeued while its user has room. -/
def RequeuesWithRoom (cfg : Config) (_ : List Event) (s : State) (e : Event) : Prop :=
  match e.op with
  | .requeueIfExpired job user cutoff =>
    (∃ k ∈ s.processingJobs.zscore job, k ≤ cutoff) → (s.queue user).length < cfg.queueCapacity
  | _ => True

instance (cfg : Config) (past : List Event) (s : State) (e : Event) :
    Decidable (RequeuesWithRoom cfg past s e) := by
  unfold RequeuesWithRoom
  cases e.op <;> infer_instance

variable {cfg : Config} {s t : State} {e : Event} {tr past : List Event} {u : UserID} {j : JobID}

theorem Bounded.enlist (h : Bounded cfg s) (hroom : (s.queue u).length < cfg.queueCapacity) :
    Bounded cfg (s.enlist u j) := by
  intro v
  rw [State.enlist_queue, Function.update_apply]
  split_ifs
  · rw [List.length_cons]
    omega
  · exact h v

theorem Bounded.step (h : Bounded cfg s) (hsized : e.op.Sized cfg.queueCapacity)
    (hok : RequeuesWithRoom cfg past s e) (he : Step cfg s e t) : Bounded cfg t := by
  cases he.effect with
  | pushed hroom hfree => exact h.enlist hroom
  | requeued hscore hexpired => exact h.enlist (hok ⟨_, hscore, hexpired⟩)
  | orphaned hmark hlease hwait hroom => exact h.enlist (hroom.trans_eq hsized)
  | @claimed _ _ u j remaining hfirst hqueue =>
    intro v
    have hpop := h u
    rw [hqueue, List.length_append, List.length_singleton] at hpop
    change ((s.delist u remaining).queue v).length ≤ cfg.queueCapacity
    rw [State.delist_queue, Function.update_apply]
    split_ifs
    · omega
    · exact h v
  | _ => exact h

theorem Bounded.run (h : Run (Step cfg) State.empty tr s)
    (hsized : ∀ e ∈ tr, e.op.Sized cfg.queueCapacity)
    (hok : Throughout (Step cfg) State.empty tr (RequeuesWithRoom cfg)) : Bounded cfg s := by
  have hboth : Throughout (Step cfg) State.empty tr fun past t e =>
      e.op.Sized cfg.queueCapacity ∧ RequeuesWithRoom cfg past t e :=
    Throughout.and (.of_forall hsized) hok
  exact h.guarded (fun _ t => Bounded cfg t) (fun u => by simp [State.empty])
    (fun _ _ _ _ hb hc he => hb.step hc.1 hc.2 he) hboth

theorem length_of_requeue {now k cutoff : ℕ} {r : Reply}
    (hscore : s.processingJobs.zscore j = some k) (hexpired : k ≤ cutoff)
    (he : Step cfg s ⟨now, .requeueIfExpired j u cutoff, r⟩ t) :
    (t.queue u).length = (s.queue u).length + 1 := by
  cases he.effect with
  | requeueRefused hheld =>
    have hlt := hheld k hscore
    omega
  | requeued _ _ => simp

/-- The queues stay within the capacity exactly as long as no expired job is put back on a full
queue. -/
theorem queues_bounded_iff (h : Run (Step cfg) State.empty tr s)
    (hsized : ∀ e ∈ tr, e.op.Sized cfg.queueCapacity) :
    (∀ past rest t, tr = past ++ rest → Run (Step cfg) State.empty past t → Bounded cfg t) ↔
      Throughout (Step cfg) State.empty tr (RequeuesWithRoom cfg) := by
  constructor
  · intro hbounded past e rest t heq hrun
    obtain ⟨now, op, reply⟩ := e
    cases op with
    | requeueIfExpired job user cutoff =>
      rintro ⟨k, hscore, hexpired⟩
      subst heq
      obtain ⟨t', he, -⟩ := Run.cons_iff.mp (h.rest hrun)
      have hlen := length_of_requeue hscore hexpired he
      have hle := hbounded _ rest t' (by simp) (hrun.snoc he) user
      omega
    | _ => trivial
  · intro hok past rest t heq hrun
    subst heq
    apply Bounded.run hrun _ hok.take
    intro e he
    exact hsized e (List.mem_append_left rest he)

def tightConfig : Config := { smallConfig with queueCapacity := 1 }

/-- The slot a claimed job left is taken again before the claim times out. -/
def refill : List Event × State :=
  perform tightConfig State.empty
    [(0, .pushLeft ⟨job1, alice, 1⟩), (1, .claimNextJob 1), (2, .pushLeft ⟨job3, alice, 1⟩),
      (30001, .requeueIfExpired job1 alice 30001)]

theorem queues_not_bounded :
    ¬∀ cfg tr s, Run (Step cfg) State.empty tr s → (∀ e ∈ tr, e.op.Sized cfg.queueCapacity) →
      Bounded cfg s := by
  intro hall
  have hle := hall tightConfig refill.1 refill.2 (run_perform _ _ _) (by decide +kernel) alice
  revert hle
  decide +kernel

/-- Without the second push the job finds its slot free again. -/
def retry : List Event × State :=
  perform tightConfig State.empty
    [(0, .pushLeft ⟨job1, alice, 1⟩), (1, .claimNextJob 1),
      (30001, .requeueIfExpired job1 alice 30001)]

theorem queues_bounded_retry : retry.2.queue alice = [job1] ∧
    ∀ past rest t, retry.1 = past ++ rest → Run (Step tightConfig) State.empty past t →
      Bounded tightConfig t :=
  ⟨by decide +kernel, (queues_bounded_iff (run_perform _ _ _) (by decide +kernel)).mpr
    (throughout_of_always (by decide +kernel))⟩

end InferenceQueue.Scheduler

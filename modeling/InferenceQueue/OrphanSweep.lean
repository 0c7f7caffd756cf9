import InferenceQueue.JobOwners
import InferenceQueue.SchedulerPlacement

namespace InferenceQueue.Scheduler

variable {cfg : Config} {s t : State} {e : Event} {j : JobID} {u : UserID}

/-- Only a claim takes a job off its queue. -/
theorem Effect.mem_queue_or_claims (h : Effect cfg s e t) (hmem : j ∈ s.queue u) :
    j ∈ t.queue u ∨ e.claims j := by
  cases h with
  | pushed | requeued | orphaned =>
    left
    rw [show (State.queue _) = _ from State.enlist_queue _ _ _, Function.update_apply]
    split_ifs with heq
    · exact List.mem_cons_of_mem _ (heq ▸ hmem)
    · exact hmem
  | @claimed now w v job remaining hfirst hqueue =>
    rw [show (State.queue _) = _ from State.delist_queue _ _ _, Function.update_apply]
    split_ifs with heq
    · rw [heq, hqueue, List.mem_append, List.mem_singleton] at hmem
      obtain hmem | rfl := hmem
      · exact Or.inl hmem
      · exact Or.inr rfl
    · exact Or.inl hmem
  | _ => exact Or.inl hmem

theorem Effect.mem_queue_of_requeued (h : Effect cfg s e t) {cutoff : ℕ}
    (hop : e.op = .requeueIfExpired j u cutoff) (hend : e.ended = some j) : j ∈ t.queue u := by
  cases h with
  | requeued =>
    cases hop
    rw [show (State.queue _) = _ from State.enlist_queue _ _ _, Function.update_self]
    exact List.mem_cons_self
  | requeueRefused => simp [Event.ended, Event.recovered] at hend
  | _ => cases hop

theorem Effect.orphaned_inv (h : Effect cfg s e t) (horph : e.orphaned = some j) :
    ∃ u capacity, e.op = .enqueueIfAbsent j u capacity ∧ j ∉ s.completedJobs ∧
      s.processingJobs.zscore j = none ∧ j ∉ s.queue u := by
  cases h with
  | orphaned hmark hlease hwait =>
    cases horph
    exact ⟨_, _, rfl, hmark, hlease, hwait⟩
  | _ => simp [Event.orphaned] at horph

theorem taken_eq_some {op : Op} (h : taken s op = some j) :
    (∃ u cutoff, op = .requeueIfExpired j u cutoff) ∨ (∃ cutoff, op = .removeIfExpired j cutoff) ∨
      op = .releaseProcessingJob j := by
  cases op with
  | requeueIfExpired job u cutoff =>
    rw [taken] at h
    split_ifs at h
    cases h
    exact Or.inl ⟨u, cutoff, rfl⟩
  | removeIfExpired job cutoff =>
    rw [taken] at h
    split_ifs at h
    cases h
    exact Or.inr (Or.inl ⟨cutoff, rfl⟩)
  | releaseProcessingJob job =>
    rw [taken] at h
    split_ifs at h
    cases h
    exact Or.inr (Or.inr rfl)
  | _ => cases h

def dropped (s : State) : Op → Option JobID
  | .removeIfExpired job cutoff => taken s (.removeIfExpired job cutoff)
  | .releaseProcessingJob job => taken s (.releaseProcessingJob job)
  | _ => none

end InferenceQueue.Scheduler

namespace InferenceQueue.Service

open Scheduler Jobs

def Worker.executes : Worker → Option JobID
  | busy _ .failPublish _ => none
  | busy claim _ _ => some claim.jobID
  | idle => none

/-- A job is put on a queue as an orphan only while its row is open and no worker executes it. -/
def RestoresUnfinished (cfg : Config) (_ : List Event) (s : System) (e : Event) : Prop :=
  ∀ pe ∈ performed cfg s e, ∀ j ∈ pe.orphaned, Open s j ∧ ∀ i, (s.workers i).executes ≠ some j

def Recovery.Lists (r : Recovery) (j : JobID) : Prop := ∃ job ∈ r.listed, job.jobID = j

instance (r : Recovery) (j : JobID) : Decidable (r.Lists j) := by
  unfold Recovery.Lists
  infer_instance

instance (s : System) (j : JobID) : Decidable (Closed s j) := by
  unfold Closed
  infer_instance

/-- What pass `i` and worker `i` ask of an event: the row of a listed orphan is closed only under
its marker, the marker of a listed orphan stays, and an open job on which worker `i` is at work
leaves `processing_jobs` for good only by that worker. -/
def UndisturbedAt (s : System) (i : ℕ) : Event → Prop
  | .call _ (.markUpdate _ j _) _ => (s.recoveries i).Lists j → j ∈ s.stores.redis.completedJobs
  | .call _ (.redis (.removeCompletedJob j)) _ => ¬(s.recoveries i).Lists j
  | .call th (.redis op) _ =>
    th = .worker i ∨ ∀ j ∈ dropped s.stores.redis op, (s.workers i).executes = some j → Closed s j
  | _ => True

instance (s : System) (i : ℕ) (e : Event) : Decidable (UndisturbedAt s i e) := by
  induction e using Event.casesOn with
  | tick => exact isTrue trivial
  | call th req resp =>
    induction req using Request.casesOn with
    | redis op => induction op using Op.casesOn <;> dsimp only [UndisturbedAt] <;> infer_instance
    | markUpdate o j n =>
      exact inferInstanceAs
        (Decidable ((s.recoveries i).Lists j → j ∈ s.stores.redis.completedJobs))
    | _ => exact isTrue trivial

def Undisturbed (_ : List Event) (s : System) (e : Event) : Prop := ∀ i, UndisturbedAt s i e

variable {cfg : Config} {s t : System} {e : Event} {j : JobID} {i : ℕ} {tr : List Event}

theorem Worker.executes_proceed {claim : Claim} {beat : Heartbeat} {stage : Stage}
    {resp : Response} (h : (Worker.proceed cfg claim beat stage resp).executes = some j) :
    claim.jobID = j ∧ stage ≠ .failPublish ∧ stage.releases = false := by
  unfold Worker.proceed Worker.giveUp at h
  split at h
  all_goals try split_ifs at h
  all_goals first
    | exact ⟨Option.some.inj h, by simp, rfl⟩
    | cases h

theorem Worker.executes_busy {claim : Claim} {beat : Heartbeat} {stage : Stage}
    (h : stage ≠ .failPublish) : (Worker.busy claim stage beat).executes = some claim.jobID := by
  cases stage <;> first | rfl | exact absurd rfl h

theorem Step.executes (he : Step cfg s e t) (h : (t.workers i).executes = some j) :
    (s.workers i).executes = some j ∨ ∃ pe, performed cfg s e = some pe ∧ pe.claims j := by
  -- a worker executes the job it has claimed just now or one it was executing before
  rcases he.worker i with hsame | ⟨resp, rfl, hnext⟩ | ⟨req, resp, -, -, hnext⟩
  · exact Or.inl (hsame ▸ h)
  · rw [hnext] at h
    cases hw : s.workers i with
    | busy claim stage beat =>
      rw [hw] at h
      obtain ⟨rfl, hstage, -⟩ := Worker.executes_proceed h
      exact Or.inl (Worker.executes_busy hstage)
    | idle =>
      right
      rw [hw] at h he
      simp only [Worker.resume] at h
      unfold Worker.claimed at h
      split at h
      · cases h
        exact ⟨_, he.performed_reply, rfl⟩
      · cases h
  · left
    rw [hnext] at h
    cases hw : s.workers i with
    | idle => simp [hw, Worker.resumeBeat, Worker.executes] at h
    | busy claim stage beat =>
      rw [hw] at h
      cases stage <;> exact h

theorem Step.executes_release {resp : Response}
    (he : Step cfg s (.call (.worker i) (.redis (.releaseProcessingJob j)) resp) t) :
    (t.workers i).executes = none := by
  -- a worker that releases its claim is done with the job
  have hnext := he.worker_self
  cases he.call.1.issues with
  | release hw hstage =>
    rw [hw] at hnext
    by_contra hne
    obtain ⟨j', hj'⟩ := Option.ne_none_iff_exists'.mp hne
    rw [hnext] at hj'
    obtain ⟨-, -, hkeeps⟩ := Worker.executes_proceed hj'
    rw [hstage] at hkeeps
    cases hkeeps

/-- A listed orphan is open or marked; a job that is executed has a lease, waits or is closed. -/
structure Swept (s : System) : Prop where
  homed : Homed s
  listed : ∀ i j, (s.recoveries i).Lists j → Open s j ∨ j ∈ s.stores.redis.completedJobs
  kept : ∀ i j, (s.workers i).executes = some j →
    s.lease j ≠ none ∨ (∃ u, j ∈ s.stores.redis.queue u) ∨ Closed s j

theorem Swept.initial : Swept System.initial := by
  refine ⟨Homed.initial, ?_, ?_⟩ <;>
    simp [System.initial, Recovery.Lists, Recovery.listed, Worker.executes]

theorem Undisturbed.marker {past : List Event} (hok : Undisturbed past s e) (he : Step cfg s e t)
    (hlists : (s.recoveries i).Lists j) (hmark : j ∈ s.stores.redis.completedJobs) :
    j ∈ t.stores.redis.completedJobs := by
  -- the marker of a listed orphan stays
  rcases he.redis with ⟨pe, hpe, hstep⟩ | ⟨-, hsame⟩
  · rcases hstep.effect.mem_completedJobs hmark with hstays | hop
    · exact hstays
    · obtain ⟨th, resp, rfl, -⟩ := Event.redisOp_eq_some (redisOp_of_performed hpe)
      rw [hop] at hok
      exact absurd hlists (hok i)
  · exact hsame ▸ hmark

theorem Swept.listed_step {past : List Event} (h : Swept s) (hok : Undisturbed past s e)
    (he : Step cfg s e t) (hlists : (t.recoveries i).Lists j) :
    Open t j ∨ j ∈ t.stores.redis.completedJobs := by
  obtain ⟨job, hjob, rfl⟩ := hlists
  rcases he.listed hjob with hold | ⟨hstores, hrow, hstatus⟩
  · have hlists : (s.recoveries i).Lists job.jobID := ⟨job, hold, rfl⟩
    rcases h.listed i job.jobID hlists with ⟨row, hrow, hstatus⟩ | hmark
    · have hstep := he.row job.jobID
      generalize hnext : t.stores.jobs.lookup job.jobID = next at hstep
      cases hstep with
      | same hsame => exact Or.inl ⟨row, hnext.trans (hsame.trans hrow), hstatus⟩
      | created hnew => simp [hnew] at hrow
      | marked => exact Or.inr (hok.marker he hlists (hok i hlists))
      | counted => exact Or.inl ⟨_, hnext, rfl⟩
    · exact Or.inr (hok.marker he hlists hmark)
  · obtain ⟨row, hlookup, hrowstatus, -, -⟩ := lookup_of_jobByID hrow
    exact Or.inl ⟨row, by rw [hstores]; exact hlookup, hrowstatus ▸ hstatus⟩

/-- A lease that ends while the job is executed ends by a requeue, which puts the job back, or
after the row was closed. -/
theorem Undisturbed.lease {past : List Event} (hok : Undisturbed past s e) (he : Step cfg s e t)
    (hold : (s.workers i).executes = some j) (hexec : (t.workers i).executes = some j)
    (hleased : s.lease j ≠ none) (hlease : t.lease j = none) :
    (∃ u, j ∈ t.stores.redis.queue u) ∨ Closed s j := by
  obtain ⟨pe, hpe⟩ := he.exists_performed (j := j) (by rw [hlease]; exact hleased.symm)
  have heff := he.effect hpe
  have hend := heff.ended_of_zscore hleased hlease
  have htaken := heff.taken_of_ended hend
  obtain ⟨th, resp, rfl, -⟩ := Event.redisOp_eq_some (redisOp_of_performed hpe)
  -- requeued, removed by recovery, or released by a worker
  rcases taken_eq_some htaken with ⟨u, cutoff, hop⟩ | ⟨cutoff, hop⟩ | hop
  · exact Or.inl ⟨u, heff.mem_queue_of_requeued hop hend⟩
  · rw [hop] at he hok htaken
    rcases hok i with rfl | hclosed
    · cases he.call.1.issues
    · exact Or.inr (hclosed j htaken hold)
  · rw [hop] at he hok htaken
    rcases hok i with rfl | hclosed
    · cases he.executes_release.symm.trans hexec
    · exact Or.inr (hclosed j htaken hold)

theorem Swept.kept_step {past : List Event} (h : Swept s) (hok : Undisturbed past s e)
    (he : Step cfg s e t) (hexec : (t.workers i).executes = some j) :
    t.lease j ≠ none ∨ (∃ u, j ∈ t.stores.redis.queue u) ∨ Closed t j := by
  by_cases hlease : t.lease j = none
  · right
    have hclaim : ∀ pe, performed cfg s e = some pe → ¬pe.claims j := by
      intro pe hpe hclaims
      have hscore := (he.effect hpe).zscore_eq j
      rw [if_pos hclaims] at hscore
      cases hlease.symm.trans hscore
    rcases he.executes hexec with hold | ⟨pe, hpe, hclaims⟩
    · rcases h.kept i j hold with hleased | ⟨u, hmem⟩ | hclosed
      · exact (hok.lease he hold hexec hleased hlease).imp_right (Closed.step · he)
      · -- a claim would take the job off the queue, but give it a lease
        left
        rcases he.redis with ⟨pe, hpe, hstep⟩ | ⟨-, hsame⟩
        · rcases hstep.effect.mem_queue_or_claims hmem with hstays | hclaims
          · exact ⟨u, hstays⟩
          · exact absurd hclaims (hclaim pe hpe)
        · exact ⟨u, hsame ▸ hmem⟩
      · exact Or.inr (hclosed.step he)
    · exact absurd hclaims (hclaim pe hpe)
  · exact Or.inl hlease

theorem Swept.step {past : List Event} (h : Swept s) (hok : Undisturbed past s e)
    (he : Step cfg s e t) : Swept t :=
  ⟨h.homed.step he, fun _ _ => h.listed_step hok he, fun _ _ => h.kept_step hok he⟩

theorem Swept.restores {past : List Event} (h : Swept s) (he : Step cfg s e t) :
    RestoresUnfinished cfg past s e := by
  intro pe hpe j horph
  obtain ⟨u, capacity, hop, hmark, hlease, hwait⟩ := (he.effect hpe).orphaned_inv horph
  obtain ⟨th, resp, rfl, -⟩ := Event.redisOp_eq_some (redisOp_of_performed hpe)
  rw [hop] at he
  cases he.call.1.issues with
  | @restore k todo job hrec =>
    have hjob : job ∈ (s.recoveries k).listed := by
      rw [hrec]
      exact List.mem_cons_self
    have hopen : Open s job.jobID :=
      (h.listed k job.jobID ⟨job, hjob, rfl⟩).resolve_right hmark
    refine ⟨hopen, fun i hexec => ?_⟩
    rcases h.kept i job.jobID hexec with hleased | ⟨v, hmem⟩ | hclosed
    · exact hleased hlease
    · -- the script looks into the queue of the user in the row, and there is no other
      have huser := (h.homed.queue v _ hmem).unique (h.homed.listed k job hjob)
      exact hwait (huser ▸ hmem)
    · exact hclosed.not_open hopen

/-- While the markers and the leases of listed and executed jobs are left alone, the orphan sweep
restores only unfinished work. -/
theorem orphan_sweep_restores_unfinished (h : Run (Step cfg) System.initial tr s)
    (hok : Throughout (Step cfg) System.initial tr Undisturbed) :
    Throughout (Step cfg) System.initial tr (RestoresUnfinished cfg) := by
  refine Throughout.of_invariant (fun _ s => Swept s) .initial ?_ ?_ h hok
  · rintro past s e t hswept hok (he : Step cfg s e t)
    exact hswept.step hok he
  · rintro past s e t hswept - (he : Step cfg s e t)
    exact hswept.restores he

def listing (i now : ℕ) (jobs : List Job) : List Event :=
  [.call (.recovery i) .clock (.time now),
   .call (.recovery i) (.expiredJobIDs now 10) (.ids []),
   .call (.recovery i) .completedJobIDs (.ids []),
   .call (.recovery i) .clock (.time now),
   .call (.recovery i) (.pendingOrphans (now - 300000) 10) (.orphans jobs)]

/-- A claim of a job that has waited past the grace period of the orphan sweep. -/
def lateClaim (i : ℕ) : Event :=
  .call (.worker i) (.redis (.claimNextJob i))
    (.reply (.claim (.ok (some ⟨alice, job1, 300001⟩))))

/-- A job fails between the SELECT of the orphans and `EnqueueIfAbsent`: nothing in Redis tells of
it any more, and the sweep puts it on the queue again. -/
theorem orphan_sweep_restores_failed :
    ¬∀ (cfg : Config) (tr : List Event) (s : System), Run (Step cfg) System.initial tr s →
      Throughout (Step cfg) System.initial tr (RestoresUnfinished cfg) := by
  intro hall
  let past := submitted 0 job1 alice ++ [.tick 300001, lateClaim 0,
      .call (.worker 0) (.retryPolicy alice) (.policy 3),
      .call (.worker 0) (.external (.payload job1)) (.flag true)] ++
    listing 0 300001 [⟨job1, alice, .created, 1, 0⟩] ++
    [.call (.worker 0) (.generate job1 3) (.attempts false 3),
     .call (.worker 0) (.markSelect .failed job1) (.result (.ok ())),
     .call (.worker 0) (.markUpdate .failed job1 3) (.result (.ok ())),
     .call (.worker 0) (.external (.transitionStatus job1 .failed)) (.flag true),
     .call (.worker 0) (.redis (.releaseProcessingJob job1)) (.reply (.done (.ok ())))]
  let restoring : Event :=
    .call (.recovery 0) (.redis (.enqueueIfAbsent job1 alice 2)) (.reply (.flag true))
  obtain ⟨t, hpast, hnot, horph, hnext⟩ := Run.exists_of_foldlM (step smallService)
    System.initial past (fun t => ¬Open t job1 ∧
      (∃ pe ∈ performed smallService t restoring, pe.orphaned = some job1) ∧
      (step smallService t restoring).isSome) (by decide +kernel)
  obtain ⟨u, hu⟩ := Option.isSome_iff_exists.mp hnext
  obtain ⟨pe, hpe, hpushed⟩ := horph
  exact hnot (hall _ _ u (hpast.snoc hu) past restoring [] t rfl hpast pe hpe job1 hpushed).1

theorem undisturbedAt_of_idle (hw : s.workers i = .idle) (hr : s.recoveries i = .idle) :
    UndisturbedAt s i e := by
  have hlists : ∀ j, ¬(s.recoveries i).Lists j := by
    rintro j ⟨job, hjob, -⟩
    rw [hr] at hjob
    cases hjob
  unfold UndisturbedAt
  split
  · exact fun h => absurd h (hlists _)
  · exact hlists _
  · exact Or.inr fun j _ hexec => by simp [hw, Worker.executes] at hexec
  · trivial

theorem undisturbed_of_within (n : ℕ) (h : Run (Step cfg) System.initial tr s)
    (hok : Throughout (Step cfg) System.initial tr
      fun _ s e => e.within n ∧ ∀ i < n, UndisturbedAt s i e) :
    Throughout (Step cfg) System.initial tr Undisturbed := by
  refine Throughout.of_invariant (fun _ s => Within n s) (fun i _ => ⟨rfl, rfl⟩) ?_ ?_ h hok
  · rintro past s e t hn hok (he : Step cfg s e t)
    exact hn.step he hok.1
  · intro past s e t hn hok he i
    by_cases hi : i < n
    · exact hok.2 i hi
    · exact undisturbedAt_of_idle (hn i (Nat.not_lt.mp hi)).1 (hn i (Nat.not_lt.mp hi)).2

/-- A submit that stops before its push: the sweep restores the job, and a worker completes it
while a second sweep has it in its list. -/
theorem orphan_sweep_restores_unfinished_lost :
    ∃ tr s, Run (Step smallService) System.initial tr s ∧
      .call (.recovery 0) (.redis (.enqueueIfAbsent job1 alice 2)) (.reply (.flag true)) ∈ tr ∧
      Throughout (Step smallService) System.initial tr (RestoresUnfinished smallService) := by
  let tr := (submitted 0 job1 alice).take 3 ++ [.tick 300001] ++
    listing 0 300001 [⟨job1, alice, .created, 1, 0⟩] ++
    listing 1 300001 [⟨job1, alice, .created, 1, 0⟩] ++
    [.call (.recovery 0) (.redis (.enqueueIfAbsent job1 alice 2)) (.reply (.flag true)),
     claiming 0 job1 alice] ++ generated 0 job1 alice ++
    [.call (.worker 0) (.markSelect .completed job1) (.result (.ok ())),
     .call (.worker 0) (.markUpdate .completed job1 1) (.result (.ok ())),
     .call (.recovery 1) (.redis (.enqueueIfAbsent job1 alice 2)) (.reply (.flag false))]
  obtain ⟨s, hrun, -⟩ := Run.exists_of_foldlM (step smallService) System.initial tr
    (fun _ => True) (by decide +kernel)
  refine ⟨tr, s, hrun, by decide +kernel,
    orphan_sweep_restores_unfinished hrun (undisturbed_of_within 2 hrun ?_)⟩
  exact throughout_of_always (by decide +kernel)

end InferenceQueue.Service

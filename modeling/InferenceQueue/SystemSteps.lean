import InferenceQueue.SchedulerFairness
import InferenceQueue.SystemModel

namespace InferenceQueue.Service

open Scheduler Jobs

def Event.redisOp : Event → Option Op
  | .call _ (.redis op) resp => if resp = .failed false then none else some op
  | _ => none

/-- The scheduler call an event carries out, with what Redis replied, heard or not. -/
def performed (cfg : Config) (s : System) (e : Event) : Option Scheduler.Event :=
  e.redisOp.map fun op => ⟨s.clock, op, (call cfg.scheduler s.clock s.stores.redis op).2⟩

inductive RowStep (s : System) (j : JobID) : Event → Option Row → Prop
  | same {e r} (hsame : r = s.stores.jobs.lookup j) : RowStep s j e r
  | created {th u resp} (hnew : s.stores.jobs.lookup j = none) :
      RowStep s j (.call th (.create j u) resp) (some ⟨u, .created, 1, s.clock⟩)
  | marked {th o n resp row} (hrow : s.stores.jobs.lookup j = some row) :
      RowStep s j (.call th (.markUpdate o j n) resp)
        (some { row with status := o.status, retryCounts := n })
  | counted {th n resp row} (hrow : s.stores.jobs.lookup j = some row)
      (hstatus : row.status = .created) :
      RowStep s j (.call th (.updateCreated j n) resp)
        (some { row with status := .created, retryCounts := n })

inductive Issues (cfg : Config) (s : System) : Thread → Op → Prop
  | push {i job user} (h : s.submits i = .push job user) :
      Issues cfg s (.submit i) (.pushLeft ⟨job, user, 0⟩)
  | claim {i} (h : s.workers i = .idle) : Issues cfg s (.worker i) (.claimNextJob i)
  | release {i claim stage beat} (h : s.workers i = .busy claim stage beat)
      (hstage : stage.releases = true) :
      Issues cfg s (.worker i) (.releaseProcessingJob claim.jobID)
  | mark {i claim n beat} (h : s.workers i = .busy claim (.marker n) beat) :
      Issues cfg s (.worker i) (.markJobCompleted claim.jobID)
  | extend {i claim stage beat} (h : s.workers i = .busy claim stage beat)
      (hbeat : beat.running = true) :
      Issues cfg s (.heartbeat i) (.extendProcessingLease claim.jobID)
  | remove {i cutoff todo job stage} (h : s.recoveries i = .recovering cutoff todo job stage) :
      Issues cfg s (.recovery i) (.removeIfExpired job cutoff)
  | requeue {i cutoff todo job user n}
      (h : s.recoveries i = .recovering cutoff todo job (.requeue user n)) :
      Issues cfg s (.recovery i) (.requeueIfExpired job user cutoff)
  | unmark {i todo job stage} (h : s.recoveries i = .reconciling todo job stage)
      (hstage : stage.closing = true) : Issues cfg s (.recovery i) (.removeCompletedJob job)
  | restore {i todo job} (h : s.recoveries i = .enqueueing todo job) :
      Issues cfg s (.recovery i) (.enqueueIfAbsent job.jobID job.userID cfg.recoveryCapacity)

def Open (s : System) (j : JobID) : Prop := ∃ row ∈ s.stores.jobs.lookup j, row.status = .created

def Closed (s : System) (j : JobID) : Prop := ∃ row ∈ s.stores.jobs.lookup j, row.status ≠ .created

instance (s : System) (j : JobID) : Decidable (Open s j) := by unfold Open; infer_instance

/-- Only the first `n` workers and recovery passes have started. -/
def Within (n : ℕ) (s : System) : Prop :=
  ∀ i, n ≤ i → s.workers i = .idle ∧ s.recoveries i = .idle

def Event.within (n : ℕ) : Event → Prop
  | .call (.worker i) _ _ => i < n
  | .call (.heartbeat i) _ _ => i < n
  | .call (.recovery i) _ _ => i < n
  | _ => True

instance (n : ℕ) (e : Event) : Decidable (e.within n) := by
  unfold Event.within
  split <;> infer_instance

variable {cfg : Config} {s t : System} {e : Event} {th : Thread} {req : Request} {resp : Response}
  {now : ℕ} {st st' : Stores} {j : JobID} {i : ℕ} {tr : List Event}

theorem Requests.issues {op : Op} (h : Requests cfg s (.redis op) th) : Issues cfg s th op := by
  cases th with
  | submit i =>
    change (s.submits i).requests (.redis op) at h
    cases hp : s.submits i with
    | push job user =>
      rw [hp] at h
      obtain rfl := Request.redis.inj h
      exact .push hp
    | settle job bound => cases bound <;> simp [hp, Submit.requests] at h
    | _ => simp [hp, Submit.requests] at h
  | worker i =>
    change (s.workers i).request i = .redis op at h
    cases hp : s.workers i with
    | idle =>
      rw [hp] at h
      obtain rfl := Request.redis.inj h
      exact .claim hp
    | busy claim stage beat =>
      rw [hp] at h
      cases stage with
      | failRelease | abortRelease | completeRelease =>
        obtain rfl := Request.redis.inj h
        exact .release hp rfl
      | marker n =>
        obtain rfl := Request.redis.inj h
        exact .mark hp
      | _ => cases h
  | heartbeat i =>
    change (s.workers i).beatRequest = some (.redis op) at h
    cases hp : s.workers i with
    | idle => simp [hp, Worker.beatRequest] at h
    | busy claim stage beat =>
      rw [hp, Worker.beatRequest] at h
      split_ifs at h with hbeat
      obtain rfl := Request.redis.inj (Option.some.inj h)
      exact .extend hp hbeat
  | recovery i =>
    change (s.recoveries i).request cfg = .redis op at h
    cases hp : s.recoveries i with
    | recovering cutoff todo job stage =>
      rw [hp] at h
      cases stage with
      | removeStale | removeExhausted =>
        obtain rfl := Request.redis.inj h
        exact .remove hp
      | requeue user n =>
        obtain rfl := Request.redis.inj h
        exact .requeue hp
      | _ => cases h
    | reconciling todo job stage =>
      rw [hp] at h
      cases stage with
      | removeMissing | removeMarker =>
        obtain rfl := Request.redis.inj h
        exact .unmark hp rfl
      | _ => cases h
    | enqueueing todo job =>
      rw [hp] at h
      obtain rfl := Request.redis.inj h
      exact .restore hp
    | _ => simp [hp, Recovery.request] at h

@[simp] theorem resume_stores : (resume cfg s req resp th).stores = s.stores := by
  cases th <;> rfl

@[simp] theorem resume_clock : (resume cfg s req resp th).clock = s.clock := by
  cases th <;> rfl

theorem Step.call (h : Step cfg s (.call th req resp) t) :
    Requests cfg s req th ∧ ∃ st, serve cfg s.clock s.stores req resp = some st ∧
      t = resume cfg { s with stores := st } req resp th := by
  -- a call is made by a thread that is ready to make it, and served by the stores
  unfold Step Fires at h
  rw [step] at h
  split_ifs at h with hreq
  obtain ⟨st, hst, rfl⟩ := Option.map_eq_some_iff.mp h
  exact ⟨hreq, st, hst, rfl⟩

theorem Step.of_serve (hreq : Requests cfg s req th)
    (hserve : serve cfg s.clock s.stores req resp = some st) :
    Step cfg s (.call th req resp) (resume cfg { s with stores := st } req resp th) := by
  unfold Step Fires
  rw [step, if_pos hreq, hserve, Option.map_some]

theorem Event.redisOp_eq_some {op : Op} (h : e.redisOp = some op) :
    ∃ th resp, e = .call th (.redis op) resp ∧ resp ≠ .failed false := by
  cases e with
  | tick ms => cases h
  | call th req resp =>
    cases req with
    | redis op' =>
      rw [Event.redisOp] at h
      split_ifs at h with hresp
      obtain rfl := Option.some.inj h
      exact ⟨th, resp, rfl, hresp⟩
    | _ => cases h

theorem redisOp_of_performed {pe : Scheduler.Event} (h : performed cfg s e = some pe) :
    e.redisOp = some pe.op := by
  obtain ⟨op, hop, rfl⟩ := Option.map_eq_some_iff.mp h
  exact hop

theorem performed_of_redisOp {op : Op} (h : e.redisOp = some op) :
    ∃ pe, performed cfg s e = some pe ∧ pe.op = op :=
  ⟨_, by rw [performed, h, Option.map_some], rfl⟩

theorem Step.performed_reply {op : Op} {r : Reply}
    (h : Step cfg s (.call th (.redis op) (.reply r)) t) :
    performed cfg s (.call th (.redis op) (.reply r)) = some ⟨s.clock, op, r⟩ := by
  obtain ⟨-, st, hst, -⟩ := h.call
  have hans : r = (Scheduler.call cfg.scheduler s.clock s.stores.redis op).2 :=
    answers_of_serve hst (by simp)
  rw [performed, Event.redisOp, if_neg (by simp), Option.map_some, hans]

theorem Step.tick {ms : ℕ} (h : Step cfg s (.tick ms) t) :
    t = { s with clock := s.clock + ms } := (Option.some.inj h).symm

theorem Step.clock_le (h : Step cfg s e t) : s.clock ≤ t.clock := by
  cases e with
  | tick ms =>
    rw [h.tick]
    exact Nat.le_add_right _ _
  | call th req resp =>
    obtain ⟨-, st, -, rfl⟩ := h.call
    rw [resume_clock]

theorem effect_redis (hreq : ∀ op, req ≠ .redis op) :
    (effect cfg now st req).redis = st.redis := by
  cases req with
  | redis op => exact absurd rfl (hreq op)
  | create jobID userID =>
    rw [effect]
    split_ifs <;> rfl
  | _ => rfl

/-- A step of the system is a call of the scheduler or leaves Redis alone. -/
theorem Step.redis (h : Step cfg s e t) :
    (∃ pe, performed cfg s e = some pe ∧
      Scheduler.Step cfg.scheduler s.stores.redis pe t.stores.redis) ∨
      (performed cfg s e = none ∧ t.stores.redis = s.stores.redis) := by
  cases e with
  | tick ms =>
    right
    rw [h.tick]
    exact ⟨rfl, rfl⟩
  | call th req resp =>
    obtain ⟨-, st, hst, rfl⟩ := h.call
    rw [resume_stores]
    by_cases hredis : ∃ op, req = .redis op
    · obtain ⟨op, rfl⟩ := hredis
      rcases serve_cases hst with ⟨rfl, rfl⟩ | ⟨hresp, rfl, -⟩
      · exact Or.inr ⟨rfl, rfl⟩
      · left
        refine ⟨_, by rw [performed, Event.redisOp, if_neg hresp, Option.map_some], ?_⟩
        exact step_call cfg.scheduler s.clock s.stores.redis op
    · have hne : ∀ op, req ≠ .redis op := fun op heq => hredis ⟨op, heq⟩
      refine Or.inr ⟨?_, ?_⟩
      · cases req with
        | redis op => exact absurd rfl (hne op)
        | _ => rfl
      · rcases serve_cases hst with ⟨-, rfl⟩ | ⟨-, rfl, -⟩
        · rfl
        · exact effect_redis hne

theorem Step.effect {pe : Scheduler.Event} (h : Step cfg s e t)
    (hpe : performed cfg s e = some pe) :
    Effect cfg.scheduler s.stores.redis pe t.stores.redis := by
  rcases h.redis with ⟨pe', hpe', hstep⟩ | ⟨hnone, -⟩
  · obtain rfl := Option.some.inj (hpe'.symm.trans hpe)
    exact hstep.effect
  · cases hnone.symm.trans hpe

theorem rowStep_effect (s : System) (th : Thread) (req : Request) (resp : Response) (j : JobID) :
    RowStep s j (.call th req resp) ((effect cfg s.clock s.stores req).jobs.lookup j) := by
  cases req with
  | create jobID userID =>
    rw [effect]
    by_cases hnew : s.stores.jobs.lookup jobID = none
    · rw [if_pos (by rw [hnew]; rfl)]
      change RowStep s j _ ((save jobID userID s.clock s.stores.jobs).lookup j)
      rw [lookup_save]
      split_ifs with heq
      · subst heq
        exact .created hnew
      · exact .same rfl
    · rw [if_neg (by simpa using hnew)]
      exact .same rfl
  | markUpdate o jobID n =>
    change RowStep s j _ ((updateStatus jobID o.status n s.stores.jobs).1.lookup j)
    rw [lookup_updateStatus]
    split_ifs with heq
    · subst heq
      cases hrow : s.stores.jobs.lookup j with
      | none => exact .same hrow.symm
      | some row => exact .marked hrow
    · exact .same rfl
  | updateCreated jobID n =>
    change RowStep s j _
      ((updateStatusIfStatus jobID n .created .created s.stores.jobs).1.lookup j)
    rw [lookup_updateStatusIfStatus]
    split_ifs with heq
    · subst heq
      cases hrow : s.stores.jobs.lookup j with
      | none => exact .same hrow.symm
      | some row =>
        rw [Option.map_some]
        split_ifs with hstatus
        · exact .counted hrow hstatus
        · exact .same hrow.symm
    · exact .same rfl
  | _ => exact .same rfl

theorem Step.row (h : Step cfg s e t) (j : JobID) : RowStep s j e (t.stores.jobs.lookup j) := by
  cases e with
  | tick ms =>
    rw [h.tick]
    exact .same rfl
  | call th req resp =>
    obtain ⟨-, st, hst, rfl⟩ := h.call
    rw [resume_stores]
    rcases serve_cases hst with ⟨-, rfl⟩ | ⟨-, rfl, -⟩
    · exact .same rfl
    · exact rowStep_effect s th req resp j

theorem Step.submit (h : Step cfg s e t) (i : ℕ) :
    t.submits i = s.submits i ∨
      ∃ req resp, e = .call (.submit i) req resp ∧ (s.submits i).requests req ∧
        t.submits i = (s.submits i).resume req resp := by
  cases e with
  | tick ms =>
    rw [h.tick]
    exact Or.inl rfl
  | call th req resp =>
    obtain ⟨hreq, st, -, rfl⟩ := h.call
    cases th with
    | submit i' =>
      change Function.update s.submits i' _ i = _ ∨ _
      by_cases heq : i = i'
      · subst heq
        right
        exact ⟨req, resp, rfl, hreq, Function.update_self i _ _⟩
      · exact Or.inl (Function.update_of_ne heq _ _)
    | _ => exact Or.inl rfl

theorem Step.submit_self (h : Step cfg s (.call (.submit i) req resp) t) :
    t.submits i = (s.submits i).resume req resp := by
  obtain ⟨-, st, -, rfl⟩ := h.call
  exact Function.update_self i _ _

theorem Step.recovery (h : Step cfg s e t) (i : ℕ) :
    t.recoveries i = s.recoveries i ∨
      ∃ resp, e = .call (.recovery i) ((s.recoveries i).request cfg) resp ∧
        t.recoveries i = (s.recoveries i).resume cfg resp := by
  cases e with
  | tick ms =>
    rw [h.tick]
    exact Or.inl rfl
  | call th req resp =>
    obtain ⟨hreq, st, -, rfl⟩ := h.call
    cases th with
    | recovery i' =>
      change Function.update s.recoveries i' _ i = _ ∨ _
      by_cases heq : i = i'
      · subst heq
        right
        refine ⟨resp, by rw [show (s.recoveries i).request cfg = req from hreq], ?_⟩
        exact Function.update_self i _ _
      · exact Or.inl (Function.update_of_ne heq _ _)
    | _ => exact Or.inl rfl

theorem Step.recovery_self (h : Step cfg s (.call (.recovery i) req resp) t) :
    t.recoveries i = (s.recoveries i).resume cfg resp := by
  obtain ⟨-, st, -, rfl⟩ := h.call
  exact Function.update_self i _ _

theorem Step.worker_self (h : Step cfg s (.call (.worker i) req resp) t) :
    t.workers i = (s.workers i).resume cfg resp := by
  obtain ⟨-, st, -, rfl⟩ := h.call
  exact Function.update_self i _ _

theorem Step.worker (h : Step cfg s e t) (i : ℕ) :
    t.workers i = s.workers i ∨
      (∃ resp, e = .call (.worker i) ((s.workers i).request i) resp ∧
        t.workers i = (s.workers i).resume cfg resp) ∨
      ∃ req resp, e = .call (.heartbeat i) req resp ∧ (s.workers i).beatRequest = some req ∧
        t.workers i = (s.workers i).resumeBeat cfg resp := by
  -- a worker moves by its own calls and by those of its heartbeat
  cases e with
  | tick ms =>
    rw [h.tick]
    exact Or.inl rfl
  | call th req resp =>
    obtain ⟨hreq, st, -, rfl⟩ := h.call
    cases th with
    | worker i' =>
      change Function.update s.workers i' _ i = _ ∨ _
      by_cases heq : i = i'
      · subst heq
        right; left
        refine ⟨resp, by rw [show (s.workers i).request i = req from hreq], ?_⟩
        exact Function.update_self i _ _
      · exact Or.inl (Function.update_of_ne heq _ _)
    | heartbeat i' =>
      change Function.update s.workers i' _ i = _ ∨ _
      by_cases heq : i = i'
      · subst heq
        right; right
        exact ⟨req, resp, rfl, hreq, Function.update_self i _ _⟩
      · exact Or.inl (Function.update_of_ne heq _ _)
    | _ => exact Or.inl rfl

theorem Within.step {n : ℕ} (h : Within n s) (he : Step cfg s e t) (hin : e.within n) :
    Within n t := by
  intro i hi
  refine ⟨?_, ?_⟩
  · rcases he.worker i with hsame | ⟨resp, rfl, -⟩ | ⟨req, resp, rfl, -⟩
    · exact hsame.trans (h i hi).1
    · exact absurd hin (Nat.not_lt.mpr hi)
    · exact absurd hin (Nat.not_lt.mpr hi)
  · rcases he.recovery i with hsame | ⟨resp, rfl, -⟩
    · exact hsame.trans (h i hi).2
    · exact absurd hin (Nat.not_lt.mpr hi)

/-- Under the whole system too, Redis holds a round-robin queue. -/
theorem Step.refines (h : Step cfg s e t) (hs : ∃ q, Refines s.stores.redis q) :
    ∃ q, Refines t.stores.redis q := by
  obtain ⟨q, hq⟩ := hs
  rcases h.redis with ⟨pe, -, hstep⟩ | ⟨-, hsame⟩
  · obtain ⟨q', hq', -⟩ := hq.step hstep
    exact ⟨q', hq'⟩
  · exact ⟨q, hsame ▸ hq⟩

def smallService : Config where
  scheduler := smallConfig
  batch := 10
  orphanGrace := 300000
  recoveryCapacity := 2
  defaultMaxAttempts := 3
  maxRenewalFailures := 0

def submitted (i : ℕ) (job : JobID) (user : UserID) : List Event :=
  [.call (.submit i) (.create job user) (.result (.ok ())),
   .call (.submit i) (.external (.setJobID job)) (.flag true),
   .call (.submit i) (.external .deadline) (.flag true),
   .call (.submit i) (.redis (.pushLeft ⟨job, user, 0⟩)) (.reply (.enqueue (.ok ⟨true⟩)))]

def claiming (i : ℕ) (job : JobID) (user : UserID) : Event :=
  .call (.worker i) (.redis (.claimNextJob i)) (.reply (.claim (.ok (some ⟨user, job, 0⟩))))

def generated (i : ℕ) (job : JobID) (user : UserID) : List Event :=
  [.call (.worker i) (.retryPolicy user) (.policy 3),
   .call (.worker i) (.external (.payload job)) (.flag true),
   .call (.worker i) (.generate job 3) (.attempts true 1),
   .call (.worker i) (.redis (.markJobCompleted job)) (.reply (.done (.ok ())))]

/-- A sweep up to the requeue of the only expired job, which has been recovered `n - 1` times. -/
def requeuing (i now : ℕ) (job : JobID) (user : UserID) (n m : ℕ) : List Event :=
  [.call (.recovery i) .clock (.time now),
   .call (.recovery i) (.expiredJobIDs now 10) (.ids [job]),
   .call (.recovery i) (.byID job) (.job (.ok ⟨job, user, .created, n, 0⟩)),
   .call (.recovery i) (.retryPolicy user) (.policy m),
   .call (.recovery i) (.redis (.requeueIfExpired job user now)) (.reply (.flag true))]

end InferenceQueue.Service

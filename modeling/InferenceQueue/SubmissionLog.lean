import InferenceQueue.OrphanSweep
import InferenceQueue.PlatformSteps

namespace InferenceQueue.Service

open Scheduler

variable {cfg : Config} {s : System} {j : JobID} {th : Thread}

theorem Submit.bind_of_requests {p : Submit} (h : p.requests (.external (.setJobID j))) :
    ∃ u, p = .bind j u := by
  cases p with
  | create =>
    obtain ⟨_, _, h⟩ := h
    cases h
  | bind j' u =>
    cases h
    exact ⟨u, rfl⟩
  | settle j' bound => cases bound <;> cases h
  | _ => cases h

theorem Submit.resume_push (j : JobID) (u : UserID) (req : Request) (resp : Response) :
    (Submit.push j u).resume req resp = .ended ∨ ∃ err, resp = .reply (.enqueue (.error err)) := by
  unfold Submit.resume
  split
  all_goals first
    | exact Or.inr ⟨_, rfl⟩
    | exact Or.inl rfl
    | simp_all

theorem Requests.completes (h : Requests cfg s (.external (.transitionStatus j .completed)) th) :
    (∃ i, th = .worker i ∧ (s.workers i).executes = some j) ∨ ∃ i, th = .recovery i := by
  cases th with
  | submit i =>
    change (s.submits i).requests _ at h
    cases hp : s.submits i with
    | create =>
      rw [hp] at h
      obtain ⟨_, _, h⟩ := h
      cases h
    | settle j' bound => cases bound <;> rw [hp] at h <;> cases h
    | _ =>
      rw [hp] at h
      cases h
  | worker i =>
    left
    refine ⟨i, rfl, ?_⟩
    change (s.workers i).request i = _ at h
    cases hw : s.workers i with
    | idle =>
      rw [hw] at h
      cases h
    | busy claim stage beat =>
      rw [hw] at h
      cases stage <;> cases h
      rfl
  | heartbeat i =>
    change (s.workers i).beatRequest = _ at h
    cases hw : s.workers i with
    | idle =>
      rw [hw] at h
      cases h
    | busy claim stage beat =>
      rw [hw, Worker.beatRequest] at h
      split_ifs at h
      cases h
  | recovery i => exact Or.inr ⟨i, rfl⟩

end InferenceQueue.Service

namespace InferenceQueue.Platform

open Scheduler Service Idempotency Coalescing

def enqueued (cfg : Config) (p : State) : Event → Option (String × JobID)
  | .system (.call (.submit i) req resp) =>
    match p.fronts i with
    | .running task =>
      (performed cfg.service p.system (.call (.submit i) req resp)).bind fun pe =>
        pe.pushed.map fun entry => (task.idempotencyKey, entry.2)
    | _ => none
  | _ => none

abbrev Audit := Logged State (String × JobID)

abbrev AuditStep (cfg : Config) : Audit → Event → Audit → Prop :=
  Fires (loggedStep (step cfg) (enqueued cfg))

def Audit.initial : Audit := ⟨State.initial, []⟩

def Event.byRecovery : Event → Bool
  | .system (.call (.recovery _) _ _) => true
  | _ => false

def Front.early : Front → Bool
  | start | claim _ | coalesce _ | admitting _ => true
  | _ => false

variable {cfg : Config} {p q : State} {e : Event} {i : ℕ} {j : JobID} {u : UserID} {key : String}
  {a b : Audit} {task : Task}

theorem pushed_pushLeft {now : ℕ} {reply : Reply} {entry : QueueEntry} {x : UserID × JobID}
    (h : (Scheduler.Event.mk now (.pushLeft entry) reply).pushed = some x) :
    entry.jobID = x.2 ∧ ∃ r, reply = .enqueue (.ok r) := by
  unfold Scheduler.Event.pushed at h
  split at h
  · next hop hreply =>
    cases hop
    cases h
    exact ⟨rfl, _, hreply⟩
  · next hop _ => cases hop
  · next hop _ => cases hop
  · cases h

theorem enqueued_inv (he : Step cfg p e q) (h : enqueued cfg p e = some (key, j)) :
    ∃ i task u resp, e = .system (.call (.submit i) (.redis (.pushLeft ⟨j, u, 0⟩)) resp) ∧
      p.fronts i = .running task ∧ task.idempotencyKey = key ∧ p.system.submits i = .push j u ∧
      q.system.submits i = .ended := by
  unfold enqueued at h
  split at h
  · next i req resp =>
    split at h
    · next task hrunning =>
      obtain ⟨pe, hpe, hpushed⟩ := Option.bind_eq_some_iff.mp h
      obtain ⟨entry, hentry, hkey⟩ := Option.map_eq_some_iff.mp hpushed
      obtain ⟨rfl, rfl⟩ := Prod.mk.inj hkey
      obtain ⟨th, resp', heq, hresp⟩ := Event.redisOp_eq_some (redisOp_of_performed hpe)
      obtain ⟨rfl, rfl, rfl⟩ := Service.Event.call.inj heq
      have hs := he.service.2
      have hissue := hs.call.1.issues
      have hself := hs.submit_self
      obtain ⟨now, op, reply⟩ := pe
      cases hissue with
      | @push _ job user hpush =>
        rw [hpush] at hself
        obtain ⟨rfl, r, rfl⟩ := pushed_pushLeft hentry
        refine ⟨i, task, user, resp, rfl, hrunning, rfl, hpush, ?_⟩
        rcases Submit.resume_push entry.2 user _ resp with hended | ⟨err, rfl⟩
        · exact hself.trans hended
        · -- the reply Redis gave is the one that was heard
          have hsame := hs.performed_reply.symm.trans hpe
          cases hsame
    · cases h
  · cases h

/-- Apart from recovery, only a `Submit` puts a job on a queue. -/
theorem enqueued_of_pushed {se : Service.Event} {pe : Scheduler.Event}
    (hs : Service.Step cfg.service p.system se q.system) (hallowed : Allowed cfg p se)
    (hrec : (Event.system se).byRecovery = false)
    (hpe : performed cfg.service p.system se = some pe) (hpush : pe.pushed = some (u, j)) :
    ∃ key, enqueued cfg p (.system se) = some (key, j) := by
  obtain ⟨th, resp, rfl, -⟩ := Event.redisOp_eq_some (redisOp_of_performed hpe)
  cases th with
  | submit i =>
    have hsubmit : SubmitAllowed p i (.redis pe.op) := hallowed.1
    cases hfront : p.fronts i with
    | running task =>
      refine ⟨task.idempotencyKey, ?_⟩
      simp only [enqueued, hfront, hpe, Option.bind_some, hpush, Option.map_some]
    | _ => simp [SubmitAllowed, hfront] at hsubmit
  | recovery i => cases hrec
  | worker i | heartbeat i =>
    have hissue := hs.call.1.issues
    obtain ⟨now, op, reply⟩ := pe
    cases hissue <;> simp [Scheduler.Event.pushed] at hpush

theorem Step.row_isSome (he : Step cfg p e q) (h : p.system.stores.jobs.lookup j ≠ none) :
    q.system.stores.jobs.lookup j ≠ none := by
  rcases he.system with ⟨se, -, -, hs⟩ | ⟨-, hsame⟩
  · exact hs.row_isSome h
  · rwa [hsame]

theorem Step.owner (he : Step cfg p e q) (h : (q.system.submits i).owner = some (j, u)) :
    (p.system.submits i).owner = some (j, u) ∨
      (e = .system (.call (.submit i) (.create j u) (.result (.ok ()))) ∧
        p.system.stores.jobs.lookup j = none) := by
  rcases he.system with ⟨se, rfl, -, hs⟩ | ⟨-, hsame⟩
  · rcases hs.submit i with hsame | ⟨req, resp, rfl, -, hnext⟩
    · exact Or.inl (hsame ▸ h)
    · rw [hnext] at h
      rcases Submit.owner_resume h with hold | ⟨rfl, rfl⟩
      · exact Or.inl hold
      · obtain ⟨-, st, hst, -⟩ := hs.call
        have hans := answers_of_serve hst (by simp)
        exact Or.inr ⟨rfl, hans.2⟩
  · exact Or.inl (hsame ▸ h)

theorem Front.resume_running {front : Front} {answer : Answer}
    (h : front.resume answer = .running task) :
    front = .running task ∨ front = .admitting task := by
  unfold Front.resume at h
  split at h
  all_goals try split at h
  all_goals first
    | (cases h; exact Or.inr rfl)
    | exact Or.inl h
    | cases h

theorem Front.follow_running {task' : Task} {before after : Submit} {resp : Response}
    (h : Front.follow task' before after resp = .running task) : task' = task := by
  unfold Front.follow at h
  split at h
  all_goals try split at h
  all_goals cases h
  rfl

theorem Front.begin_cases (userID : UserID) (header : String) (input : InferenceInput) :
    Front.begin userID header input = .invalid ∨
      ∃ task, Front.begin userID header input = .claim task := by
  unfold Front.begin
  split
  · exact Or.inr ⟨_, rfl⟩
  · exact Or.inl rfl

theorem Step.running (he : Step cfg p e q) (h : q.fronts i = .running task) :
    p.fronts i = .running task ∨ (p.fronts i = .admitting task ∧ q.system = p.system) := by
  -- the second half of a `Submit` stays with its task
  have hstep := he.front i
  generalize q.fronts i = next at hstep h
  cases hstep with
  | same => exact Or.inl h
  | @began userID header input =>
    rcases Front.begin_cases userID header input with hbegin | ⟨_, hbegin⟩ <;>
      cases h.symm.trans hbegin
  | answered =>
    rcases Front.resume_running h with hrunning | hadmitting
    · exact Or.inl hrunning
    · exact Or.inr ⟨hadmitting, he.front_system⟩
  | followed hrunning =>
    rw [← Front.follow_running h]
    exact Or.inl hrunning

theorem Front.early_resume {front : Front} {answer : Answer}
    (h : (front.resume answer).early = true) : front.early = true := by
  unfold Front.resume at h
  split at h
  all_goals try split at h
  all_goals first
    | rfl
    | exact h

theorem Front.follow_early {before after : Submit} {resp : Response} :
    (Front.follow task before after resp).early = false := by
  unfold Front.follow
  split
  all_goals try split
  all_goals rfl

theorem Step.early (he : Step cfg p e q) (h : (q.fronts i).early = true) :
    (p.fronts i).early = true ∧ q.system.submits i = p.system.submits i := by
  -- before its second half a `Submit` leaves the system alone
  have hearly : (p.fronts i).early = true := by
    have hstep := he.front i
    generalize q.fronts i = next at hstep h
    cases hstep with
    | same => exact h
    | began hstart =>
      rw [hstart]
      rfl
    | answered => exact Front.early_resume h
    | followed =>
      rw [Front.follow_early] at h
      cases h
  refine ⟨hearly, ?_⟩
  rcases he.system with ⟨se, rfl, hallowed, hs⟩ | ⟨-, hsame⟩
  · rcases hs.submit i with hsame | ⟨req, resp, rfl, -⟩
    · exact hsame
    · have hsubmit : SubmitAllowed p i req := hallowed.1
      cases hfront : p.fronts i with
      | running task =>
        rw [hfront] at hearly
        cases hearly
      | _ => simp [SubmitAllowed, hfront] at hsubmit
  · rw [hsame]

/-- The reverse key of a job leads where it led before, unless `SetJobID` has just bound the job. -/
theorem Step.link {v : Redis.Volatile String} (he : Step cfg p e q)
    (h : q.idempotency.links.lookup j = some v) :
    (∃ v', p.idempotency.links.lookup j = some v' ∧ v'.value = v.value) ∨
      ∃ i task u resp, e = .system (.call (.submit i) (.external (.setJobID j)) resp) ∧
        p.fronts i = .running task ∧ p.system.submits i = .bind j u ∧
        v.value = task.idempotencyKey := by
  cases hop : idempotencyOp cfg p e with
  | none =>
    rw [he.idempotency_none hop] at h
    exact Or.inl ⟨v, h, rfl⟩
  | some op =>
    rw [he.idempotency_some hop] at h
    rcases linked_of_perform h with hold | ⟨userID, header, rfl, hvalue⟩
    · exact Or.inl hold
    · right
      cases issued_of_idempotencyOp hop with
      | @bind i task _ resp hrunning =>
        obtain ⟨u, hbind⟩ := Submit.bind_of_requests he.service.2.call.1
        exact ⟨i, task, u, resp, rfl, hrunning, hbind, hvalue⟩

/-- Every job that waits or is executed was enqueued by a `Submit`, and its reverse key leads to the
key of that `Submit`. -/
structure Traced (a : Audit) : Prop where
  homed : Homed a.state.system
  fresh : ∀ i, (a.state.fronts i).early = true → a.state.system.submits i = .create
  sole : ∀ i i' j u u', (a.state.system.submits i).owner = some (j, u) →
    (a.state.system.submits i').owner = some (j, u') → i = i'
  unlogged : ∀ i j u key, (a.state.system.submits i).owner = some (j, u) → (key, j) ∉ a.log
  tied : ∀ i task j u v, a.state.fronts i = .running task →
    (a.state.system.submits i).owner = some (j, u) →
    a.state.idempotency.links.lookup j = some v → v.value = task.idempotencyKey
  linkRow : ∀ j v, a.state.idempotency.links.lookup j = some v →
    a.state.system.stores.jobs.lookup j ≠ none
  logRow : ∀ key j, (key, j) ∈ a.log → a.state.system.stores.jobs.lookup j ≠ none
  home : ∀ key j v, (key, j) ∈ a.log → a.state.idempotency.links.lookup j = some v → v.value = key
  queued : ∀ u j, j ∈ a.state.system.stores.redis.queue u → ∃ key, (key, j) ∈ a.log
  executed : ∀ i j, (a.state.system.workers i).executes = some j → ∃ key, (key, j) ∈ a.log

theorem Traced.initial : Traced Audit.initial := by
  refine ⟨Homed.initial, ?_, ?_, ?_, ?_, ?_, ?_, ?_, ?_, ?_⟩ <;>
    simp [Audit.initial, State.initial, System.initial, Scheduler.State.empty, Submit.owner,
      Worker.executes, Store.empty]

theorem AuditStep.step (he : AuditStep cfg a e b) : Step cfg a.state e b.state :=
  (loggedStep_inv he).1

theorem mem_log (he : AuditStep cfg a e b) (h : (key, j) ∈ b.log) :
    (key, j) ∈ a.log ∨ enqueued cfg a.state e = some (key, j) := by
  rw [(loggedStep_inv he).2, List.mem_append, Option.mem_toList] at h
  exact h

theorem mem_log_of_mem (he : AuditStep cfg a e b) (h : (key, j) ∈ a.log) : (key, j) ∈ b.log := by
  rw [(loggedStep_inv he).2]
  exact List.mem_append_left _ h

theorem mem_log_of_enqueued (he : AuditStep cfg a e b)
    (h : enqueued cfg a.state e = some (key, j)) : (key, j) ∈ b.log := by
  rw [(loggedStep_inv he).2, h]
  exact List.mem_append_right _ (by simp)

theorem Traced.owner_row (h : Traced a)
    (hown : (a.state.system.submits i).owner = some (j, u)) :
    a.state.system.stores.jobs.lookup j ≠ none := by
  obtain ⟨row, hrow, -⟩ := h.homed.submits i j u hown
  rw [show a.state.system.stores.jobs.lookup j = some row from hrow]
  simp

theorem Traced.owner_of_running (h : Traced a) (he : Step cfg a.state e q)
    (hrunning : q.fronts i = .running task) (hown : (q.system.submits i).owner = some (j, u)) :
    a.state.fronts i = .running task := by
  rcases he.running hrunning with hold | ⟨hadmitting, hsame⟩
  · exact hold
  · rw [hsame, h.fresh i (by rw [hadmitting]; rfl)] at hown
    cases hown

section

variable (h : Traced a) (he : AuditStep cfg a e b)

include h he

theorem Traced.sole_step {i i' : ℕ} {u u' : UserID}
    (hown : (b.state.system.submits i).owner = some (j, u))
    (hown' : (b.state.system.submits i').owner = some (j, u')) : i = i' := by
  have hstep := AuditStep.step he
  rcases hstep.owner hown with hold | ⟨rfl, hnew⟩
  · rcases hstep.owner hown' with hold' | ⟨rfl, hnew⟩
    · exact h.sole i i' j u u' hold hold'
    · exact absurd hnew (h.owner_row hold)
  · rcases hstep.owner hown' with hold' | ⟨heq, -⟩
    · exact absurd hnew (h.owner_row hold')
    · cases heq
      rfl

theorem Traced.unlogged_step (hown : (b.state.system.submits i).owner = some (j, u)) :
    (key, j) ∉ b.log := by
  have hstep := AuditStep.step he
  intro hlog
  rcases hstep.owner hown with hold | ⟨rfl, hnew⟩
  · rcases mem_log he hlog with hlog | hnote
    · exact h.unlogged i j u key hold hlog
    · -- the owner has just enqueued the job
      obtain ⟨i', task, u', resp, rfl, -, -, hpush, hended⟩ := enqueued_inv hstep hnote
      obtain rfl := h.sole i i' j u u' hold (by rw [hpush]; rfl)
      rw [hended] at hown
      cases hown
  · rcases mem_log he hlog with hlog | hnote
    · exact h.logRow key j hlog hnew
    · obtain ⟨i', task, u', resp, heq, -⟩ := enqueued_inv hstep hnote
      cases heq

theorem Traced.tied_step {v : Redis.Volatile String} (hrunning : b.state.fronts i = .running task)
    (hown : (b.state.system.submits i).owner = some (j, u))
    (hlink : b.state.idempotency.links.lookup j = some v) : v.value = task.idempotencyKey := by
  have hstep := AuditStep.step he
  have hfront := h.owner_of_running hstep hrunning hown
  rcases hstep.link hlink with
    ⟨v', hlink', hvalue⟩ | ⟨i', task', u', resp, rfl, hfront', hbind, hvalue⟩
  · rcases hstep.owner hown with hold | ⟨-, hnew⟩
    · exact hvalue.symm.trans (h.tied i task j u v' hfront hold hlink')
    · exact absurd hnew (h.linkRow j v' hlink')
  · rcases hstep.owner hown with hold | ⟨heq, -⟩
    · obtain rfl := h.sole i i' j u u' hold (by rw [hbind]; rfl)
      obtain rfl := Front.running.inj (hfront.symm.trans hfront')
      exact hvalue
    · cases heq

theorem Traced.linkRow_step {v : Redis.Volatile String}
    (hlink : b.state.idempotency.links.lookup j = some v) :
    b.state.system.stores.jobs.lookup j ≠ none := by
  have hstep := AuditStep.step he
  apply hstep.row_isSome
  rcases hstep.link hlink with ⟨v', hlink', -⟩ | ⟨i, task, u, resp, -, -, hbind, -⟩
  · exact h.linkRow j v' hlink'
  · exact h.owner_row (i := i) (u := u) (by rw [hbind]; rfl)

theorem Traced.logRow_step (hlog : (key, j) ∈ b.log) :
    b.state.system.stores.jobs.lookup j ≠ none := by
  have hstep := AuditStep.step he
  apply hstep.row_isSome
  rcases mem_log he hlog with hlog | hnote
  · exact h.logRow key j hlog
  · obtain ⟨i, task, u, resp, -, -, -, hpush, -⟩ := enqueued_inv hstep hnote
    exact h.owner_row (i := i) (u := u) (by rw [hpush]; rfl)

theorem Traced.home_step {v : Redis.Volatile String} (hlog : (key, j) ∈ b.log)
    (hlink : b.state.idempotency.links.lookup j = some v) : v.value = key := by
  have hstep := AuditStep.step he
  rcases hstep.link hlink with ⟨v', hlink', hvalue⟩ | ⟨i, task, u, resp, rfl, -, hbind, -⟩
  · refine hvalue.symm.trans ?_
    rcases mem_log he hlog with hlog | hnote
    · exact h.home key j v' hlog hlink'
    · obtain ⟨i, task, u, resp, -, hrunning, rfl, hpush, -⟩ := enqueued_inv hstep hnote
      exact h.tied i task j u v' hrunning (by rw [hpush]; rfl) hlink'
  · -- a job is bound by its owner, so before it is enqueued
    rcases mem_log he hlog with hlog | hnote
    · exact absurd hlog (h.unlogged i j u key (by rw [hbind]; rfl))
    · obtain ⟨_, _, _, _, heq, -⟩ := enqueued_inv hstep hnote
      cases heq

theorem Traced.queued_step (hrec : e.byRecovery = false)
    (hmem : j ∈ b.state.system.stores.redis.queue u) : ∃ key, (key, j) ∈ b.log := by
  have hold : j ∈ a.state.system.stores.redis.queue u → ∃ key, (key, j) ∈ b.log := by
    intro hmem
    obtain ⟨key, hkey⟩ := h.queued u j hmem
    exact ⟨key, mem_log_of_mem he hkey⟩
  rcases (AuditStep.step he).system with ⟨se, rfl, hallowed, hs⟩ | ⟨-, hsame⟩
  · rcases hs.redis with ⟨pe, hpe, hredis⟩ | ⟨-, hsame⟩
    · rcases hredis.effect.mem_queue hmem with hmem | hpush
      · exact hold hmem
      · obtain ⟨key, hkey⟩ := enqueued_of_pushed hs hallowed hrec hpe hpush
        exact ⟨key, mem_log_of_enqueued he hkey⟩
    · exact hold (hsame ▸ hmem)
  · exact hold (hsame ▸ hmem)

theorem Traced.executed_step (hexec : (b.state.system.workers i).executes = some j) :
    ∃ key, (key, j) ∈ b.log := by
  have hold : ∃ key, (key, j) ∈ a.log := by
    rcases (AuditStep.step he).system with ⟨se, rfl, -, hs⟩ | ⟨-, hsame⟩
    · rcases hs.executes hexec with hold | ⟨pe, hpe, hclaim⟩
      · exact h.executed i j hold
      · obtain ⟨u, hu⟩ := (hs.effect hpe).mem_queue_of_claims hclaim
        exact h.queued u j hu
    · exact h.executed i j (hsame ▸ hexec)
  obtain ⟨key, hkey⟩ := hold
  exact ⟨key, mem_log_of_mem he hkey⟩

theorem Traced.step (hrec : e.byRecovery = false) : Traced b where
  homed := by
    rcases (AuditStep.step he).system with ⟨se, -, -, hs⟩ | ⟨-, hsame⟩
    · exact h.homed.step hs
    · exact hsame ▸ h.homed
  fresh i hearly := by
    obtain ⟨hold, hsame⟩ := (AuditStep.step he).early hearly
    exact hsame.trans (h.fresh i hold)
  sole _ _ _ _ _ := h.sole_step he
  unlogged _ _ _ _ := h.unlogged_step he
  tied _ _ _ _ _ := h.tied_step he
  linkRow _ _ := h.linkRow_step he
  logRow _ _ := h.logRow_step he
  home _ _ _ := h.home_step he
  queued _ _ := h.queued_step he hrec
  executed _ _ := h.executed_step he

end

end InferenceQueue.Platform

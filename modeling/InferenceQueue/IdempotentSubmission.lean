import InferenceQueue.SubmissionLog

namespace InferenceQueue.Service

def Submit.bound : Submit → Option JobID
  | deadline j _ | push j _ => some j
  | _ => none

theorem Submit.bound_resume {p : Submit} {req : Request} {resp : Response} {j : JobID}
    (h : (p.resume req resp).bound = some j) :
    p.bound = some j ∨ ∃ u, p = .bind j u ∧ resp = .flag true := by
  unfold Submit.resume at h
  split at h
  all_goals try split_ifs at h
  all_goals first
    | exact Or.inl h
    | (cases h; exact Or.inr ⟨_, rfl, rfl⟩)
    | cases h

end InferenceQueue.Service

namespace InferenceQueue.Platform

open Scheduler Service Idempotency Coalescing Redis

/-- The task of a `Submit` that has claimed its key and is not through with it. -/
def Front.holder : Front → Option Task
  | coalesce task | admitting task | running task | forget task _ _ => some task
  | release _ .rejection => none
  | release task _ => some task
  | _ => none

def Front.Holds (key : String) (front : Front) : Prop :=
  ∃ task, front.holder = some task ∧ task.idempotencyKey = key

inductive KeyStep (cfg : Config) (p : State) (key : String) :
    Event → Option (Volatile Record) → Prop
  | same {e} : KeyStep cfg p key e (p.idempotency.records.lookup key)
  | claimed {i task answer v} (hfront : p.fronts i = .claim task)
      (hnone : p.idempotency.records.lookup key = none) (hstatus : v.value.status = .inFlight) :
      KeyStep cfg p key (.front i answer) (some v)
  | bound {i task j u resp v} (hfront : p.fronts i = .running task)
      (hkey : task.idempotencyKey = key) (hbind : p.system.submits i = .bind j u)
      (hrecord : p.idempotency.records.lookup key = some v) :
      KeyStep cfg p key (.system (.call (.submit i) (.external (.setJobID j)) resp))
        (some (v.set { v.value with jobID := some j }))
  | deleted {i task ending clean answer} (hfront : p.fronts i = .forget task ending clean)
      (hkey : task.idempotencyKey = key) : KeyStep cfg p key (.front i answer) none
  | finished {th j o resp v v' l}
      (hreq : Requests cfg.service p.system (.external (.transitionStatus j o)) th)
      (hlink : p.idempotency.links.lookup j = some l) (hkey : l.value = key)
      (hrecord : p.idempotency.records.lookup key = some v) (hopen : v.value.status = .inFlight)
      (hjob : v'.value.jobID = v.value.jobID) (hstatus : v'.value.status = recordStatus o) :
      KeyStep cfg p key (.system (.call th (.external (.transitionStatus j o)) resp)) (some v')

def Kept (key : String) (p : State) : Prop :=
  ∀ v ∈ p.idempotency.records.lookup key, v.Live p.clock

instance (key : String) (p : State) : Decidable (Kept key p) := by
  unfold Kept
  infer_instance

/-- Submits and workers, with no expiry of the record. -/
def Submitting (key : String) (_ : List Event) (a : Audit) (e : Event) : Prop :=
  Kept key a.state ∧ e.byRecovery = false

instance (key : String) (past : List Event) (a : Audit) (e : Event) :
    Decidable (Submitting key past a e) := by
  unfold Submitting
  infer_instance

variable {cfg : Config} {p q : State} {e : Event} {i : ℕ} {j : JobID} {u : UserID} {key : String}
  {a b : Audit} {task : Task} {answer : Answer}
  {r : IdempotencyResult} {past tr rest : List Event}

theorem Front.holder_resume {front : Front} (h : (front.resume answer).holder = some task) :
    front.holder = some task ∨
      (front = .claim task ∧ ∃ r, answer = .claimed r ∧ r.action = .new) := by
  unfold Front.resume at h
  split at h
  all_goals try split at h
  all_goals first
    | exact Or.inl h
    | (cases h; exact Or.inr ⟨rfl, _, rfl, ‹_›⟩)
    | cases h
  next ending hne =>
  left
  cases ending <;> first | rfl | exact absurd rfl hne

theorem Front.holder_follow {task' : Task} {before after : Submit} {resp : Response}
    (h : (Front.follow task' before after resp).holder = some task) : task' = task := by
  unfold Front.follow at h
  split at h
  all_goals try split at h
  all_goals cases h
  all_goals rfl

theorem Front.resume_returned {front : Front} {ok : Bool}
    (h : front.resume answer = .returned task (some j) ok) :
    front = .returned task (some j) ok ∨
      (front = .claim task ∧ ∃ r, answer = .claimed r ∧ r.action = .replay ∧ r.jobID = some j) := by
  unfold Front.resume at h
  split at h
  all_goals try split at h
  all_goals first
    | exact Or.inl h
    | (simp only [Front.returned.injEq] at h; obtain ⟨rfl, hjob, -⟩ := h
       exact Or.inr ⟨rfl, _, rfl, ‹_›, hjob⟩)
    | cases h

theorem Front.follow_returned {task' : Task} {before after : Submit} {resp : Response} {ok : Bool}
    (h : Front.follow task' before after resp = .returned task (some j) ok) :
    task' = task ∧ ∃ u r, before = .push j u ∧ resp = .reply (.enqueue (.ok r)) := by
  unfold Front.follow at h
  split at h
  all_goals try split at h
  all_goals cases h
  exact ⟨rfl, _, _, rfl, rfl⟩

theorem Front.follow_ended {resp : Response} :
    ¬(Front.follow task (.push j u) .ended resp).Holds key := by
  rintro ⟨task', hholder, -⟩
  simp only [Front.follow] at hholder
  split at hholder <;> cases hholder

theorem Step.claimed (he : Step cfg p (.front i (.claimed r)) q)
    (hfront : p.fronts i = .claim task) :
    (r, q.idempotency) = claimOrGet p.clock task.request.userID task.header
      cfg.inference.idempotencyTTL p.idempotency := by
  have hop : idempotencyOp cfg p (.front i (.claimed r)) =
      some (.claimOrGet task.request.userID task.header cfg.inference.idempotencyTTL) := by
    simp [idempotencyOp, Front.idempotencyOp, hfront]
  have hanswers := he.answers
  rw [hfront] at hanswers
  exact Prod.ext hanswers (he.idempotency_some hop)

theorem Step.holds (he : Step cfg p e q) (h : (q.fronts i).Holds key) :
    (p.fronts i).Holds key ∨ ∃ task r, e = .front i (.claimed r) ∧ p.fronts i = .claim task ∧
      task.idempotencyKey = key ∧ p.idempotency.records.get p.clock key = none := by
  -- a new holder has found no record
  obtain ⟨task, hholder, rfl⟩ := h
  have hstep := he.front i
  generalize q.fronts i = next at hstep hholder
  cases hstep with
  | same => exact Or.inl ⟨task, hholder, rfl⟩
  | @began userID header input =>
    rcases Front.begin_cases userID header input with hbegin | ⟨_, hbegin⟩ <;>
      rw [hbegin] at hholder <;> cases hholder
  | answered =>
    rcases Front.holder_resume hholder with hold | ⟨hclaim, r, rfl, hnew⟩
    · exact Or.inl ⟨task, hold, rfl⟩
    · refine Or.inr ⟨task, r, rfl, hclaim, rfl, ?_⟩
      have hresult := he.claimed hclaim
      cases hget : p.idempotency.records.get p.clock task.idempotencyKey with
      | none => rfl
      | some record =>
        rw [claimOrGet_of_some hget] at hresult
        rw [(Prod.mk.inj hresult).1] at hnew
        cases hstatus : record.status <;> rw [hstatus] at hnew <;> cases hnew
  | followed hrunning =>
    obtain rfl := Front.holder_follow hholder
    left
    rw [hrunning]
    exact ⟨_, rfl, rfl⟩

theorem Kept.get_eq_none (h : Kept key p) :
    p.idempotency.records.get p.clock key = none ↔ p.idempotency.records.lookup key = none := by
  rw [Keyspace.get]
  cases hv : p.idempotency.records.lookup key with
  | none => simp
  | some v => simp [fetch, h v hv]

theorem expire_pos {α : Type*} {now ttl : ℕ} (h : 0 < ttl) (value : α) :
    expire now ttl value = some ⟨value, some (now + 1000 * ttl)⟩ := if_neg (Nat.ne_of_gt h)

section

variable (httl : 0 < cfg.inference.idempotencyTTL)
  (hcompleted : 0 < cfg.inference.completedIdempotencyTTL)

include httl hcompleted in
theorem Step.keyStep (he : Step cfg p e q) (hkept : Kept key p) :
    KeyStep cfg p key e (q.idempotency.records.lookup key) := by
  rcases he.record key with hsame | ⟨op, hop, hchange⟩
  · rw [hsame]
    exact .same
  · have hissued := issued_of_idempotencyOp hop
    generalize q.idempotency.records.lookup key = next at hchange
    cases hchange with
    | same => exact .same
    | claimed hkey hfree =>
      cases hissued with
      | claim hfront =>
        rw [expire_pos httl]
        exact .claimed hfront (hkept.get_eq_none.mp hfree) rfl
    | bound hkey hrecord =>
      cases hissued with
      | bind hfront =>
        obtain ⟨u, hbind⟩ := Submit.bind_of_requests he.service.2.call.1
        exact .bound hfront hkey hbind hrecord
    | deleted hkey =>
      cases hissued with
      | forget hfront => exact .deleted hfront hkey
    | finished htransitions hlink hrecord hopen =>
      obtain ⟨l, hl, -, hkey⟩ := fetch_some.mp hlink
      obtain ⟨v, hv, -, rfl⟩ := fetch_some.mp hrecord
      rw [expire_pos hcompleted]
      cases hissued with
      | transition | recover =>
        cases htransitions
        exact .finished he.service.2.call.1 hl hkey hv hopen rfl rfl
      | _ => cases htransitions

/-- One `Submit` at a time holds the key, none any more once a job is enqueued under it, and the
record tells which job that is. -/
structure Keyed (key : String) (a : Audit) : Prop where
  traced : Traced a
  unique : ∀ i i', (a.state.fronts i).Holds key → (a.state.fronts i').Holds key → i = i'
  present : ∀ i, (a.state.fronts i).Holds key → a.state.idempotency.records.lookup key ≠ none
  bound : ∀ i task j, a.state.fronts i = .running task → task.idempotencyKey = key →
    (a.state.system.submits i).bound = some j →
    ∃ v, a.state.idempotency.records.lookup key = some v ∧ v.value.jobID = some j
  locked : ∀ j, (key, j) ∈ a.log →
    (∃ v, a.state.idempotency.records.lookup key = some v ∧ v.value.jobID = some j) ∧
      ∀ i, ¬(a.state.fronts i).Holds key
  returned : ∀ i task j ok, a.state.fronts i = .returned task (some j) ok →
    task.idempotencyKey = key → (key, j) ∈ a.log
  completed : ∀ v, a.state.idempotency.records.lookup key = some v →
    v.value.status = .completed → ∃ j, (key, j) ∈ a.log

theorem Keyed.initial : Keyed key Audit.initial := by
  refine ⟨Traced.initial, ?_, ?_, ?_, ?_, ?_, ?_⟩ <;>
    simp [Audit.initial, State.initial, Front.Holds, Front.holder, Store.empty]

theorem Front.holds_running (task : Task) : (Front.running task).Holds task.idempotencyKey :=
  ⟨task, rfl, rfl⟩

theorem Front.holds_forget (task : Task) (ending : Ending) (clean : Bool) :
    (Front.forget task ending clean).Holds task.idempotencyKey := ⟨task, rfl, rfl⟩

theorem Front.forget_resume (task : Task) (ending : Ending) (clean : Bool) :
    ¬((Front.forget task ending clean).resume answer).Holds key := by
  rintro ⟨task', hholder, -⟩
  cases ending <;> cases hholder

def Quiet (key : String) (p : State) : Prop :=
  ∀ i, (p.fronts i).Holds key →
    (∀ task ending clean, p.fronts i ≠ .forget task ending clean) ∧
      ∀ j u, p.system.submits i ≠ .bind j u

theorem KeyStep.keeps {next : Option (Volatile Record)} {v : Volatile Record}
    (h : KeyStep cfg p key e next) (hv : p.idempotency.records.lookup key = some v)
    (hquiet : Quiet key p) :
    ∃ v', next = some v' ∧ v'.value.jobID = v.value.jobID ∧
      (v.value.status = .inFlight ∨ v'.value.status = v.value.status) := by
  cases h with
  | same => exact ⟨v, hv, rfl, Or.inr rfl⟩
  | claimed _ hnone => cases hnone.symm.trans hv
  | @bound i task _ _ _ _ hfront hkey hbind =>
    exact absurd hbind ((hquiet i (hkey ▸ hfront ▸ Front.holds_running task)).2 _ _)
  | @deleted i task _ _ _ hfront hkey =>
    exact absurd hfront ((hquiet i (hkey ▸ hfront ▸ Front.holds_forget task _ _)).1 _ _ _)
  | @finished _ _ _ _ v₀ v' _ _ _ _ hv' hopen hjob =>
    obtain rfl := Option.some.inj (hv'.symm.trans hv)
    exact ⟨v', rfl, hjob, Or.inl hopen⟩

theorem Keyed.unique_step (h : Keyed key a) (he : AuditStep cfg a e b) (hkept : Kept key a.state)
    (i i' : ℕ) (hi : (b.state.fronts i).Holds key) (hi' : (b.state.fronts i').Holds key) :
    i = i' := by
  have hstep := AuditStep.step he
  rcases hstep.holds hi with hold | ⟨task, r, rfl, -, -, hnone⟩
  · rcases hstep.holds hi' with hold' | ⟨task, r, rfl, -, -, hnone⟩
    · exact h.unique i i' hold hold'
    · exact absurd (hkept.get_eq_none.mp hnone) (h.present i hold)
  · rcases hstep.holds hi' with hold' | ⟨task', r', heq, -⟩
    · exact absurd (hkept.get_eq_none.mp hnone) (h.present i' hold')
    · cases heq
      rfl

include httl hcompleted in
theorem Keyed.present_step (h : Keyed key a) (he : AuditStep cfg a e b)
    (hkept : Kept key a.state) (i : ℕ) (hi : (b.state.fronts i).Holds key) :
    b.state.idempotency.records.lookup key ≠ none := by
  have hstep := AuditStep.step he
  rcases hstep.holds hi with hold | ⟨task, r, rfl, hclaim, rfl, hnone⟩
  · have hsome := h.present i hold
    have hrecord := hstep.keyStep httl hcompleted hkept
    generalize b.state.idempotency.records.lookup key = next at hrecord
    cases hrecord with
    | same => exact hsome
    | @deleted i' task ending clean answer hfront hkey =>
      -- the holder itself has deleted the record, and holds it no longer
      subst hkey
      obtain rfl := h.unique i i' hold (hfront ▸ Front.holds_forget task ending clean)
      rw [hstep.front_self, hfront] at hi
      exact absurd hi (Front.forget_resume task ending clean)
    | _ => simp
  · have hresult := hstep.claimed hclaim
    rw [claimOrGet_of_none hnone] at hresult
    rw [(Prod.mk.inj hresult).2]
    change Finmap.lookup task.idempotencyKey (Keyspace.put _ task.idempotencyKey _) ≠ none
    rw [Keyspace.lookup_put, if_pos rfl, expire_pos httl]
    simp

theorem Step.bound_answered {resp : Response} (he : Step cfg p
      (.system (.call (.submit i) (.external (.setJobID j)) resp)) q)
    (hfront : p.fronts i = .running task) (hresp : resp = .flag true) :
    ∃ v, q.idempotency.records.lookup task.idempotencyKey = some v ∧ v.value.jobID = some j := by
  subst hresp
  have hop : idempotencyOp cfg p
      (.system (.call (.submit i) (.external (.setJobID j)) (.flag true))) =
      some (.setJobID task.request.userID task.header j) := by
    simp [idempotencyOp, externalOp, hfront]
  have hanswer : ExternalAnswers cfg p (.submit i) (.setJobID j) true := he.service.1.2
  simp only [ExternalAnswers, hfront] at hanswer
  rw [he.idempotency_some hop]
  change ∃ v, (setJobIDScript p.clock task.idempotencyKey j p.idempotency).2.records.lookup
    task.idempotencyKey = some v ∧ _
  rcases setJobIDScript_cases p.clock task.idempotencyKey j p.idempotency with
    ⟨-, heq⟩ | ⟨v, -, -, heq⟩
  · rw [heq] at hanswer
    cases hanswer
  · rw [heq, Keyspace.lookup_put, if_pos rfl]
    exact ⟨_, rfl, rfl⟩

include httl hcompleted in
theorem Keyed.bound_step (h : Keyed key a) (he : AuditStep cfg a e b) (hkept : Kept key a.state)
    (i : ℕ) (task : Task) (j : JobID) (hrunning : b.state.fronts i = .running task)
    (hkey : task.idempotencyKey = key) (hbound : (b.state.system.submits i).bound = some j) :
    ∃ v, b.state.idempotency.records.lookup key = some v ∧ v.value.jobID = some j := by
  have hstep := AuditStep.step he
  subst hkey
  have hfront : a.state.fronts i = .running task := by
    rcases hstep.running hrunning with hold | ⟨hadmitting, hsame⟩
    · exact hold
    · rw [hsame, h.traced.fresh i (by rw [hadmitting]; rfl)] at hbound
      cases hbound
  have hcases : (a.state.system.submits i).bound = some j ∨ ∃ u,
      a.state.system.submits i = .bind j u ∧
        e = .system (.call (.submit i) (.external (.setJobID j)) (.flag true)) := by
    rcases hstep.system with ⟨se, rfl, -, hs⟩ | ⟨-, hsame⟩
    · rcases hs.submit i with hsame | ⟨req, resp, rfl, hreq, hnext⟩
      · exact Or.inl (hsame ▸ hbound)
      · rw [hnext] at hbound
        rcases Submit.bound_resume hbound with hold | ⟨u, hbind, rfl⟩
        · exact Or.inl hold
        · rw [hbind] at hreq
          obtain rfl := hreq
          exact Or.inr ⟨u, hbind, rfl⟩
    · exact Or.inl (hsame ▸ hbound)
  rcases hcases with hold | ⟨u, hbind, rfl⟩
  · obtain ⟨v, hv, hjob⟩ := h.bound i task j hfront rfl hold
    have hquiet : Quiet task.idempotencyKey a.state := by
      -- the one holder is past its binding
      intro i' hi'
      obtain rfl := h.unique i i' (hfront ▸ Front.holds_running task) hi'
      refine ⟨by simp [hfront], fun j' u hbind => ?_⟩
      rw [hbind] at hold
      cases hold
    obtain ⟨v', hv', hjob', -⟩ := (hstep.keyStep httl hcompleted hkept).keeps hv hquiet
    exact ⟨v', hv', hjob'.trans hjob⟩
  · exact hstep.bound_answered hfront rfl

include httl hcompleted in
/-- Nobody else takes the key once a job is enqueued under it. -/
theorem Keyed.locked_step (h : Keyed key a) (he : AuditStep cfg a e b)
    (hkept : Kept key a.state) (j : JobID) (hlog : (key, j) ∈ b.log) :
    (∃ v, b.state.idempotency.records.lookup key = some v ∧ v.value.jobID = some j) ∧
      ∀ i, ¬(b.state.fronts i).Holds key := by
  have hstep := AuditStep.step he
  rcases mem_log he hlog with hlog | hnote
  · obtain ⟨⟨v, hv, hjob⟩, hfree⟩ := h.locked j hlog
    refine ⟨?_, ?_⟩
    · obtain ⟨v', hv', hjob', -⟩ := (hstep.keyStep httl hcompleted hkept).keeps hv
        fun i hi => absurd hi (hfree i)
      exact ⟨v', hv', hjob'.trans hjob⟩
    · intro i hi
      rcases hstep.holds hi with hold | ⟨task, r, -, -, -, hnone⟩
      · exact hfree i hold
      · cases (hkept.get_eq_none.mp hnone).symm.trans hv
  · obtain ⟨i, task, u, resp, rfl, hrunning, rfl, hpush, hended⟩ := enqueued_inv hstep hnote
    have hholds : (a.state.fronts i).Holds task.idempotencyKey :=
      hrunning ▸ Front.holds_running task
    refine ⟨?_, ?_⟩
    · rw [hstep.idempotency_none rfl]
      exact h.bound i task j hrunning rfl (by rw [hpush]; rfl)
    · intro i' hi'
      rcases hstep.holds hi' with hold | ⟨_, _, heq, -⟩
      · -- the `Submit` that has enqueued the job was the one holder, and is done
        obtain rfl := h.unique i i' hholds hold
        rw [hstep.follow_self hrunning, hpush, hended] at hi'
        exact Front.follow_ended hi'
      · cases heq

theorem Keyed.replayed (h : Keyed key a) (he : AuditStep cfg a (.front i (.claimed r)) b)
    (hclaim : a.state.fronts i = .claim task) (hkey : task.idempotencyKey = key)
    (haction : r.action = .replay) : ∃ j, r.jobID = some j ∧ (key, j) ∈ a.log := by
  have hresult := (AuditStep.step he).claimed hclaim
  subst hkey
  cases hget : a.state.idempotency.records.get a.state.clock task.idempotencyKey with
  | none =>
    rw [claimOrGet_of_none hget] at hresult
    rw [(Prod.mk.inj hresult).1] at haction
    cases haction
  | some record =>
    rw [claimOrGet_of_some hget] at hresult
    obtain ⟨rfl, -⟩ := Prod.mk.inj hresult
    obtain ⟨v, hv, -, rfl⟩ := fetch_some.mp hget
    have hstatus : v.value.status = .completed := by
      cases hstatus : v.value.status <;> rw [hstatus] at haction <;> cases haction
    obtain ⟨j, hlog⟩ := h.completed v hv hstatus
    obtain ⟨⟨v', hv', hjob⟩, -⟩ := h.locked j hlog
    obtain rfl := Option.some.inj (hv'.symm.trans hv)
    exact ⟨j, hjob, hlog⟩

theorem Keyed.returned_step (h : Keyed key a) (he : AuditStep cfg a e b) (i : ℕ) (task : Task)
    (j : JobID) (ok : Bool) (hret : b.state.fronts i = .returned task (some j) ok)
    (hkey : task.idempotencyKey = key) : (key, j) ∈ b.log := by
  have hstep := AuditStep.step he
  have hfront := hstep.front i
  generalize b.state.fronts i = next at hfront hret
  cases hfront with
  | same => exact mem_log_of_mem he (h.returned i task j ok hret hkey)
  | @began userID header input =>
    rcases Front.begin_cases userID header input with hbegin | ⟨_, hbegin⟩ <;>
      cases hret.symm.trans hbegin
  | answered =>
    rcases Front.resume_returned hret with hold | ⟨hclaim, r, rfl, haction, hjob⟩
    · exact mem_log_of_mem he (h.returned i task j ok hold hkey)
    · obtain ⟨j', hjob', hlog⟩ := h.replayed he hclaim hkey haction
      obtain rfl := Option.some.inj (hjob'.symm.trans hjob)
      exact mem_log_of_mem he hlog
  | @followed task' req resp hrunning =>
    obtain ⟨rfl, u, r, hpush, rfl⟩ := Front.follow_returned hret
    apply mem_log_of_enqueued he
    have hs := hstep.service.2
    have hreq : (a.state.system.submits i).requests req := hs.call.1
    rw [hpush] at hreq
    obtain rfl := hreq
    simp only [enqueued, hrunning, hs.performed_reply, Option.bind_some, Scheduler.Event.pushed,
      Option.map_some, hkey]

include httl hcompleted in
theorem Keyed.completed_step (h : Keyed key a) (he : AuditStep cfg a e b)
    (hok : Submitting key past a e) (v : Volatile Record)
    (hv : b.state.idempotency.records.lookup key = some v) (hstatus : v.value.status = .completed) :
    ∃ j, (key, j) ∈ b.log := by
  suffices hold : ∃ j, (key, j) ∈ a.log by
    obtain ⟨j, hlog⟩ := hold
    exact ⟨j, mem_log_of_mem he hlog⟩
  have hrecord := (AuditStep.step he).keyStep httl hcompleted hok.1
  generalize b.state.idempotency.records.lookup key = next at hrecord hv
  cases hrecord with
  | same => exact h.completed v hv hstatus
  | claimed _ _ hinFlight =>
    cases hv
    cases hinFlight.symm.trans hstatus
  | bound _ _ _ hold =>
    cases hv
    exact h.completed _ hold hstatus
  | deleted => cases hv
  | @finished th j o resp v' v'' l hreq hlink hkey _ _ _ hdone =>
    cases hv
    cases o with
    | failed => cases hdone.symm.trans hstatus
    | completed =>
      rcases hreq.completes with ⟨i, rfl, hexec⟩ | ⟨i, rfl⟩
      · -- what a worker executes was enqueued, and under the key its reverse key leads to
        obtain ⟨key', hlog⟩ := h.traced.executed i j hexec
        have hsame := h.traced.home key' j l hlog hlink
        exact ⟨j, by rwa [← hkey, hsame]⟩
      · cases hok.2

include httl hcompleted in
theorem Keyed.step (h : Keyed key a) (hok : Submitting key past a e) (he : AuditStep cfg a e b) :
    Keyed key b where
  traced := h.traced.step he hok.2
  unique := h.unique_step he hok.1
  present := h.present_step httl hcompleted he hok.1
  bound := h.bound_step httl hcompleted he hok.1
  locked := h.locked_step httl hcompleted he hok.1
  returned := h.returned_step he
  completed := h.completed_step httl hcompleted he hok

def Finished (key : String) (j : JobID) (a : Audit) : Prop :=
  (key, j) ∈ a.log ∧
    ∃ v, a.state.idempotency.records.lookup key = some v ∧ v.value.status = .completed

include httl hcompleted in
theorem Keyed.finished_step (h : Keyed key a) (he : AuditStep cfg a e b)
    (hkept : Kept key a.state) (hfin : Finished key j a) : Finished key j b := by
  obtain ⟨hlog, v, hv, hstatus⟩ := hfin
  obtain ⟨-, hfree⟩ := h.locked j hlog
  refine ⟨mem_log_of_mem he hlog, ?_⟩
  obtain ⟨v', hv', -, hopen | hsame⟩ :=
    ((AuditStep.step he).keyStep httl hcompleted hkept).keeps hv fun i hi => absurd hi (hfree i)
  · cases hopen.symm.trans hstatus
  · exact ⟨v', hv', hsame.trans hstatus⟩

/-- A `Submit` with the key whose `ClaimOrGet` succeeds returns `j`, and no job is created. -/
def Replays (cfg : Config) (key : String) (j : JobID) (_ : List Event) (a : Audit) (e : Event) :
    Prop :=
  ∀ i task r b, e = .front i (.claimed r) → a.state.fronts i = .claim task →
    task.idempotencyKey = key → AuditStep cfg a e b →
    b.state.fronts i = .returned task (some j) true ∧ b.state.system = a.state.system ∧
      b.state.system.submits i = .create

theorem Keyed.replays (h : Keyed key a) (hkept : Kept key a.state) (hfin : Finished key j a) :
    Replays cfg key j past a e := by
  rintro i task r b rfl hclaim rfl he
  have hstep := AuditStep.step he
  obtain ⟨hlog, v, hv, hstatus⟩ := hfin
  obtain ⟨⟨v', hv', hjob⟩, -⟩ := h.locked j hlog
  obtain rfl := Option.some.inj (hv'.symm.trans hv)
  have hget : a.state.idempotency.records.get a.state.clock task.idempotencyKey = some v'.value :=
    fetch_some.mpr ⟨v', hv, hkept v' hv, rfl⟩
  have hresult := hstep.claimed hclaim
  rw [claimOrGet_of_some hget, hstatus, hjob] at hresult
  obtain ⟨rfl, -⟩ := Prod.mk.inj hresult
  refine ⟨?_, hstep.front_system, ?_⟩
  · rw [hstep.front_self, hclaim]
    rfl
  · rw [hstep.front_system]
    exact h.traced.fresh i (by rw [hclaim]; rfl)

include httl hcompleted in
theorem Keyed.run (hpast : Run (AuditStep cfg) Audit.initial past a)
    (hok : Throughout (AuditStep cfg) Audit.initial past (Submitting key)) : Keyed key a := by
  refine hpast.guarded (fun _ a => Keyed key a) Keyed.initial ?_ hok
  intro past a e b h hok he
  exact h.step httl hcompleted hok he

/-- While the record of a key does not run out, at most one job is enqueued under the key, no
`Submit` returns another, and when the record is completed every later `Submit` returns it. -/
theorem idempotent_submission (httl : 0 < cfg.inference.idempotencyTTL)
    (hcompleted : 0 < cfg.inference.completedIdempotencyTTL)
    (hpast : Run (AuditStep cfg) Audit.initial past a) (h : Run (AuditStep cfg) a rest b)
    (hok : Throughout (AuditStep cfg) Audit.initial (past ++ rest) (Submitting key)) :
    (∀ j j', (key, j) ∈ b.log → (key, j') ∈ b.log → j = j') ∧
      (∀ i task j ok, b.state.fronts i = .returned task (some j) ok →
        task.idempotencyKey = key → (key, j) ∈ b.log) ∧
      ∀ r, a.state.idempotency.records.get a.state.clock key = some r → r.status = .completed →
        ∃ j, (key, j) ∈ a.log ∧ Throughout (AuditStep cfg) a rest (Replays cfg key j) := by
  have hkeyed : Keyed key a := Keyed.run httl hcompleted hpast hok.take
  have hkeyed' : Keyed key b := Keyed.run httl hcompleted (hpast.append h) hok
  refine ⟨?_, hkeyed'.returned, ?_⟩
  · intro j j' hlog hlog'
    obtain ⟨⟨v, hv, hjob⟩, -⟩ := hkeyed'.locked j hlog
    obtain ⟨⟨v', hv', hjob'⟩, -⟩ := hkeyed'.locked j' hlog'
    obtain rfl := Option.some.inj (hv'.symm.trans hv)
    exact Option.some.inj (hjob.symm.trans hjob')
  · intro r hr hstatus
    obtain ⟨v, hv, -, rfl⟩ := fetch_some.mp hr
    obtain ⟨j, hlog⟩ := hkeyed.completed v hv hstatus
    refine ⟨j, hlog, ?_⟩
    refine Throughout.of_invariant (fun _ m => Keyed key m ∧ Finished key j m)
      ⟨hkeyed, hlog, v, hv, hstatus⟩ ?_ ?_ h (hok.drop hpast)
    · rintro tr m e m' ⟨hm, hfin⟩ hok he
      exact ⟨hm.step httl hcompleted hok he, hm.finished_step httl hcompleted he hok.1 hfin⟩
    · rintro tr m e m' ⟨hm, hfin⟩ hok he
      exact hm.replays hok.1 hfin

end

/-- The first `Submit` is not admitted and gives the key back, the second enqueues a job while the
third finds the key taken, and the job completes. -/
def firstCompleted : List Event :=
  [.submit 0 alice "k" hello,
   .front 0 (.claimed ⟨.new, none⟩),
   .front 0 (.decided .proceed),
   .front 0 (.admitted false),
   .front 0 .deleted,
   .front 0 .deleted,
   .submit 1 alice "k" hello,
   .submit 2 alice "k" hello,
   .front 1 (.claimed ⟨.new, none⟩),
   .front 2 (.claimed ⟨.duplicateInFlight, none⟩),
   .front 1 (.decided .proceed),
   .front 1 (.admitted true)] ++
    calls (submitted 1 job1 alice ++ claiming 0 job1 alice :: generated 0 job1 alice ++
     [.call (.worker 0) (.markSelect .completed job1) (.result (.ok ())),
      .call (.worker 0) (.markUpdate .completed job1 1) (.result (.ok ())),
      .call (.worker 0) (.external (.transitionStatus job1 .completed)) (.flag true)])

def again : List Event :=
  [.submit 3 alice "k" hello, .front 3 (.claimed ⟨.replay, some job1⟩)]

theorem idempotent_submission_again :
    ∃ a b, Run (AuditStep smallPlatform) Audit.initial firstCompleted a ∧
      Run (AuditStep smallPlatform) a again b ∧
      b.log = [("idempotent:alice:inference:k", job1)] ∧
      ∃ j, ("idempotent:alice:inference:k", j) ∈ a.log ∧
        Throughout (AuditStep smallPlatform) a again
          (Replays smallPlatform "idempotent:alice:inference:k" j) := by
  obtain ⟨a, hpast, r, hr, hstatus⟩ := Run.exists_of_foldlM
    (loggedStep (step smallPlatform) (enqueued smallPlatform)) Audit.initial firstCompleted
    (fun a => ∃ r ∈ a.state.idempotency.records.get a.state.clock "idempotent:alice:inference:k",
      r.status = .completed) (by decide +kernel)
  obtain ⟨b, hrun, hlog⟩ := Run.exists_of_foldlM
    (loggedStep (step smallPlatform) (enqueued smallPlatform)) Audit.initial
    (firstCompleted ++ again) (fun b => b.log = [("idempotent:alice:inference:k", job1)])
    (by decide +kernel)
  have hrest := hrun.rest hpast
  have hok : Throughout (AuditStep smallPlatform) Audit.initial (firstCompleted ++ again)
      (Submitting "idempotent:alice:inference:k") := throughout_of_always (by decide +kernel)
  have hall := idempotent_submission (by decide) (by decide) hpast hrest hok
  exact ⟨a, b, hpast, hrest, hlog, hall.2.2 r hr hstatus⟩

end InferenceQueue.Platform

import InferenceQueue.SubmissionLog

namespace InferenceQueue.Platform

open Scheduler Service Idempotency Coalescing Redis

/-- A call of the `i`-th `Submit`, or time that passes. -/
def Event.alone (i : ℕ) : Event → Bool
  | .front k _ => k = i
  | .system (.tick _) => true
  | .system (.call (.submit k) _ _) => k = i
  | _ => false

/-- The deletions, `MarkFailed` and `TransitionStatus` are answered without an error. -/
def Compensated (p : State) (i : ℕ) : Event → Prop
  | .front _ answer =>
    match p.fronts i with
    | .release _ _ | .forget _ _ _ => answer = .deleted
    | _ => True
  | .system (.call _ _ resp) =>
    match p.system.submits i with
    | .failSelect _ _ | .failUpdate _ _ => resp = .result (.ok ())
    | .settle _ true => resp = .flag true
    | _ => True
  | _ => True

def Front.ended : Front → Bool
  | returned _ _ _ => true
  | _ => false

/-- The `i`-th `Submit` runs by itself until it returns, and its compensating calls succeed. -/
def Undisturbed (i : ℕ) (_ : List Event) (p : State) (e : Event) : Prop :=
  e.alone i = true ∧ (p.fronts i).ended = false ∧ Compensated p i e

instance (p : State) (i : ℕ) (e : Event) : Decidable (Compensated p i e) := by
  induction e using Event.casesOn with
  | submit => exact isTrue trivial
  | front k answer =>
    dsimp only [Compensated]
    generalize p.fronts i = front
    induction front using Front.casesOn <;> dsimp only <;> infer_instance
  | system se =>
    induction se using Service.Event.casesOn with
    | tick => exact isTrue trivial
    | call th req resp =>
      dsimp only [Compensated]
      generalize p.system.submits i = sub
      induction sub using Submit.casesOn with
      | settle jobID bound => induction bound using Bool.casesOn <;> dsimp only <;> infer_instance
      | _ => dsimp only; infer_instance

instance (i : ℕ) (past : List Event) (p : State) (e : Event) :
    Decidable (Undisturbed i past p e) :=
  inferInstanceAs (Decidable (_ ∧ _ ∧ _))

def newRecord (cfg : Config) (p : State) : Option (Volatile Record) :=
  expire p.clock cfg.inference.idempotencyTTL ⟨.inFlight, p.clock / 1000, none, none⟩

def FreshRow (p t : State) (j : JobID) : Prop :=
  p.system.stores.jobs.lookup j = none ∧ Open t.system j

def LinkedTo (task : Task) (t : State) (j : JobID) : Prop :=
  ∃ v, t.idempotency.links.lookup j = some v ∧ v.value = task.idempotencyKey

def NotInFlight (task : Task) (t : State) : Prop :=
  ∀ r, t.idempotency.records.get t.clock task.idempotencyKey = some r → r.status ≠ .inFlight

def KeyFree (cfg : Config) (task : Task) (t : State) : Prop :=
  t.coalescing.get t.clock (task.coalescingKey cfg) = none

/-- The coalescing keys when `TryCoalesce` has not let the request pass: they are as they were,
unless the call was carried out and its answer lost. -/
def afterRefusal (cfg : Config) (task : Task) (now : ℕ) (answer : Answer)
    (keys : Coalescing.Store) : Coalescing.Store :=
  if answer = .failed true then
    (tryCoalesce now cfg.inference.coalescingTTL (task.coalescingKey cfg) keys).2
  else keys

/-- Before the creation of the job nothing is in the tables. -/
structure Untouched (p t : State) (i : ℕ) : Prop where
  submit : t.system.submits i = .create
  rows : t.system.stores.jobs = p.system.stores.jobs

inductive Running (p t : State) (task : Task) : Submit → Prop
  | create (rows : t.system.stores.jobs = p.system.stores.jobs) : Running p t task .create
  | bind {j u} (row : FreshRow p t j) : Running p t task (.bind j u)
  | deadline {j u} (row : FreshRow p t j) (link : LinkedTo task t j) :
      Running p t task (.deadline j u)
  | push {j u} (row : FreshRow p t j) (link : LinkedTo task t j) : Running p t task (.push j u)
  | failSelect {j bound} (link : bound = true → LinkedTo task t j) :
      Running p t task (.failSelect j bound)
  | failUpdate {j bound} (link : bound = true → LinkedTo task t j) :
      Running p t task (.failUpdate j bound)
  | settle {j} (link : LinkedTo task t j) : Running p t task (.settle j true)

/-- Where the `Submit` stands after `tr`, and what it holds. -/
inductive Progress (cfg : Config) (p : State) (i : ℕ) (task : Task) (tr : List Event) (t : State) :
    Front → Prop
  | coalesce (at_start : Untouched p t i) (hnew : t.idempotency.records.lookup task.idempotencyKey =
      newRecord cfg p) (hkeys : t.coalescing = p.coalescing)
      (hnone : ∀ answer, .front i answer ∉ tr) : Progress cfg p i task tr t (.coalesce task)
  | admitting (at_start : Untouched p t i) (hproceed : .front i (.decided .proceed) ∈ tr) :
      Progress cfg p i task tr t (.admitting task)
  | running (hrunning : Running p t task (t.system.submits i))
      (hproceed : .front i (.decided .proceed) ∈ tr) : Progress cfg p i task tr t (.running task)
  | release {ending} (hrecord : ending = .rejection → NotInFlight task t)
      (hproceed : .front i (.decided .proceed) ∈ tr) :
      Progress cfg p i task tr t (.release task ending)
  | forget {ending clean} (hkey : KeyFree cfg task t)
      (hproceed : .front i (.decided .proceed) ∈ tr) :
      Progress cfg p i task tr t (.forget task ending clean)
  /-- turned away by `TryCoalesce` -/
  | refused {jobID ok answer} (hanswer : answer ≠ .decided .proceed)
      (honly : ∀ answer', .front i answer' ∈ tr ↔ answer' = answer)
      (hnew : t.idempotency.records.lookup task.idempotencyKey = newRecord cfg p)
      (hkeys : t.coalescing = afterRefusal cfg task t.clock answer p.coalescing) :
      Progress cfg p i task tr t (.returned task jobID ok)
  /-- the job is on a queue, or left to the orphan sweep -/
  | kept {j jobID ok} (row : FreshRow p t j) : Progress cfg p i task tr t (.returned task jobID ok)
  | cleared {jobID ok} (hrecord : NotInFlight task t) (hkey : KeyFree cfg task t)
      (hproceed : .front i (.decided .proceed) ∈ tr) :
      Progress cfg p i task tr t (.returned task jobID ok)

variable {cfg : Config} {p q t u : State} {i : ℕ} {task : Task} {tr : List Event} {e : Event}
  {answer : Answer} {req : Request} {resp : Response} {ms : ℕ} {j : JobID}
  {userID : UserID}

theorem NotInFlight.later (h : NotInFlight task t) (hclock : t.clock ≤ u.clock)
    (hsame : u.idempotency = t.idempotency) : NotInFlight task u := by
  intro r hr
  rw [hsame] at hr
  exact h r (fetch_earlier hclock hr)

theorem KeyFree.later (h : KeyFree cfg task t) (hclock : t.clock ≤ u.clock)
    (hsame : u.coalescing = t.coalescing) : KeyFree cfg task u := by
  unfold KeyFree
  rw [hsame]
  by_contra hne
  obtain ⟨set, hset⟩ := Option.ne_none_iff_exists'.mp hne
  have hbefore : t.coalescing.get t.clock (task.coalescingKey cfg) = some set :=
    fetch_earlier hclock hset
  rw [h] at hbefore
  cases hbefore

theorem LinkedTo.of_eq (h : LinkedTo task t j) (hsame : u.idempotency = t.idempotency) :
    LinkedTo task u j := by
  obtain ⟨v, hv, hvalue⟩ := h
  exact ⟨v, by rw [hsame, hv], hvalue⟩

theorem Running.of_eq {sub : Submit} (h : Running p t task sub)
    (hrows : u.system.stores.jobs = t.system.stores.jobs)
    (hsame : u.idempotency = t.idempotency) : Running p u task sub := by
  have hopen : ∀ {j}, FreshRow p t j → FreshRow p u j := by
    rintro j ⟨hnone, hopen⟩
    refine ⟨hnone, ?_⟩
    unfold Open at hopen ⊢
    rwa [hrows]
  cases h with
  | create rows => exact .create (hrows.trans rows)
  | bind row => exact .bind (hopen row)
  | deadline row link => exact .deadline (hopen row) (link.of_eq hsame)
  | push row link => exact .push (hopen row) (link.of_eq hsame)
  | failSelect link => exact .failSelect fun hb => (link hb).of_eq hsame
  | failUpdate link => exact .failUpdate fun hb => (link hb).of_eq hsame
  | settle link => exact .settle (link.of_eq hsame)

theorem Step.tick (he : Step cfg t (.system (.tick ms)) u) :
    u = { t with system := { t.system with clock := t.clock + ms } } := by
  obtain ⟨m, hm, rfl⟩ := he.move
  rw [Platform.move] at hm
  split_ifs at hm
  cases hm
  rfl

theorem Progress.tick (h : Progress cfg p i task tr t (t.fronts i))
    (hended : (t.fronts i).ended = false) (he : Step cfg t (.system (.tick ms)) u) :
    Progress cfg p i task (tr ++ [.system (.tick ms)]) u (u.fronts i) := by
  have hle := he.clock_le
  have hu := he.tick
  have hfront : u.fronts i = t.fronts i := by rw [hu]
  have hmem : ∀ {a}, .front i a ∈ tr ++ [.system (.tick ms)] ↔ .front i a ∈ tr := by simp
  have hid : u.idempotency = t.idempotency := by rw [hu]
  have hco : u.coalescing = t.coalescing := by rw [hu]
  have hrows : u.system.stores.jobs = t.system.stores.jobs := by rw [hu]
  have hsub : u.system.submits i = t.system.submits i := by rw [hu]
  rw [hfront]
  generalize t.fronts i = front at h hended
  cases h with
  | coalesce at_start hnew hkeys hnone =>
    refine .coalesce ⟨hsub.trans at_start.1, hrows.trans at_start.2⟩ ?_ (hco.trans hkeys) ?_
    · rw [hid, hnew]
    · intro a ha
      exact hnone a (hmem.mp ha)
  | admitting at_start hproceed =>
    exact .admitting ⟨hsub.trans at_start.1, hrows.trans at_start.2⟩ (hmem.mpr hproceed)
  | running hrunning hproceed =>
    exact .running (by rw [hsub]; exact hrunning.of_eq hrows hid) (hmem.mpr hproceed)
  | release hrecord hproceed =>
    exact .release (fun hending => (hrecord hending).later hle hid) (hmem.mpr hproceed)
  | forget hkey hproceed => exact .forget (hkey.later hle hco) (hmem.mpr hproceed)
  | refused | kept | cleared => cases hended

theorem coalescingOp_coalesce (hfront : t.fronts i = .coalesce task)
    (hanswer : answer ≠ .failed false) :
    coalescingOp cfg t (.front i answer) = some (.tryCoalesce (task.coalescingKey cfg)) := by
  simp [coalescingOp, hfront, Front.coalescingOp, hanswer]

theorem Step.coalescing_refused (hfront : t.fronts i = .coalesce task)
    (hanswer : answer ≠ .decided .proceed) (he : Step cfg t (.front i answer) u) :
    u.coalescing = afterRefusal cfg task u.clock answer t.coalescing := by
  have hclock : u.clock = t.clock := congrArg System.clock he.front_system
  have hans := he.answers
  rw [hfront] at hans
  unfold afterRefusal
  rw [hclock]
  cases answer with
  | failed applied =>
    cases applied with
    | false => exact he.coalescing_none rfl
    | true => exact he.coalescing_some (coalescingOp_coalesce hfront (by simp))
  | decided action =>
    cases action with
    | proceed => exact absurd rfl hanswer
    | rejected =>
      rw [he.coalescing_some (coalescingOp_coalesce hfront (by simp))]
      exact tryCoalesce_rejected_snd hans
  | claimed | admitted | deleted => exact absurd hans id

theorem Step.untouched (h : Untouched p t i) (he : Step cfg t (.front i answer) u) :
    Untouched p u i := by
  constructor
  · rw [he.front_system]
    exact h.submit
  · rw [he.front_system]
    exact h.rows

theorem Progress.coalesce_step (hfront : t.fronts i = .coalesce task)
    (at_start : Untouched p t i)
    (hnew : t.idempotency.records.lookup task.idempotencyKey = newRecord cfg p)
    (hkeys : t.coalescing = p.coalescing) (hnone : ∀ answer, .front i answer ∉ tr)
    (he : Step cfg t (.front i answer) u) :
    Progress cfg p i task (tr ++ [.front i answer]) u (u.fronts i) := by
  have hid : u.idempotency = t.idempotency :=
    he.idempotency_none (by simp [idempotencyOp, hfront, Front.idempotencyOp])
  rw [he.front_self, hfront]
  by_cases hproceed : answer = .decided .proceed
  · subst hproceed
    exact .admitting (Step.untouched at_start he) (by simp)
  · have hresume : (Front.coalesce task).resume answer = .returned task none false := by
      unfold Front.resume
      split <;> simp_all
    rw [hresume]
    refine .refused hproceed ?_ (by rw [hid, hnew]) ?_
    · intro answer'
      simp [hnone]
    · have hrefused := he.coalescing_refused hfront hproceed
      rwa [hkeys] at hrefused

theorem Progress.admitting_step (hfront : t.fronts i = .admitting task)
    (at_start : Untouched p t i) (hproceed : .front i (.decided .proceed) ∈ tr)
    (he : Step cfg t (.front i answer) u) :
    Progress cfg p i task (tr ++ [.front i answer]) u (u.fronts i) := by
  have hstart := Step.untouched at_start he
  rw [he.front_self, hfront]
  by_cases hadmit : answer = .admitted true
  · subst hadmit
    refine .running ?_ (List.mem_append_left _ hproceed)
    rw [hstart.submit]
    exact .create hstart.rows
  · have hresume : (Front.admitting task).resume answer = .release task .admission := by
      unfold Front.resume
      split <;> simp_all
    rw [hresume]
    exact .release nofun (List.mem_append_left _ hproceed)

theorem Step.keyFree_of_release {ending : Ending} (hfront : t.fronts i = .release task ending)
    (he : Step cfg t (.front i .deleted) u) : KeyFree cfg task u := by
  have hop : coalescingOp cfg t (.front i .deleted) = some (.delete (task.coalescingKey cfg)) := by
    simp [coalescingOp, hfront, Front.coalescingOp]
  unfold KeyFree
  rw [he.coalescing_some hop]
  change (t.coalescing.put (task.coalescingKey cfg) none).get _ _ = none
  rw [Keyspace.get_put, if_pos rfl, fetch_none]

theorem Step.notInFlight_of_forget {ending : Ending} {clean : Bool}
    (hfront : t.fronts i = .forget task ending clean) (he : Step cfg t (.front i .deleted) u) :
    NotInFlight task u := by
  have hop : idempotencyOp cfg t (.front i .deleted) =
      some (.delete task.request.userID task.header) := by
    simp [idempotencyOp, hfront, Front.idempotencyOp]
  intro r hr
  rw [he.idempotency_some hop] at hr
  change (t.idempotency.records.put task.idempotencyKey none).get _ _ = some r at hr
  rw [Keyspace.get_put, if_pos rfl, fetch_none] at hr
  cases hr

theorem Progress.release_step {ending : Ending} (hfront : t.fronts i = .release task ending)
    (hrecord : ending = .rejection → NotInFlight task t)
    (hproceed : .front i (.decided .proceed) ∈ tr) (he : Step cfg t (.front i .deleted) u) :
    Progress cfg p i task (tr ++ [.front i .deleted]) u (u.fronts i) := by
  have hfree := he.keyFree_of_release hfront
  have hmem := List.mem_append_left [Event.front i .deleted] hproceed
  have hid : u.idempotency = t.idempotency :=
    he.idempotency_none (by simp [idempotencyOp, hfront, Front.idempotencyOp])
  rw [he.front_self, hfront]
  cases ending with
  | rejection => exact .cleared ((hrecord rfl).later he.clock_le hid) hfree hmem
  | admission | creation | binding => exact .forget hfree hmem

theorem Progress.forget_step {ending : Ending} {clean : Bool}
    (hfront : t.fronts i = .forget task ending clean) (hkey : KeyFree cfg task t)
    (hproceed : .front i (.decided .proceed) ∈ tr) (he : Step cfg t (.front i .deleted) u) :
    Progress cfg p i task (tr ++ [.front i .deleted]) u (u.fronts i) := by
  have hrecord := he.notInFlight_of_forget hfront
  have hmem := List.mem_append_left [Event.front i .deleted] hproceed
  have hco : u.coalescing = t.coalescing :=
    he.coalescing_none (by simp [coalescingOp, hfront, Front.coalescingOp])
  have hfree := hkey.later he.clock_le hco
  rw [he.front_self, hfront]
  cases ending <;> exact .cleared hrecord hfree hmem

theorem Progress.front_step (h : Progress cfg p i task tr t (t.fronts i))
    (hended : (t.fronts i).ended = false) (hcomp : Compensated t i (.front i answer))
    (he : Step cfg t (.front i answer) u) :
    Progress cfg p i task (tr ++ [.front i answer]) u (u.fronts i) := by
  have hans := he.answers
  generalize hfront : t.fronts i = front at h hended hans
  cases h with
  | coalesce at_start hnew hkeys hnone =>
    exact coalesce_step hfront at_start hnew hkeys hnone he
  | admitting at_start hproceed => exact admitting_step hfront at_start hproceed he
  | running => exact absurd hans (by simp [Front.Answers])
  | release hrecord hproceed =>
    obtain rfl : answer = .deleted := by simpa [Compensated, hfront] using hcomp
    exact release_step hfront hrecord hproceed he
  | forget hkey hproceed =>
    obtain rfl : answer = .deleted := by simpa [Compensated, hfront] using hcomp
    exact forget_step hfront hkey hproceed he
  | refused | kept | cleared => cases hended

theorem Step.idempotency_eq (he : Step cfg t (.system (.call (.submit i) req resp)) u)
    (hreq : ∀ what, req = .external what → externalOp t (.submit i) what = none) :
    u.idempotency = t.idempotency := by
  apply he.idempotency_none
  cases req with
  | external what => simp [idempotencyOp, hreq what rfl]
  | _ => rfl

theorem Step.freshRow (h : FreshRow p t j)
    (he : Step cfg t (.system (.call (.submit i) req resp)) u)
    (hreq : ∀ o n, req ≠ .markUpdate o j n) : FreshRow p u j := by
  refine ⟨h.1, ?_⟩
  obtain ⟨row, hrow, hstatus⟩ := h.2
  have hstep := he.service.2.row j
  unfold Open
  generalize u.system.stores.jobs.lookup j = next at hstep
  cases hstep with
  | same hsame => exact ⟨row, by rw [hsame]; exact hrow, hstatus⟩
  | created hnew => cases hnew.symm.trans hrow
  | marked => exact absurd rfl (hreq _ _)
  | counted hrow' hcreated => exact ⟨_, rfl, rfl⟩

theorem Step.open_of_create
    (he : Step cfg t (.system (.call (.submit i) (.create j userID) (.result (.ok ())))) u) :
    t.system.stores.jobs.lookup j = none ∧ Open u.system j := by
  obtain ⟨-, st, hst, hu⟩ := he.service.2.call
  have hnone : t.system.stores.jobs.lookup j = none := (answers_of_serve hst (by simp)).2
  have hstores : u.system.stores = st := by rw [hu, resume_stores]
  refine ⟨hnone, ⟨userID, .created, 1, t.clock⟩, ?_, rfl⟩
  rcases serve_cases hst with ⟨hfailed, -⟩ | ⟨-, rfl, -⟩
  · cases hfailed
  · rw [hstores, Service.effect, if_pos (by rw [hnone]; rfl)]
    change (Jobs.save j userID _ _).lookup j = _
    rw [Jobs.lookup_save, if_pos rfl]
    rfl

theorem Step.linked_of_bind (hfront : t.fronts i = .running task)
    (he : Step cfg t (.system (.call (.submit i) (.external (.setJobID j)) (.flag true))) u) :
    LinkedTo task u j := by
  have hop : idempotencyOp cfg t
      (.system (.call (.submit i) (.external (.setJobID j)) (.flag true))) =
        some (.setJobID task.request.userID task.header j) := by
    simp [idempotencyOp, externalOp, hfront]
  have hanswer : true = (setJobIDScript t.clock task.idempotencyKey j t.idempotency).1 := by
    have hallowed := he.service.1.2
    simpa only [ExternalAnswers, hfront] using hallowed
  rw [LinkedTo, he.idempotency_some hop]
  change ∃ v, (setJobIDScript t.clock task.idempotencyKey j t.idempotency).2.links.lookup j =
    some v ∧ v.value = task.idempotencyKey
  rcases setJobIDScript_cases t.clock task.idempotencyKey j t.idempotency with
    ⟨-, heq⟩ | ⟨v, -, -, heq⟩
  · rw [heq] at hanswer
    cases hanswer
  · rw [heq, Keyspace.lookup_put, if_pos rfl]
    exact ⟨_, rfl, rfl⟩

/-- The transition that succeeds is that of the record of the `Submit`. -/
theorem Step.notInFlight_of_settle (hlink : LinkedTo task t j)
    (he : Step cfg t
      (.system (.call (.submit i) (.external (.transitionStatus j .failed)) (.flag true))) u) :
    NotInFlight task u := by
  have hop : idempotencyOp cfg t
      (.system (.call (.submit i) (.external (.transitionStatus j .failed)) (.flag true))) =
        some (.transitionStatus j .failed) := by
    simp [idempotencyOp, externalOp, recordStatus]
  have hanswer : true = decide ((transitionScript t.clock cfg.inference.completedIdempotencyTTL j
      .failed t.idempotency).1 = .ok) := he.service.1.2
  intro r hr
  rw [he.idempotency_some hop] at hr
  change (transitionScript t.clock _ j .failed t.idempotency).2.records.get _ _ = some r at hr
  rcases transitionScript_cases t.clock cfg.inference.completedIdempotencyTTL j .failed
    t.idempotency with ⟨hne, -⟩ | ⟨key, r', hkey, -, -, heq⟩
  · exact absurd (of_decide_eq_true hanswer.symm) hne
  · obtain ⟨v, hv, hvalue⟩ := hlink
    obtain ⟨v', hv', -, rfl⟩ := fetch_some.mp hkey
    obtain rfl := Option.some.inj (hv.symm.trans hv')
    rw [heq, hvalue, Keyspace.get_put, if_pos rfl] at hr
    rw [fetch_expire hr]
    simp

theorem Step.second_half {sub : Submit} (hfront : t.fronts i = .running task)
    (hsubmit : t.system.submits i = sub)
    (he : Step cfg t (.system (.call (.submit i) req resp)) u) :
    sub.requests req ∧ u.system.submits i = sub.resume req resp ∧
      u.fronts i = .follow task sub (sub.resume req resp) resp := by
  have hreq : (t.system.submits i).requests req := he.service.2.call.1
  have hself := he.service.2.submit_self
  have hfollow := he.follow_self hfront
  rw [hself, hsubmit] at hfollow
  rw [hsubmit] at hreq hself
  exact ⟨hreq, hself, hfollow⟩

theorem Progress.of_running {sub : Submit} (hself : u.system.submits i = sub)
    (h : Running p u task sub) (hproceed : .front i (.decided .proceed) ∈ tr) :
    Progress cfg p i task tr u (.running task) :=
  .running (by rwa [hself]) hproceed

theorem Progress.create_step (hfront : t.fronts i = .running task)
    (hsubmit : t.system.submits i = .create)
    (hrows : t.system.stores.jobs = p.system.stores.jobs)
    (hproceed : .front i (.decided .proceed) ∈ tr)
    (he : Step cfg t (.system (.call (.submit i) req resp)) u) :
    Progress cfg p i task tr u (u.fronts i) := by
  obtain ⟨-, hself, hfollow⟩ := he.second_half hfront hsubmit
  rw [hfollow]
  by_cases hok : ∃ j userID, req = .create j userID ∧ resp = .result (.ok ())
  · obtain ⟨j, userID, rfl, rfl⟩ := hok
    obtain ⟨hnone, hopen⟩ := he.open_of_create
    exact of_running hself (.bind ⟨by rw [← hrows, hnone], hopen⟩) hproceed
  · have hended : Submit.create.resume req resp = .ended := by
      unfold Submit.resume
      split <;> simp_all
    rw [hended]
    exact .release nofun hproceed

theorem Progress.bind_step (hfront : t.fronts i = .running task)
    (hsubmit : t.system.submits i = .bind j userID) (hrow : FreshRow p t j)
    (hproceed : .front i (.decided .proceed) ∈ tr)
    (he : Step cfg t (.system (.call (.submit i) req resp)) u) :
    Progress cfg p i task tr u (u.fronts i) := by
  obtain ⟨rfl, hself, hfollow⟩ := he.second_half hfront hsubmit
  rw [hfollow]
  by_cases hok : resp = .flag true
  · subst hok
    have hlink := he.linked_of_bind hfront
    exact of_running hself (.deadline (he.freshRow hrow (by simp)) hlink) hproceed
  · have hnext : (Submit.bind j userID).resume (.external (.setJobID j)) resp =
        .failSelect j false := by
      unfold Submit.resume
      split <;> simp_all
    rw [hnext] at hself ⊢
    exact of_running hself (.failSelect nofun) hproceed

theorem Progress.deadline_step (hfront : t.fronts i = .running task)
    (hsubmit : t.system.submits i = .deadline j userID) (hrow : FreshRow p t j)
    (hlink : LinkedTo task t j) (hproceed : .front i (.decided .proceed) ∈ tr)
    (he : Step cfg t (.system (.call (.submit i) req resp)) u) :
    Progress cfg p i task tr u (u.fronts i) := by
  obtain ⟨rfl, hself, hfollow⟩ := he.second_half hfront hsubmit
  have hlinked := hlink.of_eq (he.idempotency_eq (by rintro what ⟨⟩; rfl))
  rw [hfollow]
  by_cases hok : resp = .flag true
  · subst hok
    exact of_running hself (.push (he.freshRow hrow (by simp)) hlinked) hproceed
  · have hnext : (Submit.deadline j userID).resume (.external .deadline) resp =
        .failSelect j true := by
      unfold Submit.resume
      split <;> simp_all
    rw [hnext] at hself ⊢
    exact of_running hself (.failSelect fun _ => hlinked) hproceed

theorem Progress.push_step (hfront : t.fronts i = .running task)
    (hsubmit : t.system.submits i = .push j userID) (hrow : FreshRow p t j)
    (hlink : LinkedTo task t j) (hproceed : .front i (.decided .proceed) ∈ tr)
    (he : Step cfg t (.system (.call (.submit i) req resp)) u) :
    Progress cfg p i task tr u (u.fronts i) := by
  obtain ⟨rfl, hself, hfollow⟩ := he.second_half hfront hsubmit
  have hlinked := hlink.of_eq (he.idempotency_eq (by rintro what ⟨⟩))
  have hfresh : FreshRow p u j := he.freshRow hrow (by simp)
  rw [hfollow]
  rcases Submit.resume_push j userID (.redis (.pushLeft ⟨j, userID, 0⟩)) resp with
    hended | ⟨err, rfl⟩
  · rw [hended]
    unfold Front.follow
    dsimp only
    split <;> exact .kept hfresh
  · by_cases hfull : err.is .schedulerQueueFull = true
    · rw [Submit.resume, if_pos hfull] at hself ⊢
      exact of_running hself (.failSelect fun _ => hlinked) hproceed
    · rw [Submit.resume, if_neg hfull]
      exact .kept hfresh

theorem Progress.failSelect_step {bound : Bool} (hfront : t.fronts i = .running task)
    (hsubmit : t.system.submits i = .failSelect j bound)
    (hlink : bound = true → LinkedTo task t j) (hproceed : .front i (.decided .proceed) ∈ tr)
    (he : Step cfg t (.system (.call (.submit i) req (.result (.ok ())))) u) :
    Progress cfg p i task tr u (u.fronts i) := by
  obtain ⟨rfl, hself, hfollow⟩ := he.second_half hfront hsubmit
  have hid := he.idempotency_eq (by rintro what ⟨⟩)
  rw [hfollow]
  exact of_running hself (.failUpdate fun hb => (hlink hb).of_eq hid) hproceed

theorem Progress.failUpdate_step {bound : Bool} (hfront : t.fronts i = .running task)
    (hsubmit : t.system.submits i = .failUpdate j bound)
    (hlink : bound = true → LinkedTo task t j) (hproceed : .front i (.decided .proceed) ∈ tr)
    (he : Step cfg t (.system (.call (.submit i) req resp)) u) :
    Progress cfg p i task tr u (u.fronts i) := by
  obtain ⟨rfl, hself, hfollow⟩ := he.second_half hfront hsubmit
  have hid := he.idempotency_eq (by rintro what ⟨⟩)
  rw [hfollow]
  cases bound with
  | false => exact .release nofun hproceed
  | true => exact of_running hself (.settle ((hlink rfl).of_eq hid)) hproceed

theorem Progress.settle_step (hfront : t.fronts i = .running task)
    (hsubmit : t.system.submits i = .settle j true) (hlink : LinkedTo task t j)
    (hproceed : .front i (.decided .proceed) ∈ tr)
    (he : Step cfg t (.system (.call (.submit i) req (.flag true))) u) :
    Progress cfg p i task tr u (u.fronts i) := by
  obtain ⟨rfl, -, hfollow⟩ := he.second_half hfront hsubmit
  rw [hfollow]
  exact .release (fun _ => he.notInFlight_of_settle hlink) hproceed

theorem Progress.system_step (h : Progress cfg p i task tr t (t.fronts i))
    (hcomp : Compensated t i (.system (.call (.submit i) req resp)))
    (he : Step cfg t (.system (.call (.submit i) req resp)) u) :
    Progress cfg p i task (tr ++ [.system (.call (.submit i) req resp)]) u (u.fronts i) := by
  have hallowed : SubmitAllowed t i req := he.service.1.1
  generalize hfront : t.fronts i = front at h
  cases h with
  | running hrunning hproceed =>
    have hmem := List.mem_append_left [Event.system (.call (.submit i) req resp)] hproceed
    unfold Compensated at hcomp
    generalize hsubmit : t.system.submits i = sub at hrunning hcomp
    cases hrunning with
    | create rows => exact create_step hfront hsubmit rows hmem he
    | bind row => exact bind_step hfront hsubmit row hmem he
    | deadline row link => exact deadline_step hfront hsubmit row link hmem he
    | push row link => exact push_step hfront hsubmit row link hmem he
    | failSelect link =>
      obtain rfl := hcomp
      exact failSelect_step hfront hsubmit link hmem he
    | failUpdate link => exact failUpdate_step hfront hsubmit link hmem he
    | settle link =>
      obtain rfl := hcomp
      exact settle_step hfront hsubmit link hmem he
  | _ => simp [SubmitAllowed, hfront] at hallowed

theorem Progress.step (h : Progress cfg p i task tr t (t.fronts i))
    (hok : Undisturbed i past t e) (he : Step cfg t e u) :
    Progress cfg p i task (tr ++ [e]) u (u.fronts i) := by
  obtain ⟨halone, hended, hcomp⟩ := hok
  cases e with
  | submit => cases halone
  | front k answer =>
    obtain rfl : k = i := of_decide_eq_true halone
    exact h.front_step hended hcomp he
  | system se =>
    cases se with
    | tick ms => exact h.tick hended he
    | call th req resp =>
      cases th with
      | submit k =>
        obtain rfl : k = i := of_decide_eq_true halone
        exact h.system_step hcomp he
      | _ => cases halone

end InferenceQueue.Platform

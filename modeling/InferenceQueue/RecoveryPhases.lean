import InferenceQueue.SystemSteps

namespace InferenceQueue.Scheduler

variable {cfg : Config} {s t : State} {e : Event} {job : JobID} {cutoff : ℕ}

theorem Effect.mem_upTo_of_take (h : Effect cfg s e t)
    (hop : e.op = .removeIfExpired job cutoff ∨ ∃ user, e.op = .requeueIfExpired job user cutoff)
    {j : JobID} (hj : j ∈ t.processingJobs.upTo cutoff) :
    j ∈ s.processingJobs.upTo cutoff ∧ j ≠ job := by
  -- after `RemoveIfExpired` or `RequeueIfExpired` the lease is not among the expired ones
  have hheld : (∀ k, s.processingJobs.zscore job = some k → cutoff < k) →
      j ∈ s.processingJobs.upTo cutoff → j ∈ s.processingJobs.upTo cutoff ∧ j ≠ job := by
    refine fun hheld hmem => ⟨hmem, ?_⟩
    rintro rfl
    obtain ⟨k, hk, hle⟩ := SortedSet.mem_upTo.mp hmem
    exact absurd (hheld k hk) (Nat.not_lt.mpr hle)
  have hgone : j ∈ (s.processingJobs.zrem job).upTo cutoff →
      j ∈ s.processingJobs.upTo cutoff ∧ j ≠ job := by
    intro hmem
    exact (SortedSet.mem_upTo_zrem.mp hmem).symm
  cases h with
  | removeRefused h =>
    rcases hop with hop | ⟨user, hop⟩ <;> cases hop
    exact hheld h hj
  | requeueRefused h =>
    rcases hop with hop | ⟨user, hop⟩ <;> cases hop
    exact hheld h hj
  | removed =>
    rcases hop with hop | ⟨user, hop⟩ <;> cases hop
    exact hgone hj
  | requeued =>
    rcases hop with hop | ⟨user, hop⟩ <;> cases hop
    exact hgone hj
  | _ => rcases hop with hop | ⟨user, hop⟩ <;> cases hop

end InferenceQueue.Scheduler

namespace InferenceQueue.Service

open Scheduler Jobs

def Readable (db : Table) (j : JobID) : Prop := ∃ job, jobByID j db = .ok job

def orphanIDs (before : ℕ) (db : Table) : Finset JobID :=
  db.keys.filter fun j => ∃ row ∈ db.lookup j, row.isOrphan before

def Refused (capacity : ℕ) (s : State) (j : JobID) (u : UserID) : Prop :=
  j ∈ s.completedJobs ∨ (s.processingJobs.zscore j).isSome ∨ j ∈ s.queue u ∨
    capacity ≤ (s.queue u).length

def LeasesIn (now : ℕ) (todo : List JobID) (st : Stores) : Prop :=
  ∀ j ∈ st.redis.processingJobs.upTo now, Readable st.jobs j → j ∈ todo

def MarkersIn (todo : List JobID) (st : Stores) : Prop :=
  ∀ j ∈ st.redis.completedJobs, Readable st.jobs j → j ∈ todo

/-- The rows of `PendingOrphans` are in the list or refused. -/
structure OrphansIn (cfg : Config) (now : ℕ) (todo : List Job) (st : Stores) : Prop where
  listed : ∃ jobs, PendingOrphans (now - cfg.orphanGrace) cfg.batch st.jobs jobs
  rows : ∀ job ∈ todo, jobByID job.jobID st.jobs = .ok job
  rest : ∀ j row, st.jobs.lookup j = some row → row.isOrphan (now - cfg.orphanGrace) →
    Refused cfg.recoveryCapacity st.redis j row.userID ∨ j ∈ todo.map Job.jobID

def RecoverOne.claims : RecoverOne → Bool
  | byID | policy _ _ | removeStale | removeExhausted _ | requeue _ _ => true
  | failSelect _ | failUpdate _ | failTransition | failPublish | updateCreated _ => false

def Reconcile.Knows (db : Table) (j : JobID) : Reconcile → Prop
  | completeSelect _ => ∃ job, jobByID j db = .ok job ∧ job.status = .created
  | completeUpdate _ => Readable db j
  | _ => True

structure Sweeping (now : ℕ) (todo : List JobID) (job : JobID) (stage : RecoverOne) (st : Stores) :
    Prop where
  leases : LeasesIn now (if stage.claims then job :: todo else todo) st
  taken : stage.claims = false → job ∉ st.redis.processingJobs.upTo now

structure Reconciling (now : ℕ) (todo : List JobID) (job : JobID) (stage : Reconcile)
    (st : Stores) : Prop where
  leases : LeasesIn now [] st
  markers : MarkersIn (job :: todo) st
  knows : stage.Knows st.jobs job

/-- Where a pass that is alone can be, and what it has dealt with by then. -/
def Reached (cfg : Config) (now : ℕ) (st : Stores) : Recovery → Prop
  | .listExpired cutoff => cutoff = now ∧ (st.redis.processingJobs.upTo now).card < cfg.batch
  | .recovering cutoff todo job stage => cutoff = now ∧ Sweeping now todo job stage st
  | .listCompleted => LeasesIn now [] st
  | .reconciling todo job stage => Reconciling now todo job stage st
  | .orphanClock => LeasesIn now [] st ∧ MarkersIn [] st
  | .listOrphans before =>
    before = now - cfg.orphanGrace ∧ LeasesIn now [] st ∧ MarkersIn [] st
  | .enqueueing todo job =>
    LeasesIn now [] st ∧ MarkersIn [] st ∧ OrphansIn cfg now (job :: todo) st
  | .idle => LeasesIn now [] st ∧ MarkersIn [] st ∧ OrphansIn cfg now [] st

/-- A call that does not fail.  The answer of `TransitionStatusIfInFlight` is not looked at. -/
structure Succeeds (cfg : Config) (now : ℕ) (r : Recovery) (st : Stores) (resp : Response) :
    Prop where
  answers : Answers cfg now st (r.request cfg) resp
  transitions : ∀ j o, r.request cfg = .external (.transitionStatus j o) → resp = .flag true

variable {cfg : Config} {now : ℕ} {st st' : Stores} {r : Recovery} {resp : Response} {j : JobID}
  {todo : List JobID} {db db' : Table} {job : JobID}

theorem jobByID_congr (h : db'.lookup j = db.lookup j) : jobByID j db' = jobByID j db := by
  unfold jobByID
  rw [h]

theorem readable_congr (h : db'.lookup j = db.lookup j) : Readable db' j ↔ Readable db j := by
  unfold Readable
  rw [jobByID_congr h]

theorem isSome_of_readable (h : Readable db j) : (db.lookup j).isSome := by
  obtain ⟨found, hfound⟩ := h
  obtain ⟨row, hrow, -⟩ := lookup_of_jobByID hfound
  rw [hrow]
  rfl

theorem not_readable_of_error {err : GoError} (h : jobByID j db = .error err) :
    ¬Readable db j := by
  rintro ⟨job, hjob⟩
  cases h.symm.trans hjob

/-- A row that is missing or cannot be scanned ends the work on the job: `ByID` never says which of
the two it is. -/
theorem RecoverOne.proceed_unreadable {err : GoError} (h : jobByID j db = .error err) :
    RecoverOne.proceed .byID (.job (.error err)) = none := by
  rw [RecoverOne.proceed, (jobByID_error h).2]
  rfl

theorem Reconcile.proceed_unreadable {err : GoError} (h : jobByID j db = .error err) :
    Reconcile.proceed .byID (.job (.error err)) = none := by
  rw [Reconcile.proceed, (jobByID_error h).2]
  rfl

theorem reached_sweepNext (h : LeasesIn now todo st) :
    Reached cfg now st (.sweepNext now todo) := by
  cases todo with
  | nil => exact h
  | cons job todo => exact ⟨rfl, h, nofun⟩

theorem reached_reconcileNext (hleases : LeasesIn now [] st) (h : MarkersIn todo st) :
    Reached cfg now st (.reconcileNext todo) := by
  cases todo with
  | nil => exact ⟨hleases, h⟩
  | cons job todo => exact ⟨hleases, h, trivial⟩

theorem reached_orphanNext {jobs : List Job} (hleases : LeasesIn now [] st)
    (hmarkers : MarkersIn [] st) (h : OrphansIn cfg now jobs st) :
    Reached cfg now st (.orphanNext jobs) := by
  cases jobs with
  | nil => exact ⟨hleases, hmarkers, h⟩
  | cons job jobs => exact ⟨hleases, hmarkers, h⟩

@[simp] theorem effect_redis_jobs (op : Op) : (effect cfg now st (.redis op)).jobs = st.jobs := rfl

theorem effect_call (op : Op) :
    Effect cfg.scheduler st.redis ⟨now, op, (call cfg.scheduler now st.redis op).2⟩
      (effect cfg now st (.redis op)).redis := call_effect cfg.scheduler now st.redis op

theorem LeasesIn.of_take {op : Op} (h : LeasesIn now (job :: todo) st)
    (hop : op = .removeIfExpired job now ∨ ∃ user, op = .requeueIfExpired job user now) :
    LeasesIn now todo (effect cfg now st (.redis op)) ∧
      job ∉ (effect cfg now st (.redis op)).redis.processingJobs.upTo now := by
  have hmem : ∀ j ∈ (effect cfg now st (.redis op)).redis.processingJobs.upTo now,
      j ∈ st.redis.processingJobs.upTo now ∧ j ≠ job :=
    fun j hj => (effect_call op).mem_upTo_of_take hop hj
  constructor
  · intro j hj hread
    exact (List.mem_cons.mp (h j (hmem j hj).1 hread)).resolve_left (hmem j hj).2
  · exact fun hj => (hmem job hj).2 rfl

theorem LeasesIn.of_row (h : LeasesIn now todo st) (hredis : st'.redis = st.redis)
    (hrows : ∀ j, j ≠ job → st'.jobs.lookup j = st.jobs.lookup j)
    (hjob : job ∈ st.redis.processingJobs.upTo now → job ∈ todo) : LeasesIn now todo st' := by
  intro j hj hread
  rw [hredis] at hj
  by_cases heq : j = job
  · subst heq
    exact hjob hj
  · exact h j hj ((readable_congr (hrows j heq)).mp hread)

theorem Sweeping.of_taken {stage : RecoverOne}
    (h : LeasesIn now todo st ∧ job ∉ st.redis.processingJobs.upTo now) :
    Sweeping now todo job stage st := by
  refine ⟨?_, fun _ => h.2⟩
  split_ifs
  · exact fun j hj hread => List.mem_cons_of_mem _ (h.1 j hj hread)
  · exact h.1

theorem Sweeping.taken_of {stage : RecoverOne} (h : Sweeping now todo job stage st)
    (hstage : stage.claims = false) :
    LeasesIn now todo st ∧ job ∉ st.redis.processingJobs.upTo now := by
  refine ⟨?_, h.taken hstage⟩
  have hleases := h.leases
  rwa [hstage] at hleases

theorem rows_of_markUpdate {o : Outcome} {n : ℤ} (hj : j ≠ job) :
    (effect cfg now st (.markUpdate o job n)).jobs.lookup j = st.jobs.lookup j := by
  change (updateStatus job o.status n st.jobs).1.lookup j = _
  rw [lookup_updateStatus, if_neg hj]

theorem rows_of_updateCreated {n : ℤ} (hj : j ≠ job) :
    (effect cfg now st (.updateCreated job n)).jobs.lookup j = st.jobs.lookup j := by
  change (updateStatusIfStatus job n .created .created st.jobs).1.lookup j = _
  rw [lookup_updateStatusIfStatus, if_neg hj]

theorem Sweeping.goes_on {next : Option RecoverOne}
    (h : LeasesIn now todo st ∧ job ∉ st.redis.processingJobs.upTo now) :
    next.elim (LeasesIn now todo st) fun stage => Sweeping now todo job stage st := by
  cases next with
  | none => exact h.1
  | some stage => exact .of_taken h

/-- `recoverOne` leaves the other expired leases where they are, and does not return before it has
taken the lease of its own job, unless the row cannot be read. -/
theorem Sweeping.step {stage : RecoverOne} (h : Sweeping now todo job stage st)
    (hans : Answers cfg now st (stage.request now job) resp) :
    (stage.proceed resp).elim (LeasesIn now todo (effect cfg now st (stage.request now job)))
      fun stage' => Sweeping now todo job stage' (effect cfg now st (stage.request now job)) := by
  cases stage with
  | byID =>
    cases resp with
    | job r =>
      have hr : jobByID job st.jobs = r := jobByID_of_answers hans
      cases r with
      | ok found =>
        rw [RecoverOne.proceed]
        split_ifs
        · exact ⟨h.leases, nofun⟩
        · exact ⟨h.leases, nofun⟩
      | error err =>
        rw [RecoverOne.proceed_unreadable hr]
        intro j hj hread
        refine (List.mem_cons.mp (h.leases j hj hread)).resolve_left ?_
        rintro rfl
        exact not_readable_of_error hr hread
    | _ => cases hans
  | policy user n =>
    cases resp with
    | policy m =>
      rw [RecoverOne.proceed]
      split_ifs
      · exact ⟨h.leases, nofun⟩
      · exact ⟨h.leases, nofun⟩
    | _ => cases hans
  | removeStale | removeExhausted n => exact goes_on (LeasesIn.of_take h.leases (Or.inl rfl))
  | requeue user n => exact goes_on (LeasesIn.of_take h.leases (Or.inr ⟨user, rfl⟩))
  | failUpdate n =>
    have htaken := h.taken_of rfl
    exact goes_on ⟨htaken.1.of_row rfl (fun j => rows_of_markUpdate) fun hj => absurd hj htaken.2,
      htaken.2⟩
  | updateCreated n =>
    have htaken := h.taken_of rfl
    exact goes_on ⟨htaken.1.of_row rfl (fun j => rows_of_updateCreated)
      fun hj => absurd hj htaken.2, htaken.2⟩
  | failSelect | failTransition | failPublish => exact goes_on (h.taken_of rfl)

theorem markSelect_of_created {o : Outcome} {found : Job} (h : jobByID j db = .ok found)
    (hstatus : found.status = .created) : markSelect o j db = .ok () := by
  unfold markSelect
  rw [h]
  simp [Job.finish, hstatus]

theorem MarkersIn.of_remove (h : MarkersIn (job :: todo) st) :
    MarkersIn todo (effect cfg now st (.redis (.removeCompletedJob job))) := by
  intro j hj hread
  have hmem : j ∈ st.redis.completedJobs.erase job := hj
  exact (List.mem_cons.mp (h j (Finset.mem_of_mem_erase hmem) hread)).resolve_left
    (Finset.ne_of_mem_erase hmem)

theorem Reconciling.step {stage : Reconcile} (h : Reconciling now todo job stage st)
    (hans : Answers cfg now st (stage.request job) resp)
    (htransition : stage = .transition → resp = .flag true) :
    (stage.proceed resp).elim
      (LeasesIn now [] (effect cfg now st (stage.request job)) ∧
        MarkersIn todo (effect cfg now st (stage.request job)))
      fun stage' => Reconciling now todo job stage' (effect cfg now st (stage.request job)) := by
  cases stage with
  | byID =>
    cases resp with
    | job r =>
      have hr : jobByID job st.jobs = r := jobByID_of_answers hans
      cases r with
      | ok found =>
        rw [Reconcile.proceed]
        split_ifs with hstatus
        · exact ⟨h.leases, h.markers, found, hr, hstatus⟩
        · exact ⟨h.leases, h.markers, trivial⟩
      | error err =>
        rw [Reconcile.proceed_unreadable hr]
        refine ⟨h.leases, fun j hj hread => ?_⟩
        refine (List.mem_cons.mp (h.markers j hj hread)).resolve_left ?_
        rintro rfl
        exact not_readable_of_error hr hread
    | _ => cases hans
  | removeMissing | removeMarker => exact ⟨h.leases, h.markers.of_remove⟩
  | completeSelect n =>
    obtain ⟨found, hfound, hstatus⟩ := h.knows
    cases resp with
    | result r =>
      have hr : r = .ok () := hans.trans (markSelect_of_created hfound hstatus)
      subst hr
      exact ⟨h.leases, h.markers, found, hfound⟩
    | _ => cases hans
  | completeUpdate n =>
    have hread : Readable st.jobs job := h.knows
    cases resp with
    | result r =>
      have hr : r = .ok () := Eq.trans hans (markUpdate_snd_ok.mpr (isSome_of_readable hread))
      subst hr
      refine ⟨h.leases.of_row rfl (fun j => rows_of_markUpdate) ?_, ?_, trivial⟩
      · exact fun hj => h.leases job hj hread
      · intro j hj hread
        by_cases heq : j = job
        · exact List.mem_cons.mpr (Or.inl heq)
        · exact h.markers j hj ((readable_congr (rows_of_markUpdate heq)).mp hread)
    | _ => cases hans
  | transition =>
    obtain rfl := htransition rfl
    exact ⟨h.leases, h.markers, trivial⟩
  | close => exact ⟨h.leases, h.markers, trivial⟩

theorem mem_orphanIDs {before : ℕ} :
    j ∈ orphanIDs before db ↔ ∃ row, db.lookup j = some row ∧ row.isOrphan before := by
  rw [orphanIDs, Finset.mem_filter, Finmap.mem_keys, Finmap.mem_iff]
  constructor
  · rintro ⟨-, row, hrow, horphan⟩
    exact ⟨row, hrow, horphan⟩
  · rintro ⟨row, hrow, horphan⟩
    exact ⟨⟨row, hrow⟩, row, hrow, horphan⟩

theorem Recovery.request_ne_create (r : Recovery) (u : UserID) : r.request cfg ≠ .create j u := by
  cases r with
  | recovering cutoff todo job stage => cases stage <;> nofun
  | reconciling todo job stage => cases stage <;> nofun
  | _ => nofun

theorem orphanIDs_effect (before : ℕ) :
    orphanIDs before (effect cfg now st (r.request cfg)).jobs ⊆ orphanIDs before st.jobs := by
  -- no call of a pass makes an old created row
  intro j hj
  obtain ⟨row, hrow, horphan⟩ := mem_orphanIDs.mp hj
  cases hreq : r.request cfg with
  | create jobID userID => exact absurd hreq (r.request_ne_create userID)
  | markUpdate o job n =>
    rw [hreq] at hrow
    by_cases heq : j = job
    · change (updateStatus job o.status n st.jobs).1.lookup j = _ at hrow
      rw [lookup_updateStatus, if_pos heq] at hrow
      obtain ⟨old, -, rfl⟩ := Option.map_eq_some_iff.mp hrow
      exact absurd horphan.1 o.status_ne_created
    · rw [rows_of_markUpdate heq] at hrow
      exact mem_orphanIDs.mpr ⟨row, hrow, horphan⟩
  | updateCreated job n =>
    rw [hreq] at hrow
    by_cases heq : j = job
    · subst heq
      change (updateStatusIfStatus j n .created .created st.jobs).1.lookup j = _ at hrow
      rw [lookup_updateStatusIfStatus, if_pos rfl] at hrow
      obtain ⟨old, hold, rfl⟩ := Option.map_eq_some_iff.mp hrow
      refine mem_orphanIDs.mpr ⟨old, hold, ?_⟩
      split_ifs at horphan with hstatus
      · exact ⟨hstatus, horphan.2⟩
      · exact horphan
    · rw [rows_of_updateCreated heq] at hrow
      exact mem_orphanIDs.mpr ⟨row, hrow, horphan⟩
  | _ =>
    rw [hreq] at hrow
    exact mem_orphanIDs.mpr ⟨row, hrow, horphan⟩

theorem mem_orphanIDs_of_pending {before limit : ℕ} {jobs : List Job} {job : Job}
    (h : PendingOrphans before limit db jobs) (hjob : job ∈ jobs) :
    job.jobID ∈ orphanIDs before db := by
  obtain ⟨row, hrow, -, heq⟩ := jobByID_eq_ok.mp (h.1 job hjob)
  obtain ⟨hstatus, hold⟩ := h.2.1 job hjob
  rw [← heq] at hstatus hold
  exact mem_orphanIDs.mpr ⟨row, hrow, hstatus, hold⟩

theorem mem_pending_of_card_lt {before limit : ℕ} {jobs : List Job} {row : Row}
    (h : PendingOrphans before limit db jobs) (hcard : (orphanIDs before db).card < limit)
    (hrow : db.lookup j = some row) (horphan : row.isOrphan before) :
    j ∈ jobs.map Job.jobID := by
  have hsub : (jobs.map Job.jobID).toFinset ⊆ orphanIDs before db := by
    intro k hk
    obtain ⟨job, hjob, rfl⟩ := List.mem_map.mp (List.mem_toFinset.mp hk)
    exact mem_orphanIDs_of_pending h hjob
  have hlength : jobs.length ≤ (orphanIDs before db).card := by
    have hle := Finset.card_le_card hsub
    rwa [List.toFinset_card_of_nodup h.2.2.1, List.length_map] at hle
  obtain ⟨-, -, -, -, -, hrest⟩ := h
  have hkey : j ∈ db.keys := Finmap.mem_keys.mpr (Finmap.mem_iff.mpr ⟨row, hrow⟩)
  rcases hrest j hkey row hrow horphan with hmem | ⟨hfull, -⟩
  · exact hmem
  · omega

theorem refused_step {capacity : ℕ} {e : Scheduler.Event} {s t : State} {user u : UserID}
    (he : Effect cfg.scheduler s e t) (hop : e.op = .enqueueIfAbsent job user capacity)
    (h : Refused capacity s j u ∨ (j = job ∧ u = user)) : Refused capacity t j u := by
  -- `EnqueueIfAbsent` keeps what it refuses, and refuses what it has put on a queue
  cases he with
  | orphanRefused hheld =>
    cases hop
    rcases h with h | ⟨rfl, rfl⟩
    · exact h
    · exact hheld
  | orphaned hmark hlease hwait hroom =>
    cases hop
    have hqueue : (State.queue _) = Function.update s.queue user (job :: s.queue user) :=
      State.enlist_queue s user job
    rcases h with (hmarked | hleased | hwaits | hfull) | ⟨rfl, rfl⟩
    · exact Or.inl (by simpa using hmarked)
    · exact Or.inr (Or.inl (by simpa using hleased))
    · refine Or.inr (Or.inr (Or.inl ?_))
      rw [hqueue, Function.update_apply]
      split_ifs with hu
      · exact List.mem_cons_of_mem _ (hu ▸ hwaits)
      · exact hwaits
    · refine Or.inr (Or.inr (Or.inr ?_))
      rw [hqueue, Function.update_apply]
      split_ifs with hu
      · rw [List.length_cons, ← hu]
        omega
      · exact hfull
    · refine Or.inr (Or.inr (Or.inl ?_))
      rw [hqueue, Function.update_self]
      exact List.mem_cons_self
  | _ => cases hop

theorem keeps_of_enqueueIfAbsent {capacity : ℕ} {e : Scheduler.Event} {s t : State} {user : UserID}
    (he : Effect cfg.scheduler s e t) (hop : e.op = .enqueueIfAbsent job user capacity) :
    t.processingJobs = s.processingJobs ∧ t.completedJobs = s.completedJobs := by
  -- `EnqueueIfAbsent` touches neither leases nor markers
  cases he with
  | orphanRefused => exact ⟨rfl, rfl⟩
  | orphaned =>
    cases hop
    exact ⟨State.enlist_processingJobs s user job, State.enlist_completedJobs s user job⟩
  | _ => cases hop

theorem OrphansIn.step {jobs : List Job} {job : Job} (h : OrphansIn cfg now (job :: jobs) st) :
    OrphansIn cfg now jobs (effect cfg now st
      (.redis (.enqueueIfAbsent job.jobID job.userID cfg.recoveryCapacity))) := by
  refine ⟨h.listed, fun other hother => h.rows other (List.mem_cons_of_mem _ hother), ?_⟩
  intro j row hrow horphan
  rcases h.rest j row hrow horphan with hrefused | hmem
  · exact Or.inl (refused_step (effect_call _) rfl (Or.inl hrefused))
  · rw [List.map_cons, List.mem_cons] at hmem
    rcases hmem with rfl | hmem
    · left
      obtain ⟨row', hrow', -, huser, -⟩ := lookup_of_jobByID (h.rows job List.mem_cons_self)
      obtain rfl := Option.some.inj (hrow'.symm.trans hrow)
      exact refused_step (effect_call _) rfl (Or.inr ⟨rfl, huser.symm⟩)
    · exact Or.inr hmem

theorem reached_recovering {stage : RecoverOne} (h : Sweeping now todo job stage st)
    (hans : Answers cfg now st (stage.request now job) resp) :
    Reached cfg now (effect cfg now st (stage.request now job))
      (.resume cfg (.recovering now todo job stage) resp) := by
  have hstep := h.step hans
  rw [Recovery.resume]
  cases hnext : stage.proceed resp with
  | some stage' =>
    rw [hnext] at hstep
    exact ⟨rfl, hstep⟩
  | none =>
    rw [hnext] at hstep
    exact reached_sweepNext hstep

theorem reached_reconciling {stage : Reconcile} (h : Reconciling now todo job stage st)
    (hans : Answers cfg now st (stage.request job) resp)
    (htransition : stage = .transition → resp = .flag true) :
    Reached cfg now (effect cfg now st (stage.request job))
      (.resume cfg (.reconciling todo job stage) resp) := by
  have hstep := h.step hans htransition
  rw [Recovery.resume]
  · cases hnext : stage.proceed resp with
    | some stage' =>
      rw [hnext] at hstep
      exact hstep
    | none =>
      rw [hnext] at hstep
      exact reached_reconcileNext hstep.1 hstep.2
  · -- an answer is not the failure that ends the pass over the markers
    rintro applied rfl rfl
    cases hans

/-- Each call of a pass that is alone takes it on, and to the end everything is dealt with. -/
theorem Reached.step (h : Reached cfg now st r) (hidle : r ≠ .idle)
    (hcard : (orphanIDs (now - cfg.orphanGrace) st.jobs).card < cfg.batch)
    (hok : Succeeds cfg now r st resp) :
    Reached cfg now (effect cfg now st (r.request cfg)) (r.resume cfg resp) := by
  have hans := hok.answers
  cases r with
  | idle => exact absurd rfl hidle
  | listExpired cutoff =>
    obtain ⟨rfl, hexpired⟩ := h
    cases resp with
    | ids l =>
      obtain rfl : l = expiredJobIDs cutoff cfg.batch st.redis := hans
      refine reached_sweepNext fun j hj _ => ?_
      exact SortedSet.mem_zrangeByScore_of_card_le (Nat.le_of_lt hexpired) hj
    | _ => cases hans
  | recovering cutoff todo job stage =>
    obtain ⟨rfl, hsweeping⟩ := h
    exact reached_recovering hsweeping hans
  | listCompleted =>
    cases resp with
    | ids l =>
      have hl : l.toFinset = st.redis.completedJobs := hans.2
      refine reached_reconcileNext h fun j hj _ => ?_
      exact List.mem_toFinset.mp (hl ▸ hj)
    | _ => cases hans
  | reconciling todo job stage =>
    have htransition : stage = .transition → resp = .flag true := by
      rintro rfl
      exact hok.transitions job .completed rfl
    exact reached_reconciling h hans htransition
  | orphanClock =>
    cases resp with
    | time t =>
      obtain rfl : t = now := hans
      exact ⟨rfl, h⟩
    | _ => cases hans
  | listOrphans before =>
    obtain ⟨rfl, hleases, hmarkers⟩ := h
    cases resp with
    | orphans jobs =>
      refine reached_orphanNext hleases hmarkers ⟨⟨jobs, hans⟩, hans.1, ?_⟩
      intro j row hrow horphan
      exact Or.inr (mem_pending_of_card_lt hans hcard hrow horphan)
    | _ => cases hans
  | enqueueing todo job =>
    obtain ⟨hleases, hmarkers, horphans⟩ := h
    obtain ⟨hprocessing, hcompleted⟩ :
        (effect cfg now st (Recovery.request cfg (.enqueueing todo job))).redis.processingJobs =
            st.redis.processingJobs ∧
          (effect cfg now st (Recovery.request cfg (.enqueueing todo job))).redis.completedJobs =
            st.redis.completedJobs := keeps_of_enqueueIfAbsent (effect_call _) rfl
    refine reached_orphanNext ?_ ?_ horphans.step
    · intro j hj hread
      rw [hprocessing] at hj
      exact hleases j hj hread
    · intro j hj hread
      rw [hcompleted] at hj
      exact hmarkers j hj hread

variable {s t : System} {i : ℕ} {req : Request}

structure Answered (cfg : Config) (i : ℕ) (s : System) (resp : Response) (t : System) : Prop where
  answers : Answers cfg s.clock s.stores ((s.recoveries i).request cfg) resp
  stores : t.stores = effect cfg s.clock s.stores ((s.recoveries i).request cfg)
  recovery : t.recoveries i = (s.recoveries i).resume cfg resp
  clock : t.clock = s.clock

theorem Step.answered (h : Step cfg s (.call (.recovery i) req resp) t)
    (hresp : ∀ b, resp ≠ .failed b) : Answered cfg i s resp t := by
  obtain ⟨hreq, st, hst, ht⟩ := h.call
  obtain rfl : (s.recoveries i).request cfg = req := hreq
  refine ⟨answers_of_serve hst hresp, ?_, h.recovery_self, by rw [ht, resume_clock]⟩
  rcases serve_cases hst with ⟨hfail, -⟩ | ⟨-, rfl, -⟩
  · exact absurd hfail (hresp false)
  · rw [ht, resume_stores]

theorem exists_answered
    (h : Answers cfg s.clock s.stores ((s.recoveries i).request cfg) resp) :
    ∃ t, Step cfg s (.call (.recovery i) ((s.recoveries i).request cfg) resp) t ∧
      Answered cfg i s resp t := by
  have hreq : Requests cfg s ((s.recoveries i).request cfg) (.recovery i) := rfl
  have hstep := Step.of_serve hreq (serve_of_answers h)
  exact ⟨_, hstep, hstep.answered (ne_failed_of_answers h)⟩

end InferenceQueue.Service

import InferenceQueue.OrderByLimit
import InferenceQueue.RecoveryTick

namespace InferenceQueue.Service

open Scheduler Jobs

variable {cfg : Config} {s t v w : System} {i : ℕ} {e : Event} {tr : List Event} {j : JobID}
  {db : Table} {before limit : ℕ} {jobs : List Job}

/-- Time passes, or pass `i` makes a call that does not fail. -/
def Event.Sweeps (i : ℕ) : Event → Prop
  | .tick _ => True
  | .call (.recovery k) _ resp => k = i ∧ ∀ b, resp ≠ .failed b
  | _ => False

/-- A `SweepOrphans` with nothing else going on; it begins by reading the clock. -/
structure OrphanPass (cfg : Config) (i : ℕ) (s : System) (tr : List Event) (t : System) : Prop where
  start : s.recoveries i = .orphanClock
  run : Run (Step cfg) s (.call (.recovery i) .clock (.time s.clock) :: tr) t
  sweeps : ∀ e ∈ tr, e.Sweeps i
  between : Throughout (Step cfg) s (.call (.recovery i) .clock (.time s.clock) :: tr)
    fun _ v _ => v.recoveries i ≠ .idle
  stop : t.recoveries i = .idle

def System.cutoff (cfg : Config) (s : System) : ℕ := s.clock - cfg.orphanGrace

/-- An old created job that is nowhere to be found in Redis though its user's queue has room. -/
def Neglected (cfg : Config) (s : System) (j : JobID) : Prop :=
  ∃ row, s.stores.jobs.lookup j = some row ∧ row.isOrphan (s.cutoff cfg) ∧
    (∀ u, j ∉ s.stores.redis.queue u) ∧ s.stores.redis.processingJobs.zscore j = none ∧
    j ∉ s.stores.redis.completedJobs ∧
    (s.stores.redis.queue row.userID).length < cfg.recoveryCapacity

/-- A pass that changes nothing in Redis has left no such job behind. -/
def LeavesNone (cfg : Config) (i : ℕ) (s : System) : Prop :=
  ∀ tr t, OrphanPass cfg i s tr t → t.stores.redis = s.stores.redis → ∀ j, ¬Neglected cfg s j

instance (capacity : ℕ) (redis : State) (j : JobID) (u : UserID) :
    Decidable (Refused capacity redis j u) := inferInstanceAs (Decidable (_ ∨ _ ∨ _ ∨ _))

def createdAt (db : Table) (j : JobID) : ℕ := ((db.lookup j).map Row.createdAt).getD 0

/-- The old created rows that can be scanned and that `EnqueueIfAbsent` refuses. -/
def refusedIDs (cfg : Config) (s : System) : Finset JobID :=
  (orphanIDs (s.cutoff cfg) s.stores.jobs).filter fun j =>
    ∃ row ∈ s.stores.jobs.lookup j, (0 ≤ row.retryCounts ∧ row.retryCounts ≤ 255) ∧
      Refused cfg.recoveryCapacity s.stores.redis j row.userID

/-- If there is a neglected job, the batch reaches a row beyond those that are refused. -/
def BatchReaches (cfg : Config) (s : System) : Prop :=
  (∃ j, Neglected cfg s j) →
    ∃ j ∈ orphanIDs (s.cutoff cfg) s.stores.jobs, j ∉ refusedIDs cfg s ∧
      ((refusedIDs cfg s).filter
        (createdAt s.stores.jobs · ≤ createdAt s.stores.jobs j)).card < cfg.batch

theorem createdAt_eq {row : Row} (h : db.lookup j = some row) : createdAt db j = row.createdAt := by
  rw [createdAt, h, Option.map_some, Option.getD_some]

theorem createdAt_of_jobByID {job : Job} (h : jobByID job.jobID db = .ok job) :
    createdAt db job.jobID = job.createdAt := by
  obtain ⟨row, hrow, -, hjob⟩ := jobByID_eq_ok.mp h
  rw [createdAt_eq hrow, ← hjob]

theorem orderByLimit_of_pending (h : PendingOrphans before limit db jobs) :
    OrderByLimit (createdAt db) limit (orphanIDs before db) (jobs.map Job.jobID) := by
  have hmem : ∀ job ∈ jobs, job.jobID ∈ orphanIDs before db := fun job hjob =>
    mem_orphanIDs_of_pending h hjob
  obtain ⟨hrows, -, hnodup, hsorted, hlimit, hrest⟩ := h
  refine ⟨hnodup, ?_, ?_, by simpa using hlimit, ?_⟩
  · rw [List.pairwise_map]
    refine hsorted.imp_of_mem fun {a b} ha hb hle => ?_
    rwa [createdAt_of_jobByID (hrows a ha), createdAt_of_jobByID (hrows b hb)]
  · intro j hj
    obtain ⟨job, hjob, rfl⟩ := List.mem_map.mp hj
    exact hmem job hjob
  · intro j hj hnot
    obtain ⟨row, hrow, horphan⟩ := mem_orphanIDs.mp hj
    have hkey : j ∈ db.keys := Finmap.mem_keys.mpr (Finmap.mem_iff.mpr ⟨row, hrow⟩)
    obtain ⟨hlength, hle⟩ := (hrest j hkey row hrow horphan).resolve_left hnot
    refine ⟨by rwa [List.length_map], fun k hk => ?_⟩
    obtain ⟨job, hjob, rfl⟩ := List.mem_map.mp hk
    rw [createdAt_of_jobByID (hrows job hjob), createdAt_eq hrow]
    exact hle job hjob

theorem exists_scanned {ids : List JobID} (h : ∀ j ∈ ids, ∃ job, jobByID j db = .ok job) :
    ∃ jobs : List Job, jobs.map Job.jobID = ids ∧
      ∀ job ∈ jobs, jobByID job.jobID db = .ok job := by
  induction ids with
  | nil => exact ⟨[], rfl, by simp⟩
  | cons j ids ih =>
    rw [List.forall_mem_cons] at h
    obtain ⟨job, hjob⟩ := h.1
    obtain ⟨jobs, hids, hrows⟩ := ih h.2
    obtain ⟨row, -, -, heq⟩ := jobByID_eq_ok.mp hjob
    have hid : job.jobID = j := by rw [← heq]
    refine ⟨job :: jobs, by rw [List.map_cons, hid, hids], ?_⟩
    rw [List.forall_mem_cons, hid]
    exact ⟨hjob, hrows⟩

theorem pending_of_orderByLimit (hrows : ∀ job ∈ jobs, jobByID job.jobID db = .ok job)
    (h : OrderByLimit (createdAt db) limit (orphanIDs before db) (jobs.map Job.jobID)) :
    PendingOrphans before limit db jobs := by
  refine ⟨hrows, ?_, h.nodup, ?_, by simpa using h.limit, ?_⟩
  · intro job hjob
    obtain ⟨row, hrow, horphan⟩ := mem_orphanIDs.mp (h.mem _ (List.mem_map_of_mem hjob))
    obtain ⟨row', hrow', -, heq⟩ := jobByID_eq_ok.mp (hrows job hjob)
    obtain rfl := Option.some.inj (hrow'.symm.trans hrow)
    rw [← heq]
    exact horphan
  · refine (List.pairwise_map.mp h.sorted).imp_of_mem fun {a b} ha hb hle => ?_
    rwa [createdAt_of_jobByID (hrows a ha), createdAt_of_jobByID (hrows b hb)] at hle
  · intro j _ row hrow horphan
    by_cases hmem : j ∈ jobs.map Job.jobID
    · exact Or.inl hmem
    · obtain ⟨hlength, hle⟩ := h.rest j (mem_orphanIDs.mpr ⟨row, hrow, horphan⟩) hmem
      refine Or.inr ⟨by rwa [List.length_map] at hlength, fun job hjob => ?_⟩
      have hjob' := hle _ (List.mem_map_of_mem hjob)
      rwa [createdAt_of_jobByID (hrows job hjob), createdAt_eq hrow] at hjob'

def RefusedBatch (cfg : Config) (s : System) (jobs : List Job) : Prop :=
  PendingOrphans (s.cutoff cfg) cfg.batch s.stores.jobs jobs ∧
    ∀ job ∈ jobs, Refused cfg.recoveryCapacity s.stores.redis job.jobID job.userID

theorem mem_refusedIDs :
    j ∈ refusedIDs cfg s ↔ j ∈ orphanIDs (s.cutoff cfg) s.stores.jobs ∧
      ∃ job, jobByID j s.stores.jobs = .ok job ∧
        Refused cfg.recoveryCapacity s.stores.redis j job.userID := by
  rw [refusedIDs, Finset.mem_filter]
  refine and_congr_right fun _ => ?_
  constructor
  · rintro ⟨row, hrow, hscan, hrefused⟩
    exact ⟨_, jobByID_eq_ok.mpr ⟨row, hrow, hscan, rfl⟩, hrefused⟩
  · rintro ⟨job, hjob, hrefused⟩
    obtain ⟨row, hrow, hscan, rfl⟩ := jobByID_eq_ok.mp hjob
    exact ⟨row, hrow, hscan, hrefused⟩

theorem exists_refusedBatch_iff :
    (∃ jobs, RefusedBatch cfg s jobs) ↔
      ∀ j ∈ orphanIDs (s.cutoff cfg) s.stores.jobs, j ∉ refusedIDs cfg s →
        cfg.batch ≤ ((refusedIDs cfg s).filter
          (createdAt s.stores.jobs · ≤ createdAt s.stores.jobs j)).card := by
  have hsub : refusedIDs cfg s ⊆ orphanIDs (s.cutoff cfg) s.stores.jobs := Finset.filter_subset _ _
  rw [← exists_orderByLimit_within_iff hsub]
  constructor
  · rintro ⟨jobs, hpending, hrefused⟩
    refine ⟨jobs.map Job.jobID, orderByLimit_of_pending hpending, fun j hj => ?_⟩
    obtain ⟨job, hjob, rfl⟩ := List.mem_map.mp hj
    exact mem_refusedIDs.mpr
      ⟨mem_orphanIDs_of_pending hpending hjob, job, hpending.1 job hjob, hrefused job hjob⟩
  · rintro ⟨ids, horder, hids⟩
    obtain ⟨jobs, rfl, hrows⟩ := exists_scanned fun j hj => by
      obtain ⟨-, job, hjob, -⟩ := mem_refusedIDs.mp (hids j hj)
      exact ⟨job, hjob⟩
    refine ⟨jobs, pending_of_orderByLimit hrows horder, fun job hjob => ?_⟩
    obtain ⟨-, job', hjob', hrefused⟩ := mem_refusedIDs.mp (hids _ (List.mem_map_of_mem hjob))
    obtain rfl := Except.ok.inj ((hrows job hjob).symm.trans hjob')
    exact hrefused

theorem enqueueIfAbsent_cases {capacity : ℕ} {ev : Scheduler.Event} {redis redis' : State}
    {job : JobID} {user : UserID} (he : Effect cfg.scheduler redis ev redis')
    (hop : ev.op = .enqueueIfAbsent job user capacity) :
    (redis' = redis ∧ Refused capacity redis job user) ∨
      redis'.queue = Function.update redis.queue user (job :: redis.queue user) := by
  cases he with
  | orphanRefused hheld =>
    cases hop
    exact Or.inl ⟨rfl, hheld⟩
  | orphaned =>
    cases hop
    exact Or.inr (State.enlist_queue redis user job)
  | _ => cases hop

/-- What Redis holds after the jobs `tried`: all of them were refused, or some queue has grown. -/
def Tried (cfg : Config) (redis : State) (tried : List Job) (redis' : State) : Prop :=
  (redis' = redis ∧ ∀ job ∈ tried, Refused cfg.recoveryCapacity redis job.jobID job.userID) ∨
    ∃ u, (redis.queue u).length < (redis'.queue u).length

theorem Tried.snoc {now : ℕ} {redis : State} {st : Stores} {tried : List Job} {job : Job}
    (h : Tried cfg redis tried st.redis) :
    Tried cfg redis (tried ++ [job]) (effect cfg now st
      (.redis (.enqueueIfAbsent job.jobID job.userID cfg.recoveryCapacity))).redis := by
  rcases enqueueIfAbsent_cases (effect_call _) rfl with ⟨hsame, hrefused⟩ | hqueue
  · rw [hsame]
    rcases h with ⟨heq, hall⟩ | hgrown
    · refine Or.inl ⟨heq, fun other hother => ?_⟩
      rcases List.mem_append.mp hother with hother | hother
      · exact hall other hother
      · rw [List.mem_singleton.mp hother, ← heq]
        exact hrefused
    · exact Or.inr hgrown
  · right
    rw [hqueue]
    rcases h with ⟨heq, -⟩ | ⟨u, hlt⟩
    · refine ⟨job.userID, ?_⟩
      rw [Function.update_self, List.length_cons, heq]
      exact Nat.lt_succ_self _
    · refine ⟨u, hlt.trans_le ?_⟩
      rw [Function.update_apply]
      split_ifs with hu
      · rw [hu, List.length_cons]
        exact Nat.le_succ _
      · exact le_rfl

/-- Where the pass stands, `s` being the state in which it began. -/
def Batched (cfg : Config) (s : System) (st : Stores) : Recovery → Prop
  | .listOrphans before => before = s.cutoff cfg ∧ st = s.stores
  | .enqueueing todo job => ∃ tried,
      PendingOrphans (s.cutoff cfg) cfg.batch s.stores.jobs (tried ++ job :: todo) ∧
        Tried cfg s.stores.redis tried st.redis
  | .idle => ∃ jobs, PendingOrphans (s.cutoff cfg) cfg.batch s.stores.jobs jobs ∧
      Tried cfg s.stores.redis jobs st.redis
  | _ => False

theorem batched_orphanNext {st : Stores} {tried todo : List Job}
    (h : PendingOrphans (s.cutoff cfg) cfg.batch s.stores.jobs (tried ++ todo))
    (htried : Tried cfg s.stores.redis tried st.redis) :
    Batched cfg s st (.orphanNext todo) := by
  cases todo with
  | nil =>
    rw [List.append_nil] at h
    exact ⟨tried, h, htried⟩
  | cons job todo => exact ⟨tried, h, htried⟩

theorem Batched.answered {resp : Response} (h : Batched cfg s v.stores (v.recoveries i))
    (hidle : v.recoveries i ≠ .idle) (he : Answered cfg i v resp w) :
    Batched cfg s w.stores (w.recoveries i) := by
  have hans := he.answers
  rw [he.stores, he.recovery]
  cases hr : v.recoveries i with
  | idle => exact absurd hr hidle
  | listOrphans before =>
    rw [hr] at h hans
    obtain ⟨rfl, hst⟩ := h
    cases resp with
    | orphans jobs =>
      rw [hst] at hans
      have htried : Tried cfg s.stores.redis [] v.stores.redis := Or.inl ⟨by rw [hst], by simp⟩
      have hlisted : PendingOrphans (s.cutoff cfg) cfg.batch s.stores.jobs ([] ++ jobs) := hans
      exact batched_orphanNext hlisted htried
    | _ => cases hans
  | enqueueing todo job =>
    rw [hr] at h
    obtain ⟨tried, hpending, htried⟩ := h
    rw [List.append_cons] at hpending
    exact batched_orphanNext hpending htried.snoc
  | _ =>
    rw [hr] at h
    cases h

theorem Batched.step (h : Batched cfg s v.stores (v.recoveries i)) (hidle : v.recoveries i ≠ .idle)
    (hsweeps : e.Sweeps i) (he : Step cfg v e w) : Batched cfg s w.stores (w.recoveries i) := by
  unfold Event.Sweeps at hsweeps
  split at hsweeps
  · rw [he.tick]
    exact h
  · obtain ⟨rfl, hresp⟩ := hsweeps
    exact h.answered hidle (he.answered hresp)
  · cases hsweeps

/-- A pass that changes nothing has been refused everything it listed. -/
theorem refusedBatch_of_pass (h : OrphanPass cfg i s tr t)
    (hsame : t.stores.redis = s.stores.redis) : ∃ jobs, RefusedBatch cfg s jobs := by
  obtain ⟨v, hclock, hrun⟩ := Run.cons_iff.mp h.run
  have hbegun := Step.answered hclock (by simp)
  have hstart : Batched cfg s v.stores (v.recoveries i) := by
    rw [hbegun.stores, hbegun.recovery, h.start]
    exact ⟨rfl, rfl⟩
  have hbetween : Throughout (Step cfg) v tr fun _ v e => v.recoveries i ≠ .idle ∧ e.Sweeps i :=
    (h.between.tail hclock).and (.of_forall h.sweeps)
  have hend : Batched cfg s t.stores (t.recoveries i) :=
    hrun.guarded (fun _ v => Batched cfg s v.stores (v.recoveries i)) hstart
      (fun _ _ _ _ h hok he => h.step hok.1 hok.2 he) hbetween
  rw [h.stop] at hend
  obtain ⟨jobs, hpending, hrefused | ⟨u, hlt⟩⟩ := hend
  · exact ⟨jobs, hpending, hrefused.2⟩
  · rw [hsame] at hlt
    exact absurd hlt (lt_irrefl _)

theorem exists_refused_run (h : v.recoveries i = .orphanNext jobs)
    (hrefused : ∀ job ∈ jobs,
      Refused cfg.recoveryCapacity v.stores.redis job.jobID job.userID) :
    ∃ tr t, Run (Step cfg) v tr t ∧ (∀ e ∈ tr, e.Sweeps i) ∧
      Throughout (Step cfg) v tr (fun _ v _ => v.recoveries i ≠ .idle) ∧
      t.recoveries i = .idle ∧ t.stores.redis = v.stores.redis := by
  induction jobs generalizing v with
  | nil =>
    refine ⟨[], v, .nil, by simp, ?_, h, rfl⟩
    intro past e rest u heq
    simp at heq
  | cons job jobs ih =>
    rw [List.forall_mem_cons] at hrefused
    have hreq : (v.recoveries i).request cfg =
        .redis (.enqueueIfAbsent job.jobID job.userID cfg.recoveryCapacity) := by
      rw [h]
      rfl
    have hans : Answers cfg v.clock v.stores ((v.recoveries i).request cfg)
        (.reply (call cfg.scheduler v.clock v.stores.redis
          (.enqueueIfAbsent job.jobID job.userID cfg.recoveryCapacity)).2) := by
      rw [hreq]
      rfl
    obtain ⟨w, hstep, hw⟩ := exists_answered hans
    -- a refused call changes nothing, so the other jobs are still refused after it
    have hredis : w.stores.redis = v.stores.redis := by
      rw [hw.stores, hreq]
      exact eq_of_refused (effect_call _) rfl hrefused.1
    have hnext : w.recoveries i = .orphanNext jobs := by
      rw [hw.recovery, h]
      rfl
    obtain ⟨tr, t, hrun, hsweeps, hbetween, hstop, hsame⟩ := ih hnext (by
      rw [hredis]
      exact hrefused.2)
    refine ⟨_ :: tr, t, Run.cons_iff.mpr ⟨w, hstep, hrun⟩, ?_, ?_, hstop, hsame.trans hredis⟩
    · rw [List.forall_mem_cons]
      exact ⟨⟨rfl, by simp⟩, hsweeps⟩
    · exact .cons hstep (by simp [h, Recovery.orphanNext]) hbetween

theorem exists_pass_of_refusedBatch (h : s.recoveries i = .orphanClock)
    (hbatch : RefusedBatch cfg s jobs) :
    ∃ tr t, OrphanPass cfg i s tr t ∧ t.stores.redis = s.stores.redis := by
  have hclock : Answers cfg s.clock s.stores ((s.recoveries i).request cfg) (.time s.clock) := by
    rw [h]
    rfl
  obtain ⟨v, hread, hv⟩ := exists_answered hclock
  have hvstores : v.stores = s.stores := by
    rw [hv.stores, h]
    rfl
  have hvnext : v.recoveries i = .listOrphans (s.cutoff cfg) := by
    rw [hv.recovery, h]
    rfl
  have hlist : Answers cfg v.clock v.stores ((v.recoveries i).request cfg) (.orphans jobs) := by
    rw [hvnext, hvstores]
    exact hbatch.1
  obtain ⟨w, hlisted, hw⟩ := exists_answered hlist
  have hwstores : w.stores = s.stores := by
    rw [hw.stores, hvnext, ← hvstores]
    rfl
  have hwnext : w.recoveries i = .orphanNext jobs := by
    rw [hw.recovery, hvnext]
    rfl
  obtain ⟨tr, t, hrun, hsweeps, hbetween, hstop, hsame⟩ := exists_refused_run hwnext (by
    rw [hwstores]
    exact hbatch.2)
  rw [h] at hread
  refine ⟨.call (.recovery i) ((v.recoveries i).request cfg) (.orphans jobs) :: tr, t,
    ⟨h, ?_, ?_, ?_, hstop⟩, by rw [hsame, hwstores]⟩
  · exact Run.cons_iff.mpr ⟨v, hread, Run.cons_iff.mpr ⟨w, hlisted, hrun⟩⟩
  · rw [List.forall_mem_cons]
    exact ⟨⟨rfl, by simp⟩, hsweeps⟩
  · exact .cons hread (by simp [h]) (.cons hlisted (by simp [hvnext]) hbetween)

/-- A pass of `SweepOrphans` that changes nothing shows that no job is neglected, if and only if a
neglected job means that fewer refused rows than a batch come before some row that is not one of
them. -/
theorem orphan_sweep_leaves_none_iff (cfg : Config) (i : ℕ) (s : System)
    (h : s.recoveries i = .orphanClock) : LeavesNone cfg i s ↔ BatchReaches cfg s := by
  have hpass : (∃ tr t, OrphanPass cfg i s tr t ∧ t.stores.redis = s.stores.redis) ↔
      ∃ jobs, RefusedBatch cfg s jobs :=
    ⟨fun ⟨tr, t, hpass, hsame⟩ => refusedBatch_of_pass hpass hsame,
      fun ⟨jobs, hbatch⟩ => exists_pass_of_refusedBatch h hbatch⟩
  rw [exists_refusedBatch_iff] at hpass
  constructor
  · rintro hnone ⟨j, hj⟩
    by_contra hfull
    simp only [not_exists, not_and, not_lt] at hfull
    obtain ⟨tr, t, hp, hsame⟩ := hpass.mpr hfull
    exact hnone tr t hp hsame j hj
  · intro hreach tr t hp hsame j hj
    obtain ⟨k, hk, hnot, hlt⟩ := hreach ⟨j, hj⟩
    have hle := hpass.mp ⟨tr, t, hp, hsame⟩ k hk hnot
    omega

/-- The first job of alice waits in the queue; her second one never got there. -/
def waitingSystem : System where
  clock := 600000
  stores := ⟨State.empty.enlist alice job1, save job2 alice 1 (save job1 alice 0 ∅)⟩
  submits _ := .ended
  workers _ := .idle
  recoveries _ := .orphanClock

def batchOfOne : Config := { smallService with batch := 1 }

theorem waitingSystem_neglects : Neglected batchOfOne waitingSystem job2 := by
  refine ⟨⟨alice, .created, 1, 1⟩, by decide +kernel, ⟨rfl, by decide⟩, ?_, by decide +kernel,
    by decide +kernel, by decide +kernel⟩
  intro u
  change job2 ∉ (State.empty.enlist alice job1).queue u
  rw [State.enlist_queue, Function.update_apply]
  split_ifs
  · decide
  · exact List.not_mem_nil

/-- The batch is filled by a job that is where it belongs, now and in every later pass. -/
theorem orphan_sweep_stops_short :
    ∃ tr t, OrphanPass batchOfOne 0 waitingSystem tr t ∧
      t.stores.redis = waitingSystem.stores.redis ∧ Neglected batchOfOne waitingSystem job2 := by
  have hbatch : RefusedBatch batchOfOne waitingSystem [⟨job1, alice, .created, 1, 0⟩] :=
    ⟨by decide +kernel, by decide +kernel⟩
  obtain ⟨tr, t, hpass, hsame⟩ := exists_pass_of_refusedBatch rfl hbatch
  exact ⟨tr, t, hpass, hsame, waitingSystem_neglects⟩

theorem orphan_sweep_leaves_none_waiting : LeavesNone smallService 0 waitingSystem := by
  refine (orphan_sweep_leaves_none_iff smallService 0 waitingSystem rfl).mpr fun _ => ?_
  exact ⟨job2, by decide +kernel, by decide +kernel, by decide +kernel⟩

end InferenceQueue.Service

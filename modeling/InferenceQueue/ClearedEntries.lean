import InferenceQueue.RecoveryClearing

namespace InferenceQueue.Service

open Scheduler Jobs

variable {cfg : Config} {policies : UserID → Option ℤ} {cutoff : ℕ} {st₀ st : Stores}
  {todo : List JobID} {job j : JobID} {resp : Response} {s t v w : System} {i : ℕ} {e : Event}
  {tr : List Event} {req : Request}

def Event.Clears (policies : UserID → Option ℤ) (i : ℕ) : Event → Prop
  | .tick _ => True
  | .call (.recovery k) req resp => k = i ∧ Unfailing policies req resp
  | _ => False

/-- `Sweep` and `ReconcileCompleted` with nothing else going on; the cutoff is the time at which
they begin. -/
structure ClearingPass (cfg : Config) (policies : UserID → Option ℤ) (i : ℕ) (s : System)
    (tr : List Event) (t : System) : Prop where
  start : s.recoveries i = .idle
  batch : (s.stores.redis.processingJobs.upTo s.clock).card ≤ cfg.batch
  run : Run (Step cfg) s (.call (.recovery i) .clock (.time s.clock) :: tr) t
  clears : ∀ e ∈ tr, e.Clears policies i
  between : Throughout (Step cfg) s (.call (.recovery i) .clock (.time s.clock) :: tr)
    fun _ v _ => v.recoveries i ≠ .orphanClock
  stop : t.recoveries i = .orphanClock

/-- Every expired lease has a created row, and every marker has a row. -/
structure Cleared (cutoff : ℕ) (st : Stores) : Prop where
  leases : ∀ j ∈ st.redis.processingJobs.upTo cutoff,
    ∃ row, st.jobs.lookup j = some row ∧ row.status = .created
  markers : ∀ j ∈ st.redis.completedJobs, ∃ row, st.jobs.lookup j = some row

/-- No row is missing, no closed row is beyond scanning, and a job that is marked completed has
a retry policy. -/
structure Clearable (policies : UserID → Option ℤ) (cutoff : ℕ) (st : Stores) : Prop where
  leases : ∀ j ∈ st.redis.processingJobs.upTo cutoff,
    ∃ row, st.jobs.lookup j = some row ∧ (row.status ≠ .created → Readable st.jobs j)
  markers : ∀ j ∈ st.redis.completedJobs, ∃ row, st.jobs.lookup j = some row
  policies : ∀ j ∈ st.redis.processingJobs.upTo cutoff, j ∈ st.redis.completedJobs →
    ∀ job, jobByID j st.jobs = .ok job → job.status = .created → policies job.userID ≠ none

def Clearing (policies : UserID → Option ℤ) (cutoff : ℕ) (st₀ st : Stores) : Recovery → Prop
  | .listExpired now => now = cutoff ∧ st = st₀
  | .recovering now todo job stage =>
    now = cutoff ∧ Recovering policies cutoff st₀ todo job stage st
  | .listCompleted => SweptTo policies cutoff st₀ [] st
  | .reconciling todo job stage => Marked policies cutoff st₀ todo job st stage
  | .orphanClock => ReconciledTo policies cutoff st₀ [] st
  | _ => False

theorem clearing_sweepNext (h : SweptTo policies cutoff st₀ todo st) :
    Clearing policies cutoff st₀ st (.sweepNext cutoff todo) := by
  cases todo with
  | nil => exact h
  | cons job todo => exact ⟨rfl, h, (List.nodup_cons.mp h.nodup).1, trivial⟩

theorem clearing_reconcileNext (h : ReconciledTo policies cutoff st₀ todo st) :
    Clearing policies cutoff st₀ st (.reconcileNext todo) := by
  cases todo with
  | nil => exact h
  | cons job todo => exact h

theorem sweptTo_expiredJobIDs
    (hbatch : (st₀.redis.processingJobs.upTo cutoff).card ≤ cfg.batch) :
    SweptTo policies cutoff st₀ (expiredJobIDs cutoff cfg.batch st₀.redis) st₀ where
  listed _ hj := SortedSet.mem_zrangeByScore hj
  nodup := SortedSet.nodup_zrangeByScore _ _ _
  stays _ hj := ⟨hj.1, rfl⟩
  taken _ hj := Or.inr (SortedSet.mem_zrangeByScore_of_card_le hbatch hj)
  rows _ _ := rfl
  markers := rfl
  exist _ := rfl

theorem reconciledTo_completedJobIDs {l : List JobID} (h : SweptTo policies cutoff st₀ [] st)
    (hnodup : l.Nodup) (hl : l.toFinset = st.redis.completedJobs) :
    ReconciledTo policies cutoff st₀ l st := by
  have hmem : ∀ j, j ∈ l ↔ j ∈ st₀.redis.completedJobs := by
    intro j
    rw [← h.markers, ← hl, List.mem_toFinset]
  refine ⟨fun j => (hmem j).mp, hnodup, ?_, fun j _ hj => (h.stays j hj).2, ?_, ?_, ?_, h.exist⟩
  · intro j
    exact ⟨fun hj => (h.taken j hj).resolve_right List.not_mem_nil, fun hj => (h.stays j hj).1⟩
  · intro j hj hnot
    rw [hmem] at hnot
    exact ⟨fun hmarked => absurd hmarked hnot, fun _ => (h.stays j hj).2⟩
  · rw [h.markers]
    exact fun _ => id
  · rw [h.markers]
    exact fun _ hj _ => hj

/-- A call of the pass has its effect; only `GetRetryPolicy` may fail, and it has none. -/
structure Spoken (cfg : Config) (policies : UserID → Option ℤ) (i : ℕ) (v : System)
    (resp : Response) (w : System) : Prop where
  heard : Heard cfg policies v.clock v.stores ((v.recoveries i).request cfg) resp
  stores : w.stores = effect cfg v.clock v.stores ((v.recoveries i).request cfg)
  recovery : w.recoveries i = (v.recoveries i).resume cfg resp

theorem Step.spoken (h : Step cfg v (.call (.recovery i) req resp) w)
    (hu : Unfailing policies req resp) : Spoken cfg policies i v resp w := by
  obtain ⟨hreq, st, hst, hw⟩ := h.call
  obtain rfl : (v.recoveries i).request cfg = req := hreq
  refine ⟨⟨hu, fun hresp => (h.answered hresp).answers⟩, ?_, h.recovery_self⟩
  rw [hw, resume_stores]
  rcases serve_cases hst with ⟨rfl, rfl⟩ | ⟨-, rfl, -⟩
  · generalize (v.recoveries i).request cfg = req at hu ⊢
    cases req with
    | retryPolicy user => rfl
    | external what => cases hu
    | _ => exact absurd rfl (hu false)
  · rfl

theorem Clearing.spoken (h : Clearing policies cutoff st₀ v.stores (v.recoveries i))
    (hbatch : (st₀.redis.processingJobs.upTo cutoff).card ≤ cfg.batch)
    (hgoes : v.recoveries i ≠ .orphanClock) (he : Spoken cfg policies i v resp w) :
    Clearing policies cutoff st₀ w.stores (w.recoveries i) := by
  have hheard := he.heard
  rw [he.stores, he.recovery]
  cases hr : v.recoveries i with
  | orphanClock => exact absurd hr hgoes
  | listExpired now =>
    rw [hr] at h hheard
    obtain ⟨rfl, hst⟩ := h
    have hans := hheard.answers hheard.unfailing
    cases resp with
    | ids l =>
      rw [hst] at hans ⊢
      obtain rfl : l = expiredJobIDs now cfg.batch st₀.redis := hans
      exact clearing_sweepNext (sweptTo_expiredJobIDs hbatch)
    | _ => cases hans
  | recovering now todo job stage =>
    rw [hr] at h hheard
    obtain ⟨rfl, hrec⟩ := h
    have hstep := hrec.step hheard
    rw [Recovery.resume]
    cases hnext : stage.proceed resp with
    | some stage' =>
      rw [hnext] at hstep
      exact ⟨rfl, hstep⟩
    | none =>
      rw [hnext] at hstep
      exact clearing_sweepNext hstep
  | listCompleted =>
    rw [hr] at h hheard
    have hans := hheard.answers hheard.unfailing
    cases resp with
    | ids l => exact clearing_reconcileNext (reconciledTo_completedJobIDs h hans.1 hans.2)
    | _ => cases hans
  | reconciling todo job stage =>
    rw [hr] at h hheard
    have hstep := Marked.step h hheard
    rw [Recovery.resume]
    · cases hnext : stage.proceed resp with
      | some stage' =>
        rw [hnext] at hstep
        exact hstep
      | none =>
        rw [hnext] at hstep
        exact clearing_reconcileNext hstep
    · rintro applied rfl rfl
      exact hheard.unfailing applied rfl
  | _ =>
    rw [hr] at h
    cases h

theorem Clearing.step (h : Clearing policies cutoff st₀ v.stores (v.recoveries i))
    (hbatch : (st₀.redis.processingJobs.upTo cutoff).card ≤ cfg.batch)
    (hgoes : v.recoveries i ≠ .orphanClock) (hclears : e.Clears policies i)
    (he : Step cfg v e w) : Clearing policies cutoff st₀ w.stores (w.recoveries i) := by
  unfold Event.Clears at hclears
  split at hclears
  · rw [he.tick]
    exact h
  · obtain ⟨rfl, hu⟩ := hclears
    exact h.spoken hbatch hgoes (he.spoken hu)
  · cases hclears

theorem ClearingPass.reconciled (h : ClearingPass cfg policies i s tr t) :
    ReconciledTo policies s.clock s.stores [] t.stores := by
  obtain ⟨v, hclock, hrun⟩ := Run.cons_iff.mp h.run
  have hbegun := Step.answered hclock (by simp)
  have hstart : Clearing policies s.clock s.stores v.stores (v.recoveries i) := by
    rw [hbegun.stores, hbegun.recovery, h.start]
    exact ⟨rfl, rfl⟩
  have hok : Throughout (Step cfg) v tr
      fun _ v e => v.recoveries i ≠ .orphanClock ∧ e.Clears policies i :=
    (h.between.tail hclock).and (.of_forall h.clears)
  have hend : Clearing policies s.clock s.stores t.stores (t.recoveries i) :=
    hrun.guarded (fun _ v => Clearing policies s.clock s.stores v.stores (v.recoveries i)) hstart
      (fun _ _ _ _ h' hok he => h'.step h.batch hok.1 hok.2 he) hok
  rwa [h.stop] at hend

theorem exists_row_iff {db db' : Table} (h : (db'.lookup j).isSome = (db.lookup j).isSome) :
    (∃ row, db'.lookup j = some row) ↔ ∃ row, db.lookup j = some row := by
  rw [← Option.isSome_iff_exists, ← Option.isSome_iff_exists, h]

theorem stays_of_unreadable (hj : j ∈ st₀.redis.processingJobs.upTo cutoff)
    (hread : ¬Readable st₀.jobs j) : Stays policies cutoff st₀ j :=
  ⟨hj, fun found hfound => absurd ⟨found, hfound⟩ hread⟩

theorem clearable_of_cleared (h : ReconciledTo policies cutoff st₀ [] st)
    (hcleared : Cleared cutoff st) : Clearable policies cutoff st₀ := by
  have hleft : ∀ j, Stays policies cutoff st₀ j →
      ∃ row, st.jobs.lookup j = some row ∧ row.status = .created :=
    fun j hj => hcleared.leases j ((h.leases j).mpr hj)
  refine ⟨?_, ?_, ?_⟩
  · intro j hj
    by_cases hread : Readable st₀.jobs j
    · obtain ⟨row, hrow⟩ := Option.isSome_iff_exists.mp (isSome_of_readable hread)
      exact ⟨row, hrow, fun _ => hread⟩
    · -- a row that `ByID` cannot read keeps its lease, and no marker closes it
      have hstays : Stays policies cutoff st₀ j := stays_of_unreadable hj hread
      obtain ⟨row, hrow, hstatus⟩ := hleft j hstays
      rw [(h.settled j hstays List.not_mem_nil).same fun hboth => hread hboth.2] at hrow
      exact ⟨row, hrow, fun hnot => absurd hstatus hnot⟩
  · intro j hj
    by_contra hnone
    have hmissing : st₀.jobs.lookup j = none :=
      Option.eq_none_iff_forall_ne_some.mpr (not_exists.mp hnone)
    -- the marker is still there, and so must be a row
    have hrow := hcleared.markers j (h.missing j hj hmissing)
    exact hnone ((exists_row_iff (h.exist j)).mp hrow)
  · intro j hj hmarked found hfound hstatus hpolicy
    have hstays : Stays policies cutoff st₀ j := by
      refine ⟨hj, fun other hother => ?_⟩
      obtain rfl := Except.ok.inj (hfound.symm.trans hother)
      exact ⟨hstatus, hpolicy⟩
    obtain ⟨row, hrow, hcreated⟩ := hleft j hstays
    obtain ⟨row', hrow', hclosed⟩ :=
      (h.settled j hstays List.not_mem_nil).closed hmarked ⟨found, hfound⟩
    obtain rfl := Option.some.inj (hrow.symm.trans hrow')
    exact hclosed hcreated

theorem cleared_of_clearable (h : ReconciledTo policies cutoff st₀ [] st)
    (hclear : Clearable policies cutoff st₀) : Cleared cutoff st := by
  refine ⟨?_, ?_⟩
  · intro j hj
    have hstays := (h.leases j).mp hj
    obtain ⟨row, hrow, hclosed⟩ := hclear.leases j hstays.1
    have hcreated : row.status = .created ∧
        ¬(j ∈ st₀.redis.completedJobs ∧ Readable st₀.jobs j) := by
      by_cases hread : Readable st₀.jobs j
      · obtain ⟨found, hfound⟩ := hread
        obtain ⟨hstatus, hpolicy⟩ := hstays.2 found hfound
        obtain ⟨row', hrow', heq, -⟩ := lookup_of_jobByID hfound
        obtain rfl := Option.some.inj (hrow.symm.trans hrow')
        refine ⟨heq ▸ hstatus, fun hboth => ?_⟩
        exact hclear.policies j hstays.1 hboth.1 found hfound hstatus hpolicy
      · exact ⟨not_not.mp fun hnot => hread (hclosed hnot), fun hboth => hread hboth.2⟩
    refine ⟨row, ?_, hcreated.1⟩
    rw [(h.settled j hstays List.not_mem_nil).same hcreated.2, hrow]
  · intro j hj
    exact (exists_row_iff (h.exist j)).mpr (hclear.markers j (h.markers j hj))

/-- After `Sweep` and `ReconcileCompleted` no expired lease is left without a created row and no
marker without a row, if and only if there was none without a row to begin with, and none closed
beyond scanning or marked completed without a retry policy. -/
theorem clears_iff (cfg : Config) (policies : UserID → Option ℤ) (i : ℕ) (s : System)
    (tr : List Event) (t : System) (h : ClearingPass cfg policies i s tr t) :
    Cleared s.clock t.stores ↔ Clearable policies s.clock s.stores :=
  ⟨clearable_of_cleared h.reconciled, cleared_of_clearable h.reconciled⟩

def expiredAndMarked (jobs : Table) : System where
  clock := 1000
  stores.redis :=
    { State.empty with processingJobs := SortedSet.zadd ∅ 500 job1, completedJobs := {job2} }
  stores.jobs := jobs
  submits _ := .ended
  workers _ := .idle
  recoveries _ := .idle

def samePolicy : UserID → Option ℤ := fun _ => some 3

def fruitlessPass : List Event :=
  [.call (.recovery 0) (.expiredJobIDs 1000 10) (.ids [job1]),
   .call (.recovery 0) (.byID job1) (.job (.error (.sentinel .jobNotFound))),
   .call (.recovery 0) .completedJobIDs (.ids [job2]),
   .call (.recovery 0) (.byID job2) (.job (.error (.sentinel .jobNotFound)))]

/-- The lease and the marker are still there, and will be after every later pass. -/
theorem clearing_leaves_entries :
    ∃ t, ClearingPass smallService samePolicy 0 (expiredAndMarked ∅) fruitlessPass t ∧
      ¬Cleared 1000 t.stores ∧ job1 ∈ t.stores.redis.processingJobs.upTo 1000 ∧
      job2 ∈ t.stores.redis.completedJobs ∧ t.stores.jobs = ∅ := by
  obtain ⟨t, hrun, hstop, hlease, hmarker, hjobs⟩ := Run.exists_of_foldlM (step smallService)
    (expiredAndMarked ∅) (.call (.recovery 0) .clock (.time 1000) :: fruitlessPass)
    (fun t => t.recoveries 0 = .orphanClock ∧ job1 ∈ t.stores.redis.processingJobs.upTo 1000 ∧
      job2 ∈ t.stores.redis.completedJobs ∧ t.stores.jobs = ∅)
    (by decide +kernel)
  refine ⟨t, ⟨rfl, by decide +kernel, hrun, ?_, throughout_of_always (by decide +kernel), hstop⟩,
    fun hcleared => ?_, hlease, hmarker, hjobs⟩
  · simp [fruitlessPass, Event.Clears, Unfailing]
  · obtain ⟨row, hrow, -⟩ := hcleared.leases job1 hlease
    simp [hjobs] at hrow

def closedRows : Table :=
  (save job2 alice 0 ∅).insert job1 ⟨alice, .failed, 3, 0⟩

def clearingPass : List Event :=
  [.call (.recovery 0) (.expiredJobIDs 1000 10) (.ids [job1]),
   .call (.recovery 0) (.byID job1) (.job (.ok ⟨job1, alice, .failed, 3, 0⟩)),
   .tick 5,
   .call (.recovery 0) (.redis (.removeIfExpired job1 1000)) (.reply (.flag true)),
   .call (.recovery 0) .completedJobIDs (.ids [job2]),
   .call (.recovery 0) (.byID job2) (.job (.ok ⟨job2, alice, .created, 1, 0⟩)),
   .call (.recovery 0) (.markSelect .completed job2) (.result (.ok ())),
   .call (.recovery 0) (.markUpdate .completed job2 1) (.result (.ok ())),
   .call (.recovery 0) (.external (.transitionStatus job2 .completed)) (.flag true),
   .call (.recovery 0) (.external (.closeStream job2)) (.flag true),
   .call (.recovery 0) (.redis (.removeCompletedJob job2)) (.reply (.done (.ok ())))]

theorem clears_closed_rows :
    ∃ t, ClearingPass smallService samePolicy 0 (expiredAndMarked closedRows) clearingPass t ∧
      Cleared 1000 t.stores := by
  obtain ⟨t, hrun, hstop⟩ := Run.exists_of_foldlM (step smallService)
    (expiredAndMarked closedRows) (.call (.recovery 0) .clock (.time 1000) :: clearingPass)
    (fun t => t.recoveries 0 = .orphanClock) (by decide +kernel)
  have hpass : ClearingPass smallService samePolicy 0 (expiredAndMarked closedRows)
      clearingPass t := by
    refine ⟨rfl, by decide +kernel, hrun, ?_, throughout_of_always (by decide +kernel), hstop⟩
    simp [clearingPass, Event.Clears, Unfailing]
  have hleases : (expiredAndMarked closedRows).stores.redis.processingJobs.upTo 1000 = {job1} := by
    decide +kernel
  refine ⟨t, hpass, (clears_iff _ _ _ _ _ _ hpass).mpr ⟨?_, ?_, ?_⟩⟩
  · intro j hj
    have hjob : j ∈ ({job1} : Finset JobID) := hleases ▸ hj
    rw [Finset.mem_singleton.mp hjob]
    exact ⟨⟨alice, .failed, 3, 0⟩, by decide +kernel,
      fun _ => ⟨⟨job1, alice, .failed, 3, 0⟩, by decide +kernel⟩⟩
  · intro j hj
    rw [Finset.mem_singleton.mp hj]
    exact ⟨⟨alice, .created, 1, 0⟩, by decide +kernel⟩
  · intro j _ _ found _ _
    simp [samePolicy]

end InferenceQueue.Service

import InferenceQueue.PlatformSteps

namespace InferenceQueue.Platform

open Service Idempotency Jobs

def rowRecord : Jobs.Status → RecordStatus
  | .created => .inFlight
  | .completed => .completed
  | .failed => .failed

/-- No row is completed while the record bound to it is failed, nor the other way round. -/
def Agree (p : State) : Prop :=
  ∀ key r j row, p.idempotency.records.get p.clock key = some r → r.jobID = some j →
    p.system.stores.jobs.lookup j = some row →
    ¬(row.status = .completed ∧ r.status = .failed) ∧
      ¬(row.status = .failed ∧ r.status = .completed)

/-- A transition that finds a record in flight finds the job's own and follows the row, and a job
is bound to a record in flight. -/
def OpFollowsRow (p : State) : Idempotency.Op → Prop
  | .transitionStatus j status | .transitionStatusIfInFlight j status =>
    ∀ key ∈ p.idempotency.links.get p.clock j, ∀ r ∈ p.idempotency.records.get p.clock key,
      r.status = .inFlight → r.jobID = some j ∧
        ∃ row ∈ p.system.stores.jobs.lookup j, rowRecord row.status = status
  | .setJobID userID header _ =>
    ∀ r ∈ p.idempotency.records.get p.clock (buildIdempotencyKey userID header),
      r.status = .inFlight
  | _ => True

instance (p : State) (op : Idempotency.Op) : Decidable (OpFollowsRow p op) := by
  unfold OpFollowsRow
  split <;> infer_instance

/-- `MarkCompleted` and `MarkFailed` write only rows that are still open. -/
def RowStillOpen (p : State) : Event → Prop
  | .system (.call _ (.markUpdate _ j _) _) =>
    ∀ row ∈ p.system.stores.jobs.lookup j, row.status = .created
  | _ => True

instance (p : State) (e : Event) : Decidable (RowStillOpen p e) := by
  unfold RowStillOpen
  split <;> infer_instance

def FollowsRow (cfg : Config) (_ : List Event) (p : State) (e : Event) : Prop :=
  (∀ op ∈ idempotencyOp cfg p e, OpFollowsRow p op) ∧ RowStillOpen p e

instance (cfg : Config) (past : List Event) (p : State) (e : Event) :
    Decidable (FollowsRow cfg past p e) := by
  unfold FollowsRow
  infer_instance

variable {cfg : Config} {p q : State} {e : Event} {j : JobID} {tr past : List Event}

theorem Step.rowRecord {status : RecordStatus} (h : Step cfg p e q) (hopen : RowStillOpen p e)
    (hstatus : status ≠ .inFlight)
    (hrow : ∃ row ∈ p.system.stores.jobs.lookup j, Platform.rowRecord row.status = status) :
    ∃ row ∈ q.system.stores.jobs.lookup j, Platform.rowRecord row.status = status := by
  obtain ⟨row, hrow, hrecord⟩ := hrow
  have hclosed : row.status ≠ .created := by
    intro hcreated
    rw [hcreated] at hrecord
    exact hstatus hrecord.symm
  rcases h.row j with hsame | ⟨se, rfl, hstep⟩
  · exact ⟨row, hsame.trans hrow, hrecord⟩
  · generalize hnext : q.system.stores.jobs.lookup j = next at hstep
    cases hstep with
    | same hsame => exact ⟨row, hsame.trans hrow, hrecord⟩
    | created hnew => simp [hnew] at hrow
    | marked => exact absurd (hopen row hrow) hclosed
    | counted hrow' hcreated =>
      obtain rfl := Option.some.inj (hrow'.symm.trans hrow)
      exact absurd hcreated hclosed

/-- A finished record tells the status of the row it is bound to. -/
def RecordsFollow (p : State) : Prop :=
  ∀ key v j, p.idempotency.records.lookup key = some v → v.value.jobID = some j →
    v.value.status ≠ .inFlight →
    ∃ row ∈ p.system.stores.jobs.lookup j, rowRecord row.status = v.value.status

theorem RecordsFollow.step (h : RecordsFollow p) (hok : FollowsRow cfg past p e)
    (he : Step cfg p e q) : RecordsFollow q := by
  intro key v j hv hjob hstatus
  refine he.rowRecord hok.2 hstatus ?_
  rcases he.record key with hsame | ⟨op, hop, hchange⟩
  · exact h key v j (hsame ▸ hv) hjob hstatus
  · have hop' := hok.1 op hop
    generalize hnext : q.idempotency.records.lookup key = next at hchange hv
    cases hchange with
    | same => exact h key v j hv hjob hstatus
    | claimed =>
      rw [Redis.value_of_expire hv] at hstatus
      exact absurd rfl hstatus
    | bound hkey hrecord hlive =>
      subst hkey
      cases hv
      exact absurd (hop' _ (Redis.fetch_some.mpr ⟨_, hrecord, hlive, rfl⟩)) hstatus
    | deleted => cases hv
    | @finished _ j' status r htransitions hlink hrecord hinFlight =>
      -- the record that was found is that of the job whose row was followed
      rw [Redis.value_of_expire hv] at hjob ⊢
      have hown : r.jobID = some j' ∧
          ∃ row ∈ p.system.stores.jobs.lookup j', rowRecord row.status = status := by
        cases op with
        | transitionStatus | transitionStatusIfInFlight =>
          cases htransitions
          exact hop' key hlink r hrecord hinFlight
        | _ => cases htransitions
      obtain rfl := Option.some.inj (hown.1.symm.trans hjob)
      exact hown.2

theorem RecordsFollow.agree (h : RecordsFollow p) : Agree p := by
  intro key r j row hr hjob hrow
  obtain ⟨v, hv, -, rfl⟩ := Redis.fetch_some.mp hr
  have hsame : v.value.status ≠ .inFlight → rowRecord row.status = v.value.status := by
    intro hstatus
    obtain ⟨row', hrow', hrecord⟩ := h key v j hv hjob hstatus
    obtain rfl := Option.some.inj (hrow'.symm.trans hrow)
    exact hrecord
  constructor
  · rintro ⟨hcompleted, hfailed⟩
    have hrecord := hsame (by rw [hfailed]; decide)
    rw [hcompleted, hfailed] at hrecord
    cases hrecord
  · rintro ⟨hfailed, hcompleted⟩
    have hrecord := hsame (by rw [hcompleted]; decide)
    rw [hcompleted, hfailed] at hrecord
    cases hrecord

/-- While every transition follows the row and rows are closed once, rows and records never tell
opposite outcomes. -/
theorem row_and_record_agree (h : Run (Step cfg) State.initial tr p)
    (hok : Throughout (Step cfg) State.initial tr (FollowsRow cfg)) : Agree p := by
  apply RecordsFollow.agree
  refine h.guarded (fun _ p => RecordsFollow p) ?_ ?_ hok
  · intro key v j hv
    simp [State.initial, Store.empty] at hv
  · intro past p e q hp hok he
    exact hp.step hok he

/-- The worker cannot write the row but fails the record; the orphan sweep has the job run again,
and this time it completes. -/
def rerun : List Event :=
  accepted 0 alice "k" hello job1 ++
    calls ([claiming 0 job1 alice,
      .call (.worker 0) (.retryPolicy alice) (.policy 3),
      .call (.worker 0) (.external (.payload job1)) (.flag true),
      .call (.worker 0) (.generate job1 3) (.attempts false 3),
      .call (.worker 0) (.markSelect .failed job1) (.failed false),
      .call (.worker 0) (.external (.transitionStatus job1 .failed)) (.flag true),
      .call (.worker 0) (.redis (.releaseProcessingJob job1)) (.reply (.done (.ok ()))),
      .tick 300001,
      .call (.recovery 0) .clock (.time 300001),
      .call (.recovery 0) (.expiredJobIDs 300001 10) (.ids []),
      .call (.recovery 0) .completedJobIDs (.ids []),
      .call (.recovery 0) .clock (.time 300001),
      .call (.recovery 0) (.pendingOrphans 1 10) (.orphans [⟨job1, alice, .created, 1, 0⟩]),
      .call (.recovery 0) (.redis (.enqueueIfAbsent job1 alice 2)) (.reply (.flag true)),
      claiming 1 job1 alice] ++ generated 1 job1 alice ++
     [.call (.worker 1) (.markSelect .completed job1) (.result (.ok ())),
      .call (.worker 1) (.markUpdate .completed job1 1) (.result (.ok ()))])

theorem row_and_record_disagree :
    ∃ p, Run (Step smallPlatform) State.initial rerun p ∧ ¬Agree p := by
  obtain ⟨p, hrun, hrecord, hrow⟩ := Run.exists_of_foldlM (step smallPlatform) State.initial rerun
    (fun p => (∃ r ∈ p.idempotency.records.get p.clock "idempotent:alice:inference:k",
        r.jobID = some job1 ∧ r.status = .failed) ∧
      ∃ row ∈ p.system.stores.jobs.lookup job1, row.status = .completed) (by decide +kernel)
  refine ⟨p, hrun, fun hagree => ?_⟩
  obtain ⟨r, hr, hjob, hfailed⟩ := hrecord
  obtain ⟨row, hrow, hcompleted⟩ := hrow
  exact (hagree _ r job1 row hr hjob hrow).1 ⟨hcompleted, hfailed⟩

/-- One job that completes, and one that is turned away because its deadline is short. -/
def closedOnce : List Event :=
  accepted 0 alice "k" hello job1 ++
    calls (claiming 0 job1 alice :: generated 0 job1 alice ++
     [.call (.worker 0) (.markSelect .completed job1) (.result (.ok ())),
      .call (.worker 0) (.markUpdate .completed job1 1) (.result (.ok ())),
      .call (.worker 0) (.external (.transitionStatus job1 .completed)) (.flag true)]) ++
    admitted 1 bob "k" hello ++
    calls [.call (.submit 1) (.create job2 bob) (.result (.ok ())),
      .call (.submit 1) (.external (.setJobID job2)) (.flag true),
      .call (.submit 1) (.external .deadline) (.flag false),
      .call (.submit 1) (.markSelect .failed job2) (.result (.ok ())),
      .call (.submit 1) (.markUpdate .failed job2 0) (.result (.ok ())),
      .call (.submit 1) (.external (.transitionStatus job2 .failed)) (.flag true)]

theorem row_and_record_agree_closed :
    ∃ p, Run (Step smallPlatform) State.initial closedOnce p ∧
      ((p.idempotency.records.get p.clock "idempotent:alice:inference:k").map Record.status =
          some .completed ∧
        (p.idempotency.records.get p.clock "idempotent:bob:inference:k").map Record.status =
          some .failed) ∧ Agree p := by
  obtain ⟨p, hrun, hstatus⟩ := Run.exists_of_foldlM (step smallPlatform) State.initial closedOnce
    (fun p => (p.idempotency.records.get p.clock "idempotent:alice:inference:k").map Record.status =
        some .completed ∧
      (p.idempotency.records.get p.clock "idempotent:bob:inference:k").map Record.status =
        some .failed) (by decide +kernel)
  exact ⟨p, hrun, hstatus, row_and_record_agree hrun (throughout_of_always (by decide +kernel))⟩

end InferenceQueue.Platform

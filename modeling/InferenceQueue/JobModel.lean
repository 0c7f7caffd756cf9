import InferenceQueue.Shared
import Mathlib.Data.Finmap

namespace InferenceQueue.Jobs

inductive Status
  | created
  | completed
  | failed
deriving DecidableEq

structure Row where
  userID : UserID
  status : Status
  retryCounts : ℤ
  createdAt : ℕ
deriving DecidableEq

/-- The `jobs` table. One statement on it is atomic; `MarkCompleted` and `MarkFailed` are two of
them with a check in memory between. -/
abbrev Table := Finmap (fun _ : JobID => Row)

/-- A row as `JobByID` scans it. -/
structure Job where
  jobID : JobID
  userID : UserID
  status : Status
  /-- `uint8` -/
  currentAttempt : ℕ
  createdAt : ℕ
deriving DecidableEq

inductive Outcome
  | completed
  | failed
deriving DecidableEq

def Outcome.status : Outcome → Status
  | completed => .completed
  | failed => .failed

theorem Outcome.status_ne_created (o : Outcome) : o.status ≠ .created := by
  cases o <;> decide

/-- What `Complete` and `Fail` do. -/
def Job.finish (o : Outcome) (job : Job) : Except GoError Job :=
  if job.status ≠ .created then .error (.sentinel .jobInvalidTransition)
  else .ok { job with status := o.status }

def Job.complete : Job → Except GoError Job := Job.finish .completed

def Job.fail : Job → Except GoError Job := Job.finish .failed

/-- The INSERT of `Save`; the row must be new. -/
def save (jobID : JobID) (userID : UserID) (now : ℕ) (db : Table) : Table :=
  db.insert jobID ⟨userID, .created, 1, now⟩

def jobByID (jobID : JobID) (db : Table) : Except GoError Job :=
  match db.lookup jobID with
  | none => .error (.sentinel .jobNotFound)
  | some row =>
    -- `retry_counts` is an INTEGER, the field it is scanned into a `uint8`
    if 0 ≤ row.retryCounts ∧ row.retryCounts ≤ 255 then
      .ok ⟨jobID, row.userID, row.status, row.retryCounts.toNat, row.createdAt⟩
    else .error (.wrap "find job by id: " (.text "can't scan retry_counts into uint8"))

def updateStatus (jobID : JobID) (status : Status) (retryCount : ℤ) (db : Table) :
    Table × Except GoError Unit :=
  match db.lookup jobID with
  | none => (db, .error (.sentinel .jobNotFound))
  | some row => (db.insert jobID { row with status := status, retryCounts := retryCount }, .ok ())

def updateStatusIfStatus (jobID : JobID) (retryCount : ℤ) (status expectedStatus : Status)
    (db : Table) : Table × Bool :=
  match db.lookup jobID with
  | none => (db, false)
  | some row =>
    if row.status = expectedStatus then
      (db.insert jobID { row with status := status, retryCounts := retryCount }, true)
    else (db, false)

def Row.isOrphan (before : ℕ) (row : Row) : Prop := row.status = .created ∧ row.createdAt < before

instance (before : ℕ) : DecidablePred (Row.isOrphan before) := fun row =>
  inferInstanceAs (Decidable (row.status = .created ∧ row.createdAt < before))

/-- What the SELECT of `PendingOrphans` may return: rows of one `created_at` come in any order. -/
def PendingOrphans (before limit : ℕ) (db : Table) (jobs : List Job) : Prop :=
  (∀ job ∈ jobs, jobByID job.jobID db = .ok job) ∧
    (∀ job ∈ jobs, job.status = .created ∧ job.createdAt < before) ∧
    (jobs.map Job.jobID).Nodup ∧
    jobs.Pairwise (fun a b => a.createdAt ≤ b.createdAt) ∧
    jobs.length ≤ limit ∧
    ∀ jobID ∈ db.keys, ∀ row ∈ db.lookup jobID, row.isOrphan before →
      jobID ∈ jobs.map Job.jobID ∨
        (jobs.length = limit ∧ ∀ job ∈ jobs, job.createdAt ≤ row.createdAt)

instance (before limit : ℕ) (db : Table) (jobs : List Job) :
    Decidable (PendingOrphans before limit db jobs) :=
  inferInstanceAs (Decidable (_ ∧ _ ∧ _ ∧ _ ∧ _ ∧ _))

def errTypeJob : String := "JOB_FAILED"

def errCodeJobNotFound : String := "JOB_NOT_FOUND"

def errCodeJobStatusUpdateFailed : String := "JOB_STATUS_UPDATE_FAILED"

def errCodeDBQueryFailed : String := "DB_QUERY_FAILED"

/-- `MarkCompleted` or `MarkFailed` up to its UPDATE. -/
def markSelect (o : Outcome) (jobID : JobID) (db : Table) : Except GoError Unit :=
  match jobByID jobID db with
  | .error err =>
    if err.is .jobNotFound then .error (err.ensureAppError errCodeJobNotFound errTypeJob)
    else .error (err.ensureAppError errCodeDBQueryFailed errTypeJob)
  | .ok job =>
    match job.finish o with
    | .error err => .error (err.ensureAppError errCodeJobStatusUpdateFailed errTypeJob)
    | .ok _ => .ok ()

/-- The UPDATE of `MarkCompleted` or `MarkFailed`. -/
def markUpdate (o : Outcome) (jobID : JobID) (retryCount : ℤ) (db : Table) :
    Table × Except GoError Unit :=
  match updateStatus jobID o.status retryCount db with
  | (db, .error err) => (db, .error (err.ensureAppError errCodeJobStatusUpdateFailed errTypeJob))
  | (db, .ok ()) => (db, .ok ())

/-- The two statements without anything between them. -/
def mark (o : Outcome) (jobID : JobID) (retryCount : ℤ) (db : Table) :
    Table × Except GoError Unit :=
  match markSelect o jobID db with
  | .error err => (db, .error err)
  | .ok () => markUpdate o jobID retryCount db

def markCompleted : JobID → ℤ → Table → Table × Except GoError Unit := mark .completed

def markFailed : JobID → ℤ → Table → Table × Except GoError Unit := mark .failed

variable {db : Table} {o : Outcome} {j j' : JobID} {n : ℤ} {row : Row} {status expected : Status}

theorem lookup_save (now : ℕ) (u : UserID) :
    (save j u now db).lookup j' = if j' = j then some ⟨u, .created, 1, now⟩ else db.lookup j' := by
  unfold save
  split_ifs with h
  · rw [h, Finmap.lookup_insert]
  · exact Finmap.lookup_insert_of_ne db h

theorem lookup_updateStatus :
    (updateStatus j status n db).1.lookup j' =
      if j' = j then (db.lookup j).map fun row => { row with status := status, retryCounts := n }
      else db.lookup j' := by
  unfold updateStatus
  by_cases h : j' = j
  · subst h
    cases hrow : db.lookup j' <;> simp [hrow]
  · cases db.lookup j <;> simp [h]

theorem lookup_updateStatusIfStatus :
    (updateStatusIfStatus j n status expected db).1.lookup j' =
      if j' = j then (db.lookup j).map fun row =>
        if row.status = expected then { row with status := status, retryCounts := n } else row
      else db.lookup j' := by
  unfold updateStatusIfStatus
  by_cases h : j' = j
  · subst h
    cases hrow : db.lookup j' with
    | none => simp [hrow]
    | some row => by_cases hs : row.status = expected <;> simp [hs, hrow]
  · cases db.lookup j with
    | none => simp [h]
    | some row => by_cases hs : row.status = expected <;> simp [h, hs]

theorem markUpdate_fst : (markUpdate o j n db).1 = (updateStatus j o.status n db).1 := by
  unfold markUpdate
  rcases updateStatus j o.status n db with ⟨db', err | ⟨⟩⟩ <;> rfl

theorem markUpdate_snd_ok : (markUpdate o j n db).2 = .ok () ↔ (db.lookup j).isSome := by
  unfold markUpdate updateStatus
  cases hrow : db.lookup j <;> simp

theorem jobByID_eq_ok {job : Job} :
    jobByID j db = .ok job ↔ ∃ row, db.lookup j = some row ∧
      (0 ≤ row.retryCounts ∧ row.retryCounts ≤ 255) ∧
      ⟨j, row.userID, row.status, row.retryCounts.toNat, row.createdAt⟩ = job := by
  unfold jobByID
  cases hrow : db.lookup j with
  | none => simp
  | some row =>
    by_cases hfits : 0 ≤ row.retryCounts ∧ row.retryCounts ≤ 255 <;> simp [hfits]

theorem lookup_of_jobByID {job : Job} (h : jobByID j db = .ok job) :
    ∃ row, db.lookup j = some row ∧ job.status = row.status ∧ job.userID = row.userID ∧
      (job.currentAttempt : ℤ) = row.retryCounts := by
  obtain ⟨row, hrow, hfits, rfl⟩ := jobByID_eq_ok.mp h
  exact ⟨row, hrow, rfl, rfl, Int.toNat_of_nonneg hfits.1⟩

theorem jobByID_error {err : GoError} (h : jobByID j db = .error err) :
    err.appCode = none ∧ err.is .recoveryJobNotFound = false := by
  unfold jobByID at h
  cases hrow : db.lookup j with
  | none =>
    simp only [hrow] at h
    obtain rfl := Except.error.inj h
    exact ⟨rfl, rfl⟩
  | some row =>
    simp only [hrow] at h
    split_ifs at h with hfits
    obtain rfl := Except.error.inj h
    exact ⟨rfl, rfl⟩

/-- A job passes the check only while its row is `created`. -/
theorem lookup_of_markSelect (h : markSelect o j db = .ok ()) :
    ∃ row, db.lookup j = some row ∧ row.status = .created := by
  unfold markSelect jobByID at h
  cases hrow : db.lookup j with
  | none => simp [hrow, GoError.is] at h
  | some row =>
    refine ⟨row, rfl, ?_⟩
    by_contra hstatus
    by_cases hfits : 0 ≤ row.retryCounts ∧ row.retryCounts ≤ 255
    · simp [hrow, hfits, Job.finish, hstatus] at h
    · simp [hrow, hfits, GoError.is] at h

end InferenceQueue.Jobs

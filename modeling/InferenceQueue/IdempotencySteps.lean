import InferenceQueue.IdempotencyModel

namespace InferenceQueue.Idempotency

open Redis

inductive Op
  | claimOrGet (userID : UserID) (header : String) (ttl : ℕ)
  | setJobID (userID : UserID) (header : String) (jobID : JobID)
  | delete (userID : UserID) (header : String)
  | transitionStatus (jobID : JobID) (status : RecordStatus)
  | transitionStatusIfInFlight (jobID : JobID) (status : RecordStatus)
deriving DecidableEq

def perform (completedTTL now : ℕ) : Op → Store → Store
  | .claimOrGet userID header ttl, s => (claimOrGet now userID header ttl s).2
  | .setJobID userID header jobID, s => (setJobID now userID header jobID s).2
  | .delete userID header, s => delete userID header s
  | .transitionStatus jobID status, s => (transitionStatus now completedTTL jobID status s).2
  | .transitionStatusIfInFlight jobID status, s =>
    (transitionStatusIfInFlight now completedTTL jobID status s).2

def Op.transitions : Op → Option (JobID × RecordStatus)
  | transitionStatus jobID status | transitionStatusIfInFlight jobID status => some (jobID, status)
  | _ => none

inductive RecordChange (completedTTL now : ℕ) (s : Store) (key : String) :
    Op → Option (Volatile Record) → Prop
  | same {op} : RecordChange completedTTL now s key op (s.records.lookup key)
  | claimed {userID header ttl} (hkey : buildIdempotencyKey userID header = key)
      (hfree : s.records.get now key = none) :
      RecordChange completedTTL now s key (.claimOrGet userID header ttl)
        (expire now ttl ⟨.inFlight, now / 1000, none, none⟩)
  | bound {userID header jobID v} (hkey : buildIdempotencyKey userID header = key)
      (hrecord : s.records.lookup key = some v) (hlive : v.Live now) :
      RecordChange completedTTL now s key (.setJobID userID header jobID)
        (some (v.set { v.value with jobID := some jobID }))
  | deleted {userID header} (hkey : buildIdempotencyKey userID header = key) :
      RecordChange completedTTL now s key (.delete userID header) none
  | finished {op jobID status r} (hop : op.transitions = some (jobID, status))
      (hlink : s.links.get now jobID = some key) (hrecord : s.records.get now key = some r)
      (hstatus : r.status = .inFlight) :
      RecordChange completedTTL now s key op
        (expire now completedTTL { r with status, completedAt := some (now / 1000) })

variable {completedTTL now : ℕ} {s : Store}

theorem recordChange_transition (key : String) {op : Op} {jobID : JobID} {status : RecordStatus}
    (hop : op.transitions = some (jobID, status)) :
    RecordChange completedTTL now s key op
      ((transitionScript now completedTTL jobID status s).2.records.lookup key) := by
  rcases transitionScript_cases now completedTTL jobID status s with
    ⟨-, hsame⟩ | ⟨key', r, hlink, hrecord, hstatus, heq⟩
  · rw [hsame]
    exact .same
  · rw [heq, Keyspace.lookup_put]
    split_ifs with hkey
    · subst hkey
      exact .finished hop hlink hrecord hstatus
    · exact .same

theorem recordChange (op : Op) (key : String) :
    RecordChange completedTTL now s key op
      ((perform completedTTL now op s).records.lookup key) := by
  cases op with
  | claimOrGet userID header ttl =>
    change RecordChange _ _ _ _ _ ((claimOrGet now userID header ttl s).2.records.lookup key)
    cases hr : s.records.get now (buildIdempotencyKey userID header) with
    | some r =>
      rw [claimOrGet_of_some hr]
      exact .same
    | none =>
      rw [claimOrGet_of_none hr, Keyspace.lookup_put]
      split_ifs with hkey
      · subst hkey
        exact .claimed rfl hr
      · exact .same
  | setJobID userID header jobID =>
    change RecordChange _ _ _ _ _
      ((setJobIDScript now (buildIdempotencyKey userID header) jobID s).2.records.lookup key)
    rcases setJobIDScript_cases now (buildIdempotencyKey userID header) jobID s with
      ⟨-, heq⟩ | ⟨v, hv, hlive, heq⟩
    · rw [heq]
      exact .same
    · rw [heq, Keyspace.lookup_put]
      split_ifs with hkey
      · subst hkey
        exact .bound rfl hv hlive
      · exact .same
  | delete userID header =>
    change RecordChange _ _ _ _ _ ((delete userID header s).records.lookup key)
    rw [delete, Keyspace.lookup_put]
    split_ifs with hkey
    · exact .deleted hkey.symm
    · exact .same
  | transitionStatus jobID status => exact recordChange_transition key rfl
  | transitionStatusIfInFlight jobID status => exact recordChange_transition key rfl

theorem linked_of_transition {jobID j : JobID} {status : RecordStatus} {v : Volatile String}
    (h : (transitionScript now completedTTL jobID status s).2.links.lookup j = some v) :
    ∃ v', s.links.lookup j = some v' ∧ v'.value = v.value := by
  rcases transitionScript_cases now completedTTL jobID status s with
    ⟨-, hsame⟩ | ⟨key, r, hlink, -, -, heq⟩
  · exact ⟨v, by rwa [hsame] at h, rfl⟩
  · rw [heq, Keyspace.lookup_put] at h
    split_ifs at h with hj
    · subst hj
      obtain ⟨v', hv', -, hvalue⟩ := fetch_some.mp hlink
      exact ⟨v', hv', hvalue.trans (value_of_expire h).symm⟩
    · exact ⟨v, h, rfl⟩

/-- Only `SetJobID` makes the reverse key of a job lead somewhere else. -/
theorem linked_of_perform {op : Op} {j : JobID} {v : Volatile String}
    (h : (perform completedTTL now op s).links.lookup j = some v) :
    (∃ v', s.links.lookup j = some v' ∧ v'.value = v.value) ∨
      ∃ userID header, op = .setJobID userID header j ∧
        v.value = buildIdempotencyKey userID header := by
  cases op with
  | claimOrGet userID header ttl =>
    left
    refine ⟨v, ?_, rfl⟩
    change (claimOrGet now userID header ttl s).2.links.lookup j = some v at h
    cases hr : s.records.get now (buildIdempotencyKey userID header) with
    | some r => rwa [claimOrGet_of_some hr] at h
    | none => rwa [claimOrGet_of_none hr] at h
  | setJobID userID header jobID =>
    change (setJobIDScript now (buildIdempotencyKey userID header) jobID s).2.links.lookup j =
      some v at h
    rcases setJobIDScript_cases now (buildIdempotencyKey userID header) jobID s with
      ⟨-, heq⟩ | ⟨v', -, -, heq⟩
    · exact Or.inl ⟨v, by rwa [heq] at h, rfl⟩
    · rw [heq, Keyspace.lookup_put] at h
      split_ifs at h with hj
      · subst hj
        cases h
        exact Or.inr ⟨userID, header, rfl, rfl⟩
      · exact Or.inl ⟨v, h, rfl⟩
  | delete userID header => exact Or.inl ⟨v, h, rfl⟩
  | transitionStatus jobID status => exact Or.inl (linked_of_transition h)
  | transitionStatusIfInFlight jobID status => exact Or.inl (linked_of_transition h)

end InferenceQueue.Idempotency

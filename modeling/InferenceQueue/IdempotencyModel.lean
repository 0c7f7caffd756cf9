import InferenceQueue.RedisKeys
import InferenceQueue.Shared

namespace InferenceQueue.Idempotency

open Redis

/-- The field `status`: the three values the scripts know, or any other text. -/
inductive RecordStatus
  | inFlight
  | completed
  | failed
  | other (text : String)
deriving DecidableEq, Repr

/-- The fields `created_at` and `completed_at` are in seconds, as RFC 3339 prints them. -/
structure Record where
  status : RecordStatus
  createdAt : ℕ
  jobID : Option JobID
  completedAt : Option ℕ
deriving DecidableEq

/-- One hash for each idempotency key, and for each bound job a reverse key that leads to the hash.
-/
structure Store where
  records : Keyspace String Record
  /-- the keys `jobID:…:IdempotencyKey` -/
  links : Keyspace JobID String
deriving DecidableEq

def Store.empty : Store := ⟨∅, ∅⟩

def buildIdempotencyKey (userID : UserID) (idempotencyHeader : String) : String :=
  "idempotent:" ++ userID.val ++ ":inference:" ++ idempotencyHeader

inductive Action
  | new
  | duplicateInFlight
  | replay
  | unknown
  | failed
deriving DecidableEq, Repr

/-- The field `Err` of the result. -/
def Action.err : Action → Option GoError
  | new => none
  | duplicateInFlight => some (.text "duplicated idempotency key")
  | replay => some (.text "already processed idempotency key")
  | unknown => some (.text "unknown state for idempotency key")
  | failed => some (.text "job has failed")

structure IdempotencyResult where
  action : Action
  jobID : Option JobID
deriving DecidableEq

def RecordStatus.action : RecordStatus → Action
  | inFlight => .duplicateInFlight
  | completed => .replay
  | failed => .failed
  | other _ => .unknown

section

variable (now : ℕ)

/-- `ClaimOrGet`; the TTL is in whole seconds. -/
def claimOrGet (userID : UserID) (idempotencyHeader : String) (ttl : ℕ) (s : Store) :
    IdempotencyResult × Store :=
  let key := buildIdempotencyKey userID idempotencyHeader
  match s.records.get now key with
  | none =>
    (⟨.new, none⟩,
      { s with records := s.records.put key (expire now ttl ⟨.inFlight, now / 1000, none, none⟩) })
  | some r => (⟨r.status.action, r.jobID⟩, s)

/-- The expiry of the reverse key: none when `TTL` of the record reads 0 or there is none. -/
def linkExpiry (v : Volatile Record) : Option ℕ :=
  match v.ttl now with
  | some ttl => if 0 < ttl then some (now + 1000 * ttl) else none
  | none => none

/-- `setJobIDScript`, which answers 1 or 0. -/
def setJobIDScript (key : String) (jobID : JobID) (s : Store) : Bool × Store :=
  match s.records.lookup key with
  | none => (false, s)
  | some v =>
    if v.Live now then
      (true,
        ⟨s.records.put key (some (v.set { v.value with jobID := some jobID })),
          s.links.put jobID (some ⟨key, linkExpiry now v⟩)⟩)
    else (false, s)

def setJobID (userID : UserID) (idempotencyHeader : String) (jobID : JobID) (s : Store) :
    Option GoError × Store :=
  let key := buildIdempotencyKey userID idempotencyHeader
  let r := setJobIDScript now key jobID s
  (if r.1 then none else some (.text ("idempotency record not found for key=" ++ key)), r.2)

/-- The reverse key stays. -/
def delete (userID : UserID) (idempotencyHeader : String) (s : Store) : Store :=
  { s with records := s.records.put (buildIdempotencyKey userID idempotencyHeader) none }

inductive Transition
  | ok
  | missing
  | invalid
deriving DecidableEq, Repr

def Transition.text : Transition → String
  | ok => "ok"
  | missing => "missing"
  | invalid => "invalid"

/-- `idempotencyTransitionStatusScript` with the TTL of completed records. -/
def transitionScript (ttl : ℕ) (jobID : JobID) (status : RecordStatus) (s : Store) :
    Transition × Store :=
  match s.links.get now jobID with
  | none => (.missing, s)
  | some key =>
    match s.records.get now key with
    | none => (.missing, s)
    | some r =>
      if r.status = .inFlight then
        (.ok,
          ⟨s.records.put key (expire now ttl { r with status, completedAt := some (now / 1000) }),
            s.links.put jobID (expire now ttl key)⟩)
      else (.invalid, s)

def transitionStatus (ttl : ℕ) (jobID : JobID) (status : RecordStatus) (s : Store) :
    Option GoError × Store :=
  let r := transitionScript now ttl jobID status s
  (if r.1 = .ok then none
    else some (.text ("cannot transition idempotency status for job=" ++ jobID.val ++ ": " ++
      r.1.text)), r.2)

def transitionStatusIfInFlight (ttl : ℕ) (jobID : JobID) (status : RecordStatus) (s : Store) :
    Bool × Store :=
  let r := transitionScript now ttl jobID status s
  (r.1 = .ok, r.2)

end

variable {now ttl : ℕ} {userID : UserID} {header key : String} {jobID j : JobID}
  {status : RecordStatus} {s s' : Store} {r : Record}

theorem claimOrGet_of_some
    (h : s.records.get now (buildIdempotencyKey userID header) = some r) :
    claimOrGet now userID header ttl s = (⟨r.status.action, r.jobID⟩, s) := by
  simp only [claimOrGet, h]

theorem claimOrGet_of_none
    (h : s.records.get now (buildIdempotencyKey userID header) = none) :
    claimOrGet now userID header ttl s =
      (⟨.new, none⟩, { s with
        records := s.records.put (buildIdempotencyKey userID header)
          (expire now ttl ⟨.inFlight, now / 1000, none, none⟩) }) := by
  simp only [claimOrGet, h]

theorem setJobIDScript_cases (now : ℕ) (key : String) (jobID : JobID) (s : Store) :
    (s.records.get now key = none ∧ setJobIDScript now key jobID s = (false, s)) ∨
      ∃ v, s.records.lookup key = some v ∧ v.Live now ∧
        setJobIDScript now key jobID s =
          (true, ⟨s.records.put key (some (v.set { v.value with jobID := some jobID })),
            s.links.put jobID (some ⟨key, linkExpiry now v⟩)⟩) := by
  unfold setJobIDScript Keyspace.get
  cases hv : s.records.lookup key with
  | none => exact Or.inl ⟨rfl, rfl⟩
  | some v =>
    by_cases hlive : v.Live now
    · exact Or.inr ⟨v, rfl, hlive, by simp [hlive]⟩
    · exact Or.inl ⟨by simp [fetch, hlive], by simp [hlive]⟩

/-- A transition leaves the store alone or finishes the record its reverse key leads to. -/
theorem transitionScript_cases (now ttl : ℕ) (jobID : JobID) (status : RecordStatus) (s : Store) :
    ((transitionScript now ttl jobID status s).1 ≠ .ok ∧
        (transitionScript now ttl jobID status s).2 = s) ∨
      ∃ key r, s.links.get now jobID = some key ∧ s.records.get now key = some r ∧
        r.status = .inFlight ∧
        transitionScript now ttl jobID status s =
          (.ok, ⟨s.records.put key
              (expire now ttl { r with status, completedAt := some (now / 1000) }),
            s.links.put jobID (expire now ttl key)⟩) := by
  unfold transitionScript
  cases hkey : s.links.get now jobID with
  | none => exact Or.inl ⟨by simp, rfl⟩
  | some key =>
    cases hr : s.records.get now key with
    | none => exact Or.inl ⟨by simp only [hr]; decide, by simp only [hr]⟩
    | some r =>
      by_cases hstatus : r.status = .inFlight
      · exact Or.inr ⟨key, r, rfl, hr, hstatus, by simp only [hr, if_pos hstatus]⟩
      · exact Or.inl ⟨by simp only [hr, if_neg hstatus]; decide, by simp only [hr, if_neg hstatus]⟩

end InferenceQueue.Idempotency

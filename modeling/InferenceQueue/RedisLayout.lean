import InferenceQueue.CoalescingModel
import InferenceQueue.IdempotencyModel
import InferenceQueue.RedisCommands
import InferenceQueue.SchedulerModel

namespace InferenceQueue.RedisServer

open Redis

/-- The name of the type as `%T` prints it. -/
def Resp.goType : Resp → String
  | .nil => "<nil>"
  | .int _ => "int64"
  | .bulk _ => "string"
  | .array _ => "[]interface \x7b\x7d"

def Resp.asString : Resp → Option String
  | .bulk text => some text
  | _ => none

def redisNil : GoError := .text "redis: nil"

/-- The method `Result`: no reply is an error of its own. -/
def result : Except Error Resp → Except GoError Resp
  | .error err => .error (.text err.text)
  | .ok .nil => .error redisNil
  | .ok reply => .ok reply

/-- The method `Int`. -/
def Resp.asInt : Resp → Except GoError ℤ
  | .int n => .ok n
  | .bulk text =>
    match decimal? text with
    | some n => .ok n
    | none => .error (.text ("strconv.Atoi: parsing \"" ++ text ++ "\": invalid syntax"))
  | reply => .error (.text ("redis: unexpected type=" ++ reply.goType ++ " for Int"))

/-- The number a script returns, with the text put before an error. -/
def readInt (text : String) (reply : Except Error Resp) : Except GoError ℤ :=
  match result reply with
  | .error err => .error (.wrap text err)
  | .ok reply => reply.asInt.mapError (.wrap text)

theorem readInt_int (text : String) (n : ℤ) : readInt text (.ok (.int n)) = .ok n := rfl

/-- A single command, with the text put before an error. -/
def readCommand {α : Type} (text : String) : Except Error α → Except GoError α :=
  Except.mapError fun err => .wrap text (.text err.text)

inductive Tag
  | queue
  | queueIdempotency
  | activeUsers
  | rotationSequence
  | queueEnqueuedAt
  | processingJobs
  | completedJobs
  | record
  | link
  | coalescing
  | tier
  | oauthState
  | rateLimit
  | stream
deriving DecidableEq

def Tag.text : Tag → String
  | queue => "queue:user:"
  | queueIdempotency => "queue_idempotency_key:"
  | activeUsers => "scheduler:active_users"
  | rotationSequence => "scheduler:rotation_seq"
  | queueEnqueuedAt => "scheduler:queue_enqueued_at"
  | processingJobs => "processing_jobs"
  | completedJobs => "completed_jobs"
  | record => "idempotent:"
  | link => "jobID:"
  | coalescing => "coalescing:"
  | tier => "user:"
  | oauthState => "oauth2:"
  | rateLimit => "llm:rate-limit:user:"
  | stream => "stream:"

/-- The keys of the user cache, the logins, the rate limiter and the event streams. -/
def Tag.foreign : Tag → Bool
  | tier | oauthState | rateLimit | stream => true
  | _ => false

def keyOf (tag : Tag) (rest : String) : String := tag.text ++ rest

def Tag.all : List Tag :=
  [queue, queueIdempotency, activeUsers, rotationSequence, queueEnqueuedAt, processingJobs,
    completedJobs, record, link, coalescing, tier, oauthState, rateLimit, stream]

theorem Tag.mem_all (t : Tag) : t ∈ all := by
  cases t <;> decide

theorem tag_text_free (i j : Tag) : i.text.toList <+: j.text.toList → i = j := by
  have hfree : ∀ i ∈ Tag.all, ∀ j ∈ Tag.all, i.text.toList <+: j.text.toList → i = j := by
    decide +kernel
  exact hfree i i.mem_all j j.mem_all

theorem keyOf_inj {t t' : Tag} {r r' : String} : keyOf t r = keyOf t' r' ↔ t = t' ∧ r = r' := by
  constructor
  · exact tag_append_inj tag_text_free
  · rintro ⟨rfl, rfl⟩
    rfl

/-- The three parts with a state each of its own. -/
structure Stores where
  scheduler : Scheduler.State
  idempotency : Idempotency.Store
  coalescing : Coalescing.Store

def Stores.empty : Stores := ⟨.empty, .empty, ∅⟩

def statusText : Idempotency.RecordStatus → String
  | .inFlight => "in_flight"
  | .completed => "completed"
  | .failed => "failed"
  | .other text => text

def statusOf (text : String) : Idempotency.RecordStatus :=
  if text = "in_flight" then .inFlight
  else if text = "completed" then .completed
  else if text = "failed" then .failed
  else .other text

section

-- `Format(time.RFC3339)` of a time in seconds
variable (format : ℕ → String)

def fieldOf (r : Idempotency.Record) (field : String) : Option String :=
  if field = "status" then some (statusText r.status)
  else if field = "created_at" then some (format r.createdAt)
  else if field = "job_id" then r.jobID.map Ident.val
  else if field = "completed_at" then r.completedAt.map format
  else none

/-- What is stored for a record, which is as good as gone when it has expired. -/
def RecordHeld (e : Option (Volatile Value)) : Option (Volatile Idempotency.Record) → Prop
  | none => e = none
  | some v => statusOf (statusText v.value.status) = v.value.status ∧
      ∃ h : Hash, e = some ⟨.hash h, v.expiresAt⟩ ∧
        ∀ field, h.lookup field = fieldOf format v.value field

def HeldAt (db : Db) (s : Stores) : Tag → Prop
  | .queue => ∀ u : UserID, Holds db (keyOf .queue u.val) ((s.scheduler.queue u).map Ident.val)
  | .queueIdempotency => ∀ rest, db.lookup (keyOf .queueIdempotency rest) =
      (s.scheduler.idempotencyKeys (keyOf .queueIdempotency rest)).map
        fun t => ⟨.string "1", some t⟩
  | .activeUsers => ∃ z, Holds db (keyOf .activeUsers "") z ∧
      SortedSet.Renders Ident.val s.scheduler.activeUsers z
  | .rotationSequence =>
    db.lookup (keyOf .rotationSequence "") = counter s.scheduler.rotationSeq
  | .queueEnqueuedAt => ∃ h : Hash, Holds db (keyOf .queueEnqueuedAt "") h ∧
      ∀ j : JobID, h.lookup j.val = (s.scheduler.queueEnqueuedAt j).map Nat.repr
  | .processingJobs => ∃ z, Holds db (keyOf .processingJobs "") z ∧
      SortedSet.Renders Ident.val s.scheduler.processingJobs z
  | .completedJobs =>
    Holds db (keyOf .completedJobs "") (s.scheduler.completedJobs.image Ident.val)
  | .record => ∀ rest, RecordHeld format (db.lookup (keyOf .record rest))
      (s.idempotency.records.lookup (keyOf .record rest))
  | .link => ∀ j : JobID, db.lookup (keyOf .link (j.val ++ ":IdempotencyKey")) =
        (s.idempotency.links.lookup j).map (fun v => ⟨.string v.value, v.expiresAt⟩) ∧
      ∀ v, s.idempotency.links.lookup j = some v → ∃ rest, v.value = keyOf .record rest
  | .coalescing => ∀ rest, db.lookup (keyOf .coalescing rest) =
      (s.coalescing.lookup (keyOf .coalescing rest)).map
        fun v => ⟨.string (format v.value), v.expiresAt⟩
  | .tier | .oauthState | .rateLimit | .stream => True

def Held (db : Db) (s : Stores) : Prop := ∀ tag, HeldAt format db s tag

end

variable {format : ℕ → String} {db db' : Db} {s s' : Stores} {tag t : Tag} {r : String}
  {e : Option (Volatile Value)}

theorem held_empty : Held format ∅ .empty := by
  intro tag
  cases tag with
  | queue => exact fun u => rfl
  | queueIdempotency => exact fun rest => rfl
  | activeUsers => exact ⟨∅, rfl, .empty _⟩
  | rotationSequence => rfl
  | queueEnqueuedAt => exact ⟨∅, rfl, fun j => rfl⟩
  | processingJobs => exact ⟨∅, rfl, .empty _⟩
  | completedJobs => rfl
  | record => exact fun rest => rfl
  | link => exact fun j => ⟨rfl, fun v hv => nomatch hv⟩
  | coalescing => exact fun rest => rfl
  | tier | oauthState | rateLimit | stream => trivial

theorem HeldAt.congr (h : HeldAt format db s tag)
    (hdb : ∀ rest, db'.lookup (keyOf tag rest) = db.lookup (keyOf tag rest)) :
    HeldAt format db' s tag := by
  cases tag with
  | queue => exact fun u => (hdb _).trans (h u)
  | queueIdempotency => exact fun rest => (hdb _).trans (h rest)
  | activeUsers =>
    obtain ⟨z, hz, hrenders⟩ := h
    exact ⟨z, (hdb _).trans hz, hrenders⟩
  | rotationSequence => exact (hdb _).trans h
  | queueEnqueuedAt =>
    obtain ⟨f, hf, hfields⟩ := h
    exact ⟨f, (hdb _).trans hf, hfields⟩
  | processingJobs =>
    obtain ⟨z, hz, hrenders⟩ := h
    exact ⟨z, (hdb _).trans hz, hrenders⟩
  | completedJobs => exact (hdb _).trans h
  | record =>
    intro rest
    rw [hdb]
    exact h rest
  | link => exact fun j => ⟨(hdb _).trans (h j).1, (h j).2⟩
  | coalescing => exact fun rest => (hdb _).trans (h rest)
  | tier | oauthState | rateLimit | stream => trivial

theorem lookup_put_ne {rest : String} (hne : tag ≠ t) :
    (db.put (keyOf t r) e).lookup (keyOf tag rest) = db.lookup (keyOf tag rest) := by
  rw [Keyspace.lookup_put, if_neg]
  intro heq
  exact hne (keyOf_inj.mp heq).1

/-- A write to one key changes one part. -/
theorem Held.put (h : Held format db s)
    (hrest : ∀ tag, tag ≠ t → HeldAt format db s tag → HeldAt format db s' tag)
    (hnew : HeldAt format (db.put (keyOf t r) e) s' t) : Held format (db.put (keyOf t r) e) s' := by
  intro tag
  by_cases htag : tag = t
  · rw [htag]
    exact hnew
  · exact (hrest tag htag (h tag)).congr fun rest => lookup_put_ne htag

end InferenceQueue.RedisServer

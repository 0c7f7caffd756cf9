import InferenceQueue.SchedulerRefinement
import InferenceQueue.SubmissionRefinement

namespace InferenceQueue.OneRedis

open Redis RedisServer

structure Config where
  scheduler : Scheduler.Config
  /-- in seconds -/
  completedIdempotencyTTL : ℕ

/-- The calls of the three parts, and any write to a key of the others. -/
inductive Call
  | scheduler (op : Scheduler.Op)
  | expiredJobIDs (cutoff limit : ℕ) (hlimit : 0 < limit)
  | completedJobIDs
  | claimOrGet (userID : UserID) (header : String) (ttl : ℕ)
  | setJobID (userID : UserID) (header : String) (jobID : JobID)
  | deleteRecord (userID : UserID) (header : String)
  | transitionStatus (jobID : JobID) (status : String)
  | transitionStatusIfInFlight (jobID : JobID) (status : String)
  | tryCoalesce (userID : UserID) (hashRequest : UInt64) (ttl : ℕ)
  | deleteCoalescing (userID : UserID) (hashRequest : UInt64)
  | elsewhere (tag : Tag) (htag : tag.foreign = true) (rest : String)
      (e : Option (Volatile Value))

/-- What a call returns; of a record, the fields that `Submit` reads. -/
inductive Answer
  | scheduler (a : RedisScheduler.Answer)
  | record (r : Except GoError (Idempotency.Action × String × Option GoError))
  | done (r : Except GoError Unit)
  | flag (r : Except GoError Bool)
  | decision (r : Except GoError RedisSubmission.CoalescingDecision)
  | nothing

/-- A call on Redis at a moment given in microseconds. -/
def onRedis (format : ℕ → String) (parse : String → Except GoError ℕ) (cfg : Config) (us : ℕ)
    (db : Db) : Call → Answer × Db
  | .scheduler op => (RedisScheduler.call cfg.scheduler us db op).map .scheduler id
  | .expiredJobIDs cutoff limit _ =>
    (RedisScheduler.expiredJobIDs us db cutoff limit).map (fun r => .scheduler (.ids r)) id
  | .completedJobIDs =>
    (RedisScheduler.completedJobIDs us db).map (fun r => .scheduler (.members r)) id
  | .claimOrGet userID header ttl =>
    (RedisSubmission.claimOrGet format parse us db userID header ttl).map
      (fun r => Answer.record (r.map fun r => (r.action, r.jobID, r.err))) id
  | .setJobID userID header jobID =>
    (RedisSubmission.setJobID us db userID header jobID).map .done id
  | .deleteRecord userID header => (RedisSubmission.delete us db userID header).map .done id
  | .transitionStatus jobID status =>
    (RedisSubmission.transitionStatus format us db cfg.completedIdempotencyTTL jobID status).map
      .done id
  | .transitionStatusIfInFlight jobID status =>
    (RedisSubmission.transitionStatusIfInFlight format us db cfg.completedIdempotencyTTL jobID
      status).map .flag id
  | .tryCoalesce userID hashRequest ttl =>
    (RedisSubmission.tryCoalesce format us db userID hashRequest ttl).map .decision id
  | .deleteCoalescing userID hashRequest =>
    (RedisSubmission.deleteCoalescing us db userID hashRequest).map .done id
  | .elsewhere tag _ rest e => (.nothing, db.put (keyOf tag rest) e)

/-- The same call on the states of the three parts. -/
def onStores (cfg : Config) (us : ℕ) (s : Stores) : Call → Answer × Stores
  | .scheduler op =>
    let r := Scheduler.call cfg.scheduler (us / 1000) s.scheduler op
    (.scheduler (RedisScheduler.answerOf r.2), { s with scheduler := r.1 })
  | .expiredJobIDs cutoff limit _ =>
    (.scheduler (.ids (.ok ((Scheduler.expiredJobIDs cutoff limit s.scheduler).map Ident.val))), s)
  | .completedJobIDs =>
    (.scheduler (.members (.ok (s.scheduler.completedJobs.image Ident.val))), s)
  | .claimOrGet userID header ttl =>
    let r := Idempotency.claimOrGet (us / 1000) userID header ttl s.idempotency
    (.record (.ok (r.1.action, (r.1.jobID.map Ident.val).getD "", r.1.action.err)),
      { s with idempotency := r.2 })
  | .setJobID userID header jobID =>
    let r := Idempotency.setJobID (us / 1000) userID header jobID s.idempotency
    (.done (RedisSubmission.doneOf r.1), { s with idempotency := r.2 })
  | .deleteRecord userID header =>
    (.done (.ok ()), { s with idempotency := Idempotency.delete userID header s.idempotency })
  | .transitionStatus jobID status =>
    let r := Idempotency.transitionStatus (us / 1000) cfg.completedIdempotencyTTL jobID
      (statusOf status) s.idempotency
    (.done (RedisSubmission.doneOf r.1), { s with idempotency := r.2 })
  | .transitionStatusIfInFlight jobID status =>
    let r := Idempotency.transitionStatusIfInFlight (us / 1000) cfg.completedIdempotencyTTL jobID
      (statusOf status) s.idempotency
    (.flag (.ok r.1), { s with idempotency := r.2 })
  | .tryCoalesce userID hashRequest ttl =>
    let r := Coalescing.tryCoalesce (us / 1000) ttl
      (Coalescing.buildCoalescingKey userID hashRequest) s.coalescing
    (.decision (r.1.map RedisSubmission.decisionOf), { s with coalescing := r.2 })
  | .deleteCoalescing userID hashRequest =>
    (.done (.ok ()), { s with
      coalescing := s.coalescing.put (Coalescing.buildCoalescingKey userID hashRequest) none })
  | .elsewhere _ _ _ _ => (.nothing, s)

section

variable {format : ℕ → String} {parse : String → Except GoError ℕ} {cfg : Config} {us : ℕ}
  {db : Db} {s : Stores}

theorem recordResult_reads (now : ℕ) (userID : UserID) (header : String) (ttl : ℕ)
    (i : Idempotency.Store) :
    let r := RedisSubmission.recordResult ttl now
      (i.records.get now (Idempotency.buildIdempotencyKey userID header))
    let r' := (Idempotency.claimOrGet now userID header ttl i).1
    (r.action, r.jobID, r.err) =
      (r'.action, (r'.jobID.map Ident.val).getD "", r'.action.err) := by
  cases hget : i.records.get now (Idempotency.buildIdempotencyKey userID header) with
  | none =>
    rw [Idempotency.claimOrGet_of_none hget]
    rfl
  | some r =>
    rw [Idempotency.claimOrGet_of_some hget]
    rfl

theorem held_elsewhere (h : Held format db s) {tag : Tag} (htag : tag.foreign = true)
    (rest : String) (e : Option (Volatile Value)) : Held format (db.put (keyOf tag rest) e) s := by
  -- the other parts write to keys of their own
  refine h.put (fun _ _ hheld => hheld) ?_
  cases tag with
  | tier | oauthState | rateLimit | stream => trivial
  | _ => cases htag

theorem agrees_map {α : Type} {x : α × Db} {a : α} (f : α → Answer)
    (h : x.1 = a ∧ Held format x.2 s) : (x.map f id).1 = f a ∧ Held format (x.map f id).2 s :=
  ⟨congrArg f h.1, h.2⟩

/-- One call does the same to Redis and to the states that it stands for. -/
theorem onRedis_agrees (h : Held format db s) (hpos : 0 < cfg.scheduler.idempotencyKeyTTL)
    (hparse : ∀ n, parse (format n) = .ok n) (hrotation : s.scheduler.rotationSeq + 1 < 2 ^ 63)
    (call : Call) :
    (onRedis format parse cfg us db call).1 = (onStores cfg us s call).1 ∧
      Held format (onRedis format parse cfg us db call).2 (onStores cfg us s call).2 := by
  -- each part of the stores put back is the stores again
  have hscheduler : Held format db (RedisScheduler.withScheduler s s.scheduler) := h
  have hidempotency : Held format db (RedisSubmission.withIdempotency s s.idempotency) := h
  have hcoalescing : Held format db (RedisSubmission.withCoalescing s s.coalescing) := h
  cases call with
  | scheduler op =>
    exact agrees_map _ (RedisScheduler.call_agrees hscheduler hpos hrotation op)
  | expiredJobIDs cutoff limit hlimit =>
    rw [onRedis, RedisScheduler.expiredJobIDs_eq hscheduler cutoff hlimit]
    exact ⟨rfl, h⟩
  | completedJobIDs =>
    rw [onRedis, RedisScheduler.completedJobIDs_eq hscheduler]
    exact ⟨rfl, h⟩
  | claimOrGet userID header ttl =>
    obtain ⟨hanswer, hheld⟩ := agrees_map
      (fun r => Answer.record (r.map fun r => (r.action, r.jobID, r.err)))
      (RedisSubmission.claimOrGet_agrees hidempotency hparse userID header ttl)
    exact ⟨hanswer.trans (congrArg (fun r => Answer.record (.ok r))
      (recordResult_reads (us / 1000) userID header ttl s.idempotency)), hheld⟩
  | setJobID userID header jobID =>
    exact agrees_map _ (RedisSubmission.setJobID_agrees hidempotency userID header jobID)
  | deleteRecord userID header =>
    exact agrees_map _ (RedisSubmission.delete_agrees hidempotency userID header)
  | transitionStatus jobID status =>
    exact agrees_map _ (RedisSubmission.transitionStatus_agrees hidempotency _ jobID status)
  | transitionStatusIfInFlight jobID status =>
    exact agrees_map _
      (RedisSubmission.transitionStatusIfInFlight_agrees hidempotency _ jobID status)
  | tryCoalesce userID hashRequest ttl =>
    exact agrees_map _ (RedisSubmission.tryCoalesce_agrees hcoalescing userID hashRequest ttl)
  | deleteCoalescing userID hashRequest =>
    exact agrees_map _ (RedisSubmission.deleteCoalescing_agrees hcoalescing userID hashRequest)
  | elsewhere tag htag rest e => exact ⟨rfl, held_elsewhere h htag rest e⟩

end

def answers {σ : Type} (perform : ℕ → σ → Call → Answer × σ) : σ → List (ℕ × Call) → List Answer
  | _, [] => []
  | x, (us, call) :: rest =>
    (perform us x call).1 :: answers perform (perform us x call).2 rest

theorem rotationSeq_le {cfg : Scheduler.Config} {σ σ' : Scheduler.State} {e : Scheduler.Event}
    (h : Scheduler.Effect cfg σ e σ') : σ'.rotationSeq ≤ σ.rotationSeq + 1 := by
  -- a call takes at most one number of the rotation
  have henlist : ∀ user job, (σ.enlist user job).rotationSeq ≤ σ.rotationSeq + 1 := by
    intro user job
    unfold Scheduler.State.enlist
    split_ifs
    · exact le_rfl
    · exact Nat.le_succ _
  have hdelist : ∀ user remaining, (σ.delist user remaining).rotationSeq ≤ σ.rotationSeq + 1 := by
    intro user remaining
    unfold Scheduler.State.delist
    split_ifs
    · exact Nat.le_succ _
    · exact le_rfl
  cases h with
  | pushed | requeued | orphaned => exact henlist _ _
  | claimed => exact hdelist _ _
  | _ => exact Nat.le_succ _

variable {format : ℕ → String} {parse : String → Except GoError ℕ} {cfg : Config} {db : Db}
  {s : Stores}

theorem rotationSeq_onStores_le (cfg : Config) (us : ℕ) (s : Stores) (call : Call) :
    (onStores cfg us s call).2.scheduler.rotationSeq ≤ s.scheduler.rotationSeq + 1 := by
  cases call with
  | scheduler op => exact rotationSeq_le (Scheduler.call_effect _ _ _ op)
  | _ => exact Nat.le_succ _

theorem answers_agree (h : Held format db s) (hpos : 0 < cfg.scheduler.idempotencyKeyTTL)
    (hparse : ∀ n, parse (format n) = .ok n) (calls : List (ℕ × Call))
    (hcalls : s.scheduler.rotationSeq + calls.length < 2 ^ 63) :
    answers (onRedis format parse cfg) db calls = answers (onStores cfg) s calls := by
  -- every call may use up one number of the rotation
  induction calls generalizing db s with
  | nil => rfl
  | cons timed rest ih =>
    obtain ⟨us, call⟩ := timed
    rw [List.length_cons] at hcalls
    obtain ⟨hanswer, hheld⟩ :=
      onRedis_agrees h hpos hparse (by omega : s.scheduler.rotationSeq + 1 < 2 ^ 63) call
    have hnext := rotationSeq_onStores_le cfg us s call
    rw [answers, answers, hanswer, ih hheld (by omega)]

/-- The commands on the one Redis answer every call as the separate states do, as long as the
calls are fewer than the numbers of the rotation. -/
theorem redis_answers_as_stores (hpos : 0 < cfg.scheduler.idempotencyKeyTTL)
    (hparse : ∀ n, parse (format n) = .ok n) (calls : List (ℕ × Call))
    (hcalls : calls.length < 2 ^ 63) :
    answers (onRedis format parse cfg) ∅ calls = answers (onStores cfg) .empty calls := by
  apply answers_agree held_empty hpos hparse
  show 0 + calls.length < 2 ^ 63
  omega

def readDecimal (text : String) : Except GoError ℕ :=
  match decimal? text with
  | some n => .ok n
  | none => .error (.text "parsing time")

/-- A submission that is claimed, bound, enqueued, processed and replayed, with the cached tier of
its user written in between. -/
def submittedTwice : List (ℕ × Call) :=
  [(0, .claimOrGet alice "key" 60), (1000, .setJobID alice "key" job1),
    (2000, .scheduler (.pushLeft ⟨job1, alice, 1⟩)), (3000, .elsewhere .tier rfl "alice:tier" none),
    (4000, .scheduler (.claimNextJob 0)), (2000000, .transitionStatus job1 "completed"),
    (3000000, .claimOrGet alice "key" 60)]

theorem redis_answers_submittedTwice :
    answers (onRedis Nat.repr readDecimal ⟨Scheduler.smallConfig, 3600⟩) ∅ submittedTwice =
      [.record (.ok (.new, "", none)), .done (.ok ()), .scheduler (.enqueue (.ok ⟨true⟩)), .nothing,
        .scheduler (.claim (.ok (some ⟨alice.val, job1.val, 2⟩))), .done (.ok ()),
        .record (.ok (.replay, job1.val, some (.text "already processed idempotency key")))] := by
  have hparse : ∀ n : ℕ, readDecimal n.repr = .ok n := by
    intro n
    rw [readDecimal, decimal?_repr]
  rw [redis_answers_as_stores (by decide) hparse submittedTwice (by decide)]
  rfl

end InferenceQueue.OneRedis

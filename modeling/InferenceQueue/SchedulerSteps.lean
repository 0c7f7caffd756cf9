import InferenceQueue.Runs
import InferenceQueue.SchedulerModel

namespace InferenceQueue.Scheduler

/-- The repository methods that write. -/
inductive Op
  | pushLeft (entry : QueueEntry)
  | claimNextJob (workerID : ℕ)
  | requeueIfExpired (job : JobID) (user : UserID) (cutoff : ℕ)
  | removeIfExpired (job : JobID) (cutoff : ℕ)
  | enqueueIfAbsent (job : JobID) (user : UserID) (capacity : ℕ)
  | extendProcessingLease (job : JobID)
  | releaseProcessingJob (job : JobID)
  | markJobCompleted (job : JobID)
  | removeCompletedJob (job : JobID)
deriving DecidableEq

inductive Reply
  | enqueue (r : Except GoError EnqueueResult)
  | claim (r : Except GoError (Option FairDequeueResult))
  | flag (b : Bool)
  | done (r : Except GoError Unit)
deriving DecidableEq

/-- One executed call: the Redis clock, the method with its arguments, and what it returned. -/
structure Event where
  now : ℕ
  op : Op
  reply : Reply

def call (cfg : Config) (now : ℕ) (s : State) : Op → State × Reply
  | .pushLeft entry => (pushLeft cfg entry now s).map id .enqueue
  | .claimNextJob _ => (claimNextJob cfg now s).map id .claim
  | .requeueIfExpired job user cutoff => (requeueIfExpired job user cutoff s).map id .flag
  | .removeIfExpired job cutoff => (removeIfExpired job cutoff s).map id .flag
  | .enqueueIfAbsent job user capacity => (enqueueIfAbsent job user capacity now s).map id .flag
  | .extendProcessingLease job => (extendProcessingLease cfg job now s).map id .done
  | .releaseProcessingJob job => (releaseProcessingJob job s).map id .done
  | .markJobCompleted job => (markJobCompleted job s, .done (.ok ()))
  | .removeCompletedJob job => (removeCompletedJob job s, .done (.ok ()))

def step (cfg : Config) (s : State) (e : Event) : Option State :=
  if (call cfg e.now s e.op).2 = e.reply then some (call cfg e.now s e.op).1 else none

abbrev Step (cfg : Config) : State → Event → State → Prop := Fires (step cfg)

namespace Event

def pushed (e : Event) : Option (UserID × JobID) :=
  match e.op, e.reply with
  | .pushLeft entry, .enqueue (.ok _) => some (entry.userID, entry.jobID)
  | .requeueIfExpired job user _, .flag true => some (user, job)
  | .enqueueIfAbsent job user _, .flag true => some (user, job)
  | _, _ => none

def claimed (e : Event) : Option (UserID × JobID) :=
  match e.reply with
  | .claim (.ok (some r)) => some (r.userID, r.jobID)
  | _ => none

end Event

namespace State

/-- What every push does to the queue, the active users and the rotation sequence. -/
def enlist (s : State) (user : UserID) (job : JobID) : State :=
  if s.queue user = [] then (s.lpush user job).activate user else s.lpush user job

/-- What a pop that leaves `remaining` does to them. -/
def delist (s : State) (user : UserID) (remaining : List JobID) : State :=
  if remaining = [] then
    { s with
      queue := Function.update s.queue user remaining
      activeUsers := s.activeUsers.zrem user }
  else
    { s with
      queue := Function.update s.queue user remaining
      rotationSeq := s.rotationSeq + 1
      activeUsers := s.activeUsers.zadd (s.rotationSeq + 1) user }

variable (s : State) (user : UserID) (job : JobID) (remaining : List JobID)

@[simp] theorem enlist_queue :
    (s.enlist user job).queue = Function.update s.queue user (job :: s.queue user) := by
  unfold enlist
  split_ifs <;> rfl

@[simp] theorem enlist_processingJobs : (s.enlist user job).processingJobs = s.processingJobs := by
  unfold enlist
  split_ifs <;> rfl

@[simp] theorem enlist_completedJobs : (s.enlist user job).completedJobs = s.completedJobs := by
  unfold enlist
  split_ifs <;> rfl

@[simp] theorem delist_queue :
    (s.delist user remaining).queue = Function.update s.queue user remaining := by
  unfold delist
  split_ifs <;> rfl

@[simp] theorem delist_completedJobs :
    (s.delist user remaining).completedJobs = s.completedJobs := by
  unfold delist
  split_ifs <;> rfl

end State

/-- Everything a call can do, one constructor for each outcome. -/
inductive Effect (cfg : Config) (s : State) : Event → State → Prop
  | pushFull {now entry} (hfull : cfg.queueCapacity ≤ (s.queue entry.userID).length) :
      Effect cfg s
        ⟨now, .pushLeft entry, .enqueue (.error (.wrap "" (.sentinel .schedulerQueueFull)))⟩ s
  | pushDuplicate {now entry} (hroom : (s.queue entry.userID).length < cfg.queueCapacity)
      (hlive : s.keyLive entry.idempotencyKey now = true) :
      Effect cfg s
        ⟨now, .pushLeft entry, .enqueue (.error (.wrap "" (.sentinel .schedulerDuplicateJob)))⟩ s
  | pushed {now entry} (hroom : (s.queue entry.userID).length < cfg.queueCapacity)
      (hfree : s.keyLive entry.idempotencyKey now = false) :
      Effect cfg s
        ⟨now, .pushLeft entry, .enqueue (.ok ⟨(s.queue entry.userID).length = 0⟩)⟩
        { s.enlist entry.userID entry.jobID with
          idempotencyKeys := Function.update s.idempotencyKeys entry.idempotencyKey
            (some (now + 1000 * cfg.idempotencyKeyTTL))
          queueEnqueuedAt := Function.update s.queueEnqueuedAt entry.jobID (some now) }
  | claimIdle {now w} (hidle : s.activeUsers.zrangeFirst = none) :
      Effect cfg s ⟨now, .claimNextJob w, .claim (.ok none)⟩ s
  | claimDangling {now w user} (hfirst : s.activeUsers.zrangeFirst = some user)
      (hempty : s.queue user = []) :
      Effect cfg s ⟨now, .claimNextJob w, .claim (.ok none)⟩
        { s with activeUsers := s.activeUsers.zrem user }
  | claimed {now w user job remaining} (hfirst : s.activeUsers.zrangeFirst = some user)
      (hqueue : s.queue user = remaining ++ [job]) :
      Effect cfg s
        ⟨now, .claimNextJob w,
          .claim (.ok (some ⟨user, job, now - (s.queueEnqueuedAt job).getD now⟩))⟩
        { s.delist user remaining with
          processingJobs := s.processingJobs.zadd (now + cfg.lease) job
          queueEnqueuedAt := Function.update s.queueEnqueuedAt job none }
  | requeueRefused {now job user cutoff}
      (hheld : ∀ k, s.processingJobs.zscore job = some k → cutoff < k) :
      Effect cfg s ⟨now, .requeueIfExpired job user cutoff, .flag false⟩ s
  | requeued {now job user cutoff k} (hscore : s.processingJobs.zscore job = some k)
      (hexpired : k ≤ cutoff) :
      Effect cfg s ⟨now, .requeueIfExpired job user cutoff, .flag true⟩
        { s.enlist user job with processingJobs := s.processingJobs.zrem job }
  | removeRefused {now job cutoff}
      (hheld : ∀ k, s.processingJobs.zscore job = some k → cutoff < k) :
      Effect cfg s ⟨now, .removeIfExpired job cutoff, .flag false⟩ s
  | removed {now job cutoff k} (hscore : s.processingJobs.zscore job = some k)
      (hexpired : k ≤ cutoff) :
      Effect cfg s ⟨now, .removeIfExpired job cutoff, .flag true⟩
        { s with
          processingJobs := s.processingJobs.zrem job
          queueEnqueuedAt := Function.update s.queueEnqueuedAt job none }
  | orphanRefused {now job user capacity}
      (hheld : job ∈ s.completedJobs ∨ (s.processingJobs.zscore job).isSome ∨
        job ∈ s.queue user ∨ capacity ≤ (s.queue user).length) :
      Effect cfg s ⟨now, .enqueueIfAbsent job user capacity, .flag false⟩ s
  | orphaned {now job user capacity} (hmark : job ∉ s.completedJobs)
      (hlease : s.processingJobs.zscore job = none) (hwait : job ∉ s.queue user)
      (hroom : (s.queue user).length < capacity) :
      Effect cfg s ⟨now, .enqueueIfAbsent job user capacity, .flag true⟩
        { s.enlist user job with
          queueEnqueuedAt := Function.update s.queueEnqueuedAt job (some now) }
  | extendMissing {now job} (hnone : s.processingJobs.zscore job = none) :
      Effect cfg s
        ⟨now, .extendProcessingLease job, .done (.error (.sentinel .schedulerJobNotFound))⟩ s
  | extended {now job k} (hscore : s.processingJobs.zscore job = some k) :
      Effect cfg s ⟨now, .extendProcessingLease job, .done (.ok ())⟩
        { s with processingJobs := s.processingJobs.zadd (now + cfg.lease) job }
  | releaseMissing {now job} (hnone : s.processingJobs.zscore job = none) :
      Effect cfg s ⟨now, .releaseProcessingJob job, .done (.error (.text "jobID not found"))⟩ s
  | released {now job k} (hscore : s.processingJobs.zscore job = some k) :
      Effect cfg s ⟨now, .releaseProcessingJob job, .done (.ok ())⟩
        { s with processingJobs := s.processingJobs.zrem job }
  | marked {now job} :
      Effect cfg s ⟨now, .markJobCompleted job, .done (.ok ())⟩ (markJobCompleted job s)
  | unmarked {now job} :
      Effect cfg s ⟨now, .removeCompletedJob job, .done (.ok ())⟩ (removeCompletedJob job s)

variable {cfg : Config} {s t : State} {e : Event}

theorem pushLeft_effect (now : ℕ) (entry : QueueEntry) :
    Effect cfg s ⟨now, .pushLeft entry, .enqueue (pushLeft cfg entry now s).2⟩
      (pushLeft cfg entry now s).1 := by
  unfold pushLeft enqueueScript
  by_cases hfull : cfg.queueCapacity ≤ (s.queue entry.userID).length
  · simpa only [if_pos hfull] using Effect.pushFull hfull
  · have hroom : (s.queue entry.userID).length < cfg.queueCapacity := by omega
    by_cases hlive : s.keyLive entry.idempotencyKey now = true
    · simpa only [if_neg hfull, if_pos hlive] using Effect.pushDuplicate hroom hlive
    · have heff := Effect.pushed hroom (by simpa using hlive)
      simp only [if_neg hfull, if_neg hlive]
      by_cases hempty : s.queue entry.userID = []
      · simpa [hempty, State.enlist, State.activate, State.lpush, State.stamp] using heff
      · simpa [hempty, State.enlist, State.lpush, State.stamp] using heff

theorem claimNextJob_effect (now w : ℕ) :
    Effect cfg s ⟨now, .claimNextJob w, .claim (claimNextJob cfg now s).2⟩
      (claimNextJob cfg now s).1 := by
  unfold claimNextJob fairDequeueScript
  cases hfirst : s.activeUsers.zrangeFirst with
  | none => exact Effect.claimIdle hfirst
  | some user =>
    rcases List.eq_nil_or_concat (s.queue user) with hempty | ⟨remaining, job, hqueue⟩
    · simpa [hempty] using Effect.claimDangling hfirst hempty
    · rw [List.concat_eq_append] at hqueue
      have hlast : (s.queue user).getLast? = some job := by rw [hqueue, List.getLast?_concat]
      have hrest : (s.queue user).dropLast = remaining := by rw [hqueue, List.dropLast_concat]
      have heff : Effect cfg s ⟨now, .claimNextJob w, _⟩ _ := .claimed hfirst hqueue
      by_cases hnil : remaining = []
      · simpa [hlast, hrest, hnil, user.nonempty, job.nonempty, State.delist, State.unstamp]
          using heff
      · have hpos : 0 < remaining.length := List.length_pos_of_ne_nil hnil
        simpa [hlast, hrest, hnil, hpos, user.nonempty, job.nonempty, State.delist,
          State.unstamp] using heff

theorem requeueIfExpired_effect (now : ℕ) (job : JobID) (user : UserID) (cutoff : ℕ) :
    Effect cfg s ⟨now, .requeueIfExpired job user cutoff,
      .flag (requeueIfExpired job user cutoff s).2⟩ (requeueIfExpired job user cutoff s).1 := by
  unfold requeueIfExpired requeueExpiredScript
  cases hscore : s.processingJobs.zscore job with
  | none => simpa using Effect.requeueRefused (by simp [hscore])
  | some k =>
    by_cases hheld : cutoff < k
    · simpa [hheld] using Effect.requeueRefused (by simpa [hscore] using hheld)
    · have heff : Effect cfg s ⟨now, .requeueIfExpired job user cutoff, _⟩ _ :=
        .requeued hscore (by omega)
      by_cases hempty : s.queue user = []
      · simpa [hheld, hempty, State.enlist, State.activate, State.lpush] using heff
      · simpa [hheld, hempty, State.enlist, State.lpush] using heff

theorem removeIfExpired_effect (now : ℕ) (job : JobID) (cutoff : ℕ) :
    Effect cfg s ⟨now, .removeIfExpired job cutoff, .flag (removeIfExpired job cutoff s).2⟩
      (removeIfExpired job cutoff s).1 := by
  unfold removeIfExpired removeExpiredScript
  cases hscore : s.processingJobs.zscore job with
  | none => simpa using Effect.removeRefused (by simp [hscore])
  | some k =>
    by_cases hheld : cutoff < k
    · simpa [hheld] using Effect.removeRefused (by simpa [hscore] using hheld)
    · simpa [hheld, State.unstamp] using Effect.removed hscore (by omega : k ≤ cutoff)

theorem enqueueIfAbsent_effect (now : ℕ) (job : JobID) (user : UserID) (capacity : ℕ) :
    Effect cfg s ⟨now, .enqueueIfAbsent job user capacity,
      .flag (enqueueIfAbsent job user capacity now s).2⟩
      (enqueueIfAbsent job user capacity now s).1 := by
  unfold enqueueIfAbsent enqueueOrphanScript
  by_cases hmark : job ∈ s.completedJobs
  · simpa [hmark] using Effect.orphanRefused (.inl hmark)
  · cases hlease : s.processingJobs.zscore job with
    | some k => simpa [hmark] using Effect.orphanRefused (.inr (.inl (by simp [hlease])))
    | none =>
      by_cases hwait : job ∈ s.queue user
      · simpa [hmark, hwait] using Effect.orphanRefused (.inr (.inr (.inl hwait)))
      · by_cases hfull : capacity ≤ (s.queue user).length
        · simpa [hmark, hwait, hfull] using Effect.orphanRefused (.inr (.inr (.inr hfull)))
        · have heff : Effect cfg s ⟨now, .enqueueIfAbsent job user capacity, _⟩ _ :=
            .orphaned hmark hlease hwait (by omega)
          simp only [if_neg hmark, if_neg hwait, if_neg hfull, Option.isSome_none]
          by_cases hempty : s.queue user = []
          · simpa [hempty, State.enlist, State.activate, State.lpush, State.stamp] using heff
          · simpa [hempty, State.enlist, State.lpush, State.stamp] using heff

theorem extendProcessingLease_effect (now : ℕ) (job : JobID) :
    Effect cfg s ⟨now, .extendProcessingLease job,
      .done (extendProcessingLease cfg job now s).2⟩ (extendProcessingLease cfg job now s).1 := by
  unfold extendProcessingLease extendLeaseScript
  cases hscore : s.processingJobs.zscore job with
  | none => simpa using Effect.extendMissing hscore
  | some k => simpa [SortedSet.zaddXX_of_some hscore] using Effect.extended hscore

theorem releaseProcessingJob_effect (now : ℕ) (job : JobID) :
    Effect cfg s ⟨now, .releaseProcessingJob job, .done (releaseProcessingJob job s).2⟩
      (releaseProcessingJob job s).1 := by
  unfold releaseProcessingJob
  cases hscore : s.processingJobs.zscore job with
  | none => exact Effect.releaseMissing hscore
  | some k => exact Effect.released hscore

theorem call_effect (cfg : Config) (now : ℕ) (s : State) (op : Op) :
    Effect cfg s ⟨now, op, (call cfg now s op).2⟩ (call cfg now s op).1 := by
  cases op with
  | pushLeft entry => exact pushLeft_effect now entry
  | claimNextJob w => exact claimNextJob_effect now w
  | requeueIfExpired job user cutoff => exact requeueIfExpired_effect now job user cutoff
  | removeIfExpired job cutoff => exact removeIfExpired_effect now job cutoff
  | enqueueIfAbsent job user capacity => exact enqueueIfAbsent_effect now job user capacity
  | extendProcessingLease job => exact extendProcessingLease_effect now job
  | releaseProcessingJob job => exact releaseProcessingJob_effect now job
  | markJobCompleted job => exact Effect.marked
  | removeCompletedJob job => exact Effect.unmarked

theorem Step.effect (h : Step cfg s e t) : Effect cfg s e t := by
  obtain ⟨now, op, reply⟩ := e
  unfold Step Fires step at h
  split_ifs at h with hreply
  obtain rfl : (call cfg now s op).2 = reply := hreply
  obtain rfl : (call cfg now s op).1 = t := by simpa using h
  exact call_effect cfg now s op

theorem step_call (cfg : Config) (now : ℕ) (s : State) (op : Op) :
    Step cfg s ⟨now, op, (call cfg now s op).2⟩ (call cfg now s op).1 := by
  simp [Step, Fires, step]

/-- The calls of a list one after the other, with the events they make. -/
def perform (cfg : Config) (s : State) : List (ℕ × Op) → List Event × State
  | [] => ([], s)
  | (now, op) :: calls =>
    let (events, t) := perform cfg (call cfg now s op).1 calls
    (⟨now, op, (call cfg now s op).2⟩ :: events, t)

theorem run_perform (cfg : Config) (s : State) (calls : List (ℕ × Op)) :
    Run (Step cfg) s (perform cfg s calls).1 (perform cfg s calls).2 := by
  induction calls generalizing s with
  | nil => exact .nil
  | cons c calls ih =>
    obtain ⟨now, op⟩ := c
    exact (Run.single (step_call cfg now s op)).append (ih _)

def smallConfig : Config where
  lease := 30000
  queueCapacity := 2
  idempotencyKeyTTL := 60

end InferenceQueue.Scheduler

import InferenceQueue.PlatformSteps
import InferenceQueue.SubmitResult

namespace InferenceQueue.Platform

open Service Idempotency Coalescing Inference

/-- What a call of `Submit` came to. -/
inductive Outcome
  | claimOrGet (r : Except GoError IdempotencyResult)
  | tryCoalesce (r : Except GoError CoalescingAction)
  | admission (err : Option GoError)
  | create (r : Except GoError JobID)
  | setJobID (jobID : JobID) (err : Option GoError)
  | deadline (left : Option ℤ)
  | pushLeft (jobID : JobID) (r : Except GoError Scheduler.EnqueueResult)
  | markFailed (jobID : JobID) (err : Option GoError)
  | transitionStatus (jobID : JobID) (err : Option GoError)
  | deleteCoalescing (err : Option GoError)
  | deleteIdempotency (err : Option GoError)

namespace Outcome

def Of (o : SubmitCalls) : Outcome → Prop
  | claimOrGet r => o.claimOrGet = r
  | tryCoalesce r => o.tryCoalesce = r
  | admission err => o.admission = err
  | create r => o.create = r
  | setJobID _ err => o.setJobID = err
  | deadline left => o.deadline = left
  | pushLeft _ r => o.pushLeft = r
  | markFailed _ err => o.markFailed = err
  | transitionStatus _ err => o.transitionStatus = err
  | deleteCoalescing err => o.deleteCoalescing = err
  | deleteIdempotency err => o.deleteIdempotency = err

def put (o : SubmitCalls) : Outcome → SubmitCalls
  | claimOrGet r => { o with claimOrGet := r }
  | tryCoalesce r => { o with tryCoalesce := r }
  | admission err => { o with admission := err }
  | create r => { o with create := r }
  | setJobID _ err => { o with setJobID := err }
  | deadline left => { o with deadline := left }
  | pushLeft _ r => { o with pushLeft := r }
  | markFailed _ err => { o with markFailed := err }
  | transitionStatus _ err => { o with transitionStatus := err }
  | deleteCoalescing err => { o with deleteCoalescing := err }
  | deleteIdempotency err => { o with deleteIdempotency := err }

/-- The place of the call in `Submit`, which makes each at most once. -/
def rank : Outcome → ℕ
  | claimOrGet _ => 0
  | tryCoalesce _ => 1
  | admission _ => 2
  | create _ => 3
  | setJobID _ _ => 4
  | deadline _ => 5
  | pushLeft _ _ => 6
  | markFailed _ _ => 7
  | transitionStatus _ _ => 8
  | deleteCoalescing _ => 9
  | deleteIdempotency _ => 10

def call : Outcome → Option SubmitCall
  | claimOrGet _ => some .claimOrGet
  | tryCoalesce _ => some .tryCoalesce
  | admission _ => some .admission
  | create _ => some .create
  | setJobID jobID _ => some (.setJobID jobID)
  -- the deadline is read from the context
  | deadline _ => none
  | pushLeft jobID _ => some (.tryEnqueue jobID)
  | markFailed jobID _ => some (.markFailed jobID)
  | transitionStatus jobID _ => some (.transitionStatus jobID "failed")
  | deleteCoalescing _ => some .deleteCoalescing
  | deleteIdempotency _ => some .deleteIdempotency

theorem of_put (o : SubmitCalls) (n : Outcome) : n.Of (n.put o) := by
  cases n <;> rfl

theorem Of.put {o : SubmitCalls} {m n : Outcome} (h : m.Of o) (hne : m.rank ≠ n.rank) :
    m.Of (n.put o) := by
  cases m <;> cases n <;> first | exact h | exact absurd rfl hne

end Outcome

/-- The calls of the platform fail without a text. -/
def callFailed : GoError := .text "call failed"

/-- What the next call comes to with this answer. -/
def Front.outcome : Front → Answer → Option Outcome
  | claim _, .claimed r => some (.claimOrGet (.ok r))
  | claim _, _ => some (.claimOrGet (.error callFailed))
  | coalesce _, .decided action => some (.tryCoalesce (.ok action))
  | coalesce _, _ => some (.tryCoalesce (.error callFailed))
  | admitting _, .admitted true => some (.admission none)
  | admitting _, _ => some (.admission (some callFailed))
  | release _ _, .deleted => some (.deleteCoalescing none)
  | release _ _, _ => some (.deleteCoalescing (some callFailed))
  | forget _ _ _, .deleted => some (.deleteIdempotency none)
  | forget _ _ _, _ => some (.deleteIdempotency (some callFailed))
  | _, _ => none

/-- The same for its second half. -/
def submitOutcome : Submit → Request → Response → Option Outcome
  | .create, .create jobID _, .result (.ok ()) => some (.create (.ok jobID))
  | .create, _, _ => some (.create (.error callFailed))
  | .bind jobID _, _, .flag true => some (.setJobID jobID none)
  | .bind jobID _, _, _ => some (.setJobID jobID (some callFailed))
  | .deadline _ _, _, .flag true => some (.deadline none)
  | .deadline _ _, _, _ => some (.deadline (some 0))
  | .push jobID _, _, .reply (.enqueue r) => some (.pushLeft jobID r)
  | .push jobID _, _, _ => some (.pushLeft jobID (.error callFailed))
  -- `MarkFailed` goes on to its update
  | .failSelect _ _, _, .result (.ok ()) => none
  | .failSelect jobID _, _, _ => some (.markFailed jobID (some callFailed))
  | .failUpdate jobID _, _, resp =>
    some (.markFailed jobID (if resp = .result (.ok ()) then none else some callFailed))
  | .settle jobID true, _, resp =>
    some (.transitionStatus jobID (if resp = .flag true then none else some callFailed))
  | .settle _ false, _, _ => none
  | .ended, _, _ => none

def outcome (i : ℕ) (p : State) : Event → Option Outcome
  | .front k answer => if k = i then (p.fronts i).outcome answer else none
  | .system (.call (.submit k) req resp) =>
    if k = i then submitOutcome (p.system.submits i) req resp else none
  | _ => none

/-- What the caller sees of a `Submit`, and the calls that were made for it. -/
structure Returned where
  jobID : String
  ok : Bool
  calls : List SubmitCall

namespace Returned

def of (s : Submitted) : Returned := ⟨s.jobID, s.err.isNone, s.calls⟩

def after (calls : List SubmitCall) (r : Returned) : Returned :=
  { r with calls := calls ++ r.calls }

theorem after_after (calls calls' : List SubmitCall) (r : Returned) :
    (r.after calls').after calls = r.after (calls ++ calls') := by
  simp [after]

theorem of_after (calls : List SubmitCall) (s : Submitted) :
    of (s.after calls) = (of s).after calls := rfl

end Returned

def rejected (calls : List SubmitCall) : Returned := ⟨"", false, calls⟩

def cleanedUp (o : SubmitCalls) (clean : Bool) (calls : List SubmitCall) : Returned :=
  ⟨"", clean && o.deleteIdempotency.isNone, calls⟩

def submitRest (o : SubmitCalls) : Submit → Returned
  | .create => .of (createJob o)
  | .bind jobID _ => .of (bindJob o jobID)
  | .deadline jobID _ => .of (enqueueJob o jobID)
  | .push jobID _ => .of (enqueueJob { o with deadline := none } jobID)
  | .failSelect jobID true | .failUpdate jobID true => rejected (rejectCalls jobID)
  | .failSelect jobID false | .failUpdate jobID false =>
    cleanedUp o o.deleteCoalescing.isNone (.markFailed jobID :: cleanupCalls)
  | .settle jobID true => rejected [.transitionStatus jobID "failed", .deleteCoalescing]
  -- the first half has gone on by itself
  | .settle _ false | .ended => rejected []

/-- What `Submit` comes to from here on, if the calls it has yet to make come to what `o` says. -/
def Front.rest (o : SubmitCalls) (sub : Submit) : Front → Returned
  | start | invalid => rejected []
  | claim _ => .of (claimJob o)
  | coalesce _ => .of (coalesceJob o)
  | admitting _ => .of (admitJob o)
  | running _ => submitRest o sub
  | release _ .rejection => rejected [.deleteCoalescing]
  | release _ .admission => rejected cleanupCalls
  | release _ .creation | release _ .binding =>
    cleanedUp o o.deleteCoalescing.isNone cleanupCalls
  | forget _ .admission _ => rejected [.deleteIdempotency]
  | forget _ _ clean => cleanedUp o clean [.deleteIdempotency]
  | returned _ jobID ok => ⟨(jobID.map Ident.val).getD "", ok, []⟩

def submitRank : Submit → ℕ
  | .create => 3
  | .bind _ _ => 4
  | .deadline _ _ => 5
  | .push _ _ => 6
  | .failSelect _ _ | .failUpdate _ _ => 7
  | .settle _ _ => 8
  | .ended => 9

def Front.rank (sub : Submit) : Front → ℕ
  | start | invalid | claim _ => 0
  | coalesce _ => 1
  | admitting _ => 2
  | running _ => submitRank sub
  | release _ _ => 9
  | forget _ _ _ => 10
  | returned _ _ _ => 11

inductive Answered : Front → Option Outcome → Front → Prop
  | new {task r} (h : r.action = .new) :
      Answered (.claim task) (some (.claimOrGet (.ok r))) (.coalesce task)
  | replayed {task jobID} :
      Answered (.claim task) (some (.claimOrGet (.ok ⟨.replay, jobID⟩))) (.returned task jobID true)
  | refused {task r} (hnew : r.action ≠ .new) (hreplay : r.action ≠ .replay) :
      Answered (.claim task) (some (.claimOrGet (.ok r))) (.returned task none false)
  | notClaimed {task} :
      Answered (.claim task) (some (.claimOrGet (.error callFailed))) (.returned task none false)
  | proceeded {task} :
      Answered (.coalesce task) (some (.tryCoalesce (.ok .proceed))) (.admitting task)
  | notCoalesced {task r} (h : r ≠ .ok .proceed) :
      Answered (.coalesce task) (some (.tryCoalesce r)) (.returned task none false)
  | admitted {task} : Answered (.admitting task) (some (.admission none)) (.running task)
  | notAdmitted {task} :
      Answered (.admitting task) (some (.admission (some callFailed))) (.release task .admission)
  | rejected {task err} :
      Answered (.release task .rejection) (some (.deleteCoalescing err)) (.returned task none false)
  | released {task ending err} (h : ending ≠ .rejection) :
      Answered (.release task ending) (some (.deleteCoalescing err))
        (.forget task ending err.isNone)
  | denied {task clean err} :
      Answered (.forget task .admission clean) (some (.deleteIdempotency err))
        (.returned task none false)
  | forgotten {task ending clean err} (h : ending ≠ .admission) :
      Answered (.forget task ending clean) (some (.deleteIdempotency err))
        (.returned task none (clean && err.isNone))
  | idle {front} : Answered front none front

inductive Followed (task : Task) : Submit → Option Outcome → Submit → Front → Prop
  | created {jobID userID} :
      Followed task .create (some (.create (.ok jobID))) (.bind jobID userID) (.running task)
  | notCreated :
      Followed task .create (some (.create (.error callFailed))) .ended (.release task .creation)
  | bound {jobID userID} :
      Followed task (.bind jobID userID) (some (.setJobID jobID none)) (.deadline jobID userID)
        (.running task)
  | notBound {jobID userID} :
      Followed task (.bind jobID userID) (some (.setJobID jobID (some callFailed)))
        (.failSelect jobID false) (.running task)
  | inTime {jobID userID} :
      Followed task (.deadline jobID userID) (some (.deadline none)) (.push jobID userID)
        (.running task)
  | late {jobID userID} :
      Followed task (.deadline jobID userID) (some (.deadline (some 0))) (.failSelect jobID true)
        (.running task)
  | pushed {jobID userID r} :
      Followed task (.push jobID userID) (some (.pushLeft jobID (.ok r))) .ended
        (.returned task (some jobID) true)
  | queueFull {jobID userID} :
      Followed task (.push jobID userID)
        (some (.pushLeft jobID (.error (.wrap "" (.sentinel .schedulerQueueFull)))))
        (.failSelect jobID true) (.running task)
  | notPushed {jobID userID err}
      (h : err = callFailed ∨ err = .wrap "" (.sentinel .schedulerDuplicateJob)) :
      Followed task (.push jobID userID) (some (.pushLeft jobID (.error err))) .ended
        (.returned task none false)
  | selected {jobID bound} :
      Followed task (.failSelect jobID bound) none (.failUpdate jobID bound) (.running task)
  | marked {sub jobID bound err}
      (h : sub = .failSelect jobID bound ∨ sub = .failUpdate jobID bound) :
      Followed task sub (some (.markFailed jobID err)) (.settle jobID bound)
        (if bound then .running task else .release task .binding)
  | settled {jobID err} :
      Followed task (.settle jobID true) (some (.transitionStatus jobID err)) .ended
        (.release task .rejection)
  | stopped {jobID} : Followed task (.settle jobID false) none .ended (.running task)

variable {cfg : Config} {p q : State} {e : Event} {i : ℕ} {o : SubmitCalls} {task : Task}
  {front front' : Front} {sub sub' : Submit} {req : Request} {resp : Response}
  {n? : Option Outcome}

theorem Front.answered (front : Front) (answer : Answer) :
    Answered front (front.outcome answer) (front.resume answer) := by
  cases front with
  | claim task =>
    cases answer with
    | claimed r =>
      obtain ⟨action, jobID⟩ := r
      cases action with
      | new => exact .new rfl
      | replay => exact .replayed
      | duplicateInFlight | unknown | failed => exact .refused (by simp) (by simp)
    | _ => exact .notClaimed
  | coalesce task =>
    cases answer with
    | decided action =>
      cases action with
      | proceed => exact .proceeded
      | rejected => exact .notCoalesced (by simp)
    | _ => exact .notCoalesced (by simp)
  | admitting task =>
    cases answer with
    | admitted ok => cases ok <;> constructor
    | _ => exact .notAdmitted
  | release task ending =>
    cases ending <;> cases answer <;>
      first | exact .rejected | exact .released (by decide)
  | forget task ending clean =>
    cases ending <;> cases answer <;>
      first | exact .denied | exact .forgotten (by decide)
  | _ => exact .idle

theorem pushLeft_error {cfg : Scheduler.Config} {s : Scheduler.State} {entry : Scheduler.QueueEntry}
    {now : ℕ} {err : GoError} (h : (Scheduler.pushLeft cfg entry now s).2 = .error err) :
    err = .wrap "" (.sentinel .schedulerQueueFull) ∨
      err = .wrap "" (.sentinel .schedulerDuplicateJob) := by
  have heffect := @Scheduler.pushLeft_effect cfg s now entry
  generalize (Scheduler.pushLeft cfg entry now s).1 = t at heffect
  rw [h] at heffect
  cases heffect with
  | pushFull => exact Or.inl rfl
  | pushDuplicate => exact Or.inr rfl

theorem followed (task : Task) (hreq : sub.requests req)
    (herr : ∀ entry err, req = .redis (.pushLeft entry) →
      resp = .reply (.enqueue (.error err)) → err = .wrap "" (.sentinel .schedulerQueueFull) ∨
        err = .wrap "" (.sentinel .schedulerDuplicateJob)) :
    Followed task sub (submitOutcome sub req resp) (sub.resume req resp)
      (.follow task sub (sub.resume req resp) resp) := by
  -- a call of the second half and its response
  cases sub with
  | create =>
    obtain ⟨jobID, userID, rfl⟩ := hreq
    cases resp with
    | result r =>
      cases r with
      | ok => exact .created
      | error err => exact .notCreated
    | _ => exact .notCreated
  | bind jobID userID =>
    cases resp with
    | flag b => cases b <;> constructor
    | _ => exact .notBound
  | deadline jobID userID =>
    cases resp with
    | flag b => cases b <;> constructor
    | _ => exact .late
  | push jobID userID =>
    cases resp with
    | reply r =>
      cases r with
      | enqueue r =>
        cases r with
        | ok r => exact .pushed
        | error err =>
          rcases herr _ err hreq rfl with rfl | rfl
          · exact .queueFull
          · exact .notPushed (Or.inr rfl)
      | _ => exact .notPushed (Or.inl rfl)
    | _ => exact .notPushed (Or.inl rfl)
  | failSelect jobID bound =>
    cases resp with
    | result r =>
      cases r with
      | ok => exact .selected
      | error err => cases bound <;> exact .marked (Or.inl rfl)
    | _ => cases bound <;> exact .marked (Or.inl rfl)
  | failUpdate jobID bound => cases bound <;> exact .marked (Or.inr rfl)
  | settle jobID bound =>
    cases bound with
    | false => exact .stopped
    | true => exact .settled
  | ended => cases hreq

theorem Answered.ne_start (h : Answered front n? front')
    (hne : front ≠ .start) : front' ≠ .start := by
  cases h with
  | idle => exact hne
  | _ => simp

theorem Answered.of_start (h : Answered .start n? front) :
    n? = none ∧ front = .start := by
  cases h
  exact ⟨rfl, rfl⟩

theorem Followed.ne_start (h : Followed task sub n? sub' front) : front ≠ .start := by
  cases h with
  | marked => split_ifs <;> simp
  | _ => simp

theorem three_le_submitRank (sub : Submit) : 3 ≤ submitRank sub := by
  cases sub <;> simp [submitRank]

theorem Answered.rank (h : Answered front n? front')
    (sub : Submit) : front.rank sub ≤ front'.rank sub ∧
      ∀ n ∈ n?, n.rank = front.rank sub ∧ front.rank sub < front'.rank sub := by
  have hsub := three_le_submitRank sub
  cases h <;> simp [Front.rank, Outcome.rank]
  omega

theorem Followed.rank (h : Followed task sub n? sub' front) : submitRank sub ≤ front.rank sub' ∧
      ∀ n ∈ n?, n.rank = submitRank sub ∧ submitRank sub < front.rank sub' := by
  cases h with
  | marked h =>
    rcases h with rfl | rfl <;> split_ifs <;> simp [Front.rank, Outcome.rank, submitRank]
  | _ => simp [Front.rank, Outcome.rank, submitRank]

theorem cleanupClaims_isNone :
    (cleanupClaims o).isNone = (o.deleteCoalescing.isNone && o.deleteIdempotency.isNone) := by
  unfold cleanupClaims join
  cases o.deleteCoalescing <;> cases o.deleteIdempotency <;> rfl

theorem Answered.rest (h : Answered front n? front')
    (hsub : front.rank sub < 3 → sub = .create) (ho : ∀ n ∈ n?, n.Of o) :
    front.rest o sub = (front'.rest o sub).after (n?.bind Outcome.call).toList := by
  cases h with
  | @new task r hnew =>
    have hclaim : o.claimOrGet = .ok r := ho _ rfl
    simp only [Front.rest, claimJob, hclaim, hnew, Returned.of_after]
    rfl
  | @replayed task jobID =>
    have hclaim : o.claimOrGet = .ok ⟨.replay, jobID⟩ := ho _ rfl
    simp only [Front.rest, claimJob, hclaim]
    rfl
  | @refused task r hnew hreplay =>
    obtain ⟨action, jobID⟩ := r
    have hclaim : o.claimOrGet = .ok ⟨action, jobID⟩ := ho _ rfl
    simp only [Front.rest, claimJob, hclaim]
    cases action with
    | new => exact absurd rfl hnew
    | replay => exact absurd rfl hreplay
    | duplicateInFlight | unknown | failed => rfl
  | notClaimed =>
    have hclaim : o.claimOrGet = .error callFailed := ho _ rfl
    simp only [Front.rest, claimJob, hclaim]
    rfl
  | proceeded =>
    have hcoalesce : o.tryCoalesce = .ok .proceed := ho _ rfl
    simp only [Front.rest, coalesceJob, hcoalesce, Returned.of_after]
    rfl
  | @notCoalesced task r hr =>
    have hcoalesce : o.tryCoalesce = r := ho _ rfl
    simp only [Front.rest, coalesceJob, hcoalesce]
    cases r with
    | error err => rfl
    | ok action =>
      cases action with
      | proceed => exact absurd rfl hr
      | rejected => rfl
  | admitted =>
    have hadmit : o.admission = none := ho _ rfl
    obtain rfl := hsub (by simp [Front.rank])
    simp only [Front.rest, admitJob, hadmit, Returned.of_after]
    rfl
  | notAdmitted =>
    have hadmit : o.admission = some callFailed := ho _ rfl
    simp only [Front.rest, admitJob, hadmit]
    cases cleanupClaims o <;> rfl
  | rejected => rfl
  | @released task ending err hending =>
    have hdelete : o.deleteCoalescing = err := ho _ rfl
    cases ending with
    | rejection => exact absurd rfl hending
    | admission => rfl
    | creation | binding =>
      simp only [Front.rest, hdelete]
      rfl
  | denied => rfl
  | @forgotten task ending clean err hending =>
    have hdelete : o.deleteIdempotency = err := ho _ rfl
    cases ending with
    | admission => exact absurd rfl hending
    | rejection | creation | binding =>
      simp only [Front.rest, cleanedUp, hdelete]
      rfl
  | idle => rfl

theorem Followed.rest (h : Followed task sub n? sub' front) (ho : ∀ n ∈ n?, n.Of o) :
    submitRest o sub = (front.rest o sub').after (n?.bind Outcome.call).toList := by
  cases h with
  | @created jobID userID =>
    have hcreate : o.create = .ok jobID := ho _ rfl
    simp only [submitRest, createJob, hcreate, Returned.of_after]
    rfl
  | notCreated =>
    have hcreate : o.create = .error callFailed := ho _ rfl
    -- the error that is returned is that of `cleanupClaims`
    simp only [submitRest, createJob, hcreate, Front.rest, cleanedUp, ← cleanupClaims_isNone]
    cases cleanupClaims o <;> rfl
  | bound =>
    have hbind : o.setJobID = none := ho _ rfl
    simp only [submitRest, bindJob, hbind, Returned.of_after]
    rfl
  | notBound =>
    have hbind : o.setJobID = some callFailed := ho _ rfl
    simp only [submitRest, bindJob, hbind, Front.rest, cleanedUp, ← cleanupClaims_isNone]
    cases cleanupClaims o <;> rfl
  | inTime =>
    have hleft : o.deadline = none := ho _ rfl
    simp only [submitRest, Front.rest, enqueueJob, hleft]
    rfl
  | late =>
    have hleft : o.deadline = some 0 := ho _ rfl
    simp only [submitRest, enqueueJob, hleft]
    rfl
  | @pushed jobID userID r =>
    have hpush : o.pushLeft = .ok r := ho _ rfl
    simp only [submitRest, enqueueJob, hpush]
    rfl
  | queueFull =>
    have hpush : o.pushLeft = .error (.wrap "" (.sentinel .schedulerQueueFull)) := ho _ rfl
    simp only [submitRest, enqueueJob, hpush]
    rfl
  | @notPushed jobID userID err herr =>
    have hpush : o.pushLeft = .error err := ho _ rfl
    simp only [submitRest, enqueueJob, hpush]
    rcases herr with rfl | rfl <;> rfl
  | @selected jobID bound => cases bound <;> rfl
  | @marked sub jobID bound err hsub =>
    cases bound <;> rcases hsub with rfl | rfl <;> rfl
  | settled => rfl
  | stopped => rfl

theorem outcome_system {se : Service.Event}
    (hse : ¬∃ req resp, se = .call (.submit i) req resp) : outcome i p (.system se) = none := by
  -- nobody else makes a call of the `Submit`
  cases se with
  | tick => rfl
  | call th req resp =>
    cases th with
    | submit k =>
      rw [outcome, if_neg]
      rintro rfl
      exact hse ⟨req, resp, rfl⟩
    | _ => rfl

theorem Step.followed (h : Step cfg p (.system (.call (.submit i) req resp)) q) :
    ∃ task, p.fronts i = .running task ∧
      Followed task (p.system.submits i) (submitOutcome (p.system.submits i) req resp)
        (q.system.submits i) (q.fronts i) := by
  obtain ⟨⟨hallowed, -⟩, hs⟩ := h.service
  obtain ⟨hreq, st, hst, -⟩ := hs.call
  cases hfront : p.fronts i with
  | running task =>
    refine ⟨task, rfl, ?_⟩
    rw [h.follow_self hfront, hs.submit_self]
    refine Platform.followed task hreq ?_
    rintro entry err rfl rfl
    have hreply := answers_of_serve hst (by simp)
    exact pushLeft_error (Scheduler.Reply.enqueue.inj hreply).symm
  | _ => simp [SubmitAllowed, hfront] at hallowed

/-- What an event does to one `Submit`. -/
theorem Step.thread (h : Step cfg p e q) (i : ℕ) :
    (∃ userID header input, e = .submit i userID header input ∧ p.fronts i = .start ∧
      q.fronts i = .begin userID header input ∧ q.system.submits i = p.system.submits i) ∨
    (Answered (p.fronts i) (outcome i p e) (q.fronts i) ∧
      q.system.submits i = p.system.submits i) ∨
    ∃ task, p.fronts i = .running task ∧
      Followed task (p.system.submits i) (outcome i p e) (q.system.submits i) (q.fronts i) := by
  have hfront := h.front i
  generalize hq : q.fronts i = front at hfront
  cases e with
  | submit k userID header input =>
    have hsame : q.system = p.system := h.system.elim (fun ⟨_, hse, _⟩ => by cases hse) And.right
    cases hfront with
    | same => exact Or.inr (Or.inl ⟨.idle, by rw [hsame]⟩)
    | began hstart => exact Or.inl ⟨userID, header, input, rfl, hstart, rfl, by rw [hsame]⟩
  | front k answer =>
    right
    left
    by_cases hk : k = i
    · subst hk
      rw [← hq, h.front_self, h.front_system, outcome, if_pos rfl]
      exact ⟨Front.answered _ _, rfl⟩
    · rw [h.front_system, outcome, if_neg hk]
      cases hfront with
      | same => exact ⟨.idle, rfl⟩
      | answered => exact absurd rfl hk
  | system se =>
    right
    by_cases hse : ∃ req resp, se = .call (.submit i) req resp
    · obtain ⟨req, resp, rfl⟩ := hse
      right
      rw [← hq, outcome, if_pos rfl]
      exact h.followed
    · left
      rw [outcome_system hse]
      constructor
      · cases hfront with
        | same => exact .idle
        | followed => exact absurd ⟨_, _, rfl⟩ hse
      · refine (h.service.2.submit i).resolve_right ?_
        rintro ⟨req, resp, rfl, -⟩
        exact hse ⟨req, resp, rfl⟩

/-- The `Submit` has made the calls in `log`, and comes to what `submit` comes to with their
outcomes. -/
structure Tracks (userID : UserID) (input : InferenceInput) (log : List Outcome) (front : Front)
    (sub : Submit) : Prop where
  consistent : ∃ o, ∀ n ∈ log, n.Of o
  earlier : ∀ n ∈ log, n.rank < front.rank sub
  firstHalf : front.rank sub < 3 → sub = .create
  rest : ∀ o, (∀ n ∈ log, n.Of o) → Returned.of (submit o userID input) =
    (front.rest o sub).after (log.filterMap Outcome.call)

namespace Tracks

variable {userID : UserID} {input : InferenceInput} {log : List Outcome}

theorem consistent_concat (h : Tracks userID input log front sub)
    (hn : ∀ n ∈ n?, n.rank = front.rank sub) : ∃ o, ∀ n ∈ log ++ n?.toList, n.Of o := by
  obtain ⟨o, ho⟩ := h.consistent
  cases n? with
  | none => exact ⟨o, by simpa using ho⟩
  | some n =>
    refine ⟨n.put o, fun m hm => ?_⟩
    rcases List.mem_append.mp hm with hm | hm
    · have hlt := h.earlier m hm
      exact (ho m hm).put (by rw [hn n rfl]; omega)
    · obtain rfl : m = n := by simpa using hm
      exact m.of_put o

theorem concat (h : Tracks userID input log front sub)
    (hrank : front.rank sub ≤ front'.rank sub' ∧
      ∀ n ∈ n?, n.rank = front.rank sub ∧ front.rank sub < front'.rank sub')
    (hfirst : front'.rank sub' < 3 → sub' = .create)
    (hrest : ∀ o, (∀ n ∈ n?, n.Of o) →
      front.rest o sub = (front'.rest o sub').after (n?.bind Outcome.call).toList) :
    Tracks userID input (log ++ n?.toList) front' sub' where
  consistent := h.consistent_concat fun n hn => (hrank.2 n hn).1
  earlier m hm := by
    rcases List.mem_append.mp hm with hm | hm
    · exact (h.earlier m hm).trans_le hrank.1
    · obtain ⟨hn, hlt⟩ := hrank.2 m (Option.mem_toList.mp hm)
      rwa [hn]
  firstHalf := hfirst
  rest o ho := by
    rw [h.rest o fun n hn => ho n (List.mem_append_left _ hn),
      hrest o fun n hn => ho n (List.mem_append_right _ (Option.mem_toList.mpr hn)),
      Returned.after_after, List.filterMap_append]
    cases n? with
    | none => simp
    | some n => cases hcall : n.call <;> simp [hcall]

theorem start (userID : UserID) (header : String) (input : InferenceInput) :
    Tracks userID input [] (.begin userID header input) .create := by
  refine ⟨⟨⟨.error callFailed, .error callFailed, none, .error callFailed, none, none,
    .error callFailed, none, none, none, none⟩, by simp⟩, by simp, fun _ => rfl, fun o _ => ?_⟩
  unfold Front.begin submit
  cases validateInferenceInput userID input <;> rfl

theorem step (h : Tracks userID input log (p.fronts i) (p.system.submits i))
    (hstart : p.fronts i ≠ .start) (he : Step cfg p e q) :
    Tracks userID input (log ++ (outcome i p e).toList) (q.fronts i) (q.system.submits i) := by
  rcases he.thread i with ⟨_, _, _, -, hbegin, -⟩ | ⟨hanswered, hsub⟩ | ⟨task, hrunning, hfollowed⟩
  · exact absurd hbegin hstart
  · rw [hsub]
    have hrank := hanswered.rank (p.system.submits i)
    exact h.concat hrank (fun hlt => h.firstHalf (hrank.1.trans_lt hlt))
      fun o ho => hanswered.rest h.firstHalf ho
  · rw [hrunning] at h
    refine h.concat hfollowed.rank (fun hlt => ?_) fun o ho => hfollowed.rest ho
    have hle := (three_le_submitRank _).trans hfollowed.rank.1
    omega

end Tracks

theorem begin_ne_start (userID : UserID) (header : String) (input : InferenceInput) :
    Front.begin userID header input ≠ .start := by
  unfold Front.begin
  split <;> simp

theorem Step.ne_start (he : Step cfg p e q) (hne : p.fronts i ≠ .start) : q.fronts i ≠ .start := by
  -- a `Submit` is called once
  rcases he.thread i with ⟨_, _, _, -, hstart, -⟩ | ⟨hanswered, -⟩ | ⟨task, -, hfollowed⟩
  · exact absurd hstart hne
  · exact hanswered.ne_start hne
  · exact hfollowed.ne_start

def Begun (i : ℕ) (tr : List Event) (a : Logged State Outcome) : Prop :=
  (a.state.fronts i = .start ∧ a.state.system.submits i = .create ∧ a.log = []) ∨
    (a.state.fronts i ≠ .start ∧ ∃ userID header input, .submit i userID header input ∈ tr ∧
      Tracks userID input a.log (a.state.fronts i) (a.state.system.submits i))

theorem Begun.step {a b : Logged State Outcome} {tr : List Event} (h : Begun i tr a)
    (hab : Fires (loggedStep (Platform.step cfg) (outcome i)) a e b) : Begun i (tr ++ [e]) b := by
  obtain ⟨hfires, hlog⟩ := loggedStep_inv hab
  have he : Step cfg a.state e b.state := hfires
  unfold Begun
  rw [hlog]
  rcases h with ⟨hstart, hcreate, hnil⟩ | ⟨hne, userID, header, input, hmem, htracks⟩
  · rcases he.thread i with ⟨userID, header, input, rfl, -, hbegin, hsub⟩ | ⟨hanswered, hsub⟩ |
      ⟨task, hrunning, -⟩
    · right
      rw [hbegin, hsub, hcreate, hnil]
      exact ⟨begin_ne_start userID header input, userID, header, input, by simp,
        Tracks.start userID header input⟩
    · left
      rw [hstart] at hanswered
      obtain ⟨hnone, hstill⟩ := hanswered.of_start
      rw [hsub, hcreate, hnil, hnone]
      exact ⟨hstill, rfl, rfl⟩
    · rw [hstart] at hrunning
      cases hrunning
  · right
    exact ⟨he.ne_start hne, userID, header, input, List.mem_append_left _ hmem,
      htracks.step hne he⟩

/-- A `Submit` of the platform that has returned is `submit` with the outcomes of its calls: it
returns the same job ID, an error exactly where that has one, and it has made the same calls. -/
theorem returned_eq_submit {a : Logged State Outcome} {tr : List Event} {jobID : Option JobID}
    {ok : Bool} (h : Run (Fires (loggedStep (step cfg) (outcome i))) ⟨.initial, []⟩ tr a)
    (hret : a.state.fronts i = .returned task jobID ok) :
    ∃ userID header input, .submit i userID header input ∈ tr ∧ (∃ o, ∀ n ∈ a.log, n.Of o) ∧
      ∀ o, (∀ n ∈ a.log, n.Of o) → Returned.of (submit o userID input) =
        ⟨(jobID.map Ident.val).getD "", ok, a.log.filterMap Outcome.call⟩ := by
  have hbegun : Begun i tr a :=
    h.history (Begun i) (Or.inl ⟨rfl, rfl, rfl⟩) fun _ _ _ _ hbegun hab => hbegun.step hab
  rcases hbegun with ⟨hstart, -⟩ | ⟨-, userID, header, input, hmem, htracks⟩
  · rw [hret] at hstart
    cases hstart
  · refine ⟨userID, header, input, hmem, htracks.consistent, fun o ho => ?_⟩
    rw [htracks.rest o ho, hret]
    simp [Front.rest, Returned.after]

end InferenceQueue.Platform

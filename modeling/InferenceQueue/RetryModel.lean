import InferenceQueue.Shared
import Mathlib.Algebra.Group.Int.Defs
import Mathlib.Data.Int.Order.Basic

namespace InferenceQueue.Retry

/-- `ctx.Err()` over time: once it is an error it stays that error. -/
structure Context where
  err : ℕ → Option GoError
  sticky : ∀ t t' e, t ≤ t' → err t = some e → err t' = some e

structure RetryPolicy where
  maxAttempts : ℤ
  baseDelay : ℤ
  maxDelay : ℤ
  shouldRetry : GoError → Bool

structure RetryEvent where
  attempt : ℕ
  maxAttempts : ℤ
  err : GoError
  nextDelay : ℤ
  willRetry : Bool
deriving DecidableEq

/-- What a call of `fn` gives and when, and how the delay after it ends, if there is one. -/
structure Attempt (α : Type*) where
  result : Except GoError α
  returned : ℕ
  woken : ℕ
  byTimer : Bool

/-- Durations are 64-bit integers, so the shift may overflow. -/
def retryDelay (baseDelay maxDelay : ℤ) (attempt : ℕ) : ℤ :=
  if baseDelay ≤ 0 ∨ attempt = 0 then 0
  else
    let delay := (baseDelay * 2 ^ (attempt - 1)).bmod (2 ^ 64)
    if 0 < maxDelay ∧ maxDelay < delay then maxDelay else delay

variable {α β : Type*}

def sleepWithContext (ctx : Context) (delay : ℤ) (a : Attempt α) : Option GoError :=
  if delay ≤ 0 ∨ a.byTimer then none else ctx.err a.woken

inductive Round (α : Type*)
  | stop (result : Except GoError α) (events : List RetryEvent)
  | again (event : RetryEvent)

def failedAfter (policy : RetryPolicy) (err : GoError) : GoError :=
  .wrap ("operation failed after " ++ toString policy.maxAttempts ++ " attempts: ") err

def round (ctx : Context) (policy : RetryPolicy) (attempt : ℕ) (a : Attempt α) : Round α :=
  match a.result with
  | .ok x => .stop (.ok x) []
  | .error err =>
    match ctx.err a.returned with
    | some e => .stop (.error e) []
    | none =>
      if policy.shouldRetry err ∧ attempt < policy.maxAttempts then
        let nextDelay := retryDelay policy.baseDelay policy.maxDelay attempt
        let event := ⟨attempt, policy.maxAttempts, err, nextDelay, true⟩
        match sleepWithContext ctx nextDelay a with
        | some e => .stop (.error (.wrap "retry interrupted: " e)) [event]
        | none => .again event
      else .stop (.error (failedAfter policy err)) [⟨attempt, policy.maxAttempts, err, 0, false⟩]

/-- The result, how often `fn` was called, and the calls of `OnAttemptFailed`. -/
structure Retried (α : Type*) where
  result : Except GoError α
  calls : ℕ
  events : List RetryEvent

/-- The loop from attempt `attempt` on, with at most `more` attempts after it. -/
def attempts (ctx : Context) (policy : RetryPolicy) (fn : ℕ → Attempt α) : ℕ → ℕ → Retried α
  | more, attempt =>
    match round ctx policy attempt (fn attempt), more with
    | .stop result events, _ => ⟨result, attempt, events⟩
    | .again event, more + 1 =>
      let rest := attempts ctx policy fn more (attempt + 1)
      { rest with events := event :: rest.events }
    -- not reached: the last attempt is never followed by another
    | .again event, 0 => ⟨.error (failedAfter policy event.err), attempt, [event]⟩

def doWithRetry (ctx : Context) (policy : RetryPolicy) (fn : ℕ → Attempt α) : Retried α :=
  if policy.maxAttempts ≤ 0 then
    ⟨.error (.text "retry policy: max attempts must be greater than zero"), 0, []⟩
  else attempts ctx policy fn (policy.maxAttempts.toNat - 1) 1

variable {ctx : Context} {policy : RetryPolicy} {fn : ℕ → Attempt α} {e : GoError}

/-- An error of the loop comes from an attempt that failed: it is the attempt's own error, or that
of the context when the attempt or the delay after it was over. -/
def FailedBy (ctx : Context) (policy : RetryPolicy) (a : Attempt α) (e : GoError) : Prop :=
  ∃ err, a.result = .error err ∧ (e = failedAfter policy err ∨ ctx.err a.returned = some e ∨
    ∃ c, ctx.err a.woken = some c ∧ e = .wrap "retry interrupted: " c)

theorem sleepWithContext_some {delay : ℤ} {a : Attempt α}
    (h : sleepWithContext ctx delay a = some e) : ctx.err a.woken = some e := by
  unfold sleepWithContext at h
  split_ifs at h
  exact h

theorem failedBy_of_round {attempt : ℕ} {a : Attempt α} :
    (∀ events, round ctx policy attempt a = .stop (.error e) events → FailedBy ctx policy a e) ∧
      ∀ event, round ctx policy attempt a = .again event → a.result = .error event.err := by
  unfold round
  cases hres : a.result with
  | ok x => simp
  | error err =>
    cases hctx : ctx.err a.returned with
    | some c =>
      refine ⟨?_, by simp⟩
      rintro events ⟨⟩
      exact ⟨err, hres, Or.inr (Or.inl hctx)⟩
    | none =>
      dsimp only
      split_ifs with hretry
      · cases hsleep : sleepWithContext ctx
            (retryDelay policy.baseDelay policy.maxDelay attempt) a with
        | some c =>
          refine ⟨?_, by simp⟩
          rintro events ⟨⟩
          exact ⟨err, hres, Or.inr (Or.inr ⟨c, sleepWithContext_some hsleep, rfl⟩)⟩
        | none =>
          refine ⟨by simp, ?_⟩
          rintro event ⟨⟩
          rfl
      · refine ⟨?_, by simp⟩
        rintro events ⟨⟩
        exact ⟨err, hres, Or.inl rfl⟩

theorem failedBy_of_attempts {more attempt : ℕ}
    (h : (attempts ctx policy fn more attempt).result = .error e) :
    ∃ k, FailedBy ctx policy (fn k) e := by
  fun_induction attempts ctx policy fn more attempt with
  | case1 more attempt result events hround =>
    obtain rfl : result = .error e := h
    exact ⟨attempt, failedBy_of_round.1 events hround⟩
  | case2 attempt event more hround rest ih => exact ih h
  | case3 attempt event hround =>
    cases h
    exact ⟨attempt, event.err, (failedBy_of_round (e := event.err)).2 event hround, Or.inl rfl⟩

theorem failedBy_of_doWithRetry (h : (doWithRetry ctx policy fn).result = .error e) :
    e = .text "retry policy: max attempts must be greater than zero" ∨
      ∃ k, FailedBy ctx policy (fn k) e := by
  unfold doWithRetry at h
  split_ifs at h
  · cases h
    exact Or.inl rfl
  · exact Or.inr (failedBy_of_attempts h)

def Retries (ctx : Context) (policy : RetryPolicy) (attempt : ℕ) (a : Attempt α) : Prop :=
  ∃ err, a.result = .error err ∧ ctx.err a.returned = none ∧ policy.shouldRetry err = true ∧
    attempt < policy.maxAttempts ∧
    sleepWithContext ctx (retryDelay policy.baseDelay policy.maxDelay attempt) a = none

/-- The first success comes with attempt `k`, and every attempt before it is followed by another. -/
def SucceedsAt (ctx : Context) (policy : RetryPolicy) (fn : ℕ → Attempt α) (k : ℕ) (x : α) : Prop :=
  1 ≤ k ∧ k ≤ policy.maxAttempts ∧ (∀ i, 1 ≤ i → i < k → Retries ctx policy i (fn i)) ∧
    (fn k).result = .ok x

theorem round_ok_iff {attempt : ℕ} {a : Attempt α} {x : α} :
    (∃ events, round ctx policy attempt a = .stop (.ok x) events) ↔ a.result = .ok x := by
  unfold round
  cases hres : a.result with
  | ok y => simp
  | error err =>
    cases hctx : ctx.err a.returned with
    | some c => simp
    | none =>
      dsimp only
      split_ifs
      · cases sleepWithContext ctx (retryDelay policy.baseDelay policy.maxDelay attempt) a <;> simp
      · simp

theorem round_again_iff {attempt : ℕ} {a : Attempt α} :
    (∃ event, round ctx policy attempt a = .again event) ↔ Retries ctx policy attempt a := by
  unfold round Retries
  cases hres : a.result with
  | ok y => simp
  | error err =>
    cases hctx : ctx.err a.returned with
    | some c => simp
    | none =>
      dsimp only
      split_ifs with hretry
      · cases sleepWithContext ctx (retryDelay policy.baseDelay policy.maxDelay attempt) a <;>
          simp [hretry]
      · refine iff_of_false (by simp) ?_
        rintro ⟨err', herr, -, hshould, hmore, -⟩
        cases herr
        exact hretry ⟨hshould, hmore⟩

/-- The loop succeeds with the first attempt that does, and has then made as many calls. -/
theorem attempts_ok_iff {more attempt k : ℕ} {x : α} :
    (attempts ctx policy fn more attempt).result = .ok x ∧
        (attempts ctx policy fn more attempt).calls = k ↔
      attempt ≤ k ∧ k ≤ attempt + more ∧
        (∀ i, attempt ≤ i → i < k → Retries ctx policy i (fn i)) ∧ (fn k).result = .ok x := by
  fun_induction attempts ctx policy fn more attempt with
  | case1 more attempt result events hround =>
    constructor
    · rintro ⟨rfl, rfl⟩
      exact ⟨le_rfl, Nat.le_add_right _ _, fun i hi hlt => absurd hi (Nat.not_le.mpr hlt),
        round_ok_iff.mp ⟨events, hround⟩⟩
    · rintro ⟨hle, -, hbefore, hok⟩
      obtain rfl : k = attempt := by
        by_contra hne
        obtain ⟨event, hagain⟩ := round_again_iff.mpr (hbefore attempt le_rfl (by omega))
        rw [hround] at hagain
        cases hagain
      obtain ⟨events', hstop⟩ := round_ok_iff.mpr hok
      rw [hround] at hstop
      cases hstop
      exact ⟨rfl, rfl⟩
  | case2 attempt event more hround rest ih =>
    rw [show (rest.result = .ok x ∧ rest.calls = k) = _ from propext ih]
    have hretries : Retries ctx policy attempt (fn attempt) := round_again_iff.mp ⟨event, hround⟩
    constructor
    · rintro ⟨hle, hmore, hbefore, hok⟩
      refine ⟨by omega, by omega, fun i hi hlt => ?_, hok⟩
      rcases Nat.eq_or_lt_of_le hi with rfl | hi
      · exact hretries
      · exact hbefore i hi hlt
    · rintro ⟨hle, hmore, hbefore, hok⟩
      have hne : k ≠ attempt := by
        rintro rfl
        obtain ⟨err, herr, -⟩ := hretries
        rw [herr] at hok
        cases hok
      exact ⟨by omega, by omega, fun i hi => hbefore i (by omega), hok⟩
  | case3 attempt event hround =>
    obtain ⟨err, herr, -⟩ := round_again_iff.mp ⟨event, hround⟩
    constructor
    · rintro ⟨hres, -⟩
      cases hres
    · rintro ⟨hle, hmore, -, hok⟩
      obtain rfl : k = attempt := by omega
      rw [herr] at hok
      cases hok

theorem doWithRetry_ok_iff {k : ℕ} {x : α} :
    (doWithRetry ctx policy fn).result = .ok x ∧ (doWithRetry ctx policy fn).calls = k ↔
      SucceedsAt ctx policy fn k x := by
  unfold doWithRetry SucceedsAt
  split_ifs with hmax
  · constructor
    · rintro ⟨hres, -⟩
      cases hres
    · rintro ⟨hk, hle, -⟩
      omega
  · rw [attempts_ok_iff]
    have hbound : k ≤ 1 + (policy.maxAttempts.toNat - 1) ↔ (k : ℤ) ≤ policy.maxAttempts := by omega
    rw [hbound]

theorem calls_attempts (ctx : Context) (policy : RetryPolicy) (fn : ℕ → Attempt α)
    (more attempt : ℕ) :
    attempt ≤ (attempts ctx policy fn more attempt).calls ∧
      (attempts ctx policy fn more attempt).calls ≤ attempt + more := by
  fun_induction attempts ctx policy fn more attempt with
  | case1 more attempt result events hround => exact ⟨le_rfl, Nat.le_add_right _ _⟩
  | case2 attempt event more hround rest ih =>
    have hfirst : attempt + 1 ≤ rest.calls := ih.1
    have hlast : rest.calls ≤ attempt + 1 + more := ih.2
    change attempt ≤ rest.calls ∧ rest.calls ≤ attempt + (more + 1)
    omega
  | case3 attempt event hround => exact ⟨le_rfl, le_rfl⟩

theorem calls_doWithRetry (ctx : Context) (policy : RetryPolicy) (fn : ℕ → Attempt α) :
    ((doWithRetry ctx policy fn).calls : ℤ) ≤ max policy.maxAttempts 0 ∧
      (0 < policy.maxAttempts → 0 < (doWithRetry ctx policy fn).calls) := by
  unfold doWithRetry
  split_ifs with hmax
  · exact ⟨by simp, fun h => absurd h (not_lt.mpr hmax)⟩
  · have hcalls := calls_attempts ctx policy fn (policy.maxAttempts.toNat - 1) 1
    omega

end InferenceQueue.Retry

import Mathlib.Data.List.Range
import Mathlib.Data.Nat.Find
import Mathlib.Order.Bounds.Basic
import InferenceQueue.RetryModel

namespace InferenceQueue

/-- `e` is found in `err` by `Unwrap`. -/
inductive GoError.Wraps (e : GoError) : GoError → Prop
  | self : Wraps e e
  | wrap {msg err} (h : Wraps e err) : Wraps e (.wrap msg err)
  | first {err err'} (h : Wraps e err) : Wraps e (.both err err')
  | second {err err'} (h : Wraps e err') : Wraps e (.both err err')
  | app {errCode errType err} (h : Wraps e err) : Wraps e (.app errCode errType err)

namespace Retry

variable {α : Type*}

/-- The attempt succeeds, or `ShouldRetry` refuses its error, or there is none after it. -/
def RetryPolicy.Ends (policy : RetryPolicy) (attempt : ℕ) (a : Attempt α) : Prop :=
  (∃ x, a.result = .ok x) ∨ (∃ err, a.result = .error err ∧ policy.shouldRetry err = false) ∨
    (attempt : ℤ) = policy.maxAttempts

def FirstEnd (policy : RetryPolicy) (fn : ℕ → Attempt α) (k : ℕ) : Prop :=
  IsLeast {i | 1 ≤ i ∧ policy.Ends i (fn i)} k

/-- What `OnAttemptFailed` hears of attempt `i` when attempt `k` is the last. -/
def reported (policy : RetryPolicy) (fn : ℕ → Attempt α) (k i : ℕ) : Option RetryEvent :=
  match (fn i).result with
  | .ok _ => none
  | .error err =>
    some ⟨i, policy.maxAttempts, err,
      if i < k then retryDelay policy.baseDelay policy.maxDelay i else 0, i < k⟩

def Context.Never (ctx : Context) : Prop := ∀ t, ctx.err t = none

/-- The attempt fails while the context is alive, and there is a delay before the next one. -/
def Delays (ctx : Context) (policy : RetryPolicy) (attempt : ℕ) (a : Attempt α) : Prop :=
  ∃ err, a.result = .error err ∧ ctx.err a.returned = none ∧ policy.shouldRetry err = true ∧
    attempt < policy.maxAttempts ∧ 0 < retryDelay policy.baseDelay policy.maxDelay attempt

/-- The context is cancelled before a failing attempt returns or during the delay after it. -/
def Interrupted (ctx : Context) (policy : RetryPolicy) (attempt : ℕ) (a : Attempt α)
    (c : GoError) : Prop :=
  (∃ err, a.result = .error err ∧ ctx.err a.returned = some c) ∨
    (Delays ctx policy attempt a ∧ ctx.err a.woken = some c)

/-- Without a cancellation the attempts go to the first one that ends the loop, each failure is
reported once and in order, and the last attempt gives the result.  With one, the attempt it meets
is the last. -/
structure RightAttempts (ctx : Context) (policy : RetryPolicy) (fn : ℕ → Attempt α) : Prop where
  uncanceled : ctx.Never → ∃ k, FirstEnd policy fn k ∧ (doWithRetry ctx policy fn).calls = k ∧
    (doWithRetry ctx policy fn).events = (List.range' 1 k).filterMap (reported policy fn k) ∧
    (∀ x, (fn k).result = .ok x → (doWithRetry ctx policy fn).result = .ok x) ∧
    ∀ err, (fn k).result = .error err →
      ∃ e, (doWithRetry ctx policy fn).result = .error e ∧ err.Wraps e
  canceled : ∀ i c, 1 ≤ i → i ≤ (doWithRetry ctx policy fn).calls →
    Interrupted ctx policy i (fn i) c →
    (doWithRetry ctx policy fn).calls = i ∧
      ∃ e, (doWithRetry ctx policy fn).result = .error e ∧ c.Wraps e

def Reached (ctx : Context) (policy : RetryPolicy) (fn : ℕ → Attempt α) (i : ℕ) : Prop :=
  1 ≤ i ∧ ∀ j, 1 ≤ j → j < i → Retries ctx policy j (fn j)

/-- Where the context is done when a delay ends, `select` takes the context and not the timer. -/
def SelectsContext (ctx : Context) (policy : RetryPolicy) (fn : ℕ → Attempt α) : Prop :=
  ∀ i, Reached ctx policy fn i → Delays ctx policy i (fn i) → ctx.err (fn i).woken ≠ none →
    (fn i).byTimer = false

variable {ctx : Context} {policy : RetryPolicy} {fn : ℕ → Attempt α} {k : ℕ}

theorem sleepWithContext_never (hctx : ctx.Never) (delay : ℤ) (a : Attempt α) :
    sleepWithContext ctx delay a = none := by
  unfold sleepWithContext
  rw [hctx]
  exact ite_self _

theorem round_of_ends {attempt : ℕ} {a : Attempt α} (hctx : ctx.Never)
    (h : policy.Ends attempt a) :
    round ctx policy attempt a = .stop (a.result.mapError (failedAfter policy))
      (match a.result with
        | .ok _ => []
        | .error err => [⟨attempt, policy.maxAttempts, err, 0, false⟩]) := by
  unfold round
  cases hres : a.result with
  | ok x => rfl
  | error err =>
    have hlast : ¬(policy.shouldRetry err = true ∧ (attempt : ℤ) < policy.maxAttempts) := by
      rintro ⟨hretry, hmore⟩
      rcases h with ⟨x, hx⟩ | ⟨err', herr, hrefused⟩ | heq
      · cases hres.symm.trans hx
      · cases hres.symm.trans herr
        cases hretry.symm.trans hrefused
      · omega
    simp only [hctx a.returned, if_neg hlast]
    rfl

theorem round_of_not_ends {attempt : ℕ} {a : Attempt α} (hctx : ctx.Never)
    (hle : attempt ≤ policy.maxAttempts) (h : ¬policy.Ends attempt a) :
    ∃ err, a.result = .error err ∧ round ctx policy attempt a =
      .again ⟨attempt, policy.maxAttempts, err,
        retryDelay policy.baseDelay policy.maxDelay attempt, true⟩ := by
  cases hres : a.result with
  | ok x => exact absurd (Or.inl ⟨x, hres⟩) h
  | error err =>
    have hretry : policy.shouldRetry err = true := by
      by_contra hrefused
      exact h (Or.inr (Or.inl ⟨err, hres, by simpa using hrefused⟩))
    have hmore : (attempt : ℤ) < policy.maxAttempts := by
      have hne : (attempt : ℤ) ≠ policy.maxAttempts := fun heq => h (Or.inr (Or.inr heq))
      omega
    refine ⟨err, rfl, ?_⟩
    simp only [round, hres, hctx a.returned, if_pos (And.intro hretry hmore),
      sleepWithContext_never hctx]

/-- The loop from `attempt` on goes to the first attempt that ends it. -/
theorem attempts_eq {more attempt : ℕ} (hctx : ctx.Never)
    (hmax : policy.maxAttempts = attempt + more) (hle : attempt ≤ k)
    (hbefore : ∀ i, attempt ≤ i → i < k → ¬policy.Ends i (fn i)) (hend : policy.Ends k (fn k)) :
    attempts ctx policy fn more attempt =
      ⟨(fn k).result.mapError (failedAfter policy), k,
        (List.range' attempt (k + 1 - attempt)).filterMap (reported policy fn k)⟩ := by
  fun_induction attempts ctx policy fn more attempt with
  | case1 more attempt result events hround =>
    -- an attempt before `k` would have been followed by another
    obtain rfl : attempt = k := by
      by_contra hne
      obtain ⟨err, -, hagain⟩ := round_of_not_ends hctx (by omega)
        (hbefore attempt le_rfl (by omega))
      cases hround.symm.trans hagain
    rw [round_of_ends hctx hend] at hround
    obtain ⟨rfl, rfl⟩ := Round.stop.inj hround
    rw [Nat.add_sub_cancel_left, List.range'_one, List.filterMap_cons, List.filterMap_nil]
    cases hres : (fn attempt).result <;> simp [reported, hres]
  | case2 attempt event more hround rest ih =>
    have hlt : attempt < k := by
      refine lt_of_le_of_ne hle ?_
      rintro rfl
      rw [round_of_ends hctx hend] at hround
      cases hround
    obtain ⟨err, hres, hagain⟩ := round_of_not_ends hctx (by omega) (hbefore attempt le_rfl hlt)
    obtain rfl := Round.again.inj (hround.symm.trans hagain)
    have hrest : rest = ⟨_, _, _⟩ := ih (by omega) hlt fun i hi => hbefore i (by omega)
    have hrange : List.range' attempt (k + 1 - attempt) =
        attempt :: List.range' (attempt + 1) (k + 1 - (attempt + 1)) := by
      rw [show k + 1 - attempt = (k + 1 - (attempt + 1)) + 1 by omega, List.range'_succ]
    have hreported : reported policy fn k attempt = some ⟨attempt, policy.maxAttempts, err,
        retryDelay policy.baseDelay policy.maxDelay attempt, true⟩ := by
      simp [reported, hres, hlt]
    rw [hrange, List.filterMap_cons, hreported, hrest]
  | case3 attempt event hround =>
    -- there is no attempt left, so this one was the last and did not go on
    obtain rfl : attempt = k := by
      by_contra hne
      exact hbefore attempt le_rfl (by omega) (Or.inr (Or.inr (by omega)))
    rw [round_of_ends hctx hend] at hround
    cases hround

theorem exists_firstEnd (hmax : 1 ≤ policy.maxAttempts) (fn : ℕ → Attempt α) :
    ∃ k, FirstEnd policy fn k := by
  classical
  have hlast : ∃ i, 1 ≤ i ∧ policy.Ends i (fn i) :=
    ⟨policy.maxAttempts.toNat, by omega, Or.inr (Or.inr (by omega))⟩
  exact ⟨Nat.find hlast, Nat.find_spec hlast, fun i hi => Nat.find_min' hlast hi⟩

theorem doWithRetry_eq (hctx : ctx.Never) (hmax : 1 ≤ policy.maxAttempts)
    (hk : FirstEnd policy fn k) :
    doWithRetry ctx policy fn = ⟨(fn k).result.mapError (failedAfter policy), k,
      (List.range' 1 k).filterMap (reported policy fn k)⟩ := by
  obtain ⟨⟨hone, hend⟩, hleast⟩ := hk
  have hbefore : ∀ i, 1 ≤ i → i < k → ¬policy.Ends i (fn i) := by
    intro i hi hlt hends
    exact absurd (hleast ⟨hi, hends⟩) (Nat.not_le.mpr hlt)
  rw [doWithRetry, if_neg (by omega), attempts_eq hctx (by omega) hone hbefore hend,
    Nat.add_sub_cancel]

theorem round_of_calls {more attempt i : ℕ} (hfirst : attempt ≤ i)
    (hmade : i ≤ (attempts ctx policy fn more attempt).calls) :
    (∃ event, round ctx policy i (fn i) = .again event) ∨
      ∃ events, (attempts ctx policy fn more attempt).calls = i ∧
        round ctx policy i (fn i) =
          .stop (attempts ctx policy fn more attempt).result events := by
  -- an attempt that is made is followed by another, or it is the last
  fun_induction attempts ctx policy fn more attempt with
  | case1 more attempt result events hround =>
    obtain rfl : i = attempt := Nat.le_antisymm hmade hfirst
    exact Or.inr ⟨events, rfl, hround⟩
  | case2 attempt event more hround rest ih =>
    rcases Nat.eq_or_lt_of_le hfirst with rfl | hlt
    · exact Or.inl ⟨event, hround⟩
    · exact ih hlt hmade
  | case3 attempt event hround =>
    obtain rfl : i = attempt := Nat.le_antisymm hmade hfirst
    exact Or.inl ⟨event, hround⟩

theorem le_calls_attempts_iff {more attempt i : ℕ} (hmax : policy.maxAttempts = attempt + more)
    (hle : attempt ≤ i) :
    i ≤ (attempts ctx policy fn more attempt).calls ↔
      ∀ j, attempt ≤ j → j < i → Retries ctx policy j (fn j) := by
  fun_induction attempts ctx policy fn more attempt with
  | case1 more attempt result events hround =>
    constructor
    · intro hmade j hj hlt
      exact absurd (hj.trans_lt hlt) (Nat.not_lt.mpr hmade)
    · intro hbefore
      by_contra hmore
      obtain ⟨event, hagain⟩ :=
        round_again_iff.mpr (hbefore attempt le_rfl (Nat.not_le.mp hmore))
      cases hround.symm.trans hagain
  | case2 attempt event more hround rest ih =>
    rcases Nat.eq_or_lt_of_le hle with rfl | hlt
    · refine iff_of_true ?_ fun j hj hlt => absurd hj (Nat.not_le.mpr hlt)
      exact Nat.le_of_succ_le (calls_attempts ctx policy fn more (attempt + 1)).1
    · refine (ih (by omega) hlt).trans ⟨fun hbefore j hj hji => ?_, fun hbefore j hj => ?_⟩
      · rcases Nat.eq_or_lt_of_le hj with rfl | hj
        · exact round_again_iff.mp ⟨event, hround⟩
        · exact hbefore j hj hji
      · exact hbefore j (Nat.le_of_succ_le hj)
  | case3 attempt event hround =>
    -- the attempt is the last the policy has
    obtain ⟨-, -, -, -, hmore, -⟩ := round_again_iff.mp ⟨event, hround⟩
    omega

theorem le_calls_iff (hmax : 1 ≤ policy.maxAttempts) {i : ℕ} (hi : 1 ≤ i) :
    i ≤ (doWithRetry ctx policy fn).calls ↔ Reached ctx policy fn i := by
  rw [doWithRetry, if_neg (by omega), le_calls_attempts_iff (by omega) hi, Reached]
  exact (and_iff_right hi).symm

theorem round_of_interrupted {attempt : ℕ} {a : Attempt α} {c : GoError}
    (h : Interrupted ctx policy attempt a c)
    (htimer : Delays ctx policy attempt a → ctx.err a.woken ≠ none → a.byTimer = false) :
    ∃ e events, round ctx policy attempt a = .stop (.error e) events ∧ c.Wraps e := by
  obtain ⟨err, hres, hdone⟩ | ⟨hdelays, hdone⟩ := h
  · exact ⟨c, [], by simp only [round, hres, hdone], .self⟩
  · have hcontext := htimer hdelays (by simp [hdone])
    obtain ⟨err, hres, hreturned, hretry, hmore, hdelay⟩ := hdelays
    have hsleep : sleepWithContext ctx (retryDelay policy.baseDelay policy.maxDelay attempt) a =
        some c := by
      rw [sleepWithContext, if_neg (by simpa [hcontext] using hdelay), hdone]
    refine ⟨.wrap "retry interrupted: " c, [⟨attempt, policy.maxAttempts, err,
      retryDelay policy.baseDelay policy.maxDelay attempt, true⟩], ?_, .wrap .self⟩
    simp only [round, hres, hreturned, if_pos (And.intro hretry hmore), hsleep]

theorem SelectsContext.doWithRetry_stops (h : SelectsContext ctx policy fn)
    (hmax : 1 ≤ policy.maxAttempts) {i : ℕ} {c : GoError} (hi : 1 ≤ i)
    (hmade : i ≤ (doWithRetry ctx policy fn).calls) (hc : Interrupted ctx policy i (fn i) c) :
    (doWithRetry ctx policy fn).calls = i ∧
      ∃ e, (doWithRetry ctx policy fn).result = .error e ∧ c.Wraps e := by
  have hreached := (le_calls_iff hmax hi).mp hmade
  obtain ⟨e, events, hround, hwraps⟩ := round_of_interrupted hc (h i hreached)
  rw [doWithRetry, if_neg (by omega)] at hmade ⊢
  rcases round_of_calls hi hmade with ⟨event, hagain⟩ | ⟨events', hcalls, hstop⟩
  · cases hround.symm.trans hagain
  · obtain ⟨hresult, -⟩ := Round.stop.inj (hround.symm.trans hstop)
    exact ⟨hcalls, e, hresult.symm, hwraps⟩

/-- A delay that the timer ends is followed by another attempt, whatever the context says. -/
theorem Reached.succ {i : ℕ} (h : Reached ctx policy fn i) (hdelays : Delays ctx policy i (fn i))
    (htimer : (fn i).byTimer = true) : Reached ctx policy fn (i + 1) := by
  obtain ⟨hi, hbefore⟩ := h
  obtain ⟨err, hres, hreturned, hretry, hmore, -⟩ := hdelays
  refine ⟨Nat.le_succ_of_le hi, fun j hj hlt => ?_⟩
  rcases Nat.eq_or_lt_of_le (Nat.le_of_lt_succ hlt) with rfl | hlt
  · exact ⟨err, hres, hreturned, hretry, hmore, if_pos (Or.inr htimer)⟩
  · exact hbefore j hj hlt

theorem RightAttempts.selectsContext (h : RightAttempts ctx policy fn)
    (hmax : 1 ≤ policy.maxAttempts) : SelectsContext ctx policy fn := by
  intro i hreached hdelays hdone
  obtain ⟨c, hc⟩ := Option.ne_none_iff_exists'.mp hdone
  by_contra htimer
  have hnext := hreached.succ hdelays (by simpa using htimer)
  have hmade := (le_calls_iff hmax hnext.1).mpr hnext
  have hlast := (h.canceled i c hreached.1 (by omega) (Or.inr ⟨hdelays, hc⟩)).1
  omega

/-- `DoWithRetry` makes the right attempts if and only if `select` takes the context wherever it
has the choice. -/
theorem doWithRetry_attempts (hmax : 1 ≤ policy.maxAttempts) (ctx : Context)
    (fn : ℕ → Attempt α) : RightAttempts ctx policy fn ↔ SelectsContext ctx policy fn := by
  refine ⟨fun h => h.selectsContext hmax, fun h => ⟨fun hctx => ?_, fun i c hi hmade hc => ?_⟩⟩
  · obtain ⟨k, hk⟩ := exists_firstEnd hmax fn
    refine ⟨k, hk, ?_⟩
    rw [doWithRetry_eq hctx hmax hk]
    refine ⟨rfl, rfl, fun x hx => ?_, fun err herr => ?_⟩
    · rw [hx]
      rfl
    · rw [herr]
      exact ⟨failedAfter policy err, rfl, .wrap .self⟩
  · exact h.doWithRetry_stops hmax hi hmade hc

/-- Up to three attempts with a delay of 100 between them, as long as the error is transient. -/
def patient : RetryPolicy := ⟨3, 100, 0, GoError.is .workerTransientInference⟩

/-- Two transient failures and then a success.  The worker runs again some time after a delay. -/
def secondChance (byTimer : Bool) (i : ℕ) : Attempt ℕ :=
  ⟨if i < 3 then .error (.sentinel .workerTransientInference) else .ok i, 1000 * i, 1000 * i + 300,
    byTimer⟩

def canceledAt (at' : ℕ) : Context where
  err t := if at' ≤ t then some (.sentinel .contextCanceled) else none
  sticky := by
    intro t t' e hle h
    split_ifs at h with ht
    rw [if_pos (ht.trans hle), h]

/-- The context is cancelled during the second delay, and `select` takes the timer: the third
attempt is made and succeeds. -/
theorem attempt_after_cancellation :
    ¬RightAttempts (canceledAt 2100) patient (secondChance true) := by
  intro h
  have hdelays : Delays (canceledAt 2100) patient 2 (secondChance true 2) :=
    ⟨.sentinel .workerTransientInference, rfl, by decide +kernel⟩
  have hlast := (h.canceled 2 (.sentinel .contextCanceled) (by decide) (by decide +kernel)
    (Or.inr ⟨hdelays, by decide +kernel⟩)).1
  have hcalls : (doWithRetry (canceledAt 2100) patient (secondChance true)).calls = 3 := by
    decide +kernel
  omega

theorem doWithRetry_attempts_second_chance :
    RightAttempts (canceledAt 2100) patient (secondChance false) ∧
      (doWithRetry (canceledAt 2100) patient (secondChance false)).calls = 2 := by
  refine ⟨(doWithRetry_attempts (by decide) _ _).mpr ?_, by decide +kernel⟩
  exact fun _ _ _ _ => rfl

end Retry

end InferenceQueue

import InferenceQueue.PoolStops

namespace InferenceQueue.PoolLifecycle

open Service

variable {w : PoolConfig} {workerCount : ℕ} {s t : State} {e : Event} {tr past : List Event}
  {c g n : ℕ} {x : Caller}

def Caller.isStarting : Caller → Bool
  | .starting _ _ => true
  | _ => false

def Caller.isCanceling : Caller → Bool
  | .canceling _ => true
  | _ => false

def Settled (s : State) : Prop :=
  (∀ x ∈ s.callers, x.isCanceling = false) ∧ s.pending = [] ∧ s.wg.Quiet

instance (s : State) : Decidable (Settled s) := inferInstanceAs (Decidable (_ ∧ _ ∧ _))

/-- The pool is started only after the `Stop`s before, and the goroutines they wait with, are
through. -/
def StartsSettled (_ : List Event) (s : State) : Event → Prop
  | .start => s.started = true ∨ Settled s
  | _ => True

instance (past : List Event) (s : State) (e : Event) : Decidable (StartsSettled past s e) := by
  unfold StartsSettled; split <;> infer_instance

/-- What keeps the wait group from being used again too early. -/
structure Calm (s : State) : Prop where
  sound : Sound s
  running : s.panicked = false
  /-- the lock is held across steps by the one call that starts the workers -/
  lock : s.callers.countP Caller.isStarting = s.locked.toNat
  settled : s.locked = true → Settled s
  woken : s.wg.woken ≠ [] → s.wg.counter = 0

theorem countP_set_of {p : Caller → Bool} {l : List Caller} {y : Caller} (hc : l[c]? = some x)
    (hp : p y = p x) : (l.set c y).countP p = l.countP p := by
  obtain ⟨hlt, hget⟩ := List.getElem?_eq_some_iff.mp hc
  have hone : p x = true → 0 < l.countP p :=
    fun hx => List.countP_pos_iff.mpr ⟨x, List.mem_of_getElem? hc, hx⟩
  rw [List.countP_set hlt, hget, hp]
  split_ifs with hx
  · have := hone hx
    omega
  · rfl

theorem Calm.locked_of_starting (h : Calm s) (hc : s.callers[c]? = some (.starting g n)) :
    s.locked = true := by
  have hpos : 0 < s.callers.countP Caller.isStarting :=
    List.countP_pos_iff.mpr ⟨_, List.mem_of_getElem? hc, rfl⟩
  rw [h.lock] at hpos
  cases hlocked : s.locked with
  | true => rfl
  | false => simp [hlocked] at hpos

theorem Calm.lock_step (h : Calm s) (he : Step w workerCount s e t) :
    t.callers.countP Caller.isStarting = t.locked.toNat := by
  have hlock := h.lock
  cases he.effect with
  | refused | stops | idle =>
    rw [List.countP_append, hlock]
    rfl
  | starts hunlocked =>
    rw [List.countP_append, hlock, hunlocked]
    rfl
  | spawn hc | cancel hc | stopped hc | timedOut hc =>
    rw [← hlock]
    exact countP_set_of hc rfl
  | @startReturn c g hc =>
    obtain ⟨hlt, hget⟩ := List.getElem?_eq_some_iff.mp hc
    have hone : s.callers.countP Caller.isStarting = 1 := by
      rw [hlock, h.locked_of_starting hc]
      rfl
    show (s.callers.set c _).countP Caller.isStarting = 0
    rw [List.countP_set hlt, hget, hone]
    rfl
  | _ => exact hlock

theorem Settled.set {y : Caller} (h : Settled s) (hy : y.isCanceling = false) :
    ∀ z ∈ s.callers.set c y, z.isCanceling = false := by
  intro z hz
  rcases List.mem_or_eq_of_mem_set hz with hz | rfl
  · exact h.1 z hz
  · exact hy

theorem Calm.settled_step (h : Calm s) (hok : StartsSettled past s e)
    (he : Step w workerCount s e t) (hlocked : t.locked = true) : Settled t := by
  cases he.effect with
  | refused hunlocked | stops hunlocked | idle hunlocked =>
    rw [hunlocked] at hlocked
    cases hlocked
  | starts hunlocked hstarted =>
    have hs : Settled s := by simpa [StartsSettled, hstarted] using hok
    refine ⟨?_, hs.2⟩
    intro z hz
    rcases List.mem_append.mp hz with hz | hz
    · exact hs.1 z hz
    · rw [List.mem_singleton.mp hz]
      rfl
  | spawn =>
    have hs := h.settled hlocked
    exact ⟨hs.set rfl, hs.2⟩
  | stopped | timedOut =>
    have hs := h.settled hlocked
    exact ⟨hs.set rfl, hs.2⟩
  | startReturn => cases hlocked
  | cancel hc =>
    have hnone := (h.settled hlocked).1 _ (List.mem_of_getElem? hc)
    cases hnone
  | wait hpending =>
    rw [(h.settled hlocked).2.1] at hpending
    simp at hpending
  | wake hwoken =>
    rw [(h.settled hlocked).2.2.2] at hwoken
    simp at hwoken
  | exit _ _ _ hdone =>
    obtain ⟨hcallers, hpending, hquiet⟩ := h.settled hlocked
    exact ⟨hcallers, hpending, hquiet.done hdone⟩
  | _ => exact h.settled hlocked

theorem Calm.woken_step (h : Calm s) (he : Step w workerCount s e t) (hwoken : t.wg.woken ≠ []) :
    t.wg.counter = 0 := by
  cases he.effect with
  | spawn hc => exact absurd (h.settled (h.locked_of_starting hc)).2.2.2 hwoken
  | wait =>
    rw [WaitGroup.woken_wait] at hwoken
    exact WaitGroup.counter_wait.trans (h.woken hwoken)
  | wake hc hwake => exact (WaitGroup.counter_wake hwake).trans (h.woken (List.ne_nil_of_mem hc))
  | exit _ _ _ hdone =>
    -- whoever is released by this step leaves a counter of zero
    obtain ⟨k, hk⟩ := List.exists_mem_of_ne_nil _ hwoken
    rcases WaitGroup.woken_of_done hdone hk with hold | hzero
    · have hcount := WaitGroup.counter_of_done hdone
      rw [h.woken (List.ne_nil_of_mem hold)] at hcount
      cases hcount
    · exact hzero
  | _ => exact h.woken hwoken

theorem Calm.running_step (h : Calm s) (he : Step w workerCount s e t) : t.panicked = false := by
  cases he.effect with
  | cancelNil hc => exact absurd (List.mem_of_getElem? hc) h.sound.taken
  | negative hr hexited hdone =>
    obtain ⟨wg, hwg⟩ :=
      WaitGroup.done_isSome (h.sound.counter_ne_zero (List.mem_of_getElem? hr) hexited)
    rw [hdone] at hwg
    cases hwg
  | reused hwoken hwake =>
    have hzero := h.woken (List.ne_nil_of_mem hwoken)
    have hnone : s.wg.waiting = [] := by
      by_contra hne
      exact h.sound.waitGroup hne hzero
    rw [WaitGroup.wake, if_pos ⟨hzero, hnone⟩] at hwake
    cases hwake
  | _ => exact h.running

theorem Calm.step (h : Calm s) (hok : StartsSettled past s e) (he : Step w workerCount s e t) :
    Calm t where
  sound := h.sound.step he
  running := h.running_step he
  lock := h.lock_step he
  settled := h.settled_step hok he
  woken := h.woken_step he

theorem Calm.initial : Calm State.initial where
  sound := Sound.initial
  running := rfl
  lock := rfl
  settled := nofun
  woken := by simp [State.initial, WaitGroup.empty]

/-- The pool does not panic as long as it is started only after the `Stop`s before are through,
goroutines included.  After a `Stop` that timed out that takes until the workers have ended. -/
theorem pool_never_panics (h : Run (Step w workerCount) State.initial tr s)
    (hok : Throughout (Step w workerCount) State.initial tr StartsSettled) :
    s.panicked = false := by
  refine Calm.running (h.guarded (fun _ s => Calm s) Calm.initial ?_ hok)
  intro past s e t hcalm hstart he
  exact hcalm.step hstart he

/-- A `Stop` times out, the worker ends after all, and the pool is started again once the goroutine
of that `Stop` is back from `Wait`. -/
theorem pool_never_panics_restarted :
    ∃ tr s, Run (Step RunWorker.threeAttempts 1) State.initial tr s ∧
      s.callers.length = 3 ∧ s.workers.length = 2 ∧ s.panicked = false := by
  let tr : List Event := [.start, .spawn 0, .startReturn 0, .worker 0 .check, .stop, .cancel 1,
    .wait 1, .timedOut 1 true, .worker 0 (.job noJob), .worker 0 .timer, .worker 0 .check, .exit 0,
    .wake 1, .start, .spawn 2]
  obtain ⟨s, hrun, hcallers, hworkers⟩ := Run.exists_of_foldlM (step RunWorker.threeAttempts 1)
    State.initial tr (fun s => s.callers.length = 3 ∧ s.workers.length = 2) (by decide +kernel)
  exact ⟨tr, s, hrun, hcallers, hworkers,
    pool_never_panics hrun (throughout_of_always (by decide +kernel))⟩

/-- With the same run up to the last exit, a `Start` that comes before the goroutine runs on makes
it panic. -/
example : ∃ s, Run (Step RunWorker.threeAttempts 1) State.initial
    [.start, .spawn 0, .startReturn 0, .stop, .cancel 1, .wait 1, .timedOut 1 true,
     .worker 0 .check, .exit 0, .start, .spawn 2, .wake 1] s ∧ s.panicked = true :=
  Run.exists_of_foldlM (step RunWorker.threeAttempts 1) _ _ _ (by decide +kernel)

end InferenceQueue.PoolLifecycle

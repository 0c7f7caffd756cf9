import InferenceQueue.PoolLifecycle

namespace InferenceQueue.PoolLifecycle

open Service

variable {w : PoolConfig} {workerCount : ℕ} {s t u : State} {e : Event} {tr : List Event}
  {c g k n : ℕ} {r r' : Goroutine}

def Goroutine.alive (r : Goroutine) : Bool := !r.exited

structure Sound (s : State) : Prop where
  counter : s.wg.counter = s.workers.countP Goroutine.alive
  waitGroup : s.wg.Sound
  started : s.started = s.cancel.isSome
  taken : .canceling none ∉ s.callers
  /-- whoever can cancel the context of a generation, if that has not happened -/
  covered : ∀ g < s.contexts.length, s.done g = true ∨ s.cancel = some g ∨
    .canceling (some g) ∈ s.callers
  starting : ∀ g n, .starting g n ∈ s.callers → g < s.contexts.length
  generation : ∀ r ∈ s.workers, r.generation < s.contexts.length
  exited : ∀ r ∈ s.workers, r.exited = true → r.loop = .returned
  /-- a `Stop` in its `select` has a goroutine that waits -/
  selecting : ∀ c, s.callers[c]? = some .selecting →
    c ∈ s.pending ∨ s.wg.Inside c
  waiter : ∀ c, c ∈ s.pending ∨ s.wg.Inside c → c < s.callers.length

theorem not_step_returned {b : Bool} {e : RunWorker.Event} {x : RunWorker}
    (he : e ≠ .cancelPool) : ¬RunWorker.Step w ⟨b, .returned⟩ e x := by
  intro h
  cases e with
  | cancelPool => exact he rfl
  | check | timer => simp [RunWorker.Step, Fires, RunWorker.step] at h
  | done => simp [RunWorker.Step, Fires, RunWorker.step] at h
  | job o => simp [RunWorker.Step, Fires, RunWorker.step] at h

theorem Step.worker_at (h : Step w workerCount s e t) (hexited : ∀ r ∈ s.workers,
    r.exited = true → r.loop = .returned) (hr : s.workers[k]? = some r) :
    ∃ r', t.workers[k]? = some r' ∧ r'.generation = r.generation ∧
      (r.exited = true → r' = r) := by
  have hlt : k < s.workers.length := (List.getElem?_eq_some_iff.mp hr).1
  have hset : ∀ {k' : ℕ} {x y : Goroutine}, s.workers[k']? = some x →
      y.generation = x.generation → x.exited = false →
      ∃ r', (s.workers.set k' y)[k]? = some r' ∧ r'.generation = r.generation ∧
        (r.exited = true → r' = r) := by
    intro k' x y hx hgen hx'
    by_cases hk : k' = k
    · subst hk
      obtain rfl : r = x := Option.some.inj (hr.symm.trans hx)
      refine ⟨y, List.getElem?_set_self hlt, hgen, fun hr' => ?_⟩
      rw [hx'] at hr'
      cases hr'
    · exact ⟨r, (List.getElem?_set_ne hk).trans hr, rfl, fun _ => rfl⟩
  cases h.effect with
  | spawn => exact ⟨r, (List.getElem?_append_left hlt).trans hr, rfl, fun _ => rfl⟩
  | @worker k' _ x _ hx hne hu =>
    refine hset hx rfl ?_
    by_contra hx'
    have hreturned := hexited x (List.mem_of_getElem? hx) (by simpa using hx')
    rw [State.runWorker, hreturned] at hu
    exact not_step_returned hne hu
  | exit hx hreturned hx' => exact hset hx rfl hx'
  | _ => exact ⟨r, hr, rfl, fun _ => rfl⟩

theorem Sound.counter_step (h : Sound s) (he : Step w workerCount s e t) :
    t.wg.counter = t.workers.countP Goroutine.alive := by
  have hcounter := h.counter
  cases he.effect with
  | spawn =>
    show s.wg.counter + 1 = _
    rw [List.countP_append, ← hcounter]
    rfl
  | wait => exact WaitGroup.counter_wait.trans hcounter
  | wake _ hwake => exact (WaitGroup.counter_wake hwake).trans hcounter
  | @worker k _ r x hr =>
    obtain ⟨hlt, hget⟩ := List.getElem?_eq_some_iff.mp hr
    have hsame : Goroutine.alive { r with loop := x.loop } = r.alive := rfl
    have hone : r.alive = true → 0 < s.workers.countP Goroutine.alive :=
      fun halive => List.countP_pos_iff.mpr ⟨r, List.mem_of_getElem? hr, halive⟩
    show s.wg.counter = _
    rw [List.countP_set hlt, hget, hsame, hcounter]
    split_ifs with halive
    · have := hone halive
      omega
    · rfl
  | @exit k r wg hr hreturned hexited hdone =>
    obtain ⟨hlt, hget⟩ := List.getElem?_eq_some_iff.mp hr
    have hcount := WaitGroup.counter_of_done hdone
    show wg.counter = _
    rw [List.countP_set hlt, hget]
    simp [Goroutine.alive, hexited]
    omega
  | _ => exact hcounter

theorem Sound.waitGroup_step (h : Sound s) (he : Step w workerCount s e t) : t.wg.Sound := by
  cases he.effect with
  | spawn => exact WaitGroup.Sound.add
  | wait => exact h.waitGroup.wait
  | wake _ hwake => exact WaitGroup.Sound.wake hwake
  | exit _ _ _ hdone => exact WaitGroup.Sound.done hdone
  | _ => exact h.waitGroup

theorem Sound.started_step (h : Sound s) (he : Step w workerCount s e t) :
    t.started = t.cancel.isSome := by
  cases he.effect with
  | starts | stops => rfl
  | _ => exact h.started

theorem mem_set_of_ne {α : Type*} {l : List α} {x y z : α} (hc : l[c]? = some y) (hx : x ∈ l)
    (hne : x ≠ y) : x ∈ l.set c z := by
  obtain ⟨i, hi⟩ := List.mem_iff_getElem?.mp hx
  have hci : c ≠ i := by
    rintro rfl
    exact hne (Option.some.inj (hi.symm.trans hc))
  exact List.mem_of_getElem? ((List.getElem?_set_ne hci).trans hi)

theorem Sound.taken_step (h : Sound s) (he : Step w workerCount s e t) :
    .canceling none ∉ t.callers := by
  intro hmem
  have hold := h.taken
  cases he.effect with
  | refused | idle | starts =>
    rcases List.mem_append.mp hmem with hmem | hmem
    · exact hold hmem
    · simp at hmem
  | stops _ hstarted =>
    rcases List.mem_append.mp hmem with hmem | hmem
    · exact hold hmem
    · have hnone : s.cancel = none := by simpa [eq_comm] using hmem
      rw [h.started, hnone] at hstarted
      cases hstarted
  | spawn | startReturn | cancel | stopped | timedOut =>
    rcases List.mem_or_eq_of_mem_set hmem with hmem | hmem
    · exact hold hmem
    · cases hmem
  | _ => exact hold hmem

theorem Step.length_contexts (he : Step w workerCount s e t) :
    s.contexts.length ≤ t.contexts.length := by
  cases he.effect with
  | starts => simp
  | cancel | parentDone => simp
  | _ => exact le_rfl

theorem Step.done_mono (he : Step w workerCount s e t) (hg : s.done g = true) :
    t.done g = true := by
  have hlt : g < s.contexts.length := by
    by_contra hge
    simp [State.done, List.getElem?_eq_none (Nat.le_of_not_lt hge)] at hg
  cases he.effect with
  | starts =>
    simp only [State.done] at hg ⊢
    rwa [List.getElem?_append_left hlt]
  | @cancel _ g' | @parentDone g' =>
    by_cases heq : g' = g
    · simp [State.done, heq, hlt]
    · simp only [State.done] at hg ⊢
      rwa [List.getElem?_set_ne heq]
  | _ => exact hg

theorem Sound.covered_step (h : Sound s) (he : Step w workerCount s e t) :
    ∀ g < t.contexts.length, t.done g = true ∨ t.cancel = some g ∨
      .canceling (some g) ∈ t.callers := by
  intro g hg
  by_cases hlt : g < s.contexts.length
  · rcases h.covered g hlt with hdone | hcancel | hcaller
    · exact Or.inl (he.done_mono hdone)
    · cases he.effect with
      | starts _ hstarted =>
        rw [h.started, hcancel] at hstarted
        cases hstarted
      | stops => simp [hcancel]
      | _ => exact Or.inr (Or.inl hcancel)
    · cases he.effect with
      | refused | starts | stops | idle =>
        exact Or.inr (Or.inr (List.mem_append_left _ hcaller))
      | @cancel c g' hc =>
        by_cases hgg : g = g'
        · subst hgg
          refine Or.inl ?_
          simp [State.done, hlt]
        · exact Or.inr (Or.inr (mem_set_of_ne hc hcaller (by simpa using hgg)))
      | spawn hc | startReturn hc | stopped hc | timedOut hc =>
        exact Or.inr (Or.inr (mem_set_of_ne hc hcaller (by simp)))
      | _ => exact Or.inr (Or.inr hcaller)
  · -- only `Start` makes a context
    cases he.effect with
    | starts =>
      refine Or.inr (Or.inl (congrArg some ?_))
      simp at hg
      omega
    | cancel | parentDone => exact absurd (by simpa using hg) hlt
    | _ => exact absurd hg hlt

theorem Sound.starting_step (h : Sound s) (he : Step w workerCount s e t) :
    ∀ g n, .starting g n ∈ t.callers → g < t.contexts.length := by
  intro g n hmem
  have hold : ∀ n', .starting g n' ∈ s.callers → g < t.contexts.length :=
    fun n' hn => (h.starting g n' hn).trans_le he.length_contexts
  cases he.effect with
  | refused | idle | stops =>
    rcases List.mem_append.mp hmem with hmem | hmem
    · exact hold n hmem
    · simp at hmem
  | starts =>
    rcases List.mem_append.mp hmem with hmem | hmem
    · exact hold n hmem
    · simp at hmem ⊢
      omega
  | spawn hc =>
    rcases List.mem_or_eq_of_mem_set hmem with hmem | hmem
    · exact hold n hmem
    · cases hmem
      exact hold _ (List.mem_of_getElem? hc)
  | startReturn | cancel | stopped | timedOut =>
    rcases List.mem_or_eq_of_mem_set hmem with hmem | hmem
    · exact hold n hmem
    · cases hmem
  | _ => exact hold n hmem

theorem Sound.generation_step (h : Sound s) (he : Step w workerCount s e t) :
    ∀ r ∈ t.workers, r.generation < t.contexts.length := by
  intro r hr
  have hold : ∀ r ∈ s.workers, r.generation < t.contexts.length :=
    fun r hr => (h.generation r hr).trans_le he.length_contexts
  cases he.effect with
  | spawn hc =>
    rcases List.mem_append.mp hr with hr | hr
    · exact hold r hr
    · rw [List.mem_singleton.mp hr]
      exact h.starting _ _ (List.mem_of_getElem? hc)
  | worker hx | exit hx =>
    rcases List.mem_or_eq_of_mem_set hr with hr | rfl
    · exact hold r hr
    · have hgen := hold _ (List.mem_of_getElem? hx)
      exact hgen
  | _ => exact hold r hr

theorem Sound.exited_step (h : Sound s) (he : Step w workerCount s e t) :
    ∀ r ∈ t.workers, r.exited = true → r.loop = .returned := by
  intro r hr hexited
  cases he.effect with
  | spawn hc =>
    rcases List.mem_append.mp hr with hr | hr
    · exact h.exited r hr hexited
    · rw [List.mem_singleton.mp hr] at hexited
      cases hexited
  | worker hx hne hu =>
    rcases List.mem_or_eq_of_mem_set hr with hr | rfl
    · exact h.exited r hr hexited
    · have hreturned := h.exited _ (List.mem_of_getElem? hx) hexited
      rw [State.runWorker, hreturned] at hu
      exact absurd hu (not_step_returned hne)
  | exit hx hreturned =>
    rcases List.mem_or_eq_of_mem_set hr with hr | rfl
    · exact h.exited r hr hexited
    · exact hreturned
  | _ => exact h.exited r hr hexited

theorem Step.waits_cases (he : Step w workerCount s e t)
    (hc : c ∈ t.pending ∨ t.wg.Inside c) :
    (c ∈ s.pending ∨ s.wg.Inside c) ∨ ∃ h, s.callers[c]? = some (.canceling h) := by
  -- who waits, or is about to, has called `Stop` before
  cases he.effect with
  | @cancel d g hcaller =>
    rcases hc with hc | hc
    · rcases List.mem_cons.mp hc with rfl | hc
      · exact Or.inr ⟨_, hcaller⟩
      · exact Or.inl (Or.inl hc)
    · exact Or.inl (Or.inr hc)
  | wait hpending =>
    rcases hc with hc | hc
    · exact Or.inl (Or.inl (List.mem_of_mem_erase hc))
    · rcases WaitGroup.inside_wait_iff.mp hc with hc | rfl
      · exact Or.inl (Or.inr hc)
      · exact Or.inl (Or.inl hpending)
  | wake hwoken hwake => exact Or.inl (hc.imp_right (WaitGroup.inside_wake_iff hwake hwoken).mp)
  | exit _ _ _ hdone => exact Or.inl (hc.imp_right (WaitGroup.inside_done_iff hdone).mp)
  | _ => exact Or.inl hc

theorem Step.waits_kept (he : Step w workerCount s e t)
    (hc : c ∈ s.pending ∨ s.wg.Inside c) : c ∈ t.pending ∨ t.wg.Inside c := by
  cases he.effect with
  | cancel => exact hc.imp_left (List.mem_cons_of_mem _)
  | @wait d hpending =>
    by_cases hcd : c = d
    · exact Or.inr (WaitGroup.inside_wait_iff.mpr (Or.inr hcd))
    · exact hc.imp (List.mem_erase_of_ne hcd).mpr
        fun hin => WaitGroup.inside_wait_iff.mpr (Or.inl hin)
  | wake hwoken hwake => exact hc.imp_right (WaitGroup.inside_wake_iff hwake hwoken).mpr
  | exit _ _ _ hdone => exact hc.imp_right (WaitGroup.inside_done_iff hdone).mpr
  | _ => exact hc

theorem Step.length_callers (he : Step w workerCount s e t) :
    s.callers.length ≤ t.callers.length := by
  cases he.effect <;> simp

theorem Sound.selecting_step (h : Sound s) (he : Step w workerCount s e t) :
    ∀ c, t.callers[c]? = some .selecting → c ∈ t.pending ∨ t.wg.Inside c := by
  intro c hc
  have hold : s.callers[c]? = some .selecting → c ∈ t.pending ∨ t.wg.Inside c :=
    fun hc => he.waits_kept (h.selecting c hc)
  cases he.effect with
  | refused | starts | stops | idle =>
    rcases getElem?_concat_cases hc with hc | ⟨-, hc⟩
    · exact hold hc
    · cases hc
  | cancel hcaller =>
    rcases getElem?_set_cases hcaller hc with ⟨rfl, -⟩ | ⟨-, hc⟩
    · exact Or.inl (List.mem_cons_self ..)
    · exact hold hc
  | spawn hcaller | startReturn hcaller | stopped hcaller | timedOut hcaller =>
    rcases getElem?_set_cases hcaller hc with ⟨-, hc⟩ | ⟨-, hc⟩
    · cases hc
    · exact hold hc
  | _ => exact hold hc

theorem Sound.waiter_step (h : Sound s) (he : Step w workerCount s e t) :
    ∀ c, c ∈ t.pending ∨ t.wg.Inside c → c < t.callers.length := by
  intro c hc
  refine Nat.lt_of_lt_of_le ?_ he.length_callers
  rcases he.waits_cases hc with hc | ⟨x, hc⟩
  · exact h.waiter c hc
  · exact (List.getElem?_eq_some_iff.mp hc).1

theorem Sound.step (h : Sound s) (he : Step w workerCount s e t) : Sound t where
  counter := h.counter_step he
  waitGroup := h.waitGroup_step he
  started := h.started_step he
  taken := h.taken_step he
  covered := h.covered_step he
  starting := h.starting_step he
  generation := h.generation_step he
  exited := h.exited_step he
  selecting := h.selecting_step he
  waiter := h.waiter_step he

theorem Sound.initial : Sound State.initial where
  counter := rfl
  waitGroup := WaitGroup.sound_empty
  started := rfl
  taken := by simp [State.initial]
  covered := by simp [State.initial]
  starting := by simp [State.initial]
  generation := by simp [State.initial]
  exited := by simp [State.initial]
  selecting := by simp [State.initial]
  waiter := by simp [State.initial, WaitGroup.Inside, WaitGroup.Released, WaitGroup.empty]

theorem Sound.run (h : Run (Step w workerCount) State.initial tr s) : Sound s :=
  h.history (fun _ s => Sound s) Sound.initial fun _ _ _ _ hs he => hs.step he

theorem Sound.counter_ne_zero (h : Sound s) (hr : r ∈ s.workers) (hexited : r.exited = false) :
    s.wg.counter ≠ 0 := by
  have halive : r.alive = true := by simp [Goroutine.alive, hexited]
  have hpos := List.countP_pos_iff.mpr ⟨r, hr, halive⟩
  rw [h.counter]
  omega

def Drained (n : ℕ) (s : State) : Prop :=
  ∀ k < n, ∀ r, s.workers[k]? = some r → r.exited = true

theorem Sound.drained (h : Sound s) (hzero : s.wg.counter = 0) : Drained n s := by
  intro k _ r hr
  rw [h.counter, List.countP_eq_zero] at hzero
  simpa [Goroutine.alive] using hzero r (List.mem_of_getElem? hr)

theorem Step.length_workers (he : Step w workerCount s e t) :
    s.workers.length ≤ t.workers.length := by
  cases he.effect <;> simp

theorem Drained.step (h : Drained n s) (hs : Sound s) (hn : n ≤ s.workers.length)
    (he : Step w workerCount s e t) : Drained n t := by
  intro k hk r hr
  have hr₀ : s.workers[k]? = some (s.workers.get ⟨k, hk.trans_le hn⟩) :=
    List.getElem?_eq_getElem (hk.trans_le hn)
  have hexited := h k hk _ hr₀
  obtain ⟨r', hr', -, hsame⟩ := he.worker_at hs.exited hr₀
  obtain rfl : r = r' := Option.some.inj (hr.symm.trans hr')
  rw [hsame hexited]
  exact hexited

/-- What a `Stop` has waited for when it is let through; `n` workers had been started when it had
the lock. -/
structure Awaits (n c : ℕ) (s : State) : Prop where
  sound : Sound s
  length : n ≤ s.workers.length
  caller : ∀ g m, s.callers[c]? ≠ some (.starting g m)
  known : c < s.callers.length
  released : s.wg.Released c → Drained n s
  returned : s.callers[c]? = some (.returned none) → Drained n s

theorem Awaits.released_step (h : Awaits n c s) (he : Step w workerCount s e t)
    (hreleased : t.wg.Released c) : Drained n t := by
  have hkept : s.wg.Released c → Drained n t :=
    fun hr => (h.released hr).step h.sound h.length he
  have hzero : t.wg.counter = 0 → Drained n t := (h.sound.step he).drained
  cases he.effect with
  | wait =>
    rcases WaitGroup.released_of_wait hreleased with hr | ⟨-, hcounter⟩
    · exact hkept hr
    · exact hzero (WaitGroup.counter_wait.trans hcounter)
  | wake hwoken hwake => exact hkept (WaitGroup.released_of_wake hwake hwoken hreleased)
  | exit _ _ _ hdone =>
    rcases WaitGroup.released_of_done hdone hreleased with hr | hcounter
    · exact hkept hr
    · exact hzero hcounter
  | _ => exact hkept hreleased

theorem Awaits.returned_step (h : Awaits n c s) (he : Step w workerCount s e t)
    (hreturned : t.callers[c]? = some (.returned none)) : Drained n t := by
  have hkept : s.callers[c]? = some (.returned none) → Drained n t :=
    fun hr => (h.returned hr).step h.sound h.length he
  have hnew : ∀ {x : Caller}, (s.callers ++ [x])[c]? = some (.returned none) → Drained n t := by
    intro x hx
    rw [List.getElem?_append_left h.known] at hx
    exact hkept hx
  cases he.effect with
  | refused | starts | stops | idle => exact hnew hreturned
  | spawn hc | cancel hc =>
    rcases getElem?_set_cases hc hreturned with ⟨-, hx⟩ | ⟨-, hx⟩
    · cases hx
    · exact hkept hx
  | timedOut hc =>
    rcases getElem?_set_cases hc hreturned with ⟨-, hx⟩ | ⟨-, hx⟩
    · cases hx
    · exact hkept hx
  | startReturn hc =>
    rcases getElem?_set_cases hc hreturned with ⟨rfl, -⟩ | ⟨-, hx⟩
    · exact absurd hc (h.caller _ _)
    · exact hkept hx
  | stopped hc hpassed =>
    rcases getElem?_set_cases hc hreturned with ⟨rfl, -⟩ | ⟨-, hx⟩
    · exact (h.released (Or.inr hpassed)).step h.sound h.length he
    · exact hkept hx
  | _ => exact hkept hreturned

theorem Awaits.caller_step (h : Awaits n c s) (he : Step w workerCount s e t) :
    ∀ g m, t.callers[c]? ≠ some (.starting g m) := by
  intro g m hstarting
  have hold := h.caller
  cases he.effect with
  | refused | starts | stops | idle =>
    rw [List.getElem?_append_left h.known] at hstarting
    exact hold _ _ hstarting
  | spawn hc =>
    rcases getElem?_set_cases hc hstarting with ⟨rfl, -⟩ | ⟨-, hx⟩
    · exact hold _ _ hc
    · exact hold _ _ hx
  | startReturn hc | cancel hc | stopped hc | timedOut hc =>
    rcases getElem?_set_cases hc hstarting with ⟨-, hx⟩ | ⟨-, hx⟩
    · cases hx
    · exact hold _ _ hx
  | _ => exact hold _ _ hstarting

theorem Awaits.step (h : Awaits n c s) (he : Step w workerCount s e t) : Awaits n c t where
  sound := h.sound.step he
  length := h.length.trans he.length_workers
  caller := h.caller_step he
  known := h.known.trans_le he.length_callers
  released := h.released_step he
  returned := h.returned_step he

/-- A `Stop` that finds the pool started waits for all workers there are. -/
theorem Awaits.of_stop (h : Sound s) (hstarted : s.started = true)
    (he : Step w workerCount s .stop t) : Awaits s.workers.length s.callers.length t := by
  have hsound := h.step he
  cases he.effect with
  | idle _ hidle =>
    rw [hstarted] at hidle
    cases hidle
  | stops =>
    exact {
      sound := hsound
      length := le_rfl
      caller := by simp
      known := by simp
      released := fun hr => absurd (h.waiter _ (Or.inr (Or.inr hr))) (lt_irrefl _)
      returned := by simp }

theorem Drained.quiet (h : Drained n s) (hs : Sound s) (hk : k < n) {e : RunWorker.Event} :
    ¬Step w workerCount s (.worker k e) t := by
  -- a worker that has ended does nothing any more
  intro he
  cases he.effect with
  | worker hr hne hu =>
    have hreturned := hs.exited _ (List.mem_of_getElem? hr) (h k hk _ hr)
    rw [State.runWorker, hreturned] at hu
    exact not_step_returned hne hu

/-- When a `Stop` that found the pool started returns without an error, every worker started before
it, by whichever `Start`, has ended and does nothing any more. -/
theorem stop_returns_after_workers {past rest more : List Event} {v : State}
    (hpast : Run (Step w workerCount) State.initial past s) (hstarted : s.started = true)
    (hrest : Run (Step w workerCount) s (.stop :: rest) t)
    (hreturned : t.callers[s.callers.length]? = some (.returned none))
    (hmore : Run (Step w workerCount) t more v) :
    ∀ k < s.workers.length, (∀ r, t.workers[k]? = some r → r.exited = true) ∧
      ∀ e, .worker k e ∉ more := by
  obtain ⟨u, hstop, hrun⟩ := Run.cons_iff.mp hrest
  have hawaits : Awaits s.workers.length s.callers.length t :=
    hrun.history (fun _ t => Awaits s.workers.length s.callers.length t)
      (Awaits.of_stop (Sound.run hpast) hstarted hstop) fun _ _ _ _ h he => h.step he
  have hdrained := hawaits.returned hreturned
  intro k hk
  refine ⟨hdrained k hk, fun e hmem => ?_⟩
  obtain ⟨before, after, rfl⟩ := List.append_of_mem hmem
  obtain ⟨x, hbefore, hafter⟩ := Run.append_iff.mp hmore
  obtain ⟨y, he, -⟩ := Run.cons_iff.mp hafter
  have hx : Sound x ∧ s.workers.length ≤ x.workers.length ∧ Drained s.workers.length x := by
    refine hbefore.history
      (fun _ x => Sound x ∧ s.workers.length ≤ x.workers.length ∧ Drained s.workers.length x)
      ⟨hawaits.sound, hawaits.length, hdrained⟩ ?_
    rintro _ x e y ⟨hs, hn, hd⟩ he
    exact ⟨hs.step he, hn.trans he.length_workers, hd.step hs hn he⟩
  exact hx.2.2.quiet hx.1 hk he

def noJob : JobCalls := { RunWorker.lostJob with claim := .ok none }

/-- Two workers, one of them inside `processJob`. -/
def twoWorkers : State where
  started := true
  cancel := some 0
  locked := false
  wg := ⟨2, [], [], []⟩
  contexts := [false]
  workers := [⟨0, .processing, false⟩, ⟨0, .top, false⟩]
  callers := [.returned none]
  pending := []
  panicked := false

def startTwo : List Event := [.start, .spawn 0, .spawn 0, .startReturn 0, .worker 0 .check]

def drainTwo : List Event :=
  [.cancel 1, .wait 1, .worker 1 .check, .exit 1, .worker 0 (.job noJob), .worker 0 .done, .exit 0,
   .wake 1, .stopped 1]

def startAgain : List Event := [.start, .spawn 2, .worker 2 .check]

theorem stop_returns_after_two_workers :
    ∃ t v, Run (Step RunWorker.threeAttempts 2) State.initial startTwo twoWorkers ∧
      Run (Step RunWorker.threeAttempts 2) twoWorkers (.stop :: drainTwo) t ∧
      t.callers[1]? = some (.returned none) ∧
      Run (Step RunWorker.threeAttempts 2) t startAgain v ∧
      ∀ k < 2, (∀ r, t.workers[k]? = some r → r.exited = true) ∧
        ∀ e, .worker k e ∉ startAgain := by
  have hpast : Run (Step RunWorker.threeAttempts 2) State.initial startTwo twoWorkers :=
    Run.of_foldlM (by decide +kernel)
  obtain ⟨v, hrun, -⟩ := Run.exists_of_foldlM (step RunWorker.threeAttempts 2) twoWorkers
    ((.stop :: drainTwo) ++ startAgain) (fun _ => True)
    (by decide +kernel)
  obtain ⟨t, hstop, hmore⟩ := Run.append_iff.mp hrun
  obtain ⟨t', hstop', hreturned⟩ := Run.exists_of_foldlM (step RunWorker.threeAttempts 2)
    twoWorkers (.stop :: drainTwo) (fun t => t.callers[1]? = some (.returned none))
    (by decide +kernel)
  obtain rfl := hstop'.unique hstop
  exact ⟨t', v, hpast, hstop, hreturned, hmore,
    stop_returns_after_workers hpast rfl hstop hreturned hmore⟩

end InferenceQueue.PoolLifecycle

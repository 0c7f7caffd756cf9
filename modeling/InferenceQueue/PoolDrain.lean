import Mathlib.Algebra.GroupWithZero.Nat
import InferenceQueue.PoolStops

namespace InferenceQueue.PoolLifecycle

open Service

variable {w : PoolConfig} {workerCount : ℕ} {s t u : State} {e : Event} {tr past : List Event}
  {c g k n : ℕ} {r r' : Goroutine}

/-- The steps a worker can still make under a context that is done. -/
def loopLeft : Loop → ℕ
  | .returned => 1
  | .top => 2
  | .waiting => 3
  | .processing => 4

def loopJobs : Loop → ℕ
  | .processing => 1
  | _ => 0

def Goroutine.left (r : Goroutine) : ℕ := if r.exited then 0 else loopLeft r.loop

def isJob : RunWorker.Event → Bool
  | .job _ => true
  | _ => false

def Event.ofWorker (k : ℕ) : Event → Bool
  | .worker k' _ | .exit k' => k' = k
  | _ => false

def Event.jobOf (k : ℕ) : Event → Bool
  | .worker k' e => k' = k && isJob e
  | _ => false

def Event.isStart : Event → Bool
  | .start => true
  | _ => false

def Canceled (s : State) : Prop := ∀ g < s.contexts.length, s.done g = true

theorem loopLeft_afterJob (err? : Option GoError) :
    loopLeft (RunWorker.afterJob err?) ≤ 3 ∧ loopJobs (RunWorker.afterJob err?) = 0 := by
  unfold RunWorker.afterJob
  split
  · simp [loopLeft, loopJobs]
  · split_ifs <;> simp [loopLeft, loopJobs]

theorem runWorker_canceled {loop : Loop} {e : RunWorker.Event} {x : RunWorker}
    (h : RunWorker.Step w ⟨true, loop⟩ e x) (he : e ≠ .cancelPool) :
    1 + loopLeft x.loop ≤ loopLeft loop ∧
      (if isJob e then 1 else 0) + loopJobs x.loop ≤ loopJobs loop := by
  cases e with
  | cancelPool => exact absurd rfl he
  | check =>
    simp only [RunWorker.Step, Fires, RunWorker.step] at h
    split_ifs at h with htop
    cases h
    simp [htop, loopLeft, loopJobs, isJob]
  | job o =>
    simp only [RunWorker.Step, Fires, RunWorker.step] at h
    split_ifs at h with hproc
    cases h
    obtain ⟨hleft, hjobs⟩ := loopLeft_afterJob (processJob w o).err
    have hproc' : loop = .processing := hproc.1
    rw [hproc', hjobs]
    exact ⟨Nat.add_le_add_left hleft 1, le_rfl⟩
  | timer =>
    simp only [RunWorker.Step, Fires, RunWorker.step] at h
    split_ifs at h with hwait
    cases h
    simp [hwait, loopLeft, loopJobs, isJob]
  | done =>
    simp only [RunWorker.Step, Fires, RunWorker.step] at h
    split_ifs at h with hwait
    cases h
    simp [hwait.1, loopLeft, loopJobs, isJob]

theorem Canceled.step (h : Canceled s) (he : Step w workerCount s e t)
    (hstart : e.isStart = false) : Canceled t := by
  intro g hg
  refine he.done_mono (h g ?_)
  cases he.effect with
  | starts => cases hstart
  | cancel | parentDone => simpa using hg
  | _ => exact hg

theorem Sound.alive_of_step (h : Sound s) {x : RunWorker} {e : RunWorker.Event} (hr : r ∈ s.workers)
    (he : e ≠ .cancelPool) (hx : RunWorker.Step w (s.runWorker r) e x) : r.exited = false := by
  -- a worker that can make a step has not ended
  by_contra hexited
  have hreturned := h.exited r hr (by simpa using hexited)
  rw [State.runWorker, hreturned] at hx
  exact not_step_returned he hx

/-- Under a context that is done every step of a worker brings it nearer to its end, and it gets
into no further job. -/
theorem Step.left_of_canceled (he : Step w workerCount s e t) (hs : Sound s) (hc : Canceled s)
    (hr : s.workers[k]? = some r) :
    ∃ r', t.workers[k]? = some r' ∧
      (if e.ofWorker k then 1 else 0) + r'.left ≤ r.left ∧
      (if e.jobOf k then 1 else 0) + loopJobs r'.loop ≤ loopJobs r.loop := by
  have hlt : k < s.workers.length := (List.getElem?_eq_some_iff.mp hr).1
  cases he.effect with
  | spawn =>
    refine ⟨r, (List.getElem?_append_left hlt).trans hr, ?_⟩
    simp [Event.ofWorker, Event.jobOf]
  | @worker k' e x y hx hne hy =>
    by_cases hk : k' = k
    · subst hk
      obtain rfl : r = x := Option.some.inj (hr.symm.trans hx)
      have hmem := List.mem_of_getElem? hr
      have hexited := hs.alive_of_step hmem hne hy
      have hdone : s.done r.generation = true := hc _ (hs.generation r hmem)
      rw [State.runWorker, hdone] at hy
      refine ⟨_, List.getElem?_set_self hlt, ?_⟩
      simpa [Event.ofWorker, Event.jobOf, Goroutine.left, hexited] using
        runWorker_canceled hy hne
    · refine ⟨r, (List.getElem?_set_ne hk).trans hr, ?_⟩
      simp [Event.ofWorker, Event.jobOf, hk]
  | @exit k' x wg hx hreturned hexited =>
    by_cases hk : k' = k
    · subst hk
      obtain rfl : r = x := Option.some.inj (hr.symm.trans hx)
      refine ⟨_, List.getElem?_set_self hlt, ?_⟩
      simp [Event.ofWorker, Event.jobOf, Goroutine.left, loopLeft, hreturned, hexited]
    · refine ⟨r, (List.getElem?_set_ne hk).trans hr, ?_⟩
      simp [Event.ofWorker, Event.jobOf, hk]
  | negative hx hexited hdone =>
    obtain ⟨wg, hwg⟩ :=
      WaitGroup.done_isSome (hs.counter_ne_zero (List.mem_of_getElem? hx) hexited)
    rw [hdone] at hwg
    cases hwg
  | _ => exact ⟨r, hr, by simp [Event.ofWorker, Event.jobOf]⟩

theorem Goroutine.left_le (r : Goroutine) : r.left ≤ 4 := by
  unfold Goroutine.left
  split_ifs
  · omega
  · cases r.loop <;> simp [loopLeft]

theorem loopJobs_le (loop : Loop) : loopJobs loop ≤ 1 := by
  cases loop <;> simp [loopJobs]

theorem countP_of_canceled (h : Run (Step w workerCount) s tr t) (hs : Sound s) (hc : Canceled s)
    (hstart : ∀ e ∈ tr, e.isStart = false) (hr : s.workers[k]? = some r) :
    tr.countP (Event.ofWorker k) ≤ r.left ∧ tr.countP (Event.jobOf k) ≤ loopJobs r.loop := by
  have hall : Throughout (Step w workerCount) s tr fun _ _ e => e.isStart = false :=
    .of_forall hstart
  have hinv : Sound t ∧ Canceled t ∧ ∃ r', t.workers[k]? = some r' ∧
      tr.countP (Event.ofWorker k) + r'.left ≤ r.left ∧
      tr.countP (Event.jobOf k) + loopJobs r'.loop ≤ loopJobs r.loop := by
    refine h.guarded (fun tr t => Sound t ∧ Canceled t ∧ ∃ r', t.workers[k]? = some r' ∧
      tr.countP (Event.ofWorker k) + r'.left ≤ r.left ∧
      tr.countP (Event.jobOf k) + loopJobs r'.loop ≤ loopJobs r.loop)
      ⟨hs, hc, r, hr, by simp, by simp⟩ ?_ hall
    rintro tr t e u ⟨hs, hc, r', hr', hleft, hjobs⟩ hno he
    obtain ⟨x, hx, hleft', hjobs'⟩ := he.left_of_canceled hs hc hr'
    refine ⟨hs.step he, hc.step he hno, x, hx, ?_, ?_⟩
    · rw [List.countP_append, List.countP_singleton]
      omega
    · rw [List.countP_append, List.countP_singleton]
      omega
  obtain ⟨-, -, r', -, hleft, hjobs⟩ := hinv
  omega

/-- The pool is stopped, and the calls that have not returned are in the `select` of `Stop`. -/
structure Stopping (s : State) : Prop where
  started : s.started = false
  panicked : s.panicked = false
  callers : ∀ x ∈ s.callers, x = .selecting ∨ ∃ err, x = .returned err

theorem Stopping.canceled (h : Stopping s) (hs : Sound s) : Canceled s := by
  intro g hg
  rcases hs.covered g hg with hdone | hcancel | hcaller
  · exact hdone
  · have hstarted := hs.started
    rw [h.started, hcancel] at hstarted
    cases hstarted
  · rcases h.callers _ hcaller with hx | ⟨err, hx⟩ <;> cases hx

theorem step_worker {e : RunWorker.Event} {x : RunWorker} (hp : s.panicked = false)
    (hr : s.workers[k]? = some r) (he : e ≠ .cancelPool)
    (hx : RunWorker.Step w (s.runWorker r) e x) :
    Step w workerCount s (.worker k e)
      { s with workers := s.workers.set k { r with loop := x.loop } } := by
  have hx' : RunWorker.step w (s.runWorker r) e = some x := hx
  cases e with
  | cancelPool => exact absurd rfl he
  | _ => simp [Step, Fires, step, act, hp, hr, hx']

/-- What the steps of one worker leave alone. -/
structure Frame (s t : State) : Prop where
  started : t.started = s.started
  panicked : t.panicked = s.panicked
  callers : t.callers = s.callers

theorem Sound.advance (hs : Sound s) (hp : s.panicked = false) (hc : Canceled s)
    (hr : s.workers[k]? = some r) (hexited : r.exited = false) :
    ∃ e t r', e.ofWorker k = true ∧ Step w workerCount s e t ∧ Frame s t ∧
      t.workers = s.workers.set k r' ∧ r'.left < r.left := by
  -- a worker whose context is done always has a next step
  have hmem := List.mem_of_getElem? hr
  have hrun : s.runWorker r = ⟨true, r.loop⟩ := by
    rw [State.runWorker, hc _ (hs.generation r hmem)]
  have hworker : ∀ (e : RunWorker.Event) (x : RunWorker), e ≠ .cancelPool →
      RunWorker.Step w ⟨true, r.loop⟩ e x →
      ∃ e t r', e.ofWorker k = true ∧ Step w workerCount s e t ∧ Frame s t ∧
        t.workers = s.workers.set k r' ∧ r'.left < r.left := by
    intro e x he hx
    have hleft := (runWorker_canceled hx he).1
    rw [← hrun] at hx
    refine ⟨.worker k e, _, _, by simp [Event.ofWorker], step_worker hp hr he hx, ⟨rfl, rfl, rfl⟩,
      rfl, ?_⟩
    simp only [Goroutine.left, hexited]
    simpa using by omega
  cases hloop : r.loop with
  | top => exact hworker .check ⟨true, .returned⟩ (by simp) (by rw [hloop]; rfl)
  | waiting => exact hworker .done ⟨true, .returned⟩ (by simp) (by rw [hloop]; rfl)
  | processing =>
    refine hworker (.job noJob) ⟨true, .waiting⟩ (by simp) ?_
    rw [hloop]
    rfl
  | returned =>
    obtain ⟨wg, hwg⟩ := WaitGroup.done_isSome (hs.counter_ne_zero hmem hexited)
    refine ⟨.exit k, { s with wg, workers := s.workers.set k { r with exited := true } },
      { r with exited := true }, by simp [Event.ofWorker], ?_, ⟨rfl, rfl, rfl⟩, rfl, ?_⟩
    · simp [Step, Fires, PoolLifecycle.step, act, hp, hr, hloop, hexited, hwg]
    · simp [Goroutine.left, hexited, hloop, loopLeft]

theorem sum_set_lt {l : List ℕ} {a b : ℕ} (hk : l[k]? = some a) (hlt : b < a) :
    (l.set k b).sum < l.sum := by
  induction l generalizing k with
  | nil => cases hk
  | cons x l ih =>
    cases k with
    | zero =>
      obtain rfl : x = a := Option.some.inj hk
      rw [List.set_cons_zero, List.sum_cons, List.sum_cons]
      omega
    | succ k =>
      rw [List.getElem?_cons_succ] at hk
      rw [List.set_cons_succ, List.sum_cons, List.sum_cons]
      exact Nat.add_lt_add_left (ih hk) x

def Event.ofAnyWorker : Event → Bool
  | .worker _ _ | .exit _ => true
  | _ => false

/-- The workers of a stopped pool can all come to their end. -/
theorem Sound.drain (hs : Sound s) (hp : s.panicked = false) (hc : Canceled s) :
    ∃ tr t, Run (Step w workerCount) s tr t ∧ (∀ e ∈ tr, e.ofAnyWorker = true) ∧ Sound t ∧
      Frame s t ∧ t.wg.counter = 0 := by
  -- by the steps all workers together have left
  generalize hsum : (s.workers.map Goroutine.left).sum = m
  induction m using Nat.strong_induction_on generalizing s with
  | _ m ih =>
    by_cases hzero : s.wg.counter = 0
    · exact ⟨[], s, .nil, by simp, hs, ⟨rfl, rfl, rfl⟩, hzero⟩
    · have hpos : 0 < s.workers.countP Goroutine.alive := by
        rw [← hs.counter]
        omega
      obtain ⟨r, hr, halive⟩ := List.countP_pos_iff.mp hpos
      obtain ⟨k, hk⟩ := List.mem_iff_getElem?.mp hr
      obtain ⟨e, t, r', he, hstep, hframe, hworkers, hleft⟩ :=
        @Sound.advance w workerCount s k r hs hp hc hk (by simpa [Goroutine.alive] using halive)
      have hany : e.ofAnyWorker = true ∧ e.isStart = false := by
        cases e with
        | worker | exit => exact ⟨rfl, rfl⟩
        | _ => cases he
      have hless : (t.workers.map Goroutine.left).sum < m := by
        rw [hworkers, ← hsum, List.map_set]
        exact sum_set_lt (by rw [List.getElem?_map, hk]; rfl) hleft
      obtain ⟨tr, v, hrun, hall, hv, hframe', hend⟩ :=
        ih _ hless (hs.step hstep) (hframe.panicked.trans hp) (hc.step hstep hany.2) rfl
      refine ⟨e :: tr, v, Run.cons_iff.mpr ⟨t, hstep, hrun⟩, ?_, hv, ?_, hend⟩
      · simpa [hany.1] using hall
      · exact ⟨hframe'.started.trans hframe.started, hframe'.panicked.trans hframe.panicked,
          hframe'.callers.trans hframe.callers⟩

theorem Sound.stop_returns (hs : Sound s) (hp : s.panicked = false) (hzero : s.wg.counter = 0)
    (hc : s.callers[c]? = some .selecting) :
    ∃ tr t, Run (Step w workerCount) s tr t ∧ (∀ e ∈ tr, e.isStart = false) ∧
      t.callers[c]? = some (.returned none) := by
  have hlt : c < s.callers.length := (List.getElem?_eq_some_iff.mp hc).1
  have hpassed : ∀ {s : State}, s.panicked = false → s.callers[c]? = some .selecting →
      c ∈ s.wg.passed →
      Step w workerCount s (.stopped c)
        { s with callers := s.callers.set c (.returned none) } := by
    intro s hp hc hpassed
    simp [Step, Fires, PoolLifecycle.step, act, hp, hc, hpassed]
  have hset : (s.callers.set c (.returned none))[c]? = some (.returned none) :=
    List.getElem?_set_self hlt
  rcases hs.selecting c hc with hpending | hwaiting | hwoken | hthrough
  · have hwait : Step w workerCount s (.wait c)
        { s with pending := s.pending.erase c, wg := s.wg.wait c } := by
      simp [Step, Fires, PoolLifecycle.step, act, hp, hpending]
    have hmem : c ∈ (s.wg.wait c).passed := by simp [WaitGroup.wait, hzero]
    exact ⟨[.wait c, .stopped c], _, (Run.single hwait).snoc (hpassed hp hc hmem),
      by simp [Event.isStart], hset⟩
  · exact absurd hzero (hs.waitGroup (List.ne_nil_of_mem hwaiting))
  · have hnone : s.wg.waiting = [] := by
      by_contra hne
      exact hs.waitGroup hne hzero
    have hwake : Step w workerCount s (.wake c)
        { s with
          wg := { s.wg with woken := s.wg.woken.erase c, passed := c :: s.wg.passed } } := by
      simp [Step, Fires, PoolLifecycle.step, act, hp, hwoken, WaitGroup.wake, hzero, hnone]
    exact ⟨[.wake c, .stopped c], _,
      (Run.single hwake).snoc (hpassed hp hc (List.mem_cons_self ..)), by simp [Event.isStart],
      hset⟩
  · exact ⟨[.stopped c], _, Run.single (hpassed hp hc hthrough), by simp [Event.isStart], hset⟩

/-- Once the pool is stopped, each worker has at most four more steps, among them at most the end
of one `processJob`, until the next `Start`; and every `Stop` that still waits can return without
an error. -/
theorem stopped_pool_drains (h : Run (Step w workerCount) State.initial past s)
    (hstopping : Stopping s) :
    (∀ tr t, Run (Step w workerCount) s tr t → (∀ e ∈ tr, e.isStart = false) →
      ∀ k < s.workers.length,
        tr.countP (Event.ofWorker k) ≤ 4 ∧ tr.countP (Event.jobOf k) ≤ 1) ∧
    ∀ c : ℕ, s.callers[c]? = some .selecting →
      ∃ tr t, Run (Step w workerCount) s tr t ∧ (∀ e ∈ tr, e.isStart = false) ∧
        t.callers[c]? = some (.returned none) := by
  have hs := Sound.run h
  have hc := hstopping.canceled hs
  constructor
  · intro tr t hrun hstart k hk
    obtain ⟨hleft, hjobs⟩ := countP_of_canceled hrun hs hc hstart (List.getElem?_eq_getElem hk)
    exact ⟨hleft.trans (Goroutine.left_le _), hjobs.trans (loopJobs_le _)⟩
  · intro c hselecting
    obtain ⟨tr, t, hrun, hworkers, ht, hframe, hzero⟩ :=
      @Sound.drain w workerCount s hs hstopping.panicked hc
    rw [← hframe.callers] at hselecting
    obtain ⟨tr', v, hrun', hstart', hreturned⟩ := @Sound.stop_returns w workerCount t c ht
      (hframe.panicked.trans hstopping.panicked) hzero hselecting
    refine ⟨tr ++ tr', v, hrun.append hrun', ?_, hreturned⟩
    intro e he
    rcases List.mem_append.mp he with he | he
    · have := hworkers e he
      cases e with
      | worker | exit => rfl
      | _ => cases this
    · exact hstart' e he

/-- Two workers, one of them inside `processJob` and the other between two claims, when `Stop` waits
for them. -/
theorem stopped_pool_drains_two_workers :
    ∃ s, Run (Step RunWorker.threeAttempts 2) State.initial
        (startTwo ++ [.stop, .cancel 1, .wait 1]) s ∧ Stopping s ∧
      (∀ tr t, Run (Step RunWorker.threeAttempts 2) s tr t → (∀ e ∈ tr, e.isStart = false) →
        ∀ k < s.workers.length,
          tr.countP (Event.ofWorker k) ≤ 4 ∧ tr.countP (Event.jobOf k) ≤ 1) ∧
      ∃ tr t, Run (Step RunWorker.threeAttempts 2) s tr t ∧ (∀ e ∈ tr, e.isStart = false) ∧
        t.callers[1]? = some (.returned none) := by
  obtain ⟨s, hrun, hstarted, hpanicked, hcallers⟩ := Run.exists_of_foldlM
    (step RunWorker.threeAttempts 2) State.initial (startTwo ++ [.stop, .cancel 1, .wait 1])
    (fun s => s.started = false ∧ s.panicked = false ∧
      s.callers = [.returned none, .selecting]) (by decide +kernel)
  have hstopping : Stopping s := by
    refine ⟨hstarted, hpanicked, ?_⟩
    simp [hcallers]
  have hdrains := stopped_pool_drains hrun hstopping
  exact ⟨s, hrun, hstopping, hdrains.1, hdrains.2 1 (by rw [hcallers]; rfl)⟩

end InferenceQueue.PoolLifecycle

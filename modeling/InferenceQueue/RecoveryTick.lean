import InferenceQueue.RecoveryPhases
import InferenceQueue.StreamModel

namespace InferenceQueue.Service

open Scheduler Jobs

variable {cfg : Config} {now : ℕ} {st : Stores} {r : Recovery} {resp : Response} {j job : JobID}
  {todo : List JobID}

/-- Where a pass is when all it has met so far was dealt with. -/
def Quiet (cfg : Config) (now : ℕ) (st : Stores) : Recovery → Prop
  | .idle | .listCompleted | .orphanClock => True
  | .listExpired cutoff => cutoff = now
  | .recovering _ todo job stage => stage = .byID ∧ ∀ j ∈ job :: todo, ¬Readable st.jobs j
  | .reconciling todo job stage => stage = .byID ∧ ∀ j ∈ job :: todo, ¬Readable st.jobs j
  | .listOrphans before => before = now - cfg.orphanGrace
  | .enqueueing todo job =>
    ∀ other ∈ job :: todo, Refused cfg.recoveryCapacity st.redis other.jobID other.userID

theorem quiet_sweepNext (cutoff : ℕ) (h : ∀ j ∈ todo, ¬Readable st.jobs j) :
    Quiet cfg now st (.sweepNext cutoff todo) := by
  cases todo with
  | nil => trivial
  | cons job todo => exact ⟨rfl, h⟩

theorem quiet_reconcileNext (h : ∀ j ∈ todo, ¬Readable st.jobs j) :
    Quiet cfg now st (.reconcileNext todo) := by
  cases todo with
  | nil => trivial
  | cons job todo => exact ⟨rfl, h⟩

theorem quiet_orphanNext {jobs : List Job}
    (h : ∀ job ∈ jobs, Refused cfg.recoveryCapacity st.redis job.jobID job.userID) :
    Quiet cfg now st (.orphanNext jobs) := by
  cases jobs with
  | nil => trivial
  | cons job jobs => exact h

theorem eq_of_refused {capacity : ℕ} {e : Scheduler.Event} {s t : State} {user : UserID}
    (he : Effect cfg.scheduler s e t) (hop : e.op = .enqueueIfAbsent job user capacity)
    (h : Refused capacity s job user) : t = s := by
  cases he with
  | orphanRefused => rfl
  | orphaned hmark hlease hwait hroom =>
    cases hop
    rcases h with hmarked | hleased | hwaits | hfull
    · exact absurd hmarked hmark
    · rw [hlease] at hleased
      cases hleased
    · exact absurd hwaits hwait
    · exact absurd hroom (Nat.not_lt.mpr hfull)
  | _ => cases hop

/-- What is left of a pass that finds nothing to do: the phase, and the jobs listed in it. -/
def Recovery.left : Recovery → ℕ ×ₗ ℕ
  | listExpired _ => toLex (7, 0)
  | recovering _ todo _ _ => toLex (6, todo.length)
  | listCompleted => toLex (5, 0)
  | reconciling todo _ _ => toLex (4, todo.length)
  | orphanClock => toLex (3, 0)
  | listOrphans _ => toLex (2, 0)
  | enqueueing todo _ => toLex (1, todo.length)
  | idle => toLex (0, 0)

theorem left_sweepNext (cutoff : ℕ) (todo : List JobID) :
    (Recovery.sweepNext cutoff todo).left < toLex (6, todo.length) := by
  cases todo <;> simp [Recovery.sweepNext, Recovery.left, Prod.Lex.toLex_lt_toLex]

theorem left_reconcileNext (todo : List JobID) :
    (Recovery.reconcileNext todo).left < toLex (4, todo.length) := by
  cases todo <;> simp [Recovery.reconcileNext, Recovery.left, Prod.Lex.toLex_lt_toLex]

theorem left_orphanNext (jobs : List Job) :
    (Recovery.orphanNext jobs).left < toLex (1, jobs.length) := by
  cases jobs <;> simp [Recovery.orphanNext, Recovery.left, Prod.Lex.toLex_lt_toLex]

theorem lex_lt_of_phase {a b m n : ℕ} {x : ℕ ×ₗ ℕ} (hx : x < toLex (a, m)) (h : a < b) :
    x < toLex (b, n) :=
  hx.trans (Prod.Lex.toLex_lt_toLex.mpr (Or.inl h))

theorem Quiet.inner (h : Quiet cfg now st r) (what : External) :
    r.request cfg ≠ .external what := by
  intro heq
  cases r with
  | recovering cutoff todo job stage =>
    obtain ⟨rfl, -⟩ := h
    cases heq
  | reconciling todo job stage =>
    obtain ⟨rfl, -⟩ := h
    cases heq
  | _ => cases heq

structure QuietCall (cfg : Config) (now : ℕ) (st : Stores) (r : Recovery) (resp : Response) :
    Prop where
  stores : effect cfg now st (r.request cfg) = st
  next : Quiet cfg now st (r.resume cfg resp)
  left : r ≠ .idle → (r.resume cfg resp).left < r.left

theorem error_of_unreadable (hread : ¬Readable st.jobs j)
    (hans : Answers cfg now st (.byID j) resp) :
    ∃ err, resp = .job (.error err) ∧ jobByID j st.jobs = .error err := by
  cases resp with
  | job found =>
    have hfound : jobByID j st.jobs = found := jobByID_of_answers hans
    cases found with
    | ok job => exact absurd ⟨job, hfound⟩ hread
    | error err => exact ⟨err, rfl, hfound⟩
  | _ => cases hans

theorem quietCall_recovering (cutoff : ℕ)
    (hunread : ∀ j ∈ job :: todo, ¬Readable st.jobs j)
    (hans : Answers cfg now st (.byID job) resp) :
    QuietCall cfg now st (.recovering cutoff todo job .byID) resp := by
  rw [List.forall_mem_cons] at hunread
  obtain ⟨err, rfl, herr⟩ := error_of_unreadable hunread.1 hans
  have hskip : Recovery.resume cfg (.recovering cutoff todo job .byID) (.job (.error err)) =
      .sweepNext cutoff todo := by
    rw [Recovery.resume, RecoverOne.proceed_unreadable herr]
  refine ⟨rfl, ?_, fun _ => ?_⟩
  · rw [hskip]
    exact quiet_sweepNext cutoff hunread.2
  · rw [hskip]
    exact left_sweepNext cutoff todo

theorem quietCall_reconciling (hunread : ∀ j ∈ job :: todo, ¬Readable st.jobs j)
    (hans : Answers cfg now st (.byID job) resp) :
    QuietCall cfg now st (.reconciling todo job .byID) resp := by
  rw [List.forall_mem_cons] at hunread
  obtain ⟨err, rfl, herr⟩ := error_of_unreadable hunread.1 hans
  have hskip : Recovery.resume cfg (.reconciling todo job .byID) (.job (.error err)) =
      .reconcileNext todo := by
    rw [Recovery.resume, Reconcile.proceed_unreadable herr]
    simp
  refine ⟨rfl, ?_, fun _ => ?_⟩
  · rw [hskip]
    exact quiet_reconcileNext hunread.2
  · rw [hskip]
    exact left_reconcileNext todo

/-- Where the passes end, the next one writes nothing. -/
theorem Quiet.step (h : Quiet cfg now st r) (hdone : Reached cfg now st .idle)
    (hans : Answers cfg now st (r.request cfg) resp) :
    QuietCall cfg now st r resp := by
  obtain ⟨hleases, hmarkers, horphans⟩ := hdone
  cases r with
  | idle =>
    cases resp with
    | time t => exact ⟨rfl, hans, fun hidle => absurd rfl hidle⟩
    | _ => cases hans
  | listExpired cutoff =>
    obtain rfl : cutoff = now := h
    cases resp with
    | ids l =>
      obtain rfl : l = expiredJobIDs cutoff cfg.batch st.redis := hans
      refine ⟨rfl, quiet_sweepNext cutoff fun j hj hread => ?_,
        fun _ => lex_lt_of_phase (left_sweepNext _ _) (by decide)⟩
      exact List.not_mem_nil (hleases j (SortedSet.mem_zrangeByScore hj) hread)
    | _ => cases hans
  | recovering cutoff todo job stage =>
    obtain ⟨rfl, hunread⟩ := h
    exact quietCall_recovering cutoff hunread hans
  | listCompleted =>
    cases resp with
    | ids l =>
      have hl : l.toFinset = st.redis.completedJobs := hans.2
      refine ⟨rfl, quiet_reconcileNext fun j hj hread => ?_,
        fun _ => lex_lt_of_phase (left_reconcileNext _) (by decide)⟩
      exact List.not_mem_nil (hmarkers j (hl ▸ List.mem_toFinset.mpr hj) hread)
    | _ => cases hans
  | reconciling todo job stage =>
    obtain ⟨rfl, hunread⟩ := h
    exact quietCall_reconciling hunread hans
  | orphanClock =>
    cases resp with
    | time t =>
      obtain rfl : t = now := hans
      exact ⟨rfl, rfl, fun _ => Prod.Lex.toLex_lt_toLex.mpr (Or.inl (by decide))⟩
    | _ => cases hans
  | listOrphans before =>
    obtain rfl : before = now - cfg.orphanGrace := h
    cases resp with
    | orphans jobs =>
      refine ⟨rfl, quiet_orphanNext fun job hjob => ?_,
        fun _ => lex_lt_of_phase (left_orphanNext _) (by decide)⟩
      obtain ⟨row, hrow, -, huser, -⟩ := lookup_of_jobByID (hans.1 job hjob)
      obtain ⟨row', hrow', horphan⟩ := mem_orphanIDs.mp (mem_orphanIDs_of_pending hans hjob)
      obtain rfl := Option.some.inj (hrow'.symm.trans hrow)
      rw [huser]
      exact (horphans.rest job.jobID row' hrow horphan).resolve_right List.not_mem_nil
    | _ => cases hans
  | enqueueing todo job =>
    have hredis : (effect cfg now st (Recovery.request cfg (.enqueueing todo job))).redis =
        st.redis := eq_of_refused (effect_call _) rfl (h job List.mem_cons_self)
    have hstores : effect cfg now st (Recovery.request cfg (.enqueueing todo job)) = st :=
      congrArg (fun redis => { st with redis := redis }) hredis
    refine ⟨hstores, ?_, fun _ => left_orphanNext todo⟩
    exact quiet_orphanNext fun other hother => h other (List.mem_cons_of_mem _ hother)

theorem Quiet.answer (h : Quiet cfg now st r) (hdone : Reached cfg now st .idle) :
    ∃ resp, Answers cfg now st (r.request cfg) resp := by
  cases r with
  | idle => exact ⟨.time now, rfl⟩
  | listExpired cutoff => exact ⟨.ids _, rfl⟩
  | recovering cutoff todo job stage =>
    obtain ⟨rfl, -⟩ := h
    exact ⟨.job _, rfl⟩
  | listCompleted =>
    exact ⟨.ids st.redis.completedJobs.toList, Finset.nodup_toList _, Finset.toList_toFinset _⟩
  | reconciling todo job stage =>
    obtain ⟨rfl, -⟩ := h
    exact ⟨.job _, rfl⟩
  | orphanClock => exact ⟨.time now, rfl⟩
  | listOrphans before =>
    obtain rfl : before = now - cfg.orphanGrace := h
    obtain ⟨jobs, hjobs⟩ := hdone.2.2.listed
    exact ⟨.orphans jobs, hjobs⟩
  | enqueueing todo job => exact ⟨.reply _, rfl⟩

end InferenceQueue.Service

namespace InferenceQueue.Delivery

open Service

def State.stores (s : State) : Stores := s.platform.system.stores

def State.clock (s : State) : ℕ := s.platform.system.clock

def Event.Alone (i : ℕ) : Event → Prop
  | .platform (.system (.call (.recovery k) _ resp)) => k = i ∧ ∀ b, resp ≠ .failed b
  | _ => False

instance (i : ℕ) (e : Event) : Decidable (e.Alone i) := by
  unfold Event.Alone
  split <;> infer_instance

/-- `Sweep`, `ReconcileCompleted` and `SweepOrphans` in that order, with no other step in between
and no call that fails. -/
structure Tick (cfg : Platform.Config) (i : ℕ) (s : State) (tr : List Event) (t : State) :
    Prop where
  start : s.recovery i = .idle
  run : Run (Step cfg) s tr t
  alone : ∀ e ∈ tr, e.Alone i
  begun : tr ≠ []
  between : Throughout (Step cfg) s tr fun past v _ => past ≠ [] → v.recovery i ≠ .idle
  stop : t.recovery i = .idle

variable {cfg : Platform.Config} {s t u : State} {e : Event} {i : ℕ} {tr : List Event}
  {resp : Response}

theorem publication_inner {th : Thread} {req : Request} (h : ∀ what, req ≠ .external what) :
    publication s (.platform (.system (.call th req resp))) = none := by
  cases req with
  | external what => exact absurd rfl (h what)
  | _ => rfl

structure Called (cfg : Platform.Config) (i : ℕ) (s : State) (resp : Response) (t : State) :
    Prop where
  succeeds : Succeeds cfg.service s.clock (s.recovery i) s.stores resp
  stores : t.stores = effect cfg.service s.clock s.stores ((s.recovery i).request cfg.service)
  recovery : t.recovery i = (s.recovery i).resume cfg.service resp
  clock : t.clock = s.clock
  inner : (∀ what, (s.recovery i).request cfg.service ≠ .external what) →
    t.platform.idempotency = s.platform.idempotency ∧ t.streams = s.streams

theorem Step.called (he : Step cfg s e t) (ha : e.Alone i) : ∃ resp, Called cfg i s resp t := by
  unfold Event.Alone at ha
  split at ha
  · next k req resp =>
    obtain ⟨rfl, hresp⟩ := ha
    have hplatform := he.platform.2.1
    obtain ⟨hallowed, hs⟩ := hplatform.service
    have hreq := hs.call.1
    obtain rfl : (s.recovery k).request cfg.service = req := hreq
    have hcall := Service.Step.answered hs hresp
    refine ⟨resp, ⟨hcall.answers, ?_⟩, hcall.stores, hcall.recovery, hcall.clock, ?_⟩
    · intro j o htransition
      have hans := hcall.answers
      change Answers _ _ _ ((s.recovery k).request cfg.service) resp at hans
      rw [htransition] at hans hallowed
      cases resp with
      | flag b => exact congrArg Response.flag hallowed.2
      | _ => cases hans
    · intro hinner
      constructor
      · refine hplatform.idempotency_none ?_
        generalize (s.recovery k).request cfg.service = req at hinner
        cases req with
        | external what => exact absurd rfl (hinner what)
        | _ => rfl
      · rw [he.streams, published, publication_inner hinner]
  · cases ha

theorem exists_call (hans : Answers cfg.service s.clock s.stores
      ((s.recovery i).request cfg.service) resp)
    (hinner : ∀ what, (s.recovery i).request cfg.service ≠ .external what) :
    ∃ e t, Step cfg s e t ∧ e.Alone i := by
  -- a call to the stores can be made as long as there is an answer
  obtain ⟨sys, hsys, -⟩ := exists_answered hans
  let se := Service.Event.call (.recovery i) ((s.recovery i).request cfg.service) resp
  have hallowed : Platform.Allowed cfg s.platform se := by
    refine ⟨trivial, ?_⟩
    generalize (s.recovery i).request cfg.service = req at hinner
    cases req with
    | external what => exact absurd rfl (hinner what)
    | _ => trivial
  have hsystem : (Service.step cfg.service s.platform.system se).isSome = true :=
    Option.isSome_iff_exists.mpr ⟨sys, hsys⟩
  have hstep : (step cfg s (.platform (.system se))).isSome = true := by
    have hfree : Allowed s (.system se) := trivial
    rw [step, if_pos hfree, Option.isSome_map, Platform.step, Option.isSome_map, Platform.move,
      if_pos hallowed, Option.isSome_map]
    exact hsystem
  obtain ⟨t, ht⟩ := Option.isSome_iff_exists.mp hstep
  exact ⟨.platform (.system se), t, ht, rfl, ne_failed_of_answers hans⟩

theorem Tick.first (h : Tick cfg i s tr t) :
    ∃ e v rest, Step cfg s e v ∧ e.Alone i ∧ Run (Step cfg) v rest t ∧
      Throughout (Step cfg) v rest fun _ v e => e.Alone i ∧ v.recovery i ≠ .idle := by
  obtain ⟨e, rest, rfl⟩ := List.exists_cons_of_ne_nil h.begun
  obtain ⟨v, he, hrest⟩ := Run.cons_iff.mp h.run
  obtain ⟨ha, halone⟩ := List.forall_mem_cons.mp h.alone
  refine ⟨e, v, rest, he, ha, hrest, Throughout.and (.of_forall halone) ?_⟩
  intro past e' after v' heq hrun
  exact h.between.tail he past e' after v' heq hrun (by simp)

/-- At the end of a tick everything that a tick looks for has been dealt with. -/
theorem Tick.reached (h : Tick cfg i s tr t)
    (hexpired : (s.stores.redis.processingJobs.upTo s.clock).card < cfg.service.batch)
    (horphans : (orphanIDs (s.clock - cfg.service.orphanGrace) s.stores.jobs).card <
      cfg.service.batch) :
    t.clock = s.clock ∧ Reached cfg.service s.clock t.stores .idle := by
  obtain ⟨e, v, rest, he, ha, hrun, halone⟩ := h.first
  obtain ⟨resp, hcall⟩ := he.called ha
  have hinv := hrun.guarded (fun _ w => w.clock = s.clock ∧
      Reached cfg.service s.clock w.stores (w.recovery i) ∧
      (orphanIDs (s.clock - cfg.service.orphanGrace) w.stores.jobs).card < cfg.service.batch)
    ?_ ?_ halone
  · exact ⟨hinv.1, h.stop ▸ hinv.2.1⟩
  · -- the first call reads the clock
    have hidle := h.start
    have hans := hcall.succeeds.answers
    have hstores := hcall.stores
    have hrecovery := hcall.recovery
    rw [hidle] at hans hstores hrecovery
    cases resp with
    | time now =>
      obtain rfl : now = s.clock := hans
      refine ⟨hcall.clock, ?_, ?_⟩
      · rw [hrecovery, hstores]
        exact ⟨rfl, hexpired⟩
      · rw [hstores]
        exact horphans
    | _ => cases hans
  · rintro past w e w' ⟨hclock, hreached, hcard⟩ ⟨ha, hidle⟩ he
    obtain ⟨resp, hcall⟩ := Step.called he ha
    have hsucceeds := hcall.succeeds
    rw [hclock] at hsucceeds
    refine ⟨hcall.clock.trans hclock, ?_, ?_⟩
    · rw [hcall.recovery, hcall.stores, hclock]
      exact hreached.step hidle hcard hsucceeds
    · rw [hcall.stores, hclock]
      exact (Finset.card_le_card (orphanIDs_effect _)).trans_lt hcard

theorem Tick.unchanged (h : Tick cfg i s tr t)
    (hdone : Reached cfg.service s.clock s.stores .idle) :
    t.stores = s.stores ∧ t.platform.idempotency = s.platform.idempotency ∧
      t.streams = s.streams := by
  have halone : Throughout (Step cfg) s tr fun _ _ e => e.Alone i := .of_forall h.alone
  have hinv := h.run.guarded (fun _ v => v.clock = s.clock ∧
      Quiet cfg.service s.clock s.stores (v.recovery i) ∧ v.stores = s.stores ∧
      v.platform.idempotency = s.platform.idempotency ∧ v.streams = s.streams) ?_ ?_ halone
  · exact hinv.2.2
  · refine ⟨rfl, ?_, rfl, rfl, rfl⟩
    rw [h.start]
    trivial
  · rintro past v e w ⟨hclock, hquiet, hstores, hrecords, hstreams⟩ ha he
    obtain ⟨resp, hcall⟩ := Step.called he ha
    have hans := hcall.succeeds.answers
    rw [hclock, hstores] at hans
    have hnothing := hquiet.step hdone hans
    obtain ⟨hrecords', hstreams'⟩ := hcall.inner hquiet.inner
    refine ⟨hcall.clock.trans hclock, ?_, ?_, hrecords'.trans hrecords, hstreams'.trans hstreams⟩
    · rw [hcall.recovery]
      exact hnothing.next
    · rw [hcall.stores, hclock, hstores]
      exact hnothing.stores

theorem exists_quiet_call (hdone : Reached cfg.service s.clock s.stores .idle)
    (hquiet : Quiet cfg.service s.clock s.stores (s.recovery i)) :
    ∃ e t, Step cfg s e t ∧ e.Alone i ∧ Reached cfg.service t.clock t.stores .idle ∧
      Quiet cfg.service t.clock t.stores (t.recovery i) ∧
      (s.recovery i ≠ .idle → (t.recovery i).left < (s.recovery i).left) := by
  obtain ⟨resp, hans⟩ := hquiet.answer hdone
  obtain ⟨e, t, he, ha⟩ := exists_call hans hquiet.inner
  obtain ⟨resp', hcall⟩ := he.called ha
  have hnothing := hquiet.step hdone hcall.succeeds.answers
  have hstores : t.stores = s.stores := hcall.stores.trans hnothing.stores
  refine ⟨e, t, he, ha, ?_, ?_, ?_⟩
  · rwa [hcall.clock, hstores]
  · rw [hcall.clock, hstores, hcall.recovery]
    exact hnothing.next
  · rw [hcall.recovery]
    exact hnothing.left

theorem exists_rest (hdone : Reached cfg.service s.clock s.stores .idle)
    (hquiet : Quiet cfg.service s.clock s.stores (s.recovery i)) :
    ∃ tr t, Run (Step cfg) s tr t ∧ (∀ e ∈ tr, e.Alone i) ∧
      Throughout (Step cfg) s tr (fun _ v _ => v.recovery i ≠ .idle) ∧ t.recovery i = .idle := by
  induction hleft : (s.recovery i).left using WellFoundedLT.induction generalizing s with
  | ind left ih =>
    by_cases hidle : s.recovery i = .idle
    · refine ⟨[], s, Run.nil, List.forall_mem_nil _, ?_, hidle⟩
      intro past e rest v heq
      simp at heq
    · obtain ⟨e, v, he, ha, hdone', hquiet', hless⟩ := exists_quiet_call hdone hquiet
      obtain ⟨tr, t, hrun, halone, hbetween, hstop⟩ := ih _ (hleft ▸ hless hidle) hdone' hquiet' rfl
      exact ⟨e :: tr, t, Run.cons_iff.mpr ⟨v, he, hrun⟩, List.forall_mem_cons.mpr ⟨ha, halone⟩,
        hbetween.cons he hidle, hstop⟩

theorem exists_tick (hstart : s.recovery i = .idle)
    (hdone : Reached cfg.service s.clock s.stores .idle) : ∃ tr t, Tick cfg i s tr t := by
  have hquiet : Quiet cfg.service s.clock s.stores (s.recovery i) := by
    rw [hstart]
    trivial
  obtain ⟨e, v, he, ha, hdone', hquiet', -⟩ := exists_quiet_call hdone hquiet
  obtain ⟨tr, t, hrun, halone, hbetween, hstop⟩ := exists_rest hdone' hquiet'
  refine ⟨e :: tr, t, hstart, Run.cons_iff.mpr ⟨v, he, hrun⟩,
    List.forall_mem_cons.mpr ⟨ha, halone⟩, List.cons_ne_nil e tr, ?_, hstop⟩
  refine Throughout.cons he (fun hnil => absurd rfl hnil) ?_
  intro past e' rest w heq hpast _
  exact hbetween past e' rest w heq hpast

/-- When neither list is cut off, a second tick at the same time can be run to its end, and leaves
everything as the first has left it. -/
theorem recovery_tick_idempotent
    (hexpired : (s.stores.redis.processingJobs.upTo s.clock).card < cfg.service.batch)
    (horphans : (orphanIDs (s.clock - cfg.service.orphanGrace) s.stores.jobs).card <
      cfg.service.batch)
    (h : Tick cfg i s tr t) :
    (∃ tr' u, Tick cfg i t tr' u) ∧ ∀ tr' u, Tick cfg i t tr' u →
      u.stores = t.stores ∧ u.platform.idempotency = t.platform.idempotency ∧
        u.streams = t.streams := by
  obtain ⟨hclock, hdone⟩ := h.reached hexpired horphans
  rw [← hclock] at hdone
  constructor
  · exact exists_tick h.stop hdone
  · intro tr' u h'
    exact h'.unchanged hdone

/-- A job whose worker stopped after the marker and one that never got to its queue, both older
than the grace period. -/
def neglected : List Event :=
  accepted 0 job1 alice ++ runs [claiming 0 job1 alice] ++ generatedText 0 job1 alice ["Hello"] ++
    (Platform.admitted 1 alice "other" ⟨"again", "llama"⟩).map .platform ++
    runs [.call (.submit 1) (.create job2 alice) (.result (.ok ())), .tick 400000]

def tickOver : List Event :=
  runs (requeuing 0 400000 job1 alice 1 3 ++
    [.call (.recovery 0) (.updateCreated job1 2) (.flag true),
     .call (.recovery 0) .completedJobIDs (.ids [job1]),
     .call (.recovery 0) (.byID job1) (.job (.ok ⟨job1, alice, .created, 2, 0⟩)),
     .call (.recovery 0) (.markSelect .completed job1) (.result (.ok ())),
     .call (.recovery 0) (.markUpdate .completed job1 2) (.result (.ok ())),
     .call (.recovery 0) (.external (.transitionStatus job1 .completed)) (.flag true),
     .call (.recovery 0) (.external (.closeStream job1)) (.flag true),
     .call (.recovery 0) (.redis (.removeCompletedJob job1)) (.reply (.done (.ok ()))),
     .call (.recovery 0) .clock (.time 400000),
     .call (.recovery 0) (.pendingOrphans 100000 10) (.orphans [⟨job2, alice, .created, 1, 0⟩]),
     .call (.recovery 0) (.redis (.enqueueIfAbsent job2 alice 2)) (.reply (.flag true))])

theorem recovery_tick_idempotent_neglected :
    ∃ s t u tr', Run (Step Platform.smallPlatform) State.initial neglected s ∧
      Tick Platform.smallPlatform 0 s tickOver t ∧ Tick Platform.smallPlatform 0 t tr' u ∧
      u.stores = t.stores ∧ u.platform.idempotency = t.platform.idempotency ∧
      u.streams = t.streams := by
  obtain ⟨s, hs, hidle, hexpired, horphans, hbetween, htick⟩ := Run.exists_of_foldlM
    (step Platform.smallPlatform) State.initial neglected
    (fun s => s.recovery 0 = .idle ∧
      (s.stores.redis.processingJobs.upTo s.clock).card < Platform.smallPlatform.service.batch ∧
      (orphanIDs (s.clock - Platform.smallPlatform.service.orphanGrace) s.stores.jobs).card <
        Platform.smallPlatform.service.batch ∧
      always (step Platform.smallPlatform)
        (fun past v _ => past ≠ [] → v.recovery 0 ≠ .idle) [] s tickOver = true ∧
      ((tickOver.foldlM (step Platform.smallPlatform) s).any
        fun t => decide (t.recovery 0 = .idle)) = true) (by decide +kernel)
  obtain ⟨t, ht, hstop⟩ := Run.exists_of_foldlM (step Platform.smallPlatform) s tickOver
    (fun t => t.recovery 0 = .idle) htick
  have hfirst : Tick Platform.smallPlatform 0 s tickOver t :=
    ⟨hidle, ht, by decide +kernel, by decide +kernel, throughout_of_always hbetween, hstop⟩
  obtain ⟨⟨tr', u, hsecond⟩, hsame⟩ := recovery_tick_idempotent hexpired horphans hfirst
  exact ⟨s, t, u, tr', hs, hfirst, hsecond, hsame tr' u hsecond⟩

end InferenceQueue.Delivery

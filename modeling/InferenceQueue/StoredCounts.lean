import InferenceQueue.Heartbeat
import InferenceQueue.JobPolicies
import InferenceQueue.OrphanBatch
import InferenceQueue.RetryModel

namespace InferenceQueue.Service

open Scheduler Jobs

/-- What `JobByID` and `PendingOrphans` can scan. -/
def Fits (n : ℤ) : Prop := 0 ≤ n ∧ n ≤ 255

instance : DecidablePred Fits := fun n => inferInstanceAs (Decidable (0 ≤ n ∧ n ≤ 255))

def Request.count : Request → Option ℤ
  | .create _ _ => some 1
  | .markUpdate _ _ retryCount => some retryCount
  | .updateCreated _ retryCount => some retryCount
  | _ => none

/-- The count an event writes; a call that fails before its effect writes none. -/
def Event.written : Event → Option ℤ
  | .tick _ => none
  | .call _ req resp => if resp = .failed false then none else req.count

def Event.policy : Event → Option ℤ
  | .call _ (.retryPolicy _) (.policy maxAttempts) => some maxAttempts
  | _ => none

/-- The job policies and the worker pool of a deployment, both accepted at the start. -/
structure Deployment where
  jobs : JobConfig
  policies : JobPolicyConfig
  built : buildJobPolicyConfig jobs = .ok policies
  worker : WorkerConfig
  durationString : ℤ → String
  pool : WorkerPool
  started : newWorkerPool durationString (some worker) = .ok pool

/-- The system runs with the numbers of the pool; its other numbers are free. -/
structure Deployment.Configures (d : Deployment) (cfg : Config) : Prop where
  maxAttempts : cfg.defaultMaxAttempts = d.pool.defaultMaxAttempts
  renewals : (cfg.maxRenewalFailures : ℤ) = d.pool.maxRenewalFailures

/-- A policy is that of a configured tier, and the driver sends no statement whose count is beyond
INTEGER. -/
structure Deployment.Allows (d : Deployment) (e : Event) : Prop where
  policy : ∀ m ∈ e.policy, ∃ tier p, getRetryPolicy d.policies (.ok tier) = .ok p ∧
    m = p.maxAttempts.toInt
  integer : ∀ n ∈ e.written, -2 ^ 31 ≤ n ∧ n < 2 ^ 31

/-- Every count written fits, so every row can be read, and every batch the SELECT may pick. -/
structure CountsFit (tr : List Event) (s : System) : Prop where
  written : ∀ e ∈ tr, ∀ n ∈ e.written, Fits n
  byID : ∀ j ∈ s.stores.jobs, ∃ job, jobByID j s.stores.jobs = .ok job
  orphans : ∀ before limit ids,
    OrderByLimit (createdAt s.stores.jobs) limit (orphanIDs before s.stores.jobs) ids →
      ∃ jobs, jobs.map Job.jobID = ids ∧ PendingOrphans before limit s.stores.jobs jobs

def Deployment.AlwaysFits (d : Deployment) : Prop :=
  ∀ cfg tr s, d.Configures cfg → Run (Step cfg) System.initial tr s → (∀ e ∈ tr, d.Allows e) →
    CountsFit tr s

def Stage.count : Stage → Option ℤ
  | payload n | generate n | failSelect n | failUpdate n | marker n | completeSelect n
  | completeUpdate n => some n
  | policy | failTransition | failRelease | failPublish | abortClose | abortRelease
  | completeTransition | completeClose | completeRelease => none

def Worker.count : Worker → Option ℤ
  | idle => none
  | busy _ stage _ => stage.count

/-- A requeue is followed by a count one higher. -/
def RecoverOne.count : RecoverOne → Option ℤ
  | policy _ n | removeExhausted n | failSelect n | failUpdate n | updateCreated n => some n
  | requeue _ n => some (n + 1)
  | byID | removeStale | failTransition | failPublish => none

def Reconcile.count : Reconcile → Option ℤ
  | completeSelect n | completeUpdate n => some n
  | byID | removeMissing | transition | close | removeMarker => none

def Recovery.count : Recovery → Option ℤ
  | recovering _ _ _ stage => stage.count
  | reconciling _ _ stage => stage.count
  | _ => none

/-- A count a worker may hold: one that fits, or one that no statement can be sent with. -/
def Held (n : ℤ) : Prop := Fits n ∨ n < -2 ^ 31

structure CountsHeld (s : System) : Prop where
  rows : ∀ j row, s.stores.jobs.lookup j = some row → Fits row.retryCounts
  workers : ∀ i, ∀ n ∈ (s.workers i).count, Held n
  recoveries : ∀ i, ∀ n ∈ (s.recoveries i).count, Fits n

/-- The count a worker goes on with is the one it held, or comes from the policy, the default or the
attempts. -/
inductive Stage.Yields (cfg : Config) : Stage → Response → ℤ → Prop
  | kept {stage resp n} (h : n ∈ Stage.count stage) : Yields cfg stage resp n
  | policy {n} : Yields cfg .policy (.policy n) n
  | fallback {resp} : Yields cfg .policy resp cfg.defaultMaxAttempts
  | attempts {m ok} {k : ℕ} : Yields cfg (.generate m) (.attempts ok k) k

inductive RecoverOne.Yields : RecoverOne → Response → ℤ → Prop
  | kept {stage resp n} (h : n ∈ RecoverOne.count stage) : Yields stage resp n
  | read {job} : Yields .byID (.job (.ok job)) job.currentAttempt
  | next {user n m} (h : n < m) : Yields (.policy user n) (.policy m) (n + 1)

inductive Reconcile.Yields : Reconcile → Response → ℤ → Prop
  | kept {stage resp n} (h : n ∈ Reconcile.count stage) : Yields stage resp n
  | read {job} : Yields .byID (.job (.ok job)) job.currentAttempt

variable {cfg : Config} {s t : System} {e : Event} {th : Thread} {req : Request} {resp : Response}
  {j : JobID} {i : ℕ} {n : ℤ} {d : Deployment} {tr : List Event}

theorem Held.fits (h : Held n) (hint : -2 ^ 31 ≤ n) : Fits n := h.resolve_right (not_lt.mpr hint)

theorem fits_of_jobByID {db : Table} {job : Job} (h : jobByID j db = .ok job) :
    Fits job.currentAttempt := by
  obtain ⟨row, -, hfits, rfl⟩ := jobByID_eq_ok.mp h
  change Fits (row.retryCounts.toNat : ℤ)
  rwa [Int.toNat_of_nonneg hfits.1]

theorem Deployment.Allows.fits (h : d.Allows e) (hm : n ∈ e.policy) : Fits n := by
  obtain ⟨tier, p, -, rfl⟩ := h.policy n hm
  exact ⟨by have := p.one_le_attempts; omega, p.attempts_le_max⟩

theorem Worker.count_claimed : (claimed resp).count = none := by
  unfold claimed
  split <;> rfl

theorem Worker.count_giveUp {claim : Claim} {beat : Heartbeat} {k : ℤ}
    (h : n ∈ (giveUp claim beat k).count) : n = k := by
  unfold giveUp at h
  split_ifs at h
  · cases h
  · exact (Option.mem_some_iff.mp h).symm

theorem Worker.yields_of_proceed {claim : Claim} {beat : Heartbeat} {stage : Stage}
    (h : n ∈ (proceed cfg claim beat stage resp).count) : stage.Yields cfg resp n := by
  unfold proceed at h
  split at h
  case h_1 =>
    obtain rfl := Option.mem_some_iff.mp h
    exact .policy
  case h_2 =>
    obtain rfl := Option.mem_some_iff.mp h
    exact .fallback
  case h_4 => exact .kept (Option.mem_some_iff.mpr (Worker.count_giveUp h).symm)
  case h_5 =>
    obtain rfl := Option.mem_some_iff.mp h
    exact .attempts
  case h_6 =>
    obtain rfl := Worker.count_giveUp h
    exact .attempts
  all_goals first | exact .kept h | cases h

theorem RecoverOne.yields_of_proceed {stage stage' : RecoverOne}
    (h : stage.proceed resp = some stage') (hn : n ∈ stage'.count) : stage.Yields resp n := by
  unfold proceed at h
  split at h
  case h_1 job =>
    split_ifs at h
    · cases h
      cases hn
    · cases h
      obtain rfl := Option.mem_some_iff.mp hn
      exact .read
  case h_4 user k m =>
    split_ifs at h with hm
    · cases h
      exact .kept hn
    · cases h
      obtain rfl := Option.mem_some_iff.mp hn
      exact .next (not_le.mp hm)
  case h_2 =>
    split_ifs at h
    cases h
    cases hn
  all_goals first | cases h; exact .kept hn | (cases h; cases hn) | cases h

theorem Reconcile.yields_of_proceed {stage stage' : Reconcile}
    (h : stage.proceed resp = some stage') (hn : n ∈ stage'.count) : stage.Yields resp n := by
  unfold proceed at h
  split at h
  case h_1 job =>
    split_ifs at h
    · cases h
      obtain rfl := Option.mem_some_iff.mp hn
      exact .read
    · cases h
      cases hn
  case h_2 =>
    split_ifs at h
    cases h
    cases hn
  all_goals first | cases h; exact .kept hn | (cases h; cases hn) | cases h

theorem Recovery.count_of_fresh {r : Recovery} (h : r.fresh) : r.count = none := by
  -- a pass that starts afresh holds no count
  cases r with
  | recovering cutoff todo job stage =>
    obtain rfl : stage = .byID := h
    rfl
  | reconciling todo job stage =>
    obtain rfl : stage = .byID := h
    rfl
  | _ => rfl

theorem Worker.count_of_request {w : Worker} (h : n ∈ (w.request i).count) : n ∈ w.count := by
  -- a statement's count is the one its thread holds
  cases w with
  | idle => cases h
  | busy claim stage beat =>
    cases stage with
    | failUpdate | completeUpdate => exact h
    | _ => cases h

theorem Recovery.count_of_request {r : Recovery} (h : n ∈ (r.request cfg).count) :
    n ∈ r.count := by
  cases r with
  | recovering cutoff todo job stage =>
    cases stage with
    | failUpdate | updateCreated => exact h
    | _ => cases h
  | reconciling todo job stage =>
    cases stage with
    | completeUpdate => exact h
    | _ => cases h
  | _ => cases h

theorem Submit.fits_of_requests {p : Submit} (hreq : p.requests req) (h : n ∈ req.count) :
    Fits n := by
  cases p with
  | create =>
    obtain ⟨job, user, rfl⟩ := hreq
    obtain rfl := Option.mem_some_iff.mp h
    decide
  | failUpdate job bound =>
    obtain rfl : req = .markUpdate .failed job 0 := hreq
    obtain rfl := Option.mem_some_iff.mp h
    decide
  | settle job bound =>
    cases bound <;> obtain rfl := hreq <;> cases h
  | ended => cases hreq
  | _ =>
    obtain rfl := hreq
    cases h

theorem Step.retryCounts {row : Row} (h : Step cfg s e t)
    (hrow : t.stores.jobs.lookup j = some row) :
    (∃ old, s.stores.jobs.lookup j = some old ∧ row.retryCounts = old.retryCounts) ∨
      row.retryCounts ∈ e.written := by
  cases e with
  | tick ms =>
    rw [h.tick] at hrow
    exact Or.inl ⟨row, hrow, rfl⟩
  | call th req resp =>
    obtain ⟨-, st, hst, rfl⟩ := h.call
    rw [resume_stores] at hrow
    rcases serve_cases hst with ⟨-, rfl⟩ | ⟨hresp, rfl, -⟩
    · exact Or.inl ⟨row, hrow, rfl⟩
    · rw [Event.written, if_neg hresp]
      have hstep := @rowStep_effect cfg s th req resp j
      dsimp only at hrow
      rw [hrow] at hstep
      cases hstep with
      | same hsame => exact Or.inl ⟨row, hsame.symm, rfl⟩
      | created | marked | counted => exact Or.inr rfl

theorem CountsHeld.requested (h : CountsHeld s) (hreq : Requests cfg s req th)
    (hn : n ∈ req.count) : Held n := by
  cases th with
  | submit i => exact Or.inl (Submit.fits_of_requests hreq hn)
  | worker i =>
    obtain rfl : (s.workers i).request i = req := hreq
    exact h.workers i n (Worker.count_of_request hn)
  | heartbeat i =>
    change (s.workers i).beatRequest = some req at hreq
    unfold Worker.beatRequest at hreq
    split at hreq
    · cases hreq
    · split_ifs at hreq
      obtain rfl := Option.some.inj hreq
      cases hn
  | recovery i =>
    obtain rfl : (s.recoveries i).request cfg = req := hreq
    exact Or.inl (h.recoveries i n (Recovery.count_of_request hn))

theorem CountsHeld.written (h : CountsHeld s) (he : Step cfg s e t) (ha : d.Allows e)
    (hn : n ∈ e.written) : Fits n := by
  refine Held.fits ?_ (ha.integer n hn).1
  cases e with
  | tick ms => cases hn
  | call th req resp =>
    -- a call that fails before its effect writes nothing
    rw [Event.written] at hn
    split_ifs at hn
    · cases hn
    · exact h.requested he.call.1 hn

theorem Held.of_attempts {m : ℤ} {k : ℕ} (h : Held m) (hk : (k : ℤ) ≤ max m 0) : Fits k := by
  unfold Held Fits at *
  omega

/-- What `DoWithRetry` reports of a generation is one of its answers. -/
theorem answers_generate {α : Type*} (ctx : Retry.Context) (policy : Retry.RetryPolicy)
    (fn : ℕ → Retry.Attempt α) :
    Answers cfg s.clock s.stores (.generate j policy.maxAttempts)
      (.attempts (Retry.doWithRetry ctx policy fn).result.isOk
        (Retry.doWithRetry ctx policy fn).calls) := by
  obtain ⟨hle, hpos⟩ := Retry.calls_doWithRetry ctx policy fn
  refine ⟨hle, hpos, fun hok => ?_⟩
  cases hres : (Retry.doWithRetry ctx policy fn).result with
  | error err =>
    rw [hres] at hok
    cases hok
  | ok x =>
    obtain ⟨hone, -⟩ := Retry.doWithRetry_ok_iff.mp ⟨hres, rfl⟩
    exact hone

theorem Stage.Yields.held {claim : Claim} {stage : Stage} {st : Stores}
    (h : stage.Yields cfg resp n) (hdefault : Held cfg.defaultMaxAttempts)
    (hstage : ∀ k ∈ stage.count, Held k)
    (hserve : serve cfg s.clock s.stores (stage.request claim) resp = some st)
    (ha : d.Allows (.call th (stage.request claim) resp)) : Held n := by
  cases h with
  | kept hn => exact hstage n hn
  | policy => exact Or.inl (ha.fits (Option.mem_some_iff.mpr rfl))
  | fallback => exact hdefault
  | @attempts m ok k =>
    have hans : (k : ℤ) ≤ max m 0 ∧ _ := answers_of_serve hserve (by simp)
    exact Or.inl ((hstage m rfl).of_attempts hans.1)

theorem RecoverOne.Yields.fits {cutoff : ℕ} {stage : RecoverOne} {st : Stores}
    (h : stage.Yields resp n) (hstage : ∀ k ∈ stage.count, Fits k)
    (hserve : serve cfg s.clock s.stores (stage.request cutoff j) resp = some st)
    (ha : d.Allows (.call th (stage.request cutoff j) resp)) : Fits n := by
  cases h with
  | kept hn => exact hstage n hn
  | read => exact fits_of_jobByID (jobByID_of_serve hserve)
  | @next user k m hlt =>
    -- the count is raised only while it is below `MaxAttempts`
    have hk : Fits k := hstage k rfl
    have hm : Fits m := ha.fits (Option.mem_some_iff.mpr rfl)
    unfold Fits at *
    omega

theorem Reconcile.Yields.fits {stage : Reconcile} {st : Stores} (h : stage.Yields resp n)
    (hstage : ∀ k ∈ stage.count, Fits k)
    (hserve : serve cfg s.clock s.stores (stage.request j) resp = some st) : Fits n := by
  cases h with
  | kept hn => exact hstage n hn
  | read => exact fits_of_jobByID (jobByID_of_serve hserve)

theorem CountsHeld.worker_step (h : CountsHeld s) (hdefault : Held cfg.defaultMaxAttempts)
    (he : Step cfg s e t) (ha : d.Allows e) (hn : n ∈ (t.workers i).count) : Held n := by
  rcases he.worker i with hsame | ⟨resp, rfl, hmove⟩ | ⟨req, resp, rfl, -, hmove⟩
  · rw [hsame] at hn
    exact h.workers i n hn
  · have hheld := h.workers i
    obtain ⟨-, st, hserve, -⟩ := he.call
    rw [hmove] at hn
    cases hw : s.workers i with
    | idle =>
      rw [hw, Worker.resume, Worker.count_claimed] at hn
      cases hn
    | busy claim stage beat =>
      rw [hw] at hn hheld hserve ha
      exact (Worker.yields_of_proceed hn).held hdefault hheld hserve ha
  · -- a heartbeat leaves the stage alone
    rw [hmove] at hn
    refine h.workers i n ?_
    cases hw : s.workers i with
    | idle =>
      rw [hw] at hn
      cases hn
    | busy claim stage beat =>
      rw [hw] at hn
      exact hn

theorem CountsHeld.recovery_step (h : CountsHeld s) (he : Step cfg s e t) (ha : d.Allows e)
    (hn : n ∈ (t.recoveries i).count) : Fits n := by
  rcases he.recovery i with hsame | ⟨resp, rfl, hmove⟩
  · rw [hsame] at hn
    exact h.recoveries i n hn
  · have hheld := h.recoveries i
    obtain ⟨-, st, hserve, -⟩ := he.call
    have hmoves := Recovery.moves cfg (s.recoveries i) resp
    rw [← hmove] at hmoves
    generalize s.recoveries i = r at *
    generalize t.recoveries i = r' at *
    cases hmoves with
    | recover hnext => exact (RecoverOne.yields_of_proceed hnext hn).fits hheld hserve ha
    | reconcile hnext => exact (Reconcile.yields_of_proceed hnext hn).fits hheld hserve
    | anew hfresh =>
      rw [Recovery.count_of_fresh hfresh] at hn
      cases hn

theorem CountsHeld.step (h : CountsHeld s) (hdefault : Held cfg.defaultMaxAttempts)
    (he : Step cfg s e t) (ha : d.Allows e) : CountsHeld t where
  rows j row hrow := by
    rcases he.retryCounts hrow with ⟨old, hold, hsame⟩ | hwritten
    · rw [hsame]
      exact h.rows j old hold
    · exact h.written he ha hwritten
  workers _ _ hn := h.worker_step hdefault he ha hn
  recoveries _ _ hn := h.recovery_step he ha hn

theorem countsHeld_initial : CountsHeld System.initial where
  rows j row hrow := by
    change (∅ : Table).lookup j = some row at hrow
    simp at hrow
  workers i n hn := by cases hn
  recoveries i n hn := by cases hn

theorem CountsHeld.readable (h : CountsHeld s) (hj : j ∈ s.stores.jobs) :
    ∃ job, jobByID j s.stores.jobs = .ok job := by
  obtain ⟨row, hrow⟩ := Finmap.mem_iff.mp hj
  exact ⟨_, jobByID_eq_ok.mpr ⟨row, hrow, h.rows j row hrow, rfl⟩⟩

theorem CountsHeld.scanned {before limit : ℕ} {ids : List JobID} (h : CountsHeld s)
    (hids : OrderByLimit (createdAt s.stores.jobs) limit (orphanIDs before s.stores.jobs) ids) :
    ∃ jobs, jobs.map Job.jobID = ids ∧ PendingOrphans before limit s.stores.jobs jobs := by
  obtain ⟨jobs, rfl, hrows⟩ := exists_scanned fun j hj => by
    obtain ⟨row, hrow, -⟩ := mem_orphanIDs.mp (hids.mem j hj)
    exact h.readable (Finmap.mem_iff.mpr ⟨row, hrow⟩)
  exact ⟨jobs, rfl, pending_of_orderByLimit hrows hids⟩

/-- With a default the workers may hold, every count written in a run fits. -/
theorem countsFit_of_run (hdefault : Held cfg.defaultMaxAttempts)
    (hrun : Run (Step cfg) System.initial tr s) (ha : ∀ e ∈ tr, d.Allows e) : CountsFit tr s := by
  have hallows : Throughout (Step cfg) System.initial tr fun _ _ e => d.Allows e :=
    .of_forall ha
  have hinv : CountsHeld s ∧ ∀ e ∈ tr, ∀ n ∈ e.written, Fits n := by
    refine hrun.guarded (fun tr s => CountsHeld s ∧ ∀ e ∈ tr, ∀ n ∈ e.written, Fits n)
      ⟨countsHeld_initial, by simp⟩ ?_ hallows
    intro tr s e t ⟨hheld, hwritten⟩ hok he
    refine ⟨hheld.step hdefault he hok, ?_⟩
    intro e' he' n hn
    rcases List.mem_append.mp he' with hpast | hlast
    · exact hwritten e' hpast n hn
    · obtain rfl := List.mem_singleton.mp hlast
      exact hheld.written he hok hn
  exact ⟨hinv.2, fun j hj => hinv.1.readable hj, fun _ _ _ hids => hinv.1.scanned hids⟩

end InferenceQueue.Service

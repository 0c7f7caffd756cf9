import InferenceQueue.Backoff
import InferenceQueue.StoredCounts

namespace InferenceQueue.Service

open Scheduler Jobs

variable {cfg : Config} {s t : System} {e : Event} {req : Request} {resp : Response} {now : ℕ}
  {st : Stores} {n : ℤ} {d : Deployment}

theorem effect_default :
    effect { cfg with defaultMaxAttempts := n } now st req = effect cfg now st req := by
  cases req <;> rfl

theorem answers_default :
    Answers { cfg with defaultMaxAttempts := n } now st req resp ↔ Answers cfg now st req resp := by
  cases req <;> cases resp <;> rfl

theorem serve_default :
    serve { cfg with defaultMaxAttempts := n } now st req resp = serve cfg now st req resp := by
  simp only [serve, effect_default, answers_default]

theorem Worker.proceed_default {claim : Claim} {beat : Heartbeat} {stage : Stage}
    (h : stage ≠ .policy) : proceed { cfg with defaultMaxAttempts := n } claim beat stage resp =
      proceed cfg claim beat stage resp := by
  unfold proceed
  split
  case h_1 | h_2 => exact absurd rfl h
  all_goals rfl

theorem Worker.resume_default {w : Worker} {i : ℕ} (h : ∀ user, w.request i ≠ .retryPolicy user) :
    w.resume { cfg with defaultMaxAttempts := n } resp = w.resume cfg resp := by
  cases w with
  | idle => rfl
  | busy claim stage beat =>
    apply Worker.proceed_default
    rintro rfl
    exact h claim.userID rfl

theorem requests_default {th : Thread} :
    Requests { cfg with defaultMaxAttempts := n } s req th ↔ Requests cfg s req th := by
  cases th <;> rfl

theorem resume_default {th : Thread} (hmakes : Requests cfg s req th)
    (hreq : ∀ user, req ≠ .retryPolicy user) :
    resume { cfg with defaultMaxAttempts := n } { s with stores := st } req resp th =
      resume cfg { s with stores := st } req resp th := by
  cases th with
  | worker i =>
    obtain rfl : (s.workers i).request i = req := hmakes
    rw [resume, resume, Worker.resume_default hreq]
  | _ => rfl

/-- Only a worker that asks for its policy looks at the default. -/
theorem Step.of_default {th : Thread} (h : Step cfg s (.call th req resp) t)
    (hreq : ∀ user, req ≠ .retryPolicy user) :
    Step { cfg with defaultMaxAttempts := n } s (.call th req resp) t := by
  obtain ⟨hmakes, st, hserve, rfl⟩ := h.call
  -- the same thread, served in the same way, goes on as it did
  rw [← resume_default (n := n) hmakes hreq]
  exact Step.of_serve (requests_default.mpr hmakes) (serve_default.trans hserve)

/-- Worker 0 is about to make a call for the job, whose row can be marked. -/
structure AtStage (claim : Claim) (stage : Stage) (s : System) : Prop where
  worker : ∃ beat, s.workers 0 = .busy claim stage beat ∧ beat.leaseLost = false
  select : markSelect .failed claim.jobID s.stores.jobs = .ok ()

def Reaches (d : Deployment) (cfg : Config) (claim : Claim) (stage : Stage) : Prop :=
  ∃ tr s, Run (Step cfg) System.initial tr s ∧ (∀ e ∈ tr, d.Allows e) ∧ AtStage claim stage s

theorem Event.policy_eq_none {th : Thread} (h : ∀ m, resp ≠ .policy m) :
    Event.policy (.call th req resp) = none := by
  unfold Event.policy
  split
  · next heq =>
    cases heq
    exact absurd rfl (h _)
  · rfl

theorem Deployment.Allows.of_none (hpolicy : e.policy = none)
    (hwritten : ∀ n ∈ e.written, -2 ^ 31 ≤ n ∧ n < 2 ^ 31) : d.Allows e where
  policy m hm := by
    rw [hpolicy] at hm
    cases hm
  integer := hwritten

theorem Deployment.Allows.snoc {tr : List Event} (ha : ∀ e ∈ tr, d.Allows e) (he : d.Allows e) :
    ∀ e' ∈ tr ++ [e], d.Allows e' := by
  intro e' hmem
  rcases List.mem_append.mp hmem with hpast | hlast
  · exact ha e' hpast
  · rwa [List.mem_singleton.mp hlast]

theorem AtStage.requests {claim : Claim} {stage : Stage} (h : AtStage claim stage s) :
    Requests cfg s (stage.request claim) (.worker 0) := by
  obtain ⟨beat, hw, -⟩ := h.worker
  change (s.workers 0).request 0 = _
  rw [hw]
  rfl

theorem Reaches.next {claim : Claim} {stage stage' : Stage} (h : Reaches d cfg claim stage)
    (resp : Response)
    (hserve : ∀ s, AtStage claim stage s →
      serve cfg s.clock s.stores (stage.request claim) resp = some s.stores)
    (hcount : (stage.request claim).count = none) (hpolicy : ∀ m, resp ≠ .policy m)
    (hnext : ∀ beat : Heartbeat, beat.leaseLost = false → ∃ beat',
      Worker.proceed cfg claim beat stage resp = .busy claim stage' beat' ∧
        beat'.leaseLost = false) : Reaches d cfg claim stage' := by
  obtain ⟨tr, s, hrun, ha, hat⟩ := h
  have hstep := Step.of_serve hat.requests (hserve s hat)
  have hwritten : Event.written (.call (.worker 0) (stage.request claim) resp) = none := by
    rw [Event.written, hcount, ite_self]
  refine ⟨_, _, hrun.snoc hstep, ?_, ?_, ?_⟩
  · apply Deployment.Allows.snoc ha
    exact .of_none (Event.policy_eq_none hpolicy) (by simp [hwritten])
  · obtain ⟨beat, hw, hbeat⟩ := hat.worker
    obtain ⟨beat', hnext, hbeat'⟩ := hnext beat hbeat
    refine ⟨beat', ?_, hbeat'⟩
    rw [hstep.worker_self, hw]
    exact hnext
  · rw [resume_stores]
    exact hat.select

def firstClaim : List Event := submitted 0 job1 alice ++ [claiming 0 job1 alice]

theorem reaches_policy :
    Reaches d { smallService with defaultMaxAttempts := n } ⟨alice, job1⟩ .policy := by
  obtain ⟨s, hrun, hw, hselect⟩ := Run.exists_of_foldlM (step smallService) System.initial
    firstClaim (fun s => s.workers 0 = .busy ⟨alice, job1⟩ .policy ⟨true, false, 0⟩ ∧
      markSelect .failed job1 s.stores.jobs = .ok ()) (by decide +kernel)
  refine ⟨firstClaim, s, hrun.mono ?_, ?_, ⟨_, hw, rfl⟩, hselect⟩
  · intro e he t u hstep
    simp only [firstClaim, submitted, claiming, List.cons_append, List.nil_append, List.mem_cons,
      List.not_mem_nil, or_false] at he
    rcases he with rfl | rfl | rfl | rfl | rfl <;> exact Step.of_default hstep (by simp)
  · have hnone : ∀ e ∈ firstClaim, e.policy = none ∧
        ∀ n ∈ e.written, -2 ^ 31 ≤ n ∧ n < 2 ^ 31 := by decide
    exact fun e he => .of_none (hnone e he).1 (hnone e he).2

theorem reaches_payload :
    Reaches d { smallService with defaultMaxAttempts := n } ⟨alice, job1⟩ (.payload n) := by
  -- `GetRetryPolicy` fails, so the default takes the place of the policy
  refine reaches_policy.next (.failed false) ?_ rfl (by simp) fun beat h => ⟨beat, rfl, h⟩
  intro s _
  rfl

theorem Reaches.giveUp_payload {claim : Claim} (h : Reaches d cfg claim (.payload n)) :
    Reaches d cfg claim (.failSelect n) := by
  refine h.next (.flag false) ?_ rfl (by simp) fun beat hbeat =>
    ⟨Worker.stopHeartbeat beat, ?_, hbeat⟩
  · intro s _
    rfl
  · change Worker.giveUp claim beat n = _
    rw [Worker.giveUp, hbeat]
    rfl

theorem Reaches.generate {claim : Claim} (h : Reaches d cfg claim (.payload n)) :
    Reaches d cfg claim (.generate n) := by
  refine h.next (.flag true) ?_ rfl (by simp) fun beat hbeat => ⟨beat, rfl, hbeat⟩
  intro s _
  rfl

theorem Reaches.giveUp_generate {claim : Claim} {k : ℕ} (h : Reaches d cfg claim (.generate n))
    (hpos : 0 < k) (hk : k ≤ n) : Reaches d cfg claim (.failSelect k) := by
  refine h.next (.attempts false k) ?_ rfl (by simp) fun beat hbeat =>
    ⟨Worker.stopHeartbeat beat, ?_, hbeat⟩
  · intro s _
    have hans : Answers cfg s.clock s.stores (.generate claim.jobID n) (.attempts false k) :=
      ⟨hk.trans (le_max_left _ _), fun _ => hpos, by simp⟩
    exact serve_of_answers hans
  · change Worker.giveUp claim beat k = _
    rw [Worker.giveUp, hbeat]
    rfl

theorem Reaches.failUpdate {claim : Claim} (h : Reaches d cfg claim (.failSelect n)) :
    Reaches d cfg claim (.failUpdate n) := by
  refine h.next (.result (.ok ())) ?_ rfl (by simp) fun beat hbeat => ⟨beat, rfl, hbeat⟩
  intro s hat
  have hans : Answers cfg s.clock s.stores (.markSelect .failed claim.jobID) (.result (.ok ())) :=
    hat.select.symm
  exact serve_of_answers hans

theorem Reaches.not_alwaysFits {claim : Claim} (h : Reaches d cfg claim (.failUpdate n))
    (hcfg : d.Configures cfg) (hint : -2 ^ 31 ≤ n ∧ n < 2 ^ 31) (hn : ¬Fits n) : ¬d.AlwaysFits := by
  obtain ⟨tr, s, hrun, ha, hat⟩ := h
  have hans : Answers cfg s.clock s.stores (.markUpdate .failed claim.jobID n)
      (.result (markUpdate .failed claim.jobID n s.stores.jobs).2) := rfl
  have hstep := Step.of_serve hat.requests (serve_of_answers hans)
  have hwritten : Event.written (.call (.worker 0) (.markUpdate .failed claim.jobID n)
      (.result (markUpdate .failed claim.jobID n s.stores.jobs).2)) = some n := by
    rw [Event.written, if_neg (by simp)]
    rfl
  intro hfits
  refine hn ((hfits cfg _ _ hcfg (hrun.snoc hstep) ?_).written _
    (List.mem_append_right _ (List.mem_singleton_self _)) n hwritten)
  apply Deployment.Allows.snoc ha
  refine .of_none rfl fun k hk => ?_
  obtain rfl := Option.some.inj (hwritten.symm.trans hk)
  exact hint

theorem Deployment.default_eq (d : Deployment) :
    d.pool.defaultMaxAttempts = d.worker.defaultMaxAttempts ∧ d.worker.defaultMaxAttempts ≠ 0 := by
  have h := d.started
  rw [newWorkerPool] at h
  simp only [ite_error_eq_ok] at h
  obtain ⟨-, -, -, hzero, -, -, -, -, hpool⟩ := h
  rw [← Except.ok.inj hpool]
  exact ⟨rfl, hzero⟩

theorem Deployment.configures_small (d : Deployment) :
    d.Configures { smallService with defaultMaxAttempts := d.worker.defaultMaxAttempts } where
  maxAttempts := d.default_eq.1.symm
  renewals := by
    rw [(newWorkerPool_ok d.started).2]
    rfl

/-- Every count stored in any run fits into the `uint8` exactly when the default is at most 255 and
positive, or so far below zero that it cannot be sent at all. -/
theorem stored_counts_fit_iff (d : Deployment) :
    d.AlwaysFits ↔ (1 ≤ d.worker.defaultMaxAttempts ∧ d.worker.defaultMaxAttempts ≤ 255) ∨
      d.worker.defaultMaxAttempts < -2 ^ 31 := by
  obtain ⟨hpool, hzero⟩ := d.default_eq
  constructor
  · intro hfits
    by_contra hout
    rcases lt_or_gt_of_ne hzero with hneg | hpos
    · -- the payload cannot be fetched, and the default itself is written
      have hreach : Reaches d _ _ (.failUpdate d.worker.defaultMaxAttempts) :=
        reaches_payload.giveUp_payload.failUpdate
      refine hreach.not_alwaysFits d.configures_small ⟨by omega, by omega⟩ ?_ hfits
      exact fun h => absurd h.1 (not_le.mpr hneg)
    · -- so many attempts are allowed that their number does not fit
      have hgenerate : Reaches d _ _ (.generate d.worker.defaultMaxAttempts) :=
        reaches_payload.generate
      have hreach : Reaches d _ _ (.failUpdate ((256 : ℕ) : ℤ)) :=
        (hgenerate.giveUp_generate (by decide) (by omega)).failUpdate
      exact hreach.not_alwaysFits d.configures_small (by decide) (by decide) hfits
  · intro hrange cfg tr s hcfg hrun ha
    refine countsFit_of_run ?_ hrun ha
    rw [hcfg.maxAttempts, hpool]
    exact hrange.imp (fun h => ⟨by omega, h.2⟩) id

theorem stored_counts_fit_default :
    ∃ d : Deployment, d.jobs = standardTiers ∧ d.worker = threeFailures ∧ d.AlwaysFits := by
  refine ⟨⟨standardTiers, _, rfl, threeFailures, toString, _, rfl⟩, rfl, rfl, ?_⟩
  exact (stored_counts_fit_iff _).mpr (Or.inl (by decide))

/-- The same pool with a default of a thousand attempts. -/
def thousandAttempts : WorkerConfig := { threeFailures with defaultMaxAttempts := 1000 }

def payloadLost : List Event :=
  firstClaim ++
    [.call (.worker 0) (.retryPolicy alice) (.failed false),
     .call (.worker 0) (.external (.payload job1)) (.flag false),
     .call (.worker 0) (.markSelect .failed job1) (.result (.ok ())),
     .call (.worker 0) (.markUpdate .failed job1 1000) (.result (.ok ()))]

theorem stored_count_beyond_reader :
    ∃ (d : Deployment) (cfg : Config) (s : System), d.jobs = standardTiers ∧
      d.worker = thousandAttempts ∧ d.Configures cfg ∧
      Run (Step cfg) System.initial payloadLost s ∧ (∀ e ∈ payloadLost, d.Allows e) ∧
      s.stores.jobs.lookup job1 = some ⟨alice, .failed, 1000, 0⟩ ∧
      jobByID job1 s.stores.jobs =
        .error (.wrap "find job by id: " (.text "can't scan retry_counts into uint8")) := by
  obtain ⟨s, hrun, hrow, hread⟩ := Run.exists_of_foldlM
    (step { smallService with defaultMaxAttempts := 1000 }) System.initial payloadLost
    (fun s => s.stores.jobs.lookup job1 = some ⟨alice, .failed, 1000, 0⟩ ∧
      jobByID job1 s.stores.jobs =
        .error (.wrap "find job by id: " (.text "can't scan retry_counts into uint8")))
    (by decide +kernel)
  have hnone : ∀ e ∈ payloadLost, e.policy = none ∧
      ∀ n ∈ e.written, -2 ^ 31 ≤ n ∧ n < 2 ^ 31 := by decide
  exact ⟨⟨standardTiers, _, rfl, thousandAttempts, toString, _, rfl⟩, _, s, rfl, rfl, ⟨rfl, rfl⟩,
    hrun, fun e he => .of_none (hnone e he).1 (hnone e he).2, hrow, hread⟩

end InferenceQueue.Service

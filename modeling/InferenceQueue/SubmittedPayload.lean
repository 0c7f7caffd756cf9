import InferenceQueue.AdmissionExact
import InferenceQueue.CreationSteps

namespace InferenceQueue.Creation

open Service Coalescing Admission

/-- `Submit` number `i` was called with an input that validates to the request of `task`. -/
def Submitted (tr : List Event) (i : ℕ) (task : Platform.Task) : Prop :=
  ∃ input, .platform (.submit i task.request.userID task.header input) ∈ tr ∧
    validateInferenceInput task.request.userID input = .ok task.request

def Admitted (cfg : Config) (tr : List Event) (i : ℕ) (task : Platform.Task) (tokens : Int64) :
    Prop :=
  ∃ user now key output, .admission i user now key ∈ tr ∧
    admission cfg task user now key = .ok output ∧ output.maxOutputTokens = tokens

def Created (tr : List Event) (i : ℕ) (j : JobID) (u : UserID) : Prop :=
  ∃ resp, .platform (.system (.call (.submit i) (.create j u) resp)) ∈ tr ∧ resp ≠ .failed false

def Origin (cfg : Config) (tr : List Event) (j : JobID) (u : UserID) (payload : JobPayload) :
    Prop :=
  ∃ i task, Submitted tr i task ∧ Admitted cfg tr i task payload.maxOutputTokens ∧
    Created tr i j u ∧ task.request = ⟨u, payload.prompt, payload.model⟩

section

variable {cfg : Config} {tr tr' : List Event} {i : ℕ} {task : Platform.Task} {tokens : Int64}
  {j : JobID} {u : UserID} {payload : JobPayload}

theorem Submitted.mono (h : Submitted tr i task) (hsub : tr ⊆ tr') : Submitted tr' i task := by
  obtain ⟨input, hmem, hvalid⟩ := h
  exact ⟨input, hsub hmem, hvalid⟩

theorem Admitted.mono (h : Admitted cfg tr i task tokens) (hsub : tr ⊆ tr') :
    Admitted cfg tr' i task tokens := by
  obtain ⟨user, now, key, output, hmem, hout⟩ := h
  exact ⟨user, now, key, output, hsub hmem, hout⟩

theorem Origin.mono (h : Origin cfg tr j u payload) (hsub : tr ⊆ tr') :
    Origin cfg tr' j u payload := by
  obtain ⟨i, task, hsubmitted, hadmitted, ⟨resp, hmem, hresp⟩, htask⟩ := h
  exact ⟨i, task, hsubmitted.mono hsub, hadmitted.mono hsub, ⟨resp, hsub hmem, hresp⟩, htask⟩

end

/-- What the transactions, the tables and the workers hold, and where it comes from. -/
structure Tracked (cfg : Config) (tr : List Event) (s : State) : Prop where
  homed : Homed s.platform.system
  claims : ClaimsHomed s.platform.system
  submitted : ∀ i task, (s.platform.fronts i).carried = some task → Submitted tr i task
  admitted : ∀ i task, s.platform.fronts i = .running task →
    Admitted cfg tr i task (s.maxOutputTokens i)
  opened : ∀ i, s.transactions i ≠ .closed → s.platform.system.submits i = .create ∧
    ∃ task, s.platform.fronts i = .running task
  requested : ∀ i j payload task, s.transactions i = .requested j payload →
    s.platform.fronts i = .running task → payload = s.payload i task
  paired : ∀ j, s.platform.system.stores.jobs.lookup j = none ↔ s.requests.lookup j = none
  origin : ∀ j payload, s.requests.lookup j = some payload →
    ∃ u, UserOf s.platform.system j u ∧ Origin cfg tr j u payload
  inputs : ∀ i claim n beat, s.platform.system.workers i = .busy claim (.generate n) beat →
    ∃ payload, s.requests.lookup claim.jobID = some payload ∧
      s.inputs i = some payload.generationInput

namespace Tracked

variable {cfg : Config} {tr : List Event} {s t : State} {e : Event} {i : ℕ} {p : Platform.State}
  {pe : Platform.Event}

theorem initial : Tracked cfg [] State.initial := by
  refine ⟨Homed.initial, ?_, ?_, ?_, ?_, ?_, ?_, ?_, ?_⟩ <;>
    simp [ClaimsHomed, State.initial, Platform.State.initial, System.initial,
      Platform.Front.carried]

theorem homed_step (h : Tracked cfg tr s) (he : Step cfg s e t) :
    Homed t.platform.system ∧ ClaimsHomed t.platform.system := by
  rcases he.system with hsame | ⟨se, -, hs⟩
  · rw [hsame]
    exact ⟨h.homed, h.claims⟩
  · exact ⟨h.homed.step hs, h.claims.step h.homed hs⟩

theorem userOf_step {j : JobID} {u : UserID} (hu : UserOf s.platform.system j u)
    (he : Step cfg s e t) : UserOf t.platform.system j u := by
  rcases he.system with hsame | ⟨se, -, hs⟩
  · rwa [hsame]
  · exact hu.step hs

theorem submitted_step (h : Tracked cfg tr s) (he : Step cfg s e t) (i : ℕ)
    (task : Platform.Task) (htask : (t.platform.fronts i).carried = some task) :
    Submitted (tr ++ [e]) i task := by
  have hsub : tr ⊆ tr ++ [e] := List.subset_append_left tr [e]
  cases he.moves with
  | begun | saved | requested => exact (h.submitted i task htask).mono hsub
  | admitted _ _ hstep | refused _ hstep =>
    rcases hstep.carried htask with hold | ⟨input, heq, -⟩
    · exact (h.submitted i task hold).mono hsub
    · cases heq
  | platform _ hstep =>
    rcases hstep.carried htask with hold | ⟨input, rfl, hvalid⟩
    · exact (h.submitted i task hold).mono hsub
    · exact ⟨input, by simp, hvalid⟩

theorem admitted_step (h : Tracked cfg tr s) (he : Step cfg s e t) (i : ℕ)
    (task : Platform.Task) (htask : t.platform.fronts i = .running task) :
    Admitted cfg (tr ++ [e]) i task (t.maxOutputTokens i) := by
  have hsub : tr ⊆ tr ++ [e] := List.subset_append_left tr [e]
  cases he.moves with
  | begun | saved | requested => exact (h.admitted i task htask).mono hsub
  | @admitted k user now key task' output p hfront hout hstep =>
    rcases hstep.admitted htask with hold | ⟨hfront', heq⟩
    · have hne : i ≠ k := by
        rintro rfl
        cases hold.symm.trans hfront
      change Admitted cfg _ i task (Function.update s.maxOutputTokens k _ i)
      rw [Function.update_of_ne hne]
      exact (h.admitted i task hold).mono hsub
    · cases heq
      cases hfront'.symm.trans hfront
      change Admitted cfg _ i task (Function.update s.maxOutputTokens i _ i)
      rw [Function.update_self]
      exact ⟨user, now, key, output, by simp, hout, rfl⟩
  | refused _ hstep =>
    rcases hstep.admitted htask with hold | ⟨-, heq⟩
    · exact (h.admitted i task hold).mono hsub
    · cases heq
  | platform hallowed hstep =>
    rcases hstep.admitted htask with hold | ⟨-, rfl⟩
    · exact (h.admitted i task hold).mono hsub
    · exact absurd hallowed id

theorem opened_of_after {pe : Platform.Event} {i : ℕ} (h : transactionsAfter s pe i ≠ .closed) :
    transactionsAfter s pe i = s.transactions i ∧
      ∀ j u resp, pe ≠ .system (.call (.submit i) (.create j u) resp) := by
  -- a transaction that is still open after an event was so before, unless it has just begun
  unfold transactionsAfter at h ⊢
  split at h
  · next k j u resp =>
    by_cases hk : i = k
    · subst hk
      exact absurd (Function.update_self i _ _) h
    · refine ⟨Function.update_of_ne hk _ _, ?_⟩
      intro j' u' resp' heq
      cases heq
      exact hk rfl
  · next hne => exact ⟨rfl, fun j u resp heq => hne i j u resp heq⟩

theorem opened_platform {task : Platform.Task}
    (hstep : Platform.Step cfg.platform s.platform pe p)
    (hne : ∀ j u resp, pe ≠ .system (.call (.submit i) (.create j u) resp))
    (hsubmit : s.platform.system.submits i = .create)
    (hfront : s.platform.fronts i = .running task) :
    p.system.submits i = .create ∧ p.fronts i = .running task := by
  -- an open transaction keeps its `Submit` where it is
  -- all that `Submit` can call here is `Create`
  have hcall : ∀ req resp, pe ≠ .system (.call (.submit i) req resp) := by
    rintro req resp rfl
    have hreq : (s.platform.system.submits i).requests req := hstep.service.2.call.1
    rw [hsubmit] at hreq
    obtain ⟨j, u, rfl⟩ := hreq
    exact hne j u resp rfl
  constructor
  · rcases hstep.system with ⟨se, rfl, -, hs⟩ | ⟨-, hsame⟩
    · rcases hs.submit i with hsame | ⟨req, resp, rfl, -⟩
      · exact hsame.trans hsubmit
      · exact absurd rfl (hcall req resp)
    · rw [hsame, hsubmit]
  · rcases hstep.running_kept hfront with hkept | ⟨req, resp, rfl⟩
    · exact hkept
    · exact absurd rfl (hcall req resp)

/-- What becomes of a transaction that an event leaves open. -/
inductive Continues (s t : State) (i : ℕ) (task : Platform.Task) : Prop
  | same (h : t.transactions i = s.transactions i)
  | begun {j} (h : t.transactions i = .begun j)
  | saved {j} (h : t.transactions i = .saved j)
  | requested {j} (h : t.transactions i = .requested j (s.payload i task))

/-- While a transaction is open its `Submit` stays at `Create`, with the same task and tokens. -/
theorem continues (h : Tracked cfg tr s) (he : Step cfg s e t)
    (hopen : t.transactions i ≠ .closed) :
    ∃ task, s.platform.fronts i = .running task ∧ t.platform.fronts i = .running task ∧
      t.platform.system.submits i = .create ∧ t.maxOutputTokens i = s.maxOutputTokens i ∧
      Continues s t i task := by
  -- the transactions of the others do not change
  have hother : ∀ {k : ℕ} {tx : Transaction}, i ≠ k →
      Function.update s.transactions k tx i = s.transactions i :=
    fun hk => Function.update_of_ne hk _ _
  cases he.moves with
  | @begun k j task hfront hsubmit =>
    by_cases hk : i = k
    · subst hk
      exact ⟨task, hfront, hfront, hsubmit, rfl, .begun (Function.update_self i _ _)⟩
    · obtain ⟨hsubmit', task', hfront'⟩ := h.opened i (by rwa [← hother hk])
      exact ⟨task', hfront', hfront', hsubmit', rfl, .same (hother hk)⟩
  | @saved k j htx =>
    by_cases hk : i = k
    · subst hk
      obtain ⟨hsubmit, task, hfront⟩ := h.opened i (by simp [htx])
      exact ⟨task, hfront, hfront, hsubmit, rfl, .saved (Function.update_self i _ _)⟩
    · obtain ⟨hsubmit', task', hfront'⟩ := h.opened i (by rwa [← hother hk])
      exact ⟨task', hfront', hfront', hsubmit', rfl, .same (hother hk)⟩
  | @requested k j task hfront htx =>
    by_cases hk : i = k
    · subst hk
      obtain ⟨hsubmit, -⟩ := h.opened i (by simp [htx])
      exact ⟨task, hfront, hfront, hsubmit, rfl, .requested (Function.update_self i _ _)⟩
    · obtain ⟨hsubmit', task', hfront'⟩ := h.opened i (by rwa [← hother hk])
      exact ⟨task', hfront', hfront', hsubmit', rfl, .same (hother hk)⟩
  | @admitted k user now key task' output p hadmitting hout hstep =>
    obtain ⟨hsubmit, task, hfront⟩ := h.opened i hopen
    obtain ⟨hsubmit', hfront'⟩ := opened_platform hstep (by simp) hsubmit hfront
    have hk : i ≠ k := by
      rintro rfl
      cases hfront.symm.trans hadmitting
    exact ⟨task, hfront, hfront', hsubmit', Function.update_of_ne hk _ _, .same rfl⟩
  | refused _ hstep =>
    obtain ⟨hsubmit, task, hfront⟩ := h.opened i hopen
    obtain ⟨hsubmit', hfront'⟩ := opened_platform hstep (by simp) hsubmit hfront
    exact ⟨task, hfront, hfront', hsubmit', rfl, .same rfl⟩
  | platform _ hstep =>
    obtain ⟨hsame, hne⟩ := opened_of_after hopen
    obtain ⟨hsubmit, task, hfront⟩ := h.opened i (hsame ▸ hopen)
    obtain ⟨hsubmit', hfront'⟩ := opened_platform hstep hne hsubmit hfront
    exact ⟨task, hfront, hfront', hsubmit', rfl, .same hsame⟩

theorem requested_step (h : Tracked cfg tr s) (he : Step cfg s e t) (i : ℕ) (j : JobID)
    (payload : JobPayload) (task : Platform.Task)
    (htx : t.transactions i = .requested j payload)
    (htask : t.platform.fronts i = .running task) : payload = t.payload i task := by
  obtain ⟨task', hfront, hfront', -, htokens, hcontinues⟩ := h.continues (i := i) he (by simp [htx])
  cases hfront'.symm.trans htask
  have hpayload : t.payload i task = s.payload i task := by simp only [State.payload, htokens]
  rw [hpayload]
  cases hcontinues with
  | same hsame => exact h.requested i j payload task (hsame.symm.trans htx) hfront
  | begun hnew | saved hnew => cases hnew.symm.trans htx
  | requested hnew =>
    cases hnew.symm.trans htx
    rfl

theorem paired_step (h : Tracked cfg tr s) (he : Step cfg s e t) (j : JobID) :
    t.platform.system.stores.jobs.lookup j = none ↔ t.requests.lookup j = none := by
  rcases he.tables j with ⟨hrow, hrequest⟩ | ⟨i, u, payload, -, hcommits⟩
  · rw [hrow, hrequest]
    exact h.paired j
  · obtain ⟨row, hrow, -⟩ := hcommits.row
    rw [Option.mem_def] at hrow
    simp [hrow, hcommits.request]

theorem request_kept (h : Tracked cfg tr s) (he : Step cfg s e t) {j : JobID}
    {payload : JobPayload} (hrequest : s.requests.lookup j = some payload) :
    t.requests.lookup j = some payload := by
  rcases he.tables j with ⟨-, hsame⟩ | ⟨i, u, payload', hnone, -⟩
  · exact hsame.trans hrequest
  · rw [(h.paired j).mp hnone] at hrequest
    cases hrequest

theorem origin_step (h : Tracked cfg tr s) (he : Step cfg s e t) (j : JobID)
    (payload : JobPayload) (hrequest : t.requests.lookup j = some payload) :
    ∃ u, UserOf t.platform.system j u ∧ Origin cfg (tr ++ [e]) j u payload := by
  have hsub : tr ⊆ tr ++ [e] := List.subset_append_left tr [e]
  rcases he.tables j with ⟨-, hsame⟩ | ⟨i, u, payload', -, hcommits⟩
  · obtain ⟨u, huser, horigin⟩ := h.origin j payload (hsame ▸ hrequest)
    exact ⟨u, userOf_step huser he, horigin.mono hsub⟩
  · cases hcommits.request.symm.trans hrequest
    obtain ⟨-, task, hfront⟩ := h.opened i (by simp [hcommits.transaction])
    have hpayload := h.requested i j payload task hcommits.transaction hfront
    obtain ⟨resp, rfl, hresp⟩ := hcommits.event
    refine ⟨u, hcommits.row, i, task, ?_, ?_, ⟨resp, by simp, hresp⟩, ?_⟩
    · exact (h.submitted i task (by rw [hfront]; rfl)).mono hsub
    · rw [hpayload]
      exact (h.admitted i task hfront).mono hsub
    · rw [hpayload, hcommits.user task hfront]
      rfl

theorem inputsAfter_eq {pe : Platform.Event} {i : ℕ}
    (h : ∀ req resp, pe ≠ .system (.call (.worker i) req resp)) :
    inputsAfter s pe i = s.inputs i := by
  -- the input of a worker changes only by its own calls
  unfold inputsAfter
  split
  · next k w resp =>
    exact Function.update_of_ne (fun heq => h _ _ (by rw [heq])) _ _
  · next k jobID =>
    exact Function.update_of_ne (fun heq => h _ _ (by rw [heq])) _ _
  · rfl

theorem inputs_step (h : Tracked cfg tr s) (he : Step cfg s e t) (i : ℕ) (claim : Claim) (n : ℤ)
    (beat : Heartbeat) (hbusy : t.platform.system.workers i = .busy claim (.generate n) beat) :
    ∃ payload, t.requests.lookup claim.jobID = some payload ∧
      t.inputs i = some payload.generationInput := by
  by_cases hown : ∃ req resp, e = .platform (.system (.call (.worker i) req resp))
  · obtain ⟨req, resp, rfl⟩ := hown
    cases he.moves with
    | @platform _ p hallowed hstep =>
      have hs := hstep.service.2
      have hreq : (s.platform.system.workers i).request i = req := hs.call.1
      have hnext : p.system.workers i = _ := hs.worker_self
      rw [show p.system.workers i = _ from hbusy] at hnext
      cases hw : s.platform.system.workers i with
      | idle =>
        rw [hw] at hnext
        cases (Worker.busy_of_claimed hnext.symm).1
      | busy claim' stage beat' =>
        rw [hw] at hnext hreq
        obtain rfl := Worker.claim_of_proceed hnext.symm
        rcases Worker.generate_of_proceed hnext.symm with rfl | ⟨rfl, rfl⟩
        · subst hreq
          exact h.inputs i claim n beat' hw
        · -- the answer is `true`, so the request was found
          subst hreq
          have hfound : true = (payloadByID claim.jobID s.requests).toBool := hallowed
          cases hrequest : s.requests.lookup claim.jobID with
          | none => simp [payloadByID, hrequest, Except.toBool] at hfound
          | some payload =>
            refine ⟨payload, hrequest, ?_⟩
            change Function.update s.inputs i _ i = _
            rw [Function.update_self, hrequest]
            rfl
  · have hbusy' : ∃ beat', s.platform.system.workers i = .busy claim (.generate n) beat' := by
      rcases he.system with hsame | ⟨se, rfl, hs⟩
      · exact ⟨beat, hsame ▸ hbusy⟩
      · rcases hs.worker i with hsame | ⟨resp, rfl, -⟩ | ⟨req, resp, rfl, -, hnext⟩
        · exact ⟨beat, hsame ▸ hbusy⟩
        · exact absurd ⟨_, resp, rfl⟩ hown
        · rw [hbusy] at hnext
          cases hw : s.platform.system.workers i with
          | idle =>
            rw [hw] at hnext
            cases hnext
          | busy claim' stage beat' =>
            rw [hw] at hnext
            cases hnext
            exact ⟨beat', rfl⟩
    obtain ⟨beat', hbusy'⟩ := hbusy'
    obtain ⟨payload, hrequest, hinput⟩ := h.inputs i claim n beat' hbusy'
    refine ⟨payload, h.request_kept he hrequest, ?_⟩
    cases he.moves with
    | platform _ hstep =>
      refine Eq.trans (inputsAfter_eq ?_) hinput
      rintro req resp rfl
      exact hown ⟨req, resp, rfl⟩
    | _ => exact hinput

theorem step (h : Tracked cfg tr s) (he : Step cfg s e t) : Tracked cfg (tr ++ [e]) t where
  homed := (h.homed_step he).1
  claims := (h.homed_step he).2
  submitted := h.submitted_step he
  admitted := h.admitted_step he
  opened i hopen := by
    obtain ⟨task, -, hfront, hsubmit, -⟩ := h.continues (i := i) he hopen
    exact ⟨hsubmit, task, hfront⟩
  requested := h.requested_step he
  paired := h.paired_step he
  origin := h.origin_step he
  inputs := h.inputs_step he

theorem run (h : Run (Step cfg) State.initial tr s) : Tracked cfg tr s :=
  h.history (Tracked cfg) initial fun _ _ _ _ ht he => ht.step he

end Tracked

variable {cfg : Config} {tr : List Event} {s : State}

/-- A worker that generates for a job asks for the normalized prompt and model one `Submit` of the
claim's user was called with, and for the output tokens `Admit` counted for them. -/
theorem generates_what_was_submitted (h : Run (Step cfg) State.initial tr s) {w : ℕ}
    {claim : Claim} {n : ℤ} {beat : Heartbeat}
    (hbusy : s.platform.system.workers w = .busy claim (.generate n) beat) :
    ∃ i header input user now key output,
      .platform (.submit i claim.userID header input) ∈ tr ∧
      .admission i user now key ∈ tr ∧ Created tr i claim.jobID claim.userID ∧
      (admitRequest cfg.policy cfg.limits user now
        ⟨claim.userID.val, (normalizeRequest input).prompt, (normalizeRequest input).model⟩
        key).output = .ok output ∧
      s.inputs w = some ⟨(normalizeRequest input).model, (normalizeRequest input).prompt,
        output.maxOutputTokens⟩ := by
  have htracked : Tracked cfg tr s := Tracked.run h
  obtain ⟨payload, hrequest, hinput⟩ := htracked.inputs w claim n beat hbusy
  obtain ⟨u, huser, i, task, ⟨input, hsubmit, hvalid⟩, hadmitted, hcreated, htask⟩ :=
    htracked.origin claim.jobID payload hrequest
  obtain rfl : u = claim.userID := huser.unique (htracked.claims w claim _ beat hbusy)
  obtain ⟨user, now, key, output, hadmission, hout, htokens⟩ := hadmitted
  rw [htask] at hsubmit hvalid
  have hnormal := eq_of_validateInferenceInput hvalid
  simp only [InferenceRequest.mk.injEq, true_and] at hnormal
  rw [admission, htask] at hout
  refine ⟨i, task.header, input, user, now, key, output, hsubmit, hadmission, hcreated, ?_, ?_⟩
  · rw [← hnormal.1, ← hnormal.2]
    exact hout
  · rw [hinput, ← hnormal.1, ← hnormal.2, htokens]
    rfl

def smallCreation : Config where
  platform := Platform.smallPlatform
  policy := buildAdmissionPolicyConfig servedConfig
  limits := RateLimits.tiers ⟨hourlyLimit, hourlyLimit⟩

def hailing : InferenceInput := ⟨" Hello, world ", "llama3:8b"⟩

/-- A `Submit` up to the statements of its transaction. -/
def beginning (i : ℕ) (user : UserID) (header : String) (job : JobID) : List Event :=
  [.platform (.submit i user header hailing),
   .platform (.front i (.claimed ⟨.new, none⟩)),
   .platform (.front i (.decided .proceed)),
   .admission i (.ok "premium") 0 none,
   .begin i job,
   .save i]

/-- Two `Submit`s at once, one of which loses its connection before the commit. -/
def oneRolledBack : List Event :=
  beginning 0 bob "k" job2 ++ beginning 1 alice "k" job1 ++
  [.platform (.system (.call (.submit 0) (.create job2 bob) (.failed false))),
   .saveRequest 1] ++
  (Platform.calls (submitted 1 job1 alice ++ [claiming 0 job1 alice,
    .call (.worker 0) (.retryPolicy alice) (.policy 3)])).map .platform

def fetched : List Event :=
  [.platform (.system (.call (.worker 0) (.external (.payload job1)) (.flag true)))]

theorem generates_what_was_submitted_trimmed :
    ∃ s, Run (Step smallCreation) State.initial (oneRolledBack ++ fetched) s ∧
      s.inputs 0 = some ⟨"llama3:8b", "Hello, world", 512⟩ ∧
      ∃ i header input user now key output,
        .platform (.submit i alice header input) ∈ oneRolledBack ++ fetched ∧
        .admission i user now key ∈ oneRolledBack ++ fetched ∧
        Created (oneRolledBack ++ fetched) i job1 alice ∧
        (admitRequest smallCreation.policy smallCreation.limits user now
          ⟨alice.val, (normalizeRequest input).prompt, (normalizeRequest input).model⟩
          key).output = .ok output ∧
        s.inputs 0 = some ⟨(normalizeRequest input).model, (normalizeRequest input).prompt,
          output.maxOutputTokens⟩ := by
  obtain ⟨s, hrun, hinput, hbusy⟩ := Run.exists_of_foldlM (step smallCreation) State.initial
    (oneRolledBack ++ fetched)
    (fun s => s.inputs 0 = some ⟨"llama3:8b", "Hello, world", 512⟩ ∧
      s.platform.system.workers 0 = .busy ⟨alice, job1⟩ (.generate 3) ⟨true, false, 0⟩)
    (by decide +kernel)
  exact ⟨s, hrun, hinput, generates_what_was_submitted hrun hbusy⟩

/-- A job and its request come together and stay, so the fetch of a claimed job's request finds one,
and always the same. -/
theorem job_and_request_rows (h : Run (Step cfg) State.initial tr s) :
    (∀ j, s.platform.system.stores.jobs.lookup j = none ↔ s.requests.lookup j = none) ∧
      (∀ w claim n beat, s.platform.system.workers w = .busy claim (.payload n) beat →
        ∃ payload, payloadByID claim.jobID s.requests = .ok payload) ∧
      ∀ j payload rest t, s.requests.lookup j = some payload → Run (Step cfg) s rest t →
        t.requests.lookup j = some payload := by
  have htracked : Tracked cfg tr s := Tracked.run h
  refine ⟨htracked.paired, ?_, ?_⟩
  · intro w claim n beat hbusy
    obtain ⟨row, hrow, -⟩ := htracked.claims w claim _ beat hbusy
    rw [Option.mem_def] at hrow
    cases hrequest : s.requests.lookup claim.jobID with
    | none =>
      rw [(htracked.paired claim.jobID).mpr hrequest] at hrow
      cases hrow
    | some payload => exact ⟨payload, by rw [payloadByID, hrequest]⟩
  · intro j payload rest t hrequest hrest
    have hkept : Tracked cfg (tr ++ rest) t ∧ t.requests.lookup j = some payload := by
      refine hrest.history
        (fun past t => Tracked cfg (tr ++ past) t ∧ t.requests.lookup j = some payload) ?_ ?_
      · rw [List.append_nil]
        exact ⟨htracked, hrequest⟩
      · rintro past t e t' ⟨ht, hkept⟩ he
        rw [← List.append_assoc]
        exact ⟨ht.step he, ht.request_kept he hkept⟩
    exact hkept.2

theorem job_and_request_rows_one_rolled_back :
    ∃ s t, Run (Step smallCreation) State.initial oneRolledBack s ∧
      Run (Step smallCreation) s fetched t ∧ s.requests.lookup job2 = none ∧
      s.platform.system.stores.jobs.lookup job2 = none ∧
      t.requests.lookup job1 = some ⟨"llama3:8b", "Hello, world", 512⟩ := by
  obtain ⟨s, hrun, hnone, hsome⟩ := Run.exists_of_foldlM (step smallCreation) State.initial
    oneRolledBack
    (fun s => s.requests.lookup job2 = none ∧
      s.requests.lookup job1 = some ⟨"llama3:8b", "Hello, world", 512⟩) (by decide +kernel)
  obtain ⟨t, hrun', -⟩ := Run.exists_of_foldlM (step smallCreation) State.initial
    (oneRolledBack ++ fetched) (fun _ => True) (by decide +kernel)
  have hrows := job_and_request_rows hrun
  have hrest := hrun'.rest hrun
  exact ⟨s, t, hrun, hrest, hnone, (hrows.1 job2).mpr hnone, hrows.2.2 job1 _ _ t hsome hrest⟩

end InferenceQueue.Creation

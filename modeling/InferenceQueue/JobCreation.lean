import InferenceQueue.AdmissionModel
import InferenceQueue.PlatformSteps

namespace InferenceQueue.Creation

open Service Coalescing Admission

/-- A row of `job_requests` without its key. -/
structure JobPayload where
  model : String
  prompt : String
  maxOutputTokens : Int64
deriving DecidableEq

/-- VARCHAR(36), TEXT and INTEGER; no text of PostgreSQL holds a NUL. -/
def JobPayload.Storable (payload : JobPayload) : Prop :=
  payload.model.length ≤ 36 ∧ '\x00' ∉ payload.model.toList ∧ '\x00' ∉ payload.prompt.toList ∧
    -2 ^ 31 ≤ payload.maxOutputTokens.toInt ∧ payload.maxOutputTokens.toInt < 2 ^ 31

instance : DecidablePred JobPayload.Storable := fun _ =>
  inferInstanceAs (Decidable (_ ∧ _ ∧ _ ∧ _ ∧ _))

abbrev Requests := Finmap (fun _ : JobID => JobPayload)

def payloadByID (jobID : JobID) (db : Requests) : Except GoError JobPayload :=
  match db.lookup jobID with
  | none => .error (.sentinel .jobNotFound)
  | some payload => .ok payload

/-- What the worker asks the model server for; the temperature is the same for all jobs. -/
structure GenerationInput where
  model : String
  prompt : String
  maxTokens : Int64
deriving DecidableEq

def JobPayload.generationInput (payload : JobPayload) : GenerationInput :=
  ⟨payload.model, payload.prompt, payload.maxOutputTokens⟩

/-- The transaction of a `Create`, by the statements that have succeeded in it. Other threads see
neither row before the commit. -/
inductive Transaction
  | closed
  | begun (jobID : JobID)
  | saved (jobID : JobID)
  | requested (jobID : JobID) (payload : JobPayload)
deriving DecidableEq

def Transaction.jobID? : Transaction → Option JobID
  | closed => none
  | begun jobID | saved jobID | requested jobID _ => some jobID

structure Config where
  platform : Platform.Config
  policy : AdmissionPolicyConfig
  limits : RateLimitConfig

structure State where
  platform : Platform.State
  requests : Requests
  transactions : ℕ → Transaction
  /-- the field of the request that each `Submit` passes on; 0 before its admission -/
  maxOutputTokens : ℕ → Int64
  /-- `genInput` of each worker -/
  inputs : ℕ → Option GenerationInput

def State.initial : State where
  platform := Platform.State.initial
  requests := ∅
  transactions _ := .closed
  maxOutputTokens _ := 0
  inputs _ := none

inductive Event
  /-- the policy of the user's tier is found, the job gets its UUID and the transaction begins -/
  | begin (i : ℕ) (jobID : JobID)
  | save (i : ℕ)
  | saveRequest (i : ℕ)
  /-- `Admit` with what `GetUserPolicy` returned and what Redis holds for the user's bucket -/
  | admission (i : ℕ) (user : Except GoError String) (now : ℕ) (key : Option Cell)
  | platform (e : Platform.Event)
deriving DecidableEq

/-- `RequestAdmitterAdapter.Admit` -/
def admission (cfg : Config) (task : Platform.Task) (user : Except GoError String) (now : ℕ)
    (key : Option Cell) : Except GoError AdmitOutput :=
  (admitRequest cfg.policy cfg.limits user now
    ⟨task.request.userID.val, task.request.prompt, task.request.model⟩ key).output

/-- The row `SaveRequest` writes for a `Submit`. -/
def State.payload (s : State) (i : ℕ) (task : Platform.Task) : JobPayload :=
  ⟨task.request.model, task.request.prompt, s.maxOutputTokens i⟩

/-- A `Create` that fails has rolled back, unless it is the reply to its commit that was lost. -/
def CreateAllowed (tx : Transaction) (jobID : JobID) (resp : Response) : Prop :=
  if resp = .failed false then ∀ j ∈ tx.jobID?, j = jobID
  else ∃ payload, tx = .requested jobID payload

instance (tx : Transaction) (jobID : JobID) (resp : Response) :
    Decidable (CreateAllowed tx jobID resp) :=
  match tx with
  | .closed | .begun _ | .saved _ =>
    if h : resp = .failed false then
      decidable_of_iff (∀ j ∈ _, j = jobID) (by rw [CreateAllowed, if_pos h])
    else isFalse (by simp [CreateAllowed, h])
  | .requested j payload =>
    decidable_of_iff (j = jobID) (by by_cases h : resp = .failed false <;>
      simp [CreateAllowed, h, Transaction.jobID?])

/-- What the transactions and the requests leave open to the platform. -/
def Allowed (s : State) : Platform.Event → Prop
  | .front _ (.admitted _) => False
  | .system (.call (.submit i) (.create jobID _) resp) =>
    CreateAllowed (s.transactions i) jobID resp
  | .system (.call (.worker _) (.external (.payload jobID)) (.flag b)) =>
    b = (payloadByID jobID s.requests).toBool
  | _ => True

instance (s : State) (e : Platform.Event) : Decidable (Allowed s e) := by
  unfold Allowed
  split <;> infer_instance

/-- A commit that takes effect adds the request together with the job. -/
def requestsAfter (s : State) : Platform.Event → Requests
  | .system (.call (.submit i) (.create jobID _) resp) =>
    match s.transactions i with
    | .requested _ payload =>
      if resp ≠ .failed false ∧ s.platform.system.stores.jobs.lookup jobID = none then
        s.requests.insert jobID payload
      else s.requests
    | _ => s.requests
  | _ => s.requests

def transactionsAfter (s : State) : Platform.Event → ℕ → Transaction
  | .system (.call (.submit i) (.create _ _) _) => Function.update s.transactions i .closed
  | _ => s.transactions

def inputsAfter (s : State) : Platform.Event → ℕ → Option GenerationInput
  | .system (.call (.worker i) (.redis (.claimNextJob _)) _) => Function.update s.inputs i none
  | .system (.call (.worker i) (.external (.payload jobID)) (.flag true)) =>
    Function.update s.inputs i ((s.requests.lookup jobID).map JobPayload.generationInput)
  | _ => s.inputs

def step (cfg : Config) (s : State) : Event → Option State
  | .begin i jobID =>
    match s.platform.fronts i, s.platform.system.submits i, s.transactions i with
    | .running _, .create, .closed =>
      some { s with transactions := Function.update s.transactions i (.begun jobID) }
    | _, _, _ => none
  | .save i =>
    match s.transactions i with
    | .begun jobID =>
      some { s with transactions := Function.update s.transactions i (.saved jobID) }
    | _ => none
  | .saveRequest i =>
    match s.platform.fronts i, s.transactions i with
    | .running task, .saved jobID =>
      if (s.payload i task).Storable then
        some { s with
          transactions :=
            Function.update s.transactions i (.requested jobID (s.payload i task)) }
      else none
    | _, _ => none
  | .admission i user now key =>
    match s.platform.fronts i with
    | .admitting task =>
      match admission cfg task user now key with
      | .ok output =>
        (Platform.step cfg.platform s.platform (.front i (.admitted true))).map fun p =>
          { s with
            platform := p
            maxOutputTokens := Function.update s.maxOutputTokens i output.maxOutputTokens }
      | .error _ =>
        (Platform.step cfg.platform s.platform (.front i (.admitted false))).map fun p =>
          { s with platform := p }
    | _ => none
  | .platform e =>
    if Allowed s e then
      (Platform.step cfg.platform s.platform e).map fun p =>
        { s with
          platform := p
          requests := requestsAfter s e
          transactions := transactionsAfter s e
          inputs := inputsAfter s e }
    else none

abbrev Step (cfg : Config) : State → Event → State → Prop := Fires (step cfg)

def State.after (s : State) (e : Platform.Event) (p : Platform.State) : State :=
  { s with
    platform := p
    requests := requestsAfter s e
    transactions := transactionsAfter s e
    inputs := inputsAfter s e }

inductive Moves (cfg : Config) (s : State) : Event → State → Prop
  | begun {i jobID task} (hfront : s.platform.fronts i = .running task)
      (hsubmit : s.platform.system.submits i = .create) :
      Moves cfg s (.begin i jobID)
        { s with transactions := Function.update s.transactions i (.begun jobID) }
  | saved {i jobID} (htx : s.transactions i = .begun jobID) :
      Moves cfg s (.save i)
        { s with transactions := Function.update s.transactions i (.saved jobID) }
  | requested {i jobID task} (hfront : s.platform.fronts i = .running task)
      (htx : s.transactions i = .saved jobID) (hstorable : (s.payload i task).Storable) :
      Moves cfg s (.saveRequest i)
        { s with
          transactions := Function.update s.transactions i (.requested jobID (s.payload i task)) }
  | admitted {i user now key task output p} (hfront : s.platform.fronts i = .admitting task)
      (hout : admission cfg task user now key = .ok output)
      (hstep : Platform.Step cfg.platform s.platform (.front i (.admitted true)) p) :
      Moves cfg s (.admission i user now key)
        { s with
          platform := p
          maxOutputTokens := Function.update s.maxOutputTokens i output.maxOutputTokens }
  | refused {i user now key p} {task : Platform.Task}
      (hfront : s.platform.fronts i = .admitting task)
      (hstep : Platform.Step cfg.platform s.platform (.front i (.admitted false)) p) :
      Moves cfg s (.admission i user now key) { s with platform := p }
  | platform {e p} (hallowed : Allowed s e)
      (hstep : Platform.Step cfg.platform s.platform e p) :
      Moves cfg s (.platform e) (s.after e p)

theorem Step.moves {cfg : Config} {s t : State} {e : Event} (h : Step cfg s e t) :
    Moves cfg s e t := by
  cases e with
  | begin i jobID =>
    simp only [Step, Fires, step] at h
    split at h
    · next hfront hsubmit _ =>
      cases h
      exact .begun hfront hsubmit
    · cases h
  | save i =>
    simp only [Step, Fires, step] at h
    split at h
    · next htx =>
      cases h
      exact .saved htx
    · cases h
  | saveRequest i =>
    simp only [Step, Fires, step] at h
    split at h
    · next hfront htx =>
      split_ifs at h with hstorable
      cases h
      exact .requested hfront htx hstorable
    · cases h
  | admission i user now key =>
    simp only [Step, Fires, step] at h
    split at h
    · next hfront =>
      split at h
      · next hout =>
        obtain ⟨p, hp, rfl⟩ := Option.map_eq_some_iff.mp h
        exact .admitted hfront hout hp
      · obtain ⟨p, hp, rfl⟩ := Option.map_eq_some_iff.mp h
        exact .refused hfront hp
    · cases h
  | platform e =>
    simp only [Step, Fires, step] at h
    split_ifs at h with hallowed
    obtain ⟨p, hp, rfl⟩ := Option.map_eq_some_iff.mp h
    exact .platform hallowed hp

end InferenceQueue.Creation

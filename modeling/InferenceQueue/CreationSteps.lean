import InferenceQueue.JobClaims
import InferenceQueue.JobCreation
import InferenceQueue.RequestKeys

namespace InferenceQueue.Platform

open Service Coalescing

variable {cfg : Config} {p q : State} {e : Event} {i : ℕ} {task : Task}

def Front.carried : Front → Option Task
  | claim task | coalesce task | admitting task | running task => some task
  | _ => none

theorem Front.carried_resume {front : Front} {answer : Answer}
    (h : (front.resume answer).carried = some task) : front.carried = some task := by
  unfold Front.resume at h
  split at h
  all_goals try split at h
  all_goals first
    | exact h
    | cases h

theorem Front.carried_follow {task' : Task} {before after : Submit} {resp : Response}
    (h : (Front.follow task' before after resp).carried = some task) : task' = task := by
  unfold Front.follow at h
  split at h
  all_goals try split at h
  all_goals cases h
  rfl

theorem Front.carried_begin {userID : UserID} {header : String} {input : InferenceInput}
    (h : (Front.begin userID header input).carried = some task) :
    validateInferenceInput userID input = .ok task.request ∧ task.request.userID = userID ∧
      task.header = header := by
  unfold Front.begin at h
  split at h
  · next request hvalid =>
    cases h
    refine ⟨hvalid, ?_, rfl⟩
    rw [eq_of_validateInferenceInput hvalid]
  · cases h

theorem Step.carried (he : Step cfg p e q) (h : (q.fronts i).carried = some task) :
    (p.fronts i).carried = some task ∨
      ∃ input, e = .submit i task.request.userID task.header input ∧
        validateInferenceInput task.request.userID input = .ok task.request := by
  -- a task comes into being with the call of `Submit`
  have hstep := he.front i
  generalize q.fronts i = next at hstep h
  cases hstep with
  | same => exact Or.inl h
  | began =>
    obtain ⟨hvalid, rfl, rfl⟩ := Front.carried_begin h
    exact Or.inr ⟨_, rfl, hvalid⟩
  | answered => exact Or.inl (Front.carried_resume h)
  | followed hrunning =>
    obtain rfl := Front.carried_follow h
    rw [hrunning]
    exact Or.inl rfl

theorem Front.admitted_of_resume {front : Front} {answer : Answer}
    (h : front.resume answer = .running task) (hne : front ≠ .running task) :
    front = .admitting task ∧ answer = .admitted true := by
  unfold Front.resume at h
  split at h
  all_goals try split at h
  all_goals first
    | (cases h; exact ⟨rfl, rfl⟩)
    | exact absurd h hne
    | cases h

theorem Step.admitted (he : Step cfg p e q) (h : q.fronts i = .running task) :
    p.fronts i = .running task ∨
      (p.fronts i = .admitting task ∧ e = .front i (.admitted true)) := by
  -- admission is the only way to the second half of `Submit`
  by_cases hrunning : p.fronts i = .running task
  · exact Or.inl hrunning
  · have hstep := he.front i
    generalize q.fronts i = next at hstep h
    cases hstep with
    | same => exact Or.inl h
    | @began userID header input =>
      unfold Front.begin at h
      split at h <;> cases h
    | answered =>
      obtain ⟨hfront, rfl⟩ := Front.admitted_of_resume h hrunning
      exact Or.inr ⟨hfront, rfl⟩
    | followed hrunning' =>
      obtain rfl := Front.carried_follow (congrArg Front.carried h)
      exact Or.inl hrunning'

theorem Step.running_kept (he : Step cfg p e q) (h : p.fronts i = .running task) :
    q.fronts i = .running task ∨ ∃ req resp, e = .system (.call (.submit i) req resp) := by
  -- from the creation of its job on, a `Submit` moves by its calls of the system
  have hstep := he.front i
  generalize q.fronts i = next at hstep
  cases hstep with
  | same => exact Or.inl h
  | began hstart => cases h.symm.trans hstart
  | answered hanswers =>
    rw [h] at hanswers
    cases hanswers
  | followed => exact Or.inr ⟨_, _, rfl⟩

end InferenceQueue.Platform

namespace InferenceQueue.Creation

open Service

variable {cfg : Config} {s t : State} {e : Event} {j : JobID}

theorem Step.system (h : Step cfg s e t) :
    t.platform.system = s.platform.system ∨
      ∃ se, e = .platform (.system se) ∧
        Service.Step cfg.platform.service s.platform.system se t.platform.system := by
  cases h.moves with
  | begun | saved | requested => exact Or.inl rfl
  | admitted _ _ hstep | refused _ hstep => exact Or.inl hstep.front_system
  | platform _ hstep =>
    rcases hstep.system with ⟨se, rfl, -, hs⟩ | ⟨-, hsame⟩
    · exact Or.inr ⟨se, rfl, hs⟩
    · exact Or.inl hsame

theorem lookup_requestsAfter (s : State) (pe : Platform.Event) (j : JobID) :
    (requestsAfter s pe).lookup j = s.requests.lookup j ∨
      ∃ i u resp, pe = .system (.call (.submit i) (.create j u) resp) ∧ resp ≠ .failed false ∧
        s.platform.system.stores.jobs.lookup j = none := by
  unfold requestsAfter
  split
  · next i jobID u resp =>
    split
    · split_ifs with hnew
      · by_cases hj : j = jobID
        · subst hj
          exact Or.inr ⟨i, u, resp, rfl, hnew⟩
        · exact Or.inl (Finmap.lookup_insert_of_ne _ hj)
      · exact Or.inl rfl
    · exact Or.inl rfl
  · exact Or.inl rfl

/-- A commit that takes effect, as the tables see it. -/
structure Commits (s t : State) (e : Event) (j : JobID) (i : ℕ) (u : UserID)
    (payload : JobPayload) : Prop where
  event : ∃ resp, e = .platform (.system (.call (.submit i) (.create j u) resp)) ∧
    resp ≠ .failed false
  transaction : s.transactions i = .requested j payload
  user : ∀ task, s.platform.fronts i = .running task → u = task.request.userID
  row : UserOf t.platform.system j u
  request : t.requests.lookup j = some payload

/-- Both tables have what they had, or both have something new. -/
theorem Step.tables (h : Step cfg s e t) (j : JobID) :
    ((t.platform.system.stores.jobs.lookup j = none ↔
        s.platform.system.stores.jobs.lookup j = none) ∧
      t.requests.lookup j = s.requests.lookup j) ∨
      ∃ i u payload, s.platform.system.stores.jobs.lookup j = none ∧
        Commits s t e j i u payload := by
  cases h.moves with
  | begun | saved | requested => exact Or.inl ⟨Iff.rfl, rfl⟩
  | admitted _ _ hstep | refused _ hstep =>
    exact Or.inl ⟨by rw [hstep.front_system], rfl⟩
  | @platform pe p hallowed hstep =>
    rcases hstep.system with ⟨se, rfl, hplatform, hs⟩ | ⟨hnone, hsame⟩
    · rcases hs.appeared (j := j) with hiff | ⟨i, u, resp, rfl, hresp, -, hnew, huser⟩
      · refine Or.inl ⟨hiff, ?_⟩
        rcases lookup_requestsAfter s (.system se) j with hkept | ⟨i, u, resp, heq, hresp, hnew⟩
        · exact hkept
        · cases heq
          exact absurd (hiff.mpr hnew) (hs.row_of_create hresp)
      · rw [Allowed, CreateAllowed, if_neg hresp] at hallowed
        obtain ⟨payload, htx⟩ := hallowed
        refine Or.inr ⟨i, u, payload, hnew, ⟨⟨resp, rfl, hresp⟩, htx, ?_, huser, ?_⟩⟩
        · intro task hfront
          have hsubmit : Platform.SubmitAllowed s.platform i (.create j u) := hplatform.1
          simpa [Platform.SubmitAllowed, hfront] using hsubmit
        · simp [State.after, requestsAfter, htx, hresp, hnew]
    · refine Or.inl ⟨by rw [State.after, hsame], ?_⟩
      cases pe with
      | system se => exact absurd rfl (hnone se)
      | _ => rfl

end InferenceQueue.Creation

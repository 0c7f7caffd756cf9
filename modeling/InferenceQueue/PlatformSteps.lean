import InferenceQueue.PlatformModel
import InferenceQueue.SystemSteps

namespace InferenceQueue.Platform

open Service Idempotency Coalescing

inductive FrontStep (cfg : Config) (p q : State) (i : ℕ) : Event → Front → Prop
  | same {e} : FrontStep cfg p q i e (p.fronts i)
  | began {userID header input} (h : p.fronts i = .start) :
      FrontStep cfg p q i (.submit i userID header input) (.begin userID header input)
  | answered {answer} (h : (p.fronts i).Answers cfg p answer) :
      FrontStep cfg p q i (.front i answer) ((p.fronts i).resume answer)
  | followed {task req resp} (h : p.fronts i = .running task) :
      FrontStep cfg p q i (.system (.call (.submit i) req resp))
        (.follow task (p.system.submits i) (q.system.submits i) resp)

/-- Who calls the idempotency store, and when. -/
inductive Issued (cfg : Config) (p : State) : Event → Idempotency.Op → Prop
  | claim {i task answer} (h : p.fronts i = .claim task) :
      Issued cfg p (.front i answer)
        (.claimOrGet task.request.userID task.header cfg.inference.idempotencyTTL)
  | forget {i task ending clean answer} (h : p.fronts i = .forget task ending clean) :
      Issued cfg p (.front i answer) (.delete task.request.userID task.header)
  | bind {i task jobID resp} (h : p.fronts i = .running task) :
      Issued cfg p (.system (.call (.submit i) (.external (.setJobID jobID)) resp))
        (.setJobID task.request.userID task.header jobID)
  | transition {th jobID o resp} :
      Issued cfg p (.system (.call th (.external (.transitionStatus jobID o)) resp))
        (.transitionStatus jobID (recordStatus o))
  | recover {i jobID o resp} :
      Issued cfg p (.system (.call (.recovery i) (.external (.transitionStatus jobID o)) resp))
        (.transitionStatusIfInFlight jobID (recordStatus o))

variable {cfg : Config} {p q : State} {e : Event} {i : ℕ} {answer : Answer}

theorem Step.move (h : Step cfg p e q) :
    ∃ m, Platform.move cfg p e = some m ∧ q = withStores cfg p e m := by
  obtain ⟨m, hm, rfl⟩ := Option.map_eq_some_iff.mp h
  exact ⟨m, hm, rfl⟩

/-- Under the platform the system makes its own steps, and only those. -/
theorem Step.system (h : Step cfg p e q) :
    (∃ se, e = .system se ∧ Allowed cfg p se ∧ Service.Step cfg.service p.system se q.system) ∨
      ((∀ se, e ≠ .system se) ∧ q.system = p.system) := by
  obtain ⟨m, hm, rfl⟩ := h.move
  cases e with
  | submit i userID header input =>
    rw [Platform.move] at hm
    split_ifs at hm
    cases hm
    exact Or.inr ⟨by simp, rfl⟩
  | front i answer =>
    rw [Platform.move] at hm
    split_ifs at hm
    cases hm
    exact Or.inr ⟨by simp, rfl⟩
  | system se =>
    rw [Platform.move] at hm
    split_ifs at hm with hallowed
    obtain ⟨s, hs, rfl⟩ := Option.map_eq_some_iff.mp hm
    exact Or.inl ⟨se, rfl, hallowed, hs⟩

theorem Step.service {se : Service.Event} (h : Step cfg p (.system se) q) :
    Allowed cfg p se ∧ Service.Step cfg.service p.system se q.system := by
  rcases h.system with ⟨se', heq, hs⟩ | ⟨hnone, -⟩
  · cases heq
    exact hs
  · exact absurd rfl (hnone se)

theorem Step.clock_le (h : Step cfg p e q) : p.clock ≤ q.clock := by
  rcases h.system with ⟨se, -, -, hs⟩ | ⟨-, hsame⟩
  · exact hs.clock_le
  · exact le_of_eq (congrArg System.clock hsame.symm)

theorem Step.row (h : Step cfg p e q) (j : JobID) :
    q.system.stores.jobs.lookup j = p.system.stores.jobs.lookup j ∨
      ∃ se, e = .system se ∧ RowStep p.system j se (q.system.stores.jobs.lookup j) := by
  rcases h.system with ⟨se, rfl, -, hs⟩ | ⟨-, hsame⟩
  · exact Or.inr ⟨se, rfl, hs.row j⟩
  · exact Or.inl (by rw [hsame])

theorem Step.idempotency_none (h : Step cfg p e q) (hop : idempotencyOp cfg p e = none) :
    q.idempotency = p.idempotency := by
  obtain ⟨m, -, rfl⟩ := h.move
  simp only [withStores, hop]

theorem Step.idempotency_some (h : Step cfg p e q) {op : Idempotency.Op}
    (hop : idempotencyOp cfg p e = some op) :
    q.idempotency = Idempotency.perform cfg.inference.completedIdempotencyTTL p.clock op
      p.idempotency := by
  obtain ⟨m, -, rfl⟩ := h.move
  simp only [withStores, hop]

theorem Step.record (h : Step cfg p e q) (key : String) :
    q.idempotency.records.lookup key = p.idempotency.records.lookup key ∨
      ∃ op, idempotencyOp cfg p e = some op ∧
        RecordChange cfg.inference.completedIdempotencyTTL p.clock p.idempotency key op
          (q.idempotency.records.lookup key) := by
  cases hop : idempotencyOp cfg p e with
  | none => exact Or.inl (by rw [h.idempotency_none hop])
  | some op =>
    refine Or.inr ⟨op, rfl, ?_⟩
    rw [h.idempotency_some hop]
    exact recordChange op key

theorem issued_of_externalOp {th : Thread} {what : External} {resp : Response} {op : Idempotency.Op}
    (h : externalOp p th what = some op) :
    Issued cfg p (.system (.call th (.external what) resp)) op := by
  unfold externalOp at h
  split at h
  · split at h
    · next task hrunning =>
      cases h
      exact .bind hrunning
    · cases h
  · cases h
    exact .recover
  · cases h
    exact .transition
  · cases h

theorem issued_of_idempotencyOp {op : Idempotency.Op} (h : idempotencyOp cfg p e = some op) :
    Issued cfg p e op := by
  cases e with
  | submit => cases h
  | front i answer =>
    rw [idempotencyOp] at h
    split_ifs at h
    cases hfront : p.fronts i with
    | claim task =>
      rw [hfront] at h
      cases h
      exact .claim hfront
    | forget task ending clean =>
      rw [hfront] at h
      cases h
      exact .forget hfront
    | _ =>
      rw [hfront] at h
      cases h
  | system se =>
    cases se with
    | tick => cases h
    | call th req resp =>
      cases req with
      | external what =>
        rw [idempotencyOp] at h
        split_ifs at h
        exact issued_of_externalOp h
      | _ => cases h

theorem Step.coalescing_none (h : Step cfg p e q) (hop : coalescingOp cfg p e = none) :
    q.coalescing = p.coalescing := by
  obtain ⟨m, -, rfl⟩ := h.move
  simp only [withStores, hop]

theorem Step.coalescing_some (h : Step cfg p e q) {op : Coalescing.Op}
    (hop : coalescingOp cfg p e = some op) :
    q.coalescing =
      Coalescing.perform p.clock cfg.inference.coalescingTTL op p.coalescing := by
  obtain ⟨m, -, rfl⟩ := h.move
  simp only [withStores, hop]

theorem Step.front (h : Step cfg p e q) (i : ℕ) : FrontStep cfg p q i e (q.fronts i) := by
  obtain ⟨m, hm, rfl⟩ := h.move
  cases e with
  | submit k userID header input =>
    rw [Platform.move] at hm
    split_ifs at hm with hstart
    cases hm
    change FrontStep cfg p _ i _ (Function.update p.fronts k _ i)
    by_cases heq : i = k
    · subst heq
      rw [Function.update_self]
      exact .began hstart
    · rw [Function.update_of_ne heq]
      exact .same
  | front k answer =>
    rw [Platform.move] at hm
    split_ifs at hm with hanswer
    cases hm
    change FrontStep cfg p _ i _ (Function.update p.fronts k _ i)
    by_cases heq : i = k
    · subst heq
      rw [Function.update_self]
      exact .answered hanswer
    · rw [Function.update_of_ne heq]
      exact .same
  | system se =>
    rw [Platform.move] at hm
    split_ifs at hm with hallowed
    obtain ⟨s, hs, rfl⟩ := Option.map_eq_some_iff.mp hm
    change FrontStep cfg p _ i _ (frontsAfter p s se i)
    cases se with
    | tick ms => exact .same
    | call th req resp =>
      cases th with
      | submit k =>
        by_cases hrunning : ∃ task, p.fronts k = .running task
        · obtain ⟨task, htask⟩ := hrunning
          by_cases heq : i = k
          · subst heq
            have hfollow : frontsAfter p s (.call (.submit i) req resp) i =
                .follow task (p.system.submits i) (s.submits i) resp := by
              simp [frontsAfter, htask]
            rw [hfollow]
            exact .followed htask
          · have hother : frontsAfter p s (.call (.submit k) req resp) i = p.fronts i := by
              simp [frontsAfter, htask, heq]
            rw [hother]
            exact .same
        · have hnone : frontsAfter p s (.call (.submit k) req resp) i = p.fronts i := by
            cases hfront : p.fronts k with
            | running task => exact absurd ⟨task, hfront⟩ hrunning
            | _ => simp [frontsAfter, hfront]
          rw [hnone]
          exact .same
      | _ => exact .same

theorem Step.answers (he : Step cfg p (.front i answer) q) :
    (p.fronts i).Answers cfg p answer := by
  obtain ⟨m, hm, -⟩ := he.move
  rw [Platform.move] at hm
  split_ifs at hm with h
  exact h

theorem Step.front_self (he : Step cfg p (.front i answer) q) :
    q.fronts i = (p.fronts i).resume answer := by
  obtain ⟨m, hm, rfl⟩ := he.move
  rw [Platform.move] at hm
  split_ifs at hm
  cases hm
  exact Function.update_self i _ _

theorem Step.front_system (he : Step cfg p (.front i answer) q) : q.system = p.system := by
  rcases he.system with ⟨se, hse, -⟩ | ⟨-, hsame⟩
  · cases hse
  · exact hsame

theorem Step.follow_self {req : Request} {resp : Response} {task : Task}
    (he : Step cfg p (.system (.call (.submit i) req resp)) q)
    (hfront : p.fronts i = .running task) :
    q.fronts i = .follow task (p.system.submits i) (q.system.submits i) resp := by
  obtain ⟨m, hm, rfl⟩ := he.move
  rw [Platform.move] at hm
  split_ifs at hm
  obtain ⟨s, -, rfl⟩ := Option.map_eq_some_iff.mp hm
  simp [withStores, frontsAfter, hfront]

def smallPlatform : Config where
  service := smallService
  inference := ⟨3600, 3600, 86400⟩
  hashRequest := fnv1a

def admitted (i : ℕ) (userID : UserID) (header : String) (input : InferenceInput) : List Event :=
  [.submit i userID header input,
   .front i (.claimed ⟨.new, none⟩),
   .front i (.decided .proceed),
   .front i (.admitted true)]

def calls (l : List Service.Event) : List Event := l.map .system

def accepted (i : ℕ) (userID : UserID) (header : String) (input : InferenceInput) (job : JobID) :
    List Event :=
  admitted i userID header input ++ calls (submitted i job userID)

def hello : InferenceInput := ⟨"hello", "llama"⟩

end InferenceQueue.Platform

import InferenceQueue.SubmitProgress

namespace InferenceQueue.Platform

open Scheduler Service Idempotency Coalescing Redis

/-- Neither of the two keys is left claimed by a `Submit` of `task` that began in `p`. -/
structure LeavesNoClaim (cfg : Config) (task : Task) (p q : State) : Prop where
  record : ∀ r, q.idempotency.records.get q.clock task.idempotencyKey = some r →
    r.status ≠ .inFlight
  key : q.coalescing.get q.clock (task.coalescingKey cfg) ≠ none →
    p.coalescing.get p.clock (task.coalescingKey cfg) ≠ none

def NoCreatedRow (p q : State) : Prop :=
  ∀ j, Open q.system j → p.system.stores.jobs.lookup j ≠ none

def RecordExpired (cfg : Config) (p q : State) : Prop :=
  cfg.inference.idempotencyTTL = 0 ∨ p.clock + 1000 * cfg.inference.idempotencyTTL < q.clock

/-- `TryCoalesce` has taken a free key and its answer was lost. -/
def KeyLost (cfg : Config) (task : Task) (i : ℕ) (p : State) (tr : List Event) : Prop :=
  .front i (.failed true) ∈ tr ∧ cfg.inference.coalescingTTL ≠ 0 ∧
    p.coalescing.get p.clock (task.coalescingKey cfg) = none

variable {cfg : Config} {p q : State} {i : ℕ} {task : Task} {tr : List Event} {answer : Answer}

theorem fetch_newRecord {now : ℕ} :
    (∀ r, fetch now (newRecord cfg p) = some r → r.status ≠ .inFlight) ↔
      cfg.inference.idempotencyTTL = 0 ∨ p.clock + 1000 * cfg.inference.idempotencyTTL < now := by
  unfold newRecord expire
  by_cases httl : cfg.inference.idempotencyTTL = 0
  · simp [httl]
  · rw [if_neg httl, fetch_until]
    split_ifs with hlive
    · simp only [httl, false_or, not_lt.mpr hlive, iff_false]
      intro h
      exact h _ rfl rfl
    · simp [httl, not_le.mp hlive]

theorem held_afterRefusal_iff {keys : Coalescing.Store} {now : ℕ} (hle : p.clock ≤ now) :
    ((afterRefusal cfg task now answer keys).get now (task.coalescingKey cfg) ≠ none →
        keys.get p.clock (task.coalescingKey cfg) ≠ none) ↔
      ¬(answer = .failed true ∧ cfg.inference.coalescingTTL ≠ 0 ∧
        keys.get p.clock (task.coalescingKey cfg) = none) := by
  by_cases hfree : keys.get p.clock (task.coalescingKey cfg) = none
  · have hnow : keys.get now (task.coalescingKey cfg) = none := by
      by_contra hne
      obtain ⟨set, hset⟩ := Option.ne_none_iff_exists'.mp hne
      have hbefore : keys.get p.clock (task.coalescingKey cfg) = some set := fetch_earlier hle hset
      rw [hfree] at hbefore
      cases hbefore
    unfold afterRefusal
    by_cases hlost : answer = .failed true
    · rw [if_pos hlost]
      by_cases httl : cfg.inference.coalescingTTL = 0
      · have hsame : (tryCoalesce now 0 (task.coalescingKey cfg) keys).2 = keys := rfl
        rw [httl, hsame]
        simp [hnow]
      · rw [tryCoalesce_of_none httl hnow, Keyspace.get_put, if_pos rfl, fetch_until,
          if_pos (Nat.le_add_right _ _)]
        simp [hlost, httl, hfree]
    · rw [if_neg hlost]
      simp [hnow, hlost]
  · simp [hfree]

/-- Behind a refusal of `TryCoalesce` the record stays until it expires. -/
theorem leavesNoClaim_refused_iff (hle : p.clock ≤ q.clock)
    (honly : ∀ answer', .front i answer' ∈ tr ↔ answer' = answer)
    (hnew : q.idempotency.records.lookup task.idempotencyKey = newRecord cfg p)
    (hkeys : q.coalescing = afterRefusal cfg task q.clock answer p.coalescing) :
    LeavesNoClaim cfg task p q ↔ RecordExpired cfg p q ∧ ¬KeyLost cfg task i p tr := by
  have hrecord : (∀ r, q.idempotency.records.get q.clock task.idempotencyKey = some r →
      r.status ≠ .inFlight) ↔ RecordExpired cfg p q := by
    rw [Keyspace.get, hnew]
    exact fetch_newRecord
  have hkey : (q.coalescing.get q.clock (task.coalescingKey cfg) ≠ none →
      p.coalescing.get p.clock (task.coalescingKey cfg) ≠ none) ↔ ¬KeyLost cfg task i p tr := by
    rw [hkeys, held_afterRefusal_iff hle, KeyLost, honly]
    simp only [eq_comm]
  rw [← hrecord, ← hkey]
  exact ⟨fun h => ⟨h.record, h.key⟩, fun h => ⟨h.1, h.2⟩⟩

theorem clock_le_of_run (h : Run (Step cfg) p tr q) : p.clock ≤ q.clock := by
  refine h.history (fun _ q => p.clock ≤ q.clock) (le_refl _) ?_
  intro _ t e u hle he
  exact hle.trans he.clock_le

theorem submit_of_early {before : List Event} (h : Run (Step cfg) State.initial before p)
    (hearly : (p.fronts i).early = true) : p.system.submits i = .create := by
  refine h.history (fun _ p => (p.fronts i).early = true → p.system.submits i = .create)
    (fun _ => rfl) ?_ hearly
  intro _ t e u hinv he hearly
  obtain ⟨hbefore, hsame⟩ := he.early hearly
  exact hsame.trans (hinv hbefore)

theorem Progress.start {before : List Event} {p₁ : State}
    (h : Run (Step cfg) State.initial before p) (hclaim : p.fronts i = .claim task)
    (he : Step cfg p (.front i (.claimed ⟨.new, none⟩)) p₁) :
    Progress cfg p i task [] p₁ (p₁.fronts i) := by
  have hsubmit := submit_of_early h (by rw [hclaim]; rfl)
  have hop : idempotencyOp cfg p (.front i (.claimed ⟨.new, none⟩)) =
      some (.claimOrGet task.request.userID task.header cfg.inference.idempotencyTTL) := by
    simp [idempotencyOp, hclaim, Front.idempotencyOp]
  have hco : p₁.coalescing = p.coalescing :=
    he.coalescing_none (by simp [coalescingOp, hclaim, Front.coalescingOp])
  have hnone : p.idempotency.records.get p.clock task.idempotencyKey = none := by
    have hans := he.answers
    rw [hclaim] at hans
    cases hr : p.idempotency.records.get p.clock task.idempotencyKey with
    | none => rfl
    | some r =>
      have hclaimed : (⟨.new, none⟩ : IdempotencyResult) = ⟨r.status.action, r.jobID⟩ := by
        rw [show (⟨.new, none⟩ : IdempotencyResult) = _ from hans, claimOrGet_of_some hr]
      have haction := congrArg IdempotencyResult.action hclaimed
      cases hstatus : r.status <;> rw [hstatus] at haction <;> cases haction
  rw [he.front_self, hclaim]
  refine .coalesce ⟨?_, ?_⟩ ?_ hco (by simp)
  · rw [he.front_system, hsubmit]
  · rw [he.front_system]
  · rw [he.idempotency_some hop]
    change (claimOrGet p.clock task.request.userID task.header _
      p.idempotency).2.records.lookup _ = _
    rw [claimOrGet_of_none hnone]
    exact (Keyspace.lookup_put _ _ _ _).trans (if_pos rfl)

/-- A `Submit` that turned its request away has left no claim behind exactly when it got past
`TryCoalesce`, or its record ran out meanwhile and it did not lose the coalescing key. -/
theorem rejected_submit_leaves_no_claim_iff {before : List Event} {jobID : Option JobID} {ok : Bool}
    (hreach : Run (Step cfg) State.initial before p) (hclaim : p.fronts i = .claim task)
    (hrun : Run (Step cfg) p (.front i (.claimed ⟨.new, none⟩) :: tr) q)
    (hown : Throughout (Step cfg) p (.front i (.claimed ⟨.new, none⟩) :: tr) (Undisturbed i))
    (hreturned : q.fronts i = .returned task jobID ok) (hrow : NoCreatedRow p q) :
    LeavesNoClaim cfg task p q ↔ .front i (.decided .proceed) ∈ tr ∨
      (RecordExpired cfg p q ∧ ¬KeyLost cfg task i p tr) := by
  obtain ⟨p₁, he, hrest⟩ := Run.cons_iff.mp hrun
  have hle := clock_le_of_run hrun
  rw [← List.singleton_append] at hown
  have hprogress : Progress cfg p i task tr q (q.fronts i) := by
    refine hrest.guarded (fun tr t => Progress cfg p i task tr t (t.fronts i))
      (Progress.start hreach hclaim he) ?_ (hown.drop (Run.single he))
    intro tr t e u hinv hok he
    exact hinv.step hok he
  rw [hreturned] at hprogress
  cases hprogress with
  | refused hanswer honly hnew hkeys =>
    have hnot : .front i (.decided .proceed) ∉ tr := by
      rw [honly]
      exact fun heq => hanswer heq.symm
    rw [leavesNoClaim_refused_iff hle honly hnew hkeys]
    simp [hnot]
  | kept row => exact absurd row.1 (hrow _ row.2)
  | cleared hrecord hkey hproceed =>
    exact iff_of_true ⟨hrecord, fun hheld => absurd hkey hheld⟩ (Or.inl hproceed)

theorem noCreatedRow_iff : NoCreatedRow p q ↔ ∀ j ∈ q.system.stores.jobs.keys,
    Open q.system j → p.system.stores.jobs.lookup j ≠ none := by
  constructor
  · intro h j _
    exact h j
  · rintro h j ⟨row, hrow, hstatus⟩
    have hmem : j ∈ q.system.stores.jobs.keys := by
      rw [Finmap.mem_keys, ← Finmap.lookup_isSome, hrow]
      rfl
    exact h j hmem ⟨row, hrow, hstatus⟩

instance (p q : State) : Decidable (NoCreatedRow p q) := decidable_of_iff' _ noCreatedRow_iff

/-- Alice's job waits, and she sends the same text under a second key. -/
def secondKey : List Event :=
  accepted 0 alice "k1" hello job1 ++ [.submit 1 alice "k2" hello]

def secondTask : Task := ⟨⟨alice, "hello", "llama"⟩, "k2"⟩

def turnedAway : List Event := [.front 1 (.claimed ⟨.new, none⟩), .front 1 (.decided .rejected)]

theorem rejected_submit_leaves_claim :
    ∃ p q, Run (Step smallPlatform) State.initial secondKey p ∧
      p.fronts 1 = .claim secondTask ∧ Run (Step smallPlatform) p turnedAway q ∧
      Throughout (Step smallPlatform) p turnedAway (Undisturbed 1) ∧
      q.fronts 1 = .returned secondTask none false ∧ NoCreatedRow p q ∧
      ¬LeavesNoClaim smallPlatform secondTask p q := by
  obtain ⟨p, hp, hclaim, hok, hrest⟩ := Run.exists_of_foldlM (step smallPlatform) State.initial
    secondKey (fun p => p.fronts 1 = .claim secondTask ∧
      always (step smallPlatform) (Undisturbed 1) [] p turnedAway = true ∧
      ((turnedAway.foldlM (step smallPlatform) p).any fun q => decide (
        q.fronts 1 = .returned secondTask none false ∧ NoCreatedRow p q ∧
        (q.idempotency.records.get q.clock secondTask.idempotencyKey).map Record.status =
          some .inFlight)) = true) (by decide +kernel)
  obtain ⟨q, hq, hreturned, hrow, hrecord⟩ := Run.exists_of_foldlM _ p _ _ hrest
  refine ⟨p, q, hp, hclaim, hq, throughout_of_always hok, hreturned, hrow, fun hleaves => ?_⟩
  obtain ⟨r, hr, hstatus⟩ := Option.map_eq_some_iff.mp hrecord
  exact hleaves.record r hr hstatus

def shortDeadline : List Event :=
  [.front 1 (.decided .proceed), .system (.tick 5), .front 1 (.admitted true)] ++
    calls [.call (.submit 1) (.create job2 bob) (.result (.ok ())),
      .call (.submit 1) (.external (.setJobID job2)) (.flag true),
      .call (.submit 1) (.external .deadline) (.flag false),
      .call (.submit 1) (.markSelect .failed job2) (.result (.ok ())),
      .call (.submit 1) (.markUpdate .failed job2 0) (.result (.ok ())),
      .call (.submit 1) (.external (.transitionStatus job2 .failed)) (.flag true)] ++
    [.front 1 .deleted]

def shortTask : Task := ⟨⟨bob, "hello", "llama"⟩, "k"⟩

theorem rejected_submit_leaves_no_claim_short_deadline :
    ∃ p q, Run (Step smallPlatform) p (.front 1 (.claimed ⟨.new, none⟩) :: shortDeadline) q ∧
      q.fronts 1 = .returned shortTask none false ∧ LeavesNoClaim smallPlatform shortTask p q := by
  obtain ⟨p, hp, hclaim, hok, hrest⟩ := Run.exists_of_foldlM (step smallPlatform) State.initial
    [.submit 1 bob "k" hello] (fun p => p.fronts 1 = .claim shortTask ∧
      always (step smallPlatform) (Undisturbed 1) [] p
        (.front 1 (.claimed ⟨.new, none⟩) :: shortDeadline) = true ∧
      (((.front 1 (.claimed ⟨.new, none⟩) :: shortDeadline).foldlM
        (step smallPlatform) p).any fun q => decide (
          q.fronts 1 = .returned shortTask none false ∧ NoCreatedRow p q)) = true)
    (by decide +kernel)
  obtain ⟨q, hq, hreturned, hrow⟩ := Run.exists_of_foldlM _ p _ _ hrest
  refine ⟨p, q, hq, hreturned, ?_⟩
  exact (rejected_submit_leaves_no_claim_iff hp hclaim hq (throughout_of_always hok) hreturned
    hrow).mpr (Or.inl (by simp [shortDeadline]))

end InferenceQueue.Platform

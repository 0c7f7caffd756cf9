import InferenceQueue.OAuthModel

namespace InferenceQueue.Auth

open Redis

def Stage.proceeded : Stage → Bool
  | existsState => false
  | deleteState => false
  | rejected _ => false
  | _ => true

def UsedOnce (s : State) : Prop :=
  ∀ (i j : ℕ) (c d : Callback), s.callbacks[i]? = some c → s.callbacks[j]? = some d →
    c.state = d.state → c.stage.proceeded = true → d.stage.proceeded = true → i = j

/-- A state parameter is found only while no callback that found it has yet to delete it, and every
deletion is carried out. -/
def ConsumedAtOnce (_ : List Event) (s : State) : Event → Prop
  | .call i .found =>
    ∀ c ∈ s.callbacks[i]?, ∀ d ∈ s.callbacks, d.state = c.state → d.stage ≠ .deleteState
  | .call i reply => ∀ c ∈ s.callbacks[i]?, c.stage = .deleteState → reply.applied = true
  | _ => True

instance (past : List Event) (s : State) (e : Event) : Decidable (ConsumedAtOnce past s e) := by
  induction e using Event.casesOn with
  | call i reply =>
    induction reply using Reply.casesOn <;> dsimp only [ConsumedAtOnce] <;> infer_instance
  | _ => dsimp only [ConsumedAtOnce]; infer_instance

section

variable {s t : State} {e : Event} {i : ℕ} {reply : Reply} {c : Callback} {past : List Event}
  {stage next : Stage} {state : String}

theorem stateKey_inj {provider state state' : String}
    (h : stateKey provider state = stateKey provider state') : state = state' := by
  unfold stateKey at h
  exact String.append_right_inj _ |>.mp h

theorem getState_store (s : State) (state state' : String) (ttl : ℕ) :
    (s.store state ttl).getState state' =
      if state' = state then fetch s.clock (expire s.clock ttl "1") else s.getState state' := by
  unfold State.store State.getState
  dsimp only
  rw [Keyspace.get_put]
  by_cases h : state' = state
  · simp [h]
  · rw [if_neg h, if_neg (fun hkey => h (stateKey_inj hkey))]

theorem getState_delete (s : State) (state state' : String) :
    (s.delete state).getState state' = if state' = state then none else s.getState state' := by
  unfold State.delete State.getState
  dsimp only
  rw [Keyspace.get_put]
  by_cases h : state' = state
  · simp [h]
  · rw [if_neg h, if_neg (fun hkey => h (stateKey_inj hkey))]

theorem Moves.getState (h : Moves s i reply c next t) (state : String) :
    t.getState state = s.getState state ∨
      (c.stage = .deleteState ∧ t.getState state = (s.delete c.state).getState state) := by
  unfold State.getState
  rw [h.clock]
  rcases h.states with heq | ⟨hstage, heq⟩
  · exact Or.inl (by rw [heq])
  · exact Or.inr ⟨hstage, by rw [heq]; rfl⟩

theorem Step.getState (h : Step s e t) (hfound : t.getState state ≠ none) :
    s.getState state ≠ none ∨ (state ∉ s.generated ∧ state ∈ t.generated) := by
  cases e with
  | tick ms =>
    obtain rfl := Option.some.inj h
    obtain ⟨value, hvalue⟩ := Option.ne_none_iff_exists'.mp hfound
    have hbefore := fetch_earlier (Nat.le_add_right s.clock ms) hvalue
    exact Or.inl (Option.ne_none_iff_exists'.mpr ⟨value, hbefore⟩)
  | generateAuthURL drawn stored =>
    simp only [Step, Fires, step] at h
    split_ifs at h with hnew hstored
    · obtain rfl := Option.some.inj h
      rw [getState_store] at hfound
      by_cases hdrawn : state = drawn
      · subst hdrawn
        exact Or.inr ⟨hnew, List.mem_cons_self⟩
      · rw [if_neg hdrawn] at hfound
        exact Or.inl hfound
    · obtain rfl := Option.some.inj h
      exact Or.inl hfound
  | handleCallback _ | abort _ =>
    obtain rfl := Option.some.inj h
    exact Or.inl hfound
  | call i reply =>
    obtain ⟨c, next, hmoves⟩ := Step.moves h
    left
    rcases hmoves.getState state with heq | ⟨-, heq⟩
    · rwa [heq] at hfound
    · rw [heq, getState_delete] at hfound
      split_ifs at hfound with hstate
      · exact absurd rfl hfound
      · exact hfound

theorem Step.generated (h : Step s e t) : s.generated ⊆ t.generated := by
  cases e with
  | generateAuthURL drawn stored =>
    simp only [Step, Fires, step] at h
    split_ifs at h with hnew hstored <;> obtain rfl := Option.some.inj h <;>
      exact List.subset_cons_self _ _
  | call i reply =>
    obtain ⟨c, next, hmoves⟩ := Step.moves h
    rw [hmoves.generated]
    exact List.Subset.refl _
  | _ =>
    obtain rfl := Option.some.inj h
    exact List.Subset.refl _

def Stage.found (stage : Stage) : Prop := stage = .deleteState ∨ stage.proceeded = true

theorem Stage.not_found_rejected {err : GoError} : ¬(Stage.rejected err).found := by
  simp [found, proceeded]

theorem Stage.found_resume (h : stage.resume reply = some next) (hnext : next.found) :
    stage.found ∨ (stage = .existsState ∧ reply = .found) := by
  cases stage with
  | existsState =>
    cases reply with
    | found => exact Or.inr ⟨rfl, rfl⟩
    | missing | failed =>
      obtain rfl := Option.some.inj h
      exact absurd hnext not_found_rejected
    | _ => cases h
  | deleteState => exact Or.inl (Or.inl rfl)
  | rejected err => cases h
  | _ => exact Or.inl (Or.inr rfl)

theorem Stage.proceeded_resume (h : stage.resume reply = some next)
    (hnext : next.proceeded = true) : stage.found := by
  rcases found_resume h (Or.inr hnext) with hfound | ⟨rfl, rfl⟩
  · exact hfound
  · obtain rfl := Option.some.inj h
    cases hnext

structure Guarded (s : State) : Prop where
  stored : ∀ state, s.getState state ≠ none → state ∈ s.generated
  drawn : ∀ c ∈ s.callbacks, c.stage.found → c.state ∈ s.generated
  spent : ∀ c ∈ s.callbacks, c.stage.proceeded = true → s.getState c.state = none
  single : ∀ (i j : ℕ) (c d : Callback), s.callbacks[i]? = some c → s.callbacks[j]? = some d →
    c.state = d.state → c.stage.found → d.stage.found → i = j

theorem Guarded.initial (db : Database) : Guarded (.initial db) := by
  constructor
  · intro state h
    exact absurd (Keyspace.get_empty _ _) h
  all_goals simp [State.initial]

theorem Guarded.stored_step (h : Guarded s) (he : Step s e t) (hfound : t.getState state ≠ none) :
    state ∈ t.generated := by
  rcases Step.getState he hfound with hbefore | ⟨-, hnew⟩
  · exact Step.generated he (h.stored state hbefore)
  · exact hnew

theorem Step.found_cases {d : Callback} (he : Step s e t) (hd : t.callbacks[i]? = some d)
    (hfound : d.stage.found) :
    (∃ c, s.callbacks[i]? = some c ∧ c.state = d.state ∧ c.stage.found) ∨
      (e = .call i .found ∧ s.getState d.state ≠ none ∧
        ∃ c, s.callbacks[i]? = some c ∧ c.state = d.state) := by
  -- a callback that has found its state parameter had found it before, or finds it now
  rcases Step.callback_cases he hd with ⟨hold, -⟩ | hnew | ⟨reply, c, rfl, hstate, hmoves⟩
  · exact Or.inl ⟨d, hold, rfl, hfound⟩
  · rw [hnew] at hfound
    simp [Stage.found, Stage.proceeded] at hfound
  · rcases Stage.found_resume hmoves.resumed hfound with hbefore | ⟨hstage, rfl⟩
    · exact Or.inl ⟨c, hmoves.at_call, hstate.symm, hbefore⟩
    · have hanswer := hmoves.answered
      rw [hstage] at hanswer
      rw [hstate]
      exact Or.inr ⟨rfl, hanswer, c, hmoves.at_call, rfl⟩

theorem Guarded.drawn_step (h : Guarded s) (he : Step s e t) (hc : c ∈ t.callbacks)
    (hfound : c.stage.found) : c.state ∈ t.generated := by
  obtain ⟨i, hi⟩ := List.mem_iff_getElem?.mp hc
  apply Step.generated he
  rcases Step.found_cases he hi hfound with ⟨d, hd, hstate, hbefore⟩ | ⟨-, hget, -⟩
  · rw [← hstate]
    exact h.drawn d (List.mem_of_getElem? hd) hbefore
  · exact h.stored c.state hget

/-- A drawn state parameter that is gone stays away. -/
theorem Step.getState_eq_none (he : Step s e t) (hdrawn : state ∈ s.generated)
    (hnone : s.getState state = none) : t.getState state = none := by
  by_contra hfound
  rcases Step.getState he hfound with hbefore | ⟨hnew, -⟩
  · exact hbefore hnone
  · exact hnew hdrawn

theorem Guarded.spent_step (h : Guarded s) (hok : ConsumedAtOnce past s e) (he : Step s e t)
    (hc : c ∈ t.callbacks) (hproceeded : c.stage.proceeded = true) :
    t.getState c.state = none := by
  obtain ⟨i, hi⟩ := List.mem_iff_getElem?.mp hc
  have hkeep : ∀ d, s.callbacks[i]? = some d → d.stage.proceeded = true →
      t.getState d.state = none := by
    intro d hd hbefore
    have hmem := List.mem_of_getElem? hd
    exact Step.getState_eq_none he (h.drawn d hmem (Or.inr hbefore)) (h.spent d hmem hbefore)
  rcases Step.callback_cases he hi with ⟨hold, -⟩ | hnew | ⟨reply, d, rfl, hstate, hmoves⟩
  · exact hkeep c hold hproceeded
  · rw [hnew] at hproceeded
    cases hproceeded
  · rw [hstate]
    rcases Stage.proceeded_resume hmoves.resumed hproceeded with hdelete | hbefore
    · -- it has just deleted it
      have happlied : reply.applied = true := by
        cases reply with
        | found => rfl
        | _ => exact hok d hmoves.at_call hdelete
      have hstates := hmoves.deleted hdelete happlied
      unfold State.getState
      rw [hstates, hmoves.clock]
      have hgone := getState_delete s d.state d.state
      rwa [if_pos rfl] at hgone
    · exact hkeep d hmoves.at_call hbefore

/-- A callback cannot find what another one has found before. -/
theorem Guarded.alone {d : Callback} {j : ℕ} (h : Guarded s)
    (hok : ConsumedAtOnce past s (.call i .found)) (hc : s.callbacks[i]? = some c)
    (hget : s.getState c.state ≠ none) (hd : s.callbacks[j]? = some d)
    (hstate : d.state = c.state) : ¬d.stage.found := by
  have hmem := List.mem_of_getElem? hd
  rintro (hdelete | hproceeded)
  · exact hok c hc d hmem hstate hdelete
  · rw [← hstate] at hget
    exact hget (h.spent d hmem hproceeded)

theorem Guarded.single_step {j : ℕ} {d : Callback} (h : Guarded s) (hok : ConsumedAtOnce past s e)
    (he : Step s e t) (hc : t.callbacks[i]? = some c) (hd : t.callbacks[j]? = some d)
    (hstate : c.state = d.state) (hfound : c.stage.found) (hfound' : d.stage.found) : i = j := by
  rcases Step.found_cases he hc hfound with ⟨c', hc', hcs, hbefore⟩ | ⟨hi, hget, c', hc', hcs⟩ <;>
    rcases Step.found_cases he hd hfound' with ⟨d', hd', hds, hbefore'⟩ | ⟨hj, hget', d', hd', hds⟩
  · exact h.single i j c' d' hc' hd' (by rw [hcs, hds, hstate]) hbefore hbefore'
  · subst hj
    rw [← hds] at hget'
    exact absurd hbefore (h.alone hok hd' hget' hc' (by rw [hcs, hds, hstate]))
  · subst hi
    rw [← hcs] at hget
    exact absurd hbefore' (h.alone hok hc' hget hd' (by rw [hcs, hds, hstate]))
  · rw [hi] at hj
    cases hj
    rfl

theorem Guarded.step (h : Guarded s) (hok : ConsumedAtOnce past s e) (he : Step s e t) :
    Guarded t where
  stored _ hfound := h.stored_step he hfound
  drawn _ hc hfound := h.drawn_step he hc hfound
  spent _ hc hproceeded := h.spent_step hok he hc hproceeded
  single _ _ _ _ hc hd := h.single_step hok he hc hd

end

/-- Where checks and deletions do not mix, no state parameter serves twice. -/
theorem state_used_once {db : Database} {tr : List Event} {s : State}
    (h : Run Step (.initial db) tr s)
    (hok : Throughout Step (.initial db) tr ConsumedAtOnce) : UsedOnce s := by
  have hguarded : Guarded s := by
    refine h.guarded (fun _ => Guarded) (Guarded.initial db) ?_ hok
    intro past t e u hinv hconsumed he
    exact hinv.step hconsumed he
  intro i j c d hc hd hstate hproceeded hproceeded'
  exact hguarded.single i j c d hc hd hstate (Or.inr hproceeded) (Or.inr hproceeded')

/-- Both callbacks find the state parameter before either deletes it. No call fails. -/
def doubleCallback : List Event :=
  [.generateAuthURL "xyz" true, .handleCallback "xyz", .handleCallback "xyz", .call 0 .found,
    .call 1 .found, .call 0 .done, .call 1 .done]

theorem state_used_twice :
    ∃ s, Run Step (.initial ⟨[], []⟩) doubleCallback s ∧ ¬UsedOnce s := by
  obtain ⟨s, hrun, hzero, hone⟩ := Run.exists_of_foldlM step (.initial ⟨[], []⟩) doubleCallback
    (fun s => s.callbacks[0]? = some ⟨"xyz", .exchangeCode⟩ ∧
      s.callbacks[1]? = some ⟨"xyz", .exchangeCode⟩) (by decide +kernel)
  refine ⟨s, hrun, fun honce => ?_⟩
  exact absurd (honce 0 1 _ _ hzero hone rfl rfl rfl) Nat.zero_ne_one

/-- The second callback comes after the deletion, whose answer is lost. -/
def lateCallback : List Event :=
  [.generateAuthURL "xyz" true, .handleCallback "xyz", .handleCallback "xyz", .call 0 .found,
    .call 0 (.failed (.sentinel .contextDeadlineExceeded) true), .call 1 .missing]

theorem state_used_once_late :
    ∃ s, Run Step (.initial ⟨[], []⟩) lateCallback s ∧
      s.callbacks[0]? = some ⟨"xyz", .exchangeCode⟩ ∧ UsedOnce s := by
  obtain ⟨s, hrun, hzero⟩ := Run.exists_of_foldlM step (.initial ⟨[], []⟩) lateCallback
    (fun s => s.callbacks[0]? = some ⟨"xyz", .exchangeCode⟩) (by decide +kernel)
  exact ⟨s, hrun, hzero, state_used_once hrun (throughout_of_always (by decide +kernel))⟩

end InferenceQueue.Auth

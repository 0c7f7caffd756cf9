import Mathlib.Data.List.Induction

namespace InferenceQueue

variable {σ τ ε : Type*}

theorem filterMap_snoc {δ : Type*} (f : ε → Option δ) (tr : List ε) (e : ε) :
    (tr ++ [e]).filterMap f = tr.filterMap f ++ (f e).toList := by
  rw [List.filterMap_append]
  cases hf : f e <;> simp [hf]

theorem getElem?_set_cases {l : List ε} {i j : ℕ} {a b x : ε} (hi : l[i]? = some a)
    (hx : (l.set i b)[j]? = some x) : (j = i ∧ x = b) ∨ (j ≠ i ∧ l[j]? = some x) := by
  by_cases hj : j = i
  · subst hj
    have hlt : j < l.length := (List.getElem?_eq_some_iff.mp hi).1
    rw [List.getElem?_set_self hlt] at hx
    exact Or.inl ⟨rfl, (Option.some.inj hx).symm⟩
  · rw [List.getElem?_set_ne (Ne.symm hj)] at hx
    exact Or.inr ⟨hj, hx⟩

theorem getElem?_concat_cases {l : List ε} {j : ℕ} {b x : ε} (hx : (l ++ [b])[j]? = some x) :
    l[j]? = some x ∨ (j = l.length ∧ x = b) := by
  by_cases hlt : j < l.length
  · rw [List.getElem?_append_left hlt] at hx
    exact Or.inl hx
  · rw [List.getElem?_append_right (Nat.le_of_not_lt hlt)] at hx
    obtain ⟨hlen, heq⟩ := List.getElem?_eq_some_iff.mp hx
    rw [List.length_singleton] at hlen
    refine Or.inr ⟨by omega, ?_⟩
    obtain rfl := List.mem_singleton.mp (List.mem_of_getElem? hx)
    rfl

/-- A finite run of `step` from `s`, its events in the order they happened. -/
inductive Run (step : σ → ε → σ → Prop) (s : σ) : List ε → σ → Prop
  | nil : Run step s [] s
  | snoc {tr t e u} : Run step s tr t → step t e u → Run step s (tr ++ [e]) u

namespace Run

variable {step : σ → ε → σ → Prop} {s t u : σ} {tr tr' : List ε}

theorem single {e : ε} (h : step s e t) : Run step s [e] t := by
  simpa using snoc nil h

theorem append (h : Run step s tr t) (h' : Run step t tr' u) : Run step s (tr ++ tr') u := by
  induction h' with
  | nil => simpa using h
  | snoc _ he ih =>
    rw [← List.append_assoc]
    exact ih.snoc he

theorem mono {step' : σ → ε → σ → Prop} (h : Run step s tr t)
    (hstep : ∀ e ∈ tr, ∀ t u, step t e u → step' t e u) : Run step' s tr t := by
  induction h with
  | nil => exact nil
  | snoc _ he ih =>
    have hpast := ih fun e he => hstep e (List.mem_append_left _ he)
    exact hpast.snoc (hstep _ (by simp) _ _ he)

/-- What holds at the start and is kept by every step holds at the end, also of the events so
far. -/
theorem history (I : List ε → σ → Prop) (hs : I [] s)
    (hstep : ∀ tr t e u, I tr t → step t e u → I (tr ++ [e]) u) (h : Run step s tr t) :
    I tr t := by
  induction h with
  | nil => exact hs
  | snoc _ he ih => exact hstep _ _ _ _ ih he

theorem nil_iff : Run step s [] t ↔ t = s := by
  constructor
  · intro h
    generalize htr : ([] : List ε) = tr at h
    cases h with
    | nil => rfl
    | snoc _ _ => simp at htr
  · rintro rfl
    exact nil

theorem snoc_iff {e : ε} : Run step s (tr ++ [e]) u ↔ ∃ t, Run step s tr t ∧ step t e u := by
  constructor
  · intro h
    generalize htr : tr ++ [e] = l at h
    cases h with
    | nil => simp at htr
    | snoc h he =>
      obtain ⟨rfl, rfl⟩ := List.append_inj' htr rfl |>.imp id List.cons.inj |>.imp id And.left
      exact ⟨_, h, he⟩
  · rintro ⟨t, h, he⟩
    exact h.snoc he

theorem append_iff : Run step s (tr ++ tr') u ↔ ∃ t, Run step s tr t ∧ Run step t tr' u := by
  constructor
  · intro h
    induction tr' using List.reverseRecOn generalizing u with
    | nil => exact ⟨u, by simpa using h, nil⟩
    | append_singleton tr' e ih =>
      rw [← List.append_assoc] at h
      obtain ⟨t', h', he⟩ := snoc_iff.mp h
      obtain ⟨t, h₁, h₂⟩ := ih h'
      exact ⟨t, h₁, h₂.snoc he⟩
  · rintro ⟨t, h, h'⟩
    exact h.append h'

theorem cons_iff {e : ε} : Run step s (e :: tr) u ↔ ∃ t, step s e t ∧ Run step t tr u := by
  rw [← List.singleton_append, append_iff]
  constructor
  · rintro ⟨t, h, h'⟩
    obtain ⟨s', hs', he⟩ := snoc_iff.mp (show Run step s ([] ++ [e]) t from h)
    rw [nil_iff] at hs'
    exact ⟨t, hs' ▸ he, h'⟩
  · rintro ⟨t, he, h'⟩
    exact ⟨t, single he, h'⟩

/-- A forward simulation carries runs over; `f` says which events remain visible. -/
theorem simulate {δ : Type*} {step' : τ → δ → τ → Prop} (R : σ → τ → Prop) (f : ε → Option δ)
    (hstep : ∀ t e u t', step t e u → R t t' →
      ∃ u', R u u' ∧ Run step' t' ((f e).toList) u')
    (h : Run step s tr t) {s' : τ} (hs : R s s') :
    ∃ t', R t t' ∧ Run step' s' (tr.filterMap f) t' := by
  induction h with
  | nil => exact ⟨s', hs, nil⟩
  | snoc _ he ih =>
    obtain ⟨t', ht, h'⟩ := ih
    obtain ⟨u', hu, he'⟩ := hstep _ _ _ _ he ht
    refine ⟨u', hu, ?_⟩
    rw [filterMap_snoc]
    exact h'.append he'

end Run

def Fires (step : σ → ε → Option σ) (s : σ) (e : ε) (t : σ) : Prop := step s e = some t

theorem Run.unique {step : σ → ε → Option σ} {s t t' : σ} {tr : List ε}
    (h : Run (Fires step) s tr t) (h' : Run (Fires step) s tr t') : t = t' := by
  induction h generalizing t' with
  | nil => exact (nil_iff.mp h').symm
  | snoc _ he ih =>
    obtain ⟨u, hu, he'⟩ := snoc_iff.mp h'
    obtain rfl := ih hu
    exact Option.some.inj (he.symm.trans he')

theorem Run.rest {step : σ → ε → Option σ} {s t u : σ} {past rest : List ε}
    (h : Run (Fires step) s (past ++ rest) u) (hpast : Run (Fires step) s past t) :
    Run (Fires step) t rest u := by
  obtain ⟨t', hpast', hrest⟩ := append_iff.mp h
  obtain rfl := hpast.unique hpast'
  exact hrest

theorem Run.of_foldlM {step : σ → ε → Option σ} {s t : σ} {tr : List ε}
    (h : tr.foldlM step s = some t) : Run (Fires step) s tr t := by
  induction tr using List.reverseRecOn generalizing t with
  | nil =>
    obtain rfl : s = t := by simpa using h
    exact nil
  | append_singleton tr e ih =>
    rw [List.foldlM_append, Option.bind_eq_bind, Option.bind_eq_some_iff] at h
    obtain ⟨u, hu, he⟩ := h
    exact (ih hu).snoc (by simpa [Fires] using he)

theorem Run.exists_of_foldlM (step : σ → ε → Option σ) (s : σ) (tr : List ε) (P : σ → Prop)
    [DecidablePred P] (h : ((tr.foldlM step s).any fun t => decide (P t)) = true) :
    ∃ t, Run (Fires step) s tr t ∧ P t := by
  cases ht : tr.foldlM step s with
  | none => simp [ht] at h
  | some t => exact ⟨t, Run.of_foldlM ht, by simpa [ht] using h⟩

/-- Every event of the run meets `ok` in the state it happens in, after the events before it. -/
def Throughout (step : σ → ε → σ → Prop) (s : σ) (tr : List ε) (ok : List ε → σ → ε → Prop) :
    Prop :=
  ∀ past e rest t, tr = past ++ e :: rest → Run step s past t → ok past t e

theorem Throughout.take {step : σ → ε → σ → Prop} {s : σ} {past rest : List ε}
    {ok : List ε → σ → ε → Prop} (h : Throughout step s (past ++ rest) ok) :
    Throughout step s past ok := by
  intro before e after t heq
  exact h before e (after ++ rest) t (by simp [heq])

theorem Throughout.drop {step : σ → ε → σ → Prop} {s t : σ} {past rest : List ε}
    {ok : List ε → σ → ε → Prop} (h : Throughout step s (past ++ rest) ok)
    (hpast : Run step s past t) : Throughout step t rest fun tr => ok (past ++ tr) := by
  intro before e after u heq hrun
  exact h (past ++ before) e after u (by simp [heq]) (hpast.append hrun)

theorem Throughout.tail {step : σ → ε → σ → Prop} {s t : σ} {e : ε} {tr : List ε}
    {ok : List ε → σ → ε → Prop} (h : Throughout step s (e :: tr) ok) (he : step s e t) :
    Throughout step t tr fun past => ok (e :: past) := by
  intro past e' rest u heq hrun
  exact h (e :: past) e' rest u (by rw [heq]; rfl) (Run.cons_iff.mpr ⟨t, he, hrun⟩)

theorem Throughout.of_forall {step : σ → ε → σ → Prop} {s : σ} {tr : List ε} {p : ε → Prop}
    (h : ∀ e ∈ tr, p e) : Throughout step s tr fun _ _ e => p e := by
  intro past e rest t heq _
  exact h e (by simp [heq])

theorem Throughout.and {step : σ → ε → σ → Prop} {s : σ} {tr : List ε}
    {ok ok' : List ε → σ → ε → Prop} (h : Throughout step s tr ok)
    (h' : Throughout step s tr ok') :
    Throughout step s tr fun past t e => ok past t e ∧ ok' past t e :=
  fun past e rest t heq hrun => ⟨h past e rest t heq hrun, h' past e rest t heq hrun⟩

theorem Throughout.cons {step : σ → ε → Option σ} {s t : σ} {e : ε} {tr : List ε}
    {ok : List ε → σ → ε → Prop} (he : Fires step s e t) (hok : ok [] s e)
    (h : Throughout (Fires step) t tr fun past => ok (e :: past)) :
    Throughout (Fires step) s (e :: tr) ok := by
  intro past e' rest v heq hrun
  cases past with
  | nil =>
    obtain ⟨rfl, -⟩ := List.cons.inj heq
    rw [Run.nil_iff] at hrun
    rwa [hrun]
  | cons a past =>
    obtain ⟨rfl, htr⟩ := List.cons.inj heq
    obtain ⟨t', ht', hrest⟩ := Run.cons_iff.mp hrun
    obtain rfl : t = t' := Option.some.inj (he.symm.trans ht')
    exact h past e' rest v htr hrest

/-- What holds at the start and is kept by every step that meets `ok` holds at the end. -/
theorem Run.guarded {step : σ → ε → σ → Prop} {s t : σ} {tr : List ε}
    {ok : List ε → σ → ε → Prop} (I : List ε → σ → Prop) (hs : I [] s)
    (hstep : ∀ tr t e u, I tr t → ok tr t e → step t e u → I (tr ++ [e]) u)
    (h : Run step s tr t) (hok : Throughout step s tr ok) : I tr t := by
  induction h with
  | nil => exact hs
  | @snoc tr t e u h he ih =>
    exact hstep _ _ _ _ (ih hok.take) (hok tr e [] t rfl h) he

theorem Throughout.of_invariant {step : σ → ε → Option σ} {s v : σ} {tr : List ε}
    {ok ok' : List ε → σ → ε → Prop} (I : List ε → σ → Prop) (hs : I [] s)
    (hstep : ∀ tr t e u, I tr t → ok tr t e → Fires step t e u → I (tr ++ [e]) u)
    (himp : ∀ tr t e u, I tr t → ok tr t e → Fires step t e u → ok' tr t e)
    (h : Run (Fires step) s tr v) (hok : Throughout (Fires step) s tr ok) :
    Throughout (Fires step) s tr ok' := by
  intro past e rest t heq hpast
  subst heq
  obtain ⟨u, he, -⟩ := Run.cons_iff.mp (h.rest hpast)
  have hinv := hpast.guarded I hs hstep hok.take
  exact himp past t e u hinv (hok past e rest t rfl hpast) he

def always (step : σ → ε → Option σ) (ok : List ε → σ → ε → Prop)
    [∀ tr t e, Decidable (ok tr t e)] (past : List ε) (s : σ) : List ε → Bool
  | [] => true
  | e :: tr => decide (ok past s e) &&
    match step s e with
    | some t => always step ok (past ++ [e]) t tr
    | none => true

theorem throughout_of_always {step : σ → ε → Option σ} {ok : List ε → σ → ε → Prop}
    [∀ tr t e, Decidable (ok tr t e)] {s : σ} {tr : List ε}
    (h : always step ok [] s tr = true) : Throughout (Fires step) s tr ok := by
  suffices hgen : ∀ before, always step ok before s tr = true →
      ∀ past e rest t, tr = past ++ e :: rest → Run (Fires step) s past t →
        ok (before ++ past) t e from hgen [] h
  clear h
  induction tr generalizing s with
  | nil => simp
  | cons a tr ih =>
    intro before h past e rest t heq hrun
    rw [always, Bool.and_eq_true, decide_eq_true_eq] at h
    cases past with
    | nil =>
      obtain ⟨rfl, -⟩ := List.cons.inj heq
      rw [Run.nil_iff] at hrun
      simpa [hrun] using h.1
    | cons b past =>
      obtain ⟨rfl, htr⟩ := List.cons.inj heq
      obtain ⟨s', hs', hrun'⟩ := Run.cons_iff.mp hrun
      have hnext : always step ok (before ++ [a]) s' tr = true := by
        have h' := h.2
        rw [show step s a = some s' from hs'] at h'
        exact h'
      simpa using ih (before ++ [a]) hnext past e rest t htr hrun'

/-- A state, and what was noted down on the way to it. -/
structure Logged (σ ω : Type*) where
  state : σ
  log : List ω

def loggedStep {ω : Type*} (step : σ → ε → Option σ) (note : σ → ε → Option ω)
    (a : Logged σ ω) (e : ε) : Option (Logged σ ω) :=
  (step a.state e).map fun t => ⟨t, a.log ++ (note a.state e).toList⟩

theorem loggedStep_inv {ω : Type*} {step : σ → ε → Option σ} {note : σ → ε → Option ω}
    {a b : Logged σ ω} {e : ε} (h : Fires (loggedStep step note) a e b) :
    Fires step a.state e b.state ∧ b.log = a.log ++ (note a.state e).toList := by
  obtain ⟨t, ht, rfl⟩ := Option.map_eq_some_iff.mp h
  exact ⟨ht, rfl⟩

section

variable {ω : Type*} {start stop start' stop' : ω → Prop} {log : List ω}

/-- Something in the list meets `start`, and nothing after it meets `stop`. -/
def Since (start stop : ω → Prop) (log : List ω) : Prop :=
  ∃ before n after, log = before ++ n :: after ∧ start n ∧ ∀ m ∈ after, ¬stop m

theorem not_since_nil : ¬Since start stop [] := by
  rintro ⟨before, n, after, heq, -⟩
  simp at heq

theorem since_snoc {n : ω} :
    Since start stop (log ++ [n]) ↔ start n ∨ (Since start stop log ∧ ¬stop n) := by
  constructor
  · rintro ⟨before, m, after, heq, hm, hafter⟩
    cases after using List.reverseRecOn with
    | nil =>
      obtain ⟨-, rfl⟩ := List.append_inj' heq rfl |>.imp id List.cons.inj |>.imp id And.left
      exact Or.inl hm
    | append_singleton after k =>
      rw [← List.cons_append, ← List.append_assoc] at heq
      obtain ⟨rfl, rfl⟩ := List.append_inj' heq rfl |>.imp id List.cons.inj |>.imp id And.left
      right
      exact ⟨⟨before, m, after, rfl, hm, fun l hl => hafter l (by simp [hl])⟩, hafter _ (by simp)⟩
  · rintro (hn | ⟨⟨before, m, after, rfl, hm, hafter⟩, hn⟩)
    · exact ⟨log, n, [], rfl, hn, by simp⟩
    · refine ⟨before, m, after ++ [n], by simp, hm, ?_⟩
      intro l hl
      rcases List.mem_append.mp hl with hl | hl
      · exact hafter l hl
      · rwa [List.mem_singleton.mp hl]

theorem since_congr (hstart : ∀ n ∈ log, start n ↔ start' n)
    (hstop : ∀ n ∈ log, stop n ↔ stop' n) : Since start stop log ↔ Since start' stop' log := by
  have hmem : ∀ {before n after}, log = before ++ n :: after → n ∈ log ∧ ∀ m ∈ after, m ∈ log := by
    rintro before n after rfl
    exact ⟨by simp, fun m hm => by simp [hm]⟩
  constructor <;> rintro ⟨before, n, after, heq, hn, hafter⟩ <;>
    refine ⟨before, n, after, heq, ?_, fun m hm => ?_⟩
  · exact (hstart n (hmem heq).1).mp hn
  · exact fun h => hafter m hm ((hstop m ((hmem heq).2 m hm)).mpr h)
  · exact (hstart n (hmem heq).1).mpr hn
  · exact fun h => hafter m hm ((hstop m ((hmem heq).2 m hm)).mp h)

end

end InferenceQueue

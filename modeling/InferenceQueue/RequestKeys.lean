import InferenceQueue.CoalescingModel

namespace InferenceQueue.Coalescing

/-- The prompt of `x` goes beyond the one of `y` by a colon and a text with which the model of `y`
begins, and what follows it there is the model of `x`. -/
def Shifted (x y : InferenceInput) : Prop :=
  ∃ text, x.prompt = y.prompt ++ ":" ++ text ∧ y.model = text ++ ":" ++ x.model

variable {α : Type*} {a : α} {p p' m m' : List α}

/-- Two ways to cut a list at an occurrence of `a`. -/
theorem append_cons_eq_append_cons_iff :
    p ++ a :: m = p' ++ a :: m' ↔ (p = p' ∧ m = m') ∨
      (∃ w, p = p' ++ a :: w ∧ m' = w ++ a :: m) ∨ ∃ w, p' = p ++ a :: w ∧ m = w ++ a :: m' := by
  rw [List.append_eq_append_iff]
  constructor
  · rintro (⟨w, hp, hm⟩ | ⟨w, hp, hm⟩)
    · cases w with
      | nil => simp_all
      | cons b w =>
        obtain ⟨rfl, rfl⟩ := List.cons.inj hm
        exact Or.inr (Or.inr ⟨w, hp, rfl⟩)
    · cases w with
      | nil => simp_all
      | cons b w =>
        obtain ⟨rfl, rfl⟩ := List.cons.inj hm
        exact Or.inr (Or.inl ⟨w, hp, rfl⟩)
  · rintro (⟨rfl, rfl⟩ | ⟨w, rfl, rfl⟩ | ⟨w, rfl, rfl⟩)
    · exact Or.inl ⟨[], by simp, by simp⟩
    · exact Or.inr ⟨a :: w, rfl, rfl⟩
    · exact Or.inl ⟨a :: w, rfl, rfl⟩

variable {u : UserID} {x y : InferenceInput} {r r' : InferenceRequest}

theorem shifted_iff : Shifted x y ↔ ∃ w, x.prompt.toList = y.prompt.toList ++ ':' :: w ∧
    y.model.toList = w ++ ':' :: x.model.toList := by
  constructor
  · rintro ⟨text, hprompt, hmodel⟩
    exact ⟨text.toList, by simp [hprompt], by simp [hmodel]⟩
  · rintro ⟨w, hprompt, hmodel⟩
    refine ⟨String.ofList w, ?_, ?_⟩ <;> rw [← String.toList_inj]
    · simp [hprompt]
    · simp [hmodel]

theorem generateKey_eq_iff :
    (InferenceRequest.mk u x.prompt x.model).generateKey =
        (InferenceRequest.mk u y.prompt y.model).generateKey ↔
      x = y ∨ Shifted x y ∨ Shifted y x := by
  have hkey : ∀ z : InferenceInput, (InferenceRequest.mk u z.prompt z.model).generateKey.toList =
      u.val.toList ++ ':' :: (z.prompt.toList ++ ':' :: z.model.toList) := by
    intro z
    simp [InferenceRequest.generateKey]
  have heq : x = y ↔ x.prompt.toList = y.prompt.toList ∧ x.model.toList = y.model.toList := by
    obtain ⟨p, m⟩ := x
    obtain ⟨p', m'⟩ := y
    rw [InferenceInput.mk.injEq, String.toList_inj, String.toList_inj]
  -- the user is the same, so the two keys can only differ in where the prompt ends
  rw [← String.toList_inj, hkey, hkey, List.append_cancel_left_eq, List.cons.injEq,
    append_cons_eq_append_cons_iff, heq, shifted_iff, shifted_iff]
  simp

theorem Shifted.ne (h : Shifted x y) : x ≠ y := by
  rintro rfl
  obtain ⟨w, hprompt, -⟩ := shifted_iff.mp h
  have hlength := congrArg List.length hprompt
  simp at hlength

theorem eq_of_validateInferenceInput {input : InferenceInput}
    (h : validateInferenceInput u input = .ok r) :
    r = ⟨u, (normalizeRequest input).prompt, (normalizeRequest input).model⟩ := by
  unfold validateInferenceInput at h
  dsimp only at h
  split_ifs at h
  exact (Except.ok.inj h).symm

/-- Under one user the keys of two accepted inputs tell their normalized texts apart exactly when
neither of the two is the other with the border between prompt and model at a different colon. -/
theorem key_identifies_request_iff (hx : validateInferenceInput u x = .ok r)
    (hy : validateInferenceInput u y = .ok r') :
    (r.generateKey = r'.generateKey ↔
        (normalizeRequest x).prompt = (normalizeRequest y).prompt ∧
          (normalizeRequest x).model = (normalizeRequest y).model) ↔
      ¬Shifted (normalizeRequest x) (normalizeRequest y) ∧
        ¬Shifted (normalizeRequest y) (normalizeRequest x) := by
  rw [eq_of_validateInferenceInput hx, eq_of_validateInferenceInput hy, generateKey_eq_iff,
    ← InferenceInput.mk.injEq]
  constructor
  · intro h
    constructor
    · exact fun hshift => hshift.ne (h.mp (Or.inr (Or.inl hshift)))
    · exact fun hshift => hshift.ne (h.mp (Or.inr (Or.inr hshift))).symm
  · rintro ⟨hxy, hyx⟩
    constructor
    · rintro (heq | hshift | hshift)
      · exact heq
      · exact absurd hshift hxy
      · exact absurd hshift hyx
    · exact Or.inl

/-- Two models whose names differ by what stands before a colon. -/
def tagged : InferenceInput := ⟨"translate: hello", "llama3:8b"⟩

def untagged : InferenceInput := ⟨"translate: hello:llama3", "8b"⟩

theorem different_requests_share_key :
    validateInferenceInput alice tagged = .ok ⟨alice, "translate: hello", "llama3:8b"⟩ ∧
      validateInferenceInput alice untagged = .ok ⟨alice, "translate: hello:llama3", "8b"⟩ ∧
      (InferenceRequest.mk alice "translate: hello" "llama3:8b").generateKey =
        (InferenceRequest.mk alice "translate: hello:llama3" "8b").generateKey ∧
      (normalizeRequest tagged).prompt ≠ (normalizeRequest untagged).prompt := by
  decide +kernel

def padded : InferenceInput := ⟨"  translate: hello ", "llama3:8b"⟩

theorem key_identifies_request_padded :
    ∃ r r', validateInferenceInput alice tagged = .ok r ∧
      validateInferenceInput alice padded = .ok r' ∧
      (r.generateKey = r'.generateKey ↔
        (normalizeRequest tagged).prompt = (normalizeRequest padded).prompt ∧
          (normalizeRequest tagged).model = (normalizeRequest padded).model) := by
  have htagged : validateInferenceInput alice tagged =
      .ok ⟨alice, "translate: hello", "llama3:8b"⟩ := by decide +kernel
  have hpadded : validateInferenceInput alice padded =
      .ok ⟨alice, "translate: hello", "llama3:8b"⟩ := by decide +kernel
  refine ⟨_, _, htagged, hpadded, (key_identifies_request_iff htagged hpadded).mpr ?_⟩
  have hsame : normalizeRequest tagged = normalizeRequest padded := by decide +kernel
  rw [hsame]
  exact ⟨fun h => h.ne rfl, fun h => h.ne rfl⟩

end InferenceQueue.Coalescing

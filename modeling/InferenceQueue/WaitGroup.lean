import Mathlib.Data.List.Basic

namespace InferenceQueue

/-- A counter and the goroutines that wait for it to be zero. The one that brings it to zero
releases all who wait. -/
structure WaitGroup (κ : Type*) where
  counter : ℕ
  waiting : List κ
  /-- released, and still inside `Wait` -/
  woken : List κ
  /-- back from `Wait` -/
  passed : List κ
deriving DecidableEq

namespace WaitGroup

variable {κ : Type*} {wg wg' : WaitGroup κ} {k : κ}

def empty : WaitGroup κ := ⟨0, [], [], []⟩

def add (wg : WaitGroup κ) : WaitGroup κ := { wg with counter := wg.counter + 1 }

/-- No result is a panic for a negative counter. -/
def done (wg : WaitGroup κ) : Option (WaitGroup κ) :=
  match wg.counter with
  | 0 => none
  | 1 => some { wg with counter := 0, waiting := [], woken := wg.waiting ++ wg.woken }
  | n + 2 => some { wg with counter := n + 1 }

def wait (wg : WaitGroup κ) (k : κ) : WaitGroup κ :=
  if wg.counter = 0 then { wg with passed := k :: wg.passed }
  else { wg with waiting := k :: wg.waiting }

/-- No result is a panic because the group is reused. -/
def wake [DecidableEq κ] (wg : WaitGroup κ) (k : κ) : Option (WaitGroup κ) :=
  if wg.counter = 0 ∧ wg.waiting = [] then
    some { wg with woken := wg.woken.erase k, passed := k :: wg.passed }
  else none

def Released (wg : WaitGroup κ) (k : κ) : Prop := k ∈ wg.woken ∨ k ∈ wg.passed

/-- Somebody waits only while there is something to wait for. -/
def Sound (wg : WaitGroup κ) : Prop := wg.waiting ≠ [] → wg.counter ≠ 0

def Quiet (wg : WaitGroup κ) : Prop := wg.waiting = [] ∧ wg.woken = []

instance [DecidableEq κ] : Decidable wg.Quiet := inferInstanceAs (Decidable (_ ∧ _))

theorem sound_empty : (empty : WaitGroup κ).Sound := by simp [Sound, empty]

theorem counter_of_done (h : wg.done = some wg') : wg.counter = wg'.counter + 1 := by
  unfold done at h
  split at h
  · cases h
  · next hone =>
    cases h
    exact hone
  · next n hmore =>
    cases h
    exact hmore

@[simp] theorem counter_wait : (wg.wait k).counter = wg.counter := by
  unfold wait
  split_ifs <;> rfl

theorem counter_wake [DecidableEq κ] (h : wg.wake k = some wg') :
    wg'.counter = wg.counter := by
  unfold wake at h
  split_ifs at h
  cases h
  rfl

theorem done_isSome (h : wg.counter ≠ 0) : ∃ wg', wg.done = some wg' := by
  unfold done
  split
  · next hzero => exact absurd hzero h
  · exact ⟨_, rfl⟩
  · exact ⟨_, rfl⟩

theorem Sound.add : wg.add.Sound := by simp [Sound, WaitGroup.add]

theorem Sound.done (h : wg.done = some wg') : wg'.Sound := by
  unfold WaitGroup.done at h
  split at h
  · cases h
  · cases h
    simp [Sound]
  · cases h
    simp [Sound]

theorem Sound.wait (hs : wg.Sound) : (wg.wait k).Sound := by
  unfold WaitGroup.wait
  split_ifs with hzero
  · exact hs
  · exact fun _ => hzero

theorem Sound.wake [DecidableEq κ] (h : wg.wake k = some wg') : wg'.Sound := by
  unfold WaitGroup.wake at h
  split_ifs at h with hquiet
  cases h
  simp [Sound, hquiet.2]

theorem woken_of_done (h : wg.done = some wg') (hk : k ∈ wg'.woken) :
    k ∈ wg.woken ∨ wg'.counter = 0 := by
  unfold done at h
  split at h
  · cases h
  · cases h
    exact Or.inr rfl
  · cases h
    exact Or.inl hk

theorem passed_done (h : wg.done = some wg') : wg'.passed = wg.passed := by
  unfold done at h
  split at h
  · cases h
  · cases h
    rfl
  · cases h
    rfl

/-- Bringing the counter to zero is the only way to let somebody through. -/
theorem released_of_done (h : wg.done = some wg') (hk : wg'.Released k) :
    wg.Released k ∨ wg'.counter = 0 := by
  rcases hk with hk | hk
  · exact (woken_of_done h hk).imp_left Or.inl
  · rw [passed_done h] at hk
    exact Or.inl (Or.inr hk)

@[simp] theorem woken_wait {i : κ} : (wg.wait i).woken = wg.woken := by
  unfold wait
  split_ifs <;> rfl

theorem Quiet.done (hq : wg.Quiet) (h : wg.done = some wg') : wg'.Quiet := by
  unfold WaitGroup.done at h
  split at h
  · cases h
  · cases h
    exact ⟨rfl, by rw [hq.1, hq.2]; rfl⟩
  · cases h
    exact hq

theorem released_of_wait {i : κ} (hk : (wg.wait i).Released k) :
    wg.Released k ∨ (k = i ∧ wg.counter = 0) := by
  unfold wait at hk
  split_ifs at hk with hzero
  · rcases hk with hk | hk
    · exact Or.inl (Or.inl hk)
    · rcases List.mem_cons.mp hk with rfl | hk
      · exact Or.inr ⟨rfl, hzero⟩
      · exact Or.inl (Or.inr hk)
  · exact Or.inl hk

theorem released_of_wake [DecidableEq κ] {i : κ} (h : wg.wake i = some wg')
    (hi : i ∈ wg.woken) (hk : wg'.Released k) : wg.Released k := by
  unfold wake at h
  split_ifs at h
  cases h
  rcases hk with hk | hk
  · exact Or.inl (List.mem_of_mem_erase hk)
  · rcases List.mem_cons.mp hk with rfl | hk
    · exact Or.inl hi
    · exact Or.inr hk

/-- Once inside `Wait`, one waits or has been let through. -/
def Inside (wg : WaitGroup κ) (k : κ) : Prop := k ∈ wg.waiting ∨ wg.Released k

theorem inside_wait_iff {i : κ} : (wg.wait i).Inside k ↔ wg.Inside k ∨ k = i := by
  unfold wait Inside Released
  split_ifs <;> simp only [List.mem_cons] <;> tauto

theorem inside_done_iff (h : wg.done = some wg') : wg'.Inside k ↔ wg.Inside k := by
  unfold done at h
  split at h
  · cases h
  · cases h
    simp only [Inside, Released, List.mem_append, List.not_mem_nil]
    tauto
  · cases h
    rfl

theorem inside_wake_iff [DecidableEq κ] {i : κ} (h : wg.wake i = some wg')
    (hi : i ∈ wg.woken) : wg'.Inside k ↔ wg.Inside k := by
  unfold wake at h
  split_ifs at h with hquiet
  cases h
  simp only [Inside, Released, List.mem_cons]
  by_cases hk : k = i
  · simp [hk, hi]
  · simp [hk, List.mem_erase_of_ne hk]

end WaitGroup

end InferenceQueue

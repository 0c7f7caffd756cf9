import InferenceQueue.IdempotencySteps
import InferenceQueue.Runs

namespace InferenceQueue.Idempotency

open Redis

inductive Event
  | tick (ms : ℕ)
  | call (op : Op)
deriving DecidableEq

structure World where
  clock : ℕ
  store : Store
deriving DecidableEq

def World.initial : World := ⟨0, .empty⟩

def step (completedTTL : ℕ) (w : World) : Event → Option World
  | .tick ms => some { w with clock := w.clock + ms }
  | .call op => some { w with store := perform completedTTL w.clock op w.store }

/-- A key is claimed anew, or bound to a job, only while no reverse key of another job leads to
it. -/
def Unshared (w : World) : Event → Prop
  | .call (.claimOrGet userID header _) =>
    w.store.records.get w.clock (buildIdempotencyKey userID header) = none →
      ∀ j, w.store.links.get w.clock j ≠ some (buildIdempotencyKey userID header)
  | .call (.setJobID userID header jobID) =>
    w.store.records.get w.clock (buildIdempotencyKey userID header) ≠ none →
      ∀ j, j ≠ jobID → w.store.links.get w.clock j ≠ some (buildIdempotencyKey userID header)
  | _ => True

instance (w : World) (e : Event) : Decidable (Unshared w e) := by
  unfold Unshared
  split <;> infer_instance

/-- A transition for a job changes no record but one that carries the job's ID. -/
def ReachesOwn (completedTTL : ℕ) (w : World) (e : Event) : Prop :=
  ∀ op jobID status, e = .call op → op.transitions = some (jobID, status) →
    ∀ key, (perform completedTTL w.clock op w.store).records.lookup key ≠
        w.store.records.lookup key →
      ∃ r, w.store.records.get w.clock key = some r ∧ r.jobID = some jobID

/-- A reverse key leads to the job's own record, if to any. -/
def Linked (now : ℕ) (s : Store) : Prop :=
  ∀ j key r, s.links.get now j = some key → s.records.get now key = some r → r.jobID = some j

theorem linked_empty (now : ℕ) : Linked now .empty := by
  intro j key r h
  simp [Store.empty, Keyspace.get_empty] at h

theorem Linked.later {now now' : ℕ} {s : Store} (h : Linked now s) (hle : now ≤ now') :
    Linked now' s := by
  intro j key r hj hr
  exact h j key r (fetch_earlier hle hj) (fetch_earlier hle hr)

variable {now ttl : ℕ} {s : Store}

theorem Linked.claimOrGet (h : Linked now s) (userID : UserID) (header : String)
    (hfree : s.records.get now (buildIdempotencyKey userID header) = none →
      ∀ j, s.links.get now j ≠ some (buildIdempotencyKey userID header)) :
    Linked now (Idempotency.claimOrGet now userID header ttl s).2 := by
  cases hr : s.records.get now (buildIdempotencyKey userID header) with
  | some r =>
    rw [claimOrGet_of_some hr]
    exact h
  | none =>
    rw [claimOrGet_of_none hr]
    intro j key r hj hkey
    have hne : key ≠ buildIdempotencyKey userID header := by
      rintro rfl
      exact hfree hr j hj
    rw [Keyspace.get_put, if_neg hne] at hkey
    exact h j key r hj hkey

theorem Linked.delete (h : Linked now s) (userID : UserID) (header : String) :
    Linked now (Idempotency.delete userID header s) := by
  intro j key r hj hkey
  simp only [Idempotency.delete, Keyspace.get_put] at hkey
  split at hkey
  · cases hkey
  · exact h j key r hj hkey

theorem Linked.setJobID (h : Linked now s) (userID : UserID) (header : String) (jobID : JobID)
    (hfree : s.records.get now (buildIdempotencyKey userID header) ≠ none →
      ∀ j, j ≠ jobID → s.links.get now j ≠ some (buildIdempotencyKey userID header)) :
    Linked now (Idempotency.setJobID now userID header jobID s).2 := by
  simp only [Idempotency.setJobID]
  generalize buildIdempotencyKey userID header = bound at *
  obtain ⟨-, heq⟩ | ⟨v, hv, hlive, heq⟩ := setJobIDScript_cases now bound jobID s <;> rw [heq]
  · exact h
  · have hget : s.records.get now bound ≠ none := by
      simp [Keyspace.get, hv, fetch, hlive]
    intro j key r hj hkey
    simp only [Keyspace.get_put] at hj hkey
    by_cases hkb : key = bound
    · -- the bound record now carries `jobID`, and no other reverse key leads to it
      have hj' : j = jobID := by
        by_contra hne
        rw [if_neg hne, hkb] at hj
        exact hfree hget j hne hj
      rw [if_pos hkb] at hkey
      obtain ⟨v', hv', -, rfl⟩ := fetch_some.mp hkey
      cases hv'
      rw [hj']
      rfl
    · rw [if_neg hkb] at hkey
      split at hj
      · obtain ⟨v', hv', -, rfl⟩ := fetch_some.mp hj
        cases hv'
        exact absurd rfl hkb
      · exact h j key r hj hkey

theorem Linked.transition (h : Linked now s) (jobID : JobID) (status : RecordStatus) :
    Linked now (transitionScript now ttl jobID status s).2 := by
  obtain ⟨-, heq⟩ | ⟨key₀, r₀, hlink, hrec, -, heq⟩ :=
    transitionScript_cases now ttl jobID status s <;> rw [heq]
  · exact h
  · intro j key r hj hkey
    simp only [Keyspace.get_put] at hj hkey
    have hj' : s.links.get now j = some key := by
      -- the script only renews the expiry of the reverse key
      split at hj
      · next hjob =>
        obtain rfl := fetch_expire hj
        rw [hjob, hlink]
      · exact hj
    split at hkey
    · next hk =>
      obtain rfl := fetch_expire hkey
      exact h j key₀ r₀ (hk ▸ hj') hrec
    · exact h j key r hj' hkey

theorem Linked.step {completedTTL : ℕ} {w w' : World} {e : Event} (h : Linked w.clock w.store)
    (hok : Unshared w e) (he : Fires (step completedTTL) w e w') : Linked w'.clock w'.store := by
  cases e with
  | tick ms =>
    cases he
    exact h.later (Nat.le_add_right _ _)
  | call op =>
    cases he
    cases op with
    | claimOrGet userID header ttl => exact h.claimOrGet userID header hok
    | setJobID userID header jobID => exact h.setJobID userID header jobID hok
    | delete userID header => exact h.delete userID header
    | transitionStatus jobID status => exact h.transition jobID status
    | transitionStatusIfInFlight jobID status => exact h.transition jobID status

theorem Linked.reachesOwn {w : World} (h : Linked w.clock w.store) (completedTTL : ℕ) (e : Event) :
    ReachesOwn completedTTL w e := by
  rintro op jobID status rfl hop key hne
  have heq : perform completedTTL w.clock op w.store =
      (transitionScript w.clock completedTTL jobID status w.store).2 := by
    cases op <;> cases hop <;> rfl
  rw [heq] at hne
  obtain ⟨-, hsame⟩ | ⟨key₀, r₀, hlink, hrec, -, hput⟩ :=
    transitionScript_cases w.clock completedTTL jobID status w.store
  · exact absurd (by rw [hsame]) hne
  · rw [hput, Keyspace.lookup_put] at hne
    have hk : key = key₀ := by
      by_contra hk
      exact hne (if_neg hk)
    exact ⟨r₀, hk ▸ hrec, h jobID key₀ r₀ hlink hrec⟩

/-- As long as a key is claimed anew and bound only while no reverse key of another job leads to
it, every transition reaches the job's own record and no other. -/
theorem transitions_reach_own_record (completedTTL : ℕ) (tr : List Event) (w : World)
    (hrun : Run (Fires (step completedTTL)) .initial tr w)
    (hok : Throughout (Fires (step completedTTL)) .initial tr fun _ => Unshared) :
    Throughout (Fires (step completedTTL)) .initial tr
      fun _ => ReachesOwn completedTTL := by
  refine Throughout.of_invariant (fun _ w => Linked w.clock w.store) (linked_empty 0) ?_ ?_ hrun hok
  · intro tr w e w' h hok he
    exact h.step hok he
  · intro tr w e w' h _ _
    exact h.reachesOwn completedTTL e

def reclaimed : List Event :=
  [.call (.claimOrGet alice "k" 3600), .call (.setJobID alice "k" job1), .call (.delete alice "k"),
    .call (.claimOrGet alice "k" 3600)]

/-- The transition for the first job finishes the record of the second submit, which carries no
job yet. -/
theorem transition_reaches_foreign_record :
    ∃ w, Run (Fires (step 86400)) .initial reclaimed w ∧
      ¬ ReachesOwn 86400 w (.call (.transitionStatus job1 .failed)) := by
  obtain ⟨w, hrun, hrec, hchange⟩ := Run.exists_of_foldlM (step 86400) .initial reclaimed
    (fun w =>
      (w.store.records.get w.clock "idempotent:alice:inference:k").bind Record.jobID = none ∧
      (perform 86400 w.clock (.transitionStatus job1 .failed) w.store).records.lookup
        "idempotent:alice:inference:k" ≠
          w.store.records.lookup "idempotent:alice:inference:k") (by decide +kernel)
  refine ⟨w, hrun, fun h => ?_⟩
  obtain ⟨r, hr, hjob⟩ := h _ job1 .failed rfl rfl _ hchange
  simp [hr, hjob] at hrec

def finishedOnce : List Event :=
  [.call (.claimOrGet alice "k" 3600), .call (.setJobID alice "k" job1), .tick 5000,
    .call (.claimOrGet alice "k" 3600), .call (.transitionStatus job1 .completed),
    .call (.transitionStatusIfInFlight job1 .failed)]

theorem transitions_reach_own_record_finished :
    Throughout (Fires (step 86400)) .initial finishedOnce fun _ => ReachesOwn 86400 := by
  obtain ⟨w, hrun, -⟩ := Run.exists_of_foldlM (step 86400) .initial finishedOnce (fun _ => True)
    (by decide +kernel)
  exact transitions_reach_own_record 86400 finishedOnce w hrun
    (throughout_of_always (by decide +kernel))

end InferenceQueue.Idempotency

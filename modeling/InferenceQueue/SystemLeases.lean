import InferenceQueue.LeaseEpochs
import InferenceQueue.SystemSteps

namespace InferenceQueue.Scheduler

def nextJob (s : State) : Option JobID :=
  s.activeUsers.zrangeFirst.bind fun user => (s.queue user).getLast?

def taken (s : State) : Op → Option JobID
  | .requeueIfExpired job _ cutoff | .removeIfExpired job cutoff =>
    if ∃ k ∈ s.processingJobs.zscore job, k ≤ cutoff then some job else none
  | .releaseProcessingJob job => if (s.processingJobs.zscore job).isSome then some job else none
  | _ => none

variable {cfg : Config} {s t : State} {e : Event} {j : JobID}

theorem Effect.nextJob_of_claims (h : Effect cfg s e t) (hclaim : e.claims j) :
    (∃ w, e.op = .claimNextJob w) ∧ nextJob s = some j := by
  cases h with
  | @claimed now w u job remaining hfirst hqueue =>
    obtain rfl : job = j := by simpa [Event.claims, Event.claimed] using hclaim
    exact ⟨⟨w, rfl⟩, by simp [nextJob, hfirst, hqueue]⟩
  | _ => simp [Event.claims, Event.claimed] at hclaim

theorem Effect.taken_of_ended (h : Effect cfg s e t) (hend : e.ended = some j) :
    taken s e.op = some j := by
  cases h with
  | requeued hscore hexpired | removed hscore hexpired =>
    obtain rfl : _ = j := by simpa [Event.ended, Event.recovered] using hend
    exact if_pos ⟨_, hscore, hexpired⟩
  | released hscore =>
    obtain rfl : _ = j := by simpa [Event.ended] using hend
    exact if_pos (by rw [hscore]; rfl)
  | _ => cases hend

/-- Only a claim gives a job a lease that it does not have. -/
theorem Effect.claims_of_zscore (h : Effect cfg s e t) (hs : s.processingJobs.zscore j = none)
    (ht : t.processingJobs.zscore j ≠ none) : e.claims j := by
  have hscore := h.zscore_eq j
  split_ifs at hscore with hclaim hend hrenew
  · exact hclaim
  · exact absurd hscore ht
  · obtain ⟨k, hk⟩ := h.zscore_of_renewed hrenew
    rw [hs] at hk
    cases hk
  · exact absurd (hscore.trans hs) ht

/-- Only a release or a recovery call ends a lease. -/
theorem Effect.ended_of_zscore (h : Effect cfg s e t) (hs : s.processingJobs.zscore j ≠ none)
    (ht : t.processingJobs.zscore j = none) : e.ended = some j := by
  have hscore := h.zscore_eq j
  rw [ht] at hscore
  split_ifs at hscore with hclaim hend
  · exact hend
  · exact absurd hscore.symm hs

end InferenceQueue.Scheduler

namespace InferenceQueue.Service

open Scheduler

def System.lease (s : System) (j : JobID) : Option ℕ := s.stores.redis.processingJobs.zscore j

variable {cfg : Config} {s t : System} {e : Event} {j : JobID}

theorem Step.exists_performed (h : Step cfg s e t) (hne : t.lease j ≠ s.lease j) :
    ∃ pe, performed cfg s e = some pe := by
  rcases h.redis with ⟨pe, hpe, -⟩ | ⟨-, hsame⟩
  · exact ⟨pe, hpe⟩
  · exact absurd (by rw [System.lease, hsame]; rfl) hne

theorem Step.lease_of_none (h : Step cfg s e t) (hs : s.lease j = none) :
    t.lease j = none ∨ ∃ th k resp, e = .call th (.redis (.claimNextJob k)) resp ∧
      nextJob s.stores.redis = some j := by
  by_cases ht : t.lease j = none
  · exact Or.inl ht
  · right
    obtain ⟨pe, hpe⟩ := h.exists_performed (hs ▸ ht)
    have heff := h.effect hpe
    obtain ⟨⟨k, hop⟩, hnext⟩ := heff.nextJob_of_claims (heff.claims_of_zscore hs ht)
    obtain ⟨th, resp, rfl, -⟩ := Event.redisOp_eq_some (hop ▸ redisOp_of_performed hpe)
    exact ⟨th, k, resp, rfl, hnext⟩

theorem Step.lease_cases (h : Step cfg s e t) (j : JobID) :
    t.lease j = s.lease j ∨ t.lease j = none ∨
      t.lease j = some (t.clock + cfg.scheduler.lease) := by
  rcases h.redis with ⟨pe, hpe, hstep⟩ | ⟨-, hsame⟩
  · have hnow : pe.now = t.clock := by
      obtain ⟨th, resp, rfl, -⟩ := Event.redisOp_eq_some (redisOp_of_performed hpe)
      obtain ⟨op, -, rfl⟩ := Option.map_eq_some_iff.mp hpe
      obtain ⟨-, st, -, rfl⟩ := h.call
      rw [resume_clock]
    have hscore := hstep.effect.zscore_eq j
    rw [hnow] at hscore
    split_ifs at hscore
    · exact Or.inr (Or.inr hscore)
    · exact Or.inr (Or.inl hscore)
    · exact Or.inr (Or.inr hscore)
    · exact Or.inl hscore
  · exact Or.inl (by rw [System.lease, hsame]; rfl)

end InferenceQueue.Service

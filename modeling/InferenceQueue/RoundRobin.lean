import InferenceQueue.Runs
import Mathlib.Data.List.Nodup

namespace InferenceQueue

/-- Everyone who has work waiting stands in the ring once, in the order of the turns to come. -/
structure RoundRobin (U J : Type*) where
  ring : List U
  jobs : U → List J
  nodup : ring.Nodup
  mem_ring : ∀ u, u ∈ ring ↔ jobs u ≠ []

inductive Turn (U J : Type*)
  | arrived (u : U) (j : J)
  | served (u : U) (j : J)

namespace Turn

variable {U J : Type*} [DecidableEq U]

def arrival (u : U) : Turn U J → Option J
  | arrived v j => if v = u then some j else none
  | served _ _ => none

def service (u : U) : Turn U J → Option J
  | arrived _ _ => none
  | served v j => if v = u then some j else none

def server : Turn U J → Option U
  | arrived _ _ => none
  | served v _ => some v

end Turn

namespace RoundRobin

variable {U J : Type*} [DecidableEq U]

def empty : RoundRobin U J := ⟨[], fun _ => [], List.nodup_nil, by simp⟩

/-- New work goes behind the owner's other work; an owner without work joins at the end. -/
def arrive (q : RoundRobin U J) (u : U) (j : J) : RoundRobin U J where
  ring := if u ∈ q.ring then q.ring else q.ring ++ [u]
  jobs := Function.update q.jobs u (q.jobs u ++ [j])
  nodup := by
    split_ifs with h
    · exact q.nodup
    · exact List.nodup_append.mpr ⟨q.nodup, List.nodup_singleton u, by
        rintro a ha b hb rfl
        exact h (List.mem_singleton.mp hb ▸ ha)⟩
  mem_ring v := by
    have hv := q.mem_ring v
    by_cases huv : v = u
    · subst huv
      split_ifs with h <;> simp [h]
    · split_ifs with h <;> simp [huv, hv]

/-- The head of the ring gives its first job and, if it has more, goes to the end. -/
def serve (q : RoundRobin U J) {u : U} {rest : List U} {j : J} {js : List J}
    (hring : q.ring = u :: rest) (hjobs : q.jobs u = j :: js) : RoundRobin U J where
  ring := if js.isEmpty then rest else rest ++ [u]
  jobs := Function.update q.jobs u js
  nodup := by
    have hn := q.nodup
    rw [hring, List.nodup_cons] at hn
    split_ifs
    · exact hn.2
    · exact List.nodup_append.mpr ⟨hn.2, List.nodup_singleton u, by
        rintro a ha b hb rfl
        exact hn.1 (List.mem_singleton.mp hb ▸ ha)⟩
  mem_ring v := by
    have hv := q.mem_ring v
    have hn := q.nodup
    rw [hring, List.nodup_cons] at hn
    rw [hring, List.mem_cons] at hv
    by_cases huv : v = u
    · subst huv
      cases js <;> simp [hn.1]
    · cases js <;> simpa [huv] using hv

@[simp] theorem arrive_ring (q : RoundRobin U J) (u : U) (j : J) :
    (q.arrive u j).ring = if u ∈ q.ring then q.ring else q.ring ++ [u] := rfl

@[simp] theorem arrive_jobs (q : RoundRobin U J) (u : U) (j : J) :
    (q.arrive u j).jobs = Function.update q.jobs u (q.jobs u ++ [j]) := rfl

section Serve

variable {q : RoundRobin U J} {u : U} {rest : List U} {j : J} {js : List J}
  (hring : q.ring = u :: rest) (hjobs : q.jobs u = j :: js)

@[simp] theorem serve_ring :
    (q.serve hring hjobs).ring = if js.isEmpty then rest else rest ++ [u] := rfl

@[simp] theorem serve_jobs : (q.serve hring hjobs).jobs = Function.update q.jobs u js := rfl

end Serve

inductive Step : RoundRobin U J → Turn U J → RoundRobin U J → Prop
  | arrive (q : RoundRobin U J) (u : U) (j : J) : Step q (.arrived u j) (q.arrive u j)
  | serve (q : RoundRobin U J) {u : U} {rest : List U} {j : J} {js : List J}
      (hring : q.ring = u :: rest) (hjobs : q.jobs u = j :: js) :
      Step q (.served u j) (q.serve hring hjobs)

variable {q q' : RoundRobin U J} {tr : List (Turn U J)}

/-- Everyone's work is served in the order it arrived, none of it lost or served twice. -/
theorem fifo (h : Run Step q tr q') (u : U) :
    q.jobs u ++ tr.filterMap (Turn.arrival u) = tr.filterMap (Turn.service u) ++ q'.jobs u := by
  induction h with
  | nil => simp
  | snoc _ he ih =>
    rw [List.filterMap_append, ← List.append_assoc, ih, List.filterMap_append]
    cases he with
    | arrive v j =>
      by_cases hv : v = u
      · subst hv
        simp [Turn.arrival, Turn.service]
      · simp [Turn.arrival, Turn.service, hv, Ne.symm hv]
    | @serve v rest j js hring hjobs =>
      by_cases hv : v = u
      · subst hv
        simp [Turn.arrival, Turn.service, hjobs]
      · simp [Turn.arrival, Turn.service, hv, Ne.symm hv]

/-- While `v` waits, exactly those ahead of it are served, in order and each once. -/
theorem fair {v : U} {ahead behind : List U} (h : Run Step q tr q')
    (hring : q.ring = ahead ++ v :: behind) (hv : v ∉ tr.filterMap Turn.server) :
    ∃ ahead' behind', q'.ring = ahead' ++ v :: behind' ∧
      ahead = tr.filterMap Turn.server ++ ahead' := by
  induction h with
  | nil => exact ⟨ahead, behind, hring, by simp⟩
  | @snoc tr p e p' _ he ih =>
    simp only [List.filterMap_append, List.mem_append, not_or] at hv
    obtain ⟨ahead', behind', hr, hahead⟩ := ih hv.1
    cases he with
    | arrive u j =>
      by_cases hu : u ∈ p.ring
      · refine ⟨ahead', behind', ?_, by simp [Turn.server, hahead]⟩
        rw [arrive_ring, if_pos hu, hr]
      · refine ⟨ahead', behind' ++ [u], ?_, by simp [Turn.server, hahead]⟩
        rw [arrive_ring, if_neg hu, hr, List.append_assoc, List.cons_append]
    | @serve u rest j js hhead hjobs =>
      rw [hhead] at hr
      cases ahead' with
      | nil =>
        obtain ⟨rfl, -⟩ := List.cons.inj hr
        exact absurd (by simp [Turn.server]) hv.2
      | cons w ahead'' =>
        obtain ⟨rfl, hrest⟩ := List.cons.inj hr
        refine ⟨ahead'', if js.isEmpty then behind' else behind' ++ [u], ?_, ?_⟩
        · cases js <;> simp [hrest]
        · simp [Turn.server, hahead]

end RoundRobin

end InferenceQueue

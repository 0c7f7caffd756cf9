import InferenceQueue.RecoveryPasses

namespace InferenceQueue.Service

open Scheduler Jobs

def Event.requeued : Event → Option JobID
  | .call _ (.redis (.requeueIfExpired job _ _)) (.reply (.flag true)) => some job
  | _ => none

def requeues (j : JobID) (tr : List Event) : ℕ := tr.countP fun e => e.requeued = some j

def Recovery.recovered : Recovery → Option JobID
  | .recovering _ _ jobID _ => some jobID
  | _ => none

/-- Redis does not fail, and every user may have `m` attempts. -/
def Assumed (m : ℤ) (_ : List Event) (_ : System) : Event → Prop
  | .call _ (.redis _) resp => ∀ b, resp ≠ .failed b
  | .call _ (.retryPolicy _) (.policy n) => n = m
  | _ => True

structure Counted (m : ℤ) (j : JobID) (past : List Event) (s : System) : Prop where
  bounded : requeues j past ≤ m - 1
  counted : (∀ i, (s.recoveries i).recovered ≠ some j) →
    ∀ row ∈ s.stores.jobs.lookup j, row.status = .created → row.retryCounts = 1 + requeues j past

/-- The count of `j` keeps up with pass `i`: the job is not claimed between the requeue and the
UPDATE, and the UPDATE takes place. -/
def KeepsCountAt (j : JobID) (s : System) (i : ℕ) : Event → Prop
  | .call _ (.redis (.claimNextJob _)) _ =>
    nextJob s.stores.redis = some j → (s.recoveries i).counting j = none
  | .call _ (.updateCreated job _) resp => job = j → resp ≠ .failed false
  | _ => True

def KeepsCount (j : JobID) (_ : List Event) (s : System) (e : Event) : Prop :=
  ∀ i, KeepsCountAt j s i e

instance (m : ℤ) (past : List Event) (s : System) (e : Event) : Decidable (Assumed m past s e) := by
  induction e using Event.casesOn with
  | tick => exact isTrue trivial
  | call th req resp =>
    induction req using Request.casesOn with
    | redis op => exact inferInstanceAs (Decidable (∀ b, resp ≠ .failed b))
    | retryPolicy u =>
      induction resp using Response.casesOn with
      | policy n => exact inferInstanceAs (Decidable (n = m))
      | _ => exact isTrue trivial
    | _ => exact isTrue trivial

instance (j : JobID) (s : System) (i : ℕ) (e : Event) : Decidable (KeepsCountAt j s i e) := by
  induction e using Event.casesOn with
  | tick => exact isTrue trivial
  | call th req resp =>
    induction req using Request.casesOn with
    | redis op => induction op using Op.casesOn <;> dsimp only [KeepsCountAt] <;> infer_instance
    | updateCreated job n => exact inferInstanceAs (Decidable (job = j → resp ≠ .failed false))
    | _ => exact isTrue trivial

variable {cfg : Config} {s t : System} {e : Event} {i c N : ℕ} {j : JobID} {n m : ℤ}
  {past tr : List Event}

theorem requeues_snoc (j : JobID) (past : List Event) (e : Event) :
    requeues j (past ++ [e]) = requeues j past + if e.requeued = some j then 1 else 0 := by
  simp [requeues, List.countP_append, List.countP_singleton]

/-- What the passes know of `j` after `N` requeues.  A pass whose cutoff still covers the lease has
read the present count, since every later claim sets a deadline beyond the cutoff. -/
structure Tally (m : ℤ) (j : JobID) (N : ℕ) (s : System) : Prop where
  cutoff : ∀ i c, (s.recoveries i).cutoff = some c → c ≤ s.clock
  read : ∀ i c n, (s.recoveries i).reading j = some (c, n) →
    s.stores.jobs.lookup j ≠ none ∧ ((∃ k ∈ s.lease j, k ≤ c) → n = 1 + N)
  allowed : ∀ i c todo u n, s.recoveries i = .recovering c todo j (.requeue u n) → n < m
  counting : ∀ i n, (s.recoveries i).counting j = some n → s.lease j = none ∧ n = 1 + N
  level : (∀ i, (s.recoveries i).counting j = none) →
    ∀ row ∈ s.stores.jobs.lookup j, row.status = .created → row.retryCounts = 1 + N
  unborn : s.stores.jobs.lookup j = none → N = 0
  bounded : N + 1 ≤ m

theorem Tally.initial (hm : 1 ≤ m) : Tally m j 0 System.initial where
  cutoff i c h := by cases h
  read i c n h := by cases h
  allowed i c todo u n h := by cases h
  counting i n h := by cases h
  level _ row hrow := by cases hrow
  unborn _ := rfl
  bounded := by omega

/-- A pass that requeues `j` has read the present count, and so may do so only while the policy
allows one more attempt. -/
theorem Tally.requeue {th : Thread} {u : UserID} (h : Tally m j N s)
    (he : Step cfg s (.call th (.redis (.requeueIfExpired j u c)) (.reply (.flag true))) t) :
    Tally m j (N + 1) t := by
  obtain ⟨hexpired, hgone⟩ := he.requeue_lease
  have hheld : s.lease j ≠ none := by
    obtain ⟨k, hk, -⟩ := hexpired
    rw [hk]
    exact Option.some_ne_none k
  cases he.call.1.issues with
  | @requeue i c todo job user k hrec =>
    have hread : (s.recoveries i).reading j = some (c, k) :=
      Recovery.reading_eq_some.mpr ⟨todo, u, Or.inr hrec⟩
    have hrow := he.row_isSome (h.read i c k hread).1
    have hk : k = 1 + N := (h.read i c k hread).2 hexpired
    have hlimit := h.allowed i c todo u k hrec
    refine ⟨fun i c => he.cutoff h.cutoff, ?_, ?_, ?_, ?_, ?_, ?_⟩
    · -- the lease is gone, so no cutoff covers it
      intro i' c' n hread'
      refine ⟨hrow, ?_⟩
      rintro ⟨k', hk', -⟩
      rw [hgone] at hk'
      cases hk'
    · intro i' c' todo' u' n hrec'
      rcases he.allowed hrec' with hold | ⟨limit, heq, -⟩
      · exact h.allowed i' c' todo' u' n hold
      · cases heq
    · intro i' n hcount
      rcases he.counting hcount with hold | ⟨c', todo', u', k', hrec', heq, rfl⟩
      · exact absurd (h.counting i' n hold).1 hheld
      · obtain rfl : i = i' := by simpa using (Event.call.inj heq).1
        obtain ⟨-, -, -, hstage⟩ := Recovery.recovering.inj (hrec.symm.trans hrec')
        obtain ⟨-, rfl⟩ := RecoverOne.requeue.inj hstage
        refine ⟨hgone, ?_⟩
        push_cast
        omega
    · intro hnone
      have hcount := hnone i
      rw [he.recovery_self, hrec] at hcount
      simp [Recovery.resume, RecoverOne.proceed, Recovery.counting] at hcount
    · intro hnone
      exact absurd hnone hrow
    · push_cast
      omega

theorem Tally.counting_before (h : Tally m j N s) (hne : e.requeued ≠ some j) (he : Step cfg s e t)
    (hcount : (t.recoveries i).counting j = some n) :
    (s.recoveries i).counting j = some n ∧ s.lease j = none ∧ n = 1 + N := by
  rcases he.counting hcount with hold | ⟨c, todo, u, k, -, rfl, -⟩
  · exact ⟨hold, h.counting i n hold⟩
  · exact absurd rfl hne

theorem Tally.read_step (h : Tally m j N s) (hlease : 1 ≤ cfg.scheduler.lease)
    (he : Step cfg s e t) (hread : (t.recoveries i).reading j = some (c, n))
    (hexpired : ∃ k ∈ t.lease j, k ≤ c) : n = 1 + N := by
  obtain ⟨k, hk, hle⟩ := hexpired
  have hcutoff := he.cutoff h.cutoff (Recovery.cutoff_of_reading hread)
  have hsame : t.lease j = s.lease j := by
    rcases he.lease_cases j with hsame | hnone | hnew
    · exact hsame
    · rw [hnone] at hk
      cases hk
    · have hdeadline : k = t.clock + cfg.scheduler.lease := Option.some.inj (hk.symm.trans hnew)
      omega
  rcases he.reading hread with hold | ⟨-, row, hrow, hstatus, hcount⟩
  · exact (h.read i c n hold).2 ⟨k, hsame ▸ hk, hle⟩
  · -- while some pass has yet to count, the job has no lease
    have hnone : ∀ i, (s.recoveries i).counting j = none := by
      intro i'
      by_contra hne
      obtain ⟨n', hn'⟩ := Option.ne_none_iff_exists'.mp hne
      rw [hsame, (h.counting i' n' hn').1] at hk
      cases hk
    exact hcount.symm.trans (h.level hnone row hrow hstatus)

theorem Tally.level_step (h : Tally m j N s) (hok : KeepsCount j past s e) (he : Step cfg s e t)
    (hnone : ∀ i, (t.recoveries i).counting j = none) {row : Row}
    (hrow : t.stores.jobs.lookup j = some row) (hstatus : row.status = .created) :
    row.retryCounts = 1 + N := by
  by_cases hidle : ∀ i, (s.recoveries i).counting j = none
  · -- nobody had to count: the row is as it was, or new, or closed
    have hstep := he.row j
    rw [hrow] at hstep
    generalize hnext : some row = next at hstep
    cases hstep with
    | same hsame => exact h.level hidle row (hsame.symm.trans hnext.symm) hstatus
    | created hnew =>
      obtain rfl := Option.some.inj hnext
      simp [h.unborn hnew]
    | @marked _ o _ _ _ _ =>
      obtain rfl := Option.some.inj hnext
      exact absurd hstatus o.status_ne_created
    | counted =>
      obtain ⟨i, hcount⟩ := he.call.1.counting
      rw [hidle i] at hcount
      cases hcount
  · -- the pass that had to count is the one that moved
    obtain ⟨i, hi⟩ := not_forall.mp hidle
    obtain ⟨n, hn⟩ := Option.ne_none_iff_exists'.mp hi
    rcases he.recovery i with hsame | ⟨resp, rfl, -⟩
    · exact absurd (hsame ▸ hnone i) hi
    · obtain ⟨c, todo, hrec⟩ := Recovery.counting_eq_some.mp hn
      rw [hrec] at he hok
      have hcounted := he.counted (hok i rfl) hrow hstatus
      exact hcounted.trans (h.counting i n hn).2

theorem Tally.keep (h : Tally m j N s) (hlease : 1 ≤ cfg.scheduler.lease)
    (hassumed : Assumed m past s e) (hok : KeepsCount j past s e) (hne : e.requeued ≠ some j)
    (he : Step cfg s e t) : Tally m j N t where
  cutoff i c hcutoff := he.cutoff h.cutoff hcutoff
  read i c n hread := by
    refine ⟨?_, h.read_step hlease he hread⟩
    rcases he.reading hread with hold | ⟨-, row, hrow, -⟩
    · exact he.row_isSome (h.read i c n hold).1
    · exact he.row_isSome (by rw [hrow]; exact Option.some_ne_none row)
  allowed i c todo u n hrec := by
    rcases he.allowed hrec with hold | ⟨limit, rfl, hlimit⟩
    · exact h.allowed i c todo u n hold
    · obtain rfl : limit = m := hassumed
      exact hlimit
  counting i n hcount := by
    obtain ⟨hold, hlost, hn⟩ := h.counting_before hne he hcount
    refine ⟨?_, hn⟩
    rcases he.lease_of_none hlost with hnone | ⟨th, k, resp, rfl, hnext⟩
    · exact hnone
    · rw [hok i hnext] at hold
      cases hold
  level hnone row hrow hstatus := h.level_step hok he hnone hrow hstatus
  unborn hnone := by
    by_cases hs : s.stores.jobs.lookup j = none
    · exact h.unborn hs
    · exact absurd hnone (he.row_isSome hs)
  bounded := h.bounded

theorem Event.requeued_eq_some (h : e.requeued = some j) :
    ∃ th u c, e = .call th (.redis (.requeueIfExpired j u c)) (.reply (.flag true)) := by
  unfold Event.requeued at h
  split at h
  · cases h
    exact ⟨_, _, _, rfl⟩
  · cases h

theorem Tally.step (hlease : 1 ≤ cfg.scheduler.lease) (h : Tally m j (requeues j past) s)
    (hassumed : Assumed m past s e) (hok : KeepsCount j past s e) (he : Step cfg s e t) :
    Tally m j (requeues j (past ++ [e])) t := by
  rw [requeues_snoc]
  split_ifs with hreq
  · obtain ⟨th, u, c, rfl⟩ := Event.requeued_eq_some hreq
    exact h.requeue he
  · exact h.keep hlease hassumed hok hreq he

theorem Tally.toCounted (h : Tally m j (requeues j tr) s) : Counted m j tr s := by
  refine ⟨by have := h.bounded; omega, fun hidle => h.level fun i => ?_⟩
  by_contra hne
  obtain ⟨n, hn⟩ := Option.ne_none_iff_exists'.mp hne
  obtain ⟨c, todo, hrec⟩ := Recovery.counting_eq_some.mp hn
  exact hidle i (by rw [hrec]; rfl)

/-- While no requeued job is claimed before it has been counted, recoveries are bounded and
counted. -/
theorem recoveries_counted (hm : 1 ≤ m) (hlease : 1 ≤ cfg.scheduler.lease)
    (h : Run (Step cfg) System.initial tr s)
    (hassumed : Throughout (Step cfg) System.initial tr (Assumed m))
    (hok : Throughout (Step cfg) System.initial tr (KeepsCount j)) : Counted m j tr s := by
  have hboth : Throughout (Step cfg) System.initial tr
      fun past s e => Assumed m past s e ∧ KeepsCount j past s e := hassumed.and hok
  apply Tally.toCounted
  refine h.guarded (fun past s => Tally m j (requeues j past) s) (.initial hm) ?_ hboth
  intro past s e t htally hboth he
  exact htally.step hlease hboth.1 hboth.2 he

/-- With two attempts allowed, a job is requeued twice: the first UPDATE of the count fails, and the
second sweep reads the old count. -/
theorem recoveries_not_counted :
    ¬∀ (cfg : Config) (m : ℤ) (j : JobID) (tr : List Event) (s : System), 1 ≤ m →
      1 ≤ cfg.scheduler.lease → Run (Step cfg) System.initial tr s →
      Throughout (Step cfg) System.initial tr (Assumed m) → Counted m j tr s := by
  intro hall
  let tr := submitted 0 job1 alice ++ [claiming 0 job1 alice, .tick 30000] ++
    requeuing 0 30000 job1 alice 1 2 ++
    [.call (.recovery 0) (.updateCreated job1 2) (.failed false), claiming 1 job1 alice,
      .tick 30000] ++ requeuing 1 60000 job1 alice 1 2
  obtain ⟨s, hrun, -⟩ := Run.exists_of_foldlM (step smallService) System.initial tr
    (fun _ => True) (by decide +kernel)
  have hcounted := hall smallService 2 job1 tr s (by decide) (by decide) hrun
    (throughout_of_always (by decide +kernel))
  have htwice : requeues job1 tr = 2 := by decide +kernel
  have hbounded := hcounted.bounded
  rw [htwice] at hbounded
  omega

theorem keepsCountAt_of_idle (hidle : s.recoveries i = .idle) (h : KeepsCountAt j s 0 e) :
    KeepsCountAt j s i e := by
  unfold KeepsCountAt at h ⊢
  split
  · intro _
    rw [hidle]
    rfl
  · exact h
  · trivial

theorem keepsCount_of_within (n : ℕ) (hn : 0 < n) (h : Run (Step cfg) System.initial tr s)
    (hok : Throughout (Step cfg) System.initial tr
      fun _ s e => e.within n ∧ ∀ i < n, KeepsCountAt j s i e) :
    Throughout (Step cfg) System.initial tr (KeepsCount j) := by
  refine Throughout.of_invariant (fun _ s => Within n s) (fun i _ => ⟨rfl, rfl⟩) ?_ ?_ h hok
  · intro past s e t hwithin hok he
    exact hwithin.step he hok.1
  · intro past s e t hwithin hok he i
    by_cases hi : i < n
    · exact hok.2 i hi
    · exact keepsCountAt_of_idle (hwithin i (Nat.not_lt.mp hi)).2 (hok.2 0 hn)

/-- Two recoveries, each counted before the job is claimed again. -/
theorem recoveries_counted_twice :
    ∃ tr s, Run (Step smallService) System.initial tr s ∧ requeues job1 tr = 2 ∧
      Counted 3 job1 tr s := by
  let tr := submitted 0 job1 alice ++ [claiming 0 job1 alice, .tick 30000] ++
    requeuing 0 30000 job1 alice 1 3 ++
    [.call (.recovery 0) (.updateCreated job1 2) (.flag true), claiming 1 job1 alice,
      .tick 30000] ++ requeuing 1 60000 job1 alice 2 3 ++
    [.call (.recovery 1) (.updateCreated job1 3) (.flag true)]
  obtain ⟨s, hrun, -⟩ := Run.exists_of_foldlM (step smallService) System.initial tr
    (fun _ => True) (by decide +kernel)
  refine ⟨tr, s, hrun, by decide +kernel, ?_⟩
  have hassumed : Throughout (Step smallService) System.initial tr (Assumed 3) :=
    throughout_of_always (by decide +kernel)
  have hkeeps : Throughout (Step smallService) System.initial tr (KeepsCount job1) :=
    keepsCount_of_within 2 (by decide) hrun (throughout_of_always (by decide +kernel))
  exact recoveries_counted (by decide) (by decide) hrun hassumed hkeeps

end InferenceQueue.Service

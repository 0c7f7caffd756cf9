import InferenceQueue.JobModel
import InferenceQueue.Runs

namespace InferenceQueue.Jobs

inductive Call
  | ready
  | checked (o : Outcome) (jobID : JobID) (retryCount : ℤ)
  | returned (jobID : JobID) (result : Except GoError Unit)
deriving DecidableEq

structure Calls where
  db : Table
  call : ℕ → Call

inductive Statement
  | select (c : ℕ) (o : Outcome) (jobID : JobID) (retryCount : ℤ)
  | update (c : ℕ)
  | updateIfCreated (jobID : JobID) (retryCount : ℤ) (status : Status)

def Calls.start (db : Table) : Calls := ⟨db, fun _ => .ready⟩

def Calls.execute (s : Calls) : Statement → Option Calls
  | .select c o jobID retryCount =>
    match s.call c with
    | .ready =>
      match markSelect o jobID s.db with
      | .error err =>
        some { s with call := Function.update s.call c (.returned jobID (.error err)) }
      | .ok () => some { s with call := Function.update s.call c (.checked o jobID retryCount) }
    | _ => none
  | .update c =>
    match s.call c with
    | .checked o jobID retryCount =>
      let (db, result) := markUpdate o jobID retryCount s.db
      some ⟨db, Function.update s.call c (.returned jobID result)⟩
    | _ => none
  | .updateIfCreated jobID retryCount status =>
    some { s with db := (updateStatusIfStatus jobID retryCount status .created s.db).1 }

abbrev Executes : Calls → Statement → Calls → Prop := Fires Calls.execute

/-- Once a job is completed or failed, its status and its retry count stay as they are. -/
def TerminalFinal (s t : Calls) : Prop :=
  ∀ j row, s.db.lookup j = some row → row.status ≠ .created →
    ∃ row', t.db.lookup j = some row' ∧ row'.status = row.status ∧
      row'.retryCounts = row.retryCounts

def OneSuccess (s : Calls) : Prop :=
  ∀ j c c', s.call c = .returned j (.ok ()) → s.call c' = .returned j (.ok ()) → c = c'

/-- An UPDATE runs only while the row is as the call has read it. -/
def StillCreated (_ : List Statement) (s : Calls) (e : Statement) : Prop :=
  match e with
  | .update c =>
    match s.call c with
    | .checked _ jobID _ => ∀ row ∈ s.db.lookup jobID, row.status = .created
    | _ => True
  | _ => True

instance (past : List Statement) (s : Calls) (e : Statement) :
    Decidable (StillCreated past s e) := by
  unfold StillCreated
  cases e with
  | update c => dsimp only; cases s.call c <;> infer_instance
  | _ => infer_instance

inductive Executed (s : Calls) : Statement → Calls → Prop
  | refused {c o j n err} (hcall : s.call c = .ready) (hselect : markSelect o j s.db = .error err) :
      Executed s (.select c o j n)
        { s with call := Function.update s.call c (.returned j (.error err)) }
  | selected {c o j n} (hcall : s.call c = .ready) (hselect : markSelect o j s.db = .ok ()) :
      Executed s (.select c o j n) { s with call := Function.update s.call c (.checked o j n) }
  | updated {c o j n} (hcall : s.call c = .checked o j n) :
      Executed s (.update c)
        ⟨(updateStatus j o.status n s.db).1,
          Function.update s.call c (.returned j (markUpdate o j n s.db).2)⟩
  | updatedIf {j n status} :
      Executed s (.updateIfCreated j n status)
        { s with db := (updateStatusIfStatus j n status .created s.db).1 }

variable {s t : Calls} {e : Statement} {past tr : List Statement} {db : Table} {j : JobID}

theorem Executes.executed (h : Executes s e t) : Executed s e t := by
  unfold Executes Fires Calls.execute at h
  cases e with
  | select c o j n =>
    cases hcall : s.call c with
    | ready =>
      cases hselect : markSelect o j s.db with
      | error err =>
        simp only [hcall, hselect, Option.some.injEq] at h
        exact h ▸ .refused hcall hselect
      | ok _ =>
        simp only [hcall, hselect, Option.some.injEq] at h
        exact h ▸ .selected hcall hselect
    | _ => simp [hcall] at h
  | update c =>
    cases hcall : s.call c with
    | checked o j n =>
      simp only [hcall, Option.some.injEq] at h
      rw [markUpdate_fst] at h
      exact h ▸ .updated hcall
    | _ => simp [hcall] at h
  | updateIfCreated j n status =>
    obtain rfl := Option.some.inj h
    exact .updatedIf

/-- A statement leaves the rows that are not `created` alone, an unlucky UPDATE apart. -/
theorem Executed.lookup_eq {row : Row} (h : Executed s e t) (hok : StillCreated past s e)
    (hrow : s.db.lookup j = some row) (hstatus : row.status ≠ .created) :
    t.db.lookup j = some row := by
  cases h with
  | refused | selected => exact hrow
  | @updated c o j' n hcall =>
    have hcreated : ∀ row ∈ s.db.lookup j', row.status = .created := by
      simpa [StillCreated, hcall] using hok
    have hne : j ≠ j' := by
      intro heq
      exact hstatus (hcreated row (heq ▸ hrow))
    rw [lookup_updateStatus, if_neg hne, hrow]
  | @updatedIf j' n status =>
    change (updateStatusIfStatus j' n status .created s.db).1.lookup j = some row
    rw [lookup_updateStatusIfStatus]
    split_ifs with heq
    · rw [← heq, hrow, Option.map_some, if_neg hstatus]
    · exact hrow

/-- The call that reported success has left its row in a final status, and there is only one. -/
structure Settled (s : Calls) : Prop where
  terminal : ∀ j c, s.call c = .returned j (.ok ()) →
    ∃ row, s.db.lookup j = some row ∧ row.status ≠ .created
  one : OneSuccess s

theorem Settled.start (db : Table) : Settled (Calls.start db) := by
  refine ⟨?_, ?_⟩
  · intro j c hc
    cases hc
  · intro j c c' hc
    cases hc

theorem Settled.of_call (h : Settled s) (hrows : ∀ j row, s.db.lookup j = some row →
      row.status ≠ .created → t.db.lookup j = some row)
    (hcall : ∀ j c, t.call c = .returned j (.ok ()) → s.call c = .returned j (.ok ())) :
    Settled t := by
  -- calls that have not just returned keep what is known of them
  refine ⟨?_, ?_⟩
  · intro j c hc
    obtain ⟨row, hrow, hstatus⟩ := h.terminal j c (hcall j c hc)
    exact ⟨row, hrows j row hrow hstatus, hstatus⟩
  · intro j c c' hc hc'
    exact h.one j c c' (hcall j c hc) (hcall j c' hc')

theorem Settled.step (h : Settled s) (hok : StillCreated past s e) (he : Executes s e t) :
    Settled t := by
  have hrows : ∀ j row, s.db.lookup j = some row → row.status ≠ .created →
      t.db.lookup j = some row := fun _ _ => he.executed.lookup_eq hok
  cases he.executed with
  | refused hcall hselect =>
    apply h.of_call hrows
    intro j c hc
    simp only [Function.update_apply] at hc
    split_ifs at hc
    · simp at hc
    · exact hc
  | selected hcall hselect =>
    apply h.of_call hrows
    intro j c hc
    simp only [Function.update_apply] at hc
    split_ifs at hc
    exact hc
  | updatedIf => exact h.of_call hrows fun _ _ => id
  | @updated c o j n hcall =>
    have hcreated : ∀ row ∈ s.db.lookup j, row.status = .created := by
      simpa [StillCreated, hcall] using hok
    -- nobody has reported success on `j` before: its row would not be `created` any more
    have hfirst : ∀ c', s.call c' ≠ .returned j (.ok ()) := by
      intro c' hc'
      obtain ⟨row, hrow, hstatus⟩ := h.terminal j c' hc'
      exact hstatus (hcreated row hrow)
    have hold : ∀ j' c', Function.update s.call c (.returned j (markUpdate o j n s.db).2) c' =
        .returned j' (.ok ()) →
        (c' = c ∧ j' = j ∧ (markUpdate o j n s.db).2 = .ok ()) ∨
          s.call c' = .returned j' (.ok ()) := by
      intro j' c' hc'
      rw [Function.update_apply] at hc'
      split_ifs at hc' with heq
      · obtain ⟨rfl, hres⟩ := Call.returned.inj hc'
        exact Or.inl ⟨heq, rfl, hres⟩
      · exact Or.inr hc'
    refine ⟨?_, ?_⟩
    · intro j' c' hc'
      rcases hold j' c' hc' with ⟨-, rfl, hres⟩ | hc'
      · obtain ⟨row, hrow⟩ := Option.isSome_iff_exists.mp (markUpdate_snd_ok.mp hres)
        refine ⟨{ row with status := o.status, retryCounts := n }, ?_, o.status_ne_created⟩
        rw [lookup_updateStatus, if_pos rfl, hrow, Option.map_some]
      · obtain ⟨row, hrow, hstatus⟩ := h.terminal j' c' hc'
        exact ⟨row, hrows j' row hrow hstatus, hstatus⟩
    · intro j' c₁ c₂ hc₁ hc₂
      rcases hold j' c₁ hc₁ with ⟨heq₁, hj₁, -⟩ | hold₁
      · rcases hold j' c₂ hc₂ with ⟨heq₂, -, -⟩ | hold₂
        · exact heq₁.trans heq₂.symm
        · exact absurd (hj₁ ▸ hold₂) (hfirst c₂)
      · rcases hold j' c₂ hc₂ with ⟨-, hj₂, -⟩ | hold₂
        · exact absurd (hj₂ ▸ hold₁) (hfirst c₁)
        · exact h.one j' c₁ c₂ hold₁ hold₂

/-- What the interleavings promise about one run. -/
def RowsSettle (db : Table) (tr : List Statement) (t : Calls) : Prop :=
  (∀ past rest s, tr = past ++ rest → Run Executes (Calls.start db) past s → TerminalFinal s t) ∧
    OneSuccess t

theorem Executed.row_kept {rest : List Statement} {row : Row} (h : Run Executes s rest t)
    (hok : Throughout Executes s rest fun tr => StillCreated (past ++ tr))
    (hrow : s.db.lookup j = some row) (hstatus : row.status ≠ .created) :
    t.db.lookup j = some row := by
  refine h.guarded (fun _ u => u.db.lookup j = some row) hrow ?_ hok
  intro tr u e v hu hcreated he
  exact he.executed.lookup_eq hcreated hu hstatus

/-- Concurrent calls cannot reopen or rewrite a finished job as long as no UPDATE runs after the
row has left `created`. -/
theorem rows_settle (h : Run Executes (Calls.start db) tr t)
    (hok : Throughout Executes (Calls.start db) tr StillCreated) : RowsSettle db tr t := by
  have hsettled : Settled t := by
    refine h.guarded (fun _ => Settled) (Settled.start db) ?_ hok
    intro tr u e v hu hcreated he
    exact hu.step hcreated he
  refine ⟨?_, hsettled.one⟩
  intro past rest s heq hpast j row hrow hstatus
  subst heq
  have hkept := Executed.row_kept (h.rest hpast) (hok.drop hpast) hrow hstatus
  exact ⟨row, hkept, rfl, rfl⟩

def oneJob : Table := save job1 alice 0 ∅

def overlapping : List Statement :=
  [.select 1 .completed job1 1, .select 2 .failed job1 3,
    .update 1, .update 2]

theorem rows_do_not_settle :
    ¬∀ db tr t, Run Executes (Calls.start db) tr t → RowsSettle db tr t := by
  intro hall
  obtain ⟨t, hrun, h₁, h₂⟩ := Run.exists_of_foldlM Calls.execute (Calls.start oneJob) overlapping
    (fun t => t.call 1 = .returned job1 (.ok ()) ∧
      t.call 2 = .returned job1 (.ok ())) (by decide +kernel)
  have hone := (hall oneJob overlapping t hrun).2 _ 1 2 h₁ h₂
  simp at hone

def oneAfterTheOther : List Statement :=
  [.select 1 .completed job1 1, .update 1,
    .select 2 .failed job1 3, .updateIfCreated job1 2 .created]

theorem rows_settle_one_after_the_other :
    ∃ t, Run Executes (Calls.start oneJob) oneAfterTheOther t ∧
      t.call 1 = .returned job1 (.ok ()) ∧
      RowsSettle oneJob oneAfterTheOther t := by
  obtain ⟨t, hrun, h₁⟩ := Run.exists_of_foldlM Calls.execute (Calls.start oneJob) oneAfterTheOther
    (fun t => t.call 1 = .returned job1 (.ok ())) (by decide +kernel)
  exact ⟨t, hrun, h₁, rows_settle hrun (throughout_of_always (by decide +kernel))⟩

end InferenceQueue.Jobs

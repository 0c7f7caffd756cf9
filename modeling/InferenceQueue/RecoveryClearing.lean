import InferenceQueue.RecoveryPhases

namespace InferenceQueue.Scheduler

variable {cfg : Config} {s t : State} {e : Event} {job j : JobID} {cutoff : ℕ}

theorem Effect.keeps_of_take (h : Effect cfg s e t)
    (hop : e.op = .removeIfExpired job cutoff ∨ ∃ user, e.op = .requeueIfExpired job user cutoff) :
    (∀ j ∈ s.processingJobs.upTo cutoff, j ≠ job → j ∈ t.processingJobs.upTo cutoff) ∧
      t.completedJobs = s.completedJobs := by
  have hkept : ∀ j ∈ s.processingJobs.upTo cutoff, j ≠ job →
      j ∈ (s.processingJobs.zrem job).upTo cutoff :=
    fun j hj hne => SortedSet.mem_upTo_zrem.mpr ⟨hne, hj⟩
  cases h with
  | removeRefused => exact ⟨fun j hj _ => hj, rfl⟩
  | requeueRefused => exact ⟨fun j hj _ => hj, rfl⟩
  | removed =>
    rcases hop with hop | ⟨user, hop⟩ <;> cases hop
    exact ⟨hkept, rfl⟩
  | requeued =>
    rcases hop with hop | ⟨user, hop⟩ <;> cases hop
    exact ⟨hkept, State.enlist_completedJobs s _ _⟩
  | _ => rcases hop with hop | ⟨user, hop⟩ <;> cases hop

end InferenceQueue.Scheduler

namespace InferenceQueue.Service

open Scheduler Jobs

/-- The responses when neither Redis nor PostgreSQL fails.  `policies` is what `GetRetryPolicy`
returns for each user; it has an error of its own for a tier without a policy. -/
def Unfailing (policies : UserID → Option ℤ) : Request → Response → Prop
  | .retryPolicy userID, resp =>
    (∃ m, policies userID = some m ∧ resp = .policy m) ∨
      (policies userID = none ∧ ∃ b, resp = .failed b)
  | .external _, resp => resp = .flag true
  | _, resp => ∀ b, resp ≠ .failed b

def Stays (policies : UserID → Option ℤ) (cutoff : ℕ) (st : Stores) (j : JobID) : Prop :=
  j ∈ st.redis.processingJobs.upTo cutoff ∧
    ∀ job, jobByID j st.jobs = .ok job → job.status = .created ∧ policies job.userID = none

/-- What a sweep has done when `todo` is left of its list; `st₀` is what it began with. -/
structure SweptTo (policies : UserID → Option ℤ) (cutoff : ℕ) (st₀ : Stores) (todo : List JobID)
    (st : Stores) : Prop where
  listed : ∀ j ∈ todo, j ∈ st₀.redis.processingJobs.upTo cutoff
  nodup : todo.Nodup
  stays : ∀ j, Stays policies cutoff st₀ j →
    j ∈ st.redis.processingJobs.upTo cutoff ∧ st.jobs.lookup j = st₀.jobs.lookup j
  taken : ∀ j ∈ st.redis.processingJobs.upTo cutoff, Stays policies cutoff st₀ j ∨ j ∈ todo
  rows : ∀ j ∈ todo, st.jobs.lookup j = st₀.jobs.lookup j
  markers : st.redis.completedJobs = st₀.redis.completedJobs
  exist : ∀ j, (st.jobs.lookup j).isSome = (st₀.jobs.lookup j).isSome

/-- A lease that stays has kept its row, unless its marker has closed it. -/
structure RowSettled (st₀ : Stores) (j : JobID) (st : Stores) : Prop where
  closed : j ∈ st₀.redis.completedJobs → Readable st₀.jobs j →
    ∃ row, st.jobs.lookup j = some row ∧ row.status ≠ .created
  same : ¬(j ∈ st₀.redis.completedJobs ∧ Readable st₀.jobs j) →
    st.jobs.lookup j = st₀.jobs.lookup j

/-- What `ReconcileCompleted` has done when `todo` is left of its list. -/
structure ReconciledTo (policies : UserID → Option ℤ) (cutoff : ℕ) (st₀ : Stores)
    (todo : List JobID) (st : Stores) : Prop where
  listed : ∀ j ∈ todo, j ∈ st₀.redis.completedJobs
  nodup : todo.Nodup
  leases : ∀ j, j ∈ st.redis.processingJobs.upTo cutoff ↔ Stays policies cutoff st₀ j
  rows : ∀ j ∈ todo, Stays policies cutoff st₀ j → st.jobs.lookup j = st₀.jobs.lookup j
  settled : ∀ j, Stays policies cutoff st₀ j → j ∉ todo → RowSettled st₀ j st
  markers : ∀ j ∈ st.redis.completedJobs, j ∈ st₀.redis.completedJobs
  missing : ∀ j ∈ st₀.redis.completedJobs, st₀.jobs.lookup j = none → j ∈ st.redis.completedJobs
  exist : ∀ j, (st.jobs.lookup j).isSome = (st₀.jobs.lookup j).isSome

variable {cfg : Config} {policies : UserID → Option ℤ} {cutoff now : ℕ} {st₀ st st' : Stores}
  {todo : List JobID} {job j : JobID} {resp : Response}

namespace SweptTo

theorem skip (h : SweptTo policies cutoff st₀ (job :: todo) st)
    (hjob : Stays policies cutoff st₀ job) : SweptTo policies cutoff st₀ todo st where
  listed j hj := h.listed j (List.mem_cons_of_mem _ hj)
  nodup := h.nodup.of_cons
  stays := h.stays
  taken j hj := by
    rcases h.taken j hj with hstays | hmem
    · exact Or.inl hstays
    rcases List.mem_cons.mp hmem with rfl | hmem
    · exact Or.inl hjob
    · exact Or.inr hmem
  rows j hj := h.rows j (List.mem_cons_of_mem _ hj)
  markers := h.markers
  exist := h.exist

theorem take {op : Op} (h : SweptTo policies cutoff st₀ (job :: todo) st)
    (hjob : ¬Stays policies cutoff st₀ job)
    (hop : op = .removeIfExpired job cutoff ∨ ∃ user, op = .requeueIfExpired job user cutoff) :
    SweptTo policies cutoff st₀ todo (effect cfg now st (.redis op)) := by
  have heffect : Effect cfg.scheduler st.redis _ (effect cfg now st (.redis op)).redis :=
    effect_call op
  obtain ⟨hkept, hmarkers⟩ := heffect.keeps_of_take hop
  refine ⟨fun j hj => h.listed j (List.mem_cons_of_mem _ hj), h.nodup.of_cons, ?_, ?_,
    fun j hj => h.rows j (List.mem_cons_of_mem _ hj), hmarkers.trans h.markers, h.exist⟩
  · intro j hj
    have hne : j ≠ job := by
      rintro rfl
      exact hjob hj
    exact ⟨hkept j (h.stays j hj).1 hne, (h.stays j hj).2⟩
  · intro j hj
    obtain ⟨hmem, hne⟩ := heffect.mem_upTo_of_take hop hj
    rcases h.taken j hmem with hstays | hlisted
    · exact Or.inl hstays
    · exact Or.inr ((List.mem_cons.mp hlisted).resolve_left hne)

theorem of_row (h : SweptTo policies cutoff st₀ todo st) (hjob : ¬Stays policies cutoff st₀ job)
    (hnot : job ∉ todo) (hredis : st'.redis = st.redis)
    (hrows : ∀ j, j ≠ job → st'.jobs.lookup j = st.jobs.lookup j)
    (hexist : ∀ j, (st'.jobs.lookup j).isSome = (st.jobs.lookup j).isSome) :
    SweptTo policies cutoff st₀ todo st' := by
  -- the row of a job whose lease has been taken may change
  refine ⟨h.listed, h.nodup, ?_, ?_, ?_, by rw [hredis, h.markers], ?_⟩
  · intro j hj
    have hne : j ≠ job := by
      rintro rfl
      exact hjob hj
    rw [hredis, hrows j hne]
    exact h.stays j hj
  · rw [hredis]
    exact h.taken
  · intro j hj
    rw [hrows j (ne_of_mem_of_not_mem hj hnot)]
    exact h.rows j hj
  · intro j
    rw [hexist, h.exist]

end SweptTo

def RecoverOne.Knows (policies : UserID → Option ℤ) (cutoff : ℕ) (st₀ : Stores) (j : JobID) :
    RecoverOne → Prop
  | byID => True
  | policy userID _ => ∃ job, jobByID j st₀.jobs = .ok job ∧ job.status = .created ∧
      job.userID = userID
  | _ => ¬Stays policies cutoff st₀ j

structure Recovering (policies : UserID → Option ℤ) (cutoff : ℕ) (st₀ : Stores)
    (todo : List JobID) (job : JobID) (stage : RecoverOne) (st : Stores) : Prop where
  swept : SweptTo policies cutoff st₀ (if stage.claims then job :: todo else todo) st
  once : job ∉ todo
  knows : stage.Knows policies cutoff st₀ job

structure Heard (cfg : Config) (policies : UserID → Option ℤ) (now : ℕ) (st : Stores)
    (req : Request) (resp : Response) : Prop where
  unfailing : Unfailing policies req resp
  answers : (∀ b, resp ≠ .failed b) → Answers cfg now st req resp

theorem isSome_markUpdate {o : Outcome} {n : ℤ} :
    ((effect cfg now st (.markUpdate o job n)).jobs.lookup j).isSome =
      (st.jobs.lookup j).isSome := by
  change ((updateStatus job o.status n st.jobs).1.lookup j).isSome = _
  rw [lookup_updateStatus]
  split_ifs with heq
  · rw [Option.isSome_map, heq]
  · rfl

theorem isSome_updateCreated {n : ℤ} :
    ((effect cfg now st (.updateCreated job n)).jobs.lookup j).isSome =
      (st.jobs.lookup j).isSome := by
  change ((updateStatusIfStatus job n .created .created st.jobs).1.lookup j).isSome = _
  rw [lookup_updateStatusIfStatus]
  split_ifs with heq
  · rw [Option.isSome_map, heq]
  · rfl

/-- From the lookups on, `recoverOne` takes the lease first. -/
theorem RecoverOne.claims_of_proceed {stage stage' : RecoverOne}
    (h : stage.proceed resp = some stage') (hbyID : stage ≠ .byID)
    (hpolicy : ∀ u n, stage ≠ .policy u n) : stage'.claims = false := by
  unfold RecoverOne.proceed at h
  split at h <;> simp_all
  all_goals
    subst h
    rfl

namespace Recovering

variable {stage : RecoverOne}

theorem stays_of (h : Recovering policies cutoff st₀ todo job stage st)
    (hclaims : stage.claims = true)
    (hjob : ∀ found, jobByID job st₀.jobs = .ok found →
      found.status = .created ∧ policies found.userID = none) :
    SweptTo policies cutoff st₀ todo st := by
  have hswept := h.swept
  rw [hclaims, if_pos rfl] at hswept
  exact hswept.skip ⟨hswept.listed job List.mem_cons_self, hjob⟩

/-- Once the lease has been taken, the sweep does not depend on how `recoverOne` goes on. -/
theorem of_taken (hswept : SweptTo policies cutoff st₀ todo st) (hnot : job ∉ todo)
    (hjob : ¬Stays policies cutoff st₀ job) (hbyID : stage ≠ .byID)
    (hpolicy : ∀ u n, stage ≠ .policy u n) :
    (stage.proceed resp).elim (SweptTo policies cutoff st₀ todo st)
      fun stage' => Recovering policies cutoff st₀ todo job stage' st := by
  cases hnext : stage.proceed resp with
  | none => exact hswept
  | some stage' =>
    have hclaims := RecoverOne.claims_of_proceed hnext hbyID hpolicy
    refine ⟨by rwa [hclaims], hnot, ?_⟩
    cases stage' with
    | byID | policy => cases hclaims
    | _ => exact hjob

theorem step (h : Recovering policies cutoff st₀ todo job stage st)
    (hr : Heard cfg policies now st (stage.request cutoff job) resp) :
    (stage.proceed resp).elim
      (SweptTo policies cutoff st₀ todo (effect cfg now st (stage.request cutoff job)))
      fun stage' => Recovering policies cutoff st₀ todo job stage'
        (effect cfg now st (stage.request cutoff job)) := by
  have hresp := hr.unfailing
  cases stage with
  | byID =>
    have hans := hr.answers hresp
    have hrow : st.jobs.lookup job = st₀.jobs.lookup job := h.swept.rows job List.mem_cons_self
    cases resp with
    | job r =>
      have hfound : r = jobByID job st₀.jobs := by
        rw [← jobByID_congr hrow]
        exact (jobByID_of_answers hans).symm
      cases r with
      | ok found =>
        rw [RecoverOne.proceed]
        split_ifs with hstatus
        · refine ⟨h.swept, h.once, fun hstays => hstatus ?_⟩
          exact (hstays.2 found hfound.symm).1
        · exact ⟨h.swept, h.once, found, hfound.symm, not_not.mp hstatus, rfl⟩
      | error err =>
        rw [RecoverOne.proceed_unreadable hfound.symm]
        refine h.stays_of rfl fun found hok => ?_
        cases hfound.trans hok
    | _ => cases hans
  | policy user n =>
    obtain ⟨found, hfound, hstatus, rfl⟩ := h.knows
    rcases hresp with ⟨m, hpolicy, rfl⟩ | ⟨hpolicy, b, rfl⟩
    · have hnot : ¬Stays policies cutoff st₀ job := by
        intro hstays
        rw [(hstays.2 found hfound).2] at hpolicy
        cases hpolicy
      rw [RecoverOne.proceed]
      split_ifs
      · exact ⟨h.swept, h.once, hnot⟩
      · exact ⟨h.swept, h.once, hnot⟩
    · refine h.stays_of rfl fun other hok => ?_
      obtain rfl := Except.ok.inj (hfound.symm.trans hok)
      exact ⟨hstatus, hpolicy⟩
  | removeStale | removeExhausted n =>
    exact of_taken (h.swept.take h.knows (Or.inl rfl)) h.once h.knows (by simp) (by simp)
  | requeue user n =>
    exact of_taken (h.swept.take h.knows (Or.inr ⟨user, rfl⟩)) h.once h.knows (by simp) (by simp)
  | failUpdate n =>
    exact of_taken (h.swept.of_row h.knows h.once rfl (fun j => rows_of_markUpdate)
      fun j => isSome_markUpdate) h.once h.knows (by simp) (by simp)
  | updateCreated n =>
    exact of_taken (h.swept.of_row h.knows h.once rfl (fun j => rows_of_updateCreated)
      fun j => isSome_updateCreated) h.once h.knows (by simp) (by simp)
  | failSelect | failTransition | failPublish =>
    exact of_taken h.swept h.once h.knows (by simp) (by simp)

end Recovering

namespace ReconciledTo

theorem skip (h : ReconciledTo policies cutoff st₀ (job :: todo) st)
    (hjob : Stays policies cutoff st₀ job → RowSettled st₀ job st) :
    ReconciledTo policies cutoff st₀ todo st where
  listed j hj := h.listed j (List.mem_cons_of_mem _ hj)
  nodup := h.nodup.of_cons
  leases := h.leases
  rows j hj := h.rows j (List.mem_cons_of_mem _ hj)
  settled j hj hnot := by
    by_cases heq : j = job
    · subst heq
      exact hjob hj
    · exact h.settled j hj (by simp [heq, hnot])
  markers := h.markers
  missing := h.missing
  exist := h.exist

theorem close (h : ReconciledTo policies cutoff st₀ (job :: todo) st)
    (hredis : st'.redis = st.redis)
    (hrows : ∀ j, j ≠ job → st'.jobs.lookup j = st.jobs.lookup j)
    (hexist : ∀ j, (st'.jobs.lookup j).isSome = (st.jobs.lookup j).isSome)
    (hjob : Stays policies cutoff st₀ job → RowSettled st₀ job st') :
    ReconciledTo policies cutoff st₀ todo st' := by
  obtain ⟨hnot, hnodup⟩ := List.nodup_cons.mp h.nodup
  refine ⟨fun j hj => h.listed j (List.mem_cons_of_mem _ hj), hnodup, ?_, ?_, ?_, ?_, ?_, ?_⟩
  · rw [hredis]
    exact h.leases
  · intro j hj hstays
    rw [hrows j (ne_of_mem_of_not_mem hj hnot)]
    exact h.rows j (List.mem_cons_of_mem _ hj) hstays
  · intro j hstays hj
    by_cases heq : j = job
    · subst heq
      exact hjob hstays
    · have hsettled := h.settled j hstays (by simp [heq, hj])
      refine ⟨?_, ?_⟩
      · rw [hrows j heq]
        exact hsettled.closed
      · rw [hrows j heq]
        exact hsettled.same
  · rw [hredis]
    exact h.markers
  · rw [hredis]
    exact h.missing
  · intro j
    rw [hexist, h.exist]

theorem unmark (h : ReconciledTo policies cutoff st₀ todo st)
    (hjob : (st₀.jobs.lookup job).isSome) :
    ReconciledTo policies cutoff st₀ todo
      (effect cfg now st (.redis (.removeCompletedJob job))) := by
  refine ⟨h.listed, h.nodup, h.leases, h.rows, ?_, ?_, ?_, h.exist⟩
  · intro j hj hnot
    exact ⟨(h.settled j hj hnot).closed, (h.settled j hj hnot).same⟩
  · intro j hj
    have hmem : j ∈ st.redis.completedJobs.erase job := hj
    exact h.markers j (Finset.mem_of_mem_erase hmem)
  · intro j hj hnone
    have hne : j ≠ job := by
      rintro rfl
      simp [hnone] at hjob
    exact Finset.mem_erase.mpr ⟨hne, h.missing j hj hnone⟩

end ReconciledTo

/-- Where the work on a marker is, and what is known of the row. -/
def Marked (policies : UserID → Option ℤ) (cutoff : ℕ) (st₀ : Stores) (todo : List JobID)
    (job : JobID) (st : Stores) : Reconcile → Prop
  | .byID => ReconciledTo policies cutoff st₀ (job :: todo) st
  | .completeSelect _ => ReconciledTo policies cutoff st₀ (job :: todo) st ∧
      ∃ found, jobByID job st.jobs = .ok found ∧ found.status = .created
  | .completeUpdate _ => ReconciledTo policies cutoff st₀ (job :: todo) st ∧ Readable st.jobs job
  | .removeMissing => False
  | .transition | .close | .removeMarker =>
    ReconciledTo policies cutoff st₀ todo st ∧ (st₀.jobs.lookup job).isSome

theorem ReconciledTo.byID (h : ReconciledTo policies cutoff st₀ (job :: todo) st) :
    (Reconcile.proceed .byID (.job (jobByID job st.jobs))).elim
      (ReconciledTo policies cutoff st₀ todo st) (Marked policies cutoff st₀ todo job st) := by
  have hrow : Stays policies cutoff st₀ job → st.jobs.lookup job = st₀.jobs.lookup job :=
    h.rows job List.mem_cons_self
  cases hfound : jobByID job st.jobs with
  | ok found =>
    rw [Reconcile.proceed]
    split_ifs with hstatus
    · exact ⟨h, found, hfound, hstatus⟩
    · -- a lease that stays has a created row
      have hnot : ¬Stays policies cutoff st₀ job := by
        intro hstays
        rw [jobByID_congr (hrow hstays)] at hfound
        exact hstatus (hstays.2 found hfound).1
      refine ⟨h.skip fun hstays => absurd hstays hnot, ?_⟩
      rw [← h.exist]
      exact isSome_of_readable ⟨found, hfound⟩
  | error err =>
    rw [Reconcile.proceed_unreadable hfound]
    refine h.skip fun hstays => ?_
    have hunread : ¬Readable st₀.jobs job := by
      rw [← readable_congr (hrow hstays)]
      exact not_readable_of_error hfound
    exact ⟨fun _ hread => absurd hread hunread, fun _ => hrow hstays⟩

theorem ReconciledTo.complete {n : ℤ} (h : ReconciledTo policies cutoff st₀ (job :: todo) st)
    (hread : Readable st.jobs job) :
    ReconciledTo policies cutoff st₀ todo (effect cfg now st (.markUpdate .completed job n)) := by
  refine h.close rfl (fun j => rows_of_markUpdate) (fun j => isSome_markUpdate) fun hstays => ?_
  have hread₀ : Readable st₀.jobs job :=
    (readable_congr (h.rows job List.mem_cons_self hstays)).mp hread
  have hmarked := h.listed job List.mem_cons_self
  refine ⟨fun _ _ => ?_, fun hnot => absurd ⟨hmarked, hread₀⟩ hnot⟩
  obtain ⟨row, hrow⟩ := Option.isSome_iff_exists.mp (isSome_of_readable hread)
  refine ⟨{ row with status := .completed, retryCounts := n }, ?_, by simp⟩
  change (updateStatus job .completed n st.jobs).1.lookup job = _
  rw [lookup_updateStatus, if_pos rfl, hrow, Option.map_some]

theorem Marked.step {stage : Reconcile} (h : Marked policies cutoff st₀ todo job st stage)
    (hr : Heard cfg policies now st (stage.request job) resp) :
    (stage.proceed resp).elim
      (ReconciledTo policies cutoff st₀ todo (effect cfg now st (stage.request job)))
      (Marked policies cutoff st₀ todo job (effect cfg now st (stage.request job))) := by
  have hresp := hr.unfailing
  cases stage with
  | byID =>
    have hans := hr.answers hresp
    cases resp with
    | job r =>
      obtain rfl : r = jobByID job st.jobs := (jobByID_of_answers hans).symm
      exact ReconciledTo.byID h
    | _ => cases hans
  | removeMissing => cases h
  | completeSelect n =>
    obtain ⟨hrec, found, hfound, hstatus⟩ := h
    have hans := hr.answers hresp
    cases resp with
    | result r =>
      have hok : r = .ok () := Eq.trans hans (markSelect_of_created hfound hstatus)
      subst hok
      exact ⟨hrec, found, hfound⟩
    | _ => cases hans
  | completeUpdate n =>
    obtain ⟨hrec, hread⟩ := h
    have hans := hr.answers hresp
    have hsome := isSome_of_readable hread
    cases resp with
    | result r =>
      have hok : r = .ok () := Eq.trans hans (markUpdate_snd_ok.mpr hsome)
      subst hok
      exact ⟨hrec.complete hread, hrec.exist job ▸ hsome⟩
    | _ => cases hans
  | transition | close =>
    have hflag : resp = .flag true := hresp
    subst hflag
    exact h
  | removeMarker => exact h.1.unmark h.2

end InferenceQueue.Service

import InferenceQueue.CompletionMarker
import InferenceQueue.GenerationProgress

namespace InferenceQueue.Scheduler

variable {cfg : Config} {s t : State} {e : Event} {j : JobID}

theorem Effect.marked_of_mem (h : Effect cfg s e t) (hmem : j ∈ t.completedJobs) :
    j ∈ s.completedJobs ∨ e.op = .markJobCompleted j := by
  cases h with
  | pushed | requeued | orphaned =>
    left
    rwa [show (State.completedJobs _) = _ from State.enlist_completedJobs _ _ _] at hmem
  | claimed =>
    left
    rwa [show (State.completedJobs _) = _ from State.delist_completedJobs _ _ _] at hmem
  | marked =>
    rcases Finset.mem_insert.mp hmem with rfl | hmem
    · exact Or.inr rfl
    · exact Or.inl hmem
  | unmarked => exact Or.inl (Finset.mem_of_mem_erase hmem)
  | _ => exact Or.inl hmem

end InferenceQueue.Scheduler

namespace InferenceQueue.Service

def Stage.succeeded : Stage → Bool
  | marker _ | completeSelect _ | completeUpdate _ | abortClose | abortRelease
  | completeTransition | completeClose | completeRelease => true
  | _ => false

def Worker.finishes : Worker → Option JobID
  | idle => none
  | busy claim stage _ => if stage.succeeded then some claim.jobID else none

def Recovery.markers : Recovery → List JobID
  | reconciling todo jobID _ => jobID :: todo
  | _ => []

variable {cfg : Config} {resp : Response} {j : JobID}

theorem Worker.finishes_proceed {claim : Claim} {beat : Heartbeat} {stage : Stage}
    (h : (Worker.proceed cfg claim beat stage resp).finishes = some j) :
    (busy claim stage beat).finishes = some j ∨
      (claim.jobID = j ∧ ∃ m n, stage = .generate m ∧ resp = .attempts true n) := by
  unfold Worker.proceed Worker.giveUp at h
  split at h
  all_goals first
    | exact Or.inl h
    | exact Or.inr ⟨Option.some.inj h, _, _, rfl, rfl⟩
    | cases h
    | (split_ifs at h <;> cases h)

@[simp] theorem Worker.finishes_claimed (resp : Response) : (claimed resp).finishes = none := by
  unfold claimed
  split <;> rfl

@[simp] theorem Worker.finishes_resumeBeat (w : Worker) (resp : Response) :
    (w.resumeBeat cfg resp).finishes = w.finishes := by
  cases w <;> rfl

theorem Worker.finishes_of_close {w : Worker} {i : ℕ}
    (h : w.request i = .external (.closeStream j)) : w.finishes = some j := by
  cases w with
  | idle => cases h
  | busy claim stage beat =>
    cases stage with
    | abortClose | completeClose =>
      cases h
      rfl
    | _ => cases h

theorem Recovery.markers_of_close {r : Recovery}
    (h : r.request cfg = .external (.closeStream j)) : j ∈ r.markers := by
  cases r with
  | recovering c todo job stage => cases stage <;> cases h
  | reconciling todo job stage =>
    cases stage with
    | close =>
      cases h
      exact List.mem_cons_self
    | _ => cases h
  | _ => cases h

theorem Recovery.markers_sweepNext (c : ℕ) (todo : List JobID) :
    (sweepNext c todo).markers = [] := by
  cases todo <;> rfl

theorem Recovery.markers_reconcileNext (todo : List JobID) :
    (reconcileNext todo).markers = todo := by
  cases todo <;> rfl

theorem Recovery.markers_orphanNext (todo : List Jobs.Job) : (orphanNext todo).markers = [] := by
  cases todo <;> rfl

theorem Recovery.markers_resume {r : Recovery} (h : j ∈ (r.resume cfg resp).markers) :
    j ∈ r.markers ∨ (r = .listCompleted ∧ ∃ ids, resp = .ids ids ∧ j ∈ ids) := by
  unfold Recovery.resume at h
  split at h
  all_goals try split at h
  all_goals first
    | (rw [Recovery.markers_reconcileNext] at h
       first
        | exact Or.inr ⟨rfl, _, rfl, h⟩
        | exact Or.inl (List.mem_cons_of_mem _ h))
    | (rw [Recovery.markers_sweepNext] at h; cases h)
    | (rw [Recovery.markers_orphanNext] at h; cases h)
    | exact Or.inl h
    | cases h

end InferenceQueue.Service

namespace InferenceQueue.Delivery

open Service InferenceQueue.Stream

def Note.claimant (j : JobID) : Note → Option ℕ
  | claimed jobID i => if jobID = j then some i else none
  | succeeded _ _ _ => none

def Note.success (j : JobID) : Note → Option String
  | claimed _ _ => none
  | succeeded jobID _ text => if jobID = j then some text else none

def owner (j : JobID) (log : List Note) : Option ℕ := (log.filterMap (Note.claimant j)).getLast?

def successes (j : JobID) (log : List Note) : List String := log.filterMap (Note.success j)

/-- Before every completed event stands the text of the one generation that succeeded. -/
def DeliversGeneration (j : JobID) (a : Logged State Note) : Prop :=
  ∀ before event after, a.state.streams j = before ++ event :: after → event.type = .completed →
    successes j a.log = [delivered before]

/-- A job is claimed only while no generation of it has succeeded and no text of it is on the
stream; a generation succeeds only for the worker that claimed last. -/
def Note.InOrder (j : JobID) (a : Logged State Note) : Note → Prop
  | claimed jobID _ =>
    jobID = j → successes j a.log = [] ∧ delivered (a.state.streams j) = ""
  | succeeded jobID i _ => jobID = j → owner j a.log = some i

/-- Only the worker that claimed last publishes chunks and retrying events. -/
def InOrder (j : JobID) (_ : List Event) (a : Logged State Note) (e : Event) : Prop :=
  (∀ n ∈ note a.state e, n.InOrder j a) ∧
    ∀ p ∈ publication a.state e, p.2.1 = j → ¬Terminal p.2.2 →
      (owner j a.log).map .worker = some p.1

instance (j : JobID) (a : Logged State Note) (n : Note) : Decidable (n.InOrder j a) := by
  induction n using Note.casesOn <;> dsimp only [Note.InOrder] <;> infer_instance

instance (j : JobID) (past : List Event) (a : Logged State Note) (e : Event) :
    Decidable (InOrder j past a e) := by
  unfold InOrder; infer_instance

variable {cfg : Platform.Config} {s t : State} {e : Event} {i : ℕ} {j : JobID} {th : Thread}
  {event : StreamEvent} {a b : Logged State Note} {past tr : List Event} {text x : String}

/-- What has been noted tells of every success that somebody acts on. -/
structure Told (j : JobID) (a : Logged State Note) : Prop where
  worker : ∀ i, (a.state.worker i).finishes = some j → successes j a.log ≠ []
  marker : j ∈ a.state.platform.system.stores.redis.completedJobs → successes j a.log ≠ []
  pass : ∀ i, j ∈ (a.state.recovery i).markers → successes j a.log ≠ []

/-- The stream follows the worker that claimed last, up to the one success. -/
structure Follows (j : JobID) (a : Logged State Note) : Prop where
  told : Told j a
  settled : Settled a.state
  going : successes j a.log = [] → ∀ i x, owner j a.log = some i →
    a.state.progress j i = some x → delivered (a.state.streams j) = x
  ended : ∀ x ∈ successes j a.log, successes j a.log = [x] ∧ delivered (a.state.streams j) = x ∧
    ∀ i, owner j a.log = some i → a.state.progress j i = none
  delivers : DeliversGeneration j a

theorem owner_cases (hlog : b.log = a.log ++ (note a.state e).toList)
    (h : owner j b.log = some i) :
    note a.state e = some (.claimed j i) ∨ owner j a.log = some i := by
  rw [hlog] at h
  cases hnote : note a.state e with
  | none => exact Or.inr (by simpa [hnote] using h)
  | some n =>
    rw [hnote, Option.toList_some, owner, filterMap_snoc] at h
    cases n with
    | claimed k i' =>
      by_cases hk : k = j
      · subst hk
        left
        simpa [Note.claimant] using h
      · right
        simpa [Note.claimant, hk, owner] using h
    | succeeded k i' text => exact Or.inr (by simpa [Note.claimant, owner] using h)

theorem successes_cases (j : JobID) (hlog : b.log = a.log ++ (note a.state e).toList) :
    (successes j b.log = successes j a.log ∧
      ∀ i text, note a.state e ≠ some (.succeeded j i text)) ∨
      ∃ i text, note a.state e = some (.succeeded j i text) ∧
        successes j b.log = successes j a.log ++ [text] := by
  rw [hlog]
  cases hnote : note a.state e with
  | none => exact Or.inl ⟨by simp, nofun⟩
  | some n =>
    rw [Option.toList_some, successes, filterMap_snoc]
    cases n with
    | claimed k i => exact Or.inl ⟨by simp [Note.success, successes], nofun⟩
    | succeeded k i text =>
      by_cases hk : k = j
      · subst hk
        exact Or.inr ⟨i, text, rfl, by simp [Note.success, successes]⟩
      · left
        refine ⟨by simp [Note.success, successes, hk], ?_⟩
        intro i' text' heq
        cases heq
        exact hk rfl

theorem successes_ne_nil (hlog : b.log = a.log ++ (note a.state e).toList)
    (h : successes j a.log ≠ []) : successes j b.log ≠ [] := by
  rcases successes_cases j hlog with ⟨hsame, -⟩ | ⟨i, text, -, hnext⟩
  · rwa [hsame]
  · rw [hnext]
    simp

theorem Step.note_of_attempts {m : ℤ} {n : ℕ}
    (he : Step cfg s
      (.platform (.system (.call (.worker i) (.generate j m) (.attempts true n)))) t) :
    ∃ text, note s (.platform (.system (.call (.worker i) (.generate j m) (.attempts true n)))) =
      some (.succeeded j i text) := by
  have hreturns : (s.generations i).Returns m true n := he.platform.1
  cases hattempt : s.generations i with
  | streaming k text => exact ⟨text, by simp [note, hattempt]⟩
  | ready | failed =>
    rw [hattempt] at hreturns
    cases hreturns

theorem Told.worker_step (h : Told j a) (he : Step cfg a.state e b.state)
    (hlog : b.log = a.log ++ (note a.state e).toList)
    (hworker : (b.state.worker i).finishes = some j) : successes j b.log ≠ [] := by
  rcases he.worker i with hsame | ⟨resp, rfl, hnext⟩ | ⟨req, resp, -, hbeat⟩
  · exact successes_ne_nil hlog (h.worker i (hsame ▸ hworker))
  · rw [hnext] at hworker
    cases hbefore : a.state.worker i with
    | idle =>
      rw [hbefore] at hworker
      change (Worker.claimed resp).finishes = some j at hworker
      simp at hworker
    | busy claim stage beat =>
      rw [hbefore] at hworker he hlog
      rcases Worker.finishes_proceed hworker with hold | ⟨rfl, m, n, rfl, rfl⟩
      · exact successes_ne_nil hlog (h.worker i (hbefore ▸ hold))
      · obtain ⟨text, hnote⟩ := he.note_of_attempts
        rcases successes_cases claim.jobID hlog with ⟨-, hnone⟩ | ⟨i', text', -, hsucc⟩
        · exact absurd hnote (hnone i text)
        · simp [hsucc]
  · rw [hbeat, Worker.finishes_resumeBeat] at hworker
    exact successes_ne_nil hlog (h.worker i hworker)

theorem Told.marker_step (h : Told j a) (he : Step cfg a.state e b.state)
    (hlog : b.log = a.log ++ (note a.state e).toList)
    (hmem : j ∈ b.state.platform.system.stores.redis.completedJobs) :
    successes j b.log ≠ [] := by
  apply successes_ne_nil hlog
  rcases he.system with ⟨se, rfl, hs⟩ | ⟨-, hsame⟩
  · rcases hs.redis with ⟨pe, hpe, hstep⟩ | ⟨-, hredis⟩
    · rcases hstep.effect.marked_of_mem hmem with hold | hmark
      · exact h.marker hold
      · obtain ⟨th, resp, rfl, -⟩ := Event.redisOp_eq_some (hmark ▸ redisOp_of_performed hpe)
        have hissues := hs.call.1.issues
        generalize hop : Scheduler.Op.markJobCompleted j = op at hissues
        cases hissues with
        | @mark i claim n beat hworker =>
          cases hop
          exact h.worker i (by rw [State.worker, hworker]; rfl)
        | _ => cases hop
    · exact h.marker (hredis ▸ hmem)
  · exact h.marker (hsame ▸ hmem)

theorem Told.pass_step (h : Told j a) (he : Step cfg a.state e b.state)
    (hlog : b.log = a.log ++ (note a.state e).toList)
    (hmem : j ∈ (b.state.recovery i).markers) : successes j b.log ≠ [] := by
  apply successes_ne_nil hlog
  rcases he.recovery i with hsame | ⟨resp, rfl, hnext⟩
  · exact h.pass i (hsame ▸ hmem)
  · rw [hnext] at hmem
    rcases Recovery.markers_resume hmem with hold | ⟨hlist, ids, rfl, hids⟩
    · exact h.pass i hold
    · rw [hlist] at he
      obtain ⟨-, st, hst, -⟩ := he.service.call
      have hans : ids.Nodup ∧ ids.toFinset =
          a.state.platform.system.stores.redis.completedJobs := answers_of_serve hst (by simp)
      exact h.marker (hans.2 ▸ List.mem_toFinset.mpr hids)

theorem Told.step (h : Told j a) (he : Step cfg a.state e b.state)
    (hlog : b.log = a.log ++ (note a.state e).toList) : Told j b where
  worker _ := h.worker_step he hlog
  marker := h.marker_step he hlog
  pass _ := h.pass_step he hlog

/-- Who closes a stream as completed acts on a success. -/
theorem Told.of_completed (h : Told j a) (he : Step cfg a.state e t)
    (hpub : publication a.state e = some (th, j, event)) (htype : event.type = .completed) :
    successes j a.log ≠ [] := by
  cases publishes_of_publication hpub with
  | completed =>
    rcases he.service.call.1.ends rfl with ⟨i, rfl, hreq⟩ | ⟨i, rfl, hreq⟩
    · exact h.worker i (Worker.finishes_of_close hreq)
    · exact h.pass i (Recovery.markers_of_close hreq)
  | chunk | retrying | failed => cases htype

theorem InOrder.owner_of_publication (hok : InOrder j past a e) (he : Step cfg a.state e t)
    (hpub : publication a.state e = some (th, j, event)) (hnot : ¬Terminal event) :
    ∃ i y, th = .worker i ∧ owner j a.log = some i ∧ a.state.progress j i = some y := by
  obtain ⟨i, y, rfl, hy⟩ := he.progress_of_publication hpub hnot
  have howner := hok.2 _ hpub rfl hnot
  obtain ⟨i', hi', hth⟩ := Option.map_eq_some_iff.mp howner
  cases hth
  exact ⟨i, y, rfl, hi', hy⟩

theorem InOrder.owner_of_success (hok : InOrder j past a e)
    (h : note a.state e = some (.succeeded j i text)) : owner j a.log = some i :=
  hok.1 _ h rfl

theorem InOrder.fresh_of_claim (hok : InOrder j past a e)
    (h : note a.state e = some (.claimed j i)) :
    successes j a.log = [] ∧ delivered (a.state.streams j) = "" := hok.1 _ h rfl

theorem note_platform {n : Note} (h : note s e = some n) : ∃ pe, e = .platform pe := by
  unfold note at h
  split at h
  · exact ⟨_, rfl⟩
  · exact ⟨_, rfl⟩
  · cases h

theorem Step.delivered_of_note {n : Note} (he : Step cfg s e t) (h : note s e = some n) :
    delivered (t.streams j) = delivered (s.streams j) := by
  obtain ⟨pe, rfl⟩ := note_platform h
  exact he.delivered_eq fun th event hpub => terminal_of_platform hpub

/-- The first success is the only one. -/
theorem Follows.success_first (h : Follows j a) (hok : InOrder j past a e)
    (he : Step cfg a.state e t) (hnote : note a.state e = some (.succeeded j i text)) :
    successes j a.log = [] := by
  by_contra hne
  obtain ⟨x, hx⟩ := List.exists_mem_of_ne_nil _ hne
  have hnone := (h.ended x hx).2.2 i (hok.owner_of_success hnote)
  rw [(he.progress_of_success hnote).1] at hnone
  cases hnone

theorem Follows.going_step (h : Follows j a) (hok : InOrder j past a e)
    (hpub : e.published = true) (he : Step cfg a.state e b.state)
    (hlog : b.log = a.log ++ (note a.state e).toList) (hnone : successes j b.log = [])
    (howner : owner j b.log = some i) (hx : b.state.progress j i = some x) :
    delivered (b.state.streams j) = x := by
  have hbefore : successes j a.log = [] := by
    by_contra hne
    exact successes_ne_nil hlog hne hnone
  cases he.progress h.settled hpub hx with
  | claimed hnote => rw [he.delivered_of_note hnote, (hok.fresh_of_claim hnote).2]
  | same hprogress hclaim hquiet =>
    have hown : owner j a.log = some i := (owner_cases hlog howner).resolve_left hclaim
    rw [he.delivered_eq, h.going hbefore i x hown hprogress]
    intro th event hpub
    by_contra hnot
    obtain ⟨i', y, rfl, hi', -⟩ := hok.owner_of_publication he hpub hnot
    obtain rfl := Option.some.inj (hi'.symm.trans hown)
    exact hnot (hquiet event hpub)
  | @chunk y text hprogress hpub =>
    obtain ⟨i', y', hth, hown, -⟩ := hok.owner_of_publication he hpub (by simp [Terminal])
    cases hth
    rw [he.stream_of_some hpub, delivered_chunk, h.going hbefore i y hown hprogress]
  | retrying hprogress hpub => rw [he.stream_of_some hpub, delivered_retrying]

theorem Follows.ended_step (h : Follows j a) (hok : InOrder j past a e)
    (hpub : e.published = true) (he : Step cfg a.state e b.state)
    (hlog : b.log = a.log ++ (note a.state e).toList) (hx : x ∈ successes j b.log) :
    successes j b.log = [x] ∧ delivered (b.state.streams j) = x ∧
      ∀ i, owner j b.log = some i → b.state.progress j i = none := by
  rcases successes_cases j hlog with ⟨hsame, hnone⟩ | ⟨i, text, hnote, hnext⟩
  · rw [hsame] at hx ⊢
    obtain ⟨hone, hdelivered, hover⟩ := h.ended x hx
    have hclaim : ∀ i, note a.state e ≠ some (.claimed j i) := by
      intro i hnote
      rw [(hok.fresh_of_claim hnote).1] at hx
      cases hx
    refine ⟨hone, ?_, ?_⟩
    · rw [he.delivered_eq, hdelivered]
      intro th event hpub
      by_contra hnot
      obtain ⟨i, y, rfl, howner, hy⟩ := hok.owner_of_publication he hpub hnot
      rw [hover i howner] at hy
      cases hy
    · intro i howner
      have hbefore := hover i ((owner_cases hlog howner).resolve_left (hclaim i))
      by_contra hne
      obtain ⟨y, hy⟩ := Option.ne_none_iff_exists'.mp hne
      cases he.progress h.settled hpub hy with
      | claimed hnote => exact hclaim i hnote
      | same hprogress => cases hbefore.symm.trans hprogress
      | chunk hprogress => cases hbefore.symm.trans hprogress
      | retrying hprogress => cases hbefore.symm.trans hprogress
  · have hfirst := h.success_first hok he hnote
    have howned := hok.owner_of_success hnote
    obtain ⟨hprogress, hafter⟩ := he.progress_of_success hnote
    rw [hnext, hfirst, List.nil_append] at hx ⊢
    obtain rfl := List.mem_singleton.mp hx
    refine ⟨rfl, ?_, ?_⟩
    · rw [he.delivered_of_note hnote, h.going hfirst i x howned hprogress]
    · intro i' howner
      rcases owner_cases hlog howner with hclaim | hsame
      · cases hclaim.symm.trans hnote
      · obtain rfl := Option.some.inj (hsame.symm.trans howned)
        exact hafter

theorem Follows.delivers_step (h : Follows j a) (hok : InOrder j past a e)
    (he : Step cfg a.state e b.state) (hlog : b.log = a.log ++ (note a.state e).toList) :
    DeliversGeneration j b := by
  -- a success comes before the first completed event
  have hkeeps : successes j a.log ≠ [] → successes j b.log = successes j a.log := by
    intro hne
    rcases successes_cases j hlog with ⟨hsame, -⟩ | ⟨i, text, hnote, -⟩
    · exact hsame
    · exact absurd (h.success_first hok he hnote) hne
  have hold : ∀ before event after, a.state.streams j = before ++ event :: after →
      event.type = .completed → successes j b.log = [delivered before] := by
    intro before event after heq htype
    have hone := h.delivers before event after heq htype
    rw [hkeeps (by rw [hone]; simp), hone]
  intro before event after heq htype
  rcases he.stream j with ⟨hsame, -⟩ | ⟨th, event', hpub, happend⟩
  · exact hold before event after (hsame ▸ heq) htype
  · rw [happend] at heq
    cases after using List.reverseRecOn with
    | nil =>
      obtain ⟨rfl, hevent⟩ := List.append_inj' heq rfl
      cases hevent
      have hne := h.told.of_completed he hpub htype
      obtain ⟨x, hx⟩ := List.exists_mem_of_ne_nil _ hne
      obtain ⟨hone, hdelivered, -⟩ := h.ended x hx
      rw [hkeeps hne, hone, hdelivered]
    | append_singleton after last =>
      rw [← List.cons_append, ← List.append_assoc] at heq
      exact hold before event after (List.append_inj' heq rfl).1 htype

theorem Follows.step (h : Follows j a) (hok : InOrder j past a e) (hpub : e.published = true)
    (he : Fires (loggedStep (step cfg) note) a e b) : Follows j b := by
  obtain ⟨hstep, hlog⟩ := loggedStep_inv he
  exact {
    told := h.told.step hstep hlog
    settled := h.settled.step hstep
    going := fun hnone i x => h.going_step hok hpub hstep hlog hnone
    ended := fun x => h.ended_step hok hpub hstep hlog
    delivers := h.delivers_step hok hstep hlog }

theorem Follows.initial (j : JobID) : Follows j ⟨State.initial, []⟩ where
  told := ⟨nofun, nofun, nofun⟩
  settled _ _ := rfl
  going _ _ _ := nofun
  ended _ := nofun
  delivers before event after heq := by simp [State.initial] at heq

/-- While the workers keep out of each other's way, the delivered text is that of the one
generation that succeeded. -/
theorem delivers_generation (h : Run (Fires (loggedStep (step cfg) note)) ⟨State.initial, []⟩ tr a)
    (hpub : ∀ e ∈ tr, e.published = true)
    (hok : Throughout (Fires (loggedStep (step cfg) note)) ⟨State.initial, []⟩ tr (InOrder j)) :
    DeliversGeneration j a := by
  have hboth : Throughout (Fires (loggedStep (step cfg) note)) ⟨State.initial, []⟩ tr
      fun past a e => InOrder j past a e ∧ e.published = true := hok.and (.of_forall hpub)
  refine (h.guarded (fun _ a => Follows j a) (Follows.initial j) ?_ hboth).delivers
  rintro past a e b hfollows ⟨hok, hpub⟩ he
  exact hfollows.step hok hpub he

/-- A worker stops in the middle of a generation.  Recovery puts the job back without a retrying
event, so what the next worker streams comes after the text that was abandoned. -/
theorem delivers_abandoned_text :
    ¬∀ (cfg : Platform.Config) (tr : List Event) (a : Logged State Note) (j : JobID),
      Run (Fires (loggedStep (step cfg) note)) ⟨State.initial, []⟩ tr a →
        (∀ e ∈ tr, e.published = true) → DeliversGeneration j a := by
  intro hall
  let tr := accepted 0 job1 alice ++ runs [claiming 0 job1 alice] ++
    streaming 0 job1 alice ["Hel"] ++ runs ([.tick 30000] ++ requeuing 0 30000 job1 alice 1 3) ++
    runs [claiming 1 job1 alice] ++ generatedText 1 job1 alice ["Hello"] ++ runs (completed 1 job1)
  obtain ⟨a, hrun, hstream, htext⟩ := Run.exists_of_foldlM
    (loggedStep (step Platform.smallPlatform) note) ⟨State.initial, []⟩ tr
    (fun a => a.state.streams job1 =
        [⟨.chunk, "Hel"⟩, ⟨.chunk, "Hello"⟩] ++ ⟨.completed, ""⟩ :: [] ∧
      successes job1 a.log ≠ [delivered [⟨.chunk, "Hel"⟩, ⟨.chunk, "Hello"⟩]])
    (by decide +kernel)
  exact htext (hall _ tr a job1 hrun (by decide +kernel) _ _ _ hstream rfl)

/-- The first attempt breaks off in the middle of the text, the second succeeds. -/
theorem delivers_generation_retried :
    ∃ tr a, Run (Fires (loggedStep (step Platform.smallPlatform) note)) ⟨State.initial, []⟩ tr a ∧
      (a.state.streams job1).getLast? = some ⟨.completed, ""⟩ ∧ successes job1 a.log = ["Hello"] ∧
      DeliversGeneration job1 a := by
  let tr := accepted 0 job1 alice ++ runs [claiming 0 job1 alice] ++
    streaming 0 job1 alice ["Hel"] ++
    [.attemptFailed 0 true .done, .attempt 0, .chunk 0 "Hello" .done] ++
    runs [.call (.worker 0) (.generate job1 3) (.attempts true 2),
      .call (.worker 0) (.redis (.markJobCompleted job1)) (.reply (.done (.ok ()))),
      .call (.worker 0) (.markSelect .completed job1) (.result (.ok ())),
      .call (.worker 0) (.markUpdate .completed job1 2) (.result (.ok ())),
      .call (.worker 0) (.external (.transitionStatus job1 .completed)) (.flag true),
      .call (.worker 0) (.external (.closeStream job1)) (.flag true)]
  obtain ⟨a, hrun, hlast, htext⟩ := Run.exists_of_foldlM
    (loggedStep (step Platform.smallPlatform) note) ⟨State.initial, []⟩ tr
    (fun a => (a.state.streams job1).getLast? = some ⟨.completed, ""⟩ ∧
      successes job1 a.log = ["Hello"]) (by decide +kernel)
  exact ⟨tr, a, hrun, hlast, htext, delivers_generation hrun (by decide +kernel)
    (throughout_of_always (by decide +kernel))⟩

end InferenceQueue.Delivery

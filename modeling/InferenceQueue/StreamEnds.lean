import InferenceQueue.StreamModel

namespace InferenceQueue.Service

def Stage.publishes : Stage → Bool
  | abortRelease | completeRelease => false
  | _ => true

def RecoverOne.publishes : RecoverOne → Bool
  | failSelect _ | failUpdate _ | failTransition | failPublish => true
  | _ => false

def Reconcile.publishes : Reconcile → Bool
  | completeSelect _ | completeUpdate _ | transition | close => true
  | _ => false

def Worker.stream : Worker → Option JobID
  | idle => none
  | busy claim stage _ => if stage.publishes then some claim.jobID else none

def Recovery.stream : Recovery → Option JobID
  | recovering _ _ jobID stage => if stage.publishes then some jobID else none
  | reconciling _ jobID stage => if stage.publishes then some jobID else none
  | _ => none

/-- A pass takes a job up when it has removed the exhausted lease, and when it has read the row
behind a marker. -/
def Recovery.takesUp : Recovery → Response → Option JobID
  | recovering _ _ jobID (.removeExhausted _), .reply (.flag true) => some jobID
  | reconciling _ jobID .byID, .job (.ok _) => some jobID
  | _, _ => none

def Request.ends : Request → Option JobID
  | .external (.publishFailed jobID) | .external (.closeStream jobID) => some jobID
  | _ => none

variable {cfg : Config} {resp : Response} {j : JobID}

theorem Worker.stream_of_ends {w : Worker} {i : ℕ} (h : (w.request i).ends = some j) :
    w.stream = some j := by
  cases w with
  | idle => cases h
  | busy claim stage beat =>
    cases stage with
    | failPublish | abortClose | completeClose => exact h
    | _ => cases h

theorem Recovery.stream_of_ends {r : Recovery} (h : (r.request cfg).ends = some j) :
    r.stream = some j := by
  cases r with
  | recovering cutoff todo job stage =>
    cases stage with
    | failPublish => exact h
    | _ => cases h
  | reconciling todo job stage =>
    cases stage with
    | close => exact h
    | _ => cases h
  | _ => cases h

theorem Requests.ends {s : System} {req : Request} {th : Thread} (h : Requests cfg s req th)
    (hends : req.ends = some j) :
    (∃ i, th = .worker i ∧ (s.workers i).request i = req) ∨
      ∃ i, th = .recovery i ∧ (s.recoveries i).request cfg = req := by
  cases th with
  | worker i => exact Or.inl ⟨i, rfl, h⟩
  | recovery i => exact Or.inr ⟨i, rfl, h⟩
  | submit i =>
    change (s.submits i).requests req at h
    generalize s.submits i = p at h
    unfold Submit.requests at h
    split at h
    · obtain ⟨job, user, rfl⟩ := h
      cases hends
    all_goals first
      | (subst h; cases hends)
      | cases h
  | heartbeat i =>
    change (s.workers i).beatRequest = some req at h
    unfold Worker.beatRequest at h
    split at h
    · cases h
    · split_ifs at h
      cases h
      cases hends

theorem Worker.stream_proceed {claim : Claim} {beat : Heartbeat} {stage : Stage}
    (h : (Worker.proceed cfg claim beat stage resp).stream = some j) :
    (busy claim stage beat).stream = some j ∧ (stage.request claim).ends = none := by
  unfold Worker.proceed Worker.giveUp at h
  split at h
  all_goals first
    | exact ⟨h, rfl⟩
    | cases h
    | (split_ifs at h
       · cases h
       · exact ⟨h, rfl⟩)

@[simp] theorem Worker.stream_resumeBeat (w : Worker) (resp : Response) :
    (w.resumeBeat cfg resp).stream = w.stream := by
  cases w <;> rfl

theorem RecoverOne.publishes_of_proceed {stage stage' : RecoverOne}
    (h : stage.proceed resp = some stage') (hpub : stage'.publishes = true) :
    (stage.publishes = true ∧ ∀ cutoff job, (stage.request cutoff job).ends = none) ∨
      ∃ n, stage = .removeExhausted n ∧ resp = .reply (.flag true) := by
  unfold RecoverOne.proceed at h
  split at h
  all_goals first
    | cases h; done
    | (cases h; exact Or.inl ⟨rfl, fun _ _ => rfl⟩)
    | (cases h; exact Or.inr ⟨_, rfl, rfl⟩)
    | (cases h; cases hpub)
    | (split_ifs at h <;> cases h <;> cases hpub)

theorem Reconcile.publishes_of_proceed {stage stage' : Reconcile}
    (h : stage.proceed resp = some stage') (hpub : stage'.publishes = true) :
    (stage.publishes = true ∧ ∀ job, (stage.request job).ends = none) ∨
      (stage = .byID ∧ ∃ job, resp = .job (.ok job)) := by
  unfold Reconcile.proceed at h
  split at h
  all_goals first
    | exact Or.inr ⟨rfl, _, rfl⟩
    | (cases h; done)
    | (cases h; exact Or.inl ⟨rfl, fun _ => rfl⟩)
    | (cases h; cases hpub)
    | (split_ifs at h; cases h; cases hpub)

theorem Recovery.stream_of_fresh {r : Recovery} (h : r.fresh) : r.stream = none := by
  cases r with
  | recovering | reconciling =>
    rw [show _ = _ from h]
    rfl
  | _ => rfl

end InferenceQueue.Service

namespace InferenceQueue.Delivery

open Service InferenceQueue.Stream

def Terminal (event : StreamEvent) : Prop := event.type = .completed ∨ event.type = .failed

instance (event : StreamEvent) : Decidable (Terminal event) := by unfold Terminal; infer_instance

/-- A terminal event is the last one, so there is at most one. -/
def EndsOnce (stream : List StreamEvent) : Prop := ∀ event ∈ stream.dropLast, ¬Terminal event

instance (stream : List StreamEvent) : Decidable (EndsOnce stream) := by
  unfold EndsOnce; infer_instance

def State.stream (s : State) : Thread → Option JobID
  | .worker i => (s.worker i).stream
  | .recovery i => (s.recovery i).stream
  | _ => none

def takesUp (s : State) : Event → Option (JobID × Thread)
  | .platform (.system (.call (.worker i) _ (.reply (.claim (.ok (some r)))))) =>
    some (r.jobID, .worker i)
  | .platform (.system (.call (.recovery i) _ resp)) =>
    ((s.recovery i).takesUp resp).map (·, .recovery i)
  | _ => none

def holder (j : JobID) (log : List (JobID × Thread)) : Option Thread :=
  (log.filterMap fun n => if n.1 = j then some n.2 else none).getLast?

/-- A job is taken up only while its stream has no end, and only the thread that took it up last
publishes. -/
def OneAtATime (j : JobID) (_ : List Event) (a : Logged State (JobID × Thread)) (e : Event) :
    Prop :=
  (∀ n ∈ takesUp a.state e, n.1 = j → ∀ event ∈ a.state.streams j, ¬Terminal event) ∧
    ∀ p ∈ publication a.state e, p.2.1 = j → holder j a.log = some p.1

instance (j : JobID) (past : List Event) (a : Logged State (JobID × Thread)) (e : Event) :
    Decidable (OneAtATime j past a e) := by
  unfold OneAtATime; infer_instance

variable {cfg : Platform.Config} {s t : State} {e : Event} {i : ℕ} {j : JobID} {th : Thread}
  {event : StreamEvent}

theorem holder_snoc {log : List (JobID × Thread)} {k : JobID} :
    holder j (log ++ [(k, th)]) = if k = j then some th else holder j log := by
  unfold holder
  rw [filterMap_snoc]
  split_ifs <;> simp

theorem stream_of_generating {g : Generating} (h : s.generating i = some g) :
    s.stream (.worker i) = some g.jobID := by
  unfold State.generating generatingOf at h
  change (s.worker i).stream = _
  split at h
  · next hworker =>
    cases h
    rw [hworker]
    rfl
  · cases h

/-- Only a thread that is not done with the job publishes. -/
theorem Step.stream_of_publication (he : Step cfg s e t)
    (h : publication s e = some (th, j, event)) : s.stream th = some j := by
  have hends : ∀ req resp, e = .platform (.system (.call th req resp)) → req.ends = some j →
      s.stream th = some j := by
    rintro req resp rfl hreq
    have hcall := (he.platform.2.1.service.2.call).1
    rcases hcall.ends hreq with ⟨i, rfl, rfl⟩ | ⟨i, rfl, rfl⟩
    · exact Worker.stream_of_ends hreq
    · exact Recovery.stream_of_ends hreq
  cases publishes_of_publication h with
  | chunk hg => exact stream_of_generating hg
  | retrying hg => exact stream_of_generating hg
  | failed => exact hends _ _ rfl rfl
  | completed => exact hends _ _ rfl rfl

theorem terminal_of_publication (h : publication s e = some (th, j, event))
    (hterminal : Terminal event) :
    ∃ req resp, e = .platform (.system (.call th req resp)) ∧ req.ends = some j := by
  cases publishes_of_publication h with
  | chunk | retrying => simp [Terminal] at hterminal
  | failed => exact ⟨_, _, rfl, rfl⟩
  | completed => exact ⟨_, _, rfl, rfl⟩

theorem Step.worker_stream {req : Request} {resp : Response}
    (he : Step cfg s (.platform (.system (.call (.worker i) req resp))) t)
    (h : (t.worker i).stream = some j) :
    takesUp s (.platform (.system (.call (.worker i) req resp))) = some (j, .worker i) ∨
      ((s.worker i).stream = some j ∧ req.ends = none) := by
  -- a worker comes to publish on a stream by claiming the job, and goes on until it has published a
  -- terminal event
  have hreq : (s.worker i).request i = req := he.service.call.1
  have hnext : t.worker i = (s.worker i).resume cfg.service resp := he.service.worker_self
  subst hreq
  rw [hnext] at h
  cases hworker : s.worker i with
  | idle =>
    rw [hworker] at h
    change (Worker.claimed resp).stream = some j at h
    unfold Worker.claimed at h
    split at h
    · cases h
      exact Or.inl rfl
    · cases h
  | busy claim stage beat =>
    rw [hworker] at h
    exact Or.inr (Worker.stream_proceed h)

theorem Step.recovery_stream {req : Request} {resp : Response}
    (he : Step cfg s (.platform (.system (.call (.recovery i) req resp))) t)
    (h : (t.recovery i).stream = some j) :
    takesUp s (.platform (.system (.call (.recovery i) req resp))) = some (j, .recovery i) ∨
      ((s.recovery i).stream = some j ∧ req.ends = none) := by
  have hreq : (s.recovery i).request cfg.service = req := he.service.call.1
  have hmoves := Recovery.moves cfg.service (s.recovery i) resp
  have hnext : t.recovery i = (s.recovery i).resume cfg.service resp := he.service.recovery_self
  rw [← hnext] at hmoves
  subst hreq
  change ((s.recovery i).takesUp resp).map _ = _ ∨ _
  generalize s.recovery i = r at hmoves
  generalize t.recovery i = r' at hmoves h
  cases hmoves with
  | recover hproceed =>
    simp only [Recovery.stream] at h
    split_ifs at h with hpub
    obtain rfl := Option.some.inj h
    rcases RecoverOne.publishes_of_proceed hproceed hpub with ⟨hbefore, hends⟩ | ⟨n, rfl, rfl⟩
    · exact Or.inr ⟨by rw [Recovery.stream, if_pos hbefore], hends _ _⟩
    · exact Or.inl rfl
  | reconcile hproceed =>
    simp only [Recovery.stream] at h
    split_ifs at h with hpub
    obtain rfl := Option.some.inj h
    rcases Reconcile.publishes_of_proceed hproceed hpub with ⟨hbefore, hends⟩ | ⟨rfl, job, rfl⟩
    · exact Or.inr ⟨by rw [Recovery.stream, if_pos hbefore], hends _⟩
    · exact Or.inl rfl
  | anew hfresh =>
    rw [Recovery.stream_of_fresh hfresh] at h
    cases h

/-- Who may publish has taken the job up, now or before, and has not ended the stream since. -/
theorem Step.stream_keeps (he : Step cfg s e t) (h : t.stream th = some j) :
    takesUp s e = some (j, th) ∨
      (s.stream th = some j ∧
        ∀ event, publication s e = some (th, j, event) → ¬Terminal event) := by
  have hnot : (∀ req resp, e = .platform (.system (.call th req resp)) → req.ends = none) →
      ∀ event, publication s e = some (th, j, event) → ¬Terminal event := by
    intro hends event hpub hterminal
    obtain ⟨req, resp, heq, hreq⟩ := terminal_of_publication hpub hterminal
    rw [hends req resp heq] at hreq
    cases hreq
  by_cases hown : ∃ req resp, e = .platform (.system (.call th req resp))
  · obtain ⟨req, resp, rfl⟩ := hown
    have hstream : takesUp s (.platform (.system (.call th req resp))) = some (j, th) ∨
        (s.stream th = some j ∧ req.ends = none) := by
      cases th with
      | worker i => exact he.worker_stream h
      | recovery i => exact he.recovery_stream h
      | submit i => cases h
      | heartbeat i => cases h
    refine hstream.imp_right fun ⟨hbefore, hends⟩ => ⟨hbefore, hnot ?_⟩
    intro req' resp' heq
    cases heq
    exact hends
  · have hother : ∀ req resp, e ≠ .platform (.system (.call th req resp)) :=
      fun req resp heq => hown ⟨req, resp, heq⟩
    refine Or.inr ⟨?_, hnot fun req resp heq => absurd heq (hother req resp)⟩
    cases th with
    | worker i =>
      change (t.worker i).stream = some j at h
      rcases he.worker i with hsame | ⟨resp, heq, -⟩ | ⟨req, resp, -, hbeat⟩
      · rwa [hsame] at h
      · exact absurd heq (hother _ _)
      · rwa [hbeat, Worker.stream_resumeBeat] at h
    | recovery i =>
      change (t.recovery i).stream = some j at h
      rcases he.recovery i with hsame | ⟨resp, heq, -⟩
      · rwa [hsame] at h
      · exact absurd heq (hother _ _)
    | submit i => cases h
    | heartbeat i => cases h

theorem publication_of_ends {req : Request} {resp : Response} (h : req.ends = none) :
    publication s (.platform (.system (.call th req resp))) = none := by
  cases req with
  | external what =>
    cases what with
    | publishFailed | closeStream => cases h
    | _ => rfl
  | _ => rfl

theorem Step.publication_of_takesUp (he : Step cfg s e t) {n : JobID × Thread}
    (h : takesUp s e = some n) : publication s e = none := by
  unfold takesUp at h
  split at h
  · next i req r =>
    obtain ⟨-, st, hst, -⟩ := he.service.call
    have hans := answers_of_serve hst (by simp)
    refine publication_of_ends ?_
    cases req with
    | external => cases hans
    | _ => rfl
  · next i req resp =>
    have hreq : (s.recovery i).request cfg.service = req := he.service.call.1
    obtain ⟨k, hk, -⟩ := Option.map_eq_some_iff.mp h
    refine publication_of_ends ?_
    rw [← hreq]
    generalize s.recovery i = r at hk
    unfold Recovery.takesUp at hk
    split at hk
    · rfl
    · rfl
    · cases hk
  · cases h

/-- Once the stream has ended, the thread that took the job up last publishes no more. -/
structure Ended (j : JobID) (a : Logged State (JobID × Thread)) : Prop where
  once : EndsOnce (a.state.streams j)
  done : ∀ event ∈ a.state.streams j, Terminal event →
    ∀ th, holder j a.log = some th → a.state.stream th ≠ some j

variable {a b : Logged State (JobID × Thread)} {past tr : List Event}

theorem Ended.initial (j : JobID) : Ended j ⟨State.initial, []⟩ := by
  constructor
  · intro event hevent
    cases hevent
  · intro event hevent
    cases hevent

theorem Ended.open_of_publication (h : Ended j a) (hok : OneAtATime j past a e)
    (he : Step cfg a.state e t) (hpub : publication a.state e = some (th, j, event)) :
    ∀ event ∈ a.state.streams j, ¬Terminal event := by
  intro event hmem hterminal
  have hholder : holder j a.log = some th := hok.2 _ hpub rfl
  exact h.done event hmem hterminal th hholder (he.stream_of_publication hpub)

theorem Ended.once_step (h : Ended j a) (hok : OneAtATime j past a e)
    (he : Step cfg a.state e t) : EndsOnce (t.streams j) := by
  rcases he.stream j with ⟨hsame, -⟩ | ⟨th, event, hpub, happend⟩
  · rw [hsame]
    exact h.once
  · rw [happend, EndsOnce, List.dropLast_concat]
    exact h.open_of_publication hok he hpub

theorem Ended.done_step (h : Ended j a) (hok : OneAtATime j past a e)
    (he : Fires (loggedStep (step cfg) takesUp) a e b) (hevent : event ∈ b.state.streams j)
    (hterminal : Terminal event) (hholder : holder j b.log = some th) :
    b.state.stream th ≠ some j := by
  intro hstream
  obtain ⟨hfires, hlog⟩ := loggedStep_inv he
  have hstep : Step cfg a.state e b.state := hfires
  have hfresh : takesUp a.state e ≠ some (j, th) := by
    intro htakes
    rcases hstep.stream j with ⟨hsame, -⟩ | ⟨th', event', hpub, -⟩
    · exact hok.1 _ htakes rfl event (hsame ▸ hevent) hterminal
    · rw [hstep.publication_of_takesUp htakes] at hpub
      cases hpub
  rcases hstep.stream_keeps hstream with htakes | ⟨hbefore, hnot⟩
  · exact hfresh htakes
  · have hheld : holder j a.log = some th := by
      rw [hlog] at hholder
      cases hnote : takesUp a.state e with
      | none => simpa [hnote] using hholder
      | some n =>
        obtain ⟨k, th'⟩ := n
        rw [hnote, Option.toList_some, holder_snoc] at hholder
        split_ifs at hholder with hk
        · cases hholder
          exact absurd (hk ▸ hnote) hfresh
        · exact hholder
    rcases hstep.stream j with ⟨hsame, -⟩ | ⟨th', event', hpub, happend⟩
    · exact h.done event (hsame ▸ hevent) hterminal th hheld hbefore
    · obtain rfl : th' = th := Option.some.inj ((hok.2 _ hpub rfl).symm.trans hheld)
      rw [happend, List.mem_append, List.mem_singleton] at hevent
      rcases hevent with hold | rfl
      · exact h.done event hold hterminal th' hheld hbefore
      · exact hnot event hpub hterminal

theorem Ended.step (h : Ended j a) (hok : OneAtATime j past a e)
    (he : Fires (loggedStep (step cfg) takesUp) a e b) : Ended j b where
  once := h.once_step hok (loggedStep_inv he).1
  done _ hevent hterminal _ hholder := h.done_step hok he hevent hterminal hholder

/-- While jobs are taken up one at a time, a stream ends once. -/
theorem stream_ends_once (h : Run (Fires (loggedStep (step cfg) takesUp)) ⟨State.initial, []⟩ tr a)
    (hok : Throughout (Fires (loggedStep (step cfg) takesUp)) ⟨State.initial, []⟩ tr
      (OneAtATime j)) : EndsOnce (a.state.streams j) := by
  refine (h.guarded (fun _ a => Ended j a) (Ended.initial j) ?_ hok).once
  intro past a e b hended hok he
  exact hended.step hok he

/-- A completion leaves its marker behind, and the next pass closes the stream once more. -/
theorem stream_ends_twice :
    ¬∀ (cfg : Platform.Config) (tr : List Event) (a : Logged State (JobID × Thread)) (j : JobID),
      Run (Fires (loggedStep (step cfg) takesUp)) ⟨State.initial, []⟩ tr a →
        (∀ e ∈ tr, e.fails = false) → EndsOnce (a.state.streams j) := by
  intro hall
  let tr := accepted 0 job1 alice ++ runs [claiming 0 job1 alice] ++
    generatedText 0 job1 alice ["Hello"] ++ runs (completed 0 job1) ++
    runs [.call (.recovery 0) .clock (.time 0),
      .call (.recovery 0) (.expiredJobIDs 0 10) (.ids []),
      .call (.recovery 0) .completedJobIDs (.ids [job1]),
      .call (.recovery 0) (.byID job1) (.job (.ok ⟨job1, alice, .completed, 1, 0⟩)),
      .call (.recovery 0) (.external (.transitionStatus job1 .completed)) (.flag true),
      .call (.recovery 0) (.external (.closeStream job1)) (.flag true)]
  obtain ⟨a, hrun, hends⟩ := Run.exists_of_foldlM (loggedStep (step Platform.smallPlatform) takesUp)
    ⟨State.initial, []⟩ tr (fun a => ¬EndsOnce (a.state.streams job1)) (by decide +kernel)
  exact hends (hall _ tr a job1 hrun (by decide +kernel))

/-- A worker stops in the middle of a generation, and the one that gets the job next ends the
stream. -/
theorem stream_ends_once_recovered :
    ∃ tr a,
      Run (Fires (loggedStep (step Platform.smallPlatform) takesUp)) ⟨State.initial, []⟩ tr a ∧
      (a.state.streams job1).getLast? = some ⟨.completed, ""⟩ ∧
      EndsOnce (a.state.streams job1) := by
  let tr := accepted 0 job1 alice ++ runs [claiming 0 job1 alice] ++
    streaming 0 job1 alice ["Hel"] ++ runs ([.tick 30000] ++ requeuing 0 30000 job1 alice 1 3) ++
    runs [claiming 1 job1 alice] ++ generatedText 1 job1 alice ["Hello"] ++ runs (completed 1 job1)
  obtain ⟨a, hrun, hlast⟩ := Run.exists_of_foldlM (loggedStep (step Platform.smallPlatform) takesUp)
    ⟨State.initial, []⟩ tr (fun a => (a.state.streams job1).getLast? = some ⟨.completed, ""⟩)
    (by decide +kernel)
  exact ⟨tr, a, hrun, hlast, stream_ends_once hrun (throughout_of_always (by decide +kernel))⟩

end InferenceQueue.Delivery

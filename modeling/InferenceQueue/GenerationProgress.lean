import InferenceQueue.StreamEnds
import Mathlib.Data.List.DropRight

namespace InferenceQueue.Delivery

open Service InferenceQueue.Stream

def chunkText (event : StreamEvent) : String := if event.type = .chunk then event.data else ""

/-- The chunks after the last retrying event. -/
def delivered (stream : List StreamEvent) : String :=
  String.join ((stream.rtakeWhile fun event => event.type ≠ .retrying).map chunkText)

/-- What an attempt has published, as long as it may still succeed. -/
def Generation.text : Generation → Option String
  | ready _ => some ""
  | streaming _ text => some text
  | failed _ => none

/-- The same for a worker and a job, from the claim on. -/
def textOf (j : JobID) (g : Generation) : Worker → Option String
  | .idle => none
  | .busy claim stage _ =>
    if claim.jobID = j then
      match stage with
      | .policy | .payload _ => some ""
      | .generate _ => g.text
      | _ => none
    else none

def State.progress (s : State) (j : JobID) (i : ℕ) : Option String :=
  textOf j (s.generations i) (s.worker i)

inductive Note
  | claimed (jobID : JobID) (i : ℕ)
  /-- `GenerateStream` has returned without an error after producing `text` -/
  | succeeded (jobID : JobID) (i : ℕ) (text : String)
deriving DecidableEq

def note (s : State) : Event → Option Note
  | .platform (.system (.call (.worker i) _ (.reply (.claim (.ok (some r)))))) =>
    some (.claimed r.jobID i)
  | .platform (.system (.call (.worker i) (.generate jobID _) (.attempts true _))) =>
    match s.generations i with
    | .streaming _ text => some (.succeeded jobID i text)
    | _ => none
  | _ => none

/-- Chunks and retrying events are published without an error. -/
def Event.published : Event → Bool
  | .chunk _ _ published | .attemptFailed _ _ published => published = .done
  | _ => true

variable {cfg : Platform.Config} {s t : State} {e : Event} {pe : Platform.Event} {i : ℕ}
  {j : JobID} {th : Thread} {event : StreamEvent} {stream : List StreamEvent} {x text : String}

@[simp] theorem delivered_chunk :
    delivered (stream ++ [⟨.chunk, text⟩]) = delivered stream ++ text := by
  unfold delivered
  rw [List.rtakeWhile_concat_pos _ _ _ (by simp), List.map_append, String.join_append]
  simp [chunkText]

@[simp] theorem delivered_retrying : delivered (stream ++ [⟨.retrying, text⟩]) = "" := by
  unfold delivered
  rw [List.rtakeWhile_concat_neg _ _ _ (by simp)]
  simp

theorem delivered_terminal (h : Terminal event) :
    delivered (stream ++ [event]) = delivered stream := by
  unfold delivered
  rw [List.rtakeWhile_concat_pos _ _ _ (by rcases h with h | h <;> simp [h]), List.map_append,
    String.join_append]
  rcases h with h | h <;> simp [chunkText, h]

theorem Step.delivered_eq (he : Step cfg s e t)
    (h : ∀ th event, publication s e = some (th, j, event) → Terminal event) :
    delivered (t.streams j) = delivered (s.streams j) := by
  rcases he.stream j with ⟨hsame, -⟩ | ⟨th, event, hpub, happend⟩
  · rw [hsame]
  · rw [happend, delivered_terminal (h th event hpub)]

theorem terminal_of_platform (h : publication s (.platform pe) = some (th, j, event)) :
    Terminal event := by
  cases publishes_of_publication h with
  | failed => exact Or.inr rfl
  | completed => exact Or.inl rfl

/-- A worker that is not in `DoWithRetry` has made no attempt. -/
def Settled (s : State) : Prop := ∀ i, s.generating i = none → s.generations i = .ready 0

theorem generatingOf_resumeBeat {w : Worker} {resp : Response}
    (h : generatingOf (w.resumeBeat cfg.service resp) = none) : generatingOf w = none := by
  cases w with
  | idle => rfl
  | busy claim stage beat =>
    cases stage with
    | generate => cases h
    | _ => rfl

theorem generationsAfter_of_ne
    (h : ∀ j m resp, pe ≠ .system (.call (.worker i) (.generate j m) resp)) :
    generationsAfter s pe i = s.generations i := by
  unfold generationsAfter
  split
  · next k j m resp =>
    have hk : i ≠ k := by
      rintro rfl
      exact h j m resp rfl
    exact Function.update_of_ne hk _ _
  · rfl

theorem Settled.step (h : Settled s) (he : Step cfg s e t) : Settled t := by
  intro i hnone
  by_cases hpe : ∃ pe, e = .platform pe
  · obtain ⟨pe, rfl⟩ := hpe
    rw [he.platform.2.2]
    by_cases hown : ∃ j m resp, pe = .system (.call (.worker i) (.generate j m) resp)
    · obtain ⟨j, m, resp, rfl⟩ := hown
      exact Function.update_self i _ _
    · have hother : ∀ j m resp, pe ≠ .system (.call (.worker i) (.generate j m) resp) :=
        fun j m resp heq => hown ⟨j, m, resp, heq⟩
      rw [generationsAfter_of_ne hother]
      apply h i
      rcases he.worker i with hsame | ⟨resp, heq, -⟩ | ⟨req, resp, -, hbeat⟩
      · rwa [State.generating, hsame] at hnone
      · rw [State.generating]
        unfold generatingOf
        split
        · next claim m beat hworker =>
          rw [hworker] at heq
          exact absurd (Event.platform.inj heq) (hother _ _ _)
        · rfl
      · rw [State.generating, hbeat] at hnone
        exact generatingOf_resumeBeat hnone
  · obtain ⟨hplatform, k, g, hattempted, hgenerations⟩ :=
      he.attempted fun pe heq => hpe ⟨pe, heq⟩
    have hsame : s.generating i = none := by
      rwa [State.generating, State.worker, hplatform] at hnone
    have hi : i ≠ k := by
      rintro rfl
      obtain ⟨call, hcall⟩ := hattempted.generating
      rw [hcall] at hsame
      cases hsame
    rw [hgenerations, Function.update_of_ne hi]
    exact h i hsame

theorem textOf_generating {w : Worker} {call : Generating} (h : generatingOf w = some call)
    (g : Generation) : textOf j g w = if call.jobID = j then g.text else none := by
  unfold generatingOf at h
  split at h
  · cases h
    rfl
  · cases h

theorem textOf_giveUp (claim : Claim) (beat : Heartbeat) (n : ℤ) (g : Generation) :
    textOf j g (Worker.giveUp claim beat n) = none := by
  unfold Worker.giveUp
  split_ifs
  · rfl
  · exact ite_self _

theorem proceed_payload (cfg : Service.Config) (claim : Claim) (beat : Heartbeat) (m : ℤ)
    (resp : Response) :
    Worker.proceed cfg claim beat (.payload m) resp = .busy claim (.generate m) beat ∨
      Worker.proceed cfg claim beat (.payload m) resp = Worker.giveUp claim beat m := by
  cases resp with
  | flag b =>
    cases b with
    | true => exact Or.inl rfl
    | false => exact Or.inr rfl
  | _ => exact Or.inr rfl

theorem textOf_proceed {claim : Claim} {beat : Heartbeat} {stage : Stage} {resp : Response}
    {g : Generation} (hpolicy : stage ≠ .policy) (hpayload : ∀ m, stage ≠ .payload m)
    (hresp : ∀ m, stage = .generate m → ∃ ok n, resp = .attempts ok n) :
    textOf j g (Worker.proceed cfg.service claim beat stage resp) = none := by
  -- past the generation there is no text to come
  unfold Worker.proceed
  split
  case h_7 m hok hfail =>
    obtain ⟨ok, n, rfl⟩ := hresp m rfl
    cases ok with
    | true => exact absurd rfl (hok n)
    | false => exact absurd rfl (hfail n)
  all_goals first
    | rfl
    | exact ite_self _
    | exact absurd rfl hpolicy
    | exact absurd rfl (hpayload _)
    | exact textOf_giveUp _ _ _ _

theorem Step.attempts_of_generate {m : ℤ} {resp : Response}
    (he : Step cfg s (.platform (.system (.call th (.generate j m) resp))) t) :
    ∃ ok n, resp = .attempts ok n := by
  obtain ⟨-, st, hst, -⟩ := he.service.call
  rcases serve_cases hst with ⟨rfl, -⟩ | ⟨-, -, rfl | hans⟩
  · cases hst
  · cases hst
  · cases resp with
    | attempts ok n => exact ⟨ok, n, rfl⟩
    | _ => cases hans

theorem note_claimed (h : note s e = some (.claimed j i)) :
    ∃ req resp, e = .platform (.system (.call (.worker i) req resp)) := by
  unfold note at h
  split at h
  · cases h
    exact ⟨_, _, rfl⟩
  · split at h <;> cases h
  · cases h

theorem textOf_early {claim : Claim} {beat : Heartbeat} {stage : Stage} {g : Generation}
    (hstage : stage = .policy ∨ ∃ m, stage = .payload m)
    (h : textOf j g (.busy claim stage beat) = some x) : x = "" := by
  rcases hstage with rfl | ⟨m, rfl⟩
  · simp only [textOf] at h
    split_ifs at h
    exact (Option.some.inj h).symm
  · simp only [textOf] at h
    split_ifs at h
    exact (Option.some.inj h).symm

/-- At its own calls a worker has published nothing, and it has text to come only from a claim
on. -/
theorem Step.progress_own (hs : Settled s) {req : Request} {resp : Response}
    (he : Step cfg s (.platform (.system (.call (.worker i) req resp))) t)
    (h : t.progress j i = some x) :
    x = "" ∧ (note s (.platform (.system (.call (.worker i) req resp))) = some (.claimed j i) ∨
      s.progress j i = some x) := by
  have hreq : (s.worker i).request i = req := he.service.call.1
  have hnext : t.worker i = (s.worker i).resume cfg.service resp := he.service.worker_self
  have hgenerations := he.platform.2.2
  subst hreq
  rw [State.progress, hnext] at h
  rw [State.progress]
  cases hworker : s.worker i with
  | idle =>
    rw [hworker] at h
    change textOf j _ (Worker.claimed resp) = some x at h
    unfold Worker.claimed at h
    split at h
    · next r =>
      simp only [textOf] at h
      split_ifs at h with hjob
      cases h
      exact ⟨rfl, Or.inl (by rw [note, hjob])⟩
    · cases h
  | busy claim stage beat =>
    rw [hworker] at h he hgenerations
    change textOf j _ (Worker.proceed cfg.service claim beat stage resp) = some x at h
    by_cases hpolicy : stage = .policy
    · subst hpolicy
      have hx : textOf j (s.generations i) (.busy claim .policy beat) = some x := by
        cases resp <;> exact h
      exact ⟨textOf_early (Or.inl rfl) hx, Or.inr hx⟩
    by_cases hpayload : ∃ m, stage = .payload m
    · obtain ⟨m, rfl⟩ := hpayload
      have hready : t.generations i = .ready 0 := by
        rw [hgenerations, generationsAfter_of_ne (by simp [Worker.request, Stage.request])]
        exact hs i (by rw [State.generating, hworker]; rfl)
      rw [hready] at h
      have hx : textOf j (s.generations i) (.busy claim (.payload m) beat) = some x := by
        rcases proceed_payload cfg.service claim beat m resp with hgo | hstop
        · rwa [hgo] at h
        · rw [hstop, textOf_giveUp] at h
          cases h
      exact ⟨textOf_early (Or.inr ⟨m, rfl⟩) hx, Or.inr hx⟩
    · rw [textOf_proceed hpolicy fun m heq => hpayload ⟨m, heq⟩] at h
      · cases h
      · rintro m rfl
        exact he.attempts_of_generate

theorem Step.progress_other (he : Step cfg s (.platform pe) t)
    (hown : ∀ req resp, pe ≠ .system (.call (.worker i) req resp)) :
    t.progress j i = s.progress j i := by
  -- the calls of the others leave a worker's text alone
  have hgenerations : t.generations i = s.generations i := by
    rw [he.platform.2.2]
    exact generationsAfter_of_ne fun j m resp => hown _ resp
  rw [State.progress, State.progress, hgenerations]
  rcases he.worker i with hsame | ⟨resp, heq, -⟩ | ⟨req, resp, -, hbeat⟩
  · rw [hsame]
  · exact absurd (Event.platform.inj heq) (hown _ resp)
  · rw [hbeat]
    cases s.worker i <;> rfl

inductive ProgressStep (s : State) (e : Event) (j : JobID) (i : ℕ) : String → Prop
  | claimed (h : note s e = some (.claimed j i)) : ProgressStep s e j i ""
  | same {y} (h : s.progress j i = some y) (hclaim : note s e ≠ some (.claimed j i))
      (hquiet : ∀ event, publication s e = some (.worker i, j, event) → Terminal event) :
      ProgressStep s e j i y
  | chunk {y text} (h : s.progress j i = some y)
      (hpub : publication s e = some (.worker i, j, ⟨.chunk, text⟩)) :
      ProgressStep s e j i (y ++ text)
  | retrying {y data} (h : s.progress j i = some y)
      (hpub : publication s e = some (.worker i, j, ⟨.retrying, data⟩)) : ProgressStep s e j i ""

theorem Attempted.progress {g : Generation} (ha : Attempted s e i g) (hpub : e.published = true)
    (h : textOf j g (s.worker i) = some x) : ProgressStep s e j i x := by
  obtain ⟨call, hcall⟩ := ha.generating
  have hbefore : s.progress j i = if call.jobID = j then (s.generations i).text else none :=
    textOf_generating hcall _
  rw [textOf_generating hcall] at h
  split_ifs at h with hjob
  rw [if_pos hjob] at hbefore
  cases ha with
  | begun _ hready =>
    cases h
    rw [hready] at hbefore
    exact .same hbefore nofun nofun
  | @streamed _ _ n sofar text _ hattempt =>
    cases h
    rw [hattempt] at hbefore
    refine .chunk hbefore ?_
    simp [publication, Published.applied, hcall, hjob]
  | @retried _ _ n sofar transient published hg hattempt hretry =>
    cases h
    rw [hattempt] at hbefore
    obtain rfl := Option.some.inj (hcall.symm.trans hg)
    obtain rfl : published = .done := by simpa [Event.published] using hpub
    have hretrying : publication s (.attemptFailed i transient .done) =
        some (.worker i, j, ⟨.retrying, retryMessage n call.maxAttempts⟩) := by
      simp [publication, Published.applied, hcall, hattempt, hretry, hjob]
    exact .retrying hbefore hretrying
  | broken | gaveUp | interrupted => cases h

theorem Step.progress (hs : Settled s) (he : Step cfg s e t) (hpub : e.published = true)
    (h : t.progress j i = some x) : ProgressStep s e j i x := by
  by_cases hpe : ∃ pe, e = .platform pe
  · obtain ⟨pe, rfl⟩ := hpe
    by_cases hnote : note s (.platform pe) = some (.claimed j i)
    · obtain ⟨req, resp, heq⟩ := note_claimed hnote
      rw [heq] at he
      obtain ⟨rfl, -⟩ := he.progress_own hs h
      exact .claimed hnote
    · refine .same ?_ hnote fun event hpub => terminal_of_platform hpub
      by_cases hown : ∃ req resp, pe = .system (.call (.worker i) req resp)
      · obtain ⟨req, resp, rfl⟩ := hown
        rcases (he.progress_own hs h).2 with hclaim | hsame
        · exact absurd hclaim hnote
        · exact hsame
      · rwa [he.progress_other fun req resp heq => hown ⟨req, resp, heq⟩] at h
  · obtain ⟨hplatform, k, g, hattempted, hgenerations⟩ :=
      he.attempted fun pe heq => hpe ⟨pe, heq⟩
    have hworker : t.worker i = s.worker i := by rw [State.worker, hplatform]; rfl
    rw [State.progress, hworker, hgenerations] at h
    by_cases hi : i = k
    · subst hi
      rw [Function.update_self] at h
      exact hattempted.progress hpub h
    · rw [Function.update_of_ne hi] at h
      have hclaim : note s e ≠ some (.claimed j i) := by
        intro hnote
        obtain ⟨req, resp, heq⟩ := note_claimed hnote
        exact hpe ⟨_, heq⟩
      refine .same h hclaim fun event hpub => ?_
      -- only the worker whose attempt moves on publishes
      cases publishes_of_publication hpub with
      | chunk | retrying => cases hattempted <;> exact absurd rfl hi
      | failed | completed => exact absurd ⟨_, rfl⟩ hpe

theorem Step.progress_of_publication (he : Step cfg s e t)
    (h : publication s e = some (th, j, event)) (hnot : ¬Terminal event) :
    ∃ i y, th = .worker i ∧ s.progress j i = some y := by
  have hpe : ∀ pe, e ≠ .platform pe := by
    rintro pe rfl
    exact hnot (terminal_of_platform h)
  obtain ⟨-, k, g, hattempted, -⟩ := he.attempted hpe
  have hprogress : ∀ {call n text}, s.generating k = some call → call.jobID = j →
      s.generations k = .streaming n text → s.progress j k = some text := by
    intro call n text hcall hjob hattempt
    rw [State.progress, textOf_generating hcall, if_pos hjob, hattempt]
    rfl
  cases publishes_of_publication h with
  | chunk hg =>
    cases hattempted with
    | streamed _ hattempt => exact ⟨k, _, rfl, hprogress hg rfl hattempt⟩
    | broken _ hattempt => exact ⟨k, _, rfl, hprogress hg rfl hattempt⟩
  | retrying hg hattempt =>
    cases hattempted with
    | retried => exact ⟨k, _, rfl, hprogress hg rfl hattempt⟩
    | gaveUp => exact ⟨k, _, rfl, hprogress hg rfl hattempt⟩
  | failed | completed => exact absurd rfl (hpe _)

theorem generating_of_request {m : ℤ} (h : (s.worker i).request i = .generate j m) :
    ∃ claim beat, s.worker i = .busy claim (.generate m) beat ∧ claim.jobID = j := by
  cases hworker : s.worker i with
  | idle =>
    rw [hworker] at h
    cases h
  | busy claim stage beat =>
    rw [hworker] at h
    cases stage with
    | generate =>
      cases h
      exact ⟨claim, beat, rfl, rfl⟩
    | _ => cases h

theorem note_succeeded (h : note s e = some (.succeeded j i text)) :
    ∃ m n k, e = .platform (.system (.call (.worker i) (.generate j m) (.attempts true n))) ∧
      s.generations i = .streaming k text := by
  unfold note at h
  split at h
  · cases h
  · split at h
    · next hattempt =>
      cases h
      exact ⟨_, _, _, rfl, hattempt⟩
    · cases h
  · cases h

/-- The attempt that succeeds is over, and its text is the one noted. -/
theorem Step.progress_of_success (he : Step cfg s e t)
    (h : note s e = some (.succeeded j i text)) :
    s.progress j i = some text ∧ t.progress j i = none := by
  obtain ⟨m, n, k, rfl, hattempt⟩ := note_succeeded h
  obtain ⟨claim, beat, hworker, hjob⟩ := generating_of_request he.service.call.1
  have hnext : t.worker i = (s.worker i).resume cfg.service (.attempts true n) :=
    he.service.worker_self
  constructor
  · rw [State.progress, hworker, hattempt]
    exact if_pos hjob
  · rw [State.progress, hnext, hworker]
    exact ite_self _

end InferenceQueue.Delivery

import InferenceQueue.ModelServer

namespace InferenceQueue.ModelServer

structure Choice where
  finishReason : String
  content : String
deriving DecidableEq, Repr

/-- Who cancelled the context of the stream. -/
inductive Cause
  | idle
  | caller
deriving DecidableEq, Repr

inductive Client
  /-- in `stream.Next()`; the timer was started at `since` -/
  | waiting (since : ℕ)
  /-- in the loop over the choices of an event -/
  | choosing (choices : List Choice)
  | returned (err : Option ServerError)
deriving DecidableEq

structure Session where
  clock : ℕ
  client : Client
  /-- the timer has expired and the function it starts has not run yet -/
  expired : Bool
  cause : Option Cause
  finishReason : String
  /-- the texts `onChunk` has taken -/
  delivered : List String
deriving DecidableEq

def Session.start : Session := ⟨0, .waiting 0, false, none, "", []⟩

inductive Signal
  | tick (ms : ℕ)
  | expire
  /-- `cancelStream(ErrStreamIdleTimeout)` -/
  | idle
  | cancel
  /-- `stream.Next()` is true -/
  | next (choices : List Choice)
  /-- a choice without text -/
  | skip
  /-- `onChunk` returns -/
  | chunk (ok : Bool)
  | reset
  /-- `stream.Next()` is false -/
  | done (streamErr : Option StreamError)
deriving DecidableEq

def Choice.reason (c : Choice) (finishReason : String) : String :=
  if c.finishReason ≠ "" then c.finishReason else finishReason

/-- `GenerateStream` statement by statement. The idle timer, of `streamIdleTimeout` milliseconds,
runs while the client waits for an event, not while a chunk is handled; the function it starts when
it expires may run at any later time, and the first cause is kept. -/
def step (streamIdleTimeout : ℕ) (s : Session) : Signal → Option Session
  | .tick ms => some { s with clock := s.clock + ms }
  | .expire =>
    match s.client with
    | .waiting since =>
      if since + streamIdleTimeout ≤ s.clock then some { s with expired := true } else none
    | _ => none
  | .idle =>
    match s.client with
    -- the context is cancelled when `GenerateStream` returns
    | .returned _ => none
    | _ => if s.expired then some { s with cause := s.cause.or (some .idle) } else none
  | .cancel =>
    match s.client with
    | .returned _ => none
    | _ => some { s with cause := s.cause.or (some .caller) }
  | .next choices =>
    match s.client with
    | .waiting _ => some { s with client := .choosing choices }
    | _ => none
  | .skip =>
    match s.client with
    | .choosing (c :: rest) =>
      if c.content = "" then
        some { s with client := .choosing rest, finishReason := c.reason s.finishReason }
      else none
    | _ => none
  | .chunk ok =>
    match s.client with
    | .choosing (c :: rest) =>
      if c.content = "" then none
      else if ok then
        some { s with
          client := .choosing rest
          finishReason := c.reason s.finishReason
          delivered := s.delivered ++ [c.content] }
      else
        some { s with
          client := .returned (some chunkError)
          finishReason := c.reason s.finishReason }
    | _ => none
  | .reset =>
    match s.client with
    | .choosing [] => some { s with client := .waiting s.clock }
    | _ => none
  | .done streamErr =>
    match s.client with
    | .waiting _ =>
      some { s with
        client := .returned (conclude (s.cause = some .idle) streamErr s.finishReason) }
    | _ => none

abbrev Step (streamIdleTimeout : ℕ) : Session → Signal → Session → Prop :=
  Fires (step streamIdleTimeout)

inductive Effect (streamIdleTimeout : ℕ) (s : Session) : Signal → Session → Prop
  | tick {ms} : Effect streamIdleTimeout s (.tick ms) { s with clock := s.clock + ms }
  | expire {since} (hclient : s.client = .waiting since)
      (hsilent : since + streamIdleTimeout ≤ s.clock) :
      Effect streamIdleTimeout s .expire { s with expired := true }
  | idle (hopen : ∀ err, s.client ≠ .returned err) (hexpired : s.expired = true) :
      Effect streamIdleTimeout s .idle { s with cause := s.cause.or (some .idle) }
  | cancel (hopen : ∀ err, s.client ≠ .returned err) :
      Effect streamIdleTimeout s .cancel { s with cause := s.cause.or (some .caller) }
  | next {since choices} (hclient : s.client = .waiting since) :
      Effect streamIdleTimeout s (.next choices) { s with client := .choosing choices }
  | skip {c rest} (hclient : s.client = .choosing (c :: rest)) (hempty : c.content = "") :
      Effect streamIdleTimeout s .skip
        { s with client := .choosing rest, finishReason := c.reason s.finishReason }
  | taken {c rest} (hclient : s.client = .choosing (c :: rest)) (htext : c.content ≠ "") :
      Effect streamIdleTimeout s (.chunk true)
        { s with
          client := .choosing rest
          finishReason := c.reason s.finishReason
          delivered := s.delivered ++ [c.content] }
  | refused {c rest} (hclient : s.client = .choosing (c :: rest)) (htext : c.content ≠ "") :
      Effect streamIdleTimeout s (.chunk false)
        { s with
          client := .returned (some chunkError)
          finishReason := c.reason s.finishReason }
  | reset (hclient : s.client = .choosing []) :
      Effect streamIdleTimeout s .reset { s with client := .waiting s.clock }
  | done {since streamErr} (hclient : s.client = .waiting since) :
      Effect streamIdleTimeout s (.done streamErr)
        { s with
          client := .returned (conclude (s.cause = some .idle) streamErr s.finishReason) }

variable {streamIdleTimeout : ℕ} {s t : Session} {e : Signal} {tr : List Signal}
  {err : Option ServerError}

theorem Step.effect (h : Step streamIdleTimeout s e t) : Effect streamIdleTimeout s e t := by
  cases e with
  | tick ms =>
    cases h
    exact .tick
  | expire =>
    simp only [Step, Fires, step] at h
    split at h
    · next hclient =>
      split_ifs at h with hsilent
      cases h
      exact .expire hclient hsilent
    · cases h
  | idle =>
    simp only [Step, Fires, step] at h
    split at h
    · cases h
    · next hopen =>
      split_ifs at h with hexpired
      cases h
      exact .idle hopen hexpired
  | cancel =>
    simp only [Step, Fires, step] at h
    split at h
    · cases h
    · next hopen =>
      cases h
      exact .cancel hopen
  | next choices =>
    simp only [Step, Fires, step] at h
    split at h
    · next hclient =>
      cases h
      exact .next hclient
    · cases h
  | skip =>
    simp only [Step, Fires, step] at h
    split at h
    · next hclient =>
      split_ifs at h with hempty
      cases h
      exact .skip hclient hempty
    · cases h
  | chunk ok =>
    simp only [Step, Fires, step] at h
    split at h
    · next hclient =>
      split_ifs at h with htext hok
      · cases h
        subst hok
        exact .taken hclient htext
      · cases h
        obtain rfl : ok = false := by simpa using hok
        exact .refused hclient htext
    · cases h
  | reset =>
    simp only [Step, Fires, step] at h
    split at h
    · next hclient =>
      cases h
      exact .reset hclient
    · cases h
  | done streamErr =>
    simp only [Step, Fires, step] at h
    split at h
    · next hclient =>
      cases h
      exact .done hclient
    · cases h

def Signal.choices : Signal → List Choice
  | .next choices => choices
  | _ => []

def received (tr : List Signal) : List Choice := tr.flatMap Signal.choices

def texts (choices : List Choice) : List String :=
  (choices.map Choice.content).filter (· ≠ "")

def lastReason (choices : List Choice) : String :=
  choices.foldl (fun finishReason c => c.reason finishReason) ""

@[simp] theorem received_snoc : received (tr ++ [e]) = received tr ++ e.choices := by
  simp [received]

theorem texts_snoc (choices : List Choice) (c : Choice) :
    texts (choices ++ [c]) = texts choices ++ if c.content = "" then [] else [c.content] := by
  by_cases h : c.content = "" <;> simp [texts, h]

theorem lastReason_snoc (choices : List Choice) (c : Choice) :
    lastReason (choices ++ [c]) = c.reason (lastReason choices) := by
  simp [lastReason]

/-- Of what was received, `handled` has been dealt with. -/
structure Handled (s : Session) (handled : List Choice) : Prop where
  delivered : s.delivered = texts handled
  finishReason : s.finishReason = lastReason handled

/-- How an attempt stands, or how it has ended. -/
inductive Progress (tr : List Signal) (s : Session) : Client → Prop
  | waiting {since} (h : Handled s (received tr)) (hgoing : ∀ e, .done e ∉ tr)
      (htaken : .chunk false ∉ tr) : Progress tr s (.waiting since)
  | choosing {handled rest} (hreceived : received tr = handled ++ rest) (h : Handled s handled)
      (hgoing : ∀ e, .done e ∉ tr) (htaken : .chunk false ∉ tr) :
      Progress tr s (.choosing rest)
  | broken {handled c rest} (hreceived : received tr = handled ++ c :: rest)
      (htext : c.content ≠ "") (hdelivered : s.delivered = texts handled)
      (hgoing : ∀ e, .done e ∉ tr) (htaken : .chunk false ∈ tr) :
      Progress tr s (.returned (some chunkError))
  | ended {streamErr} (h : Handled s (received tr)) (hdone : ∀ e, .done e ∈ tr ↔ e = streamErr)
      (htaken : .chunk false ∉ tr) :
      Progress tr s (.returned (conclude (s.cause = some .idle) streamErr s.finishReason))

theorem Handled.next {handled : List Choice} {c : Choice} (h : Handled s handled)
    (hdelivered : t.delivered = s.delivered ++ if c.content = "" then [] else [c.content])
    (hreason : t.finishReason = c.reason s.finishReason) : Handled t (handled ++ [c]) := by
  constructor
  · rw [hdelivered, h.delivered, texts_snoc]
  · rw [hreason, h.finishReason, lastReason_snoc]

theorem Progress.keep (h : Progress tr s s.client) (hclient : t.client = s.client)
    (hdelivered : t.delivered = s.delivered) (hreason : t.finishReason = s.finishReason)
    (hcause : ∀ err, s.client = .returned err → t.cause = s.cause) (hchoices : e.choices = [])
    (hgoing : ∀ x, e ≠ .done x) (htaken : e ≠ .chunk false) :
    Progress (tr ++ [e]) t t.client := by
  -- signals that neither bring choices nor end the attempt leave it where it is
  have hreceived : received (tr ++ [e]) = received tr := by simp [hchoices]
  have hhandled : ∀ handled, Handled s handled → Handled t handled := by
    intro handled hs
    exact ⟨hdelivered.trans hs.delivered, hreason.trans hs.finishReason⟩
  have hdone : ∀ x, .done x ∈ tr ++ [e] ↔ .done x ∈ tr := by
    intro x
    have hne : .done x ≠ e := (hgoing x).symm
    simp [hne]
  have hchunk : .chunk false ∈ tr ++ [e] ↔ .chunk false ∈ tr := by
    have hne : .chunk false ≠ e := htaken.symm
    simp [hne]
  rw [hclient]
  generalize hc : s.client = client at h
  cases h with
  | waiting hs hgo htake =>
    refine .waiting ?_ (fun x => by rw [hdone]; exact hgo x) (by rwa [hchunk])
    rw [hreceived]
    exact hhandled _ hs
  | choosing hrec hs hgo htake =>
    exact .choosing (hreceived.trans hrec) (hhandled _ hs) (fun x => by rw [hdone]; exact hgo x)
      (by rwa [hchunk])
  | broken hrec htext hdel hgo htake =>
    exact .broken (hreceived.trans hrec) htext (hdelivered.trans hdel)
      (fun x => by rw [hdone]; exact hgo x) (by rwa [hchunk])
  | ended hs hd htake =>
    rw [← hcause _ hc, ← hreason]
    refine .ended ?_ (fun x => by rw [hdone]; exact hd x) (by rwa [hchunk])
    rw [hreceived]
    exact hhandled _ hs

theorem Progress.step (h : Progress tr s s.client) (he : Step streamIdleTimeout s e t) :
    Progress (tr ++ [e]) t t.client := by
  cases he.effect with
  | tick => exact h.keep rfl rfl rfl (fun _ _ => rfl) rfl (by simp) (by simp)
  | expire => exact h.keep rfl rfl rfl (fun _ _ => rfl) rfl (by simp) (by simp)
  | idle hopen | cancel hopen =>
    exact h.keep rfl rfl rfl (fun err hret => absurd hret (hopen err)) rfl (by simp) (by simp)
  | next hclient =>
    rw [hclient] at h
    cases h with
    | waiting hs hgoing htaken =>
      exact .choosing (by simp [Signal.choices]) ⟨hs.delivered, hs.finishReason⟩
        (by simpa using hgoing) (by simpa using htaken)
  | skip hclient hempty =>
    rw [hclient] at h
    cases h with
    | choosing hreceived hs hgoing htaken =>
      refine .choosing (by simpa [Signal.choices] using hreceived) (hs.next ?_ rfl)
        (by simpa using hgoing) (by simpa using htaken)
      simp [hempty]
  | taken hclient htext =>
    rw [hclient] at h
    cases h with
    | choosing hreceived hs hgoing htaken =>
      refine .choosing (by simpa [Signal.choices] using hreceived) (hs.next ?_ rfl)
        (by simpa using hgoing) (by simpa using htaken)
      simp [htext]
  | refused hclient htext =>
    rw [hclient] at h
    cases h with
    | choosing hreceived hs hgoing htaken =>
      exact .broken (by simpa [Signal.choices] using hreceived) htext hs.delivered
        (by simpa using hgoing) (by simp)
  | reset hclient =>
    rw [hclient] at h
    cases h with
    | @choosing handled _ hreceived hs hgoing htaken =>
      have hall : received (tr ++ [.reset]) = handled := by
        simpa [Signal.choices] using hreceived
      refine .waiting ?_ (by simpa using hgoing) (by simpa using htaken)
      rw [hall]
      exact ⟨hs.delivered, hs.finishReason⟩
  | done hclient =>
    rw [hclient] at h
    cases h with
    | waiting hs hgoing htaken =>
      have hall : ∀ x, received (tr ++ [.done x]) = received tr := by simp [Signal.choices]
      refine .ended ?_ ?_ (by simpa using htaken)
      · rw [hall]
        exact ⟨hs.delivered, hs.finishReason⟩
      · intro x
        simp [hgoing x]

theorem Progress.run (h : Run (Step streamIdleTimeout) Session.start tr s) :
    Progress tr s s.client := by
  refine h.history (fun tr s => Progress tr s s.client) ?_ fun _ _ _ _ hp he => hp.step he
  exact .waiting ⟨rfl, rfl⟩ (by simp) (by simp)

theorem conclude_eq_none {idle : Bool} {streamErr : Option StreamError} {finishReason : String} :
    conclude idle streamErr finishReason = none ↔
      idle = false ∧ streamErr = none ∧
        finishReason ∉ ["", "length", "content_filter"] := by
  cases idle with
  | true => simp [conclude]
  | false =>
    cases streamErr with
    | some e => simp [conclude]
    | none =>
      simp only [conclude]
      split_ifs <;> simp_all

/-- However the timer, the caller and the server interleave, `onChunk` gets the texts in the order
in which they came, none left out; and `GenerateStream` reports success exactly when it took them
all, the stream ended without an error or a timeout, and the server gave a reason for the end that
is neither the token limit nor the content filter. -/
theorem generateStream_succeeds_iff (h : Run (Step streamIdleTimeout) Session.start tr s)
    (hreturned : s.client = .returned err) :
    s.delivered <+: texts (received tr) ∧
      (err = none ↔ .chunk false ∉ tr ∧ .done none ∈ tr ∧ s.cause ≠ some .idle ∧
        lastReason (received tr) ∉ ["", "length", "content_filter"]) ∧
      (.chunk false ∉ tr → s.delivered = texts (received tr)) := by
  have hprogress := Progress.run h
  rw [hreturned] at hprogress
  cases hprogress with
  | broken hreceived htext hdelivered hgoing htaken =>
    refine ⟨?_, by simp [htaken], fun hnot => absurd htaken hnot⟩
    rw [hreceived, hdelivered, texts, texts, List.map_append, List.filter_append]
    exact List.prefix_append _ _
  | ended hs hdone htaken =>
    refine ⟨by rw [hs.delivered], ?_, fun _ => hs.delivered⟩
    rw [conclude_eq_none, hs.finishReason, hdone, decide_eq_false_iff_not]
    constructor
    · rintro ⟨hcause, rfl, hreason⟩
      exact ⟨htaken, rfl, hcause, hreason⟩
    · rintro ⟨-, hnone, hcause, hreason⟩
      exact ⟨hcause, hnone.symm, hreason⟩

def twoChunks : List Signal :=
  [.next [⟨"", "Hel"⟩, ⟨"", ""⟩], .chunk true, .skip, .tick 90000, .reset, .tick 29999,
   .next [⟨"stop", "lo"⟩], .chunk true, .reset, .done none]

theorem generateStream_succeeds_two_chunks :
    ∃ s, Run (Step 30000) Session.start twoChunks s ∧ s.client = .returned none ∧
      s.delivered = ["Hel", "lo"] ∧ lastReason (received twoChunks) = "stop" ∧
      s.delivered = texts (received twoChunks) := by
  obtain ⟨s, hrun, hclient, hdelivered⟩ := Run.exists_of_foldlM (step 30000) Session.start
    twoChunks (fun s => s.client = .returned none ∧ s.delivered = ["Hel", "lo"])
    (by decide +kernel)
  have hall := generateStream_succeeds_iff hrun hclient
  exact ⟨s, hrun, hclient, hdelivered, by decide, hall.2.2 (by decide)⟩

/-- In the run, or before its end, the client waited for an event for the whole timeout. -/
def Silent (streamIdleTimeout : ℕ) (tr : List Signal) : Prop :=
  ∃ past rest mid since, tr = past ++ rest ∧ Run (Step streamIdleTimeout) Session.start past mid ∧
    mid.client = .waiting since ∧ since + streamIdleTimeout ≤ mid.clock

theorem Silent.snoc (h : Silent streamIdleTimeout tr) : Silent streamIdleTimeout (tr ++ [e]) := by
  obtain ⟨past, rest, mid, since, rfl, hmid⟩ := h
  exact ⟨past, rest ++ [e], mid, since, by simp, hmid⟩

/-- The time in which chunks are handled does not count. -/
theorem silent_of_idle (h : Run (Step streamIdleTimeout) Session.start tr s)
    (hidle : s.cause = some .idle) : Silent streamIdleTimeout tr := by
  -- the invariant also covers a timer whose function is still to run
  have hinv : Run (Step streamIdleTimeout) Session.start tr s ∧
      (s.expired = true ∨ s.cause = some .idle → Silent streamIdleTimeout tr) := by
    refine h.history (fun tr s => Run (Step streamIdleTimeout) Session.start tr s ∧
      (s.expired = true ∨ s.cause = some .idle → Silent streamIdleTimeout tr))
      ⟨.nil, by simp [Session.start]⟩ ?_
    rintro tr s e t ⟨hrun, hs⟩ he
    refine ⟨hrun.snoc he, ?_⟩
    cases he.effect with
    | @expire since hclient hsilent =>
      exact fun _ => ⟨tr, [_], s, since, rfl, hrun, hclient, hsilent⟩
    | idle _ hexpired => exact fun _ => (hs (Or.inl hexpired)).snoc
    | cancel _ =>
      intro hor
      refine (hs (hor.imp_right ?_)).snoc
      cases hcause : s.cause <;> simp
    | _ => exact fun hor => (hs hor).snoc
  exact hinv.2 (Or.inr hidle)

/-- The attempt is repeated exactly when the stream ended with the idle timeout or with the error
of an overloaded server; a chunk that could not be published ends it for good.  The timeout comes
only after a silence of its whole length. -/
theorem attempt_retried_iff {err : ServerError}
    (h : Run (Step streamIdleTimeout) Session.start tr s)
    (hreturned : s.client = .returned (some err)) :
    (retried err = true ↔ ∃ streamErr, .done streamErr ∈ tr ∧
        (s.cause = some .idle ∨ ∃ e ∈ streamErr, e.Overloaded)) ∧
      (s.cause = some .idle → Silent streamIdleTimeout tr) := by
  refine ⟨?_, silent_of_idle h⟩
  have hprogress := Progress.run h
  generalize hclient : s.client = client at hprogress
  cases hprogress with
  | waiting | choosing => cases hclient.symm.trans hreturned
  | broken _ _ _ hgoing _ =>
    cases hclient.symm.trans hreturned
    simp [hgoing, retried_chunkError]
  | @ended streamErr hs hdone htaken =>
    have heq := Client.returned.inj (hclient.symm.trans hreturned)
    have hconclude := @retried_conclude (s.cause = some .idle) streamErr s.finishReason
    rw [heq] at hconclude
    simpa [hdone] using hconclude

def canceledError : StreamError :=
  ⟨.wrap "Post: " (.sentinel .contextCanceled), none, true, rfl, rfl⟩

def silence : List Signal :=
  [.next [⟨"", "Hel"⟩], .chunk true, .reset, .tick 30000, .expire, .idle,
   .done (some canceledError)]

theorem attempt_retried_after_silence :
    ∃ s, Run (Step 30000) Session.start silence s ∧ s.client = .returned (some idleError) ∧
      retried idleError = true ∧ Silent 30000 silence := by
  obtain ⟨s, hrun, hclient, hcause⟩ := Run.exists_of_foldlM (step 30000) Session.start silence
    (fun s => s.client = .returned (some idleError) ∧ s.cause = some .idle) (by decide +kernel)
  have hall := attempt_retried_iff hrun hclient
  refine ⟨s, hrun, hclient, hall.1.mpr ?_, hall.2 hcause⟩
  exact ⟨some canceledError, by simp [silence], Or.inl hcause⟩

end InferenceQueue.ModelServer

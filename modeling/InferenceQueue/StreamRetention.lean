import InferenceQueue.RedisKeys
import InferenceQueue.Shared
import InferenceQueue.StreamHandler

namespace InferenceQueue.StreamRetention

open Redis
open InferenceQueue.Stream (StreamEvent)
open StreamHandler (isTerminal)

/-- In seconds. -/
def streamRetention : ℕ := 3600

def streamTTL : ℕ := 1800

inductive Reply
  | ok
  /-- `applied` tells whether Redis executed the command -/
  | failed (err : GoError) (applied : Bool)
deriving DecidableEq

def Reply.applied : Reply → Bool
  | ok => true
  | failed _ applied => applied

/-- Where a call of `Publish` is: it gives Redis up to three commands, each of which may fail,
executed or not, and may stop between two of them. -/
inductive Call
  /-- `EXPIRENX` comes next -/
  | appended (event : StreamEvent)
  /-- the event is terminal, and `EXPIRE` comes next -/
  | limited
  | returned (err : Option GoError)
deriving DecidableEq

def afterXAdd (event : StreamEvent) : Reply → Call
  | .ok => .appended event
  | .failed err _ => .returned (some (.wrap "failed to append stream message: " err))

def afterExpireNX (event : StreamEvent) : Reply → Call
  | .ok => if isTerminal event then .limited else .returned none
  | .failed err _ => .returned (some (.wrap "failed to set stream retention: " err))

def afterExpire : Reply → Call
  | .ok => .returned none
  | .failed err _ => .returned (some (.wrap "failed to set stream retention: " err))

/-- The key of one job's stream and the calls of `Publish` for the job. -/
structure State where
  clock : ℕ
  key : Option (Volatile (List StreamEvent))
  calls : List Call
deriving DecidableEq

inductive Event
  | tick (ms : ℕ)
  /-- a call begins -/
  | xadd (event : StreamEvent) (reply : Reply)
  | expireNX (c : ℕ) (reply : Reply)
  | expire (c : ℕ) (reply : Reply)

def execute (reply : Reply) (command : Option (Volatile (List StreamEvent)) →
    Option (Volatile (List StreamEvent))) (key : Option (Volatile (List StreamEvent))) :
    Option (Volatile (List StreamEvent)) :=
  if reply.applied then command key else key

def step (s : State) : Event → Option State
  | .tick ms => some { s with clock := s.clock + ms }
  | .xadd event reply => some { s with
      key := execute reply (fun key => some (xadd s.clock event key)) s.key
      calls := s.calls ++ [afterXAdd event reply] }
  | .expireNX c reply =>
    match s.calls[c]? with
    | some (.appended event) => some { s with
        key := execute reply (expireNX s.clock streamTTL) s.key
        calls := s.calls.set c (afterExpireNX event reply) }
    | _ => none
  | .expire c reply =>
    match s.calls[c]? with
    | some .limited => some { s with
        key := execute reply (expireAgain s.clock streamRetention) s.key
        calls := s.calls.set c (afterExpire reply) }
    | _ => none

def initial : State := ⟨0, none, []⟩

inductive Note
  | appended (time : ℕ) (event : StreamEvent)
  /-- `Publish` has returned without an error for a terminal event -/
  | retained (time : ℕ)
deriving DecidableEq

def note (s : State) : Event → Option Note
  | .xadd event reply => if reply.applied then some (.appended s.clock event) else none
  | .expire _ .ok => some (.retained s.clock)
  | .tick _ | .expireNX _ _ | .expire _ (.failed _ _) => none

abbrev Step : State → Event → State → Prop := Fires step

abbrev NotedStep : Logged State Note → Event → Logged State Note → Prop :=
  Fires (loggedStep step note)

inductive Effect (s : State) : Event → State → Prop
  | tick {ms} : Effect s (.tick ms) { s with clock := s.clock + ms }
  | xadd {event reply} : Effect s (.xadd event reply) { s with
      key := execute reply (fun key => some (xadd s.clock event key)) s.key
      calls := s.calls ++ [afterXAdd event reply] }
  | expireNX {c event reply} (hc : s.calls[c]? = some (.appended event)) :
      Effect s (.expireNX c reply) { s with
        key := execute reply (expireNX s.clock streamTTL) s.key
        calls := s.calls.set c (afterExpireNX event reply) }
  | expire {c reply} (hc : s.calls[c]? = some .limited) :
      Effect s (.expire c reply) { s with
        key := execute reply (expireAgain s.clock streamRetention) s.key
        calls := s.calls.set c (afterExpire reply) }

variable {s t : State} {e : Event} {tr : List Event} {a b : Logged State Note}

theorem Step.effect (h : Step s e t) : Effect s e t := by
  cases e with
  | tick ms =>
    cases h
    exact .tick
  | xadd event reply =>
    cases h
    exact .xadd
  | expireNX c reply =>
    simp only [Step, Fires, step] at h
    split at h
    · next event hc =>
      cases h
      exact .expireNX hc
    · cases h
  | expire c reply =>
    simp only [Step, Fires, step] at h
    split at h
    · next hc =>
      cases h
      exact .expire hc
    · cases h

def Note.entry : Note → Option StreamEvent
  | appended _ event => some event
  | retained _ => none

def entries (log : List Note) : List StreamEvent := log.filterMap Note.entry

/-- The first entry gives the stream half an hour.  A terminal event published within the time it
has gives it an hour from then; afterwards it is too late. -/
def extend : Option ℕ → Note → Option ℕ
  | none, .appended time _ => some (time + 1000 * streamTTL)
  | some d, .retained time =>
    some (if time ≤ d then max d (time + 1000 * streamRetention) else d)
  | kept, _ => kept

def keptUntil (log : List Note) : Option ℕ := log.foldl extend none

/-- Redis keeps `v` until `d`; a key without an expiry may be given the shorter one. -/
structure Lasts (now d : ℕ) (v : Volatile (List StreamEvent)) : Prop where
  later : ∀ t ∈ v.expiresAt, d ≤ t
  open_ : v.expiresAt = none → d ≤ now + 1000 * streamTTL

variable {now d ms : ℕ} {v : Volatile (List StreamEvent)} {event : StreamEvent}
  {key : Option (Volatile (List StreamEvent))} {reply : Reply}

namespace Lasts

theorem live (h : Lasts now d v) (hd : now ≤ d) : v.Live now :=
  fun t ht => hd.trans (h.later t ht)

theorem tick (h : Lasts now d v) : Lasts (now + ms) d v where
  later := h.later
  open_ hnone := by
    have hd := h.open_ hnone
    omega

theorem xadd (h : Lasts now d v) (hd : now ≤ d) :
    (Redis.xadd now event (some v)).value = v.value ++ [event] ∧
      Lasts now d (Redis.xadd now event (some v)) := by
  have hxadd : Redis.xadd now event (some v) = v.set (v.value ++ [event]) := if_pos (h.live hd)
  rw [hxadd]
  exact ⟨rfl, h.later, h.open_⟩

theorem expireNX (h : Lasts now d v) :
    ∃ w, Redis.expireNX now streamTTL (some v) = some w ∧ w.value = v.value ∧ Lasts now d w := by
  obtain ⟨value, expiresAt⟩ := v
  cases expiresAt with
  | none =>
    refine ⟨_, rfl, rfl, fun t ht => ?_, fun hnone => nomatch hnone⟩
    have hd := h.open_ rfl
    have ht : now + 1000 * streamTTL = t := Option.some.inj ht
    omega
  | some t => exact ⟨_, rfl, rfl, h⟩

theorem expireAgain (h : Lasts now d v) (hd : now ≤ d)
    (hbound : d ≤ now + 1000 * streamRetention) :
    ∃ w, Redis.expireAgain now streamRetention (some v) = some w ∧ w.value = v.value ∧
      Lasts now (now + 1000 * streamRetention) w ∧ Lasts now d w := by
  -- an `EXPIRE` never comes before what was promised
  have hlasts : ∀ d ≤ now + 1000 * streamRetention,
      Lasts now d ⟨v.value, some (now + 1000 * streamRetention)⟩ := by
    intro d hd
    refine ⟨fun t ht => ?_, fun hnone => nomatch hnone⟩
    have ht : now + 1000 * streamRetention = t := Option.some.inj ht
    omega
  have hfetch : fetch now (some v) = some v.value := if_pos (h.live hd)
  refine ⟨⟨v.value, some (now + 1000 * streamRetention)⟩, ?_, rfl, hlasts _ le_rfl, hlasts d hbound⟩
  rw [Redis.expireAgain, hfetch]
  rfl

end Lasts

/-- Until the time is over the key holds all that was published; what it holds is never more than
the end of that. -/
structure Kept (now : ℕ) (key : Option (Volatile (List StreamEvent))) (log : List Note) :
    Prop where
  absent : keptUntil log = none → key = none ∧ entries log = []
  bound : ∀ d ∈ keptUntil log, d ≤ now + 1000 * streamRetention
  whole : ∀ d ∈ keptUntil log, now ≤ d →
    ∃ v, key = some v ∧ v.value = entries log ∧ Lasts now d v
  ends : ∀ v ∈ key, v.value <:+ entries log

variable {log : List Note}

theorem keptUntil_snoc (n : Note) : keptUntil (log ++ [n]) = extend (keptUntil log) n := by
  rw [keptUntil, List.foldl_append]
  rfl

theorem entries_appended (time : ℕ) :
    entries (log ++ [.appended time event]) = entries log ++ [event] := by
  simp [entries, Note.entry]

theorem entries_retained (time : ℕ) : entries (log ++ [.retained time]) = entries log := by
  simp [entries, Note.entry]

theorem value_of_expireNX {w : Volatile (List StreamEvent)} {ttl : ℕ}
    (h : Redis.expireNX now ttl key = some w) : ∃ v, key = some v ∧ w.value = v.value := by
  unfold Redis.expireNX at h
  split at h
  · exact ⟨_, rfl, value_of_expire h⟩
  · exact ⟨w, h, rfl⟩

theorem value_of_expireAgain {w : Volatile (List StreamEvent)} {ttl : ℕ}
    (h : expireAgain now ttl key = some w) : ∃ v, key = some v ∧ w.value = v.value := by
  obtain ⟨value, hfetch, hw⟩ := Option.bind_eq_some_iff.mp h
  obtain ⟨v, rfl, -, rfl⟩ := fetch_some.mp hfetch
  exact ⟨v, rfl, value_of_expire hw⟩

namespace Kept

theorem start : Kept 0 none [] where
  absent _ := ⟨rfl, rfl⟩
  bound _ hd := nomatch hd
  whole _ hd := nomatch hd
  ends _ hv := nomatch hv

theorem tick (h : Kept now key log) : Kept (now + ms) key log where
  absent := h.absent
  bound d hd := by
    have hbound := h.bound d hd
    omega
  whole d hd hnow := by
    obtain ⟨v, hv, hvalue, hlasts⟩ := h.whole d hd (by omega)
    exact ⟨v, hv, hvalue, hlasts.tick⟩
  ends := h.ends

theorem change {key' : Option (Volatile (List StreamEvent))} (h : Kept now key log)
    (hvalue : ∀ w ∈ key', ∃ v, key = some v ∧ w.value = v.value)
    (hlasts : ∀ v d, key = some v → now ≤ d → d ≤ now + 1000 * streamRetention →
      Lasts now d v → ∃ w, key' = some w ∧ w.value = v.value ∧ Lasts now d w) :
    Kept now key' log where
  absent hnone := by
    -- a command that leaves the entries alone and no expiry before the one that was promised
    obtain ⟨hkey, hentries⟩ := h.absent hnone
    refine ⟨Option.eq_none_iff_forall_ne_some.mpr fun w hw => ?_, hentries⟩
    obtain ⟨v, hv, -⟩ := hvalue w hw
    rw [hkey] at hv
    cases hv
  bound := h.bound
  whole d hd hnow := by
    obtain ⟨v, hv, hall, hv'⟩ := h.whole d hd hnow
    obtain ⟨w, hw, hsame, hw'⟩ := hlasts v d hv hnow (h.bound d hd) hv'
    exact ⟨w, hw, hsame.trans hall, hw'⟩
  ends w hw := by
    obtain ⟨v, hv, hsame⟩ := hvalue w hw
    rw [hsame]
    exact h.ends v hv

theorem expireNX (h : Kept now key log) : Kept now (Redis.expireNX now streamTTL key) log := by
  refine h.change (fun w hw => value_of_expireNX hw) ?_
  intro v d hv _ _ hlasts
  rw [hv]
  exact hlasts.expireNX

theorem expire (h : Kept now key log) : Kept now (expireAgain now streamRetention key) log := by
  refine h.change (fun w hw => value_of_expireAgain hw) ?_
  intro v d hv hnow hbound hlasts
  obtain ⟨w, hw, hsame, -, hw'⟩ := hlasts.expireAgain hnow hbound
  rw [hv]
  exact ⟨w, hw, hsame, hw'⟩

theorem retain (h : Kept now key log) :
    Kept now (expireAgain now streamRetention key) (log ++ [.retained now]) := by
  have hexpire := h.expire
  cases hkept : keptUntil log with
  | none =>
    have hnone : keptUntil (log ++ [.retained now]) = none := by
      rw [keptUntil_snoc, hkept]
      rfl
    refine ⟨?_, ?_, ?_, ?_⟩
    · intro _
      rw [entries_retained]
      exact hexpire.absent hkept
    · rw [hnone]
      exact fun _ hd => nomatch hd
    · rw [hnone]
      exact fun _ hd => nomatch hd
    · rw [entries_retained]
      exact hexpire.ends
  | some d =>
    have hsome : keptUntil (log ++ [.retained now]) =
        some (if now ≤ d then max d (now + 1000 * streamRetention) else d) := by
      rw [keptUntil_snoc, hkept]
      rfl
    have hbound := h.bound d hkept
    refine ⟨?_, ?_, ?_, ?_⟩
    · rw [hsome]
      exact fun hnone => nomatch hnone
    · intro d' hd'
      rw [hsome] at hd'
      have hd' := Option.some.inj hd'
      split_ifs at hd' <;> omega
    · intro d' hd' hnow
      rw [hsome] at hd'
      have hd' := Option.some.inj hd'
      have hd : now ≤ d := by
        split_ifs at hd' <;> omega
      rw [if_pos hd, Nat.max_eq_right hbound] at hd'
      obtain ⟨v, hv, hall, hlasts⟩ := h.whole d hkept hd
      obtain ⟨w, hw, hsame, hw', -⟩ := hlasts.expireAgain hd hbound
      rw [hv, entries_retained, ← hd']
      exact ⟨w, hw, hsame.trans hall, hw'⟩
    · rw [entries_retained]
      exact hexpire.ends

theorem xadd (h : Kept now key log) :
    Kept now (some (Redis.xadd now event key)) (log ++ [.appended now event]) := by
  have hends : (Redis.xadd now event key).value <:+ entries (log ++ [.appended now event]) := by
    rw [entries_appended]
    unfold Redis.xadd
    split
    · next v =>
      split
      · exact (List.suffix_append_inj_of_length_eq rfl).mpr ⟨h.ends v rfl, rfl⟩
      · exact List.suffix_append _ _
    · exact List.suffix_append _ _
  cases hkept : keptUntil log with
  | none =>
    obtain ⟨rfl, hentries⟩ := h.absent hkept
    have hsome : keptUntil (log ++ [.appended now event]) = some (now + 1000 * streamTTL) := by
      rw [keptUntil_snoc, hkept]
      rfl
    refine ⟨?_, ?_, ?_, ?_⟩
    · rw [hsome]
      exact fun hnone => nomatch hnone
    · intro d hd
      rw [hsome] at hd
      have hd := Option.some.inj hd
      rw [← hd]
      exact Nat.add_le_add_left (by decide) now
    · intro d hd _
      rw [hsome] at hd
      have hd := Option.some.inj hd
      rw [entries_appended, hentries, ← hd]
      exact ⟨⟨[event], none⟩, rfl, rfl, ⟨fun _ ht => (nomatch ht), fun _ => le_rfl⟩⟩
    · intro v hv
      obtain rfl := Option.some.inj hv
      exact hends
  | some d =>
    have hsome : keptUntil (log ++ [.appended now event]) = some d := by
      rw [keptUntil_snoc, hkept]
      rfl
    refine ⟨?_, ?_, ?_, ?_⟩
    · rw [hsome]
      exact fun hnone => nomatch hnone
    · rw [hsome, ← hkept]
      exact h.bound
    · intro d' hd' hnow
      rw [hsome] at hd'
      obtain rfl := Option.some.inj hd'
      obtain ⟨v, hv, hall, hlasts⟩ := h.whole d hkept hnow
      obtain ⟨hvalue, hlasts'⟩ := @Lasts.xadd now d v event hlasts hnow
      rw [hv, entries_appended, ← hall]
      exact ⟨_, rfl, hvalue, hlasts'⟩
    · intro v hv
      obtain rfl := Option.some.inj hv
      exact hends

theorem execute {command : Option (Volatile (List StreamEvent)) →
    Option (Volatile (List StreamEvent))} (h : Kept now key log)
    (hcommand : Kept now (command key) log) :
    Kept now (StreamRetention.execute reply command key) log := by
  unfold StreamRetention.execute
  split
  · exact hcommand
  · exact h

theorem step (h : Kept a.state.clock a.state.key a.log) (he : NotedStep a e b) :
    Kept b.state.clock b.state.key b.log := by
  obtain ⟨t, log⟩ := b
  obtain ⟨hstep, rfl⟩ := loggedStep_inv he
  cases Step.effect hstep with
  | tick =>
    rw [note, Option.toList_none, List.append_nil]
    exact h.tick
  | @xadd event reply =>
    rw [note, StreamRetention.execute]
    split
    · exact h.xadd
    · rw [Option.toList_none, List.append_nil]
      exact h
  | expireNX hc =>
    rw [note, Option.toList_none, List.append_nil]
    exact h.execute h.expireNX
  | @expire c reply hc =>
    cases reply with
    | ok => exact h.retain
    | failed err applied =>
      rw [note, Option.toList_none, List.append_nil]
      exact h.execute h.expire

end Kept

theorem kept_of_run (h : Run NotedStep ⟨initial, []⟩ tr a) :
    Kept a.state.clock a.state.key a.log :=
  h.history (fun _ a => Kept a.state.clock a.state.key a.log) Kept.start
    fun _ _ _ _ hkept he => hkept.step he

/-- Whatever calls of `Publish` interleave, fail or stop half way: a reader who comes within half an
hour of the first event, or within an hour of a terminal event that was published in time, finds all
that was published.  Later the beginning may be gone, but nothing from the middle. -/
theorem stream_kept (h : Run NotedStep ⟨initial, []⟩ tr a) :
    (∀ d ∈ keptUntil a.log, a.state.clock ≤ d →
      fetch a.state.clock a.state.key = some (entries a.log)) ∧
    ∀ found, fetch a.state.clock a.state.key = some found → found <:+ entries a.log := by
  have hkept := kept_of_run h
  constructor
  · intro d hd hnow
    obtain ⟨v, hv, hall, hlasts⟩ := hkept.whole d hd hnow
    exact fetch_some.mpr ⟨v, hv, hlasts.live hnow, hall⟩
  · intro found hfound
    obtain ⟨v, hv, -, rfl⟩ := fetch_some.mp hfound
    exact hkept.ends v hv

/-- Two workers publish for the job at the same time.  The terminal event comes ten minutes later;
its `EXPIRE` succeeds, and so the whole is still there an hour after that. -/
def twoPublishers : List Event :=
  [.xadd ⟨.chunk, "Hel"⟩ .ok, .tick 5, .xadd ⟨.chunk, "lo"⟩ .ok, .expireNX 1 .ok,
   .expireNX 0 (.failed (.text "i/o timeout") true), .tick 600000, .xadd ⟨.completed, ""⟩ .ok,
   .expireNX 2 .ok, .expire 2 .ok, .tick 3600000]

theorem stream_kept_two_publishers :
    ∃ a, Run NotedStep ⟨initial, []⟩ twoPublishers a ∧ a.state.clock = 4200005 ∧
      fetch a.state.clock a.state.key =
        some [⟨.chunk, "Hel"⟩, ⟨.chunk, "lo"⟩, ⟨.completed, ""⟩] := by
  obtain ⟨a, hrun, hclock, hkept, hentries⟩ := Run.exists_of_foldlM (loggedStep step note)
    ⟨initial, []⟩ twoPublishers (fun a => a.state.clock = 4200005 ∧
      keptUntil a.log = some 4200005 ∧
      entries a.log = [⟨.chunk, "Hel"⟩, ⟨.chunk, "lo"⟩, ⟨.completed, ""⟩]) (by decide +kernel)
  refine ⟨a, hrun, hclock, ?_⟩
  rw [← hentries]
  exact (stream_kept hrun).1 4200005 hkept hclock.le

/-- A key that is there for good is the doing of a call that failed or is not through. -/
structure Expiring (s : State) : Prop where
  bound : ∀ v ∈ s.key, ∀ t ∈ v.expiresAt, t ≤ s.clock + 1000 * streamRetention
  open_ : ∀ v ∈ s.key, v.expiresAt = none → ∃ c ∈ s.calls, c ≠ .returned none

theorem expiresAt_of_expire {ttl : ℕ} {value : List StreamEvent}
    (h : expire now ttl value = some v) : v.expiresAt = some (now + 1000 * ttl) := by
  unfold expire at h
  split_ifs at h
  cases h
  rfl

theorem expiresAt_of_expireNX {ttl : ℕ} (h : expireNX now ttl key = some v) :
    v.expiresAt = some (now + 1000 * ttl) ∨ key = some v ∧ v.expiresAt ≠ none := by
  unfold expireNX at h
  split at h
  · exact Or.inl (expiresAt_of_expire h)
  · next hkey =>
    subst h
    refine Or.inr ⟨rfl, fun hnone => ?_⟩
    exact hkey v.value (by rw [← hnone])

theorem expiresAt_of_expireAgain {ttl : ℕ} (h : expireAgain now ttl key = some v) :
    v.expiresAt = some (now + 1000 * ttl) := by
  obtain ⟨value, -, hv⟩ := Option.bind_eq_some_iff.mp h
  exact expiresAt_of_expire hv

theorem expiresAt_xadd :
    (xadd now event key).expiresAt = none ∨
      ∃ w, key = some w ∧ (xadd now event key).expiresAt = w.expiresAt := by
  unfold xadd
  split
  · next w =>
    split
    · exact Or.inr ⟨w, rfl, rfl⟩
    · exact Or.inl rfl
  · exact Or.inl rfl

namespace Expiring

theorem start : Expiring initial where
  bound _ hv := nomatch hv
  open_ _ hv := nomatch hv

theorem tick (h : Expiring s) : Expiring { s with clock := s.clock + ms } where
  bound v hv t ht := by
    have hbound := h.bound v hv t ht
    show t ≤ s.clock + ms + 1000 * streamRetention
    omega
  open_ := h.open_

theorem command {calls : List Call} {c : Call} (h : Expiring s) (hmem : c ∈ calls)
    (hbound : ∀ v ∈ key, (∀ t ∈ v.expiresAt, t ≤ s.clock + 1000 * streamRetention) ∨
      ∃ w, s.key = some w ∧ v.expiresAt = w.expiresAt)
    (hopen : ∀ v ∈ key, v.expiresAt = none → c ≠ .returned none) :
    Expiring { s with key, calls } where
  bound v hv := by
    rcases hbound v hv with hnew | ⟨w, hw, hsame⟩
    · exact hnew
    · rw [hsame]
      exact h.bound w hw
  open_ v hv hnone := ⟨c, hmem, hopen v hv hnone⟩

/-- `EXPIRENX` and `EXPIRE` leave no key without an expiry, unless they are not executed. -/
theorem timed {command : Option (Volatile (List StreamEvent)) →
    Option (Volatile (List StreamEvent))} {c ttl : ℕ} {call : Call} (h : Expiring s)
    (hc : c < s.calls.length) (httl : ttl ≤ streamRetention)
    (hcommand : ∀ v, command s.key = some v → v.expiresAt = some (s.clock + 1000 * ttl) ∨
      s.key = some v ∧ v.expiresAt ≠ none)
    (hcall : reply.applied = false → call ≠ .returned none) :
    Expiring { s with key := execute reply command s.key, calls := s.calls.set c call } := by
  refine h.command (List.mem_set hc _) (fun v hv => ?_) fun v hv hnone => ?_
  · unfold execute at hv
    split at hv
    · rcases hcommand v hv with hnew | ⟨hold, -⟩
      · rw [hnew]
        refine Or.inl fun t ht => ?_
        obtain rfl := Option.some.inj ht
        omega
      · exact Or.inr ⟨v, hold, rfl⟩
    · exact Or.inr ⟨v, hv, rfl⟩
  · unfold execute at hv
    split at hv
    · rcases hcommand v hv with hnew | ⟨-, hold⟩
      · rw [hnew] at hnone
        cases hnone
      · exact absurd hnone hold
    · next happlied => exact hcall (by simpa using happlied)

theorem step (h : Expiring s) (he : Step s e t) : Expiring t := by
  cases he.effect with
  | tick => exact h.tick
  | @xadd event reply =>
    have hcall : afterXAdd event reply ≠ .returned none := by
      cases reply <;> simp [afterXAdd]
    refine h.command (List.mem_append_right _ (List.mem_singleton_self _)) ?_ fun _ _ _ => hcall
    intro v hv
    unfold execute at hv
    split at hv
    · obtain rfl := Option.some.inj hv
      rcases @expiresAt_xadd s.clock event s.key with hnone | hsame
      · rw [hnone]
        exact Or.inl fun _ ht => nomatch ht
      · exact Or.inr hsame
    · exact Or.inr ⟨v, hv, rfl⟩
  | @expireNX c event reply hc =>
    have hlt : c < s.calls.length := (List.getElem?_eq_some_iff.mp hc).1
    refine h.timed hlt (by decide) (fun v hv => expiresAt_of_expireNX hv) fun happlied => ?_
    cases reply with
    | ok => cases happlied
    | failed => simp [afterExpireNX]
  | @expire c reply hc =>
    have hlt : c < s.calls.length := (List.getElem?_eq_some_iff.mp hc).1
    refine h.timed hlt le_rfl (fun v hv => Or.inl (expiresAt_of_expireAgain hv)) fun happlied => ?_
    cases reply with
    | ok => cases happlied
    | failed => simp [afterExpire]

end Expiring

theorem expiring_of_run (h : Run Step initial tr s) : Expiring s :=
  h.history (fun _ s => Expiring s) Expiring.start fun _ _ _ _ hs he => hs.step he

def Event.isTick : Event → Bool
  | tick _ => true
  | _ => false

theorem key_of_ticks {rest : List Event} (h : Run Step s rest t)
    (hrest : ∀ e ∈ rest, e.isTick = true) : t.key = s.key := by
  induction h with
  | nil => rfl
  | snoc _ he ih =>
    have hpast := ih fun e he => hrest e (List.mem_append_left _ he)
    have htick := hrest _ (List.mem_append_right _ (List.mem_singleton_self _))
    cases Step.effect he with
    | tick => exact hpast
    | xadd | expireNX | expire => cases htick

/-- More than an hour after the last command nothing of a stream is left, if every call of `Publish`
has returned without an error. -/
theorem stream_deleted {rest : List Event} (h : Run Step initial tr s)
    (hdone : ∀ c ∈ s.calls, c = .returned none) (hrest : Run Step s rest t)
    (hticks : ∀ e ∈ rest, e.isTick = true)
    (hlate : s.clock + 1000 * streamRetention < t.clock) : fetch t.clock t.key = none := by
  have hs := expiring_of_run h
  rw [key_of_ticks hrest hticks]
  apply Option.eq_none_iff_forall_ne_some.mpr
  intro found hfound
  obtain ⟨v, hv, hlive, -⟩ := fetch_some.mp hfound
  cases hexpiry : v.expiresAt with
  | none =>
    obtain ⟨c, hc, herr⟩ := hs.open_ v hv hexpiry
    exact herr (hdone c hc)
  | some d =>
    have hbound := hs.bound v hv d hexpiry
    have hlive := hlive d hexpiry
    omega

theorem stream_deleted_two_publishers :
    ∃ s t, Run Step initial (twoPublishers.set 4 (.expireNX 0 .ok)) s ∧
      Run Step s [.tick 3600001] t ∧ fetch t.clock t.key = none := by
  obtain ⟨s, hrun, hdone⟩ := Run.exists_of_foldlM step initial
    (twoPublishers.set 4 (.expireNX 0 .ok))
    (fun s => ∀ c ∈ s.calls, c = .returned none) (by decide +kernel)
  have hrest : Run Step s [.tick 3600001] { s with clock := s.clock + 3600001 } := Run.single rfl
  refine ⟨s, _, hrun, hrest, stream_deleted hrun hdone hrest (by decide) ?_⟩
  exact Nat.add_lt_add_left (by decide) s.clock

/-- One `EXPIRENX` that fails after the first `XADD` can leave the stream there for good. -/
example : ∃ s, Run Step initial [.xadd ⟨.failed, "job failed"⟩ .ok,
      .expireNX 0 (.failed (.text "i/o timeout") false)] s ∧
    s.key = some ⟨[⟨.failed, "job failed"⟩], none⟩ :=
  Run.exists_of_foldlM step initial _ _ (by decide +kernel)

end InferenceQueue.StreamRetention

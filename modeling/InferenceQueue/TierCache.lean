import InferenceQueue.RedisKeys
import InferenceQueue.Runs
import InferenceQueue.Shared

namespace InferenceQueue.Users

open Redis

inductive Tier
  | free
  | premium
deriving DecidableEq, Repr

def Tier.text : Tier → String
  | free => "free"
  | premium => "premium"

/-- The cast `$1::user_tier`. -/
def castUserTier (tier : String) : Option Tier :=
  if tier = "free" then some .free else if tier = "premium" then some .premium else none

/-- Where a call of `Tier` (the first five) or of `UpdateUserTier` stands. -/
inductive Stage
  | get
  | find
  | set (tier : Tier)
  | answered (tier : String)
  | tierErr (err : GoError)
  | update (tier : String)
  | invalidate (tier : String)
  | updated (tier : String)
  | updateErr (err : GoError)
deriving DecidableEq

inductive Reply
  /-- after its effect or before it -/
  | failed (err : GoError) (applied : Bool)
  | done
  | cached (tier : Option String)
  | user (tier : Option Tier)
  | rowsAffected (n : ℕ)
deriving DecidableEq

def Reply.applied : Reply → Bool
  | failed _ applied => applied
  | _ => true

def tierFetchFailed : GoError → GoError := .app "USER_TIER_FETCH_FAILED" "USER_OPERATION_FAILED"

/-- The error of `UpdateUserTier` for that of the repository. -/
def updateFailed (err : GoError) : GoError :=
  if err.is .userNotFound then err.ensureAppError "USER_NOT_FOUND" "ADMIN_USE_CASE_FAILED"
  else err.ensureAppError "DB_QUERY_FAILED" "ADMIN_USE_CASE_FAILED"

namespace Stage

/-- The switch on the cached tier. -/
def afterGet (cachedUserTier : String) : Stage :=
  if cachedUserTier = "" then find else answered cachedUserTier

def resume : Stage → Reply → Option Stage
  | get, .cached tier => some (afterGet (tier.getD ""))
  | get, .failed _ _ => some (afterGet "")
  | find, .user (some tier) => some (set tier)
  | find, .user none => some (tierErr (tierFetchFailed (.sentinel .userNotFound)))
  | find, .failed err _ => some (tierErr (tierFetchFailed (.wrap "retrieve user tier: " err)))
  -- a failed write of the cache is only logged
  | set tier, .done => some (answered tier.text)
  | set tier, .failed _ _ => some (answered tier.text)
  | update tier, .rowsAffected n =>
    if n = 0 then some (updateErr (updateFailed (.sentinel .userNotFound)))
    else some (invalidate tier)
  | update _, .failed err _ => some (updateErr (updateFailed (.wrap "update user tier: " err)))
  -- and so is a failed invalidation
  | invalidate tier, .done => some (updated tier)
  | invalidate tier, .failed _ _ => some (updated tier)
  | _, _ => none

def ofUpdate : Stage → Bool
  | update _ => true
  | invalidate _ => true
  | updated _ => true
  | updateErr _ => true
  | _ => false

/-- A call of `UpdateUserTier` that has not returned. -/
def updating : Stage → Bool
  | update _ => true
  | invalidate _ => true
  | _ => false

end Stage

structure Call where
  userID : UserID
  stage : Stage
deriving DecidableEq

/-- Any number of calls at once, one cache or database call a step. Times are in milliseconds. -/
structure State where
  clock : ℕ
  cache : Keyspace String String
  users : Finmap (fun _ : UserID => Tier)
  calls : List Call

def State.initial (users : Finmap (fun _ : UserID => Tier)) : State := ⟨0, ∅, users, []⟩

def buildUserTierCacheKey (userID : UserID) : String := "user:" ++ userID.val ++ ":tier"

def State.cached (s : State) (userID : UserID) : Option String :=
  s.cache.get s.clock (buildUserTierCacheKey userID)

/-- The answers that the cache and the database can give. -/
def State.Answers (s : State) (userID : UserID) : Stage → Reply → Prop
  | _, .failed _ _ => True
  | .get, .cached tier => s.cached userID = tier
  | .find, .user tier => s.users.lookup userID = tier
  | .update tier, .rowsAffected n =>
    castUserTier tier ≠ none ∧ n = if s.users.lookup userID = none then 0 else 1
  | _, _ => True

instance (s : State) (userID : UserID) (stage : Stage) (reply : Reply) :
    Decidable (s.Answers userID stage reply) := by
  induction stage using Stage.casesOn <;> induction reply using Reply.casesOn <;>
    dsimp only [State.Answers] <;> infer_instance

def State.putCache (s : State) (userID : UserID) (v : Option (Volatile String)) : State :=
  { s with cache := s.cache.put (buildUserTierCacheKey userID) v }

def State.updateUserTier (s : State) (userID : UserID) (tier : String) : State :=
  match castUserTier tier, s.users.lookup userID with
  | some tier, some _ => { s with users := s.users.insert userID tier }
  | _, _ => s

/-- What a call changes. The cache keeps a tier for 15 minutes. -/
def State.perform (s : State) (userID : UserID) (reply : Reply) : Stage → State
  | .set tier =>
    if reply.applied then s.putCache userID (expire s.clock 900 tier.text) else s
  | .update tier => if reply.applied then s.updateUserTier userID tier else s
  | .invalidate _ => if reply.applied then s.putCache userID none else s
  | _ => s

inductive Event
  | tick (ms : ℕ)
  | tier (userID : UserID)
  | updateUserTier (userID : UserID) (tier : String)
  | call (i : ℕ) (reply : Reply)
deriving DecidableEq

def step (s : State) : Event → Option State
  | .tick ms => some { s with clock := s.clock + ms }
  | .tier userID => some { s with calls := s.calls ++ [⟨userID, .get⟩] }
  | .updateUserTier userID tier => some { s with calls := s.calls ++ [⟨userID, .update tier⟩] }
  | .call i reply => do
    let c ← s.calls[i]?
    let next ← c.stage.resume reply
    if s.Answers c.userID c.stage reply then
      some { s.perform c.userID reply c.stage with calls := s.calls.set i ⟨c.userID, next⟩ }
    else none

abbrev Step : State → Event → State → Prop := Fires step

def Event.Succeeds : Event → Prop
  | .call _ (.failed _ _) => False
  | .call _ (.user none) => False
  | .call _ (.rowsAffected 0) => False
  | _ => True

instance (e : Event) : Decidable e.Succeeds := by
  unfold Event.Succeeds
  split <;> infer_instance

section

variable {s t : State} {e : Event} {i j k : ℕ} {reply : Reply} {c d : Call} {next : Stage}
  {userID u : UserID} {tier v : String} {past : List Event}

theorem castUserTier_text {T : Tier} (h : castUserTier tier = some T) : T.text = tier := by
  unfold castUserTier at h
  split_ifs at h with hfree hpremium <;> cases h
  · exact hfree.symm
  · exact hpremium.symm

theorem buildUserTierCacheKey_inj (h : buildUserTierCacheKey u = buildUserTierCacheKey userID) :
    u = userID := by
  unfold buildUserTierCacheKey at h
  rw [String.append_left_inj, String.append_right_inj] at h
  exact Ident.val_injective h

structure Moves (s : State) (i : ℕ) (reply : Reply) (c : Call) (next : Stage) (t : State) :
    Prop where
  at_call : s.calls[i]? = some c
  resumed : c.stage.resume reply = some next
  answered : s.Answers c.userID c.stage reply
  eq : t = { s.perform c.userID reply c.stage with calls := s.calls.set i ⟨c.userID, next⟩ }

theorem Step.moves (h : Step s (.call i reply) t) : ∃ c next, Moves s i reply c next t := by
  simp only [Step, Fires, step, Option.bind_eq_bind, Option.bind_eq_some_iff] at h
  obtain ⟨c, hc, next, hnext, h⟩ := h
  split_ifs at h with hanswers
  exact ⟨c, next, hc, hnext, hanswers, (Option.some.inj h).symm⟩

theorem Moves.calls (h : Moves s i reply c next t) :
    t.calls = s.calls.set i ⟨c.userID, next⟩ := by
  rw [h.eq]

theorem Moves.self (h : Moves s i reply c next t) : t.calls[i]? = some ⟨c.userID, next⟩ := by
  rw [h.calls, List.getElem?_set_self (List.getElem?_eq_some_iff.mp h.at_call).1]

theorem Moves.clock (h : Moves s i reply c next t) : t.clock = s.clock := by
  rw [h.eq]
  cases c.stage <;> simp only [State.perform, State.updateUserTier] <;> first
    | rfl
    | (split_ifs <;> first | rfl | (split <;> rfl))

theorem Step.call_cases (h : Step s e t) (hd : t.calls[j]? = some d) :
    (s.calls[j]? = some d ∧ ∀ reply, e ≠ .call j reply) ∨
      (e = .tier d.userID ∧ j = s.calls.length ∧ d.stage = .get) ∨
      (∃ tier, e = .updateUserTier d.userID tier ∧ j = s.calls.length ∧ d.stage = .update tier) ∨
      ∃ reply c, e = .call j reply ∧ d.userID = c.userID ∧ Moves s j reply c d.stage t := by
  cases e with
  | tick ms =>
    obtain rfl := Option.some.inj h
    exact Or.inl ⟨hd, nofun⟩
  | tier userID =>
    obtain rfl := Option.some.inj h
    rcases getElem?_concat_cases hd with hold | ⟨rfl, rfl⟩
    · exact Or.inl ⟨hold, nofun⟩
    · exact Or.inr (Or.inl ⟨rfl, rfl, rfl⟩)
  | updateUserTier userID tier =>
    obtain rfl := Option.some.inj h
    rcases getElem?_concat_cases hd with hold | ⟨rfl, rfl⟩
    · exact Or.inl ⟨hold, nofun⟩
    · exact Or.inr (Or.inr (Or.inl ⟨tier, rfl, rfl, rfl⟩))
  | call i reply =>
    obtain ⟨c, next, hmoves⟩ := Step.moves h
    rw [hmoves.calls] at hd
    rcases getElem?_set_cases hmoves.at_call hd with ⟨rfl, rfl⟩ | ⟨hne, hold⟩
    · exact Or.inr (Or.inr (Or.inr ⟨reply, c, rfl, rfl, hmoves⟩))
    · refine Or.inl ⟨hold, fun reply' heq => ?_⟩
      cases heq
      exact hne rfl

theorem Step.call_forward (h : Step s e t) (hc : s.calls[k]? = some c) :
    t.calls[k]? = some c ∨
      ∃ reply next, e = .call k reply ∧ c.stage.resume reply = some next ∧
        t.calls[k]? = some ⟨c.userID, next⟩ := by
  have hlt := (List.getElem?_eq_some_iff.mp hc).1
  cases e with
  | tick ms =>
    obtain rfl := Option.some.inj h
    exact Or.inl hc
  | tier userID =>
    obtain rfl := Option.some.inj h
    exact Or.inl (by rw [List.getElem?_append_left hlt, hc])
  | updateUserTier userID tier =>
    obtain rfl := Option.some.inj h
    exact Or.inl (by rw [List.getElem?_append_left hlt, hc])
  | call i reply =>
    obtain ⟨d, next, hmoves⟩ := Step.moves h
    by_cases hik : i = k
    · subst hik
      obtain rfl := Option.some.inj (hmoves.at_call.symm.trans hc)
      exact Or.inr ⟨reply, next, rfl, hmoves.resumed, hmoves.self⟩
    · rw [hmoves.calls, List.getElem?_set_ne hik]
      exact Or.inl hc

def State.rowTier (s : State) (userID : UserID) : Option String :=
  (s.users.lookup userID).map Tier.text

theorem Moves.users (h : Moves s i reply c next t) :
    t.users.lookup userID = s.users.lookup userID ∨
      (c.userID = userID ∧ ∃ tier, c.stage = .update tier) := by
  rw [h.eq]
  cases hstage : c.stage with
  | update tier =>
    by_cases hid : c.userID = userID
    · exact Or.inr ⟨hid, tier, rfl⟩
    · left
      dsimp only [State.perform, State.updateUserTier]
      split_ifs
      · split
        · exact Finmap.lookup_insert_of_ne _ (Ne.symm hid)
        · rfl
      · rfl
  | set | invalidate =>
    left
    dsimp only [State.perform]
    split_ifs <;> rfl
  | _ => exact Or.inl rfl

theorem Step.row (h : Step s e t) (userID : UserID) :
    t.rowTier userID = s.rowTier userID ∨
      ∃ i reply c next tier, e = .call i reply ∧ Moves s i reply c next t ∧ c.userID = userID ∧
        c.stage = .update tier := by
  unfold State.rowTier
  cases e with
  | call i reply =>
    obtain ⟨c, next, hmoves⟩ := Step.moves h
    rcases hmoves.users with hsame | ⟨hid, tier, hstage⟩
    · exact Or.inl (by rw [hsame])
    · exact Or.inr ⟨i, reply, c, next, tier, rfl, hmoves, hid, hstage⟩
  | _ =>
    obtain rfl := Option.some.inj h
    exact Or.inl rfl

theorem Moves.written (h : Moves s i reply c next t) (hs : Event.Succeeds (.call i reply))
    (hstage : c.stage = .update tier) :
    next = .invalidate tier ∧ t.rowTier c.userID = some tier := by
  have hresumed := h.resumed
  have hanswered := h.answered
  rw [hstage] at hresumed hanswered
  cases reply with
  | rowsAffected n =>
    obtain ⟨hcast, hn⟩ := hanswered
    obtain ⟨T, hT⟩ := Option.ne_none_iff_exists'.mp hcast
    cases n with
    | zero => exact absurd hs id
    | succ n =>
      obtain rfl := Option.some.inj hresumed
      have hrow : s.users.lookup c.userID ≠ none := by
        intro hnone
        rw [if_pos hnone] at hn
        cases hn
      obtain ⟨row, hrow⟩ := Option.ne_none_iff_exists'.mp hrow
      refine ⟨rfl, ?_⟩
      rw [h.eq, State.rowTier]
      simp [State.perform, State.updateUserTier, hstage, hT, hrow, Reply.applied,
        castUserTier_text hT]
  | failed err applied => exact absurd hs id
  | _ => cases hresumed

theorem cached_putCache (s : State) (u userID : UserID) (v : Option (Volatile String)) :
    (s.putCache u v).cached userID = if userID = u then fetch s.clock v else s.cached userID := by
  unfold State.putCache State.cached
  dsimp only
  rw [Keyspace.get_put]
  by_cases h : userID = u
  · simp [h]
  · rw [if_neg h, if_neg fun hkey => h (buildUserTierCacheKey_inj hkey)]

theorem Moves.cached (h : Moves s i reply c next t) :
    t.cached userID = (s.perform c.userID reply c.stage).cached userID := by
  rw [h.eq]
  rfl

/-- Only `Set` brings a tier into the cache. -/
theorem Step.cached (h : Step s e t) (hv : t.cached userID = some v) :
    s.cached userID = some v ∨
      ∃ i reply c T, e = .call i reply ∧ s.calls[i]? = some c ∧ c.userID = userID ∧
        c.stage = .set T ∧ v = T.text := by
  cases e with
  | tick ms =>
    obtain rfl := Option.some.inj h
    exact Or.inl (fetch_earlier (Nat.le_add_right s.clock ms) hv)
  | tier | updateUserTier =>
    obtain rfl := Option.some.inj h
    exact Or.inl hv
  | call i reply =>
    obtain ⟨c, next, hmoves⟩ := Step.moves h
    rw [hmoves.cached] at hv
    cases hstage : c.stage with
    | set T =>
      rw [hstage, State.perform] at hv
      split_ifs at hv
      · rw [cached_putCache] at hv
        split_ifs at hv with hid
        · exact Or.inr ⟨i, reply, c, T, rfl, hmoves.at_call, hid.symm, hstage, fetch_expire hv⟩
        · exact Or.inl hv
      · exact Or.inl hv
    | invalidate tier =>
      rw [hstage, State.perform] at hv
      split_ifs at hv
      · rw [cached_putCache] at hv
        split_ifs at hv with hid
        · cases hv
        · exact Or.inl hv
      · exact Or.inl hv
    | update tier =>
      rw [hstage, State.perform, State.updateUserTier] at hv
      left
      split_ifs at hv
      · split at hv <;> exact hv
      · exact hv
    | _ =>
      rw [hstage] at hv
      exact Or.inl hv

theorem Moves.invalidated (h : Moves s i reply c next t) (hs : Event.Succeeds (.call i reply))
    (hstage : c.stage = .invalidate tier) :
    next = .updated tier ∧ t.cached c.userID = none := by
  have hresumed := h.resumed
  rw [hstage] at hresumed
  cases reply with
  | done =>
    obtain rfl := Option.some.inj hresumed
    refine ⟨rfl, ?_⟩
    rw [h.cached, hstage]
    change (s.putCache c.userID none).cached c.userID = none
    rw [cached_putCache, if_pos rfl, fetch_none]
  | failed err applied => exact absurd hs id
  | _ => cases hresumed

end

end InferenceQueue.Users

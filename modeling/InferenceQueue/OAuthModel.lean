import InferenceQueue.RedisKeys
import InferenceQueue.Runs
import InferenceQueue.Shared
import InferenceQueue.Transactions

namespace InferenceQueue.Auth

open Redis
open Transactions (Executor Store IsRow)

inductive Role
  | user
  | admin
deriving DecidableEq, Repr

structure User where
  userID : UserID
  role : Role
deriving DecidableEq

/-- Who the provider says has logged in. -/
structure OAuthUser where
  provider : String
  providerUserID : String
deriving DecidableEq, Repr

structure OAuthAccount where
  userID : UserID
  oauthUser : OAuthUser
deriving DecidableEq

structure Database where
  users : List User
  oauthAccounts : List OAuthAccount
deriving DecidableEq

instance : Append Database := ⟨fun a b => ⟨a.users ++ b.users, a.oauthAccounts ++ b.oauthAccounts⟩⟩

instance : EmptyCollection Database := ⟨⟨[], []⟩⟩

structure AuthenticatedUser where
  userID : UserID
  role : Role
deriving DecidableEq

def Database.findByProviderUserID (db : Database) (u : OAuthUser) : Option UserID :=
  (db.oauthAccounts.find? fun a => a.oauthUser = u).map OAuthAccount.userID

def Database.findByID (db : Database) (userUUID : UserID) : Option User :=
  db.users.find? fun row => row.userID = userUUID

/-- What a context carries under `txKey`. -/
structure Context where
  tx : Option ℕ
deriving DecidableEq

def Context.request : Context := ⟨none⟩

def injectTx (ctx : Context) (tx : ℕ) : Context := { ctx with tx := some tx }

def extractDB (ctx : Context) : Executor :=
  match ctx.tx with
  | some tx => .tx tx
  | none => .pool

/-- Where a callback stands: the call it makes next, with what it has learnt so far, or what it has
returned. `rejected` is an error returned before the code is exchanged. From `beginTx` to `rollback`
it is in `Execute`, which has begun `tx` and runs `fn` with `txCtx`. -/
inductive Stage
  | existsState
  | deleteState
  | exchangeCode
  | getUserInfo
  | findByProviderUserID (u : OAuthUser)
  | beginTx (u : OAuthUser)
  | register (tx : ℕ) (txCtx : Context) (u : OAuthUser) (userUUID : UserID)
  | create (tx : ℕ) (txCtx : Context) (u : OAuthUser) (userUUID : UserID)
  | commit (tx : ℕ) (u : OAuthUser) (userUUID : UserID)
  | rollback (tx : ℕ) (err : GoError)
  | role (u : OAuthUser) (userID : UserID)
  | generate (u : OAuthUser) (user : AuthenticatedUser)
  | issued (u : OAuthUser) (user : AuthenticatedUser)
  | rejected (err : GoError)
  | failed (err : GoError)
deriving DecidableEq

/-- What a call answers. One that fails may have been carried out all the same; a violated
constraint is a failure. `begun` comes with the UUID that `fn` draws. -/
inductive Reply
  | failed (err : GoError) (applied : Bool)
  | done
  | found
  | missing
  | oauthUser (u : OAuthUser)
  | account (userID : Option UserID)
  | begun (tx : ℕ) (userUUID : UserID)
  | user (row : Option User)
deriving DecidableEq

def Reply.applied : Reply → Bool
  | failed _ applied => applied
  | _ => true

def ensureOAuth (errCode : String) (err : GoError) : GoError :=
  err.ensureAppError errCode "OAUTH_FAILED"

def unauthorizedCallBack : GoError → GoError := ensureOAuth "OAUTH_STATE_PARAM_NOT_FOUND"

def dbQueryFailed : GoError → GoError := ensureOAuth "DB_QUERY_FAILED"

def userOperation (errCode : String) : GoError → GoError := .app errCode "USER_OPERATION_FAILED"

/-- The error of `Execute` when the commit fails. -/
def commitErr (err : GoError) : GoError :=
  if err.is .txCommitRollback then .wrap "transaction already rolled back: " err
  else .wrap "commit transaction: " err

/-- After `FindByProviderUserID` has returned an error. -/
def Stage.notFound (u : OAuthUser) (err : GoError) : Stage :=
  if err.is .oauthAccountNotFound then .beginTx u else .failed (dbQueryFailed err)

/-- `HandleCallback` goes on with the answer to its call. -/
def Stage.resume : Stage → Reply → Option Stage
  | existsState, .found => some deleteState
  | existsState, .missing =>
    some (rejected (unauthorizedCallBack (.sentinel .oauthStateParameterNotFound)))
  | existsState, .failed err _ =>
    some (rejected (unauthorizedCallBack (.wrap "retrieve OAuth state param: " err)))
  -- a failed deletion is only logged
  | deleteState, .done => some exchangeCode
  | deleteState, .failed _ _ => some exchangeCode
  | exchangeCode, .done => some getUserInfo
  | exchangeCode, .failed err _ => some (failed (ensureOAuth "OAUTH_TOKEN_EXCHANGE_FAILED" err))
  | getUserInfo, .oauthUser u => some (findByProviderUserID u)
  | getUserInfo, .failed err _ => some (failed (ensureOAuth "OAUTH_USER_INFO_FAILED" err))
  | findByProviderUserID u, .account (some userID) => some (role u userID)
  | findByProviderUserID u, .account none => some (notFound u (.sentinel .oauthAccountNotFound))
  | findByProviderUserID u, .failed err _ => some (notFound u (.wrap "oauth account lookup: " err))
  | beginTx u, .begun tx userUUID => some (register tx (injectTx .request tx) u userUUID)
  | beginTx _, .failed err _ => some (failed (dbQueryFailed (.wrap "start transaction: " err)))
  | register tx txCtx u userUUID, .done => some (create tx txCtx u userUUID)
  | register tx _ _ _, .failed err _ =>
    some (rollback tx (userOperation "USER_REGISTRATION_FAILED" (.wrap "insert user: " err)))
  | create tx _ u userUUID, .done => some (commit tx u userUUID)
  | create tx _ _ _, .failed err _ => some (rollback tx (.wrap "create OAuth account: " err))
  -- the deferred rollback finds the transaction closed
  | commit _ u userUUID, .done => some (role u userUUID)
  | commit _ _ _, .failed err _ => some (failed (dbQueryFailed (commitErr err)))
  | rollback _ err, .done => some (failed (dbQueryFailed err))
  | rollback _ err, .failed _ _ => some (failed (dbQueryFailed err))
  | role u userID, .user (some row) => some (generate u ⟨userID, row.role⟩)
  | role _ _, .user none =>
    some (failed (dbQueryFailed (userOperation "USER_ROLE_FETCH_FAILED" (.sentinel .userNotFound))))
  | role _ _, .failed err _ =>
    some (failed (dbQueryFailed (userOperation "USER_ROLE_FETCH_FAILED"
      (.wrap "retrieve user tier: " err))))
  | generate u user, .done => some (issued u user)
  | generate _ _, .failed err _ =>
    some (failed (ensureOAuth "AUTH_JWT_TOKEN_GENERATION_FAILED" err))
  | _, _ => none

/-- What the call of a stage does to the database when it is carried out. -/
def Stage.statement : Stage → Store Database → Store Database
  | beginTx _, db => db.beginTx
  | register _ txCtx _ userUUID, db => db.insert (extractDB txCtx) ⟨[⟨userUUID, .user⟩], []⟩
  | create _ txCtx u userUUID, db => db.insert (extractDB txCtx) ⟨[], [⟨userUUID, u⟩]⟩
  | commit tx _ _, db => db.commit tx
  | rollback tx _, db => db.rollback tx
  | _, db => db

structure Callback where
  state : String
  stage : Stage
deriving DecidableEq

/-- `generated` are the state parameters drawn so far: 32 random bytes are never drawn twice. -/
structure State where
  clock : ℕ
  states : Keyspace String String
  generated : List String
  db : Store Database
  callbacks : List Callback
deriving DecidableEq

def State.initial (db : Database) : State := ⟨0, ∅, [], ⟨db, []⟩, []⟩

def stateKey (provider state : String) : String := "oauth2:" ++ provider ++ ":" ++ state

def State.getState (s : State) (state : String) : Option String :=
  s.states.get s.clock (stateKey "github" state)

def State.store (s : State) (state : String) (ttl : ℕ) : State :=
  { s with states := s.states.put (stateKey "github" state) (expire s.clock ttl "1") }

def State.delete (s : State) (state : String) : State :=
  { s with states := s.states.put (stateKey "github" state) none }

/-- A new row of `users` is refused beside a committed one with its key, and waits for an open
transaction that has one. -/
def UserFree (userUUID : UserID) (db : Database) : Prop :=
  ∀ row ∈ db.users, row.userID ≠ userUUID

/-- A new row of `oauth_accounts` has two keys. -/
def AccountFree (u : OAuthUser) (userUUID : UserID) (db : Database) : Prop :=
  ∀ a ∈ db.oauthAccounts, a.userID ≠ userUUID ∧ a.oauthUser ≠ u

instance (userUUID : UserID) : DecidablePred (UserFree userUUID) := fun db =>
  inferInstanceAs (Decidable (∀ row ∈ db.users, row.userID ≠ userUUID))

instance (u : OAuthUser) (userUUID : UserID) : DecidablePred (AccountFree u userUUID) := fun db =>
  inferInstanceAs (Decidable (∀ a ∈ db.oauthAccounts, a.userID ≠ userUUID ∧ a.oauthUser ≠ u))

/-- The answers that the stores can give. -/
def State.Answers (s : State) (c : Callback) : Stage → Reply → Prop
  | .existsState, .found => s.getState c.state ≠ none
  | .existsState, .missing => s.getState c.state = none
  | .findByProviderUserID u, .account userID =>
    (s.db.visible (extractDB .request)).findByProviderUserID u = userID
  | .beginTx _, .begun tx _ => tx = s.db.transactions.length
  | .register _ txCtx _ userUUID, reply =>
    reply.applied = true →
      s.db.usable (extractDB txCtx) = true ∧ s.db.Everywhere (UserFree userUUID)
  | .create _ txCtx u userUUID, reply =>
    reply.applied = true →
      s.db.usable (extractDB txCtx) = true ∧ s.db.Everywhere (AccountFree u userUUID)
  | .commit tx _ _, reply => reply.applied = true → s.db.usable (.tx tx) = true
  | .role _ userID, .user row => (s.db.visible (extractDB .request)).findByID userID = row
  | _, _ => True

instance (s : State) (c : Callback) (stage : Stage) (reply : Reply) :
    Decidable (s.Answers c stage reply) := by
  induction stage using Stage.casesOn <;> induction reply using Reply.casesOn <;>
    dsimp only [State.Answers] <;> infer_instance

/-- What a call changes in the stores. -/
def State.perform (s : State) (c : Callback) (reply : Reply) : State :=
  if reply.applied then
    match c.stage with
    | .deleteState => s.delete c.state
    | stage => { s with db := stage.statement s.db }
  else s

/-- `generateAuthURL` stores a new state parameter, or fails to; `call i` is the next call of the
`i`-th callback; the server may give a transaction up at any time. -/
inductive Event
  | tick (ms : ℕ)
  | generateAuthURL (state : String) (stored : Bool)
  | handleCallback (state : String)
  | call (i : ℕ) (reply : Reply)
  | abort (tx : ℕ)
deriving DecidableEq

def step (s : State) : Event → Option State
  | .tick ms => some { s with clock := s.clock + ms }
  | .generateAuthURL state stored =>
    if state ∈ s.generated then none
    else
      let s := { s with generated := state :: s.generated }
      some (if stored then s.store state 300 else s)
  | .handleCallback state => some { s with callbacks := s.callbacks ++ [⟨state, .existsState⟩] }
  | .call i reply => do
    let c ← s.callbacks[i]?
    let next ← c.stage.resume reply
    if s.Answers c c.stage reply then
      some { s.perform c reply with callbacks := s.callbacks.set i ⟨c.state, next⟩ }
    else none
  | .abort tx => some { s with db := s.db.rollback tx }

abbrev Step : State → Event → State → Prop := Fires step

section

variable {s t : State} {e : Event} {i j : ℕ} {reply : Reply} {c d : Callback} {next : Stage}

structure Moves (s : State) (i : ℕ) (reply : Reply) (c : Callback) (next : Stage) (t : State) :
    Prop where
  at_call : s.callbacks[i]? = some c
  resumed : c.stage.resume reply = some next
  answered : s.Answers c c.stage reply
  eq : t = { s.perform c reply with callbacks := s.callbacks.set i ⟨c.state, next⟩ }

theorem Step.moves (h : Step s (.call i reply) t) : ∃ c next, Moves s i reply c next t := by
  simp only [Step, Fires, step, Option.bind_eq_bind, Option.bind_eq_some_iff] at h
  obtain ⟨c, hc, next, hnext, h⟩ := h
  split_ifs at h with hanswers
  exact ⟨c, next, hc, hnext, hanswers, (Option.some.inj h).symm⟩

theorem Moves.callbacks (h : Moves s i reply c next t) :
    t.callbacks = s.callbacks.set i ⟨c.state, next⟩ := by
  rw [h.eq]

theorem Moves.clock (h : Moves s i reply c next t) : t.clock = s.clock := by
  rw [h.eq]
  unfold State.perform
  split_ifs
  · split <;> rfl
  · rfl

theorem Moves.generated (h : Moves s i reply c next t) : t.generated = s.generated := by
  rw [h.eq]
  unfold State.perform
  split_ifs
  · split <;> rfl
  · rfl

theorem Moves.db (h : Moves s i reply c next t) :
    t.db = if reply.applied then c.stage.statement s.db else s.db := by
  rw [h.eq]
  unfold State.perform
  split_ifs
  · split
    · next hstage =>
      rw [hstage]
      rfl
    · rfl
  · rfl

theorem Moves.states (h : Moves s i reply c next t) :
    t.states = s.states ∨ (c.stage = .deleteState ∧ t.states = (s.delete c.state).states) := by
  rw [h.eq]
  unfold State.perform
  split_ifs
  · split
    · next hstage => exact Or.inr ⟨hstage, rfl⟩
    · exact Or.inl rfl
  · exact Or.inl rfl

theorem Moves.deleted (h : Moves s i reply c next t) (hstage : c.stage = .deleteState)
    (happlied : reply.applied = true) : t.states = (s.delete c.state).states := by
  rw [h.eq]
  simp [State.perform, hstage, happlied]

theorem Moves.callback_cases (h : Moves s i reply c next t) (hd : t.callbacks[j]? = some d) :
    (j = i ∧ d = ⟨c.state, next⟩) ∨ (j ≠ i ∧ s.callbacks[j]? = some d) := by
  rw [h.callbacks] at hd
  exact getElem?_set_cases h.at_call hd

theorem Step.callback_cases (h : Step s e t) (hd : t.callbacks[j]? = some d) :
    (s.callbacks[j]? = some d ∧ ∀ reply, e ≠ .call j reply) ∨ d.stage = .existsState ∨
      ∃ reply c, e = .call j reply ∧ d.state = c.state ∧ Moves s j reply c d.stage t := by
  cases e with
  | tick ms =>
    obtain rfl := Option.some.inj h
    exact Or.inl ⟨hd, by simp⟩
  | generateAuthURL state stored =>
    simp only [Step, Fires, step] at h
    split_ifs at h with hnew hstored <;> obtain rfl := Option.some.inj h <;>
      exact Or.inl ⟨hd, by simp⟩
  | handleCallback state =>
    obtain rfl := Option.some.inj h
    rcases getElem?_concat_cases hd with hold | ⟨-, rfl⟩
    · exact Or.inl ⟨hold, by simp⟩
    · exact Or.inr (Or.inl rfl)
  | call i reply =>
    obtain ⟨c, next, hmoves⟩ := Step.moves h
    rcases hmoves.callback_cases hd with ⟨rfl, rfl⟩ | ⟨hne, hold⟩
    · exact Or.inr (Or.inr ⟨reply, c, rfl, rfl, hmoves⟩)
    · refine Or.inl ⟨hold, fun reply' heq => ?_⟩
      cases heq
      exact hne rfl
  | abort tx =>
    obtain rfl := Option.some.inj h
    exact Or.inl ⟨hd, by simp⟩

end

end InferenceQueue.Auth

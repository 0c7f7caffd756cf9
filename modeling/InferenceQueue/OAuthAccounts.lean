import InferenceQueue.OAuthModel

namespace InferenceQueue.Auth

open Transactions (Store IsRow)

def Stage.account : Stage → Option OAuthAccount
  | role u userID => some ⟨userID, u⟩
  | generate u user => some ⟨user.userID, u⟩
  | issued u user => some ⟨user.userID, u⟩
  | _ => none

def Database.LinkedOnce (db : Database) : Prop :=
  ∀ a ∈ db.oauthAccounts, ∀ b ∈ db.oauthAccounts, a.oauthUser = b.oauthUser → a.userID = b.userID

/-- What holds of the accounts when the rows of `db` were there at the start. -/
structure OneAccount (db : Database) (s : State) : Prop where
  linked_once : s.db.committed.LinkedOnce
  no_orphans : ∀ row ∈ s.db.committed.users, row ∉ db.users →
    ∃ a ∈ s.db.committed.oauthAccounts, a.userID = row.userID
  issued_linked : ∀ c ∈ s.callbacks, ∀ u user, c.stage = .issued u user →
    ⟨user.userID, u⟩ ∈ s.db.committed.oauthAccounts

def Stage.tx : Stage → Option ℕ
  | register tx _ _ _ => some tx
  | create tx _ _ _ => some tx
  | commit tx _ _ => some tx
  | rollback tx _ => some tx
  | _ => none

/-- The rows that `fn` has inserted, as long as no statement has failed. -/
def Stage.executed : Stage → Option Database
  | register _ _ _ _ => some ∅
  | create _ _ _ userUUID => some ⟨[⟨userUUID, .user⟩], []⟩
  | commit _ u userUUID => some ⟨[⟨userUUID, .user⟩], [⟨userUUID, u⟩]⟩
  | _ => none

/-- The context of `fn` leads to the transaction of `Execute`. -/
def Stage.Within : Stage → Prop
  | register tx txCtx _ _ => extractDB txCtx = .tx tx
  | create tx txCtx _ _ => extractDB txCtx = .tx tx
  | _ => True

section

variable {db : Database} {rows : Store Database} {s t : State} {e : Event} {i j tx : ℕ}
  {reply : Reply} {c d : Callback} {stage next : Stage} {a b : OAuthAccount}

theorem Step.db_cases (h : Step s e t) :
    t.db = s.db ∨ (∃ tx, t.db = s.db.rollback tx) ∨
      ∃ i reply c next, e = .call i reply ∧ Moves s i reply c next t ∧ reply.applied = true ∧
        t.db = c.stage.statement s.db := by
  cases e with
  | generateAuthURL drawn stored =>
    simp only [Step, Fires, step] at h
    split_ifs at h with hnew hstored <;> obtain rfl := Option.some.inj h <;> exact Or.inl rfl
  | call i reply =>
    obtain ⟨c, next, hmoves⟩ := Step.moves h
    have hdb := hmoves.db
    split_ifs at hdb with happlied
    · exact Or.inr (Or.inr ⟨i, reply, c, next, rfl, hmoves, happlied, hdb⟩)
    · exact Or.inl hdb
  | abort tx =>
    obtain rfl := Option.some.inj h
    exact Or.inr (Or.inl ⟨tx, rfl⟩)
  | _ =>
    obtain rfl := Option.some.inj h
    exact Or.inl rfl

theorem Stage.staged_statement (hwithin : stage.Within) (hne : stage.tx ≠ some tx)
    (hlt : tx < rows.transactions.length) :
    (stage.statement rows).staged tx = rows.staged tx := by
  -- a callback leaves the transactions of the others alone
  cases stage with
  | beginTx u => rw [statement, Store.staged_beginTx, if_neg (Nat.ne_of_lt hlt)]
  | register tx' txCtx u userUUID =>
    rw [statement, show extractDB txCtx = .tx tx' from hwithin, Store.staged_insert,
      if_neg fun heq => hne (congrArg some heq.symm)]
  | create tx' txCtx u userUUID =>
    rw [statement, show extractDB txCtx = .tx tx' from hwithin, Store.staged_insert,
      if_neg fun heq => hne (congrArg some heq.symm)]
  | commit tx' u userUUID =>
    rw [statement, Store.staged_commit, if_neg fun heq => hne (congrArg some heq.symm)]
  | rollback tx' err =>
    rw [statement, Store.staged_rollback, if_neg fun heq => hne (congrArg some heq.symm)]
  | _ => rfl

theorem Stage.length_statement (stage : Stage) (rows : Store Database) :
    rows.transactions.length ≤ (stage.statement rows).transactions.length := by
  cases stage <;> simp [statement]

theorem Step.length_le (h : Step s e t) :
    s.db.transactions.length ≤ t.db.transactions.length := by
  obtain hsame | ⟨tx, hrollback⟩ | ⟨i, reply, c, next, -, -, -, hdb⟩ := Step.db_cases h
  · rw [hsame]
  · rw [hrollback, Store.length_rollback]
  · rw [hdb]
    exact Stage.length_statement _ _

@[simp] theorem Stage.tx_notFound (u : OAuthUser) (err : GoError) :
    (Stage.notFound u err).tx = none := by
  unfold Stage.notFound
  split_ifs <;> rfl

@[simp] theorem Stage.executed_notFound (u : OAuthUser) (err : GoError) :
    (Stage.notFound u err).executed = none := by
  unfold Stage.notFound
  split_ifs <;> rfl

@[simp] theorem Stage.account_notFound (u : OAuthUser) (err : GoError) :
    (Stage.notFound u err).account = none := by
  unfold Stage.notFound
  split_ifs <;> rfl

theorem Stage.within_notFound (u : OAuthUser) (err : GoError) :
    (Stage.notFound u err).Within := by
  unfold Stage.notFound
  split_ifs <;> trivial

/-- Both statements of `fn` get the context that carries the transaction. -/
theorem Stage.within_resume (h : stage.resume reply = some next) (hwithin : stage.Within) :
    next.Within := by
  unfold Stage.resume at h
  split at h <;> cases h <;> first | exact hwithin | exact within_notFound _ _ | trivial

theorem Stage.tx_resume (h : stage.resume reply = some next) (htx : next.tx = some tx) :
    stage.tx = some tx ∨ ∃ u userUUID, stage = .beginTx u ∧ reply = .begun tx userUUID := by
  -- a callback comes by a transaction when it begins one
  unfold Stage.resume at h
  split at h <;> cases h <;> first | cases htx | simp at htx
  · exact Or.inr ⟨_, _, rfl, rfl⟩
  all_goals exact Or.inl rfl

theorem Stage.executed_resume {executed : Database} (h : stage.resume reply = some next)
    (hexecuted : next.executed = some executed) :
    (∃ u tx userUUID, stage = .beginTx u ∧ reply = .begun tx userUUID ∧ executed = ∅) ∨
      (reply = .done ∧ ∃ before inserted, stage.executed = some before ∧
        executed = before ++ inserted ∧
        ∀ rows tx, stage.Within → stage.tx = some tx →
          stage.statement rows = rows.insert (.tx tx) inserted) := by
  -- each statement that succeeds adds its row to those of the transaction
  unfold Stage.resume at h
  split at h <;> cases h <;> first | cases hexecuted | simp at hexecuted
  · exact Or.inl ⟨_, _, _, rfl, rfl, rfl⟩
  · refine Or.inr ⟨rfl, _, ⟨[⟨_, .user⟩], []⟩, rfl, rfl, fun rows tx hwithin htx => ?_⟩
    obtain rfl := Option.some.inj htx
    exact congrArg (rows.insert · _) hwithin
  · refine Or.inr ⟨rfl, _, ⟨[], [⟨_, _⟩]⟩, rfl, rfl, fun rows tx hwithin htx => ?_⟩
    obtain rfl := Option.some.inj htx
    exact congrArg (rows.insert · _) hwithin

theorem Stage.account_resume (h : stage.resume reply = some next) (ha : next.account = some a) :
    stage.account = some a ∨
      (stage = .findByProviderUserID a.oauthUser ∧ reply = .account (some a.userID)) ∨
      (∃ tx, stage = .commit tx a.oauthUser a.userID ∧ reply = .done) := by
  unfold Stage.resume at h
  split at h <;> cases h <;> first | cases ha | simp at ha
  · exact Or.inr (Or.inl ⟨rfl, rfl⟩)
  · exact Or.inr (Or.inr ⟨_, rfl, rfl⟩)
  · exact Or.inl rfl
  · exact Or.inl rfl

/-- The transaction of a callback is its own, and holds the rows that its statements have
inserted. -/
structure Isolated (s : State) : Prop where
  within : ∀ c ∈ s.callbacks, c.stage.Within
  begun : ∀ c ∈ s.callbacks, ∀ tx ∈ c.stage.tx, tx < s.db.transactions.length
  apart : ∀ (i j : ℕ) (c d : Callback) (tx : ℕ), s.callbacks[i]? = some c →
    s.callbacks[j]? = some d → c.stage.tx = some tx → d.stage.tx = some tx → i = j
  staged : ∀ c ∈ s.callbacks, ∀ tx ∈ c.stage.tx, ∀ rows ∈ s.db.staged tx,
    ∀ executed ∈ c.stage.executed, rows = executed

theorem Isolated.initial (db : Database) : Isolated (.initial db) := by
  constructor <;> simp [State.initial]

theorem Isolated.within_step (h : Isolated s) (he : Step s e t) (hc : c ∈ t.callbacks) :
    c.stage.Within := by
  obtain ⟨i, hi⟩ := List.mem_iff_getElem?.mp hc
  rcases Step.callback_cases he hi with ⟨hold, -⟩ | hnew | ⟨reply, d, rfl, -, hmoves⟩
  · exact h.within c (List.mem_of_getElem? hold)
  · rw [hnew]
    trivial
  · exact Stage.within_resume hmoves.resumed (h.within d (List.mem_of_getElem? hmoves.at_call))

theorem Step.tx_cases (he : Step s e t) (hc : t.callbacks[i]? = some c)
    (htx : c.stage.tx = some tx) :
    (∃ d, s.callbacks[i]? = some d ∧ d.stage.tx = some tx) ∨
      (tx = s.db.transactions.length ∧ t.db = s.db.beginTx ∧
        ∃ userUUID, e = .call i (.begun tx userUUID)) := by
  -- a callback in a transaction was in it before, or has just begun it
  rcases Step.callback_cases he hc with ⟨hold, -⟩ | hnew | ⟨reply, d, rfl, -, hmoves⟩
  · exact Or.inl ⟨c, hold, htx⟩
  · rw [hnew] at htx
    cases htx
  · rcases Stage.tx_resume hmoves.resumed htx with hbefore | ⟨u, userUUID, hstage, rfl⟩
    · exact Or.inl ⟨d, hmoves.at_call, hbefore⟩
    · have hanswer := hmoves.answered
      rw [hstage] at hanswer
      refine Or.inr ⟨hanswer, ?_, userUUID, rfl⟩
      rw [hmoves.db, hstage]
      rfl

theorem Isolated.begun_step (h : Isolated s) (he : Step s e t) (hc : c ∈ t.callbacks)
    (htx : c.stage.tx = some tx) : tx < t.db.transactions.length := by
  obtain ⟨i, hi⟩ := List.mem_iff_getElem?.mp hc
  rcases Step.tx_cases he hi htx with ⟨d, hd, hbefore⟩ | ⟨rfl, hdb, -⟩
  · exact Nat.lt_of_lt_of_le (h.begun d (List.mem_of_getElem? hd) tx hbefore) (Step.length_le he)
  · rw [hdb, Store.length_beginTx]
    exact Nat.lt_succ_self _

theorem Isolated.apart_step (h : Isolated s) (he : Step s e t) (hc : t.callbacks[i]? = some c)
    (hd : t.callbacks[j]? = some d) (htx : c.stage.tx = some tx) (htx' : d.stage.tx = some tx) :
    i = j := by
  rcases Step.tx_cases he hc htx with ⟨c', hc', hbefore⟩ | ⟨hnew, -, userUUID, hi⟩ <;>
    rcases Step.tx_cases he hd htx' with ⟨d', hd', hbefore'⟩ | ⟨hnew', -, userUUID', hj⟩
  · exact h.apart i j c' d' tx hc' hd' hbefore hbefore'
  · exact absurd hnew' (Nat.ne_of_lt (h.begun c' (List.mem_of_getElem? hc') tx hbefore))
  · exact absurd hnew (Nat.ne_of_lt (h.begun d' (List.mem_of_getElem? hd') tx hbefore'))
  · rw [hi] at hj
    cases hj
    rfl

theorem Isolated.staged_of_idle {executed : Database} (h : Isolated s) (he : Step s e t)
    (hc : s.callbacks[i]? = some c) (hidle : ∀ reply, e ≠ .call i reply)
    (htx : c.stage.tx = some tx) (hrows : t.db.staged tx = some executed) :
    s.db.staged tx = some executed := by
  -- what is staged in the transaction of a callback that is not called stays, or is given up
  obtain hsame | ⟨tx', hrollback⟩ | ⟨j, reply, d, next, rfl, hmoves, -, hdb⟩ := Step.db_cases he
  · rwa [hsame] at hrows
  · rw [hrollback, Store.staged_rollback] at hrows
    split_ifs at hrows
    exact hrows
  · have hne : d.stage.tx ≠ some tx := fun htx' =>
      hidle reply (by rw [h.apart i j c d tx hc hmoves.at_call htx htx'])
    have hmem := List.mem_of_getElem? hmoves.at_call
    rwa [hdb, Stage.staged_statement (h.within d hmem) hne
      (h.begun c (List.mem_of_getElem? hc) tx htx)] at hrows

theorem Isolated.staged_step {rows executed : Database} (h : Isolated s) (he : Step s e t)
    (hc : c ∈ t.callbacks) (htx : c.stage.tx = some tx) (hrows : t.db.staged tx = some rows)
    (hexecuted : c.stage.executed = some executed) : rows = executed := by
  obtain ⟨i, hi⟩ := List.mem_iff_getElem?.mp hc
  rcases Step.callback_cases he hi with ⟨hold, hidle⟩ | hnew | ⟨reply, d, rfl, -, hmoves⟩
  · exact h.staged c (List.mem_of_getElem? hold) tx htx rows
      (h.staged_of_idle he hold hidle htx hrows) executed hexecuted
  · rw [hnew] at htx
    cases htx
  · have hmem := List.mem_of_getElem? hmoves.at_call
    rcases Stage.executed_resume hmoves.resumed hexecuted with
      ⟨u, tx', userUUID, hstage, rfl, rfl⟩ | ⟨rfl, before, inserted, hbefore, rfl, hstatement⟩ <;>
      rcases Step.tx_cases he hi htx with ⟨d', hd', htx'⟩ | ⟨hnew, hdb, userUUID', hcall⟩
    · obtain rfl := Option.some.inj (hmoves.at_call.symm.trans hd')
      rw [hstage] at htx'
      cases htx'
    · rw [hdb, Store.staged_beginTx, if_pos hnew] at hrows
      exact (Option.some.inj hrows).symm
    · obtain rfl := Option.some.inj (hmoves.at_call.symm.trans hd')
      have hdb : t.db = d.stage.statement s.db := hmoves.db
      rw [hdb, hstatement s.db tx (h.within d hmem) htx', Store.staged_insert, if_pos rfl] at hrows
      obtain ⟨rows', hrows', rfl⟩ := Option.map_eq_some_iff.mp hrows
      rw [h.staged d hmem tx htx' rows' hrows' before hbefore]
    · cases hcall

theorem Isolated.step (h : Isolated s) (he : Step s e t) : Isolated t where
  within _ hc := h.within_step he hc
  begun _ hc _ htx := h.begun_step he hc htx
  apart _ _ _ _ _ hc hd := h.apart_step he hc hd
  staged _ hc _ htx _ hrows _ hexecuted := h.staged_step he hc htx hrows hexecuted

/-- Rows appear only by a commit, and then both of them. -/
theorem Isolated.published (h : Isolated s) (he : Step s e t) :
    t.db.committed = s.db.committed ∨ ∃ i reply c next tx u userUUID, e = .call i reply ∧
      Moves s i reply c next t ∧ c.stage = .commit tx u userUUID ∧
      t.db.committed = s.db.committed ++ ⟨[⟨userUUID, .user⟩], [⟨userUUID, u⟩]⟩ := by
  obtain hsame | ⟨tx, hrollback⟩ | ⟨i, reply, c, next, rfl, hmoves, -, hdb⟩ := Step.db_cases he
  · exact Or.inl (by rw [hsame])
  · exact Or.inl (by rw [hrollback]; rfl)
  · have hmem := List.mem_of_getElem? hmoves.at_call
    have hwithin := h.within c hmem
    cases hstage : c.stage with
    | register tx txCtx u userUUID | create tx txCtx u userUUID =>
      -- a statement of the pool would be committed by itself
      rw [hstage] at hwithin
      rw [hdb, hstage, Stage.statement, show extractDB txCtx = .tx tx from hwithin]
      exact Or.inl rfl
    | commit tx u userUUID =>
      rw [hdb, hstage, Stage.statement]
      cases hrows : s.db.staged tx with
      | none => exact Or.inl (Store.committed_commit_none hrows)
      | some rows =>
        have hexecuted := h.staged c hmem tx (by rw [hstage]; rfl) rows hrows
          ⟨[⟨userUUID, .user⟩], [⟨userUUID, u⟩]⟩ (by rw [hstage]; rfl)
        rw [Store.committed_commit hrows, hexecuted]
        exact Or.inr ⟨i, reply, c, next, tx, u, userUUID, rfl, hmoves, hstage, rfl⟩
    | _ =>
      rw [hdb, hstage]
      exact Or.inl rfl

theorem Isolated.keeps_accounts (h : Isolated s) (he : Step s e t) :
    s.db.committed.oauthAccounts ⊆ t.db.committed.oauthAccounts := by
  obtain hsame | ⟨-, -, -, -, -, u, userUUID, -, -, -, hpublished⟩ := h.published he
  · rw [hsame]
    exact List.Subset.refl _
  · rw [hpublished]
    exact List.subset_append_left _ _

theorem isRow_account (a : OAuthAccount) : IsRow fun db : Database => a ∈ db.oauthAccounts where
  append h := List.mem_append.mp h
  empty h := nomatch h

/-- A row of `oauth_accounts` comes from a statement beside which no other row has its keys. -/
theorem Step.holds_account (he : Step s e t) (h : t.db.Holds (a ∈ ·.oauthAccounts)) :
    s.db.Holds (a ∈ ·.oauthAccounts) ∨
      (s.db.Everywhere (AccountFree a.oauthUser a.userID) ∧
        ∃ i reply c tx txCtx, e = .call i reply ∧ s.callbacks[i]? = some c ∧
          c.stage = .create tx txCtx a.oauthUser a.userID) := by
  have hrow := isRow_account a
  obtain hsame | ⟨tx, hrollback⟩ | ⟨i, reply, c, next, rfl, hmoves, happlied, hdb⟩ :=
    Step.db_cases he
  · exact Or.inl (hsame ▸ h)
  · rw [hrollback] at h
    exact Or.inl h.of_rollback
  · rw [hdb] at h
    cases hstage : c.stage with
    | beginTx u =>
      rw [hstage] at h
      exact Or.inl (h.of_beginTx hrow)
    | register tx txCtx u userUUID =>
      rw [hstage] at h
      exact Or.inl ((h.of_insert hrow).resolve_right (List.not_mem_nil ·))
    | create tx txCtx u userUUID =>
      rw [hstage] at h
      refine (h.of_insert hrow).imp_right fun hnew => ?_
      obtain rfl := List.mem_singleton.mp hnew
      have hanswer := hmoves.answered
      rw [hstage] at hanswer
      exact ⟨(hanswer happlied).2, i, reply, c, tx, txCtx, rfl, hmoves.at_call, hstage⟩
    | commit tx u userUUID =>
      rw [hstage] at h
      exact Or.inl (h.of_commit hrow)
    | rollback tx err =>
      rw [hstage] at h
      exact Or.inl h.of_rollback
    | _ =>
      rw [hstage] at h
      exact Or.inl h

/-- No identity is linked to two users, by committed rows and those of open transactions. -/
def Linked (s : State) : Prop :=
  ∀ a b, s.db.Holds (a ∈ ·.oauthAccounts) → s.db.Holds (b ∈ ·.oauthAccounts) →
    a.oauthUser = b.oauthUser → a.userID = b.userID

theorem not_holds_of_free (h : s.db.Everywhere (AccountFree a.oauthUser a.userID))
    (hb : s.db.Holds (b ∈ ·.oauthAccounts)) : b.oauthUser ≠ a.oauthUser := by
  intro heq
  refine h.not_holds (fun db hfree hmem => ?_) hb
  exact (hfree b hmem).2 heq

theorem Linked.step (h : Linked s) (he : Step s e t) : Linked t := by
  intro a b ha hb heq
  rcases Step.holds_account he ha with ha | ⟨hfree, i, reply, c, tx, txCtx, hi, hc, hstage⟩ <;>
    rcases Step.holds_account he hb with hb | ⟨hfree', j, reply', d, tx', txCtx', hj, hd, hstage'⟩
  · exact h a b ha hb heq
  · exact absurd heq (not_holds_of_free hfree' ha)
  · exact absurd heq.symm (not_holds_of_free hfree hb)
  · -- one statement inserts one row
    rw [hi] at hj
    cases hj
    obtain rfl := Option.some.inj (hc.symm.trans hd)
    obtain ⟨-, -, -, hid⟩ := Stage.create.inj (hstage.symm.trans hstage')
    exact hid

theorem Linked.initial (hdb : db.LinkedOnce) : Linked (.initial db) := by
  intro a b ha hb heq
  obtain ha | ⟨id, rows, hstaged, -⟩ := ha
  · obtain hb | ⟨id, rows, hstaged, -⟩ := hb
    · exact hdb a ha b hb heq
    · cases hstaged
  · cases hstaged

theorem findByProviderUserID_mem {u : OAuthUser} {userID : UserID}
    (h : db.findByProviderUserID u = some userID) : ⟨userID, u⟩ ∈ db.oauthAccounts := by
  obtain ⟨a, ha, rfl⟩ := Option.map_eq_some_iff.mp h
  have hu : a.oauthUser = u := by simpa using List.find?_some ha
  subst hu
  exact List.mem_of_find?_eq_some ha

/-- The rows since the start `db`, and the accounts that callbacks serve. -/
structure Owned (db : Database) (s : State) : Prop where
  users : ∀ row ∈ s.db.committed.users,
    row ∈ db.users ∨ ∃ a ∈ s.db.committed.oauthAccounts, a.userID = row.userID
  served : ∀ c ∈ s.callbacks, ∀ a ∈ c.stage.account, a ∈ s.db.committed.oauthAccounts

theorem Owned.initial (db : Database) : Owned db (.initial db) where
  users _ hrow := Or.inl hrow
  served := by simp [State.initial]

theorem Owned.users_step {row : User} (h : Owned db s) (hisolated : Isolated s) (he : Step s e t)
    (hrow : row ∈ t.db.committed.users) :
    row ∈ db.users ∨ ∃ a ∈ t.db.committed.oauthAccounts, a.userID = row.userID := by
  have hold : row ∈ s.db.committed.users →
      row ∈ db.users ∨ ∃ a ∈ t.db.committed.oauthAccounts, a.userID = row.userID := by
    intro hrow
    rcases h.users row hrow with hstart | ⟨a, ha, hid⟩
    · exact Or.inl hstart
    · exact Or.inr ⟨a, hisolated.keeps_accounts he ha, hid⟩
  obtain hsame | ⟨-, -, -, -, -, u, userUUID, -, -, -, hpublished⟩ := hisolated.published he
  · exact hold (hsame ▸ hrow)
  · rw [hpublished] at hrow
    rcases List.mem_append.mp hrow with hrow | hrow
    · exact hold hrow
    · obtain rfl := List.mem_singleton.mp hrow
      refine Or.inr ⟨⟨userUUID, u⟩, ?_, rfl⟩
      rw [hpublished]
      exact List.mem_append_right _ (List.mem_singleton_self _)

theorem Isolated.committed_account (h : Isolated s) (hmoves : Moves s i .done c next t)
    (hstage : c.stage = .commit tx a.oauthUser a.userID) : a ∈ t.db.committed.oauthAccounts := by
  -- a commit that succeeds has published the account
  have hanswer := hmoves.answered
  rw [hstage] at hanswer
  obtain ⟨rows, hrows⟩ := Option.isSome_iff_exists.mp (hanswer rfl)
  have hexecuted := h.staged c (List.mem_of_getElem? hmoves.at_call) tx (by rw [hstage]; rfl) rows
    hrows ⟨[⟨a.userID, .user⟩], [a]⟩ (by rw [hstage]; rfl)
  have hdb : t.db = s.db.commit tx := by
    rw [hmoves.db, hstage]
    rfl
  rw [hdb, Store.committed_commit hrows, hexecuted]
  exact List.mem_append_right _ (List.mem_singleton_self _)

theorem Owned.served_step (h : Owned db s) (hisolated : Isolated s) (he : Step s e t)
    (hc : c ∈ t.callbacks) (ha : c.stage.account = some a) :
    a ∈ t.db.committed.oauthAccounts := by
  obtain ⟨i, hi⟩ := List.mem_iff_getElem?.mp hc
  have hkeeps := hisolated.keeps_accounts he
  rcases Step.callback_cases he hi with ⟨hold, -⟩ | hnew | ⟨reply, d, rfl, -, hmoves⟩
  · exact hkeeps (h.served c (List.mem_of_getElem? hold) a ha)
  · rw [hnew] at ha
    cases ha
  · have hmem := List.mem_of_getElem? hmoves.at_call
    rcases Stage.account_resume hmoves.resumed ha with
      hbefore | ⟨hstage, rfl⟩ | ⟨tx, hstage, rfl⟩
    · exact hkeeps (h.served d hmem a hbefore)
    · have hanswer := hmoves.answered
      rw [hstage] at hanswer
      exact hkeeps (findByProviderUserID_mem hanswer)
    · exact hisolated.committed_account hmoves hstage

theorem Owned.step (h : Owned db s) (hisolated : Isolated s) (he : Step s e t) : Owned db t where
  users _ hrow := h.users_step hisolated he hrow
  served _ hc _ ha := h.served_step hisolated he hc ha

theorem isolated {tr : List Event} (h : Run Step (.initial db) tr s) : Isolated s := by
  refine h.history (fun _ => Isolated) (.initial db) ?_
  intro _ s e t hinv he
  exact hinv.step he

theorem keeps_accounts {tr : List Event} (hs : Isolated s) (h : Run Step s tr t) :
    s.db.committed.oauthAccounts ⊆ t.db.committed.oauthAccounts := by
  have hinv : Isolated t ∧ s.db.committed.oauthAccounts ⊆ t.db.committed.oauthAccounts := by
    refine h.history (fun _ t => Isolated t ∧ s.db.committed.oauthAccounts ⊆
      t.db.committed.oauthAccounts) ⟨hs, List.Subset.refl _⟩ ?_
    intro _ t e u hinv he
    exact ⟨hinv.1.step he, List.Subset.trans hinv.2 (hinv.1.keeps_accounts he)⟩
  exact hinv.2

end

/-- Whatever callbacks run, and whichever statements fail, there is one account for each identity;
and what is linked at some point of a run stays linked. -/
theorem one_account_per_identity {db : Database} {past rest : List Event} {s t : State}
    (hdb : db.LinkedOnce) (hpast : Run Step (.initial db) past s) (hrest : Run Step s rest t) :
    OneAccount db t ∧
      ∀ a ∈ s.db.committed.oauthAccounts, a ∈ t.db.committed.oauthAccounts := by
  have hrun := hpast.append hrest
  have hlinked : Linked t := by
    refine hrun.history (fun _ => Linked) (.initial hdb) ?_
    intro _ s e t hinv he
    exact hinv.step he
  have howned : Isolated t ∧ Owned db t := by
    refine hrun.history (fun _ s => Isolated s ∧ Owned db s) ⟨.initial db, .initial db⟩ ?_
    intro _ s e t hinv he
    exact ⟨hinv.1.step he, hinv.2.step hinv.1 he⟩
  refine ⟨⟨fun a ha b hb => hlinked a b (Or.inl ha) (Or.inl hb), ?_, ?_⟩, fun a ha =>
    keeps_accounts (isolated hpast) hrest ha⟩
  · intro row hrow hnew
    exact (howned.2.users row hrow).resolve_left hnew
  · intro c hc u user hstage
    exact howned.2.served c hc ⟨user.userID, u⟩ (by rw [hstage]; rfl)

/-- Callbacks `0` and `1` log the same identity in for the first time. Both find no account and
insert a user, the second insertion of the account fails, and `2` logs in to the first one's. -/
def firstLogins : List Event :=
  let u : OAuthUser := ⟨"github", "42"⟩
  let upTo (i : ℕ) : List Event :=
    [.generateAuthURL (toString i) true, .handleCallback (toString i), .call i .found,
      .call i .done, .call i .done, .call i (.oauthUser u)]
  upTo 0 ++ upTo 1 ++ [.call 0 (.account none), .call 1 (.account none), .call 0 (.begun 0 alice),
    .call 1 (.begun 1 bob), .call 0 .done, .call 1 .done, .call 0 .done, .call 0 .done,
    .call 1 (.failed (.text "duplicate key value violates unique constraint") false),
    .call 1 .done] ++
  upTo 2 ++ [.call 2 (.account (some alice)), .call 2 (.user (some ⟨alice, .user⟩)),
    .call 2 .done]

theorem one_account_per_identity_first_logins :
    ∃ s, Run Step (.initial ⟨[], []⟩) firstLogins s ∧
      (∃ c ∈ s.callbacks, c.stage = .issued ⟨"github", "42"⟩ ⟨alice, .user⟩) ∧
      OneAccount ⟨[], []⟩ s := by
  obtain ⟨s, hrun, hissued⟩ := Run.exists_of_foldlM step (.initial ⟨[], []⟩) firstLogins
    (fun s => ∃ c ∈ s.callbacks, c.stage = .issued ⟨"github", "42"⟩ ⟨alice, .user⟩)
    (by decide +kernel)
  have hempty : Database.LinkedOnce ⟨[], []⟩ := by simp [Database.LinkedOnce]
  exact ⟨s, hrun, hissued, (one_account_per_identity hempty hrun .nil).1⟩

end InferenceQueue.Auth

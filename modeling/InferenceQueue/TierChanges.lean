import InferenceQueue.TierCache

namespace InferenceQueue.Users

open Redis

/-- No update of the user has begun after the `i`-th call: calls are numbered as they begin. -/
def State.NoLaterUpdate (s : State) (userID : UserID) (i : ℕ) : Prop :=
  ∀ (k : ℕ) (c : Call), i < k → s.calls[k]? = some c → c.userID = userID → c.stage.ofUpdate = false

/-- A call of `Tier` that starts after an update has returned answers with its tier, if no later
update of the user begins before it does. -/
def TakesEffect (users : Finmap (fun _ : UserID => Tier)) (userID : UserID) (tr : List Event) :
    Prop :=
  ∀ (past rest : List Event) (s t : State) (i j : ℕ) (tier answer : String),
    tr = past ++ rest → Run Step (.initial users) past s → Run Step s rest t →
    s.calls[i]? = some ⟨userID, .updated tier⟩ → t.NoLaterUpdate userID i →
    s.calls.length ≤ j → t.calls[j]? = some ⟨userID, .answered answer⟩ → answer = tier

def State.Updating (s : State) (userID : UserID) : Prop :=
  ∃ c ∈ s.calls, c.userID = userID ∧ c.stage.updating = true

/-- What the next call may write: a tier is put into the cache only if it is still that of the row,
or if an update under way has yet to invalidate it. -/
def State.MayWrite (s : State) (userID : UserID) : Stage → Prop
  | .set tier => s.users.lookup userID = some tier ∨ s.Updating userID
  | _ => True

/-- Beyond that, an update begins only when no other one of the user is under way. -/
def Orderly (userID : UserID) (s : State) : Event → Prop
  | .updateUserTier u _ => u = userID → ¬s.Updating userID
  | .call i _ => ∀ c ∈ s.calls[i]?, c.userID = userID → s.MayWrite userID c.stage
  | _ => True

instance (s : State) (userID : UserID) : Decidable (s.Updating userID) := by
  unfold State.Updating
  infer_instance

instance (s : State) (userID : UserID) (stage : Stage) : Decidable (s.MayWrite userID stage) := by
  induction stage using Stage.casesOn <;> dsimp only [State.MayWrite] <;> infer_instance

instance (userID : UserID) (s : State) (e : Event) : Decidable (Orderly userID s e) := by
  induction e using Event.casesOn <;> dsimp only [Orderly] <;> infer_instance

section

variable {s t : State} {e : Event} {i j k : ℕ} {reply : Reply} {c d : Call} {next : Stage}
  {userID u : UserID} {tier v : String} {past : List Event}

/-- While no update of the user is under way, the cache holds the tier of the row or none. -/
structure Coherent (userID : UserID) (s : State) : Prop where
  sole : ∀ (k l : ℕ) (c d : Call), s.calls[k]? = some c → s.calls[l]? = some d →
    c.userID = userID → d.userID = userID → c.stage.updating = true → d.stage.updating = true →
    k = l
  written : ∀ c ∈ s.calls, c.userID = userID → ∀ tier, c.stage = .invalidate tier →
    s.rowTier userID = some tier
  cached : ∀ v, s.cached userID = some v → s.rowTier userID = some v ∨ s.Updating userID
  last : ∀ (i : ℕ) (tier : String), s.calls[i]? = some ⟨userID, .updated tier⟩ →
    s.NoLaterUpdate userID i → s.rowTier userID = some tier ∧ ¬s.Updating userID

theorem Stage.updating_afterGet (v : String) : (afterGet v).updating = false := by
  unfold afterGet
  split_ifs <;> rfl

theorem Stage.ofUpdate_afterGet (v : String) : (afterGet v).ofUpdate = false := by
  unfold afterGet
  split_ifs <;> rfl

theorem Stage.updating_resume {stage : Stage} (h : stage.resume reply = some next)
    (hnext : next.updating = true) : stage.updating = true := by
  unfold Stage.resume at h
  split at h
  all_goals first
    | rfl
    | cases h
  all_goals first
    | cases hnext
    | simp [updating_afterGet] at hnext

theorem Stage.ofUpdate_resume {stage : Stage} (h : stage.resume reply = some next) :
    next.ofUpdate = stage.ofUpdate := by
  unfold Stage.resume at h
  split at h
  all_goals try split_ifs at h
  all_goals cases h
  all_goals first
    | rfl
    | exact ofUpdate_afterGet _

theorem Stage.resume_invalidate {stage : Stage}
    (h : stage.resume reply = some (.invalidate tier)) : stage = .update tier := by
  -- a call is to invalidate the cache only after its update
  have hup := updating_resume h rfl
  cases stage with
  | update tier' =>
    cases reply with
    | rowsAffected n =>
      rw [Stage.resume] at h
      split_ifs at h <;> cases h
      rfl
    | failed => cases h
    | _ => cases h
  | invalidate tier' => cases reply <;> cases h
  | _ => cases hup

theorem Stage.resume_updated {stage : Stage} (h : stage.resume reply = some (.updated tier)) :
    stage = .invalidate tier := by
  have hof := ofUpdate_resume h
  cases stage with
  | invalidate tier' => cases reply <;> cases h <;> rfl
  | update tier' =>
    cases reply with
    | rowsAffected n =>
      rw [Stage.resume] at h
      split_ifs at h <;> cases h
    | _ => cases h
  | updated | updateErr => cases reply <;> cases h
  | _ => cases hof

theorem Coherent.initial (users : Finmap (fun _ : UserID => Tier)) :
    Coherent userID (.initial users) := by
  refine ⟨?_, ?_, ?_, ?_⟩ <;> simp [State.initial, State.cached, Keyspace.get_empty]

theorem Step.updating_cases (h : Step s e t) (hd : t.calls[j]? = some d)
    (hup : d.stage.updating = true) :
    (∃ c, s.calls[j]? = some c ∧ c.userID = d.userID ∧ c.stage.updating = true) ∨
      ∃ tier, e = .updateUserTier d.userID tier ∧ j = s.calls.length := by
  -- an update under way was so before, or has just begun
  rcases Step.call_cases h hd with ⟨hold, -⟩ | ⟨-, -, hget⟩ | ⟨tier, he, hj, -⟩ |
    ⟨reply, c, -, hid, hmoves⟩
  · exact Or.inl ⟨d, hold, rfl, hup⟩
  · rw [hget] at hup
    cases hup
  · exact Or.inr ⟨tier, he, hj⟩
  · exact Or.inl ⟨c, hmoves.at_call, hid.symm, Stage.updating_resume hmoves.resumed hup⟩

/-- An update that ends has invalidated the cache. -/
theorem Step.updating_forward (h : Step s e t) (hs : e.Succeeds) (hup : s.Updating userID) :
    t.Updating userID ∨ t.cached userID = none := by
  obtain ⟨c, hmem, rfl, hup⟩ := hup
  obtain ⟨k, hk⟩ := List.mem_iff_getElem?.mp hmem
  rcases Step.call_forward h hk with hsame | ⟨reply, next, rfl, -, -⟩
  · exact Or.inl ⟨c, List.mem_of_getElem? hsame, rfl, hup⟩
  · obtain ⟨d, next, hmoves⟩ := Step.moves h
    obtain rfl := Option.some.inj (hmoves.at_call.symm.trans hk)
    cases hstage : d.stage with
    | update tier =>
      obtain ⟨rfl, -⟩ := hmoves.written hs hstage
      exact Or.inl ⟨_, List.mem_of_getElem? hmoves.self, rfl, rfl⟩
    | invalidate tier => exact Or.inr (hmoves.invalidated hs hstage).2
    | _ =>
      rw [hstage] at hup
      cases hup

theorem Coherent.sole_step {l : ℕ} (h : Coherent userID s) (hok : Orderly userID s e)
    (he : Step s e t) (hc : t.calls[k]? = some c) (hd : t.calls[l]? = some d)
    (hcid : c.userID = userID) (hdid : d.userID = userID) (hcup : c.stage.updating = true)
    (hdup : d.stage.updating = true) : k = l := by
  have hbusy : ∀ {n : ℕ} {b : Call}, s.calls[n]? = some b → b.userID = userID →
      b.stage.updating = true → s.Updating userID :=
    fun hb hid hup => ⟨_, List.mem_of_getElem? hb, hid, hup⟩
  rcases Step.updating_cases he hc hcup with ⟨c', hc', hcid', hcup'⟩ | ⟨tier, rfl, hk⟩ <;>
    rcases Step.updating_cases he hd hdup with ⟨d', hd', hdid', hdup'⟩ | ⟨tier', heq, hl⟩
  · exact h.sole k l c' d' hc' hd' (hcid'.trans hcid) (hdid'.trans hdid) hcup' hdup'
  · subst heq
    exact absurd (hbusy hc' (hcid'.trans hcid) hcup') (hok hdid)
  · exact absurd (hbusy hd' (hdid'.trans hdid) hdup') (hok hcid)
  · rw [hk, hl]

theorem Coherent.written_step (h : Coherent userID s) (he : Step s e t) (hs : e.Succeeds)
    (hc : c ∈ t.calls) (hid : c.userID = userID) (hstage : c.stage = .invalidate tier) :
    t.rowTier userID = some tier := by
  obtain ⟨j, hj⟩ := List.mem_iff_getElem?.mp hc
  rcases Step.call_cases he hj with ⟨hold, hne⟩ | ⟨-, -, hget⟩ | ⟨tier', -, -, hupdate⟩ |
    ⟨reply, d, rfl, hdid, hmoves⟩
  · have hbefore := h.written c (List.mem_of_getElem? hold) hid tier hstage
    rcases Step.row he userID with hsame | ⟨i, reply, d, next, tier', rfl, hmoves, hdid, hdstage⟩
    · rw [hsame, hbefore]
    · -- another update would have to be under way
      have hij : i = j := h.sole i j d c hmoves.at_call hold hdid hid (by rw [hdstage]; rfl)
        (by rw [hstage]; rfl)
      exact absurd (by rw [hij]) (hne reply)
  · rw [hget] at hstage
    cases hstage
  · rw [hupdate] at hstage
    cases hstage
  · rw [hstage] at hmoves
    have hdstage := Stage.resume_invalidate hmoves.resumed
    rw [← hid, hdid]
    exact (hmoves.written hs hdstage).2

theorem Coherent.cached_step (h : Coherent userID s) (hok : Orderly userID s e)
    (he : Step s e t) (hs : e.Succeeds) (hv : t.cached userID = some v) :
    t.rowTier userID = some v ∨ t.Updating userID := by
  have hbusy : s.Updating userID → t.Updating userID := by
    intro hup
    rcases Step.updating_forward he hs hup with hafter | hnone
    · exact hafter
    · rw [hnone] at hv
      cases hv
  have hfresh : s.rowTier userID = some v → t.rowTier userID = some v ∨ t.Updating userID := by
    intro hrow
    rcases Step.row he userID with hsame | ⟨i, reply, d, next, tier, rfl, hmoves, hdid, hdstage⟩
    · exact Or.inl (hsame.trans hrow)
    · exact Or.inr (hbusy ⟨d, List.mem_of_getElem? hmoves.at_call, hdid, by rw [hdstage]; rfl⟩)
  rcases Step.cached he hv with hold | ⟨i, reply, c, T, rfl, hc, hid, hstage, rfl⟩
  · rcases h.cached v hold with hrow | hup
    · exact hfresh hrow
    · exact Or.inr (hbusy hup)
  · have hmay := hok c hc hid
    rw [hstage] at hmay
    rcases hmay with hrow | hup
    · exact hfresh (by rw [State.rowTier, hrow, Option.map_some])
    · exact Or.inr (hbusy hup)

theorem Step.noLaterUpdate (he : Step s e t) (hlater : t.NoLaterUpdate userID i) :
    s.NoLaterUpdate userID i := by
  -- a call is an update for good
  intro k c hk hc hid
  rcases Step.call_forward he hc with hsame | ⟨reply, next, -, hresumed, hnext⟩
  · exact hlater k c hk hsame hid
  · rw [← Stage.ofUpdate_resume hresumed]
    exact hlater k _ hk hnext hid

theorem Coherent.last_step (h : Coherent userID s) (he : Step s e t)
    (hi : t.calls[i]? = some ⟨userID, .updated tier⟩)
    (hlater : t.NoLaterUpdate userID i) : t.rowTier userID = some tier ∧ ¬t.Updating userID := by
  rcases Step.call_cases he hi with ⟨hold, -⟩ | ⟨-, -, hget⟩ | ⟨tier', -, -, hupdate⟩ |
    ⟨reply, c, rfl, hid, hmoves⟩
  · obtain ⟨hrow, hquiet⟩ := h.last i tier hold (Step.noLaterUpdate he hlater)
    constructor
    · rcases Step.row he userID with hsame | ⟨k, reply, d, next, tier', -, hmoves, hdid, hdstage⟩
      · rw [hsame, hrow]
      · exact absurd ⟨d, List.mem_of_getElem? hmoves.at_call, hdid, by rw [hdstage]; rfl⟩ hquiet
    · rintro ⟨d, hd, hdid, hup⟩
      obtain ⟨j, hj⟩ := List.mem_iff_getElem?.mp hd
      rcases Step.updating_cases he hj hup with ⟨c, hc, hcid, hcup⟩ | ⟨tier', -, hlen⟩
      · exact hquiet ⟨c, List.mem_of_getElem? hc, hcid.trans hdid, hcup⟩
      · have hlt : i < j := by
          rw [hlen]
          exact (List.getElem?_eq_some_iff.mp hold).1
        have hof := hlater j d hlt hj hdid
        cases hstage : d.stage <;> simp [hstage, Stage.ofUpdate, Stage.updating] at hof hup
  · cases hget
  · cases hupdate
  · -- it has just invalidated the cache
    have hstage := Stage.resume_updated hmoves.resumed
    have hcid : c.userID = userID := hid.symm
    constructor
    · have hrow := h.written c (List.mem_of_getElem? hmoves.at_call) hcid tier hstage
      rcases Step.row he userID with hsame | ⟨k, reply', d, next, tier', heq, hmoves', -, hdstage⟩
      · rw [hsame, hrow]
      · cases heq
        obtain rfl := Option.some.inj (hmoves'.at_call.symm.trans hmoves.at_call)
        cases hstage.symm.trans hdstage
    · rintro ⟨d, hd, hdid, hup⟩
      obtain ⟨j, hj⟩ := List.mem_iff_getElem?.mp hd
      rcases Step.updating_cases he hj hup with ⟨b, hb, hbid, hbup⟩ | ⟨tier', heq, -⟩
      · have hji : j = i := h.sole j i b c hb hmoves.at_call (hbid.trans hdid) hcid hbup
          (by rw [hstage]; rfl)
        subst hji
        obtain rfl := Option.some.inj (hj.symm.trans hi)
        cases hup
      · cases heq

theorem Coherent.step (h : Coherent userID s) (hok : Orderly userID s e) (hs : e.Succeeds)
    (he : Step s e t) : Coherent userID t where
  sole _ _ _ _ hc hd hcid hdid hcup hdup := h.sole_step hok he hc hd hcid hdid hcup hdup
  written _ hc hid _ hstage := h.written_step he hs hc hid hstage
  cached _ hv := h.cached_step hok he hs hv
  last _ _ hi hlater := h.last_step he hi hlater

/-- After the update, `tier` is what calls of `Tier` from the `n`-th on have read. -/
structure Answering (userID : UserID) (i n : ℕ) (tier : String) (t : State) : Prop where
  returned : t.calls[i]? = some ⟨userID, .updated tier⟩
  filling : ∀ (j : ℕ) (c : Call), n ≤ j → t.calls[j]? = some c → c.userID = userID →
    ∀ T, c.stage = .set T → T.text = tier
  answered : ∀ (j : ℕ) (c : Call), n ≤ j → t.calls[j]? = some c → c.userID = userID →
    ∀ v, c.stage = .answered v → v = tier

theorem Stage.resume_set {stage : Stage} {T : Tier} (h : stage.resume reply = some (.set T)) :
    stage = .find ∧ reply = .user (some T) := by
  unfold Stage.resume afterGet at h
  split at h
  all_goals try split_ifs at h
  all_goals cases h
  exact ⟨rfl, rfl⟩

theorem Stage.resume_answered {stage : Stage} (h : stage.resume reply = some (.answered v)) :
    (∃ T, stage = .set T ∧ T.text = v) ∨ (stage = .get ∧ reply = .cached (some v)) := by
  -- a call of `Tier` answers what it has read from the row or from the cache
  unfold Stage.resume afterGet at h
  split at h
  all_goals try split_ifs at h
  all_goals cases h
  · rename_i tier hne
    cases tier with
    | none => exact absurd rfl hne
    | some v => exact Or.inr ⟨rfl, rfl⟩
  · rename_i hne
    exact absurd rfl hne
  · exact Or.inl ⟨_, rfl, rfl⟩
  · exact Or.inl ⟨_, rfl, rfl⟩

theorem Answering.returned_step {n : ℕ} (h : Answering userID i n tier s) (he : Step s e t) :
    t.calls[i]? = some ⟨userID, .updated tier⟩ := by
  rcases Step.call_forward he h.returned with hsame | ⟨reply, next, -, hresumed, -⟩
  · exact hsame
  · cases reply <;> cases hresumed

theorem Answering.filling_step {n : ℕ} {T : Tier} (h : Answering userID i n tier s)
    (hrow : s.rowTier userID = some tier) (he : Step s e t) (hj : n ≤ j)
    (hc : t.calls[j]? = some c) (hid : c.userID = userID) (hstage : c.stage = .set T) :
    T.text = tier := by
  rcases Step.call_cases he hc with ⟨hold, -⟩ | ⟨-, -, hget⟩ | ⟨tier', -, -, hupdate⟩ |
    ⟨reply, d, rfl, hdid, hmoves⟩
  · exact h.filling j c hj hold hid T hstage
  · cases hstage.symm.trans hget
  · cases hstage.symm.trans hupdate
  · rw [hstage] at hmoves
    obtain ⟨hfind, rfl⟩ := Stage.resume_set hmoves.resumed
    have hanswer : s.users.lookup userID = some T := by
      have hanswered := hmoves.answered
      rwa [hfind, ← hdid, hid] at hanswered
    rw [State.rowTier, hanswer] at hrow
    exact Option.some.inj hrow

theorem Answering.answered_step {n : ℕ} (h : Answering userID i n tier s)
    (hcached : ∀ v, s.cached userID = some v → v = tier) (he : Step s e t) (hj : n ≤ j)
    (hc : t.calls[j]? = some c) (hid : c.userID = userID) (hstage : c.stage = .answered v) :
    v = tier := by
  rcases Step.call_cases he hc with ⟨hold, -⟩ | ⟨-, -, hget⟩ | ⟨tier', -, -, hupdate⟩ |
    ⟨reply, d, rfl, hdid, hmoves⟩
  · exact h.answered j c hj hold hid v hstage
  · cases hstage.symm.trans hget
  · cases hstage.symm.trans hupdate
  · rw [hstage] at hmoves
    rcases Stage.resume_answered hmoves.resumed with ⟨T, hset, rfl⟩ | ⟨hget, rfl⟩
    · exact h.filling j d hj hmoves.at_call (hdid.symm.trans hid) T hset
    · have hanswered := hmoves.answered
      rw [hget, ← hdid, hid] at hanswered
      exact hcached v hanswered

theorem Answering.step {n : ℕ} (h : Answering userID i n tier s) (hco : Coherent userID s)
    (he : Step s e t) (hlater : t.NoLaterUpdate userID i) : Answering userID i n tier t := by
  obtain ⟨hrow, hquiet⟩ := hco.last i tier h.returned (Step.noLaterUpdate he hlater)
  have hcached : ∀ v, s.cached userID = some v → v = tier := by
    intro v hv
    have hsame := (hco.cached v hv).resolve_right hquiet
    exact Option.some.inj (hsame.symm.trans hrow)
  exact ⟨h.returned_step he, fun _ _ hj hc hid _ => h.filling_step hrow he hj hc hid,
    fun _ _ hj hc hid _ => h.answered_step hcached he hj hc hid⟩

theorem Answering.start (h : s.calls[i]? = some ⟨userID, .updated tier⟩) :
    Answering userID i s.calls.length tier s := by
  have hnone : ∀ {j : ℕ} {c : Call}, s.calls.length ≤ j → s.calls[j]? ≠ some c := by
    intro j c hj hc
    exact absurd (List.getElem?_eq_some_iff.mp hc).1 (Nat.not_lt.mpr hj)
  exact ⟨h, fun _ _ hj hc => absurd hc (hnone hj), fun _ _ hj hc => absurd hc (hnone hj)⟩

end

/-- Where updates follow each other and no fill outlives one, a new tier takes effect at once. -/
theorem tier_change_takes_effect {users : Finmap (fun _ : UserID => Tier)} {userID : UserID}
    {tr : List Event}
    (hsucceed : Throughout Step (.initial users) tr fun _ _ e => e.Succeeds)
    (horderly : Throughout Step (.initial users) tr fun _ s e => Orderly userID s e) :
    TakesEffect users userID tr := by
  have hok : Throughout Step (.initial users) tr fun _ s e => e.Succeeds ∧ Orderly userID s e :=
    hsucceed.and horderly
  have hkeeps : ∀ s e t, Coherent userID s → e.Succeeds ∧ Orderly userID s e → Step s e t →
      Coherent userID t :=
    fun _ _ _ hco hok he => hco.step hok.2 hok.1 he
  rintro past rest s t i j tier answer rfl hpast hrest hi hlater hj hanswer
  have hstart : Coherent userID s :=
    hpast.guarded (fun _ => Coherent userID) (Coherent.initial users)
      (fun _ => hkeeps) hok.take
  have hend := hrest.guarded
    (fun _ t => Coherent userID t ∧
      (t.NoLaterUpdate userID i → Answering userID i s.calls.length tier t))
    ⟨hstart, fun _ => Answering.start hi⟩
    (fun _ s e t hinv hok he => ⟨hkeeps s e t hinv.1 hok he, fun hlater =>
      (hinv.2 (Step.noLaterUpdate he hlater)).step hinv.1 he hlater⟩)
    (hok.drop hpast)
  exact (hend.2 hlater).answered j _ hj hanswer rfl answer rfl

def freeAlice : Finmap (fun _ : UserID => Tier) := Finmap.singleton alice .free

/-- The fill of the first call puts the old tier back after the update has returned, and the last
call finds it. -/
def staleFill : List Event :=
  [.tier alice, .call 0 (.cached none), .call 0 (.user (some .free)),
    .updateUserTier alice "premium", .call 1 (.rowsAffected 1), .call 1 .done, .call 0 .done,
    .tier alice, .call 2 (.cached (some "free"))]

theorem tier_change_has_no_effect :
    Throughout Step (.initial freeAlice) staleFill (fun _ _ e => e.Succeeds) ∧
      ¬TakesEffect freeAlice alice staleFill := by
  refine ⟨throughout_of_always (by decide +kernel), fun heffect => ?_⟩
  obtain ⟨s, hpast, hcalls⟩ := Run.exists_of_foldlM step (.initial freeAlice) (staleFill.take 7)
    (fun s => s.calls = [⟨alice, .answered "free"⟩, ⟨alice, .updated "premium"⟩])
    (by decide +kernel)
  obtain ⟨t, hrun, hcalls'⟩ := Run.exists_of_foldlM step (.initial freeAlice) staleFill
    (fun t => t.calls =
      [⟨alice, .answered "free"⟩, ⟨alice, .updated "premium"⟩, ⟨alice, .answered "free"⟩])
    (by decide +kernel)
  have hlater : t.NoLaterUpdate alice 1 := by
    intro k c hk hc _
    rw [hcalls'] at hc
    match k, hk with
    | 2, _ =>
      cases hc
      rfl
    | k + 3, _ => cases hc
  have hanswer := heffect (staleFill.take 7) (staleFill.drop 7) s t 1 2 "premium" "free"
    (List.take_append_drop 7 staleFill).symm hpast (hrun.rest hpast) (by rw [hcalls]; rfl) hlater
    (by rw [hcalls]; rfl) (by rw [hcalls']; rfl)
  exact absurd hanswer (by decide)

/-- The old tier is put back before the update invalidates it. -/
def earlyFill : List Event :=
  [.tier alice, .call 0 (.cached none), .call 0 (.user (some .free)),
    .updateUserTier alice "premium", .call 1 (.rowsAffected 1), .call 0 .done, .call 1 .done,
    .tier alice, .call 2 (.cached none), .call 2 (.user (some .premium)), .call 2 .done]

theorem tier_change_takes_effect_early_fill :
    (∃ s, Run Step (.initial freeAlice) earlyFill s ∧
      s.calls[2]? = some ⟨alice, .answered "premium"⟩) ∧
      TakesEffect freeAlice alice earlyFill := by
  refine ⟨?_, tier_change_takes_effect ?_ ?_⟩
  · exact Run.exists_of_foldlM step (.initial freeAlice) earlyFill
      (fun s => s.calls[2]? = some ⟨alice, .answered "premium"⟩) (by decide +kernel)
  · exact throughout_of_always (by decide +kernel)
  · exact throughout_of_always (by decide +kernel)

end InferenceQueue.Users

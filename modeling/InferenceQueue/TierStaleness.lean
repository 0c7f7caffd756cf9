import InferenceQueue.TierChanges

namespace InferenceQueue.Users

open Redis

def Volatile.EndsBy (d : ℕ) (v : Volatile String) : Prop := ∃ t, v.expiresAt = some t ∧ t ≤ d

/-- The call is not about to cache another tier. -/
def Stage.Settled (tier : String) : Stage → Prop
  | set T => T.text = tier
  | _ => True

instance (tier : String) : DecidablePred (Stage.Settled tier)
  | .set T => inferInstanceAs (Decidable (T.text = tier))
  | .get | .find | .answered _ | .tierErr _ | .update _ | .invalidate _ | .updated _
  | .updateErr _ => isTrue trivial

variable {s t : State} {e : Event} {userID : UserID} {tier : String} {i j n d : ℕ}
  {tr rest : List Event}

theorem Step.clock_le (h : Step s e t) : s.clock ≤ t.clock := by
  cases e with
  | tick ms =>
    obtain rfl := Option.some.inj h
    exact Nat.le_add_right _ _
  | call i reply =>
    obtain ⟨c, next, hmoves⟩ := Step.moves h
    exact hmoves.clock.symm.le
  | _ =>
    obtain rfl := Option.some.inj h
    exact le_rfl

def State.entry (s : State) (userID : UserID) : Option (Volatile String) :=
  s.cache.lookup (buildUserTierCacheKey userID)

theorem entry_putCache (u : UserID) (v : Option (Volatile String)) :
    (s.putCache u v).entry userID = if userID = u then v else s.entry userID := by
  unfold State.putCache State.entry
  rw [Keyspace.lookup_put]
  by_cases h : userID = u
  · simp [h]
  · rw [if_neg h, if_neg fun hkey => h (buildUserTierCacheKey_inj hkey)]

theorem Step.entry (h : Step s e t) :
    t.entry userID = s.entry userID ∨ t.entry userID = none ∨
      ∃ c T, c ∈ s.calls ∧ c.userID = userID ∧ c.stage = .set T ∧
        t.entry userID = expire s.clock 900 T.text := by
  cases e with
  | call i reply =>
    obtain ⟨c, next, hmoves⟩ := Step.moves h
    have hentry : t.entry userID = (s.perform c.userID reply c.stage).entry userID := by
      rw [hmoves.eq]
      rfl
    rw [hentry]
    cases hstage : c.stage with
    | set T =>
      rw [State.perform]
      split_ifs
      · rw [entry_putCache]
        split_ifs with hid
        · exact Or.inr (Or.inr ⟨c, T, List.mem_of_getElem? hmoves.at_call, hid.symm, hstage, rfl⟩)
        · exact Or.inl rfl
      · exact Or.inl rfl
    | invalidate tier =>
      rw [State.perform]
      split_ifs
      · rw [entry_putCache]
        split_ifs
        · exact Or.inr (Or.inl rfl)
        · exact Or.inl rfl
      · exact Or.inl rfl
    | update tier =>
      left
      rw [State.perform, State.updateUserTier]
      split_ifs
      · split <;> rfl
      · rfl
    | _ => exact Or.inl rfl
  | _ =>
    obtain rfl := Option.some.inj h
    exact Or.inl rfl

theorem endsBy_expire {now : ℕ} {text : String} {v : Volatile String}
    (h : expire now 900 text = some v) (hd : now + 900000 ≤ d) : Volatile.EndsBy d v := by
  -- what `Set` writes ends with its time to live
  unfold expire at h
  rw [if_neg (by decide)] at h
  cases h
  exact ⟨_, rfl, hd⟩

theorem entry_ends {users : Finmap (fun _ : UserID => Tier)}
    (h : Run Step (.initial users) tr s) :
    ∀ v ∈ s.entry userID, Volatile.EndsBy (s.clock + 900000) v := by
  refine h.history (fun _ s => ∀ v ∈ s.entry userID, Volatile.EndsBy (s.clock + 900000) v) ?_ ?_
  · intro v hv
    cases hv
  · intro _ s e t hs he v hv
    have hclock := Step.clock_le he
    rcases Step.entry he with hsame | hnone | ⟨c, T, -, -, -, hset⟩
    · rw [hsame] at hv
      obtain ⟨d, hd, hle⟩ := hs v hv
      exact ⟨d, hd, by omega⟩
    · rw [hnone] at hv
      cases hv
    · rw [hset] at hv
      exact endsBy_expire hv (by omega)

/-- Nobody is about to cache another tier, and what else the cache holds is gone after `d`. -/
structure Fading (userID : UserID) (tier : String) (d : ℕ) (s : State) : Prop where
  calls : ∀ c ∈ s.calls, c.userID = userID → c.stage.Settled tier
  entry : ∀ v ∈ s.entry userID, v.value = tier ∨ Volatile.EndsBy d v

namespace Fading

theorem calls_step (h : Fading userID tier d s) (hrow : s.rowTier userID = some tier)
    (he : Step s e t) : ∀ c ∈ t.calls, c.userID = userID → c.stage.Settled tier := by
  intro c hc hid
  obtain ⟨j, hj⟩ := List.mem_iff_getElem?.mp hc
  rcases Step.call_cases he hj with ⟨hold, -⟩ | ⟨-, -, hget⟩ | ⟨tier', -, -, hupdate⟩ |
    ⟨reply, c₀, rfl, hid₀, hmoves⟩
  · exact h.calls c (List.mem_of_getElem? hold) hid
  · rw [hget]
    trivial
  · rw [hupdate]
    trivial
  · cases hstage : c.stage with
    | set T =>
      -- the fill has just read the row
      rw [hstage] at hmoves
      obtain ⟨hfind, rfl⟩ := Stage.resume_set hmoves.resumed
      have hanswer : s.users.lookup userID = some T := by
        have hanswered := hmoves.answered
        rwa [hfind, ← hid₀, hid] at hanswered
      rw [State.rowTier, hanswer] at hrow
      exact Option.some.inj hrow
    | _ => trivial

theorem entry_step (h : Fading userID tier d s) (he : Step s e t) :
    ∀ v ∈ t.entry userID, v.value = tier ∨ Volatile.EndsBy d v := by
  intro v hv
  rcases Step.entry he with hsame | hnone | ⟨c, T, hc, hid, hstage, hset⟩
  · rw [hsame] at hv
    exact h.entry v hv
  · rw [hnone] at hv
    cases hv
  · rw [hset] at hv
    have hsettled := h.calls c hc hid
    rw [hstage] at hsettled
    exact Or.inl ((value_of_expire hv).trans hsettled)

theorem step (h : Fading userID tier d s) (hrow : s.rowTier userID = some tier)
    (he : Step s e t) : Fading userID tier d t :=
  ⟨h.calls_step hrow he, h.entry_step he⟩

/-- Once the time is over the cache holds the tier of the row or none. -/
theorem cached (h : Fading userID tier d s) (hlate : d < s.clock) {v : String}
    (hv : s.cached userID = some v) : v = tier := by
  obtain ⟨w, hw, hlive, rfl⟩ := fetch_some.mp hv
  rcases h.entry w hw with hsame | ⟨t, ht, hle⟩
  · exact hsame
  · have hnow := hlive t ht
    omega

end Fading

def AnswersFrom (n : ℕ) (userID : UserID) (tier : String) (s : State) : Prop :=
  ∀ (j : ℕ) (answer : String), n ≤ j → s.calls[j]? = some ⟨userID, .answered answer⟩ →
    answer = tier

theorem AnswersFrom.step (h : AnswersFrom n userID tier s) (hfading : Fading userID tier d s)
    (hlate : d < s.clock) (he : Step s e t) : AnswersFrom n userID tier t := by
  intro j answer hj hanswer
  rcases Step.call_cases he hanswer with ⟨hold, -⟩ | ⟨-, -, hget⟩ | ⟨tier', -, -, hupdate⟩ |
    ⟨reply, c, -, hid, hmoves⟩
  · exact h j answer hj hold
  · cases hget
  · cases hupdate
  · have hid : userID = c.userID := hid
    rcases Stage.resume_answered hmoves.resumed with ⟨T, hset, rfl⟩ | ⟨hget, rfl⟩
    · have hsettled := hfading.calls c (List.mem_of_getElem? hmoves.at_call) hid.symm
      rw [hset] at hsettled
      exact hsettled
    · have hanswered := hmoves.answered
      rw [hget, ← hid] at hanswered
      exact hfading.cached hlate hanswered

/-- As long as the row keeps its tier, a call of `Tier` answers with it if it begins more than 15
minutes after the last moment at which a call still held an older tier to cache.  Any call may fail,
the invalidation too, and tiers may be updated meanwhile, without success or to the same tier. -/
theorem tier_noticed_in_time {users : Finmap (fun _ : UserID => Tier)} {s' : State}
    {later : List Event} {answer : String} (h : Run Step (.initial users) tr s)
    (hcalls : ∀ c ∈ s.calls, c.userID = userID → c.stage.Settled tier)
    (hrest : Run Step s rest s') (hlate : s.clock + 900000 < s'.clock)
    (hlater : Run Step s' later t)
    (hrow : Throughout Step s (rest ++ later) fun _ s _ => s.rowTier userID = some tier)
    (hj : s'.calls.length ≤ j) (hanswer : t.calls[j]? = some ⟨userID, .answered answer⟩) :
    answer = tier := by
  have hstart : Fading userID tier (s.clock + 900000) s :=
    ⟨hcalls, fun v hv => Or.inr (entry_ends h v hv)⟩
  have hstep : ∀ s₁ e s₂, Fading userID tier (s.clock + 900000) s₁ →
      s₁.rowTier userID = some tier → Step s₁ e s₂ →
      Fading userID tier (s.clock + 900000) s₂ :=
    fun _ _ _ h hrow he => h.step hrow he
  have hs' : Fading userID tier (s.clock + 900000) s' :=
    hrest.guarded (fun _ s₁ => Fading userID tier _ s₁) hstart (fun _ => hstep) hrow.take
  have hnone : AnswersFrom s'.calls.length userID tier s' := by
    intro j answer hj hanswer
    have hlt := (List.getElem?_eq_some_iff.mp hanswer).1
    omega
  -- the clock stays past the limit, and so every answer is the tier of the row
  have hend := hlater.guarded (fun _ t => Fading userID tier (s.clock + 900000) t ∧
      s.clock + 900000 < t.clock ∧ AnswersFrom s'.calls.length userID tier t)
    ⟨hs', hlate, hnone⟩
    (fun _ _ e _ ht hrow he => ⟨hstep _ e _ ht.1 hrow he, ht.2.1.trans_le (Step.clock_le he),
      ht.2.2.step ht.1 ht.2.1 he⟩) (hrow.drop hrest)
  exact hend.2.2 j answer hj hanswer

/-- The invalidation fails, and the old tier is put back. -/
def invalidationFails : List Event :=
  [.tier alice, .call 0 (.cached none), .call 0 (.user (some .free)),
    .updateUserTier alice "premium", .call 1 (.rowsAffected 1),
    .call 1 (.failed (.text "i/o timeout") false), .call 0 .done]

/-- One update fails and one is to the tier that the row has. -/
def quarterHour : List Event :=
  [.updateUserTier alice "free", .call 2 (.failed (.text "i/o timeout") false), .tick 900001,
    .updateUserTier alice "premium", .call 3 (.rowsAffected 1)]

def askedLater : List Event :=
  [.tier alice, .call 4 (.cached none), .call 4 (.user (some .premium)), .call 4 .done]

theorem tier_noticed_in_time_invalidation_fails :
    ∃ s t, Run Step (.initial freeAlice) invalidationFails s ∧ s.cached alice = some "free" ∧
      Run Step s (quarterHour ++ askedLater) t ∧
      (∃ answer, t.calls[4]? = some ⟨alice, .answered answer⟩) ∧
      ∀ answer, t.calls[4]? = some ⟨alice, .answered answer⟩ → answer = "premium" := by
  obtain ⟨s, hs, hcached, hclock, hcalls, hrow⟩ := Run.exists_of_foldlM step (.initial freeAlice)
    invalidationFails (fun s => s.cached alice = some "free" ∧ s.clock = 0 ∧
      (∀ c ∈ s.calls, c.userID = alice → c.stage.Settled "premium") ∧
      always step (fun _ s _ => s.rowTier alice = some "premium") [] s
        (quarterHour ++ askedLater) = true)
    (by decide +kernel)
  obtain ⟨s', hs', hlen, hlate⟩ := Run.exists_of_foldlM step (.initial freeAlice)
    (invalidationFails ++ quarterHour) (fun s' => s'.calls.length = 4 ∧ 900000 < s'.clock)
    (by decide +kernel)
  obtain ⟨t, ht, hanswer⟩ := Run.exists_of_foldlM step (.initial freeAlice)
    ((invalidationFails ++ quarterHour) ++ askedLater)
    (fun t => t.calls[4]? = some ⟨alice, .answered "premium"⟩) (by decide +kernel)
  have hlater := ht.rest hs'
  have hrest := hs'.rest hs
  refine ⟨s, t, hs, hcached, hrest.append hlater, ⟨_, hanswer⟩, fun answer hanswer => ?_⟩
  exact tier_noticed_in_time hs hcalls hrest (by omega) hlater (throughout_of_always hrow) hlen.le
    hanswer

end InferenceQueue.Users

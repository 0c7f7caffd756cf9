import InferenceQueue.SchedulerScripts

namespace InferenceQueue.RedisScheduler

open Redis RedisServer Scheduler

variable {format : ℕ → String} {cfg : Config} {us : ℕ} {db : Db} {s : Stores} {σ : State}

def withScheduler (s : Stores) (σ : State) : Stores := { s with scheduler := σ }

theorem held_activeUsers {users : SortedSet UserID} {z : SortedSet String}
    (h : Held format db (withScheduler s σ)) (hz : SortedSet.Renders Ident.val users z) :
    Held format (db.put (keyOf .activeUsers "") (entry z none))
      (withScheduler s { σ with activeUsers := users }) := by
  refine h.put (fun tag hne hheld => ?_) ⟨z, holds_put _ _ _, hz⟩
  cases tag <;> first | exact absurd rfl hne | exact hheld

theorem held_processingJobs {jobs : SortedSet JobID} {z : SortedSet String}
    (h : Held format db (withScheduler s σ)) (hz : SortedSet.Renders Ident.val jobs z) :
    Held format (db.put (keyOf .processingJobs "") (entry z none))
      (withScheduler s { σ with processingJobs := jobs }) := by
  refine h.put (fun tag hne hheld => ?_) ⟨z, holds_put _ _ _, hz⟩
  cases tag <;> first | exact absurd rfl hne | exact hheld

theorem held_queue (h : Held format db (withScheduler s σ)) (u : UserID) (l : List JobID) :
    Held format (db.put (keyOf .queue u.val) (entry (l.map Ident.val) none))
      (withScheduler s { σ with queue := Function.update σ.queue u l }) := by
  refine h.put (fun tag hne hheld => ?_) fun u' => ?_
  · cases tag <;> first | exact absurd rfl hne | exact hheld
  · show Holds _ _ ((Function.update σ.queue u l u').map Ident.val)
    by_cases heq : u' = u
    · rw [heq, Function.update_self]
      exact holds_put _ _ _
    · rw [Function.update_of_ne heq]
      have hheld : Holds db (keyOf .queue u'.val) ((σ.queue u').map Ident.val) := h .queue u'
      exact hheld.put_ne fun hkey => heq (Ident.val_injective (keyOf_inj.mp hkey).2)

theorem held_rotation (h : Held format db (withScheduler s σ)) (n : ℕ) :
    Held format (db.put (keyOf .rotationSequence "") (counter n))
      (withScheduler s { σ with rotationSeq := n }) := by
  refine h.put (fun tag hne hheld => ?_) ?_
  · cases tag <;> first | exact absurd rfl hne | exact hheld
  · show Finmap.lookup _ _ = _
    rw [Keyspace.lookup_put, if_pos rfl]
    rfl

theorem held_completedJobs (h : Held format db (withScheduler s σ)) (jobs : Finset JobID) :
    Held format (db.put (keyOf .completedJobs "") (entry (jobs.image Ident.val) none))
      (withScheduler s { σ with completedJobs := jobs }) := by
  refine h.put (fun tag hne hheld => ?_) (holds_put _ _ _)
  cases tag <;> first | exact absurd rfl hne | exact hheld

theorem held_stamps {f : Hash} {stamps : JobID → Option ℕ}
    (h : Held format db (withScheduler s σ))
    (hf : ∀ j : JobID, f.lookup j.val = (stamps j).map Nat.repr) :
    Held format (db.put (keyOf .queueEnqueuedAt "") (entry f none))
      (withScheduler s { σ with queueEnqueuedAt := stamps }) := by
  refine h.put (fun tag hne hheld => ?_) ⟨f, holds_put _ _ _, hf⟩
  cases tag <;> first | exact absurd rfl hne | exact hheld

theorem held_idempotencyKey (h : Held format db (withScheduler s σ)) (rest : String) (t : ℕ) :
    Held format (db.put (keyOf .queueIdempotency rest) (some ⟨.string "1", some t⟩))
      (withScheduler s { σ with
        idempotencyKeys :=
          Function.update σ.idempotencyKeys (keyOf .queueIdempotency rest) (some t) }) := by
  refine h.put (fun tag hne hheld => ?_) fun rest' => ?_
  · cases tag <;> first | exact absurd rfl hne | exact hheld
  · show _ = ((Function.update σ.idempotencyKeys _ _) _).map _
    rw [Keyspace.lookup_put, Function.update_apply]
    split_ifs
    · rfl
    · exact h .queueIdempotency rest'

theorem nowMillis_eq : nowMillis us db = (.ok (us / 1000), db) := by
  have htime : time us db = (.ok ((us / 1000000).repr, (us % 1000000).repr), db) := rfl
  rw [nowMillis, Script.bind_eq htime, Script.bind_eq (tonumber_repr _),
    Script.bind_eq (tonumber_repr _), Script.pure_eq]
  congr 2
  omega

theorem val_strictMono : StrictMono Ident.val := fun _ _ h => h

theorem queue_held (h : Held format db (withScheduler s σ)) (user : UserID) :
    Holds db (keyOf .queue user.val) ((σ.queue user).map Ident.val) := h .queue user

theorem markers_held (h : Held format db (withScheduler s σ)) :
    Holds db (keyOf .completedJobs "") (σ.completedJobs.image Ident.val) := h .completedJobs

theorem zscore_eq (h : Held format db (withScheduler s σ)) (job : JobID) :
    zscore (keyOf .processingJobs "") job.val us db =
      (.ok ((σ.processingJobs.zscore job).map Nat.repr), db) := by
  obtain ⟨z, hz, hrenders⟩ := h .processingJobs
  rw [hz.zscore_eq, hrenders.score]
  rfl

theorem llen_eq (h : Held format db (withScheduler s σ)) (user : UserID) :
    llen (keyOf .queue user.val) us db = (.ok (σ.queue user).length, db) := by
  rw [(queue_held h user).llen_eq, List.length_map]

theorem exists_release (us : ℕ) (h : Held format db (withScheduler s σ)) (job : JobID) :
    ∃ db', zrem (keyOf .processingJobs "") job.val us db =
        (.ok (if (σ.processingJobs.zscore job).isSome then 1 else 0), db') ∧
      Held format db' (withScheduler s
        { σ with processingJobs := σ.processingJobs.zrem job }) := by
  obtain ⟨z, hz, hrenders⟩ := h .processingJobs
  have hrem : zrem (keyOf .processingJobs "") job.val us db = _ := hz.zrem_eq job.val
  rw [hrenders.score] at hrem
  exact ⟨_, hrem, held_processingJobs h (hrenders.zrem Ident.val_injective)⟩

theorem exists_lease (us : ℕ) (h : Held format db (withScheduler s σ)) (job : JobID)
    (deadline : ℕ) :
    ∃ db', zadd (keyOf .processingJobs "") deadline job.val us db = (.ok (), db') ∧
      Held format db' (withScheduler s
        { σ with processingJobs := σ.processingJobs.zadd deadline job }) := by
  obtain ⟨z, hz, hrenders⟩ := h .processingJobs
  exact ⟨_, hz.zadd_eq _ _, held_processingJobs h (hrenders.zadd Ident.val_injective)⟩

theorem exists_lpush (us : ℕ) (h : Held format db (withScheduler s σ)) (user : UserID)
    (job : JobID) :
    ∃ n db', lpush (keyOf .queue user.val) job.val us db = (.ok n, db') ∧
      Held format db' (withScheduler s (σ.lpush user job)) := by
  exact ⟨_, _, (queue_held h user).lpush_eq job.val, held_queue h user (job :: σ.queue user)⟩

theorem exists_activate (us : ℕ) (h : Held format db (withScheduler s σ)) (user : UserID)
    (hrotation : σ.rotationSeq + 1 < 2 ^ 63) :
    ∃ db₁ db₂, incr (keyOf .rotationSequence "") us db = (.ok (σ.rotationSeq + 1), db₁) ∧
      zaddNX (keyOf .activeUsers "") (σ.rotationSeq + 1) user.val us db₁ = (.ok (), db₂) ∧
      Held format db₂ (withScheduler s (σ.activate user)) := by
  have hincr : incr (keyOf .rotationSequence "") us db = _ :=
    incr_eq (h .rotationSequence) hrotation
  have hheld := held_rotation h (σ.rotationSeq + 1)
  obtain ⟨z, hz, hrenders⟩ := hheld .activeUsers
  exact ⟨_, _, hincr, hz.zaddNX_eq _ _,
    held_activeUsers hheld (hrenders.zaddNX Ident.val_injective)⟩

theorem stamps_erase {f : Hash} {stamps : JobID → Option ℕ} (job : JobID)
    (hf : ∀ j : JobID, f.lookup j.val = (stamps j).map Nat.repr) (j : JobID) :
    (f.erase job.val).lookup j.val = (Function.update stamps job none j).map Nat.repr := by
  rw [Function.update_apply]
  split_ifs with heq
  · rw [heq, Finmap.lookup_erase]
    rfl
  · rw [Finmap.lookup_erase_ne fun hval => heq (Ident.val_injective hval)]
    exact hf j

theorem stamps_insert {f : Hash} {stamps : JobID → Option ℕ} (job : JobID) (now : ℕ)
    (hf : ∀ j : JobID, f.lookup j.val = (stamps j).map Nat.repr) (j : JobID) :
    (f.insert job.val now.repr).lookup j.val =
      (Function.update stamps job (some now) j).map Nat.repr := by
  rw [Function.update_apply]
  split_ifs with heq
  · rw [heq, Finmap.lookup_insert]
    rfl
  · rw [Finmap.lookup_insert_of_ne _ fun hval => heq (Ident.val_injective hval)]
    exact hf j

theorem exists_stamp (us : ℕ) (h : Held format db (withScheduler s σ)) (job : JobID) (now : ℕ) :
    ∃ db', hset (keyOf .queueEnqueuedAt "") [(job.val, now.repr)] us db = (.ok (), db') ∧
      Held format db' (withScheduler s (σ.stamp job now)) := by
  obtain ⟨f, hf, hfields⟩ := h .queueEnqueuedAt
  exact ⟨_, hf.hset_eq _ _, held_stamps h (stamps_insert job now hfields)⟩

theorem exists_unstamp (us : ℕ) (h : Held format db (withScheduler s σ)) (job : JobID) :
    ∃ db', hdel (keyOf .queueEnqueuedAt "") job.val us db = (.ok (), db') ∧
      Held format db' (withScheduler s (σ.unstamp job)) := by
  obtain ⟨f, hf, hfields⟩ := h .queueEnqueuedAt
  exact ⟨_, hf.hdel_eq _, held_stamps h (stamps_erase job hfields)⟩

def Runs (format : ℕ → String) (s : Stores) (x : Except Error Resp × Db) (σ : State)
    (reply : Resp) : Prop :=
  x.1 = .ok reply ∧ Held format x.2 (withScheduler s σ)

variable {args : Args} {ttl : ℕ}

theorem extendLeaseScript_runs (us : ℕ) (args : Args) (lease : ℕ) (job : JobID)
    (h : Held format db (withScheduler s σ))
    (hkey : args.key 1 = keyOf .processingJobs "") (hlease : args.arg 1 = lease.repr)
    (hjob : args.arg 2 = job.val) :
    Runs format s (extendLeaseScript args us db)
      (Scheduler.extendLeaseScript lease job (us / 1000) σ).1
      (.int (Scheduler.extendLeaseScript lease job (us / 1000) σ).2) := by
  rw [extendLeaseScript, hkey, hlease, hjob, Script.bind_eq (zscore_eq h job)]
  unfold Scheduler.extendLeaseScript
  cases σ.processingJobs.zscore job with
  | none => exact ⟨rfl, h⟩
  | some k =>
    obtain ⟨z, hz, hrenders⟩ := h .processingJobs
    rw [Option.map_some]
    dsimp only
    rw [Script.bind_eq nowMillis_eq, Script.bind_eq (tonumber_repr _),
      Script.bind_eq (hz.zaddXX_eq _ _)]
    exact ⟨rfl, held_processingJobs h (hrenders.zaddXX Ident.val_injective)⟩

theorem removeExpiredScript_runs (us : ℕ) (args : Args) (job : JobID) (cutoff : ℕ)
    (h : Held format db (withScheduler s σ))
    (hkey : args.key 1 = keyOf .processingJobs "") (hkey₂ : args.key 2 = keyOf .queueEnqueuedAt "")
    (hjob : args.arg 1 = job.val) (hcutoff : args.arg 2 = cutoff.repr) :
    Runs format s (removeExpiredScript args us db)
      (Scheduler.removeExpiredScript job cutoff σ).1
      (.int (Scheduler.removeExpiredScript job cutoff σ).2) := by
  rw [removeExpiredScript, hkey, hkey₂, hjob, hcutoff, Script.bind_eq (zscore_eq h job)]
  unfold Scheduler.removeExpiredScript
  cases hk : σ.processingJobs.zscore job with
  | none => exact ⟨rfl, h⟩
  | some k =>
    obtain ⟨db₁, hrem, hremoved⟩ := exists_release us h job
    obtain ⟨db₂, hdel, hunstamped⟩ := exists_unstamp us hremoved job
    rw [hk] at hrem
    rw [Option.map_some]
    dsimp only
    rw [Script.bind_eq (tonumber_repr _), Script.bind_eq (tonumber_repr _)]
    by_cases hlate : cutoff < k
    · rw [if_pos hlate, if_pos hlate]
      exact ⟨rfl, h⟩
    · rw [if_neg hlate, if_neg hlate, Script.bind_eq hrem, Option.isSome_some, if_pos rfl,
        if_pos rfl, Script.bind_eq hdel]
      exact ⟨rfl, hunstamped⟩

theorem requeueExpiredScript_runs (us : ℕ) (args : Args) (job : JobID) (user : UserID)
    (cutoff : ℕ) (h : Held format db (withScheduler s σ))
    (hkey : args.key 1 = keyOf .processingJobs "") (hkey₂ : args.key 2 = keyOf .activeUsers "")
    (hkey₃ : args.key 3 = keyOf .queue user.val) (hkey₄ : args.key 4 = keyOf .rotationSequence "")
    (hjob : args.arg 1 = job.val) (huser : args.arg 2 = user.val)
    (hcutoff : args.arg 3 = cutoff.repr) (hrotation : σ.rotationSeq + 1 < 2 ^ 63) :
    Runs format s (requeueExpiredScript args us db)
      (Scheduler.requeueExpiredScript job user cutoff σ).1
      (.int (Scheduler.requeueExpiredScript job user cutoff σ).2) := by
  rw [requeueExpiredScript, hkey, hkey₂, hkey₃, hkey₄, hjob, huser, hcutoff,
    Script.bind_eq (zscore_eq h job)]
  unfold Scheduler.requeueExpiredScript
  cases hk : σ.processingJobs.zscore job with
  | none => exact ⟨rfl, h⟩
  | some k =>
    obtain ⟨db₁, hrem, hremoved⟩ := exists_release us h job
    obtain ⟨n, db₂, hpush, hpushed⟩ := exists_lpush us hremoved user job
    obtain ⟨db₃, db₄, hincr, hadd, hactive⟩ := exists_activate us hpushed user hrotation
    rw [Option.map_some]
    dsimp only
    rw [Script.bind_eq (tonumber_repr _), Script.bind_eq (tonumber_repr _)]
    by_cases hlate : cutoff < k
    · rw [if_pos hlate, if_pos hlate]
      exact ⟨rfl, h⟩
    · rw [if_neg hlate, if_neg hlate, Script.bind_eq hrem, Script.bind_eq hpush,
        Script.bind_eq (llen_eq hpushed user)]
      split
      · rw [Script.bind_eq hincr, Script.bind_eq hadd]
        exact ⟨rfl, hactive⟩
      · exact ⟨rfl, hpushed⟩

def claimReply : Option (UserID × JobID × ℕ) → Resp
  | none => .nil
  | some (user, job, wait) => .array [.bulk user.val, .bulk job.val, .int wait]

theorem exists_rpop (us : ℕ) (h : Held format db (withScheduler s σ)) (user : UserID) :
    ∃ db', rpop ("queue:user:" ++ user.val) us db =
        (.ok ((σ.queue user).getLast?.map Ident.val), db') ∧
      Held format db' (withScheduler s
        { σ with queue := Function.update σ.queue user (σ.queue user).dropLast }) := by
  have hpop : rpop (keyOf .queue user.val) us db = _ := (queue_held h user).rpop_eq
  rw [List.getLast?_map, ← List.map_dropLast] at hpop
  exact ⟨_, hpop, held_queue h user _⟩

theorem hget_eq (h : Held format db (withScheduler s σ)) (job : JobID) :
    hget (keyOf .queueEnqueuedAt "") job.val us db =
      (.ok ((σ.queueEnqueuedAt job).map Nat.repr), db) := by
  obtain ⟨f, hf, hfields⟩ := h .queueEnqueuedAt
  rw [hf.hget_eq, hfields]
  rfl

def movedOn (σ : State) (user : UserID) (remaining : ℕ) : State :=
  if 0 < remaining then
    { σ with
      rotationSeq := σ.rotationSeq + 1
      activeUsers := σ.activeUsers.zadd (σ.rotationSeq + 1) user }
  else { σ with activeUsers := σ.activeUsers.zrem user }

theorem exists_moveOn (us : ℕ) (h : Held format db (withScheduler s σ))
    (hkey : args.key 1 = keyOf .activeUsers "") (hkey₃ : args.key 3 = keyOf .rotationSequence "")
    (user : UserID) (remaining : ℕ) (hrotation : σ.rotationSeq + 1 < 2 ^ 63) :
    ∃ db', moveOn args user.val remaining us db = (.ok (), db') ∧
      Held format db' (withScheduler s (movedOn σ user remaining)) := by
  unfold moveOn movedOn
  rw [hkey, hkey₃]
  split_ifs
  · have hincr : incr (keyOf .rotationSequence "") us db = _ :=
      incr_eq (h .rotationSequence) hrotation
    have hheld := held_rotation h (σ.rotationSeq + 1)
    obtain ⟨z, hz, hrenders⟩ := hheld .activeUsers
    refine ⟨_, ?_, held_activeUsers hheld (hrenders.zadd Ident.val_injective)⟩
    rw [Script.bind_eq hincr]
    exact hz.zadd_eq _ _
  · obtain ⟨z, hz, hrenders⟩ := h .activeUsers
    refine ⟨_, ?_, held_activeUsers h (hrenders.zrem Ident.val_injective)⟩
    rw [Script.bind_eq (hz.zrem_eq _)]
    rfl

theorem exists_claim (us : ℕ) (h : Held format db (withScheduler s σ))
    (hkey : args.key 1 = keyOf .activeUsers "") (hkey₃ : args.key 3 = keyOf .rotationSequence "")
    (user : UserID) (job : JobID) (lease : ℕ) (hrotation : σ.rotationSeq + 1 < 2 ^ 63) :
    ∃ db₁ db₂ db₃, hdel (keyOf .queueEnqueuedAt "") job.val us db = (.ok (), db₁) ∧
      llen ("queue:user:" ++ user.val) us db₁ = (.ok (σ.queue user).length, db₁) ∧
      moveOn args user.val (σ.queue user).length us db₁ = (.ok (), db₂) ∧
      zadd (keyOf .processingJobs "") (us / 1000 + lease) job.val us db₂ = (.ok (), db₃) ∧
      Held format db₃ (withScheduler s
        { movedOn (σ.unstamp job) user (σ.queue user).length with
          processingJobs := (movedOn (σ.unstamp job) user (σ.queue user).length).processingJobs.zadd
            (us / 1000 + lease) job }) := by
  obtain ⟨db₁, hdel, hunstamped⟩ := exists_unstamp us h job
  obtain ⟨db₂, hmove, hmoved⟩ := exists_moveOn us hunstamped hkey hkey₃ user
    (σ.queue user).length hrotation
  obtain ⟨db₃, hadd, hleased⟩ := exists_lease us hmoved job (us / 1000 + lease)
  exact ⟨db₁, db₂, db₃, hdel, llen_eq hunstamped user, hmove, hadd, hleased⟩

theorem fairDequeueScript_runs (us : ℕ) (args : Args) (lease : ℕ)
    (h : Held format db (withScheduler s σ))
    (hkey : args.key 1 = keyOf .activeUsers "") (hkey₂ : args.key 2 = keyOf .processingJobs "")
    (hkey₃ : args.key 3 = keyOf .rotationSequence "")
    (hkey₄ : args.key 4 = keyOf .queueEnqueuedAt "") (hlease : args.arg 1 = lease.repr)
    (hrotation : σ.rotationSeq + 1 < 2 ^ 63) :
    Runs format s (fairDequeueScript args us db)
      (Scheduler.fairDequeueScript lease (us / 1000) σ).1
      (claimReply (Scheduler.fairDequeueScript lease (us / 1000) σ).2) := by
  obtain ⟨z, hz, hrenders⟩ := h .activeUsers
  have hfirst := hrenders.zrangeFirst val_strictMono
  have hcard := hrenders.card_eq_zero_iff val_strictMono
  rw [fairDequeueScript, hkey, hkey₂, hkey₄, hlease, Script.bind_eq hz.zcard_eq]
  unfold Scheduler.fairDequeueScript
  cases huser : σ.activeUsers.zrangeFirst with
  | none =>
    rw [if_pos (hcard.mpr huser)]
    exact ⟨rfl, h⟩
  | some user =>
    have hsome : z.zrangeFirst = some user.val := by
      rw [hfirst]
      exact congrArg (Option.map Ident.val) huser
    have hnonzero : ¬z.keys.card = 0 := by
      intro hzero
      rw [show σ.activeUsers.zrangeFirst = none from hcard.mp hzero] at huser
      cases huser
    obtain ⟨db₁, hpop, hpopped⟩ := exists_rpop us h user
    rw [if_neg hnonzero, Script.bind_eq hz.zrangeFirst_eq, hsome, Option.getD_some]
    dsimp only
    rw [Script.bind_eq hpop]
    cases hjob : (σ.queue user).getLast? with
    | none =>
      -- `RPOP` has changed nothing, and the user leaves the round
      have hempty : σ.queue user = [] := List.getLast?_eq_none_iff.mp hjob
      have hsame : Function.update σ.queue user (σ.queue user).dropLast = σ.queue := by
        rw [hempty, List.dropLast_nil, ← hempty, Function.update_eq_self]
      rw [hsame] at hpopped
      obtain ⟨z', hz', hrenders'⟩ := hpopped .activeUsers
      rw [Option.map_none]
      dsimp only
      rw [Script.bind_eq (hz'.zrem_eq _)]
      exact ⟨rfl, held_activeUsers hpopped (hrenders'.zrem Ident.val_injective)⟩
    | some job =>
      obtain ⟨db₂, db₃, db₄, hdel, hlength, hmove, hadd, hleased⟩ :=
        exists_claim us hpopped hkey hkey₃ user job lease hrotation
      dsimp only at hlength hmove hleased
      rw [Function.update_self] at hlength hmove hleased
      have hget : hget (keyOf .queueEnqueuedAt "") job.val us db₁ = _ := hget_eq hpopped job
      -- a job without a time counts as put on the queue now
      have hwas : ((σ.queueEnqueuedAt job).map Nat.repr).getD (us / 1000).repr =
          ((σ.queueEnqueuedAt job).getD (us / 1000)).repr := by
        cases σ.queueEnqueuedAt job <;> rfl
      rw [Option.map_some]
      dsimp only
      rw [Script.bind_eq nowMillis_eq, Script.bind_eq hget, hwas, Script.bind_eq (tonumber_repr _),
        Script.bind_eq hdel, Script.bind_eq hlength, Script.bind_eq hmove,
        Script.bind_eq (tonumber_repr _), Script.bind_eq hadd]
      refine ⟨?_, hleased⟩
      have hwait : max 0 (((us / 1000 : ℕ) : ℤ) - ((σ.queueEnqueuedAt job).getD (us / 1000) : ℕ)) =
          ((us / 1000 - (σ.queueEnqueuedAt job).getD (us / 1000) : ℕ) : ℤ) := by
        omega
      rw [hwait]
      rfl

theorem exists_setNXEX (us : ℕ) (h : Held format db (withScheduler s σ)) (rest : String)
    (httl : 0 < ttl) :
    (σ.keyLive (keyOf .queueIdempotency rest) (us / 1000) = true ∧
      setNXEX (keyOf .queueIdempotency rest) "1" ttl us db = (.ok false, db)) ∨
    (σ.keyLive (keyOf .queueIdempotency rest) (us / 1000) = false ∧
      ∃ db', setNXEX (keyOf .queueIdempotency rest) "1" ttl us db = (.ok true, db') ∧
        Held format db' (withScheduler s { σ with
          idempotencyKeys := Function.update σ.idempotencyKeys (keyOf .queueIdempotency rest)
            (some (us / 1000 + 1000 * ttl)) })) := by
  have hlook : db.lookup (keyOf .queueIdempotency rest) =
      (σ.idempotencyKeys (keyOf .queueIdempotency rest)).map fun t => ⟨.string "1", some t⟩ :=
    h .queueIdempotency rest
  have hexpire : expire (us / 1000) ttl (Value.string "1") =
      some ⟨.string "1", some (us / 1000 + 1000 * ttl)⟩ := by
    rw [expire, if_neg httl.ne']
  have hnew : fetch (us / 1000) (db.lookup (keyOf .queueIdempotency rest)) = none →
      ∃ db', setNXEX (keyOf .queueIdempotency rest) "1" ttl us db = (.ok true, db') ∧
        Held format db' (withScheduler s { σ with
          idempotencyKeys := Function.update σ.idempotencyKeys (keyOf .queueIdempotency rest)
            (some (us / 1000 + 1000 * ttl)) }) := by
    intro hgone
    have hset := setNXEX_new httl.ne' hgone "1"
    rw [hexpire] at hset
    exact ⟨_, hset, held_idempotencyKey h rest _⟩
  unfold State.keyLive
  cases hkey : σ.idempotencyKeys (keyOf .queueIdempotency rest) with
  | none =>
    rw [hkey] at hlook
    exact Or.inr ⟨rfl, hnew (by rw [hlook]; rfl)⟩
  | some t =>
    rw [hkey, Option.map_some] at hlook
    by_cases hlive : us / 1000 ≤ t
    · have hfound : fetch (us / 1000) (db.lookup (keyOf .queueIdempotency rest)) =
          some (.string "1") := by
        rw [hlook, fetch_until, if_pos hlive]
      exact Or.inl ⟨by simp [hlive], setNXEX_old httl.ne' hfound "1"⟩
    · exact Or.inr ⟨by simp [hlive], hnew (by rw [hlook, fetch_until, if_neg hlive])⟩

theorem enqueueScript_runs (us : ℕ) (args : Args) (job : JobID) (user : UserID) (ttl capacity : ℕ)
    {rest : String} (h : Held format db (withScheduler s σ))
    (hkey : args.key 1 = keyOf .queueIdempotency rest) (hkey₂ : args.key 2 = keyOf .queue user.val)
    (hkey₃ : args.key 3 = keyOf .activeUsers "") (hkey₄ : args.key 4 = keyOf .rotationSequence "")
    (hkey₅ : args.key 5 = keyOf .queueEnqueuedAt "") (hjob : args.arg 1 = job.val)
    (httl : args.arg 2 = ttl.repr) (hcapacity : args.arg 3 = capacity.repr)
    (huser : args.arg 4 = user.val) (hpos : 0 < ttl) (hrotation : σ.rotationSeq + 1 < 2 ^ 63) :
    Runs format s (enqueueScript args us db)
      (Scheduler.enqueueScript (keyOf .queueIdempotency rest) job ttl capacity user (us / 1000) σ).1
      (.array [.int (Scheduler.enqueueScript (keyOf .queueIdempotency rest) job ttl capacity user
        (us / 1000) σ).2]) := by
  rw [enqueueScript, hkey, hkey₂, hkey₃, hkey₄, hkey₅, hjob, httl, hcapacity, huser,
    Script.bind_eq (llen_eq h user), Script.bind_eq (tonumber_repr _)]
  unfold Scheduler.enqueueScript
  by_cases hfull : capacity ≤ (σ.queue user).length
  · rw [if_pos hfull]
    dsimp only
    rw [if_pos hfull]
    exact ⟨rfl, h⟩
  · rw [if_neg hfull, Script.bind_eq (tonumber_repr _)]
    dsimp only
    rw [if_neg hfull]
    rcases exists_setNXEX us h rest hpos with ⟨hlive, hset⟩ | ⟨hlive, db₁, hset, hkeyed⟩
    · rw [if_pos hlive, Script.bind_eq hset]
      exact ⟨rfl, h⟩
    · obtain ⟨n, db₂, hpush, hpushed⟩ := exists_lpush us hkeyed user job
      obtain ⟨db₃, hstamp, hstamped⟩ := exists_stamp us hpushed job (us / 1000)
      obtain ⟨db₄, db₅, hincr, hadd, hactive⟩ :=
        exists_activate us hstamped user hrotation
      rw [hlive, if_neg Bool.false_ne_true, Script.bind_eq hset, if_pos rfl,
        Script.bind_eq nowMillis_eq, Script.bind_eq hpush, Script.bind_eq hstamp]
      split
      · rw [Script.bind_eq hincr, Script.bind_eq hadd]
        exact ⟨rfl, hactive⟩
      · exact ⟨rfl, hstamped⟩

theorem sismember_eq (h : Held format db (withScheduler s σ)) (job : JobID) :
    sismember (keyOf .completedJobs "") job.val us db =
      (.ok (if job ∈ σ.completedJobs then 1 else 0), db) := by
  rw [(markers_held h).sismember_eq]
  simp only [Ident.val_injective.mem_finset_image]

theorem lpos_eq (us : ℕ) (h : Held format db (withScheduler s σ)) (user : UserID) (job : JobID) :
    ∃ found, lpos (keyOf .queue user.val) job.val us db = (.ok found, db) ∧
      (found.isSome ↔ job ∈ σ.queue user) := by
  refine ⟨_, (queue_held h user).lpos_eq job.val, ?_⟩
  rw [List.isSome_idxOf?, List.mem_map_of_injective Ident.val_injective]

theorem enqueueOrphanScript_runs (us : ℕ) (args : Args) (job : JobID) (user : UserID)
    (capacity : ℕ) (h : Held format db (withScheduler s σ))
    (hkey : args.key 1 = keyOf .completedJobs "") (hkey₂ : args.key 2 = keyOf .processingJobs "")
    (hkey₃ : args.key 3 = keyOf .queue user.val) (hkey₄ : args.key 4 = keyOf .activeUsers "")
    (hkey₅ : args.key 5 = keyOf .rotationSequence "")
    (hkey₆ : args.key 6 = keyOf .queueEnqueuedAt "") (hjob : args.arg 1 = job.val)
    (huser : args.arg 2 = user.val) (hcapacity : args.arg 3 = capacity.repr)
    (hrotation : σ.rotationSeq + 1 < 2 ^ 63) :
    Runs format s (enqueueOrphanScript args us db)
      (Scheduler.enqueueOrphanScript job user capacity (us / 1000) σ).1
      (.int (Scheduler.enqueueOrphanScript job user capacity (us / 1000) σ).2) := by
  obtain ⟨found, hpos, hfound⟩ := lpos_eq us h user job
  rw [enqueueOrphanScript, hkey, hkey₂, hkey₃, hkey₄, hkey₅, hkey₆, hjob, huser, hcapacity,
    Script.bind_eq (sismember_eq h job)]
  unfold Scheduler.enqueueOrphanScript
  by_cases hmarked : job ∈ σ.completedJobs
  · rw [if_pos hmarked, if_pos rfl, if_pos hmarked]
    exact ⟨rfl, h⟩
  rw [if_neg hmarked, if_neg (by decide), if_neg hmarked, Script.bind_eq (zscore_eq h job),
    Option.isSome_map]
  by_cases hleased : (σ.processingJobs.zscore job).isSome
  · rw [if_pos hleased, if_pos hleased]
    exact ⟨rfl, h⟩
  rw [if_neg hleased, if_neg hleased, Script.bind_eq hpos]
  by_cases hwaits : job ∈ σ.queue user
  · rw [if_pos (hfound.mpr hwaits), if_pos hwaits]
    exact ⟨rfl, h⟩
  rw [if_neg (mt hfound.mp hwaits), if_neg hwaits, Script.bind_eq (tonumber_repr _),
    Script.bind_eq (llen_eq h user)]
  by_cases hfull : capacity ≤ (σ.queue user).length
  · rw [if_pos hfull, if_pos hfull]
    exact ⟨rfl, h⟩
  obtain ⟨n, db₁, hpush, hpushed⟩ := exists_lpush us h user job
  obtain ⟨db₂, hstamp, hstamped⟩ := exists_stamp us hpushed job (us / 1000)
  obtain ⟨db₃, db₄, hincr, hadd, hactive⟩ := exists_activate us hstamped user hrotation
  rw [if_neg hfull, if_neg hfull, Script.bind_eq (llen_eq h user), Script.bind_eq hpush,
    Script.bind_eq nowMillis_eq, Script.bind_eq hstamp]
  dsimp only
  split
  · rw [Script.bind_eq hincr, Script.bind_eq hadd]
    exact ⟨rfl, hactive⟩
  · exact ⟨rfl, hstamped⟩

theorem fixed_key (tag : Tag) : tag.text = keyOf tag "" := (String.append_empty).symm

theorem buildJobIdempotencyKey_eq (userID jobID : String) (attempt : ℤ) :
    buildJobIdempotencyKey userID jobID attempt =
      keyOf .queueIdempotency (userID ++ ":" ++ jobID ++ ":" ++ toString attempt) := by
  unfold buildJobIdempotencyKey keyOf Tag.text
  simp only [String.append_assoc]
  rfl

/-- Redis and the scheduler by itself give the same answer and go on to states of which one stands
for the other. -/
def Agrees (format : ℕ → String) (s : Stores) (x : Answer × Db) (y : State × Reply) : Prop :=
  x.1 = answerOf y.2 ∧ Held format x.2 (withScheduler s y.1)

theorem claimNextJob_agrees (h : Held format db (withScheduler s σ)) (w : ℕ)
    (hrotation : σ.rotationSeq + 1 < 2 ^ 63) :
    Agrees format s (call cfg us db (.claimNextJob w))
      (Scheduler.call cfg (us / 1000) σ (.claimNextJob w)) := by
  obtain ⟨hreply, hheld⟩ := fairDequeueScript_runs us
    ⟨[activeUsersKey, processingJobsKey, rotationSequenceKey, queueEnqueuedAtKey],
      [cfg.lease.repr]⟩ cfg.lease h (fixed_key .activeUsers) (fixed_key .processingJobs)
    (fixed_key .rotationSequence) (fixed_key .queueEnqueuedAt) rfl hrotation
  unfold Agrees call claimNextJob Scheduler.call Scheduler.claimNextJob
  dsimp only [Prod.map_fst, Prod.map_snd, Prod.map]
  rw [hreply]
  cases hclaim : Scheduler.fairDequeueScript cfg.lease (us / 1000) σ with
  | mk σ' found =>
    rw [hclaim] at hheld
    match found with
    | none => exact ⟨rfl, hheld⟩
    | some (user, job, wait) =>
      have hnonempty : ¬(user.val = "" ∨ job.val = "") :=
        not_or.mpr ⟨user.nonempty, job.nonempty⟩
      have hread : readClaim (.ok (claimReply (some (user, job, wait)))) =
          .ok (some ⟨user.val, job.val, wait⟩) := if_neg hnonempty
      dsimp only
      rw [hread, if_neg hnonempty]
      exact ⟨rfl, hheld⟩

theorem pushLeft_agrees (h : Held format db (withScheduler s σ)) (e : QueueEntry)
    (hpos : 0 < cfg.idempotencyKeyTTL) (hrotation : σ.rotationSeq + 1 < 2 ^ 63) :
    Agrees format s (call cfg us db (.pushLeft e))
      (Scheduler.call cfg (us / 1000) σ (.pushLeft e)) := by
  have hkey := buildJobIdempotencyKey_eq e.userID.val e.jobID.val e.currentAttempt
  obtain ⟨hreply, hheld⟩ := enqueueScript_runs us
    ⟨[buildJobIdempotencyKey e.userID.val e.jobID.val e.currentAttempt,
        buildQueuePerUserKey e.userID.val, activeUsersKey, rotationSequenceKey,
        queueEnqueuedAtKey],
      [e.jobID.val, cfg.idempotencyKeyTTL.repr, cfg.queueCapacity.repr, e.userID.val]⟩
    e.jobID e.userID cfg.idempotencyKeyTTL cfg.queueCapacity h hkey rfl (fixed_key .activeUsers)
    (fixed_key .rotationSequence) (fixed_key .queueEnqueuedAt) rfl rfl rfl rfl hpos hrotation
  rw [← hkey] at hreply hheld
  unfold Agrees call pushLeft Scheduler.call Scheduler.pushLeft QueueEntry.idempotencyKey
  dsimp only [Prod.map_fst, Prod.map_snd, Prod.map]
  rw [hreply]
  have hdecision : (Scheduler.enqueueScript
      (buildJobIdempotencyKey e.userID.val e.jobID.val e.currentAttempt) e.jobID
      cfg.idempotencyKeyTTL cfg.queueCapacity e.userID (us / 1000) σ).2 ≤ 3 := by
    unfold Scheduler.enqueueScript
    dsimp only
    split_ifs <;> simp
  cases hpush : Scheduler.enqueueScript
      (buildJobIdempotencyKey e.userID.val e.jobID.val e.currentAttempt) e.jobID
      cfg.idempotencyKeyTTL cfg.queueCapacity e.userID (us / 1000) σ with
  | mk σ' decision =>
    rw [hpush] at hheld hdecision
    match decision, hdecision with
    -- the script answers with no other number
    | 0, _ | 1, _ | 2, _ | 3, _ => exact ⟨rfl, hheld⟩

theorem extendProcessingLease_agrees (h : Held format db (withScheduler s σ)) (job : JobID) :
    Agrees format s (call cfg us db (.extendProcessingLease job))
      (Scheduler.call cfg (us / 1000) σ (.extendProcessingLease job)) := by
  obtain ⟨hreply, hheld⟩ := extendLeaseScript_runs us
    ⟨[processingJobsKey], [cfg.lease.repr, job.val]⟩ cfg.lease job h (fixed_key .processingJobs)
    rfl rfl
  unfold Agrees call extendProcessingLease Scheduler.call Scheduler.extendProcessingLease
  dsimp only [Prod.map_fst, Prod.map_snd, Prod.map]
  rw [hreply]
  cases hextend : Scheduler.extendLeaseScript cfg.lease job (us / 1000) σ with
  | mk σ' updated =>
    rw [hextend] at hheld
    dsimp only
    rw [readInt_int]
    by_cases hzero : updated = 0
    · subst hzero
      exact ⟨rfl, hheld⟩
    · dsimp only
      rw [if_neg (by exact_mod_cast hzero), if_neg hzero]
      exact ⟨rfl, hheld⟩

theorem flag_agrees {x : Except Error Resp × Db} {y : State × ℕ} {text : String}
    (h : Runs format s x y.1 (.int y.2)) :
    Agrees format s
      ((x.map (fun n => (readInt text n).map fun m => decide (m = 1)) id).map Answer.flag id)
      (Prod.map id Reply.flag (y.1, decide (y.2 = 1))) := by
  obtain ⟨hreply, hheld⟩ := h
  refine ⟨?_, hheld⟩
  show Answer.flag ((readInt text x.1).map fun m => decide (m = 1)) = .flag (.ok (decide (y.2 = 1)))
  rw [hreply, readInt_int]
  dsimp only [Except.map]
  congr 3
  exact propext (by exact_mod_cast Iff.rfl)

theorem removeIfExpired_agrees (h : Held format db (withScheduler s σ)) (job : JobID) (cutoff : ℕ) :
    Agrees format s (call cfg us db (.removeIfExpired job cutoff))
      (Scheduler.call cfg (us / 1000) σ (.removeIfExpired job cutoff)) := by
  have hrun := removeExpiredScript_runs us
    ⟨[processingJobsKey, queueEnqueuedAtKey], [job.val, cutoff.repr]⟩ job cutoff h
    (fixed_key .processingJobs) (fixed_key .queueEnqueuedAt) rfl rfl
  exact flag_agrees hrun

theorem requeueIfExpired_agrees (h : Held format db (withScheduler s σ)) (job : JobID)
    (user : UserID) (cutoff : ℕ) (hrotation : σ.rotationSeq + 1 < 2 ^ 63) :
    Agrees format s (call cfg us db (.requeueIfExpired job user cutoff))
      (Scheduler.call cfg (us / 1000) σ (.requeueIfExpired job user cutoff)) := by
  have hrun := requeueExpiredScript_runs us
    ⟨[processingJobsKey, activeUsersKey, buildQueuePerUserKey user.val, rotationSequenceKey],
      [job.val, user.val, cutoff.repr]⟩ job user cutoff h (fixed_key .processingJobs)
    (fixed_key .activeUsers) rfl (fixed_key .rotationSequence) rfl rfl rfl hrotation
  exact flag_agrees hrun

theorem enqueueIfAbsent_agrees (h : Held format db (withScheduler s σ)) (job : JobID)
    (user : UserID) (capacity : ℕ) (hrotation : σ.rotationSeq + 1 < 2 ^ 63) :
    Agrees format s (call cfg us db (.enqueueIfAbsent job user capacity))
      (Scheduler.call cfg (us / 1000) σ (.enqueueIfAbsent job user capacity)) := by
  have hrun := enqueueOrphanScript_runs us
    ⟨[completedJobsKey, processingJobsKey, buildQueuePerUserKey user.val, activeUsersKey,
      rotationSequenceKey, queueEnqueuedAtKey], [job.val, user.val, capacity.repr]⟩
    job user capacity h
    (fixed_key .completedJobs) (fixed_key .processingJobs) rfl (fixed_key .activeUsers)
    (fixed_key .rotationSequence) (fixed_key .queueEnqueuedAt) rfl rfl rfl hrotation
  exact flag_agrees hrun

theorem releaseProcessingJob_agrees (h : Held format db (withScheduler s σ)) (job : JobID) :
    Agrees format s (call cfg us db (.releaseProcessingJob job))
      (Scheduler.call cfg (us / 1000) σ (.releaseProcessingJob job)) := by
  obtain ⟨db', hrem, hheld⟩ := exists_release us h job
  have hkey : processingJobsKey = keyOf .processingJobs "" := fixed_key .processingJobs
  have hcall : releaseProcessingJob us db job.val =
      (if (σ.processingJobs.zscore job).isSome then .ok ()
        else .error (.text "jobID not found"), db') := by
    rw [releaseProcessingJob, hkey, hrem]
    cases σ.processingJobs.zscore job <;> rfl
  show Agrees format s (Prod.map Answer.done id (releaseProcessingJob us db job.val))
    (Prod.map id Reply.done (Scheduler.releaseProcessingJob job σ))
  rw [hcall]
  unfold Scheduler.releaseProcessingJob
  cases hscore : σ.processingJobs.zscore job with
  | none =>
    rw [SortedSet.zrem_of_none hscore] at hheld
    exact ⟨rfl, hheld⟩
  | some k => exact ⟨rfl, hheld⟩

theorem markJobCompleted_agrees (h : Held format db (withScheduler s σ)) (job : JobID) :
    Agrees format s (call cfg us db (.markJobCompleted job))
      (Scheduler.call cfg (us / 1000) σ (.markJobCompleted job)) := by
  have hkey : completedJobsKey = keyOf .completedJobs "" := fixed_key .completedJobs
  have hheld := held_completedJobs h (insert job σ.completedJobs)
  rw [Finset.image_insert] at hheld
  show Agrees format s (Prod.map Answer.done id (markJobCompleted us db job.val))
    (Scheduler.markJobCompleted job σ, .done (.ok ()))
  rw [markJobCompleted, hkey, (markers_held h).sadd_eq]
  exact ⟨rfl, hheld⟩

theorem removeCompletedJob_agrees (h : Held format db (withScheduler s σ)) (job : JobID) :
    Agrees format s (call cfg us db (.removeCompletedJob job))
      (Scheduler.call cfg (us / 1000) σ (.removeCompletedJob job)) := by
  have hkey : completedJobsKey = keyOf .completedJobs "" := fixed_key .completedJobs
  have hheld := held_completedJobs h (σ.completedJobs.erase job)
  rw [Finset.image_erase Ident.val_injective] at hheld
  show Agrees format s (Prod.map Answer.done id (removeCompletedJob us db job.val))
    (Scheduler.removeCompletedJob job σ, .done (.ok ()))
  rw [removeCompletedJob, hkey, (markers_held h).srem_eq]
  exact ⟨rfl, hheld⟩

theorem expiredJobIDs_eq (h : Held format db (withScheduler s σ)) (cutoff : ℕ) {limit : ℕ}
    (hlimit : 0 < limit) :
    expiredJobIDs us db cutoff limit =
      (.ok ((Scheduler.expiredJobIDs cutoff limit σ).map Ident.val), db) := by
  obtain ⟨z, hz, hrenders⟩ := h .processingJobs
  have hkey : processingJobsKey = keyOf .processingJobs "" := fixed_key .processingJobs
  rw [expiredJobIDs, hkey, if_neg hlimit.ne', hz.zrangeByScore_eq,
    hrenders.zrangeByScore val_strictMono]
  rfl

theorem completedJobIDs_eq (h : Held format db (withScheduler s σ)) :
    completedJobIDs us db = (.ok (σ.completedJobs.image Ident.val), db) := by
  have hkey : completedJobsKey = keyOf .completedJobs "" := fixed_key .completedJobs
  rw [completedJobIDs, hkey, smembers, (markers_held h).read_eq]
  rfl

/-- Every method does to Redis what it does to the scheduler by itself, and answers the same. -/
theorem call_agrees (h : Held format db (withScheduler s σ)) (hpos : 0 < cfg.idempotencyKeyTTL)
    (hrotation : σ.rotationSeq + 1 < 2 ^ 63) (op : Op) :
    Agrees format s (call cfg us db op) (Scheduler.call cfg (us / 1000) σ op) := by
  cases op with
  | pushLeft e => exact pushLeft_agrees h e hpos hrotation
  | claimNextJob w => exact claimNextJob_agrees h w hrotation
  | requeueIfExpired job user cutoff => exact requeueIfExpired_agrees h job user cutoff hrotation
  | removeIfExpired job cutoff => exact removeIfExpired_agrees h job cutoff
  | enqueueIfAbsent job user capacity => exact enqueueIfAbsent_agrees h job user capacity hrotation
  | extendProcessingLease job => exact extendProcessingLease_agrees h job
  | releaseProcessingJob job => exact releaseProcessingJob_agrees h job
  | markJobCompleted job => exact markJobCompleted_agrees h job
  | removeCompletedJob job => exact removeCompletedJob_agrees h job

end InferenceQueue.RedisScheduler

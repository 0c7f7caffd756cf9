import InferenceQueue.SubmissionScripts

namespace InferenceQueue.RedisSubmission

open Redis RedisServer Idempotency

variable {format : ℕ → String} {parse : String → Except GoError ℕ} {us now ttl : ℕ} {db : Db}
  {s : Stores} {i : Idempotency.Store} {c : Coalescing.Store} {rest : String}
  {e : Option (Volatile Value)}

def withIdempotency (s : Stores) (i : Idempotency.Store) : Stores := { s with idempotency := i }

def withCoalescing (s : Stores) (c : Coalescing.Store) : Stores := { s with coalescing := c }

theorem held_record {v : Option (Volatile Record)} (h : Held format db (withIdempotency s i))
    (rest : String) (hv : RecordHeld format e v) :
    Held format (db.put (keyOf .record rest) e)
      (withIdempotency s { i with records := i.records.put (keyOf .record rest) v }) := by
  refine h.put (fun tag hne hheld => ?_) fun rest' => ?_
  · cases tag <;> first | exact absurd rfl hne | exact hheld
  · show RecordHeld format _ ((i.records.put (keyOf .record rest) v).lookup _)
    rw [Keyspace.lookup_put, Keyspace.lookup_put]
    split_ifs
    · exact hv
    · exact h .record rest'

def linkEntry (v : Option (Volatile String)) : Option (Volatile Value) :=
  v.map fun v => ⟨.string v.value, v.expiresAt⟩

theorem reverseKeyOf_eq (jobID : JobID) :
    reverseKeyOf jobID = keyOf .link (jobID.val ++ ":IdempotencyKey") := String.append_assoc

theorem reverseKeyOf_inj {j j' : JobID} : reverseKeyOf j = reverseKeyOf j' ↔ j = j' := by
  constructor
  · intro h
    rw [reverseKeyOf_eq, reverseKeyOf_eq] at h
    have hlists := congrArg String.toList (keyOf_inj.mp h).2
    rw [String.toList_append, String.toList_append] at hlists
    exact Ident.val_injective (String.toList_inj.mp (List.append_cancel_right hlists))
  · rintro rfl
    rfl

theorem held_link {v : Option (Volatile String)} (h : Held format db (withIdempotency s i))
    (j : JobID) (htarget : ∀ v', v = some v' → ∃ rest, v'.value = keyOf .record rest) :
    Held format (db.put (reverseKeyOf j) (linkEntry v))
      (withIdempotency s { i with links := i.links.put j v }) := by
  rw [reverseKeyOf_eq]
  refine h.put (fun tag hne hheld => ?_) fun j' => ?_
  · cases tag <;> first | exact absurd rfl hne | exact hheld
  · show _ = ((i.links.put j v).lookup j').map _ ∧ ∀ v', (i.links.put j v).lookup j' = some v' → _
    rw [Keyspace.lookup_put, Keyspace.lookup_put, ← reverseKeyOf_eq, ← reverseKeyOf_eq]
    by_cases heq : j' = j
    · rw [if_pos (reverseKeyOf_inj.mpr heq), if_pos heq]
      exact ⟨rfl, htarget⟩
    · rw [if_neg (mt reverseKeyOf_inj.mp heq), if_neg heq, reverseKeyOf_eq]
      exact h .link j'

theorem held_coalescing {v : Option (Volatile ℕ)} (h : Held format db (withCoalescing s c))
    (rest : String) :
    Held format
      (db.put (keyOf .coalescing rest) (v.map fun v => ⟨.string (format v.value), v.expiresAt⟩))
      (withCoalescing s (c.put (keyOf .coalescing rest) v)) := by
  refine h.put (fun tag hne hheld => ?_) fun rest' => ?_
  · cases tag <;> first | exact absurd rfl hne | exact hheld
  · show _ = ((c.put (keyOf .coalescing rest) v).lookup _).map _
    rw [Keyspace.lookup_put, Keyspace.lookup_put]
    split_ifs
    · rfl
    · exact h .coalescing rest'

theorem statusText_statusOf (text : String) : statusText (statusOf text) = text := by
  unfold statusOf
  split_ifs with h₁ h₂ h₃
  · exact h₁.symm
  · exact h₂.symm
  · exact h₃.symm
  · rfl

theorem statusText_eq_inFlight {status : RecordStatus}
    (h : statusOf (statusText status) = status) :
    statusText status = "in_flight" ↔ status = .inFlight := by
  -- the scripts tell the status of a record from its text
  constructor
  · intro htext
    rw [htext] at h
    exact h.symm
  · rintro rfl
    rfl

def nameOf (status : String) : String :=
  if some status = some "in_flight" then "DUPLICATE_IN_FLIGHT"
  else if some status = some "completed" then "REPLAY"
  else if some status = some "failed" then "FAILED"
  else "UNKNOWN_STATE"

theorem actionNamed_nameOf {status : RecordStatus} (h : statusOf (statusText status) = status) :
    actionNamed (nameOf (statusText status)) = some status.action := by
  cases status with
  | inFlight | completed | failed => rfl
  | other text =>
    have hnot : text ≠ "in_flight" ∧ text ≠ "completed" ∧ text ≠ "failed" := by
      refine ⟨?_, ?_, ?_⟩ <;>
        · rintro rfl
          cases h
    have hname : nameOf text = "UNKNOWN_STATE" := by
      simp [nameOf, hnot]
    show actionNamed (nameOf text) = _
    rw [hname]
    rfl

theorem fieldOf_insert_jobID {r : Record} {h : Hash} (j : JobID)
    (hfields : ∀ field, h.lookup field = fieldOf format r field) (field : String) :
    (h.insert "job_id" j.val).lookup field = fieldOf format { r with jobID := some j } field := by
  by_cases heq : field = "job_id"
  · rw [heq, Finmap.lookup_insert]
    rfl
  · rw [Finmap.lookup_insert_of_ne _ heq, hfields]
    simp [fieldOf, heq]

theorem fieldOf_insert_status {r : Record} {h : Hash} (status : String) (now : ℕ)
    (hfields : ∀ field, h.lookup field = fieldOf format r field) (field : String) :
    ((h.insert "status" status).insert "completed_at" (format now)).lookup field =
      fieldOf format { r with status := statusOf status, completedAt := some now } field := by
  by_cases heq : field = "completed_at"
  · rw [heq, Finmap.lookup_insert]
    rfl
  · rw [Finmap.lookup_insert_of_ne _ heq]
    by_cases heq' : field = "status"
    · rw [heq', Finmap.lookup_insert]
      exact congrArg some (statusText_statusOf status).symm
    · rw [Finmap.lookup_insert_of_ne _ heq', hfields]
      simp [fieldOf, heq, heq']

theorem fieldOf_new (now : ℕ) (field : String) :
    (((∅ : Hash).insert "status" "in_flight").insert "created_at" (format now)).lookup field =
      fieldOf format ⟨.inFlight, now, none, none⟩ field := by
  by_cases heq : field = "created_at"
  · rw [heq, Finmap.lookup_insert]
    rfl
  · rw [Finmap.lookup_insert_of_ne _ heq]
    by_cases heq' : field = "status"
    · rw [heq', Finmap.lookup_insert]
      rfl
    · rw [Finmap.lookup_insert_of_ne _ heq', Finmap.lookup_empty]
      simp [fieldOf, heq, heq']

theorem seconds_eq (us : ℕ) : us / 1000000 = us / 1000 / 1000 :=
  (Nat.div_div_eq_div_mul us 1000 1000).symm

theorem recordHeld_expire (now ttl : ℕ) {r : Record} {f : Hash}
    (hstatus : statusOf (statusText r.status) = r.status)
    (hfields : ∀ field, f.lookup field = fieldOf format r field) :
    RecordHeld format (expire now ttl (.hash f)) (expire now ttl r) := by
  unfold expire
  split_ifs
  · rfl
  · exact ⟨hstatus, f, rfl, hfields⟩

theorem record_cases (h : Held format db (withIdempotency s i)) (rest : String) (now : ℕ) :
    (i.records.get now (keyOf .record rest) = none ∧
      fetch now (db.lookup (keyOf .record rest)) = none) ∨
    ∃ v f, i.records.lookup (keyOf .record rest) = some v ∧ v.Live now ∧
      statusOf (statusText v.value.status) = v.value.status ∧
      db.lookup (keyOf .record rest) = some ⟨.hash f, v.expiresAt⟩ ∧
      ∀ field, f.lookup field = fieldOf format v.value field := by
  have hheld : RecordHeld format (db.lookup (keyOf .record rest))
      (i.records.lookup (keyOf .record rest)) := h .record rest
  unfold Keyspace.get
  cases hv : i.records.lookup (keyOf .record rest) with
  | none =>
    rw [hv] at hheld
    rw [show db.lookup (keyOf .record rest) = none from hheld]
    exact Or.inl ⟨rfl, rfl⟩
  | some v =>
    rw [hv] at hheld
    obtain ⟨hstatus, f, hf, hfields⟩ := hheld
    by_cases hlive : v.Live now
    · exact Or.inr ⟨v, f, rfl, hlive, hstatus, hf, hfields⟩
    · -- it is still stored on both sides, but no command sees it
      rw [hf]
      exact Or.inl ⟨if_neg hlive, if_neg hlive⟩

theorem get_of_live {v : Volatile Record} (hv : i.records.lookup (keyOf .record rest) = some v)
    (hlive : v.Live now) : i.records.get now (keyOf .record rest) = some v.value :=
  fetch_some.mpr ⟨v, hv, hlive, rfl⟩

theorem buildIdempotencyKey_eq (userID : UserID) (header : String) :
    buildIdempotencyKey userID header = keyOf .record (userID.val ++ ":inference:" ++ header) := by
  unfold buildIdempotencyKey keyOf Tag.text
  simp only [String.append_assoc]

def recordReply (format : ℕ → String) (now : ℕ) : Option Record → Resp
  | none => .array [.bulk "NEW", .bulk "in_flight", .bulk (format (now / 1000)), .bulk ""]
  | some r => .array [.bulk (nameOf (statusText r.status)), .bulk (statusText r.status),
      .bulk (format r.createdAt), .bulk ((r.jobID.map Ident.val).getD "")]

theorem idempotencyScript_new (args : Args) {k : String} (hkey : args.key 1 = k)
    (httl : args.arg 1 = ttl.repr) (hnow : args.arg 2 = format (us / 1000 / 1000))
    (hgone : fetch (us / 1000) (db.lookup k) = none) :
    idempotencyScript args us db = (.ok (recordReply format (us / 1000) none),
      db.put k (expire (us / 1000) ttl (.hash
        (((∅ : Hash).insert "status" "in_flight").insert "created_at"
          (format (us / 1000 / 1000)))))) := by
  have hwrite : hset k [("status", "in_flight"), ("created_at", format (us / 1000 / 1000))] us db =
      (.ok (), db.put k (some ⟨.hash _, none⟩)) := hset_gone hgone rfl (insert_ne_empty _ _ _)
  rw [idempotencyScript, hkey, httl, hnow, Script.bind_eq (tonumber_repr _),
    Script.bind_eq (present_gone hgone), if_pos rfl, Script.bind_eq hwrite,
    Script.bind_eq (expireIn_put _ (by simp [Volatile.Live]) _)]
  rfl

theorem idempotencyScript_found (args : Args) {k : String} {f : Hash} {v : Volatile Record}
    (hkey : args.key 1 = k) (httl : args.arg 1 = ttl.repr) (hlive : v.Live (us / 1000))
    (hk : db.lookup k = some ⟨.hash f, v.expiresAt⟩)
    (hfields : ∀ field, f.lookup field = fieldOf format v.value field) :
    idempotencyScript args us db = (.ok (recordReply format (us / 1000) (some v.value)), db) := by
  have hread : ∀ field, hget k field us db = (.ok (f.lookup field), db) := hget_live hk hlive
  rw [idempotencyScript, hkey, httl, Script.bind_eq (tonumber_repr _),
    Script.bind_eq (present_live hk hlive), if_neg one_ne_zero, Script.bind_eq (hread _),
    Script.bind_eq (hread _), Script.bind_eq (hread _), hfields, hfields, hfields]
  rfl

def recordResult (expiresIn now : ℕ) : Option Record → RedisSubmission.IdempotencyResult
  | none => ⟨.new, "in_flight", "", now / 1000, now / 1000 + expiresIn, none⟩
  | some r => ⟨r.status.action, statusText r.status, (r.jobID.map Ident.val).getD "", r.createdAt,
      r.createdAt + expiresIn, r.status.action.err⟩

theorem readRecord_recordReply (hparse : ∀ n, parse (format n) = .ok n) (expiresIn : ℕ)
    (found : Option Record)
    (hstatus : ∀ r ∈ found, statusOf (statusText r.status) = r.status) :
    readRecord parse expiresIn (.ok (recordReply format now found)) =
      .ok (recordResult expiresIn now found) := by
  cases found with
  | none =>
    unfold recordReply readRecord
    simp only [result, textOf, hparse]
    rfl
  | some r =>
    unfold recordReply readRecord
    simp only [result, textOf, hparse, actionNamed_nameOf (hstatus r rfl)]
    rfl

theorem claimOrGet_agrees (h : Held format db (withIdempotency s i))
    (hparse : ∀ n, parse (format n) = .ok n) (userID : UserID) (header : String) (ttl : ℕ) :
    (claimOrGet format parse us db userID header ttl).1 = .ok (recordResult ttl (us / 1000)
        (i.records.get (us / 1000) (buildIdempotencyKey userID header))) ∧
      Held format (claimOrGet format parse us db userID header ttl).2
        (withIdempotency s (Idempotency.claimOrGet (us / 1000) userID header ttl i).2) := by
  have hkey := buildIdempotencyKey_eq userID header
  unfold claimOrGet
  rcases record_cases h (userID.val ++ ":inference:" ++ header) (us / 1000) with
    ⟨hnone, hgone⟩ | ⟨v, f, hv, hlive, hstatus, hk, hfields⟩
  · rw [← hkey] at hnone
    have hscript := idempotencyScript_new
      ⟨[buildIdempotencyKey userID header], [ttl.repr, format (us / 1000000)]⟩ hkey rfl
      (congrArg format (seconds_eq us)) hgone
    rw [hscript, hnone, Idempotency.claimOrGet_of_none hnone, hkey]
    refine ⟨readRecord_recordReply hparse ttl none (by simp), ?_⟩
    exact held_record h _ (recordHeld_expire _ _ rfl (fieldOf_new _))
  · have hsome := get_of_live hv hlive
    rw [← hkey] at hsome
    have hscript := idempotencyScript_found
      ⟨[buildIdempotencyKey userID header], [ttl.repr, format (us / 1000000)]⟩ hkey rfl hlive hk
      hfields
    rw [hscript, hsome, Idempotency.claimOrGet_of_some hsome]
    refine ⟨readRecord_recordReply hparse ttl (some v.value) ?_, h⟩
    rintro r ⟨rfl⟩
    exact hstatus

def doneOf : Option GoError → Except GoError Unit
  | none => .ok ()
  | some err => .error err

theorem record_ne_link (rest : String) (j : JobID) : keyOf .record rest ≠ reverseKeyOf j := by
  rw [reverseKeyOf_eq]
  intro heq
  cases (keyOf_inj.mp heq).1

/-- The record gets the id, and the reverse key the TTL that the record has left. -/
theorem setJobIDScript_found (args : Args) (j : JobID) {f : Hash} {v : Volatile Record}
    (hkey : args.key 1 = keyOf .record rest) (hkey₂ : args.key 2 = reverseKeyOf j)
    (hjob : args.arg 1 = j.val) (hlive : v.Live (us / 1000))
    (hk : db.lookup (keyOf .record rest) = some ⟨.hash f, v.expiresAt⟩) :
    setJobIDScript args us db = (.ok (.int 1),
      (db.put (keyOf .record rest) (some ⟨.hash (f.insert "job_id" j.val), v.expiresAt⟩)).put
        (reverseKeyOf j)
        (linkEntry (some ⟨keyOf .record rest, linkExpiry (us / 1000) v⟩))) := by
  obtain ⟨db₁, hdb₁⟩ : ∃ db₁, db₁ = db.put (keyOf .record rest)
      (some ⟨.hash (f.insert "job_id" j.val), v.expiresAt⟩) := ⟨_, rfl⟩
  have hwrite : hset (keyOf .record rest) [("job_id", j.val)] us db = (.ok (), db₁) := by
    rw [hdb₁]
    exact hset_live hk hlive rfl (insert_ne_empty _ _ _)
  have hset : set (reverseKeyOf j) (keyOf .record rest) us db₁ =
      (.ok (), db₁.put (reverseKeyOf j) (some ⟨.string (keyOf .record rest), none⟩)) := rfl
  have hread : (db₁.put (reverseKeyOf j) (some ⟨.string (keyOf .record rest), none⟩)).lookup
      (keyOf .record rest) = some ⟨.hash (f.insert "job_id" j.val), v.expiresAt⟩ := by
    rw [Keyspace.lookup_put, if_neg (record_ne_link rest j), hdb₁, Keyspace.lookup_put, if_pos rfl]
  have hleft : RedisServer.ttl (keyOf .record rest) us (db₁.put (reverseKeyOf j) _) =
      (.ok ((v.ttl (us / 1000)).elim (-1) (↑·)), _) := ttl_live hread hlive
  rw [setJobIDScript, hkey, hkey₂, hjob, Script.bind_eq (present_live hk hlive),
    if_neg one_ne_zero, Script.bind_eq hwrite, Script.bind_eq hset, Script.bind_eq hleft, ← hdb₁]
  unfold linkExpiry
  cases v.ttl (us / 1000) with
  | none => rfl
  | some n =>
    rw [Option.elim_some]
    dsimp only
    by_cases hpos : 0 < n
    · rw [if_pos hpos, if_pos (by exact_mod_cast hpos), Int.toNat_natCast,
        Script.bind_eq (expireIn_put _ (by simp [Volatile.Live]) _), expire, if_neg (by omega)]
      rfl
    · -- a TTL that rounds to 0 leaves the reverse key without an expiry
      rw [if_neg hpos, if_neg (by exact_mod_cast hpos)]
      rfl

theorem setJobIDScript_agrees (us : ℕ) (args : Args) (j : JobID)
    (h : Held format db (withIdempotency s i)) (hkey : args.key 1 = keyOf .record rest)
    (hkey₂ : args.key 2 = reverseKeyOf j) (hjob : args.arg 1 = j.val) :
    (setJobIDScript args us db).1 =
        .ok (.int (if (Idempotency.setJobIDScript (us / 1000) (keyOf .record rest) j i).1
          then 1 else 0)) ∧
      Held format (setJobIDScript args us db).2
        (withIdempotency s
          (Idempotency.setJobIDScript (us / 1000) (keyOf .record rest) j i).2) := by
  rcases record_cases h rest (us / 1000) with
    ⟨hnone, hgone⟩ | ⟨v, f, hv, hlive, hstatus, hk, hfields⟩
  · have hscript :
        Idempotency.setJobIDScript (us / 1000) (keyOf .record rest) j i = (false, i) := by
      rcases setJobIDScript_cases (us / 1000) (keyOf .record rest) j i with
        ⟨-, hsame⟩ | ⟨v, hv, hlive, -⟩
      · exact hsame
      · rw [get_of_live hv hlive] at hnone
        cases hnone
    rw [setJobIDScript, hkey, Script.bind_eq (present_gone hgone), if_pos rfl, hscript]
    exact ⟨rfl, h⟩
  · have hscript : Idempotency.setJobIDScript (us / 1000) (keyOf .record rest) j i =
        (true, ⟨i.records.put (keyOf .record rest) (some (v.set { v.value with jobID := some j })),
          i.links.put j (some ⟨keyOf .record rest, linkExpiry (us / 1000) v⟩)⟩) := by
      unfold Idempotency.setJobIDScript
      rw [hv]
      exact if_pos hlive
    have hrecord := held_record (e := some ⟨.hash (f.insert "job_id" j.val), v.expiresAt⟩)
      (v := some (v.set { v.value with jobID := some j })) h rest
      ⟨hstatus, _, rfl, fieldOf_insert_jobID j hfields⟩
    have hlinked := held_link (v := some ⟨keyOf .record rest, linkExpiry (us / 1000) v⟩) hrecord j
      (by rintro v' ⟨rfl⟩; exact ⟨rest, rfl⟩)
    rw [setJobIDScript_found args j hkey hkey₂ hjob hlive hk, hscript]
    exact ⟨rfl, hlinked⟩

theorem setJobID_agrees (h : Held format db (withIdempotency s i)) (userID : UserID)
    (header : String) (j : JobID) :
    (setJobID us db userID header j).1 =
        doneOf (Idempotency.setJobID (us / 1000) userID header j i).1 ∧
      Held format (setJobID us db userID header j).2
        (withIdempotency s (Idempotency.setJobID (us / 1000) userID header j i).2) := by
  have hkey := buildIdempotencyKey_eq userID header
  obtain ⟨hreply, hheld⟩ := setJobIDScript_agrees us
    ⟨[buildIdempotencyKey userID header, reverseKeyOf j], [j.val]⟩ j h hkey rfl rfl
  rw [← hkey] at hreply hheld
  refine ⟨?_, hheld⟩
  unfold setJobID Idempotency.setJobID
  dsimp only [Prod.map]
  rw [hreply, readInt_int]
  cases (Idempotency.setJobIDScript (us / 1000) (buildIdempotencyKey userID header) j i).1 <;> rfl

theorem delete_agrees (h : Held format db (withIdempotency s i)) (userID : UserID)
    (header : String) :
    (delete us db userID header).1 = .ok () ∧
      Held format (delete us db userID header).2
        (withIdempotency s (Idempotency.delete userID header i)) := by
  refine ⟨rfl, ?_⟩
  unfold Idempotency.delete
  rw [buildIdempotencyKey_eq]
  show Held format (db.put (buildIdempotencyKey userID header) none) _
  rw [buildIdempotencyKey_eq]
  exact held_record h _ rfl

theorem link_cases (h : Held format db (withIdempotency s i)) (j : JobID) (now : ℕ) :
    (i.links.get now j = none ∧ fetch now (db.lookup (reverseKeyOf j)) = none) ∨
    ∃ rest x, i.links.get now j = some (keyOf .record rest) ∧
      db.lookup (reverseKeyOf j) = some ⟨.string (keyOf .record rest), x⟩ ∧
      Volatile.Live now (⟨.string (keyOf .record rest), x⟩ : Volatile Value) := by
  have hlink : db.lookup (reverseKeyOf j) = linkEntry (i.links.lookup j) ∧
      ∀ v, i.links.lookup j = some v → ∃ rest, v.value = keyOf .record rest := by
    rw [reverseKeyOf_eq]
    exact h .link j
  obtain ⟨hentry, htarget⟩ := hlink
  unfold Keyspace.get
  cases hv : i.links.lookup j with
  | none =>
    rw [hentry, hv]
    exact Or.inl ⟨rfl, rfl⟩
  | some v =>
    obtain ⟨rest, hrest⟩ := htarget v hv
    rw [hentry, hv]
    by_cases hlive : v.Live now
    · refine Or.inr ⟨rest, v.expiresAt, ?_, ?_, hlive⟩
      · rw [← hrest]
        exact if_pos hlive
      · rw [← hrest]
        rfl
    · exact Or.inl ⟨if_neg hlive, if_neg hlive⟩

theorem linkEntry_expire (key : String) :
    linkEntry (expire now ttl key) = expire now ttl (.string key) := by
  unfold expire linkEntry
  split_ifs <;> rfl

theorem transitionScript_agrees (us : ℕ) (args : Args) (j : JobID) (status : String) (ttl : ℕ)
    (h : Held format db (withIdempotency s i)) (hkey : args.key 1 = reverseKeyOf j)
    (hstatus : args.arg 1 = status) (hnow : args.arg 2 = format (us / 1000 / 1000))
    (httl : args.arg 3 = ttl.repr) :
    (idempotencyTransitionStatusScript args us db).1 =
        .ok (.bulk (transitionScript (us / 1000) ttl j (statusOf status) i).1.text) ∧
      Held format (idempotencyTransitionStatusScript args us db).2
        (withIdempotency s (transitionScript (us / 1000) ttl j (statusOf status) i).2) := by
  rw [idempotencyTransitionStatusScript, hkey, hstatus, hnow, httl,
    Script.bind_eq (tonumber_repr _)]
  unfold transitionScript
  rcases link_cases h j (us / 1000) with ⟨hnone, hgone⟩ | ⟨rest, x, hlink, hk, hx⟩
  · rw [hnone, Script.bind_eq (get_gone hgone)]
    exact ⟨rfl, h⟩
  rw [hlink, Script.bind_eq (get_live hk hx)]
  dsimp only
  rcases record_cases h rest (us / 1000) with
    ⟨hmissing, hgone⟩ | ⟨v, f, hv, hlive, hvalid, hrecord, hfields⟩
  · rw [hmissing, Script.bind_eq (hget_gone hgone _)]
    exact ⟨rfl, h⟩
  have hfield : fieldOf format v.value "status" = some (statusText v.value.status) := if_pos rfl
  rw [get_of_live hv hlive, Script.bind_eq (hget_live hrecord hlive _), hfields, hfield]
  dsimp only
  by_cases hflight : v.value.status = .inFlight
  · have hwrite : hset (keyOf .record rest)
        [("status", status), ("completed_at", format (us / 1000 / 1000))] us db =
        (.ok (), db.put (keyOf .record rest) (some ⟨.hash _, v.expiresAt⟩)) :=
      hset_live hrecord hlive rfl (insert_ne_empty _ _ _)
    have hheld := held_record h rest (recordHeld_expire (us / 1000) ttl
      (congrArg statusOf (statusText_statusOf status))
      (fieldOf_insert_status status (us / 1000 / 1000) hfields))
    have hlinked := held_link hheld j (v := expire (us / 1000) ttl (keyOf .record rest))
      (fun v' hv' => ⟨rest, value_of_expire hv'⟩)
    rw [linkEntry_expire] at hlinked
    -- the writes to the record leave the reverse key as it was
    have hkept : ∀ e, (db.put (keyOf .record rest) e).lookup (reverseKeyOf j) =
        some ⟨.string (keyOf .record rest), x⟩ := by
      intro e
      rw [Keyspace.lookup_put, if_neg (record_ne_link rest j).symm]
      exact hk
    rw [if_pos hflight, if_neg (not_not.mpr ((statusText_eq_inFlight hvalid).mpr hflight)),
      Script.bind_eq hwrite, Script.bind_eq (expireIn_put _ hlive _),
      Script.bind_eq (expireIn_live (hkept _) hx _)]
    exact ⟨rfl, hlinked⟩
  · rw [if_neg hflight, if_pos (mt (statusText_eq_inFlight hvalid).mp hflight)]
    exact ⟨rfl, h⟩

theorem transition_agrees (us : ℕ) (h : Held format db (withIdempotency s i)) (ttl : ℕ) (j : JobID)
    (status : String) :
    (transition format us db ttl j status).1 =
        .ok (.bulk (transitionScript (us / 1000) ttl j (statusOf status) i).1.text) ∧
      Held format (transition format us db ttl j status).2
        (withIdempotency s (transitionScript (us / 1000) ttl j (statusOf status) i).2) := by
  exact transitionScript_agrees us ⟨[reverseKeyOf j], [status, format (us / 1000000), ttl.repr]⟩ j
    status ttl h rfl rfl (congrArg format (seconds_eq us)) rfl

theorem transitionStatus_agrees (h : Held format db (withIdempotency s i)) (ttl : ℕ) (j : JobID)
    (status : String) :
    (transitionStatus format us db ttl j status).1 =
        doneOf (Idempotency.transitionStatus (us / 1000) ttl j (statusOf status) i).1 ∧
      Held format (transitionStatus format us db ttl j status).2
        (withIdempotency s
          (Idempotency.transitionStatus (us / 1000) ttl j (statusOf status) i).2) := by
  obtain ⟨hreply, hheld⟩ := transition_agrees us h ttl j status
  refine ⟨?_, hheld⟩
  unfold transitionStatus Idempotency.transitionStatus
  dsimp only [Prod.map]
  rw [hreply]
  cases (transitionScript (us / 1000) ttl j (statusOf status) i).1 <;> rfl

theorem transitionStatusIfInFlight_agrees (h : Held format db (withIdempotency s i)) (ttl : ℕ)
    (j : JobID) (status : String) :
    (transitionStatusIfInFlight format us db ttl j status).1 =
        .ok (Idempotency.transitionStatusIfInFlight (us / 1000) ttl j (statusOf status) i).1 ∧
      Held format (transitionStatusIfInFlight format us db ttl j status).2
        (withIdempotency s
          (Idempotency.transitionStatusIfInFlight (us / 1000) ttl j (statusOf status) i).2) := by
  obtain ⟨hreply, hheld⟩ := transition_agrees us h ttl j status
  refine ⟨?_, hheld⟩
  unfold transitionStatusIfInFlight Idempotency.transitionStatusIfInFlight
  dsimp only [Prod.map]
  rw [hreply]
  cases (transitionScript (us / 1000) ttl j (statusOf status) i).1 <;> rfl

theorem buildCoalescingKey_eq (userID : UserID) (hashRequest : UInt64) :
    Coalescing.buildCoalescingKey userID hashRequest =
      keyOf .coalescing (userID.val ++ ":inference:" ++ hashRequest.toNat.repr) := by
  unfold Coalescing.buildCoalescingKey keyOf Tag.text
  simp only [String.append_assoc]

def decisionOf : Coalescing.CoalescingAction → CoalescingDecision
  | .proceed => ⟨.proceed, none⟩
  | .rejected => ⟨.rejected, some (.text ("coalescing rejected: " ++ "REJECTED"))⟩

theorem coalescingScript_agrees (us : ℕ) (args : Args) (ttl : ℕ)
    (h : Held format db (withCoalescing s c)) (hkey : args.key 1 = keyOf .coalescing rest)
    (httl : args.arg 1 = ttl.repr) (hnow : args.arg 2 = format (us / 1000 / 1000)) :
    readDecision (coalescingScript args us db).1 =
        (Coalescing.tryCoalesce (us / 1000) ttl (keyOf .coalescing rest) c).1.map decisionOf ∧
      Held format (coalescingScript args us db).2
        (withCoalescing s
          (Coalescing.tryCoalesce (us / 1000) ttl (keyOf .coalescing rest) c).2) := by
  have hlookup : db.lookup (keyOf .coalescing rest) =
      (c.lookup (keyOf .coalescing rest)).map
        fun v => ⟨.string (format v.value), v.expiresAt⟩ := h .coalescing rest
  rw [coalescingScript, hkey, httl, hnow, Script.bind_eq (tonumber_repr _)]
  by_cases hzero : ttl = 0
  · rw [hzero, Script.fail_bind (setNXEX_zero _ _)]
    exact ⟨rfl, h⟩
  have hfetch : fetch (us / 1000) (db.lookup (keyOf .coalescing rest)) =
      (c.get (us / 1000) (keyOf .coalescing rest)).map fun n => .string (format n) := by
    rw [hlookup, Keyspace.get]
    cases c.lookup (keyOf .coalescing rest) with
    | none => rfl
    | some v =>
      show (if v.Live (us / 1000) then _ else _) =
        Option.map _ (if v.Live (us / 1000) then _ else _)
      split_ifs <;> rfl
  cases hget : c.get (us / 1000) (keyOf .coalescing rest) with
  | none =>
    rw [hget, Option.map_none] at hfetch
    rw [Coalescing.tryCoalesce_of_none hzero hget, Script.bind_eq (setNXEX_new hzero hfetch _),
      expire, if_neg hzero]
    exact ⟨rfl, held_coalescing (v := some ⟨_, _⟩) h rest⟩
  | some n =>
    rw [hget, Option.map_some] at hfetch
    rw [Coalescing.tryCoalesce_of_some hzero hget, Script.bind_eq (setNXEX_old hzero hfetch _)]
    exact ⟨rfl, h⟩

theorem tryCoalesce_agrees (h : Held format db (withCoalescing s c)) (userID : UserID)
    (hashRequest : UInt64) (ttl : ℕ) :
    (tryCoalesce format us db userID hashRequest ttl).1 =
        (Coalescing.tryCoalesce (us / 1000) ttl
          (Coalescing.buildCoalescingKey userID hashRequest) c).1.map decisionOf ∧
      Held format (tryCoalesce format us db userID hashRequest ttl).2
        (withCoalescing s (Coalescing.tryCoalesce (us / 1000) ttl
          (Coalescing.buildCoalescingKey userID hashRequest) c).2) := by
  have hkey := buildCoalescingKey_eq userID hashRequest
  have hscript := coalescingScript_agrees us
    ⟨[Coalescing.buildCoalescingKey userID hashRequest], [ttl.repr, format (us / 1000000)]⟩ ttl h
    hkey rfl (congrArg format (seconds_eq us))
  rw [← hkey] at hscript
  exact hscript

theorem deleteCoalescing_agrees (h : Held format db (withCoalescing s c)) (userID : UserID)
    (hashRequest : UInt64) :
    (deleteCoalescing us db userID hashRequest).1 = .ok () ∧
      Held format (deleteCoalescing us db userID hashRequest).2
        (withCoalescing s (c.put (Coalescing.buildCoalescingKey userID hashRequest) none)) := by
  refine ⟨rfl, ?_⟩
  show Held format (db.put (Coalescing.buildCoalescingKey userID hashRequest) none) _
  rw [buildCoalescingKey_eq]
  exact held_coalescing (v := none) h _

end InferenceQueue.RedisSubmission

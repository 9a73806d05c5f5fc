import TaskTipsCloud.Writers

/-!
# Coherence

Every committed database is sound: its projects are coherent, and a push key has at most one
record. The calls may interleave in any way: what a call relies on while it runs is kept by the
commits of the others.
-/

namespace TaskTipsCloud

open Txn Versions

section

variable {host : Host} {c : Db} {H : Set Lock} {b : Db → Db}

/-- The reply of a call. -/
theorem runs_replying_iff {R : Set Lock → Db → Db → Prop} {α : Type} {reply : α → Reply}
    {x : Tx (Except PersistenceError α)} {r : Except PersistenceError Reply} :
    Runs R c (replying reply x) ∅ id (.ok r) H b ↔
      ∃ r₀, Runs R c x ∅ id (.ok r₀) H b ∧ r = r₀.map reply := by
  simp only [replying, runs_bind_ok_iff, runs_pure_iff, Except.ok.injEq]
  constructor
  · rintro ⟨r₀, _, _, h, rfl, rfl, rfl⟩
    exact ⟨r₀, h, rfl⟩
  · rintro ⟨r₀, h, rfl⟩
    exact ⟨r₀, _, _, h, rfl, rfl, rfl⟩

/-- What a call moves. -/
theorem Call.moves {R : Set Lock → Db → Db → Prop} {now : Timestamp} {call : Call}
    {r : Except PersistenceError (Except PersistenceError Reply)}
    (h : Runs R c (call.body host now) ∅ id r H b) : Db.Moves H c (b c) := by
  refine Runs.guarded (W := moveWrite) (fun hH hw d => (hw d).mono hH)
    (fun hw hw' d => (hw d).trans (hw' _)) h (call.movingly_body host now) (fun d => .rfl) c

/-- What a quiet call changes. -/
theorem Call.quiet {R : Set Lock → Db → Db → Prop} {now : Timestamp} {call : Call}
    {r : Except PersistenceError (Except PersistenceError Reply)} (hquiet : call.isQuiet = true)
    (h : Runs R c (call.body host now) ∅ id r H b) :
    Db.Quiet H c (b c) ∧ c.Touches call.tables (b c) := by
  refine Runs.guarded (W := quietWrite call.tables)
    (fun hH hw d => ⟨(hw d).1.mono hH, (hw d).2⟩)
    (fun hw hw' d => ⟨(hw d).1.trans (hw' _).1, (hw d).2.trans (hw' _).2⟩) h
    (call.quietly_body host now hquiet) (fun d => ⟨.rfl, .rfl⟩) c

/-! ## Soundness -/

/-- Coherence does not depend on the generation and the status of a project. -/
theorem ProjectData.Coherent.congr {x y : ProjectData} {row row' : ProjectRow}
    (hy : y.Coherent row) (hproject : x.project = some row') (hid : row'.id = row.id)
    (howner : row'.ownerUserId = row.ownerUserId) (hseq : row'.changeSeq = row.changeSeq)
    (hrevisions : x.revisions = y.revisions) (hheads : x.heads = y.heads) (hlog : x.log = y.log) :
    x.Coherent row' where
  project := hproject
  owned := by
    rw [hrevisions, hid, howner]
    exact hy.owned
  sequence := by rw [hseq, hrevisions, hy.sequence]
  log := by rw [hlog, hrevisions, hy.log]
  isHistory := hrevisions ▸ hy.isHistory
  heads := by
    intro kind objectId
    have hhead : headOf row' = headOf row := by
      unfold headOf
      rw [hid, howner]
    rw [hrevisions, hhead, ← hy.heads, ProjectData.head, ProjectData.head, hheads]
  headKeys := hheads ▸ hy.headKeys

/-- Rows that resemble coherent ones are coherent. -/
theorem ProjectData.Resembles.isCoherent {x y : ProjectData} (h : x.Resembles y)
    (hy : y.IsCoherent) : x.IsCoherent := by
  rcases hy with rfl | ⟨row, hrow⟩
  · have hnone : x.project = none := by simpa using h.project
    obtain ⟨project, revisions, heads, log⟩ := x
    obtain ⟨-, rfl, rfl, rfl⟩ := h
    cases hnone
    exact .inl (Eq.refl _)
  · have hproject := h.project
    rw [hrow.project, Option.map_some, Option.map_eq_some_iff] at hproject
    obtain ⟨row', hrow', hcore⟩ := hproject
    simp only [ProjectRow.core, Prod.mk.injEq] at hcore
    exact .inr ⟨row', hrow.congr hrow' hcore.1 hcore.2.1 hcore.2.2.2 h.revisions h.heads h.log⟩

/-- A change outside the projects keeps the database sound. -/
theorem Db.Quiet.sound {d d' : Db} (h : Db.Quiet H d d') (hd : d.Sound) : d'.Sound where
  coherent p := (h.resembles p).isCoherent (hd.coherent p)
  records a := by
    unfold recordsFor
    rw [h.records]
    exact hd.records a

/-- Deleting records leaves a sound database. -/
theorem Db.Sound.filterRecords {d : Db} (hd : d.Sound) (q : IdempotencyRecord → Bool) :
    ({ d with idempotencyRecords := d.idempotencyRecords.filter q } : Db).Sound where
  coherent := hd.coherent
  records a := (List.filter_sublist.filter _).length_le.trans (hd.records a)

/-- Removing the expired records keeps the database sound. -/
theorem Db.Sound.withoutExpired {d : Db} (hd : d.Sound) (now : Timestamp) (a : PushArgs) :
    (d.withoutExpired now a).Sound :=
  hd.filterRecords _

/-- A first record for a push key. -/
theorem Db.Sound.withRecord {d : Db} {a : PushArgs} (hd : d.Sound) (hnew : d.recordsFor a = [])
    (now : Timestamp) (response : Json) (status : ℤ) :
    (d.withRecord (a.record now response status)).Sound where
  coherent := hd.coherent
  records a' := by
    unfold recordsFor Db.withRecord
    rw [List.filter_append, List.filter_singleton]
    by_cases ha : (a.record now response status).answers a' = true
    · -- The records of a' are those of a.
      have hsame : d.idempotencyRecords.filter (·.answers a') = [] := by
        simp only [IdempotencyRecord.answers, PushArgs.record, Bool.and_eq_true,
          beq_iff_eq] at ha
        rw [← hnew]
        refine List.filter_congr fun r _ => ?_
        simp [IdempotencyRecord.answers, ha]
      simp [ha, hsame]
    · rw [eq_false_of_ne_true ha, cond_false, List.append_nil]
      exact hd.records a'

/-- Appended revisions that are accepted leave a sound database. -/
theorem Db.Sound.appendAll {d : Db} {now : Timestamp} {rs : List ObjectRevision} (hd : d.Sound)
    (hrs : d.AcceptsAll now rs) : (d.appendAll now rs).Sound where
  coherent := hrs.coherent hd.coherent
  records a := by
    rw [Db.appendAll_eq]
    exact hd.records a

/-- An executed push leaves a sound database. -/
theorem PushEffect.sound {now : Timestamp} {a : PushArgs} {d d' : Db}
    {r : Except PersistenceError PushOutcome} (h : PushEffect host now a d r d') (hd : d.Sound)
    (hnew : d.recordsFor a = []) : d'.Sound := by
  cases h with
  | failed herror hresponse => exact hd.withRecord hnew now _ _
  | applied hrow hactive hgeneration hbootstrapped hitems hresponse =>
    have hsound := hd.appendAll (hitems.accepts hd.coherent)
    have hnew' : ∀ rs, (d.appendAll now rs).recordsFor a = [] := by
      intro rs
      rw [Db.appendAll_eq]
      exact hnew
    have hquiet : ∀ d : Db, Db.Quiet ∅ d (d.updateDevice (.app a.userId) a.deviceId fun v =>
      { v with lastPushAt := some now }) := fun d => quiet_of_eq rfl fun _ _ => rfl
    exact (hquiet _).sound (hsound.withRecord (hnew' _) now _ _)

/-- The rows of a project after the end of a restore. -/
theorem Db.data_finished (d : Db) (now : Timestamp) (job : RestoreJob) (generation : ℤ)
    (counts : RestoredCounts) : (d.finished now job generation counts).data job.projectId =
      { d.data job.projectId with project := (d.project job.projectId).map fun p =>
          { p with generation := generation + 1, status := .active, updatedAt := now } } := by
  have hproject := Db.project_updateProject (d := d) (p := job.projectId)
    (f := fun p => { p with generation := generation + 1, status := .active, updatedAt := now })
    fun _ => rfl
  unfold Db.data
  rw [← hproject]
  rfl

/-- A restore that ends leaves the data of other projects. -/
theorem Db.data_finished_of_ne {d : Db} {now : Timestamp} {job : RestoreJob} {generation : ℤ}
    {counts : RestoredCounts} {p : Uuid} (hp : job.projectId ≠ p) :
    (d.finished now job generation counts).data p = d.data p :=
  Db.data_updateProject_of_ne (fun _ => rfl) hp

/-- A restore leaves a sound database. -/
theorem RestoreEffect.sound {R : Set Lock → Db → Db → Prop} {now : Timestamp}
    {targetOrder currentOrder : ScanOrder} {jobId leaseToken : Uuid} {d d' : Db}
    (h : RestoreEffect R now targetOrder currentOrder jobId leaseToken d d') (hd : d.Sound) :
    d'.Sound := by
  obtain ⟨hjob, hrequested, hproject, hstatus, htarget, hall, hitems⟩ := h
  rename_i job row target rs
  have hsound := hd.appendAll hall
  refine ⟨fun p => ?_, hsound.records⟩
  by_cases hp : job.projectId = p
  · subst hp
    rw [Db.data_finished]
    rcases hsound.coherent job.projectId with hnone | ⟨row', hrow'⟩
    · left
      have hproject' := congrArg ProjectData.project hnone
      rw [hnone]
      simp only [Db.data] at hproject'
      simp [hproject']
    · right
      have hproject' := hrow'.project
      simp only [Db.data] at hproject'
      refine ⟨{ row' with generation := row.generation + 1, status := .active, updatedAt := now },
        hrow'.congr ?_ rfl rfl rfl rfl rfl rfl⟩
      rw [hproject', Option.map_some]
  · rw [Db.data_finished_of_ne hp]
    exact hsound.coherent p

/-- A new project is coherent. -/
theorem Db.Sound.insertProject {d : Db} {row : ProjectRow} (hd : d.Sound)
    (hnone : d.project row.id = none) (hseq : row.changeSeq = 0) :
    ({ d with projects := d.projects ++ [row] } : Db).Sound := by
  refine ⟨fun p => ?_, hd.records⟩
  by_cases hp : row.id = p
  · subst hp
    have hempty : d.data row.id = ⟨none, [], [], []⟩ := by
      rcases hd.coherent row.id with hempty | ⟨row', hrow'⟩
      · exact hempty
      · have hproject := hrow'.project
        simp only [Db.data, hnone] at hproject
        cases hproject
    have hdata : ({ d with projects := d.projects ++ [row] } : Db).data row.id =
        { d.data row.id with project := some row } := by
      unfold Db.project at hnone
      simp [Db.data, Db.project, Db.revisionsOf, Db.headsOf, Db.logOf, hnone]
    rw [hdata, hempty]
    exact .inr ⟨row, rfl, by simp, by simp [hseq], rfl, .nil, fun _ _ => rfl, .nil⟩
  · have hmoves : Db.Moves {.project row.id} d { d with projects := d.projects ++ [row] } :=
      moves_insertProject rfl
    rw [hmoves.data p (by simpa using Ne.symm hp)]
    exact hd.coherent p

/-- What the creation of a project does. -/
theorem runs_createProject {now : Timestamp} {userId projectId : Uuid} {name : String}
    {r : Except PersistenceError ProjectRow}
    (h : Runs Db.Rely c (createProject now userId projectId name) ∅ id (.ok r) H b) :
    ∃ row : ProjectRow, c.project row.id = none ∧ row.changeSeq = 0 ∧ row.generation = 1 ∧
      row.status = .active ∧ b c = { c with projects := c.projects ++ [row] } := by
  simp only [createProject, bind_eq, acquire_bind, runs_lock_iff, runs_bind_ok_iff, pure_eq,
    runs_pure_iff] at h
  obtain ⟨_, _, _, hinsert, -, -, rfl⟩ := h
  obtain ⟨-, rfl, d, hd, hrefused⟩ := runs_insertRow hinsert
  have hfresh : ((d.project projectId).isNone) = true :=
    constraint_of_firstViolation hrefused (e := .uniqueViolation) List.mem_cons_self
  have hproject := congrArg ProjectData.project (hd.data projectId (Set.mem_insert _ _))
  simp only [Db.data] at hproject
  rw [hproject, Option.isNone_iff_eq_none] at hfresh
  exact ⟨_, hfresh, rfl, rfl, rfl, rfl⟩

/-- A collection of payloads changes their table only. -/
theorem runs_collectPayload {R : Set Lock → Db → Db → Prop} {projectId : Uuid}
    {contentHash : String} {olderThan : Timestamp}
    {r : Except PersistenceError (Except PersistenceError Unit)}
    (h : Runs R c (collectPayload projectId contentHash olderThan) ∅ id r H b) :
    b c = { c with payloads := (b c).payloads } := by
  refine Runs.guarded (W := payloadWrite) (fun _ hw => hw) (fun hw hw' d => ?_) h
    (guarded_collectPayload projectId contentHash olderThan) (fun _ => rfl) c
  rw [Function.comp_apply, hw' (_ : Db), hw d]

/-- The database without the expired records of a batch. -/
def Db.purged (now : Timestamp) (inBatch : IdempotencyRecord → Bool) (d : Db) : Db :=
  { d with idempotencyRecords :=
      d.idempotencyRecords.filter fun r => !(r.expiresAt ≤ now && inBatch r) }

/-- A purge deletes expired records. -/
theorem runs_purgeExpiredIdempotencyRecords {R : Set Lock → Db → Db → Prop} {now : Timestamp}
    {inBatch : IdempotencyRecord → Bool}
    {r : Except PersistenceError (Except PersistenceError Unit)}
    (h : Runs R c (purgeExpiredIdempotencyRecords now inBatch) ∅ id r H b) :
    b c = c.purged now inBatch := by
  simp only [purgeExpiredIdempotencyRecords, bind_eq, modify_bind, pure_eq, runs_write_iff,
    runs_pure_iff] at h
  obtain ⟨-, -, rfl⟩ := h
  rfl

/-- Every call that commits leaves a sound database. -/
theorem Call.sound {now : Timestamp} {call : Call} {r : Except PersistenceError Reply}
    (hc : c.Sound) (h : Runs Db.Rely c (call.body host now) ∅ id (.ok r) H b) : (b c).Sound := by
  by_cases hquiet : call.isQuiet = true
  · exact (Call.quiet hquiet h).1.sound hc
  · cases call with
    | createProject =>
      obtain ⟨r₀, h, -⟩ := runs_replying_iff.mp h
      obtain ⟨row, hnone, hseq, -, -, heq⟩ := runs_createProject h
      rw [heq]
      exact hc.insertProject hnone hseq
    | pushWithOutcome a =>
      obtain ⟨r₀, h, -⟩ := runs_replying_iff.mp h
      rcases runs_pushWithOutcome_ok h with heq | ⟨hnew, heffect⟩
      · rw [heq]
        exact hc.withoutExpired now a
      · exact heffect.sound (hc.withoutExpired now a) hnew
    | bootstrapManifestPage a =>
      obtain ⟨r₀, h, -⟩ := runs_replying_iff.mp h
      obtain ⟨page, -, ⟨-, heq⟩ | ⟨-, heq⟩⟩ := runs_bootstrapManifestPage h
      · rwa [heq]
      · rw [heq]
        exact ⟨hc.coherent, hc.records⟩
    | collectPayload =>
      obtain ⟨r₀, h, -⟩ := runs_replying_iff.mp h
      rw [runs_collectPayload h]
      exact ⟨hc.coherent, hc.records⟩
    | purgeExpiredIdempotencyRecords =>
      obtain ⟨r₀, h, -⟩ := runs_replying_iff.mp h
      rw [runs_purgeExpiredIdempotencyRecords h]
      exact hc.filterRecords _
    | executeRestoreWithLease =>
      obtain ⟨r₀, h, -⟩ := runs_replying_iff.mp h
      exact (runs_executeRestoreWithLease (fun _ _ hR => hR) hc.coherent h).2.sound hc
    | _ => simp [isQuiet] at hquiet

/-- The database after the migrations is sound. -/
theorem sound_initial (users : List UserRow) : (Db.initial users).Sound :=
  ⟨fun _ => .inl rfl, fun _ => Nat.zero_le _⟩

/-- What the calls rely on, they keep for each other. -/
theorem relies_service (host : Host) : (service host).Relies Db.Sound Db.Rely where
  refl H _ hd := .refl hd H
  trans := Db.Rely.trans
  anti := Db.Rely.anti
  commit _ hc h := ⟨Call.sound hc h, fun _ hK => (Call.moves h).rely hc hK⟩

end

/-! ## What coherence says of the tables -/

/-- A revision of a project and its entry in the change log. -/
structure Db.Logged (d : Db) (p : Uuid) (r : ObjectRevision) (c : ChangeLogEntry) : Prop where
  revision : r ∈ d.revisionsOf p
  entry : c ∈ d.logOf p
  revisionId : c.revisionId = r.id

/-- The tables of a project agree with each other. -/
structure Db.StoreCoherent (d : Db) (row : ProjectRow) : Prop where
  /-- The sequences of the change log are `1, ..., change_seq`. -/
  sequences : (d.logOf row.id).map (·.sequence) =
    (List.range' 1 row.changeSeq.toNat).map fun n : ℕ => (n : ℤ)
  /-- Every revision has exactly one entry. -/
  oneEntry : ∀ r ∈ d.revisionsOf row.id,
    ∃ c, (d.logOf row.id).filter (·.revisionId == r.id) = [c]
  /-- The revisions of an object are `1, ..., head`. -/
  numbered : ∀ kind objectId,
    ((d.revisionsOf row.id).filter (·.key = (kind, objectId))).map (·.revision) =
      (List.range' 1 (((d.data row.id).head kind objectId).elim 0 (·.revision)).toNat).map
        fun n : ℕ => (n : ℤ)
  /-- Every revision but the first is based on the one before. -/
  based : ∀ r ∈ d.revisionsOf row.id,
    r.baseRevision = if r.revision = 1 then none else some (r.revision - 1)
  /-- Within one object the order by revision is the order by sequence. -/
  ordered : ∀ r r' c c', d.Logged row.id r c → d.Logged row.id r' c' → r.key = r'.key →
    (r.revision < r'.revision ↔ c.sequence < c'.sequence)
  /-- Every object that has revisions has one head. -/
  oneHead : ∀ r ∈ d.revisionsOf row.id, ∃ h, (d.headsOf row.id).filter (·.key = r.key) = [h]
  /-- A head is the revision of its object with the highest sequence. -/
  heads : ∀ h ∈ d.headsOf row.id, ∃ r c, d.Logged row.id r c ∧ h.revisionId = r.id ∧
    h.revision = r.revision ∧ h.key = r.key ∧
      ∀ r' c', d.Logged row.id r' c' → r'.key = r.key → c'.sequence ≤ c.sequence
  /-- The join over the heads and the latest entries of the log are the same object states. -/
  views : ∀ role order order', role.sees row.ownerUserId →
    (headRows role order row.id d).Perm (rankedRows role order' row.id row.changeSeq d)

/-- A revision with its entry is a record of the history. -/
theorem mem_zipIdx_of_logged {d : Db} {row : ProjectRow} (hx : (d.data row.id).Coherent row)
    {r : ObjectRevision} {c : ChangeLogEntry} (h : d.Logged row.id r c) :
    ∃ i, (r, i) ∈ (d.revisionsOf row.id).zipIdx 1 ∧ c = r.entry i := by
  have hlog : d.logOf row.id = logEntries (d.revisionsOf row.id) := hx.log
  have hc := h.entry
  rw [hlog, logEntries, List.mem_map] at hc
  obtain ⟨⟨r', i⟩, hr', rfl⟩ := hc
  have hids : ((d.revisionsOf row.id).map (·.id)).Nodup := nodup_map_id hx.isHistory
  have heq : r' = r :=
    List.inj_on_of_nodup_map hids (List.fst_mem_of_mem_zipIdx hr') h.revision h.revisionId
  subst heq
  exact ⟨i, hr', rfl⟩

/-- Every revision has an entry. -/
theorem exists_logged {d : Db} {row : ProjectRow} (hx : (d.data row.id).Coherent row)
    {r : ObjectRevision} (hr : r ∈ d.revisionsOf row.id) :
    ∃ i, (r, i) ∈ (d.revisionsOf row.id).zipIdx 1 ∧ d.Logged row.id r (r.entry i) := by
  have hlog : d.logOf row.id = logEntries (d.revisionsOf row.id) := hx.log
  have hfst : (((d.revisionsOf row.id).zipIdx 1).map Prod.fst) = d.revisionsOf row.id := by simp
  rw [← hfst, List.mem_map] at hr
  obtain ⟨⟨r', i⟩, hmem, rfl⟩ := hr
  refine ⟨i, hmem, List.fst_mem_of_mem_zipIdx hmem, ?_, rfl⟩
  rw [hlog]
  exact List.mem_map.mpr ⟨(r', i), hmem, rfl⟩

section StoreCoherent

variable {d : Db} {row : ProjectRow} (hx : (d.data row.id).Coherent row)
include hx

/-- A revision is a record of the history. -/
theorem exists_record {r : ObjectRevision} (hr : r ∈ d.revisionsOf row.id) :
    ∃ i : ℕ, r.syncRecord (r.entry i) ∈ history (d.revisionsOf row.id) := by
  obtain ⟨i, hi, -⟩ := exists_logged hx hr
  exact ⟨i, mem_history.mpr ⟨r, i, hi, rfl⟩⟩

/-- A revision of a coherent project has just one entry in the log. -/
theorem oneEntry_of_coherent {r : ObjectRevision} (hr : r ∈ d.revisionsOf row.id) :
    ∃ c, (d.logOf row.id).filter (·.revisionId == r.id) = [c] := by
  have hlog : d.logOf row.id = logEntries (d.revisionsOf row.id) := hx.log
  obtain ⟨i, -, hlogged⟩ := exists_logged hx hr
  refine ⟨r.entry i, filter_key_eq (g := (·.revisionId)) (x := r.entry i) ?_ hlogged.entry⟩
  rw [hlog, map_logEntries_revisionId]
  exact nodup_map_id hx.isHistory

/-- The head of an object carries the number of its revisions. -/
theorem head_revision_of_coherent (kind : ObjectKind) (objectId : String) :
    (((d.data row.id).head kind objectId).elim 0 (·.revision)).toNat =
      (versions SyncRecord.key (kind, objectId) (history (d.revisionsOf row.id))).length := by
  have hhead : (d.data row.id).head kind objectId =
      (latest SyncRecord.key (kind, objectId) (history (d.revisionsOf row.id))).map (headOf row) :=
    hx.heads kind objectId
  rw [hhead]
  cases hl : latest SyncRecord.key (kind, objectId) (history (d.revisionsOf row.id)) with
  | none =>
    rw [latest, List.getLast?_eq_none_iff] at hl
    rw [hl]
    rfl
  | some v =>
    have hrev := hx.isHistory.numbered.rev_latest hl
    show v.revision.toNat = _
    rw [hrev]
    rfl

/-- The revisions of an object are numbered from one to that of its head. -/
theorem numbered_of_coherent (kind : ObjectKind) (objectId : String) :
    ((d.revisionsOf row.id).filter (·.key = (kind, objectId))).map (·.revision) =
      (List.range' 1 (((d.data row.id).head kind objectId).elim 0 (·.revision)).toNat).map
        fun n : ℕ => (n : ℤ) := by
  rw [head_revision_of_coherent hx, ← map_versions_history]
  exact hx.isHistory.numbered.map_rev (kind, objectId)

/-- A revision is based on the one before it. -/
theorem based_of_coherent {r : ObjectRevision} (hr : r ∈ d.revisionsOf row.id) :
    r.baseRevision = if r.revision = 1 then none else some (r.revision - 1) := by
  obtain ⟨i, hmem⟩ := exists_record hx hr
  have hone : 1 ≤ r.revision := hx.isHistory.numbered.one_le hmem
  rw [← previousRevision_eq hone]
  exact hx.isHistory.based _ hmem

/-- Revisions of an object and their sequences are in the same order. -/
theorem ordered_of_coherent {r r' : ObjectRevision} {c c' : ChangeLogEntry}
    (h : d.Logged row.id r c) (h' : d.Logged row.id r' c') (hk : r.key = r'.key) :
    r.revision < r'.revision ↔ c.sequence < c'.sequence := by
  obtain ⟨i, hi, rfl⟩ := mem_zipIdx_of_logged hx h
  obtain ⟨i', hi', rfl⟩ := mem_zipIdx_of_logged hx h'
  exact hx.isHistory.revision_lt_iff (mem_history.mpr ⟨r, i, hi, rfl⟩)
    (mem_history.mpr ⟨r', i', hi', rfl⟩) hk

/-- An object with a revision has just one head. -/
theorem oneHead_of_coherent {r : ObjectRevision} (hr : r ∈ d.revisionsOf row.id) :
    ∃ h, (d.headsOf row.id).filter (·.key = r.key) = [h] := by
  obtain ⟨i, hmem⟩ := exists_record hx hr
  obtain ⟨v, hv⟩ := exists_latest SyncRecord.key hmem
  have hhead : (d.data row.id).head r.kind r.objectId = some (headOf row v) := by
    rw [hx.heads]
    exact congrArg (Option.map (headOf row)) hv
  have hkey : v.key = r.key := key_of_latest hv
  refine ⟨headOf row v, ?_⟩
  have hfilter := filter_key_eq hx.headKeys (List.mem_of_find?_eq_some hhead)
  rw [show (headOf row v).key = r.key from hkey] at hfilter
  rw [← hfilter]
  refine List.filter_congr fun h _ => ?_
  rw [Bool.eq_iff_iff, decide_eq_true_eq, beq_iff_eq]

/-- A head is the revision of its object with the last sequence. -/
theorem heads_of_coherent {h : ObjectHead} (hh : h ∈ d.headsOf row.id) :
    ∃ r c, d.Logged row.id r c ∧ h.revisionId = r.id ∧ h.revision = r.revision ∧ h.key = r.key ∧
      ∀ r' c', d.Logged row.id r' c' → r'.key = r.key → c'.sequence ≤ c.sequence := by
  obtain ⟨v, hv, rfl⟩ := hx.eq_headOf hh
  obtain ⟨r, i, hr, rfl⟩ := mem_history.mp (mem_of_latest hv)
  have hlogged : d.Logged row.id r (r.entry i) := by
    refine ⟨List.fst_mem_of_mem_zipIdx hr, ?_, rfl⟩
    have hlog : d.logOf row.id = logEntries (d.revisionsOf row.id) := hx.log
    rw [hlog]
    exact List.mem_map.mpr ⟨(r, i), hr, rfl⟩
  have hid : row.id = r.projectId := ((hx.owned r hlogged.revision).1).symm
  refine ⟨r, r.entry i, hlogged, ?_, rfl, rfl, fun r' c' h' hk => ?_⟩
  · simp [headOf, ObjectRevision.id, ObjectRevision.syncRecord, hid]
  · obtain ⟨i', hi', rfl⟩ := mem_zipIdx_of_logged hx h'
    exact (latest_iff_forall SyncRecord.key hx.isHistory.pairwise_sequence (mem_of_latest hv)).mp hv
      _ (mem_history.mpr ⟨r', i', hi', rfl⟩) hk

/-- The two ways of reading the heads agree. -/
theorem views_of_coherent {role : DbRole} (order order' : ScanOrder)
    (hrole : role.sees row.ownerUserId) :
    (headRows role order row.id d).Perm (rankedRows role order' row.id row.changeSeq d) := by
  have hranked : rankedRows role order' row.id row.changeSeq d =
      order'.arrange (current SyncRecord.key (history (d.revisionsOf row.id))) := by
    rw [rankedRows, hx.visible_eq hrole, hx.records_eq, hx.isHistory.rankedRecords_eq, hx.sequence,
      Int.toNat_natCast, List.take_of_length_le (by simp)]
    rfl
  rw [headRows, hx.visible_eq hrole, hranked]
  exact (order.perm _).trans (hx.headRecords_perm.trans (order'.perm _).symm)

/-- A coherent project has coherent tables. -/
theorem storeCoherent_of_coherent : d.StoreCoherent row where
  sequences := by
    have hlog : d.logOf row.id = logEntries (d.revisionsOf row.id) := hx.log
    rw [hlog, map_logEntries_sequence, hx.sequence, Int.toNat_natCast]
    rfl
  oneEntry _ := oneEntry_of_coherent hx
  numbered := numbered_of_coherent hx
  based _ := based_of_coherent hx
  ordered _ _ _ _ := ordered_of_coherent hx
  oneHead _ := oneHead_of_coherent hx
  heads _ := heads_of_coherent hx
  views _ order order' := views_of_coherent hx order order'

end StoreCoherent

/-- In every reachable state the tables of every project agree with each other. -/
theorem reachable_storeCoherent {host : Host} {users : List UserRow}
    {w : World Db Lock PersistenceError Reply Request}
    (hw : (service host).Reachable (.initial users) w) {p : Uuid} {row : ProjectRow}
    (hrow : w.committed.project p = some row) : w.committed.StoreCoherent row := by
  have hsound := hw.inv (relies_service host) (sound_initial users)
  have hid := Db.id_of_project hrow
  subst hid
  exact storeCoherent_of_coherent (hsound.coherent.data hrow)

/-- The tables agree after pushes and a restore. -/
theorem sampleWorld_storeCoherent :
    (sampleWorld (sampleSetup ++ samplePushes ++ sampleRestore 3 7 2)).committed.StoreCoherent
      ⟨2, 1, "tasks", 2, .active, 6, 0, 3⟩ :=
  reachable_storeCoherent (reachable_sampleWorld (by decide)) (p := 2) (by decide +kernel)

end TaskTipsCloud

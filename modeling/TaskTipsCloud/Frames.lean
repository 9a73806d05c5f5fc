import TaskTipsCloud.Appends
import TaskTipsCloud.Footprints

/-!
# What a call may change

A session changes a project, a restore job or the records of a push key only while it holds their
lock (`Db.Moves`). All calls but those that create a project, push, complete a bootstrap, execute a
restore, or collect garbage are quiet: they change no revision, and of a project only its status
(`Db.Quiet`).
-/

namespace TaskTipsCloud

open Txn

/-- What a project keeps when its status changes. -/
def ProjectRow.core (p : ProjectRow) : Uuid × Uuid × ℤ × ℤ :=
  (p.id, p.ownerUserId, p.generation, p.changeSeq)

/-- The same rows, up to the status of the project and the time of its last change. -/
structure ProjectData.Resembles (x y : ProjectData) : Prop where
  project : x.project.map ProjectRow.core = y.project.map ProjectRow.core
  revisions : x.revisions = y.revisions
  heads : x.heads = y.heads
  log : x.log = y.log

/-- A project resembles itself. -/
theorem ProjectData.Resembles.rfl {x : ProjectData} : x.Resembles x :=
  ⟨.refl _, .refl _, .refl _, .refl _⟩

/-- Resemblance is transitive. -/
theorem ProjectData.Resembles.trans {x y z : ProjectData} (h : x.Resembles y)
    (h' : y.Resembles z) : x.Resembles z :=
  ⟨h.project.trans h'.project, h.revisions.trans h'.revisions, h.heads.trans h'.heads,
    h.log.trans h'.log⟩

/-- The idempotency records of a push key. -/
def Db.recordsOf (d : Db) (userId deviceId : Uuid) (requestKey : String) :
    List IdempotencyRecord :=
  d.idempotencyRecords.filter fun r =>
    r.ownerUserId == userId && r.deviceId == deviceId && r.requestKey == requestKey

/-- The payloads of a project. -/
def Db.payloadsOf (d : Db) (projectId : Uuid) : List PayloadRow :=
  d.payloads.filter (·.projectId == projectId)

/-- What a session that holds the locks `H` may change. -/
structure Db.Moves (H : Set Lock) (d d' : Db) : Prop where
  /-- A project changes under its lock. -/
  data : ∀ p, Lock.project p ∉ H → d'.data p = d.data p
  /-- A restore job changes under its lock. -/
  job : ∀ j, Lock.restoreJob j ∉ H → d'.restoreJob j = d.restoreJob j
  /-- Records of a push key are written under its lock; expired ones may be deleted without. -/
  records : ∀ u v k, Lock.push u v k ∉ H → (d'.recordsOf u v k).Sublist (d.recordsOf u v k)
  /-- A completed bootstrap stays completed. -/
  completions : ∀ a g, bootstrapped a g d → bootstrapped a g d'

/-- What a quiet call may change while it holds the locks `H`. -/
structure Db.Quiet (H : Set Lock) (d d' : Db) : Prop where
  data : ∀ p, Lock.project p ∉ H → d'.data p = d.data p
  resembles : ∀ p, (d'.data p).Resembles (d.data p)
  job : ∀ j, Lock.restoreJob j ∉ H → d'.restoreJob j = d.restoreJob j
  records : d'.idempotencyRecords = d.idempotencyRecords
  completions : d'.bootstrapCompletions = d.bootstrapCompletions
  /-- A payload is registered under the lock of its project. -/
  payloads : ∀ p, Lock.project p ∉ H → d'.payloadsOf p = d.payloadsOf p

namespace Db

variable {H H' : Set Lock} {d d' d'' : Db}

/-- Nothing moves when nothing changes. -/
theorem Moves.rfl : Moves H d d :=
  ⟨fun _ _ => .refl _, fun _ _ => .refl _, fun _ _ _ _ => .refl _, fun _ _ => id⟩

/-- Two moves are one. -/
theorem Moves.trans (h : Moves H d d') (h' : Moves H d' d'') : Moves H d d'' where
  data p hp := (h'.data p hp).trans (h.data p hp)
  job j hj := (h'.job j hj).trans (h.job j hj)
  records u v k hk := (h'.records u v k hk).trans (h.records u v k hk)
  completions a g hc := h'.completions a g (h.completions a g hc)

/-- A move under fewer locks is one under more. -/
theorem Moves.mono (h : Moves H d d') (hH : H ⊆ H') : Moves H' d d' where
  data p hp := h.data p fun hp' => hp (hH hp')
  job j hj := h.job j fun hj' => hj (hH hj')
  records u v k hk := h.records u v k fun hk' => hk (hH hk')
  completions := h.completions

/-- Nothing is loud when nothing changes. -/
theorem Quiet.rfl : Quiet H d d :=
  ⟨fun _ _ => .refl _, fun _ => .rfl, fun _ _ => .refl _, .refl _, .refl _, fun _ _ => .refl _⟩

/-- Two quiet changes are one. -/
theorem Quiet.trans (h : Quiet H d d') (h' : Quiet H d' d'') : Quiet H d d'' where
  data p hp := (h'.data p hp).trans (h.data p hp)
  resembles p := (h'.resembles p).trans (h.resembles p)
  job j hj := (h'.job j hj).trans (h.job j hj)
  records := h'.records.trans h.records
  completions := h'.completions.trans h.completions
  payloads p hp := (h'.payloads p hp).trans (h.payloads p hp)

/-- A quiet change under fewer locks is one under more. -/
theorem Quiet.mono (h : Quiet H d d') (hH : H ⊆ H') : Quiet H' d d' where
  data p hp := h.data p fun hp' => hp (hH hp')
  resembles := h.resembles
  job j hj := h.job j fun hj' => hj (hH hj')
  records := h.records
  completions := h.completions
  payloads p hp := h.payloads p fun hp' => hp (hH hp')

/-- A quiet change is a move. -/
theorem Quiet.moves (h : Quiet H d d') : Moves H d d' where
  data := h.data
  job := h.job
  records _ _ _ _ := by
    unfold recordsOf
    rw [h.records]
  completions _ _ := by
    unfold bootstrapped
    rw [h.completions]
    exact id

end Db

/-! ## Writes -/

section Writes

variable {H : Set Lock} {d : Db}

/-- A write to tables that no lock here is about. -/
theorem moves_of_eq {d' : Db} (h : (d'.projects, d'.objectRevisions, d'.objectHeads, d'.changeLog,
      d'.restoreJobs, d'.idempotencyRecords, d'.bootstrapCompletions) =
    (d.projects, d.objectRevisions, d.objectHeads, d.changeLog, d.restoreJobs,
      d.idempotencyRecords, d.bootstrapCompletions)) : Db.Moves H d d' := by
  simp only [Prod.mk.injEq] at h
  obtain ⟨hp, hr, hh, hl, hj, hi, hc⟩ := h
  refine ⟨fun p _ => ?_, fun j _ => ?_, fun u v k _ => ?_, fun a g hb => ?_⟩
  · simp only [Db.data, Db.project, Db.revisionsOf, Db.headsOf, Db.logOf, hp, hr, hh, hl]
  · simp only [Db.restoreJob, hj]
  · rw [Db.recordsOf, Db.recordsOf, hi]
  · rwa [bootstrapped, hc]

/-- A quiet write to tables that no lock here is about. -/
theorem quiet_of_eq {d' : Db} (h : (d'.projects, d'.objectRevisions, d'.objectHeads, d'.changeLog,
      d'.restoreJobs, d'.idempotencyRecords, d'.bootstrapCompletions) =
    (d.projects, d.objectRevisions, d.objectHeads, d.changeLog, d.restoreJobs,
      d.idempotencyRecords, d.bootstrapCompletions))
    (hpayloads : ∀ p, Lock.project p ∉ H → d'.payloadsOf p = d.payloadsOf p) :
    Db.Quiet H d d' := by
  have hmoves : Db.Moves ∅ d d' := moves_of_eq h
  simp only [Prod.mk.injEq] at h
  obtain ⟨-, -, -, -, -, hi, hc⟩ := h
  refine ⟨fun p _ => hmoves.data p (Set.notMem_empty _), fun p => ?_,
    fun j _ => hmoves.job j (Set.notMem_empty _), hi, hc, hpayloads⟩
  rw [hmoves.data p (Set.notMem_empty _)]
  exact .rfl

/-- A new payload of a project whose lock is held. -/
theorem quiet_insertPayload {x : PayloadRow} (hp : Lock.project x.projectId ∈ H) :
    Db.Quiet H d { d with payloads := d.payloads ++ [x] } := by
  refine quiet_of_eq rfl fun p hp' => ?_
  have hne : x.projectId ≠ p := fun h => hp' (h ▸ hp)
  simp [Db.payloadsOf, hne]

/-- A write to a project whose lock is held. -/
theorem Db.data_updateProject_of_ne {p q : Uuid} {f : ProjectRow → ProjectRow}
    (hf : ∀ row, (f row).id = row.id) (hq : p ≠ q) : (d.updateProject p f).data q = d.data q := by
  have hproject := Db.project_updateProject_of_ne (d := d) hf hq
  simp only [Db.data, hproject, ProjectData.mk.injEq, true_and]
  exact ⟨rfl, rfl, rfl⟩

/-- An update of a locked project is a move. -/
theorem moves_updateProject {p : Uuid} {f : ProjectRow → ProjectRow}
    (hp : Lock.project p ∈ H) (hf : ∀ row, (f row).id = row.id) :
    Db.Moves H d (d.updateProject p f) where
  data _ hq := Db.data_updateProject_of_ne hf fun hpq => hq (hpq ▸ hp)
  job _ _ := rfl
  records _ _ _ _ := .refl _
  completions _ _ := id

/-- A change of the status of a project whose lock is held. -/
theorem quiet_updateProject {p : Uuid} {f : ProjectRow → ProjectRow}
    (hp : Lock.project p ∈ H) (hf : ∀ row, (f row).core = row.core) :
    Db.Quiet H d (d.updateProject p f) where
  data _ hq := Db.data_updateProject_of_ne (fun row => congrArg Prod.fst (hf row))
    fun hpq => hq (hpq ▸ hp)
  resembles q := by
    have hid : ∀ row, (f row).id = row.id := fun row => congrArg Prod.fst (hf row)
    by_cases hpq : p = q
    · subst hpq
      refine ⟨?_, rfl, rfl, rfl⟩
      show ((d.updateProject p f).project p).map _ = (d.project p).map _
      rw [Db.project_updateProject hid, Option.map_map]
      congr 1
      exact funext hf
    · rw [Db.data_updateProject_of_ne hid hpq]
      exact .rfl
  job _ _ := rfl
  records := rfl
  completions := rfl
  payloads _ _ := rfl

/-- A change of a restore job whose lock is held. -/
theorem quiet_updateRestoreJob {j : Uuid} {f : RestoreJob → RestoreJob}
    (hj : Lock.restoreJob j ∈ H) (hf : ∀ job, (f job).id = job.id) :
    Db.Quiet H d (d.updateRestoreJob j f) where
  data _ _ := rfl
  resembles _ := .rfl
  job i hi := by
    have hij : i ≠ j := fun h => hi (h ▸ hj)
    unfold Db.restoreJob Db.updateRestoreJob
    rw [find?_updateWhere fun job _ => by rw [hf]]
    cases hfind : d.restoreJobs.find? (·.id == i) with
    | none => rfl
    | some job =>
      have hid := List.find?_some hfind
      rw [beq_iff_eq] at hid
      simp [hid, hij]
  records := rfl
  completions := rfl
  payloads _ _ := rfl

/-- A new restore job whose lock is held. -/
theorem quiet_insertJob {job : RestoreJob} (hj : Lock.restoreJob job.id ∈ H) :
    Db.Quiet H d { d with restoreJobs := d.restoreJobs ++ [job] } where
  data _ _ := rfl
  resembles _ := .rfl
  job i hi := by
    have hij : job.id ≠ i := fun h => hi (h ▸ hj)
    unfold Db.restoreJob
    rw [List.find?_append, List.find?_singleton]
    simp [hij]
  records := rfl
  completions := rfl
  payloads _ _ := rfl

/-- A deletion of idempotency records. -/
theorem moves_filterRecords (p : IdempotencyRecord → Bool) :
    Db.Moves H d { d with idempotencyRecords := d.idempotencyRecords.filter p } where
  data _ _ := rfl
  job _ _ := rfl
  records _ _ _ _ := List.filter_sublist.filter _
  completions _ _ := id

end Writes

/-! ## Quiet calls -/

/-- The writes of a quiet call to the tables `T`. -/
def quietWrite (T : List Table) (H : Set Lock) (w : Db → Db) : Prop :=
  ∀ d, Db.Quiet H d (w d) ∧ d.Touches T (w d)

/-- Every write of the body is quiet, and to the tables `T`. -/
def Quietly {α : Type} (T : List Table) (x : Tx α) : Prop :=
  x.Guarded (quietWrite T) ∅ fun _ _ => True

section Statements

variable {α : Type} {W : Set Lock → (Db → Db) → Prop} {H : Set Lock}

/-- A selected row is there or not, and is locked when it is there. -/
@[simp] theorem guarded_selectForUpdate_iff {l : Lock} {row : Db → Option α}
    {Q : Option α → Set Lock → Prop} :
    (selectForUpdate l row).Guarded W H Q ↔
      ∀ d, (row d = none → Q none H) ∧ ∀ a, row d = some a → ∀ d', Q (row d') (insert l H) := by
  refine forall_congr' fun d => ?_
  cases hrow : row d <;> simp [hrow]

/-- An inserted row is not refused. -/
@[simp] theorem guarded_insertRow_iff {refused : Db → Option DatabaseError} {write : Db → Db}
    {Q : Unit → Set Lock → Prop} :
    (insertRow refused write).Guarded W H Q ↔
      ∀ d, refused d = none → W H write ∧ Q () H := by
  refine forall_congr' fun d => ?_
  cases hrow : refused d <;> simp [hrow]

/-- What follows an insert is guarded when it is. -/
theorem guarded_insertRow_bind {β : Type} {refused : Db → Option DatabaseError}
    {write : Db → Db} {f : Unit → Tx β} {Q : β → Set Lock → Prop} (hw : W H write)
    (hf : (f ()).Guarded W H Q) : ((insertRow refused write).bind f).Guarded W H Q :=
  guarded_bind_iff.mpr (guarded_insertRow_iff.mpr fun _ _ => ⟨hw, hf⟩)

/-- A conflict of keys is another error, and writes nothing. -/
theorem guarded_mapConflict {x : Tx α} {Q : α → Set Lock → Prop} (hx : x.Guarded W H Q) :
    (mapConflict x).Guarded W H Q := by
  unfold mapConflict
  rw [bind_eq, guarded_bind_iff]
  exact Guarded.attempt hx fun _ _ _ => trivial

/-- A row that is read for update and must be there. -/
theorem guarded_lockRow {β : Type} {l : Lock} {row : Db → Option α} {e : PersistenceError}
    {f : α → Tx β} {Q : β → Set Lock → Prop}
    (h : ∀ d a, row d = some a → (f a).Guarded W (insert l H) Q) :
    ((selectForUpdate l row).bind fun o => (orThrow e o).bind f).Guarded W H Q := by
  simp only [guarded_bind_iff, guarded_selectForUpdate_iff, guarded_orThrow_iff]
  exact fun d => ⟨fun _ a ha => (by cases ha), fun _ _ d' a ha => h d' a ha⟩

/-- The reply does not matter. -/
theorem Quietly.replying {β : Type} {x : Tx (Except PersistenceError β)} {f : β → Reply}
    {T : List Table} (hx : Quietly T x) : Quietly T (replying f x) := by
  unfold Quietly TaskTipsCloud.replying
  rw [guarded_bind_iff]
  exact hx.mono fun _ _ _ _ => trivial

end Statements

/-- An audit event is quiet. -/
theorem guarded_insertAudit {T : List Table} {event : AuditEvent} {Q : Unit → Set Lock → Prop}
    {H : Set Lock} (hT : .auditEvents ∈ T) (hQ : Q () H) :
    (insertAudit event).Guarded (quietWrite T) H Q :=
  guarded_insertRow_iff.mpr fun _ _ =>
    ⟨fun _ => ⟨quiet_of_eq rfl fun _ _ => rfl, Db.Touches.writeAuditEvents hT⟩, hQ⟩

/-- What follows an audit event is guarded when it is. -/
theorem guarded_insertAudit_bind {β : Type} {T : List Table} {event : AuditEvent}
    {f : Unit → Tx β} {Q : β → Set Lock → Prop} {H : Set Lock} (hT : .auditEvents ∈ T)
    (h : (f ()).Guarded (quietWrite T) H Q) :
    ((insertAudit event).bind f).Guarded (quietWrite T) H Q :=
  guarded_bind_iff.mpr (guarded_insertAudit hT h)

/-- A check of the state of a project changes nothing, and may lock it. -/
theorem guarded_projectState {W : Set Lock → (Db → Db) → Prop} {H : Set Lock} {role : DbRole}
    {p : Uuid} {forUpdate : Bool} : (projectState role p forUpdate).Guarded W H
      fun _ H' => forUpdate = true → Lock.project p ∈ H' := by
  cases forUpdate with
  | false =>
    refine guarded_query_bind fun d => guarded_orThrow_bind fun row _ => ?_
    exact guarded_require_bind fun _ => nofun
  | true =>
    refine guarded_lockRow fun d row _ => ?_
    exact guarded_require_bind fun _ _ => Set.mem_insert _ _

variable (host : Host) (now : Timestamp)

/-- `disable_project` is quiet. -/
theorem quietly_disableProject (userId projectId : Uuid) :
    Quietly [.projects] (disableProject now userId projectId) := by
  refine guarded_lockRow fun d row _ => ⟨?_, trivial⟩
  exact fun _ => ⟨quiet_updateProject (Set.mem_insert _ _) fun _ => rfl, rfl⟩

/-- `register_device` is quiet. -/
theorem quietly_registerDevice (userId deviceId : Uuid) :
    Quietly [.devices] (registerDevice userId deviceId) := by
  refine guarded_query_bind fun d => ?_
  cases d.device deviceId with
  | some device => exact guarded_require_bind fun _ => trivial
  | none =>
    refine guarded_bind_iff.mpr (guarded_mapConflict ?_)
    exact guarded_insertRow_iff.mpr fun _ _ =>
      ⟨fun _ => ⟨quiet_of_eq rfl fun _ _ => rfl, rfl⟩, trivial⟩

/-- `revoke_device` is quiet. -/
theorem quietly_revokeDevice (userId deviceId : Uuid) (requestId : String) :
    Quietly [.devices, .auditEvents] (revokeDevice now userId deviceId requestId) := by
  refine guarded_query_bind fun d => guarded_orThrow_bind fun device _ => ⟨?_, ?_⟩
  · exact fun _ => ⟨quiet_of_eq rfl fun _ _ => rfl, rfl⟩
  · exact guarded_insertAudit_bind (by decide) trivial

/-- `register_payload` is quiet. -/
theorem quietly_registerPayload (userId projectId payloadId : Uuid) (payload : StoredPayload) :
    Quietly [.payloads] (registerPayload now userId projectId payloadId payload) := by
  refine guarded_lockRow fun d row _ => guarded_require_bind fun _ => ?_
  refine guarded_query_bind fun d' => ?_
  split
  · trivial
  · exact guarded_insertRow_bind (fun _ => ⟨quiet_insertPayload (Set.mem_insert _ _), rfl⟩) trivial

/-- `pull_page` is quiet. -/
theorem quietly_pullPage (a : PullArgs) : Quietly [.devices] (pullPage now a) := by
  refine guarded_projectState.bind fun st H _ _ => ?_
  refine guarded_require_bind fun _ => guarded_require_bind fun _ => guarded_query_bind fun d => ?_
  exact ⟨fun _ => ⟨quiet_of_eq rfl fun _ _ => rfl, rfl⟩, trivial⟩

/-- `prepare_bootstrap_manifest` writes nothing. -/
theorem quietly_prepareBootstrapManifest (order : ScanOrder)
    (userId projectId manifestId : Uuid) :
    Quietly [] (prepareBootstrapManifest host order userId projectId manifestId) := by
  refine guarded_projectState.bind fun st H _ _ => ?_
  exact guarded_query_bind fun d => guarded_orThrow_bind fun _ _ => trivial

/-- `record_bootstrap_manifest` is quiet. -/
theorem quietly_recordBootstrapManifest (userId projectId : Uuid) (manifest : BootstrapManifest)
    (bucket key : String) :
    Quietly [.bootstrapManifests]
      (recordBootstrapManifest now userId projectId manifest bucket key) := by
  refine guarded_acquire_bind (guarded_bind_iff.mpr (guarded_mapConflict ?_))
  exact guarded_insertRow_iff.mpr fun _ _ =>
    ⟨fun _ => ⟨quiet_of_eq rfl fun _ _ => rfl, rfl⟩, trivial⟩

/-- `expire_bootstrap_manifests` is quiet. -/
theorem quietly_expireBootstrapManifests (inBatch : BootstrapManifestRow → Bool) :
    Quietly [.bootstrapManifests] (expireBootstrapManifests now inBatch) :=
  ⟨fun _ => ⟨quiet_of_eq rfl fun _ _ => rfl, rfl⟩, trivial⟩

/-- A pending snapshot is quietly inserted. -/
theorem guarded_insertPendingSnapshot {T : List Table} {H : Set Lock} {Q : Unit → Set Lock → Prop}
    {snapshotId projectId ownerUserId : Uuid} {generation sequence : ℤ} {manifest : Json}
    (hT : .snapshots ∈ T) (hQ : Q () (insert (.snapshot snapshotId) H)) :
    (insertPendingSnapshot host now snapshotId projectId ownerUserId generation sequence
      manifest).Guarded (quietWrite T) H Q := by
  refine guarded_mapConflict (guarded_insertRow_iff.mpr fun _ _ => ⟨?_, hQ⟩)
  exact fun _ => ⟨quiet_of_eq rfl fun _ _ => rfl, Db.Touches.writeSnapshots hT⟩

/-- `snapshot_manifest` is quiet. -/
theorem quietly_snapshotManifest (order : ScanOrder) (userId projectId snapshotId : Uuid) :
    Quietly [.snapshots] (snapshotManifest host now order userId projectId snapshotId) := by
  refine guarded_projectState.bind fun st H _ _ => guarded_query_bind fun d => ?_
  exact guarded_bind_iff.mpr (guarded_insertPendingSnapshot host now (by decide) trivial)

/-- `record_snapshot` is quiet. -/
theorem quietly_recordSnapshot (a : RecordSnapshotArgs) :
    Quietly [.snapshots, .auditEvents] (recordSnapshot a) := by
  refine guarded_bind_iff.mpr ?_
  refine guarded_query_bind fun d => guarded_require_iff.mpr fun _ => ?_
  refine guarded_lockRow fun d row _ => ⟨fun _ => ⟨quiet_of_eq rfl fun _ _ => rfl, rfl⟩, ?_⟩
  exact guarded_insertAudit_bind (by decide) trivial

/-- `mark_snapshot_ready` is quiet. -/
theorem quietly_markSnapshotReady (snapshotId : Uuid) (bucket key : String) :
    Quietly [.snapshots] (markSnapshotReady snapshotId bucket key) := by
  refine guarded_bind_iff.mpr (guarded_selectForUpdate_iff.mpr fun d => ⟨fun _ => trivial, ?_⟩)
  intro _ _ d'
  cases pendingSnapshot snapshotId d' with
  | none => trivial
  | some row => exact ⟨fun _ => ⟨quiet_of_eq rfl fun _ _ => rfl, rfl⟩, trivial⟩

/-- `expire_pending_snapshots` is quiet. -/
theorem quietly_expirePendingSnapshots (olderThan : Timestamp) :
    Quietly [.snapshots] (expirePendingSnapshots olderThan) :=
  ⟨fun _ => ⟨quiet_of_eq rfl fun _ _ => rfl, rfl⟩, trivial⟩

/-- `enqueue_restore` is quiet. -/
theorem quietly_enqueueRestore (a : EnqueueRestoreArgs) :
    Quietly [.restoreJobs, .auditEvents] (enqueueRestore now a) := by
  refine guarded_require_bind fun _ => guarded_projectState.bind fun st H _ _ => ?_
  refine guarded_query_bind fun d => guarded_require_bind fun _ => guarded_require_bind fun _ => ?_
  refine guarded_query_bind fun d => guarded_require_bind fun _ => guarded_bind_iff.mpr ?_
  refine guarded_insertRow_iff.mpr fun _ _ => ⟨?_, guarded_insertAudit_bind (by decide) trivial⟩
  exact fun _ => ⟨quiet_insertJob (Set.mem_insert _ _), rfl⟩

/-- A job is found by its identifier. -/
theorem Db.id_of_restoreJob {d : Db} {jobId : Uuid} {job : RestoreJob}
    (h : d.restoreJob jobId = some job) : job.id = jobId := by
  simpa using List.find?_some h

/-- An updated job is found by its identifier. -/
theorem Db.restoreJob_updateRestoreJob {d : Db} {jobId : Uuid} {f : RestoreJob → RestoreJob}
    (hf : ∀ j, (f j).id = j.id) :
    (d.updateRestoreJob jobId f).restoreJob jobId = (d.restoreJob jobId).map f := by
  unfold Db.restoreJob Db.updateRestoreJob
  dsimp only
  rw [find?_updateWhere fun j _ => by rw [hf]]
  cases hfind : d.restoreJobs.find? (·.id == jobId) with
  | none => rfl
  | some j =>
    have hid : (j.id == jobId) = true := by simpa using List.find?_some hfind
    rw [Option.map_some, Option.map_some, if_pos hid]

/-- A leased job has its identifier. -/
theorem id_of_leasedJob {d : Db} {jobId leaseToken : Uuid} {job : RestoreJob}
    (h : leasedJob jobId leaseToken d = some job) : job.id = jobId :=
  Db.id_of_restoreJob (Option.filter_eq_some_iff.mp h).1

/-- A job of an owner has its identifier. -/
theorem id_of_ownedJob {d : Db} {u p jobId : Uuid} {job : RestoreJob}
    (h : ownedJob u p jobId d = some job) : job.id = jobId :=
  Db.id_of_restoreJob (Option.filter_eq_some_iff.mp h).1

/-- `cancel_restore` is quiet. -/
theorem quietly_cancelRestore (userId projectId restoreId : Uuid) (reason requestId : String) :
    Quietly [.restoreJobs, .auditEvents]
      (cancelRestore now userId projectId restoreId reason requestId) := by
  refine guarded_lockRow fun d job hjob => ?_
  have hlock : Lock.restoreJob job.id ∈ (insert (Lock.restoreJob restoreId) ∅ : Set Lock) := by
    rw [id_of_ownedJob hjob]
    exact Set.mem_insert _ _
  refine Guarded.bind (Q := fun _ _ => True) ?_ fun action H _ _ => ?_
  · unfold cancelJob
    cases job.status with
    | queued | running => exact ⟨fun _ => ⟨quiet_updateRestoreJob hlock fun _ => rfl, rfl⟩, trivial⟩
    | succeeded | failed | cancelled => trivial
  · refine guarded_insertAudit_bind (by decide) (guarded_query_bind fun d => ?_)
    exact guarded_orThrow_bind fun _ _ => trivial

/-- A project that enters maintenance. -/
theorem guarded_enterMaintenance {H : Set Lock} {job : RestoreJob} :
    (enterMaintenance now job).Guarded (quietWrite [.projects, .restoreJobs]) H
      fun _ _ => True := by
  unfold enterMaintenance
  split
  · refine guarded_bind_iff.mpr (guarded_selectForUpdate_iff.mpr fun d => ⟨fun _ => trivial, ?_⟩)
    intro _ _ d'
    split
    · trivial
    · exact ⟨fun _ => ⟨quiet_updateProject (Set.mem_insert _ _) fun _ => rfl, rfl⟩, trivial⟩
  · exact guarded_bind_iff.mpr
      (guarded_selectForUpdate_iff.mpr fun d => ⟨fun _ => trivial, fun _ _ _ => trivial⟩)

/-- `claim_restore_job` is quiet. -/
theorem quietly_claimRestoreJob (skipLocked : List Uuid) (leaseToken : Uuid) :
    Quietly [.projects, .restoreJobs] (claimRestoreJob now skipLocked leaseToken) := by
  refine guarded_query_bind fun d => ?_
  cases nextRestoreJob now skipLocked d with
  | none => trivial
  | some found =>
    refine guarded_bind_iff.mpr (guarded_selectForUpdate_iff.mpr fun d => ⟨fun _ => trivial, ?_⟩)
    intro _ _ d'
    cases hjob : (d'.restoreJob found.id).filter (·.claimable now) with
    | none => trivial
    | some job =>
      have hid : job.id = found.id := Db.id_of_restoreJob (Option.filter_eq_some_iff.mp hjob).1
      have hlock : Lock.restoreJob job.id ∈ (insert (Lock.restoreJob found.id) ∅ : Set Lock) := by
        rw [hid]
        exact Set.mem_insert _ _
      refine Guarded.bind (Q := fun _ _ => True) ?_ fun generation H hH _ => ?_
      · exact guarded_enterMaintenance now
      · cases generation with
        | none => exact ⟨fun _ => ⟨quiet_updateRestoreJob (hH hlock) fun _ => rfl, rfl⟩, trivial⟩
        | some generation =>
          exact ⟨fun _ => ⟨quiet_updateRestoreJob (hH hlock) fun _ => rfl, rfl⟩,
            guarded_query_bind fun _ => trivial⟩

/-- `create_pre_restore_snapshot` is quiet. -/
theorem quietly_createPreRestoreSnapshot (order : ScanOrder)
    (projectId jobId leaseToken snapshotId : Uuid) :
    Quietly [.snapshots, .restoreJobs]
      (createPreRestoreSnapshot host now order projectId jobId leaseToken snapshotId) := by
  refine guarded_query_bind fun d => ?_
  cases leasedJobAndProject projectId jobId leaseToken d with
  | none => trivial
  | some _ =>
    refine guarded_lockRow fun d row _ => guarded_require_bind fun _ =>
      guarded_query_bind fun d => ?_
    refine guarded_bind_iff.mpr
      (guarded_insertPendingSnapshot host now (by decide) ⟨fun _ => ?_, trivial⟩)
    exact ⟨quiet_updateRestoreJob (by simp) fun _ => rfl, rfl⟩

/-- `mark_snapshot_ready_for_job` is quiet. -/
theorem quietly_markSnapshotReadyForJob (jobId leaseToken snapshotId : Uuid)
    (bucket key : String) :
    Quietly [.snapshots] (markSnapshotReadyForJob jobId leaseToken snapshotId bucket key) := by
  refine guarded_bind_iff.mpr (guarded_selectForUpdate_iff.mpr fun d => ⟨fun _ => trivial, ?_⟩)
  intro _ _ d'
  split
  · trivial
  · exact ⟨fun _ => ⟨quiet_of_eq rfl fun _ _ => rfl, rfl⟩, trivial⟩

/-- A change of the job whose lease is held. -/
theorem guarded_updateLeasedJob {T : List Table} {H : Set Lock} {jobId leaseToken : Uuid}
    {f : RestoreJob → RestoreJob} (hT : .restoreJobs ∈ T) (hf : ∀ job, (f job).id = job.id) :
    (updateLeasedJob jobId leaseToken f).Guarded (quietWrite T) H fun _ _ => True := by
  refine guarded_bind_iff.mpr (guarded_selectForUpdate_iff.mpr fun d => ⟨fun _ => trivial, ?_⟩)
  intro _ _ d'
  cases leasedJob jobId leaseToken d' with
  | none => trivial
  | some job =>
    exact ⟨fun _ => ⟨quiet_updateRestoreJob (Set.mem_insert _ _) hf, .updateRestoreJob hT⟩, trivial⟩

/-- `renew_restore_lease` is quiet. -/
theorem quietly_renewRestoreLease (jobId leaseToken : Uuid) :
    Quietly [.restoreJobs] (renewRestoreLease now jobId leaseToken) := by
  refine (guarded_updateLeasedJob (by decide) ?_).bind fun row H _ _ => ?_
  · exact fun _ => rfl
  · cases row <;> trivial

/-- A project that is reopened. -/
theorem guarded_leaveMaintenance {H : Set Lock} {projectId : Uuid} :
    (leaveMaintenance now projectId).Guarded (quietWrite [.projects, .restoreJobs, .auditEvents])
      H fun _ _ => True := by
  refine guarded_bind_iff.mpr (guarded_selectForUpdate_iff.mpr fun d => ⟨fun _ => trivial, ?_⟩)
  intro _ _ d'
  split
  · trivial
  · exact ⟨fun _ => ⟨quiet_updateProject (Set.mem_insert _ _) fun _ => rfl, rfl⟩, trivial⟩

/-- `cancel_restore_with_lease` is quiet. -/
theorem quietly_cancelRestoreWithLease (jobId leaseToken : Uuid) :
    Quietly [.projects, .restoreJobs, .auditEvents]
      (cancelRestoreWithLease now jobId leaseToken) := by
  refine guarded_lockRow fun d job hjob => guarded_require_bind fun _ => ⟨fun _ => ?_, ?_⟩
  · exact ⟨quiet_updateRestoreJob (Set.mem_insert _ _) fun _ => rfl, rfl⟩
  · exact (guarded_leaveMaintenance now).bind fun _ _ _ _ =>
      guarded_insertAudit_bind (by decide) trivial

/-- `fail_restore_job_with_lease` is quiet. -/
theorem quietly_failRestoreJobWithLease (jobId leaseToken : Uuid) (errorCode : String) :
    Quietly [.restoreJobs] (failRestoreJobWithLease now jobId leaseToken errorCode) := by
  rw [Quietly, failRestoreJobWithLease, discard_eq]
  refine guarded_bind_iff.mpr ((guarded_updateLeasedJob (by decide) ?_).bind fun _ _ _ _ => trivial)
  exact fun _ => rfl

/-- `retry_restore_job_with_lease` is quiet. -/
theorem quietly_retryRestoreJobWithLease (jobId leaseToken : Uuid) (errorCode : String) :
    Quietly [.restoreJobs] (retryRestoreJobWithLease now jobId leaseToken errorCode) := by
  refine (guarded_updateLeasedJob (by decide) ?_).bind fun row H _ _ => ?_
  · exact fun _ => rfl
  · cases row <;> trivial

/-- `reopen_failed_restore` is quiet. -/
theorem quietly_reopenFailedRestore (actorUserId projectId : Uuid) (reason requestId : String) :
    Quietly [.projects, .auditEvents]
      (reopenFailedRestore now actorUserId projectId reason requestId) := by
  refine guarded_bind_iff.mpr (guarded_query_bind fun d => guarded_require_iff.mpr fun _ => ?_)
  refine guarded_lockRow fun d row _ => guarded_require_bind fun _ => guarded_query_bind fun d => ?_
  refine guarded_require_bind fun _ => ⟨fun _ => ?_, guarded_insertAudit_bind (by decide) trivial⟩
  exact ⟨quiet_updateProject (Set.mem_insert _ _) fun _ => rfl, rfl⟩

/-! ## The other calls -/

/-- The writes of a call. -/
def moveWrite (H : Set Lock) (w : Db → Db) : Prop := ∀ d, Db.Moves H d (w d)

/-- Every write of the body is made under its locks. -/
def Movingly {α : Type} (x : Tx α) : Prop := x.Guarded moveWrite ∅ fun _ _ => True

/-- What is quiet moves. -/
theorem Quietly.movingly {α : Type} {T : List Table} {x : Tx α} (h : Quietly T x) : Movingly x :=
  h.weaken fun _ _ hw d => (hw d).1.moves

/-- The reply does not matter for a move. -/
theorem Movingly.replying {β : Type} {x : Tx (Except PersistenceError β)} {f : β → Reply}
    (hx : Movingly x) : Movingly (replying f x) := by
  unfold Movingly TaskTipsCloud.replying
  rw [guarded_bind_iff]
  exact hx.mono fun _ _ _ _ => trivial

section Moves

variable {H : Set Lock} {d : Db}

/-- A new project whose lock is held. -/
theorem moves_insertProject {row : ProjectRow} (hp : Lock.project row.id ∈ H) :
    Db.Moves H d { d with projects := d.projects ++ [row] } where
  data p hp' := by
    have hne : row.id ≠ p := fun h => hp' (h ▸ hp)
    simp [Db.data, Db.project, Db.revisionsOf, Db.headsOf, Db.logOf, List.find?_append, hne]
  job _ _ := rfl
  records _ _ _ _ := .refl _
  completions _ _ := id

/-- A new revision of a project whose lock is held. -/
theorem moves_insertRevision {r : ObjectRevision} (hp : Lock.project r.projectId ∈ H) :
    Db.Moves H d { d with objectRevisions := d.objectRevisions ++ [r] } where
  data p hp' := by
    have hne : r.projectId ≠ p := fun h => hp' (h ▸ hp)
    simp [Db.data, Db.project, Db.revisionsOf, Db.headsOf, Db.logOf, hne]
  job _ _ := rfl
  records _ _ _ _ := .refl _
  completions _ _ := id

/-- A new head in a project whose lock is held. -/
theorem moves_putHead {h : ObjectHead} (hp : Lock.project h.projectId ∈ H) :
    Db.Moves H d { d with objectHeads := putHead h d.objectHeads } where
  data p hp' := by
    have hne : h.projectId ≠ p := fun heq => hp' (heq ▸ hp)
    have hheads : (putHead h d.objectHeads).filter (·.projectId == p) =
        d.objectHeads.filter (·.projectId == p) := by
      refine filter_upsert_of_not (by simpa using hne) (fun x hx => ?_) fun _ _ => rfl
      simp only [ObjectHead.sameObject, Bool.and_eq_true, beq_iff_eq] at hx
      simpa [hx] using hne
    simp [Db.data, Db.project, Db.revisionsOf, Db.headsOf, Db.logOf, hheads]
  job _ _ := rfl
  records _ _ _ _ := .refl _
  completions _ _ := id

/-- A new entry in the log of a project whose lock is held. -/
theorem moves_insertLogEntry {c : ChangeLogEntry} (hp : Lock.project c.projectId ∈ H) :
    Db.Moves H d { d with changeLog := d.changeLog ++ [c] } where
  data p hp' := by
    have hne : c.projectId ≠ p := fun h => hp' (h ▸ hp)
    simp [Db.data, Db.project, Db.revisionsOf, Db.headsOf, Db.logOf, hne]
  job _ _ := rfl
  records _ _ _ _ := .refl _
  completions _ _ := id

/-- A new record of a push key whose lock is held. -/
theorem moves_insertRecord {r : IdempotencyRecord}
    (hk : Lock.push r.ownerUserId r.deviceId r.requestKey ∈ H) :
    Db.Moves H d { d with idempotencyRecords := d.idempotencyRecords ++ [r] } where
  data _ _ := rfl
  job _ _ := rfl
  records u v k hk' := by
    have hne : ¬ (r.ownerUserId = u ∧ r.deviceId = v ∧ r.requestKey = k) := by
      rintro ⟨rfl, rfl, rfl⟩
      exact hk' hk
    have hnone :
        [r].filter (fun r => r.ownerUserId == u && r.deviceId == v && r.requestKey == k) = [] := by
      simpa [and_assoc] using hne
    rw [Db.recordsOf, List.filter_append, hnone, List.append_nil]
    exact .refl _
  completions _ _ := id

/-- A completed bootstrap. -/
theorem moves_upsertCompletion {c : BootstrapCompletion}
    {same : BootstrapCompletion → Bool} {renew : BootstrapCompletion → BootstrapCompletion}
    (hrenew : ∀ x, (renew x).projectId = x.projectId ∧ (renew x).deviceId = x.deviceId ∧
      (renew x).generation = x.generation ∧ (renew x).ownerUserId = x.ownerUserId) :
    Db.Moves H d { d with bootstrapCompletions := upsert same c renew d.bootstrapCompletions } where
  data _ _ := rfl
  job _ _ := rfl
  records _ _ _ _ := .refl _
  completions a g h := by
    obtain ⟨x, hx, hkey⟩ := List.any_eq_true.mp h
    refine List.any_eq_true.mpr ?_
    unfold upsert
    split
    · refine ⟨if same x then renew x else x, List.mem_map_of_mem hx, ?_⟩
      by_cases hsame : same x = true
      · simpa [hsame, hrenew x] using hkey
      · simpa [hsame] using hkey
    · exact ⟨x, List.mem_append_left _ hx, hkey⟩

end Moves

/-- `create_project` moves. -/
theorem movingly_createProject (userId projectId : Uuid) (name : String) :
    Movingly (createProject now userId projectId name) := by
  refine guarded_acquire_bind (guarded_insertRow_bind (fun _ => ?_) trivial)
  exact moves_insertProject (Set.mem_insert _ _)

/-- The writes of a body leave all tables but that of the payloads. -/
def payloadWrite (_ : Set Lock) (w : Db → Db) : Prop :=
  ∀ d, w d = { d with payloads := (w d).payloads }

/-- The collection of a payload writes payloads only. -/
theorem guarded_collectPayload (projectId : Uuid) (contentHash : String)
    (olderThan : Timestamp) :
    (collectPayload projectId contentHash olderThan).Guarded payloadWrite ∅
      fun _ _ => True := by
  refine guarded_query_bind fun d => ?_
  cases unreferencedPayload projectId contentHash olderThan d with
  | none => trivial
  | some found =>
    refine guarded_bind_iff.mpr (guarded_selectForUpdate_iff.mpr fun d => ⟨fun _ => trivial, ?_⟩)
    intro _ _ d'
    cases unreferencedPayload projectId contentHash olderThan d' with
    | none => trivial
    | some payload => exact ⟨fun _ => rfl, trivial⟩

/-- The collection of a payload moves. -/
theorem movingly_collectPayload (projectId : Uuid) (contentHash : String)
    (olderThan : Timestamp) : Movingly (collectPayload projectId contentHash olderThan) := by
  refine (guarded_collectPayload projectId contentHash olderThan).weaken fun _ _ hw d => ?_
  rw [hw d]
  exact moves_of_eq rfl

/-- `purge_expired_idempotency_records` moves. -/
theorem movingly_purgeExpiredIdempotencyRecords (inBatch : IdempotencyRecord → Bool) :
    Movingly (purgeExpiredIdempotencyRecords now inBatch) :=
  ⟨fun _ => moves_filterRecords _, trivial⟩

/-- `bootstrap_manifest_page` moves. -/
theorem movingly_bootstrapManifestPage (a : BootstrapPageArgs) :
    Movingly (bootstrapManifestPage now a) := by
  refine guarded_projectState.bind fun st H _ _ => guarded_query_bind fun d => ?_
  refine guarded_orThrow_bind fun manifest _ => ?_
  refine guarded_require_bind fun _ => guarded_require_bind fun _ => ?_
  rcases manifestPage manifest.items a.offset a.limit with ⟨records, hasMore⟩
  cases hasMore with
  | true => trivial
  | false => exact guarded_insertRow_bind (fun _ => moves_upsertCompletion (by simp)) trivial

/-- The statements that append a revision write to its project only. -/
theorem guarded_appendRevision {H : Set Lock} {role : DbRole} {r : ObjectRevision}
    (hp : Lock.project r.projectId ∈ H) :
    (appendRevision role now r).Guarded moveWrite H fun _ _ => True := by
  refine Guarded.bind (Q := fun _ _ => True) ?_ fun sequence H₁ h₁ _ => ?_
  · refine guarded_query_bind fun d => guarded_orThrow_bind fun row _ => ⟨fun _ => ?_, trivial⟩
    exact moves_updateProject hp fun _ => rfl
  refine Guarded.bind (Q := fun i _ => i = r.id) ?_ fun i H₂ h₂ hi => ?_
  · refine Guarded.bind (Q := fun _ _ => True) ?_ fun _ H₂ h₂ _ => ?_
    · cases hpayload : r.payloadId <;> trivial
    · refine guarded_insertRow_bind (fun _ => ?_) rfl
      exact moves_insertRevision (h₂ (h₁ hp))
  · subst hi
    refine ⟨fun _ => moves_putHead (h₂ (h₁ hp)), ?_⟩
    refine guarded_insertRow_bind (fun _ => ?_) trivial
    exact moves_insertLogEntry (h₂ (h₁ hp))

/-- An audit event concerns no lock. -/
theorem guarded_moves_insertAudit {H : Set Lock} {event : AuditEvent} {Q : Unit → Set Lock → Prop}
    (hQ : Q () H) : (insertAudit event).Guarded moveWrite H Q :=
  (guarded_insertAudit (List.mem_singleton_self _) hQ).weaken fun _ _ hw d => (hw d).1.moves

/-- The items of a push write to its project only. -/
theorem guarded_pushItems {H : Set Lock} {a : PushArgs} (hp : Lock.project a.projectId ∈ H)
    (revisions : List NewSyncRevision) :
    (pushItems now a revisions).Guarded moveWrite H fun _ _ => True := by
  induction revisions generalizing H with
  | nil => trivial
  | cons revision revisions ih =>
    refine Guarded.bind (Q := fun _ _ => True) ?_ fun result H₁ h₁ _ => ?_
    · refine guarded_query_bind fun d => ?_
      split
      · trivial
      · refine Guarded.bind (Q := fun _ _ => True) ?_ fun payload H₁ h₁ _ => ?_
        · unfold itemPayload
          split
          · trivial
          · cases revision.contentHash with
            | none => trivial
            | some contentHash => exact guarded_query_bind fun _ => trivial
        · cases payload with
          | error rejected => trivial
          | ok payloadId => exact (guarded_appendRevision now (h₁ hp)).bind fun _ _ _ _ => trivial
    · exact (ih (h₁ hp)).bind fun _ _ _ _ => trivial

/-- The record of a push is written under the lock of its key. -/
theorem guarded_insertIdempotencyRecord {H : Set Lock} {a : PushArgs} {response : Json}
    {status : ℤ} (hk : Lock.push a.userId a.deviceId a.requestKey ∈ H) :
    (insertIdempotencyRecord now a response status).Guarded moveWrite H fun _ _ => True :=
  guarded_insertRow_iff.mpr fun _ _ => ⟨fun _ => moves_insertRecord hk, trivial⟩

/-- A failure is recorded under the lock of the push. -/
theorem guarded_storePushFailure {H : Set Lock} {a : PushArgs} {error : PersistenceError}
    (hk : Lock.push a.userId a.deviceId a.requestKey ∈ H) :
    (storePushFailure now a error).Guarded moveWrite H fun _ _ => True := by
  unfold storePushFailure
  split
  · trivial
  · exact guarded_bind_iff.mpr (guarded_mapConflict
      ((guarded_insertIdempotencyRecord now hk).mono fun _ _ _ _ => trivial))

/-- A failed push ends under its lock. -/
theorem guarded_failPush {H : Set Lock} {a : PushArgs} {error : PersistenceError}
    (hk : Lock.push a.userId a.deviceId a.requestKey ∈ H) :
    (failPush now a error).Guarded moveWrite H fun _ _ => True := by
  rw [failPush, discard_eq]
  exact guarded_bind_iff.mpr ((guarded_storePushFailure now hk).bind fun _ _ _ _ => trivial)

/-- A push is executed under its lock. -/
theorem guarded_executePush {H : Set Lock} {a : PushArgs}
    (hk : Lock.push a.userId a.deviceId a.requestKey ∈ H) :
    (executePush host now a).Guarded moveWrite H fun _ _ => True := by
  refine Guarded.bind (Q := fun st H' => ∀ v, st = .ok v → Lock.project a.projectId ∈ H') ?_ ?_
  · refine Guarded.attempt (guarded_projectState.mono fun v H' _ hlock _ _ => hlock rfl) ?_
    exact fun e H' _ => nofun
  · intro st H₁ h₁ hlock
    rcases st with error | ⟨generation, sequence⟩
    · refine (guarded_storePushFailure now (h₁ hk)).bind fun stored H₂ _ _ => ?_
      cases stored <;> trivial
    · have hp : Lock.project a.projectId ∈ H₁ := hlock _ rfl
      dsimp only
      split
      · exact guarded_failPush now (h₁ hk)
      · refine guarded_query_bind fun d => ?_
        split
        · exact guarded_failPush now (h₁ hk)
        · refine (guarded_pushItems now hp _).bind fun results H₂ h₂ _ => ?_
          refine guarded_orThrow_bind fun response _ => ?_
          refine (guarded_insertIdempotencyRecord now (h₂ (h₁ hk))).bind fun _ _ _ _ =>
            ⟨?_, trivial⟩
          exact fun _ => moves_of_eq rfl

/-- `push_with_outcome` moves. -/
theorem movingly_pushWithOutcome (a : PushArgs) : Movingly (pushWithOutcome host now a) := by
  refine guarded_acquire_bind ⟨fun _ => moves_filterRecords _, guarded_query_bind fun d => ?_⟩
  cases (d.recordsFor a).head? with
  | none => exact guarded_executePush host now (Set.mem_insert _ _)
  | some r =>
    unfold replayPush
    dsimp only
    split
    · split <;> trivial
    · trivial

/-- The items of a restore write to its project only. -/
theorem guarded_restoreItems {H : Set Lock} {projectId ownerUserId : Uuid}
    {current : List ManifestRow} (hp : Lock.project projectId ∈ H) (items : List ManifestItem)
    (counts : RestoredCounts) :
    (restoreItems now projectId ownerUserId current items counts).Guarded moveWrite H
      fun _ _ => True := by
  induction items generalizing H counts with
  | nil => trivial
  | cons item items ih =>
    unfold restoreItems
    dsimp only
    split
    · exact ih hp counts
    · refine Guarded.bind (Q := fun _ _ => True) ?_ fun payload H₁ h₁ _ => ?_
      · unfold restorePayload
        split
        · trivial
        · refine guarded_orThrow_bind fun _ _ => guarded_query_bind fun _ => ?_
          exact guarded_orThrow_bind fun _ _ => trivial
      · rw [discard_eq]
        refine Guarded.bind (Q := fun _ _ => True) ?_ fun _ H₂ h₂ _ => ih (h₂ (h₁ hp)) _
        exact (guarded_appendRevision now (h₁ hp)).bind fun _ _ _ _ => trivial

/-- `execute_restore_with_lease` moves. -/
theorem movingly_executeRestoreWithLease (targetOrder currentOrder : ScanOrder)
    (jobId leaseToken : Uuid) :
    Movingly (executeRestoreWithLease now targetOrder currentOrder jobId leaseToken) := by
  refine guarded_lockRow fun d job hjob => guarded_require_bind fun _ => ?_
  refine guarded_lockRow fun d project _ => ?_
  refine Guarded.bind (Q := fun _ _ => True) ?_ fun target H₁ h₁ _ => guarded_query_bind fun d => ?_
  · unfold restoreTarget
    cases job.snapshotId with
    | some snapshotId =>
      refine guarded_query_bind fun d => guarded_orThrow_bind fun manifest _ => ?_
      cases manifestItems manifest <;> trivial
    | none =>
      cases job.targetChangeSequence with
      | none => trivial
      | some sequence => exact guarded_query_bind fun d => trivial
  · have hp : Lock.project job.projectId ∈ H₁ := h₁ (Set.mem_insert _ _)
    have hj : Lock.restoreJob job.id ∈ H₁ := by
      rw [id_of_leasedJob hjob]
      exact h₁ (by simp)
    refine (guarded_restoreItems now hp _ _).bind fun counts H₂ h₂ _ => ?_
    refine guarded_bind_iff.mpr ⟨fun _ => moves_updateProject (h₂ hp) fun _ => rfl, fun _ => ?_, ?_⟩
    · exact Db.Quiet.moves (quiet_updateRestoreJob (h₂ hj) fun _ => rfl)
    · exact guarded_moves_insertAudit trivial

/-! ## Every call -/

/-- The calls that change at most the status of a project, and delete neither a record nor a
payload. -/
def Call.isQuiet : Call → Bool
  | .createProject .. | .collectPayload .. | .pushWithOutcome .. | .bootstrapManifestPage ..
  | .purgeExpiredIdempotencyRecords .. | .executeRestoreWithLease .. => false
  | _ => true

/-- A quiet call writes quietly. -/
theorem Call.quietly_body {call : Call} (h : call.isQuiet = true) :
    Quietly call.tables (call.body host now) := by
  cases call with
  | createProject | collectPayload | pushWithOutcome | bootstrapManifestPage
  | purgeExpiredIdempotencyRecords | executeRestoreWithLease => cases h
  | disableProject => exact .replying (by apply quietly_disableProject)
  | registerDevice => exact .replying (by apply quietly_registerDevice)
  | revokeDevice => exact .replying (by apply quietly_revokeDevice)
  | registerPayload => exact .replying (by apply quietly_registerPayload)
  | pullPage => exact .replying (by apply quietly_pullPage)
  | prepareBootstrapManifest => exact .replying (by apply quietly_prepareBootstrapManifest)
  | recordBootstrapManifest => exact .replying (by apply quietly_recordBootstrapManifest)
  | expireBootstrapManifests => exact .replying (by apply quietly_expireBootstrapManifests)
  | snapshotManifest => exact .replying (by apply quietly_snapshotManifest)
  | recordSnapshot => exact .replying (by apply quietly_recordSnapshot)
  | markSnapshotReady => exact .replying (by apply quietly_markSnapshotReady)
  | expirePendingSnapshots => exact .replying (by apply quietly_expirePendingSnapshots)
  | enqueueRestore => exact .replying (by apply quietly_enqueueRestore)
  | cancelRestore => exact .replying (by apply quietly_cancelRestore)
  | claimRestoreJob => exact .replying (by apply quietly_claimRestoreJob)
  | renewRestoreLease => exact .replying (by apply quietly_renewRestoreLease)
  | createPreRestoreSnapshot => exact .replying (by apply quietly_createPreRestoreSnapshot)
  | markSnapshotReadyForJob => exact .replying (by apply quietly_markSnapshotReadyForJob)
  | cancelRestoreWithLease => exact .replying (by apply quietly_cancelRestoreWithLease)
  | failRestoreJobWithLease => exact .replying (by apply quietly_failRestoreJobWithLease)
  | retryRestoreJobWithLease => exact .replying (by apply quietly_retryRestoreJobWithLease)
  | reopenFailedRestore => exact .replying (by apply quietly_reopenFailedRestore)

/-- Every call writes under its locks. -/
theorem Call.movingly_body (call : Call) : Movingly (call.body host now) := by
  by_cases h : call.isQuiet = true
  · exact (call.quietly_body host now h).movingly
  · cases call with
    | createProject => exact .replying (by apply movingly_createProject)
    | collectPayload => exact .replying (by apply movingly_collectPayload)
    | pushWithOutcome => exact .replying (by apply movingly_pushWithOutcome)
    | bootstrapManifestPage => exact .replying (by apply movingly_bootstrapManifestPage)
    | purgeExpiredIdempotencyRecords =>
      exact .replying (by apply movingly_purgeExpiredIdempotencyRecords)
    | executeRestoreWithLease => exact .replying (by apply movingly_executeRestoreWithLease)
    | _ => simp [isQuiet] at h

end TaskTipsCloud

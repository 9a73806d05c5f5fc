import TaskTipsCloud.Statements

/-!
# Snapshots

A snapshot keeps the heads of a project as JSON. Its row is written as pending with the manifest,
and becomes ready once the object store holds the manifest's bytes.
-/

namespace TaskTipsCloud

open Txn

/-- The heads of a project, in the order of the scan. -/
def headRows (role : DbRole) (order : ScanOrder) (projectId : Uuid) (d : Db) :
    List ManifestRow :=
  order.arrange ((d.data projectId).visible role).headRecords

/-- The place of a manifest in the object store. -/
def manifestKey (ownerUserId projectId snapshotId : Uuid) : String :=
  "users/" ++ ownerUserId.text ++ "/projects/" ++ projectId.text ++ "/snapshots/" ++
    snapshotId.text ++ "/manifest.json"

namespace Db

/-- The snapshot with an identifier. -/
def snapshot (d : Db) (snapshotId : Uuid) : Option SnapshotRow :=
  d.snapshots.find? (·.id == snapshotId)

/-- Applies `f` to the snapshots that satisfy `p`. -/
def updateSnapshots (d : Db) (p : SnapshotRow → Bool) (f : SnapshotRow → SnapshotRow) : Db :=
  { d with snapshots := updateWhere p f d.snapshots }

/-- Applies `f` to the snapshot with an identifier. -/
def updateSnapshot (d : Db) (snapshotId : Uuid) (f : SnapshotRow → SnapshotRow) : Db :=
  d.updateSnapshots (·.id == snapshotId) f

end Db

/-- `INSERT INTO snapshots`, in the pending state. -/
def insertPendingSnapshot (host : Host) (now : Timestamp)
    (snapshotId projectId ownerUserId : Uuid) (generation sequence : ℤ) (manifest : Json) :
    Tx Unit := do
  acquire (.snapshot snapshotId)
  let manifestHash := host.sha256Hex manifest
  mapConflict <| insertRow
    (fun d => firstViolation
      [(0 < generation, .checkViolation),
        (0 ≤ sequence, .checkViolation),
        ((d.snapshot snapshotId).isNone, .uniqueViolation),
        (d.snapshots.all fun x => !(x.projectId == projectId && x.manifestHash == manifestHash),
          .uniqueViolation),
        (d.hasProject projectId ownerUserId, .foreignKeyViolation),
        (d.users.any (·.id == ownerUserId), .foreignKeyViolation)])
    fun d => { d with snapshots := d.snapshots ++
      [{ id := snapshotId, projectId := projectId, ownerUserId := ownerUserId,
         generation := generation, changeSequence := sequence, manifestHash := manifestHash,
         manifestBucket := "pending",
         manifestKey := manifestKey ownerUserId projectId snapshotId,
         manifest := manifest, status := .pending, createdBy := ownerUserId,
         createdAt := now }] }

/-- Builds the manifest of a snapshot at the current sequence of its project. -/
def snapshotManifest (host : Host) (now : Timestamp) (order : ScanOrder)
    (userId projectId snapshotId : Uuid) : Tx (Except PersistenceError (ℤ × ℤ × Json)) := do
  let (generation, sequence) ← requireActiveProjectForUpdate (.app userId) projectId
  let rows ← query (headRows (.app userId) order projectId)
  let manifest := snapshotManifestJson host snapshotId generation sequence rows
  insertPendingSnapshot host now snapshotId projectId userId generation sequence manifest
  return .ok (generation, sequence, manifest)

/-- The arguments with which a verified manifest is recorded. -/
structure RecordSnapshotArgs where
  userId : Uuid
  projectId : Uuid
  snapshotId : Uuid
  generation : ℤ
  changeSequence : ℤ
  manifestHash : String
  manifestBucket : String
  manifestKey : String
  manifest : Json

/-- The pending snapshot that a verified manifest belongs to. -/
def recordableSnapshot (a : RecordSnapshotArgs) (d : Db) : Option SnapshotRow :=
  (d.snapshot a.snapshotId).filter fun x =>
    x.projectId == a.projectId && x.ownerUserId == a.userId && x.generation == a.generation &&
      x.changeSequence == a.changeSequence && x.manifestHash == a.manifestHash &&
      x.status == .pending

/-- Records a verified manifest. -/
def recordSnapshot (a : RecordSnapshotArgs) : Tx (Except PersistenceError SnapshotRow) := do
  ensureProjectVisible (.app a.userId) a.projectId
  let row ← selectForUpdate (.snapshot a.snapshotId) (recordableSnapshot a)
  let row ← orThrow .notFound row
  let ready (x : SnapshotRow) : SnapshotRow :=
    { x with manifestBucket := a.manifestBucket, manifestKey := a.manifestKey,
             manifest := a.manifest, status := .ready }
  modify (·.updateSnapshot a.snapshotId ready)
  insertAudit
    { actorUserId := some a.userId, subjectUserId := some a.userId, projectId := none,
      action := "snapshot.created",
      metadata := .obj [("projectId", a.projectId.toJson), ("snapshotId", a.snapshotId.toJson),
        ("generation", .num a.generation)],
      requestId := some "snapshot" }
  return .ok (ready row)

/-- The snapshot with an identifier, if it is pending. -/
def pendingSnapshot (snapshotId : Uuid) (d : Db) : Option SnapshotRow :=
  (d.snapshot snapshotId).filter (·.status == .pending)

/-- Makes a pending snapshot ready. -/
def markSnapshotReady (snapshotId : Uuid) (bucket key : String) :
    Tx (Except PersistenceError Unit) := do
  match ← selectForUpdate (.snapshot snapshotId) (pendingSnapshot snapshotId) with
  | none => return .ok ()
  | some _ =>
    modify (·.updateSnapshot snapshotId fun x =>
      { x with manifestBucket := bucket, manifestKey := key, status := .ready })
    return .ok ()

/-- Marks the pending snapshots that are too old as failed. -/
def expirePendingSnapshots (olderThan : Timestamp) : Tx (Except PersistenceError Unit) := do
  modify (·.updateSnapshots (fun x => x.status == .pending && x.createdAt < olderThan)
    fun x => { x with status := .failed })
  return .ok ()

end TaskTipsCloud

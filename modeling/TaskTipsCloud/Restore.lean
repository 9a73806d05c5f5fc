import TaskTipsCloud.RestoreJobs

/-!
# Restore

`execute_restore_with_lease` of `crates/persistence/src/lib.rs`. A restore takes the state that a
project had at its target, and appends a revision for every object whose head differs from it; an
object that the target does not have becomes a tombstone. Then the project gets its next generation
and becomes active.
-/

namespace TaskTipsCloud

open Txn

/-- Whether the head of an object is the revision that the target has. -/
def sameManifestState (row : ManifestRow) (item : ManifestItem) : Bool :=
  row.kind == item.kind && row.id == item.id && row.tombstone == item.tombstone &&
    row.schemaVersion == item.schemaVersion && row.contentHash == item.contentHash &&
    row.revision == item.revision

/-- The manifest of a ready snapshot. -/
def readyManifest (snapshotId projectId : Uuid) (d : Db) : Option Json :=
  ((d.snapshot snapshotId).filter fun x =>
    x.projectId == projectId && x.status == .ready).map (·.manifest)

/-- The latest record of each object of a project up to a sequence, in the order of the scan. -/
def rankedRows (role : DbRole) (order : ScanOrder) (projectId : Uuid) (sequence : ℤ) (d : Db) :
    List ManifestRow :=
  order.arrange (rankedRecords ((d.data projectId).visible role).records sequence)

/-- The target of a restore. -/
def restoreTarget (order : ScanOrder) (job : RestoreJob) : Tx (List ManifestItem) := do
  match job.snapshotId with
  | some snapshotId =>
    let manifest ← query (readyManifest snapshotId job.projectId)
    let manifest ← orThrow .notFound manifest
    match manifestItems manifest with
    | .error e => .throw e
    | .ok items => return items
  | none =>
    match job.targetChangeSequence with
    | some sequence =>
      let rows ← query (rankedRows .worker order job.projectId sequence)
      return rows.map manifestItemFromRow
    | none => .throw .invalidRestoreTarget

/-- The deletion of an object that the target does not have. -/
def deletionOf (row : ManifestRow) : ManifestItem where
  kind := row.kind
  id := row.id
  schemaVersion := none
  revision := 0
  contentHash := none
  deviceId := row.deviceId
  tombstone := true

/-- The target with a deletion for every current object that it does not have. -/
def withDeletions (target : List ManifestItem) (current : List ManifestRow) :
    List ManifestItem :=
  current.foldl (fun target row =>
    if target.any fun item => item.kind == row.kind && item.id == row.id then target
    else target ++ [deletionOf row]) target

/-- The current head of the object of an item. -/
def existingRow (current : List ManifestRow) (item : ManifestItem) : Option ManifestRow :=
  current.find? fun row => row.kind == item.kind && row.id == item.id

/-- The payload of an item. -/
def restorePayload (projectId : Uuid) (item : ManifestItem) : Tx (Option Uuid) := do
  if item.tombstone then return none
  else
    let contentHash ← orThrow .invalidPayload item.contentHash
    let payload ← query (·.payload .worker projectId contentHash)
    let payload ← orThrow .payloadNotFound payload
    return some payload.id

/-- The revision that restores an item on top of the revision `actual` of its object. -/
def restoredRevision (now : Timestamp) (projectId ownerUserId : Uuid) (item : ManifestItem)
    (actual : ℤ) (payloadId : Option Uuid) : ObjectRevision where
  projectId := projectId
  ownerUserId := ownerUserId
  kind := item.kind
  objectId := item.id
  revision := actual + 1
  baseRevision := if 0 < actual then some actual else none
  schemaVersion := item.schemaVersion
  payloadId := payloadId
  contentHash := item.contentHash
  isTombstone := item.tombstone
  changedAt := now
  deviceId := item.deviceId

/-- How many objects and how many tombstones a restore has appended. -/
structure RestoredCounts where
  objects : ℤ
  tombstones : ℤ
  deriving DecidableEq, Repr

/-- The counts with one more revision. -/
def RestoredCounts.add (counts : RestoredCounts) (tombstone : Bool) : RestoredCounts :=
  if tombstone then { counts with tombstones := counts.tombstones + 1 }
  else { counts with objects := counts.objects + 1 }

/-- Restores the items of a target one after the other. -/
def restoreItems (now : Timestamp) (projectId ownerUserId : Uuid) (current : List ManifestRow) :
    List ManifestItem → RestoredCounts → Tx RestoredCounts
  | [], counts => return counts
  | item :: items, counts => do
    let existing := existingRow current item
    if existing.any (sameManifestState · item) then
      restoreItems now projectId ownerUserId current items counts
    else
      let actual := existing.elim 0 (·.revision)
      let payloadId ← restorePayload projectId item
      discard <| appendRevision .worker now
        (restoredRevision now projectId ownerUserId item actual payloadId)
      restoreItems now projectId ownerUserId current items (counts.add item.tombstone)

/-- Gives the project its next generation and reopens it, and completes the job. -/
def finishRestore (now : Timestamp) (job : RestoreJob) (generation : ℤ)
    (counts : RestoredCounts) : Tx Unit := do
  modify (·.updateProject job.projectId fun p =>
    { p with generation := generation + 1, status := .active, updatedAt := now })
  modify (·.updateRestoreJob job.id fun j =>
    { j with status := .succeeded, generationAfter := some (generation + 1),
             restoredObjects := counts.objects, restoredTombstones := counts.tombstones,
             leaseToken := none, leaseExpiresAt := none, finishedAt := some now })
  insertAudit
    { actorUserId := some job.requestedBy, subjectUserId := some job.requestedBy,
      projectId := some job.projectId, action := "restore.completed",
      metadata := .obj [("restoreId", job.id.toJson), ("generation", .num (generation + 1)),
        ("objects", .num counts.objects), ("tombstones", .num counts.tombstones)],
      requestId := none }

/-- The project of a restore, which must be in maintenance. -/
def maintainedProject (projectId : Uuid) (d : Db) : Option ProjectRow :=
  (visibleProject .worker projectId d).filter (·.status == .maintenance)

/-- Applies a restore, for the worker that holds its lease. -/
def executeRestoreWithLease (now : Timestamp) (targetOrder currentOrder : ScanOrder)
    (jobId leaseToken : Uuid) : Tx (Except PersistenceError Unit) := do
  let row ← selectForUpdate (.restoreJob jobId) (leasedJob jobId leaseToken)
  let job ← orThrow .notFound row
  require (!job.cancelRequested) .restoreCancelled
  let row ← selectForUpdate (.project job.projectId) (maintainedProject job.projectId)
  let project ← orThrow .projectMaintenance row
  let target ← restoreTarget targetOrder job
  let current ← query (headRows .worker currentOrder job.projectId)
  let counts ← restoreItems now job.projectId project.ownerUserId current
    (withDeletions target current) ⟨0, 0⟩
  finishRestore now job project.generation counts
  return .ok ()

end TaskTipsCloud

import TaskTipsCloud.Restore
import TaskTipsCloud.Library.Paging

/-!
# Bootstrap and pull

A device first reads the pages of a bootstrap manifest, a frozen copy of the heads of a project, and
then pulls what was appended to the change log since. Reading the last page of a manifest completes
the bootstrap of the device for the generation of the project.
-/

namespace TaskTipsCloud

open Txn

/-! ## Bootstrap -/

/-- How long a bootstrap manifest can be read. -/
def manifestWindow : Timestamp := seconds (24 * 60 * 60)

/-- The bytes of a bootstrap manifest, of which the digest is taken; none when an instant cannot be
written. -/
def bootstrapManifestJson (host : Host) (manifestId projectId : Uuid) (generation sequence : ℤ)
    (records : List SyncRecord) : Option Json := do
  let items ← records.mapM fun r => do
    let changedAt ← host.rfc3339 r.changedAt
    return .obj [("kind", .str r.kind.asStr),
      ("id", .str r.id),
      ("schemaVersion", .ofOption .num r.schemaVersion),
      ("revision", .num r.revision),
      ("baseRevision", .ofOption .num r.baseRevision),
      ("contentHash", .ofOption .str r.contentHash),
      ("changedAt", .str changedAt),
      ("deviceId", r.deviceId.toJson),
      ("tombstone", .bool r.tombstone),
      ("changeSequence", .num r.changeSequence)]
  return .obj [("version", .num 1),
    ("manifestId", manifestId.toJson),
    ("projectId", projectId.toJson),
    ("generation", .num generation),
    ("changeSequence", .num sequence),
    ("items", .arr items)]

/-- Captures the heads of a project for a bootstrap. -/
def prepareBootstrapManifest (host : Host) (order : ScanOrder)
    (userId projectId manifestId : Uuid) : Tx (Except PersistenceError BootstrapManifest) := do
  let (generation, sequence) ← requireActiveProjectForUpdate (.app userId) projectId
  let records ← query (rankedRows (.app userId) order projectId sequence)
  let manifest ← orThrow .panicked
    (bootstrapManifestJson host manifestId projectId generation sequence records)
  return .ok
    { id := manifestId, generation := generation, snapshotSequence := sequence,
      records := records, hash := host.sha256Hex manifest }

/-- Records a manifest whose bytes are in the object store. -/
def recordBootstrapManifest (now : Timestamp) (userId projectId : Uuid)
    (manifest : BootstrapManifest) (bucket key : String) : Tx (Except PersistenceError Unit) := do
  acquire (.bootstrapManifest manifest.id)
  mapConflict <| insertRow
    (fun d => firstViolation
      [(0 < manifest.generation, .checkViolation),
        (0 ≤ manifest.snapshotSequence, .checkViolation),
        (d.bootstrapManifests.all (·.id != manifest.id), .uniqueViolation),
        (d.bootstrapManifests.all fun m =>
          !(m.projectId == projectId && m.manifestHash == manifest.hash), .uniqueViolation),
        (d.hasProject projectId userId, .foreignKeyViolation)])
    fun d => { d with bootstrapManifests := d.bootstrapManifests ++
      [{ id := manifest.id, projectId := projectId, ownerUserId := userId,
         generation := manifest.generation, changeSequence := manifest.snapshotSequence,
         manifestHash := manifest.hash, manifestBucket := bucket, manifestKey := key,
         items := manifest.records, expiresAt := now + manifestWindow }] }
  return .ok ()

/-- The arguments of a page of a bootstrap. -/
structure BootstrapPageArgs where
  userId : Uuid
  deviceId : Uuid
  projectId : Uuid
  manifestId : Uuid
  offset : ℤ
  limit : ℤ

/-- The manifest of a page, until it expires. -/
def readableManifest (now : Timestamp) (a : BootstrapPageArgs) (d : Db) :
    Option BootstrapManifestRow :=
  (d.bootstrapManifests.find? (·.id == a.manifestId)).filter fun m =>
    m.projectId == a.projectId && m.ownerUserId == a.userId && now < m.expiresAt

/-- `INSERT INTO bootstrap_completions ... ON CONFLICT (project_id, device_id, generation) DO
UPDATE`. -/
def completeBootstrap (c : BootstrapCompletion) : Tx Unit :=
  let same (x : BootstrapCompletion) : Bool :=
    x.projectId == c.projectId && x.deviceId == c.deviceId && x.generation == c.generation
  let renew (x : BootstrapCompletion) : BootstrapCompletion :=
    { x with changeSequence := c.changeSequence, completedAt := c.completedAt }
  insertRow
    (fun d => firstViolation
      [(0 ≤ c.changeSequence, .checkViolation),
        (0 < c.generation, .checkViolation),
        (d.hasDevice c.deviceId c.ownerUserId, .foreignKeyViolation),
        (d.hasProject c.projectId c.ownerUserId, .foreignKeyViolation)])
    fun d => { d with bootstrapCompletions := upsert same c renew d.bootstrapCompletions }

/-- The records of a manifest at an offset, and whether there are more. -/
def manifestPage (items : List SyncRecord) (offset limit : ℤ) : List SyncRecord × Bool :=
  let pageLimit := (max limit 0).toNat
  let records := (items.drop offset.toNat).take (pageLimit + 1)
  if pageLimit < records.length then (records.take pageLimit, true) else (records, false)

/-- Reads a page of a bootstrap manifest. The last page completes the bootstrap of the device. -/
def bootstrapManifestPage (now : Timestamp) (a : BootstrapPageArgs) :
    Tx (Except PersistenceError BootstrapPage) := do
  let (generation, currentSequence) ← requireActiveProject (.app a.userId) a.projectId
  let manifest ← query (readableManifest now a)
  let manifest ← orThrow .notFound manifest
  require (manifest.generation == generation)
    (.generationMismatch manifest.generation generation)
  require (manifest.changeSequence ≤ currentSequence && 0 ≤ a.offset) .notFound
  let (records, hasMore) := manifestPage manifest.items a.offset a.limit
  if !hasMore then
    completeBootstrap
      { projectId := a.projectId, ownerUserId := a.userId, deviceId := a.deviceId,
        generation := generation, changeSequence := manifest.changeSequence,
        completedAt := now }
  return .ok
    { manifestId := a.manifestId, generation := generation,
      snapshotSequence := manifest.changeSequence, records := records, hasMore := hasMore }

/-! ## Pull -/

/-- The arguments of a pull. -/
structure PullArgs where
  userId : Uuid
  deviceId : Uuid
  projectId : Uuid
  expectedGeneration : ℤ
  afterSequence : ℤ
  limit : ℤ

/-- The records of a project after a sequence, in the order of their sequences. -/
def recordsAfter (role : DbRole) (projectId : Uuid) (sequence : ℤ) (d : Db) :
    List SyncRecord :=
  orderBySequence
    ((((d.data projectId).visible role).records).filter (sequence < ·.changeSequence))

/-- Reads a page of the change log. The state of the project and the log are read by two statements,
and the project is not locked between them. -/
def pullPage (now : Timestamp) (a : PullArgs) : Tx (Except PersistenceError PullPage) := do
  let (generation, currentSequence) ← requireActiveProject (.app a.userId) a.projectId
  require (a.expectedGeneration == generation)
    (.generationMismatch a.expectedGeneration generation)
  require (0 ≤ a.afterSequence && a.afterSequence ≤ currentSequence) .notFound
  let rows ← query (recordsAfter (.app a.userId) a.projectId a.afterSequence)
  let (records, hasMore) := lookAhead rows a.limit
  let nextSequence := records.getLast?.elim a.afterSequence (·.changeSequence)
  modify (·.updateDevice (.app a.userId) a.deviceId fun v => { v with lastPullAt := some now })
  return .ok ⟨generation, records, hasMore, nextSequence⟩

end TaskTipsCloud

import TaskTipsCloud.Bootstrap
import TaskTipsCloud.Push

/-!
# Projects, devices and payloads

The operations that create what a push refers to, that take it away again, and the clean-up of the
worker.
-/

namespace TaskTipsCloud

open Txn

/-- Creates a project with the identifier that the database draws for it. -/
def createProject (now : Timestamp) (userId projectId : Uuid) (name : String) :
    Tx (Except PersistenceError ProjectRow) := do
  let row : ProjectRow :=
    { id := projectId, ownerUserId := userId, name := name, generation := 1,
      status := .active, changeSeq := 0, createdAt := now, updatedAt := now }
  acquire (.project projectId)
  insertRow
    (fun d => firstViolation
      [((d.project projectId).isNone, .uniqueViolation),
        (d.users.any (·.id == userId), .foreignKeyViolation)])
    fun d => { d with projects := d.projects ++ [row] }
  return .ok row

/-- Disables a project. -/
def disableProject (now : Timestamp) (userId projectId : Uuid) :
    Tx (Except PersistenceError ProjectRow) := do
  let row ← selectForUpdate (.project projectId) (visibleProject (.app userId) projectId)
  let row ← orThrow .notFound row
  let disable (p : ProjectRow) : ProjectRow :=
    { p with status := .disabled, updatedAt := now }
  modify (·.updateProject projectId disable)
  return .ok (disable row)

/-- The device with an identifier. -/
def Db.device (d : Db) (deviceId : Uuid) : Option DeviceRow := d.devices.find? (·.id == deviceId)

/-- Registers a device of a user, unless it is another user's or revoked. -/
def registerDevice (userId deviceId : Uuid) : Tx (Except PersistenceError Unit) := do
  match ← query (·.device deviceId) with
  | some device =>
    require (device.ownerUserId == userId && device.revokedAt.isNone) .deviceRevoked
    return .ok ()
  | none =>
    mapConflict <| insertRow
      (fun d => firstViolation [(d.users.any (·.id == userId), .foreignKeyViolation)])
      fun d => { d with devices := d.devices ++
        [{ id := deviceId, ownerUserId := userId, lastPullAt := none, lastPushAt := none,
           revokedAt := none }] }
    return .ok ()

/-- Revokes a device of a user. -/
def revokeDevice (now : Timestamp) (userId deviceId : Uuid) (requestId : String) :
    Tx (Except PersistenceError Unit) := do
  let device ← query fun d => (d.device deviceId).filter (·.ownerUserId == userId)
  let _ ← orThrow .notFound device
  modify (·.updateDevice (.app userId) deviceId fun v =>
    { v with revokedAt := some (v.revokedAt.getD now) })
  insertAudit
    { actorUserId := some userId, subjectUserId := some userId, projectId := none,
      action := "device.revoked",
      metadata := .obj [("deviceId", deviceId.toJson), ("source", .str "user")],
      requestId := some requestId }
  return .ok ()

/-- Registers a payload whose bytes are in the object store, with the identifier that the database
draws for its row. A payload that is registered already stays as it is. -/
def registerPayload (now : Timestamp) (userId projectId payloadId : Uuid)
    (payload : StoredPayload) : Tx (Except PersistenceError Unit) := do
  acquire (.payload projectId payload.contentHash)
  let row ← selectForUpdate (.project projectId) (visibleProject (.app userId) projectId)
  let row ← orThrow .notFound row
  require (row.status == .active) .projectMaintenance
  let registered ← query fun d => d.payloads.any fun p =>
    p.projectId == projectId && p.contentHash == payload.contentHash
  if registered then return .ok ()
  else
    insertRow
      (fun d => firstViolation
        [(0 ≤ payload.size, .checkViolation),
          (d.payloads.all (·.id != payloadId), .uniqueViolation),
          (d.hasProject projectId userId, .foreignKeyViolation)])
      fun d => { d with payloads := d.payloads ++
        [{ id := payloadId, projectId := projectId, ownerUserId := userId,
           contentHash := payload.contentHash, bucket := payload.bucket,
           objectKey := payload.objectKey, sizeBytes := payload.size,
           mediaType := payload.mediaType, createdAt := now }] }
    return .ok ()

/-- A payload that is old and that no revision refers to. -/
def unreferencedPayload (projectId : Uuid) (contentHash : String) (olderThan : Timestamp)
    (d : Db) : Option PayloadRow :=
  (d.payload .worker projectId contentHash).filter fun p =>
    p.createdAt < olderThan && d.objectRevisions.all (·.payloadId != some p.id)

/-- Deletes the row of an unreferenced payload, once its object is deleted. -/
def collectPayload (projectId : Uuid) (contentHash : String) (olderThan : Timestamp) :
    Tx (Except PersistenceError Unit) := do
  acquire (.payload projectId contentHash)
  match ← query (unreferencedPayload projectId contentHash olderThan) with
  | none => return .ok ()
  | some found =>
    match ← selectForUpdate (.payloadRow found.id)
      (unreferencedPayload projectId contentHash olderThan) with
    | none => return .ok ()
    | some _ =>
      modify fun d => { d with payloads := d.payloads.filter fun p =>
        !(p.projectId == projectId && p.contentHash == contentHash &&
          d.objectRevisions.all (·.payloadId != some p.id)) }
      return .ok ()

/-- Deletes expired idempotency records. The limit of the batch leaves some for a later one. -/
def purgeExpiredIdempotencyRecords (now : Timestamp) (inBatch : IdempotencyRecord → Bool) :
    Tx (Except PersistenceError Unit) := do
  modify fun d => { d with idempotencyRecords := d.idempotencyRecords.filter fun r =>
    !(r.expiresAt ≤ now && inBatch r) }
  return .ok ()

/-- Deletes expired bootstrap manifests. The limit of the batch leaves some for a later one. -/
def expireBootstrapManifests (now : Timestamp) (inBatch : BootstrapManifestRow → Bool) :
    Tx (Except PersistenceError Unit) := do
  modify fun d => { d with bootstrapManifests := d.bootstrapManifests.filter fun m =>
    !(m.expiresAt ≤ now && inBatch m) }
  return .ok ()

end TaskTipsCloud

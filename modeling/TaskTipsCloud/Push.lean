import TaskTipsCloud.Statements

/-!
# Push

`push_with_outcome` of `crates/persistence/src/lib.rs`. A push is answered from the idempotency
record of its key when there is one. Otherwise it is checked against the state and the generation of
its project and the bootstraps of its device, and its items are applied in order; the answer is
stored in the transaction that made the changes.
-/

namespace TaskTipsCloud

open Txn

/-- The arguments of a push. -/
structure PushArgs where
  userId : Uuid
  deviceId : Uuid
  projectId : Uuid
  expectedGeneration : ℤ
  requestKey : String
  requestHash : String
  revisions : List NewSyncRevision

/-- How long the answer of a push is kept. -/
def idempotencyWindow : Timestamp := seconds (30 * 24 * 60 * 60)

/-- Whether a record answers the key of a push. -/
def IdempotencyRecord.answers (r : IdempotencyRecord) (a : PushArgs) : Bool :=
  r.ownerUserId == a.userId && r.deviceId == a.deviceId && r.projectId == a.projectId &&
    r.requestKey == a.requestKey

/-- The records that answer the key of a push. -/
def Db.recordsFor (d : Db) (a : PushArgs) : List IdempotencyRecord :=
  d.idempotencyRecords.filter (·.answers a)

/-- `DELETE FROM idempotency_records` of the key, when expired. -/
def deleteExpiredRecords (now : Timestamp) (a : PushArgs) : Tx Unit :=
  modify fun d => { d with idempotencyRecords :=
    d.idempotencyRecords.filter fun r => !(r.answers a && r.expiresAt ≤ now) }

/-- `INSERT INTO idempotency_records`. -/
def insertIdempotencyRecord (now : Timestamp) (a : PushArgs) (response : Json) (status : ℤ) :
    Tx Unit :=
  insertRow
    (fun d => firstViolation
      [(200 ≤ status && status ≤ 599, .checkViolation),
        ((d.recordsFor a).isEmpty, .uniqueViolation),
        (d.hasDevice a.deviceId a.userId, .foreignKeyViolation),
        (d.users.any (·.id == a.userId), .foreignKeyViolation),
        (d.hasProject a.projectId a.userId, .foreignKeyViolation)])
    fun d => { d with idempotencyRecords := d.idempotencyRecords ++
      [{ ownerUserId := a.userId, deviceId := a.deviceId, projectId := a.projectId,
         requestKey := a.requestKey, requestHash := a.requestHash, response := response,
         responseStatus := status, expiresAt := now + idempotencyWindow }] }

/-- Stores the failure of a push, if it is one that is stored. -/
def storePushFailure (now : Timestamp) (a : PushArgs) (error : PersistenceError) : Tx Bool := do
  match pushFailureResponse error with
  | none => return false
  | some (status, response) =>
    mapConflict (insertIdempotencyRecord now a response status)
    return true

/-- The payload of an item that is not a tombstone, or why the item is rejected. -/
def checkPayload (revision : NewSyncRevision) : Option PayloadRow → Except PushItemResult Uuid
  | none => .error (.rejected revision.kind revision.id "PAYLOAD_NOT_FOUND" "payload 不存在" none)
  | some payload =>
    let sizeValid := 0 ≤ payload.sizeBytes ∧ payload.sizeBytes ≤ revision.kind.maxPayloadBytes
    if ¬ sizeValid then
      .error (.rejected revision.kind revision.id "PAYLOAD_TOO_LARGE" "payload 超过对象类型限制"
        (some (.obj [("kind", .str revision.kind.asStr),
          ("maxBytes", .num revision.kind.maxPayloadBytes),
          ("actualBytes", .num payload.sizeBytes)])))
    else if !validMediaType revision.kind payload.mediaType then
      .error (.rejected revision.kind revision.id "INVALID_REQUEST"
        "payload 媒体类型与对象类型不兼容" none)
    else .ok payload.id

/-- The payload that an item refers to: none for a tombstone. -/
def itemPayload (a : PushArgs) (revision : NewSyncRevision) :
    Tx (Except PushItemResult (Option Uuid)) := do
  if revision.tombstone then return .ok none
  else
    match revision.contentHash with
    | none => return (checkPayload revision none).map some
    | some contentHash =>
      let payload ← query (·.payload (.app a.userId) a.projectId contentHash)
      return (checkPayload revision payload).map some

/-- The revision that an item appends on top of the head revision `actual` of its object. -/
def itemRevision (a : PushArgs) (revision : NewSyncRevision) (actual : Option ℤ)
    (payloadId : Option Uuid) : ObjectRevision where
  projectId := a.projectId
  ownerUserId := a.userId
  kind := revision.kind
  objectId := revision.id
  revision := actual.getD 0 + 1
  baseRevision := revision.baseRevision
  schemaVersion := revision.schemaVersion
  payloadId := payloadId
  contentHash := revision.contentHash
  isTombstone := revision.tombstone
  changedAt := revision.changedAt.toTimestamp
  deviceId := a.deviceId

/-- `SELECT revision FROM object_heads`. -/
def headRevision (role : DbRole) (projectId : Uuid) (kind : ObjectKind) (objectId : String)
    (d : Db) : Option ℤ :=
  (((d.data projectId).head kind objectId).filter (role.sees ·.ownerUserId)).map (·.revision)

/-- Applies one item of a push. The row lock of the project, which every writer of heads holds,
stands for the row lock of the head. -/
def pushItem (now : Timestamp) (a : PushArgs) (revision : NewSyncRevision) :
    Tx PushItemResult := do
  let actual ← query (headRevision (.app a.userId) a.projectId revision.kind revision.id)
  if revision.baseRevision ≠ actual then
    return .conflict revision.kind revision.id revision.baseRevision actual
  else
    match ← itemPayload a revision with
    | .error rejected => return rejected
    | .ok payloadId =>
      let sequence ← appendRevision (.app a.userId) now (itemRevision a revision actual payloadId)
      return .applied revision.kind revision.id (actual.getD 0 + 1) sequence revision.changedAt

/-- Applies the items of a push in order. -/
def pushItems (now : Timestamp) (a : PushArgs) : List NewSyncRevision → Tx (List PushItemResult)
  | [] => return []
  | revision :: revisions => do
    let result ← pushItem now a revision
    let results ← pushItems now a revisions
    return result :: results

/-- Whether a device completed a bootstrap of a generation. -/
def bootstrapped (a : PushArgs) (generation : ℤ) (d : Db) : Bool :=
  d.bootstrapCompletions.any fun c => c.projectId == a.projectId && c.deviceId == a.deviceId &&
    c.generation == generation && c.ownerUserId == a.userId

/-- Stores a failure that the transaction commits, and answers with it. -/
def failPush (now : Timestamp) (a : PushArgs) (error : PersistenceError) :
    Tx (Except PersistenceError PushOutcome) := do
  discard <| storePushFailure now a error
  return .error error

/-- The part of a push that its checks let through: the items are applied, and the answer is stored
with them. -/
def applyPush (host : Host) (now : Timestamp) (a : PushArgs) (generation : ℤ) :
    Tx (Except PersistenceError PushOutcome) := do
  let results ← pushItems now a a.revisions
  let response ← orThrow .panicked (pushResponseJson host generation results)
  insertIdempotencyRecord now a response 200
  modify (·.updateDevice (.app a.userId) a.deviceId fun v => { v with lastPushAt := some now })
  return .ok ⟨response, false⟩

/-- A push whose key has no record. -/
def executePush (host : Host) (now : Timestamp) (a : PushArgs) :
    Tx (Except PersistenceError PushOutcome) := do
  match ← (requireActiveProjectForUpdate (.app a.userId) a.projectId).attempt with
  | .error error =>
    if ← storePushFailure now a error then return .error error
    else .throw error
  | .ok (generation, _) =>
    if a.expectedGeneration ≠ generation then
      failPush now a (.generationMismatch a.expectedGeneration generation)
    else if !(← query (bootstrapped a generation)) then
      failPush now a .bootstrapRequired
    else applyPush host now a generation

/-- Answers a push from the record of its key. -/
def replayPush (host : Host) (a : PushArgs) (r : IdempotencyRecord) :
    Tx (Except PersistenceError PushOutcome) :=
  if r.requestHash = a.requestHash then
    if r.responseStatus = 200 then return .ok ⟨migrateStoredPushResponse host r.response, true⟩
    else return .error (.idempotencyReplay r.response r.responseStatus)
  else .throw .idempotencyConflict

/-- Applies a push, or answers it from the record of its key. -/
def pushWithOutcome (host : Host) (now : Timestamp) (a : PushArgs) :
    Tx (Except PersistenceError PushOutcome) := do
  acquire (.push a.userId a.deviceId a.requestKey)
  deleteExpiredRecords now a
  match (← query (·.recordsFor a)).head? with
  | some r => replayPush host a r
  | none => executePush host now a

end TaskTipsCloud

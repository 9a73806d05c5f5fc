import TaskTipsCloud.Push

/-!
# Push requests

The push route of `crates/api/src/routes.rs`: the request as it is decoded, the checks that it must
pass, and the arguments of the push that is made for it.
-/

namespace TaskTipsCloud

/-! ## Requests -/

/-- An object of a push request. -/
structure PushObject where
  kind : ObjectKind
  id : String
  schemaVersion : ℤ
  revision : ℤ
  baseRevision : Option ℤ
  contentHash : String
  updatedAt : OffsetDateTime
  deviceId : Uuid
  deriving DecidableEq, Repr

/-- A tombstone of a push request. -/
structure PushTombstone where
  kind : ObjectKind
  id : String
  revision : ℤ
  baseRevision : Option ℤ
  deletedAt : OffsetDateTime
  deviceId : Uuid
  deriving DecidableEq, Repr

/-- A push request. -/
structure PushRequest where
  requestId : String
  generation : ℤ
  objects : List PushObject
  tombstones : List PushTombstone
  deriving DecidableEq, Repr

/-! ## Checks -/

/-- A lower-case SHA-256 digest in hexadecimal. -/
def validContentHash (contentHash : String) : Bool :=
  contentHash.toList.length == 64 &&
    contentHash.toList.all fun c => ('0' ≤ c && c ≤ '9') || ('a' ≤ c && c ≤ 'f')

/-- The characters of the identifier of a todo. -/
def isTodoIdChar (c : Char) : Bool :=
  ('0' ≤ c && c ≤ '9') || ('A' ≤ c && c ≤ 'H') || ('J' ≤ c && c ≤ 'K') || ('M' ≤ c && c ≤ 'N') ||
    ('P' ≤ c && c ≤ 'T') || ('V' ≤ c && c ≤ 'Z')

/-- Whether a text may identify an object of a kind. -/
def validObjectId : ObjectKind → String → Bool
  | .todo, id => id.toList.length == 26 && id.toList.all isTodoIdChar
  | .classification, id => id == "classification"
  | .index, id => id == "index"
  | .image, id =>
    id != "" && id.utf8ByteSize ≤ 255 && id != "." && id != ".." &&
      !id.toList.any fun c => c == '/' || c == '\\' || c == '\x00'

/-- The sum of two integers of 64 bits, if it is one. -/
def checkedAdd (a b : ℤ) : Option ℤ :=
  if -2 ^ 63 ≤ a + b ∧ a + b < 2 ^ 63 then some (a + b) else none

/-- Checks the revision, the device and the identifier of an item. -/
def validateRevisionFields (kind : ObjectKind) (id : String) (revision : ℤ)
    (baseRevision : Option ℤ) (deviceId authenticatedDeviceId : Uuid) : Except String Unit :=
  let expectedRevision := checkedAdd (baseRevision.getD 0) 1
  if revision ≤ 0 || baseRevision.any (· ≤ 0) || expectedRevision != some revision ||
      deviceId != authenticatedDeviceId || !validObjectId kind id then
    .error "同步对象 revision、deviceId 或 id 无效"
  else .ok ()

/-- Checks an object. -/
def validatePushItem (kind : ObjectKind) (id : String) (schemaVersion revision : ℤ)
    (baseRevision : Option ℤ) (contentHash : String) (deviceId authenticatedDeviceId : Uuid) :
    Except String Unit :=
  if schemaVersion ≤ 0 then .error "schemaVersion 无效"
  else if !validContentHash contentHash then
    .error "contentHash 必须是小写 SHA-256 十六进制字符串"
  else validateRevisionFields kind id revision baseRevision deviceId authenticatedDeviceId

/-- The revision of an object that passes its checks. -/
def PushObject.validated (authenticatedDeviceId : Uuid) (x : PushObject) :
    Except String NewSyncRevision := do
  validatePushItem x.kind x.id x.schemaVersion x.revision x.baseRevision x.contentHash x.deviceId
    authenticatedDeviceId
  return { kind := x.kind, id := x.id, schemaVersion := some x.schemaVersion,
           baseRevision := x.baseRevision, contentHash := some x.contentHash,
           changedAt := x.updatedAt, tombstone := false }

/-- The revision of a tombstone that passes its checks. -/
def PushTombstone.validated (authenticatedDeviceId : Uuid) (x : PushTombstone) :
    Except String NewSyncRevision := do
  validateRevisionFields x.kind x.id x.revision x.baseRevision x.deviceId authenticatedDeviceId
  return { kind := x.kind, id := x.id, schemaVersion := none, baseRevision := x.baseRevision,
           contentHash := none, changedAt := x.deletedAt, tombstone := true }

/-! ## The canonical request -/

/-- The JSON of an object, unless its instant cannot be written. -/
def PushObject.toJson (host : Host) (x : PushObject) : Option Json := do
  let updatedAt ← host.rfc3339 x.updatedAt
  return .obj [("kind", .str x.kind.asStr),
    ("id", .str x.id),
    ("schemaVersion", .num x.schemaVersion),
    ("revision", .num x.revision),
    ("baseRevision", .ofOption .num x.baseRevision),
    ("contentHash", .str x.contentHash),
    ("updatedAt", .str updatedAt),
    ("deviceId", x.deviceId.toJson)]

/-- The JSON of a tombstone, unless its instant cannot be written. -/
def PushTombstone.toJson (host : Host) (x : PushTombstone) : Option Json := do
  let deletedAt ← host.rfc3339 x.deletedAt
  return .obj [("kind", .str x.kind.asStr),
    ("id", .str x.id),
    ("revision", .num x.revision),
    ("baseRevision", .ofOption .num x.baseRevision),
    ("deletedAt", .str deletedAt),
    ("deviceId", x.deviceId.toJson)]

/-- The JSON of a request. -/
def PushRequest.toJson (host : Host) (r : PushRequest) : Option Json := do
  let objects ← r.objects.mapM (·.toJson host)
  let tombstones ← r.tombstones.mapM (·.toJson host)
  return .obj [("requestId", .str r.requestId),
    ("generation", .num r.generation),
    ("objects", .arr objects),
    ("tombstones", .arr tombstones)]

/-- The push that is made for a request of a user on a device. -/
def PushRequest.args (host : Host) (userId deviceId projectId : Uuid) (r : PushRequest) :
    Except String PushArgs := do
  if r.generation ≤ 0 || r.requestId.toList.all isTrimmed || 128 < r.requestId.utf8ByteSize ||
      100 < r.objects.length + r.tombstones.length then
    .error "push 请求字段或批量大小无效"
  else
    let objects ← r.objects.mapM (·.validated deviceId)
    let tombstones ← r.tombstones.mapM (·.validated deviceId)
    match r.toJson host with
    | none => .error "push 请求无法规范化"
    | some canonicalRequest =>
      return { userId, deviceId, projectId, expectedGeneration := r.generation,
               requestKey := r.requestId, requestHash := host.sha256Hex canonicalRequest,
               revisions := objects ++ tombstones }

end TaskTipsCloud

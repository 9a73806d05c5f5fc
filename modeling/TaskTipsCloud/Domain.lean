import TaskTipsCloud.Library.Json
import TaskTipsCloud.Library.Uuid

/-!
# Records and their JSON

The values that the persistence layer passes around (`crates/domain/src/lib.rs` and the record types
of `crates/persistence/src/lib.rs`), the errors it returns, and the JSON that it stores: snapshot
manifests, push results, and the stored failures of a push.

What comes from libraries outside the repository is a `Host`: hashing, and the text of instants.
Integers of the source are unbounded here; where JSON is read back, their range is checked.
-/

namespace TaskTipsCloud

/-! ## Kinds and states -/

/-- The kinds of synchronised objects. -/
inductive ObjectKind where
  | todo
  | classification
  | index
  | image
  deriving DecidableEq, Repr

namespace ObjectKind

/-- The name of a kind. -/
def asStr : ObjectKind → String
  | todo => "todo"
  | classification => "classification"
  | index => "index"
  | image => "image"

/-- The kind with a name. -/
def parse : String → Option ObjectKind
  | "todo" => some todo
  | "classification" => some classification
  | "index" => some index
  | "image" => some image
  | _ => none

/-- The largest payload of a kind, in bytes. -/
def maxPayloadBytes : ObjectKind → ℤ
  | todo => 8 * 1024 * 1024
  | classification | index => 5 * 1024 * 1024
  | image => 10 * 1024 * 1024

/-- A kind is read back. -/
@[simp] theorem parse_asStr (kind : ObjectKind) : parse kind.asStr = some kind := by
  cases kind <;> rfl

end ObjectKind

/-- The states of a project. -/
inductive ProjectStatus where
  | active
  | maintenance
  | disabled
  | deleting
  deriving DecidableEq, Repr

/-- The states of a restore job. -/
inductive RestoreStatus where
  | queued
  | running
  | succeeded
  | failed
  | cancelled
  deriving DecidableEq, Repr

/-- The states of a snapshot. -/
inductive SnapshotStatus where
  | pending
  | ready
  | failed
  deriving DecidableEq, Repr

/-- The roles of a user. -/
inductive UserRole where
  | user
  | systemAdmin
  deriving DecidableEq, Repr

/-- The states of an account. -/
inductive AccountStatus where
  | active
  | disabled
  | pending
  | deleting
  | deleted
  deriving DecidableEq, Repr

/-- The characters that `trim` removes. -/
def isTrimmed (c : Char) : Bool :=
  ('\x09' ≤ c && c ≤ '\x0d') || c == ' ' || c == '\u0085' || c == '\u00a0' || c == '\u1680' ||
    ('\u2000' ≤ c && c ≤ '\u200a') || c == '\u2028' || c == '\u2029' || c == '\u202f' ||
    c == '\u205f' || c == '\u3000'

/-- Removes spaces at both ends. -/
def trimSpaces (cs : List Char) : List Char :=
  ((cs.dropWhile isTrimmed).reverse.dropWhile isTrimmed).reverse

/-- Whether the media type of a payload fits the kind of the object. -/
def validMediaType (kind : ObjectKind) (mediaType : String) : Bool :=
  let essence := (trimSpaces (mediaType.toList.takeWhile (· ≠ ';'))).map Char.toLower
  match kind with
  | .todo => essence == "text/markdown".toList || essence == "text/plain".toList
  | .classification | .index => essence == "application/json".toList
  | .image => "image/".toList.isPrefixOf essence || essence == "application/octet-stream".toList

/-! ## Instants -/

/-- An instant with the offset at which it is written. -/
structure OffsetDateTime where
  /-- Nanoseconds since the Unix epoch. -/
  unixNanos : ℤ
  /-- The offset from UTC. -/
  offsetSeconds : ℤ
  deriving DecidableEq, Repr

/-- A database time in microseconds since the Unix epoch. -/
abbrev Timestamp := ℤ

/-- The epoch of database times, 2000-01-01, in microseconds since the Unix epoch. -/
def databaseEpoch : Timestamp := 946684800000000

/-- The database time of an instant: what is below a microsecond is cut off. -/
def OffsetDateTime.toTimestamp (t : OffsetDateTime) : Timestamp :=
  databaseEpoch + (t.unixNanos - databaseEpoch * 1000).tdiv 1000

/-- The instant that is read from a database time. -/
def OffsetDateTime.ofTimestamp (t : Timestamp) : OffsetDateTime := ⟨t * 1000, 0⟩

/-- A number of seconds as a database interval. -/
def seconds (n : ℤ) : Timestamp := n * 1000000

/-- What the service takes from its libraries. -/
structure Host where
  /-- The SHA-256 digest of the bytes of a JSON value, in hexadecimal. -/
  sha256Hex : Json → String
  /-- The RFC 3339 text of an instant, if it has one. -/
  rfc3339 : OffsetDateTime → Option String
  /-- Whether a text is an RFC 3339 instant. -/
  isRfc3339 : String → Bool
  /-- The text of an instant in JSON that `serde` writes without a format. -/
  serdeText : OffsetDateTime → String
  /-- The text of an instant that `Display` writes. -/
  displayText : OffsetDateTime → String

/-! ## Records -/

/-- One revision of an object with its place in the change log. -/
structure SyncRecord where
  kind : ObjectKind
  id : String
  schemaVersion : Option ℤ
  revision : ℤ
  baseRevision : Option ℤ
  contentHash : Option String
  changedAt : OffsetDateTime
  deviceId : Uuid
  tombstone : Bool
  changeSequence : ℤ
  deriving DecidableEq, Repr

/-- The rows from which manifests are made have the columns of a `SyncRecord`. -/
abbrev ManifestRow := SyncRecord

/-- What a restore reads of one object of its target. -/
structure ManifestItem where
  kind : ObjectKind
  id : String
  schemaVersion : Option ℤ
  revision : ℤ
  contentHash : Option String
  deviceId : Uuid
  tombstone : Bool
  deriving DecidableEq, Repr

/-- One item of a push. -/
structure NewSyncRevision where
  kind : ObjectKind
  id : String
  schemaVersion : Option ℤ
  baseRevision : Option ℤ
  contentHash : Option String
  changedAt : OffsetDateTime
  tombstone : Bool
  deriving DecidableEq, Repr

/-- The result of one item of a push. -/
inductive PushItemResult where
  | applied (kind : ObjectKind) (id : String) (revision changeSequence : ℤ)
      (changedAt : OffsetDateTime)
  | conflict (kind : ObjectKind) (id : String) (expectedRevision actualRevision : Option ℤ)
  | rejected (kind : ObjectKind) (id code message : String) (details : Option Json)

/-- Whether the item was applied. -/
def PushItemResult.isApplied : PushItemResult → Bool
  | .applied .. => true
  | _ => false

/-- What a push answers, and whether the answer is a stored one. -/
structure PushOutcome where
  response : Json
  replayed : Bool

/-- A payload that the object store holds. -/
structure StoredPayload where
  contentHash : String
  bucket : String
  objectKey : String
  size : ℤ
  mediaType : String

/-- A manifest for a bootstrap. -/
structure BootstrapManifest where
  id : Uuid
  generation : ℤ
  snapshotSequence : ℤ
  records : List SyncRecord
  hash : String

/-- A page of a bootstrap manifest. -/
structure BootstrapPage where
  manifestId : Uuid
  generation : ℤ
  snapshotSequence : ℤ
  records : List SyncRecord
  hasMore : Bool

/-- A page of the change log. -/
structure PullPage where
  generation : ℤ
  records : List SyncRecord
  hasMore : Bool
  nextSequence : ℤ

/-- Why a statement failed: the database refused it, or a row that it must return is not there. -/
inductive DatabaseError where
  | uniqueViolation
  | foreignKeyViolation
  | checkViolation
  | rowNotFound
  | syntaxError
  | undefinedColumn
  | insufficientPrivilege
  | invalidEscapeSequence
  deriving DecidableEq, Repr

/-- The errors of the persistence layer. `panicked` stands for a JSON macro that could not write a
value: the request ends there, and its transaction is rolled back. -/
inductive PersistenceError where
  | database (error : DatabaseError)
  | conflict
  | notFound
  | accountDisabled
  | invalidAccountTransition
  | accountPurgeNotReady
  | invalidInvitation
  | invalidRefreshToken
  | refreshTokenReuse
  | deviceRevoked
  | adminRequired
  | projectMaintenance
  | generationMismatch (expected actual : ℤ)
  | bootstrapRequired
  | idempotencyConflict
  | idempotencyReplay (response : Json) (status : ℤ)
  | payloadNotFound
  | invalidPayload
  | invalidRestoreTarget
  | restoreNotReopenable
  | restoreCancelled
  | panicked

/-- A unique violation is a conflict where the source maps it to one. -/
def mapSqlxConflict : PersistenceError → PersistenceError
  | .database .uniqueViolation => .conflict
  | e => e

/-- A restore names exactly one target, and no negative sequence. -/
def validateRestoreTarget (snapshotId : Option Uuid) (targetChangeSequence : Option ℤ) : Bool :=
  !(snapshotId.isNone == targetChangeSequence.isNone || targetChangeSequence.any (· < 0))

/-! ## Snapshot manifests -/

/-- The JSON of a UUID. -/
def Uuid.toJson (u : Uuid) : Json := .str u.text

/-- An item of a snapshot manifest. -/
def manifestItemJson (host : Host) (row : ManifestRow) : Json :=
  .obj [("kind", .str row.kind.asStr),
    ("id", .str row.id),
    ("schemaVersion", .ofOption .num row.schemaVersion),
    ("revision", .num row.revision),
    ("baseRevision", .ofOption .num row.baseRevision),
    ("contentHash", .ofOption .str row.contentHash),
    ("changedAt", .str (host.serdeText row.changedAt)),
    ("deviceId", row.deviceId.toJson),
    ("tombstone", .bool row.tombstone),
    ("changeSequence", .num row.changeSequence)]

/-- What a restore reads of a row. -/
def manifestItemFromRow (row : ManifestRow) : ManifestItem where
  kind := row.kind
  id := row.id
  schemaVersion := row.schemaVersion
  revision := row.revision
  contentHash := row.contentHash
  deviceId := row.deviceId
  tombstone := row.tombstone

/-- Reads an item of a snapshot manifest. Members that a `ManifestItem` does not have are
ignored. -/
def manifestItemOfJson (j : Json) : Option ManifestItem := do
  let kind ← (j.get? "kind").bind (·.str?) |>.bind ObjectKind.parse
  let id ← (j.get? "id").bind (·.str?)
  let schemaVersion ← j.optional "schemaVersion" (·.i32?)
  let revision ← (j.get? "revision").bind (·.i64?)
  let contentHash ← j.optional "contentHash" (·.str?)
  let deviceId ← (j.get? "deviceId").bind (·.str?) |>.bind Uuid.parse
  let tombstone ← (j.get? "tombstone").bind (·.bool?)
  return { kind, id, schemaVersion, revision, contentHash, deviceId, tombstone }

/-- The items of a snapshot manifest. A kind other than the four object kinds and an item that is
written as an array are refused here, which the deserializer of the source accepts; no writer of a
manifest makes either. -/
def manifestItems (manifest : Json) : Except PersistenceError (List ManifestItem) :=
  match manifest.get? "items" with
  | none => .error .invalidPayload
  | some items =>
    match items.arr?.bind (·.mapM manifestItemOfJson) with
    | none => .error .invalidPayload
    | some items => .ok items

/-- The manifest of a snapshot. -/
def snapshotManifestJson (host : Host) (snapshotId : Uuid) (generation sequence : ℤ)
    (rows : List ManifestRow) : Json :=
  .obj [("version", .num 1),
    ("snapshotId", snapshotId.toJson),
    ("generation", .num generation),
    ("changeSequence", .num sequence),
    ("items", .arr (rows.map (manifestItemJson host)))]

/-- A row whose numbers fit the columns that they come from. -/
def SyncRecord.InRange (row : SyncRecord) : Prop :=
  (∀ v, row.schemaVersion = some v → -2 ^ 31 ≤ v ∧ v ≤ 2 ^ 31 - 1) ∧
    (-2 ^ 63 ≤ row.revision ∧ row.revision ≤ 2 ^ 63 - 1)

/-- Reading an item of a manifest gives back what it was written from. -/
theorem manifestItemOfJson_manifestItemJson (host : Host) (row : ManifestRow) (h : row.InRange) :
    manifestItemOfJson (manifestItemJson host row) = some (manifestItemFromRow row) := by
  obtain ⟨hschema, hrevision⟩ := h
  have hversion : (manifestItemJson host row).optional "schemaVersion" (·.i32?) =
      some row.schemaVersion :=
    Json.optional_ofOption (g := .num) (by simp [manifestItemJson]) (by simp)
      fun v hv => Json.i32?_num (hschema v hv)
  have hhash : (manifestItemJson host row).optional "contentHash" (·.str?) =
      some row.contentHash :=
    Json.optional_ofOption (g := .str) (by simp [manifestItemJson]) (by simp) (by simp)
  unfold manifestItemOfJson
  rw [hversion, hhash]
  simp [manifestItemJson, manifestItemFromRow, Json.i64?_num hrevision, Uuid.toJson,
    Uuid.parse_text]

/-- The items of a snapshot manifest are those of the rows it was made from. -/
theorem manifestItems_snapshotManifestJson (host : Host) (snapshotId : Uuid)
    (generation sequence : ℤ) (rows : List ManifestRow) (h : ∀ row ∈ rows, row.InRange) :
    manifestItems (snapshotManifestJson host snapshotId generation sequence rows) =
      .ok (rows.map manifestItemFromRow) := by
  have hitems : (rows.map (manifestItemJson host)).mapM manifestItemOfJson =
      some (rows.map manifestItemFromRow) := by
    induction rows with
    | nil => rfl
    | cons row rows ih =>
      have hrow := manifestItemOfJson_manifestItemJson host row (h row List.mem_cons_self)
      have hrows := ih fun r hr => h r (List.mem_cons_of_mem _ hr)
      simp [List.mapM_cons, hrow, hrows]
  simp [manifestItems, snapshotManifestJson, hitems]

/-! ## Push responses -/

/-- The JSON of an item's result, unless its instant cannot be written. -/
def PushItemResult.toJson (host : Host) : PushItemResult → Option Json
  | .applied kind id revision changeSequence changedAt => do
    let changedAt ← host.rfc3339 changedAt
    return .obj [("status", .str "applied"),
      ("kind", .str kind.asStr),
      ("id", .str id),
      ("revision", .num revision),
      ("changeSequence", .num changeSequence),
      ("changedAt", .str changedAt)]
  | .conflict kind id expectedRevision actualRevision =>
    some (.obj [("status", .str "conflict"),
      ("kind", .str kind.asStr),
      ("id", .str id),
      ("expectedRevision", .ofOption .num expectedRevision),
      ("actualRevision", .ofOption .num actualRevision)])
  | .rejected kind id code message details =>
    some (.obj ([("status", .str "rejected"),
      ("kind", .str kind.asStr),
      ("id", .str id),
      ("code", .str code),
      ("message", .str message)] ++ details.toList.map (("details", ·))))

/-- The response of an executed push. -/
def pushResponseJson (host : Host) (generation : ℤ) (results : List PushItemResult) :
    Option Json := do
  let results ← results.mapM (PushItemResult.toJson host)
  return .obj [("generation", .num generation), ("results", .arr results)]

/-- Rewrites an instant of the format that earlier versions stored. -/
def migrateLegacyTimestamp (host : Host) (value : Json) : Json :=
  match value.str? with
  | none => value
  | some raw =>
    if host.isRfc3339 raw then value
    else
      let cs := raw.toList
      let offset := (cs.reverse.takeWhile (· ≠ ' ')).reverse
      let stamp := cs.take (cs.length - offset.length - 1)
      if ' ' ∉ cs ∨ offset ≠ "+00:00:00".toList then value
      else
        let day := stamp.takeWhile (· ≠ ' ')
        let time := stamp.drop day.length
        let candidate := String.ofList
          (day ++ (if time = [] then [] else 'T' :: time.drop 1) ++ ['Z'])
        if host.isRfc3339 candidate then .str candidate else value

/-- Renames a member that earlier versions stored under another name. -/
def migrateMember (host : Host) : String × Json → String × Json
  | ("change_sequence", value) => ("changeSequence", value)
  | ("expected_revision", value) => ("expectedRevision", value)
  | ("actual_revision", value) => ("actualRevision", value)
  | ("changed_at", value) => ("changedAt", migrateLegacyTimestamp host value)
  | m => m

/-- Renames the members that earlier versions stored under other names. The members are inserted in
the order of their names, in which a current name stands before the name that it had: a member that
is there under both names gets the value of the earlier one. -/
def migrateResultObject (host : Host) (members : List (String × Json)) : List (String × Json) :=
  (members.filter fun m =>
    !members.any fun old => old.1 != m.1 && (migrateMember host old).1 == m.1).map
      (migrateMember host)

/-- Brings a stored item of a push response to the current format. -/
def migrateResult (host : Host) : Json → Json
  | .obj members => .obj (migrateResultObject host members)
  | other => other

/-- Brings a stored push response to the current format. -/
def migrateStoredPushResponse (host : Host) (response : Json) : Json :=
  match (response.get? "results").bind (·.arr?) with
  | none => response
  | some results =>
    response.set "results" (.arr (results.map (migrateResult host)))

/-- The answer that is stored for a push that failed, and its status. -/
def pushFailureResponse : PersistenceError → Option (ℤ × Json)
  | .projectMaintenance =>
    some (423, .obj [("code", .str "PROJECT_MAINTENANCE"),
      ("message", .str "项目当前处于维护状态"),
      ("retryable", .bool true)])
  | .generationMismatch expected actual =>
    some (409, .obj [("code", .str "GENERATION_MISMATCH"),
      ("message", .str "项目 generation 已变化，请重新 bootstrap"),
      ("retryable", .bool false),
      ("details", .obj [("expectedGeneration", .num expected), ("actualGeneration", .num actual)])])
  | .bootstrapRequired =>
    some (409, .obj [("code", .str "CURSOR_INVALID"),
      ("message", .str "当前设备必须先完成 bootstrap"),
      ("retryable", .bool false)])
  | _ => none

/-- The names of members that earlier versions stored. -/
def legacyNames : List String :=
  ["change_sequence", "expected_revision", "actual_revision", "changed_at"]

/-- A member whose name is not an old one stays. -/
theorem migrateMember_of_notMem {host : Host} {m : String × Json} (h : m.1 ∉ legacyNames) :
    migrateMember host m = m := by
  obtain ⟨name, value⟩ := m
  unfold migrateMember
  split <;> simp_all [legacyNames]

/-- Members with current names stay as they are. -/
theorem migrateResultObject_of_current {host : Host} {members : List (String × Json)}
    (h : ∀ m ∈ members, m.1 ∉ legacyNames) : migrateResultObject host members = members := by
  have hkept : members.filter (fun m =>
      !members.any fun old => old.1 != m.1 && (migrateMember host old).1 == m.1) = members := by
    refine List.filter_eq_self.mpr fun m _ => ?_
    rw [Bool.not_eq_true', List.any_eq_false]
    intro old hold
    rw [migrateMember_of_notMem (h old hold)]
    cases hsame : old.1 == m.1 <;> simp [bne, hsame]
  have hmap : members.map (migrateMember host) = members.map id :=
    List.map_congr_left fun m hm => migrateMember_of_notMem (h m hm)
  rw [migrateResultObject, hkept, hmap, List.map_id]

/-- The result of an item that is written now is in the current format. -/
theorem migrateResult_toJson (host : Host) {result : PushItemResult} {item : Json}
    (h : result.toJson host = some item) : migrateResult host item = item := by
  cases result with
  | applied kind id revision changeSequence changedAt =>
    simp only [PushItemResult.toJson, Option.pure_def, Option.bind_eq_bind,
      Option.bind_eq_some_iff] at h
    obtain ⟨text, -, h⟩ := h
    cases h
    rw [migrateResult, migrateResultObject_of_current (by simp [legacyNames])]
  | conflict kind id expected actual =>
    cases h
    rw [migrateResult, migrateResultObject_of_current (by simp [legacyNames])]
  | rejected kind id code message details =>
    cases h
    rw [migrateResult, migrateResultObject_of_current (by cases details <;> simp [legacyNames])]

/-- A push response that is written now is read back as it was written. -/
theorem migrateStoredPushResponse_pushResponseJson (host : Host) {generation : ℤ}
    {results : List PushItemResult} {response : Json}
    (h : pushResponseJson host generation results = some response) :
    migrateStoredPushResponse host response = response := by
  unfold pushResponseJson at h
  simp only [Option.pure_def, Option.bind_eq_bind, Option.bind_eq_some_iff] at h
  obtain ⟨items, hitems, h⟩ := h
  cases h
  have hkeep : items.map (migrateResult host) = items := by
    induction results generalizing items with
    | nil =>
      cases hitems
      rfl
    | cons result results ih =>
      simp only [List.mapM_cons, Option.pure_def, Option.bind_eq_bind,
        Option.bind_eq_some_iff] at hitems
      obtain ⟨item, hitem, rest, hrest, h⟩ := hitems
      cases h
      rw [List.map_cons, migrateResult_toJson host hitem, ih rest hrest]
  simp [migrateStoredPushResponse, Json.set, Json.setMember, hkeep]

end TaskTipsCloud

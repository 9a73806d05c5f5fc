import TaskTipsCloud.AccountPurges
import TaskTipsCloud.Library.Programs
import TaskTipsCloud.Uploads

/-!
# Exports of accounts

`process_account_purge_job` and `build_export_archive` of `crates/worker/src/main.rs`,
`put_export_file` of `crates/object-store/src/lib.rs`, and `prepare_account_export` of
`crates/persistence/src/lib.rs`. A worker collects what an account holds, downloads its payloads to
temporary files, packs them, stores the archive under a key made from the export, and completes the
export.
-/

namespace TaskTipsCloud

namespace Exports

open Program

/-! ## Archives -/

/-- The metadata of a file that an archive contains. -/
structure FileStamp where
  /-- When the file was changed, in seconds. -/
  modified : ℕ
  mode : ℕ
  uid : ℕ
  gid : ℕ
  deriving DecidableEq, Repr

/-- A file in an archive. -/
structure TarEntry where
  path : String
  stamp : FileStamp
  bytes : List UInt8
  deriving DecidableEq, Repr

/-- What the exports take from the libraries and the configuration. -/
structure ExportHost where
  /-- The SHA-256 digest of bytes, in hexadecimal. -/
  sha256 : List UInt8 → String
  /-- The bytes of a JSON value. -/
  jsonBytes : Json → List UInt8
  /-- A time as the database writes it into a JSON value. -/
  jsonTime : Timestamp → String
  /-- The archive of some files. -/
  tar : List TarEntry → List UInt8
  zstd : List UInt8 → List UInt8
  /-- `TASKTIPS_EXPORT_TMP_MAX_BYTES`. -/
  maxTempBytes : ℕ
  maxTempBytes_lt : maxTempBytes < 2 ^ 64

/-- `build_export_archive`: the manifest with a header that the code sets, and the files with the
metadata that they have. -/
def buildExportArchive (host : ExportHost) (manifest : List UInt8) (files : List TarEntry) :
    List UInt8 :=
  host.zstd (host.tar (⟨"manifest.json", ⟨0, 0o600, 0, 0⟩, manifest⟩ :: files))

/-- `export_key`. -/
def exportKey (ownerUserId exportId : Uuid) : String :=
  "users/" ++ ownerUserId.text ++ "/exports/" ++ exportId.text ++ ".tar.zst"

/-! ## What an account holds -/

/-- A row of `devices`, with the columns that the manifest contains. -/
structure ExportedDevice where
  id : Uuid
  ownerUserId : Uuid
  displayName : String
  platform : String
  appVersion : String
  createdAt : Timestamp
  lastSeenAt : Option Timestamp
  deriving DecidableEq, Repr

/-- A row of `change_log`, with the columns that the manifest contains. -/
structure ExportedChange where
  projectId : Uuid
  ownerUserId : Uuid
  sequence : ℤ
  revisionId : Uuid
  createdAt : Timestamp
  deriving DecidableEq, Repr

/-- The database and the bucket. The rows of two tables are here with the columns that only the
manifest reads. -/
structure ExportWorld where
  db : PurgeDb
  devices : List ExportedDevice
  changeLog : List ExportedChange
  objects : String → Option (List UInt8)

/-- The rows of an account. -/
structure AccountRows where
  projects : List ProjectRow
  devices : List ExportedDevice
  payloads : List PayloadRow
  revisions : List ObjectRevision
  changeLog : List ExportedChange
  snapshots : List SnapshotRow

/-- The rows of the account of a user. -/
def ExportWorld.rowsOf (w : ExportWorld) (userId : Uuid) : AccountRows where
  projects := w.db.sync.projects.filter (·.ownerUserId == userId)
  devices := w.devices.filter (·.ownerUserId == userId)
  payloads := w.db.sync.payloads.filter (·.ownerUserId == userId)
  revisions := w.db.sync.objectRevisions.filter (·.ownerUserId == userId)
  changeLog := w.changeLog.filter (·.ownerUserId == userId)
  snapshots := w.db.sync.snapshots.filter (·.ownerUserId == userId)

/-- The name of a project's state. -/
def projectStatusText : ProjectStatus → String
  | .active => "active"
  | .maintenance => "maintenance"
  | .disabled => "disabled"
  | .deleting => "deleting"

/-- The name of a snapshot's state. -/
def snapshotStatusText : SnapshotStatus → String
  | .pending => "pending"
  | .ready => "ready"
  | .failed => "failed"

/-- The place of a kind in its enumeration. -/
def kindRank : ObjectKind → ℕ
  | .todo => 0
  | .classification => 1
  | .index => 2
  | .image => 3

/-- `COALESCE(jsonb_agg(.. ORDER BY ..), '[]')`. -/
def jsonbAgg {α κ : Type} [LinearOrder κ] (key : α → κ) (f : α → Json) (rows : List α) : Json :=
  .arr ((orderBy key rows).map f)

section

variable (host : ExportHost)

/-- A project in the manifest. -/
def projectJson (p : ProjectRow) : Json :=
  .obj [("id", p.id.toJson), ("name", .str p.name), ("generation", .num p.generation),
    ("status", .str (projectStatusText p.status)), ("changeSequence", .num p.changeSeq),
    ("createdAt", .str (host.jsonTime p.createdAt)),
    ("updatedAt", .str (host.jsonTime p.updatedAt))]

/-- A device in the manifest. -/
def deviceJson (d : ExportedDevice) : Json :=
  .obj [("id", d.id.toJson), ("displayName", .str d.displayName), ("platform", .str d.platform),
    ("appVersion", .str d.appVersion), ("createdAt", .str (host.jsonTime d.createdAt)),
    ("lastSeenAt", .ofOption (fun t => .str (host.jsonTime t)) d.lastSeenAt)]

/-- A payload in the manifest. -/
def payloadJson (p : PayloadRow) : Json :=
  .obj [("projectId", p.projectId.toJson), ("contentHash", .str p.contentHash),
    ("sizeBytes", .num p.sizeBytes), ("mediaType", .str p.mediaType),
    ("createdAt", .str (host.jsonTime p.createdAt))]

/-- A revision in the manifest. -/
def revisionJson (r : ObjectRevision) : Json :=
  .obj [("projectId", r.projectId.toJson), ("kind", .str r.kind.asStr),
    ("objectId", .str r.objectId), ("revision", .num r.revision),
    ("baseRevision", .ofOption .num r.baseRevision),
    ("schemaVersion", .ofOption .num r.schemaVersion),
    ("contentHash", .ofOption .str r.contentHash), ("isTombstone", .bool r.isTombstone),
    ("changedAt", .str (host.jsonTime r.changedAt)), ("deviceId", r.deviceId.toJson)]

/-- A change in the manifest. -/
def changeJson (c : ExportedChange) : Json :=
  .obj [("projectId", c.projectId.toJson), ("sequence", .num c.sequence),
    ("revisionId", c.revisionId.toJson), ("createdAt", .str (host.jsonTime c.createdAt))]

/-- A snapshot in the manifest. -/
def snapshotJson (s : SnapshotRow) : Json :=
  .obj [("id", s.id.toJson), ("projectId", s.projectId.toJson), ("generation", .num s.generation),
    ("changeSequence", .num s.changeSequence), ("manifestHash", .str s.manifestHash),
    ("status", .str (snapshotStatusText s.status)), ("createdBy", s.createdBy.toJson),
    ("createdAt", .str (host.jsonTime s.createdAt)), ("manifest", s.manifest)]

namespace AccountRows

/-- The order of the payloads, and what identifies one of them. -/
def payloadOrder (p : PayloadRow) : ℕ ×ₗ String := toLex (p.projectId.toNat, p.contentHash)

/-- The order of the revisions. -/
def revisionOrder (r : ObjectRevision) : ℕ ×ₗ ℕ ×ₗ String ×ₗ ℤ :=
  toLex (r.projectId.toNat, toLex (kindRank r.kind, toLex (r.objectId, r.revision)))

/-- The order of the changes. -/
def changeOrder (c : ExportedChange) : ℕ ×ₗ ℤ := toLex (c.projectId.toNat, c.sequence)

/-- The order of the snapshots. -/
def snapshotOrder (s : SnapshotRow) : ℕ ×ₗ ℤ ×ₗ ℕ :=
  toLex (s.projectId.toNat, toLex (s.createdAt, s.id.toNat))

/-- The manifest of an export. -/
def manifest (rows : AccountRows) (userId : Uuid) : Json :=
  .obj [("format", .str "tasktips-account-export-v1"), ("userId", userId.toJson),
    ("projects", jsonbAgg (·.id.toNat) (projectJson host) rows.projects),
    ("devices", jsonbAgg (·.id.toNat) (deviceJson host) rows.devices),
    ("payloads", jsonbAgg payloadOrder (payloadJson host) rows.payloads),
    ("revisions", jsonbAgg revisionOrder (revisionJson host) rows.revisions),
    ("changeLog", jsonbAgg changeOrder (changeJson host) rows.changeLog),
    ("snapshots", jsonbAgg snapshotOrder (snapshotJson host) rows.snapshots)]

end AccountRows

/-- A payload that belongs in the archive. -/
structure AccountExportPayload where
  objectKey : String
  archivePath : String
  deriving DecidableEq, Repr

/-- What an export consists of. -/
structure AccountExportData where
  exportId : Uuid
  ownerUserId : Uuid
  objectKey : String
  manifest : List UInt8
  payloads : List AccountExportPayload
  deriving DecidableEq, Repr

/-- Collects an export for the worker that holds the lease of its job. -/
def prepareAccountExport (now : Timestamp) (jobId leaseToken : Uuid) (w : ExportWorld) :
    Except PersistenceError AccountExportData := do
  let job ← (leasedPurge .accountPurge now jobId leaseToken w.db).elim (.error .notFound) .ok
  let exportId ← (uuidMember job.payload "exportId").elim (.error .invalidPayload) .ok
  let found ← ((w.db.accountExport exportId).filter fun e =>
    e.userId == job.ownerUserId && e.status == .pending && now < e.expiresAt).elim
      (.error .accountPurgeNotReady) .ok
  let rows := w.rowsOf job.ownerUserId
  return { exportId := exportId, ownerUserId := job.ownerUserId, objectKey := found.objectKey,
           manifest := host.jsonBytes (rows.manifest host job.ownerUserId),
           payloads := (orderBy AccountRows.payloadOrder rows.payloads).map fun p =>
             ⟨p.objectKey, "payloads/" ++ p.projectId.text ++ "/" ++ p.contentHash⟩ }

end

/-! ## Operations -/

/-- A download. -/
structure PayloadDownload where
  contentLength : Option ℤ
  body : List UInt8
  deriving DecidableEq, Repr

/-- What a worker calls for a job: transactions, requests to the object store, and its disk. -/
inductive ExportOp where
  | accountPurgePhase (jobId leaseToken : Uuid)
  | prepareAccountExport (jobId leaseToken : Uuid)
  | renewAccountPurgeLease (jobId leaseToken : Uuid)
  | completeAccountExport (jobId leaseToken exportId : Uuid) (contentHash : String) (size : ℤ)
  | prepareAccountPurge (jobId leaseToken : Uuid)
  | completeAccountPurge (jobId leaseToken : Uuid)
  | failAccountPurge (jobId leaseToken : Uuid) (errorCode : String)
  | getObject (key : String)
  | headObject (key : String)
  | putObject (key : String) (bytes : List UInt8)
  | deleteObject (key : String)
  | createDirAll (exportId : Uuid)
  /-- Writes a payload to a file, which then has some metadata. -/
  | createPrivateFile (exportId : Uuid) (index : ℕ) (bytes : List UInt8)
  | writeArchive (exportId : Uuid) (bytes : List UInt8)
  | removeDirAll (exportId : Uuid)

/-- What an operation returns. -/
def ExportOp.Reply : ExportOp → Type
  | .accountPurgePhase .. => String
  | .prepareAccountExport .. => AccountExportData
  | .prepareAccountPurge .. => List String
  | .getObject _ => PayloadDownload
  | .headObject _ => Option ℕ
  | .createPrivateFile .. => FileStamp
  | .renewAccountPurgeLease .. | .completeAccountExport .. | .completeAccountPurge ..
  | .failAccountPurge .. | .putObject .. | .deleteObject _ | .createDirAll _ | .writeArchive ..
  | .removeDirAll _ => Unit

/-- Why an operation or a job fails. -/
inductive ExportError where
  | persistence (error : PersistenceError)
  | noSuchKey
  /-- A request to the database, the object store or the disk that is not answered. -/
  | unavailable
  | objectStore (error : ObjectStoreError)
  | message (text : String)

/-- The work of a worker on a job. -/
abbrev ExportProgram := Program ExportOp ExportOp.Reply ExportError

/-- A call of such a program. -/
abbrev ExportCall := Called ExportOp ExportOp.Reply ExportError

/-- A value that has to be there. -/
def orFail {α : Type} (e : ExportError) : Option α → ExportProgram α
  | some a => .done a
  | none => .fail e

/-- A condition that has to hold. -/
def check (p : Bool) (e : ExportError) : ExportProgram Unit := if p then .done () else .fail e

namespace Persistence

/-- `account_purge_phase`. -/
def accountPurgePhase (jobId leaseToken : Uuid) : ExportProgram String :=
  perform (ExportOp.accountPurgePhase jobId leaseToken)

/-- `prepare_account_export`. -/
def prepareAccountExport (jobId leaseToken : Uuid) : ExportProgram AccountExportData :=
  perform (ExportOp.prepareAccountExport jobId leaseToken)

/-- `renew_account_purge_lease`. -/
def renewAccountPurgeLease (jobId leaseToken : Uuid) : ExportProgram Unit :=
  perform (ExportOp.renewAccountPurgeLease jobId leaseToken)

/-- `complete_account_export`. -/
def completeAccountExport (jobId leaseToken exportId : Uuid) (contentHash : String) (size : ℤ) :
    ExportProgram Unit :=
  perform (ExportOp.completeAccountExport jobId leaseToken exportId contentHash size)

/-- `prepare_account_purge`. -/
def prepareAccountPurge (jobId leaseToken : Uuid) : ExportProgram (List String) :=
  perform (ExportOp.prepareAccountPurge jobId leaseToken)

/-- `complete_account_purge`. -/
def completeAccountPurge (jobId leaseToken : Uuid) : ExportProgram Unit :=
  perform (ExportOp.completeAccountPurge jobId leaseToken)

/-- `fail_account_purge`. -/
def failAccountPurge (jobId leaseToken : Uuid) (errorCode : String) : ExportProgram Unit :=
  perform (ExportOp.failAccountPurge jobId leaseToken errorCode)

end Persistence

/-- `head_key`: the size of an object. -/
def headKey (key : String) : ExportProgram (Option ℕ) := perform (ExportOp.headObject key)

/-- `get_key`. -/
def getKey (key : String) : ExportProgram PayloadDownload := perform (ExportOp.getObject key)

/-- Sends an object. -/
def putObject (key : String) (bytes : List UInt8) : ExportProgram Unit :=
  perform (ExportOp.putObject key bytes)

/-- `delete_key`. -/
def deleteKey (key : String) : ExportProgram Unit := perform (ExportOp.deleteObject key)

/-- `create_private_file`, with what is copied to the file. -/
def createPrivateFile (exportId : Uuid) (index : ℕ) (bytes : List UInt8) :
    ExportProgram FileStamp := perform (ExportOp.createPrivateFile exportId index bytes)

/-- `create_dir_all` for the files of an export. -/
def createDirAll (exportId : Uuid) : ExportProgram Unit := perform (ExportOp.createDirAll exportId)

/-- Writes an archive and reads it back for its size and its digest. -/
def writeArchive (exportId : Uuid) (bytes : List UInt8) : ExportProgram Unit :=
  perform (ExportOp.writeArchive exportId bytes)

/-- `remove_dir_all` for the files of an export. -/
def removeDirAll (exportId : Uuid) : ExportProgram Unit := perform (ExportOp.removeDirAll exportId)

/-! ## The object store -/

/-- `verify_key_hash`: the size and the digest of the bytes of an object. -/
def verifyKeyHash (host : ExportHost) (key : String) (expectedHash : String) (expectedSize : ℕ) :
    ExportProgram Unit := do
  let output ← getKey key
  check (output.body.length == expectedSize && host.sha256 output.body == expectedHash)
    (.objectStore .hashMismatch)

/-- `put_export_file`: an object that is there already stays as it is. -/
def putExportFile (host : ExportHost) (ownerUserId exportId : Uuid) (expectedHash : String)
    (bytes : List UInt8) : ExportProgram Unit := do
  let key := exportKey ownerUserId exportId
  match ← headKey key with
  | some existing =>
    check (existing == bytes.length) (.objectStore .backend)
    verifyKeyHash host key expectedHash existing
  | none =>
    check (decide (bytes.length < 2 ^ 63)) (.objectStore .backend)
    putObject key bytes
    let stored ← orFail (.objectStore .backend) (← headKey key)
    check (stored == bytes.length) (.objectStore .backend)
    verifyKeyHash host key expectedHash stored

/-! ## The job -/

/-- Downloads a payload to a file with a number, and counts its bytes. -/
def downloadPayload (host : ExportHost) (jobId leaseToken exportId : Uuid)
    (index temporaryBytes : ℕ) (payload : AccountExportPayload) :
    ExportProgram (TarEntry × ℕ) := do
  Persistence.renewAccountPurgeLease jobId leaseToken
  let download ← getKey payload.objectKey
  let payloadSize ← orFail (.message "export payload size unavailable")
    (download.contentLength.filter (0 ≤ ·))
  let temporaryBytes := temporaryBytes + payloadSize.toNat
  check (decide (temporaryBytes < 2 ^ 64)) (.message "export temporary size overflow")
  check (decide (temporaryBytes ≤ host.maxTempBytes))
    (.message "export temporary capacity exceeded")
  let stamp ← createPrivateFile exportId index download.body
  return (⟨payload.archivePath, stamp, download.body⟩, temporaryBytes)

/-- Downloads payloads to files with the numbers from `index` on. -/
def downloadPayloads (host : ExportHost) (jobId leaseToken exportId : Uuid) :
    ℕ → ℕ → List AccountExportPayload → ExportProgram (List TarEntry × ℕ)
  | _, temporaryBytes, [] => return ([], temporaryBytes)
  | index, temporaryBytes, payload :: rest => do
    let (file, temporaryBytes) ←
      downloadPayload host jobId leaseToken exportId index temporaryBytes payload
    let (files, temporaryBytes) ←
      downloadPayloads host jobId leaseToken exportId (index + 1) temporaryBytes rest
    return (file :: files, temporaryBytes)

/-- Packs and stores an export, and completes it. -/
def exportAccount (host : ExportHost) (jobId leaseToken : Uuid) (data : AccountExportData) :
    ExportProgram Unit := do
  let (files, temporaryBytes) ← downloadPayloads host jobId leaseToken data.exportId 0
    data.manifest.length data.payloads
  let archive := buildExportArchive host data.manifest files
  writeArchive data.exportId archive
  check (decide (temporaryBytes + archive.length ≤ host.maxTempBytes))
    (.message "export temporary capacity exceeded")
  putExportFile host data.ownerUserId data.exportId (host.sha256 archive) archive
  Persistence.completeAccountExport jobId leaseToken data.exportId (host.sha256 archive)
    archive.length

/-- `process_account_purge_job`. -/
def processAccountPurgeJob (host : ExportHost) (jobId leaseToken : Uuid) : ExportProgram Unit := do
  let phase ← Persistence.accountPurgePhase jobId leaseToken
  if phase = "export" then
    let data ← Persistence.prepareAccountExport jobId leaseToken
    createDirAll data.exportId
    ensure (exportAccount host jobId leaseToken data) (removeDirAll data.exportId)
  else
    let keys ← Persistence.prepareAccountPurge jobId leaseToken
    forEach deleteKey keys
    Persistence.completeAccountPurge jobId leaseToken

/-- An attempt of a worker that has claimed a job, as `process_purge_jobs` makes it. -/
def purgeAttempt (host : ExportHost) (jobId leaseToken : Uuid) : ExportProgram Unit := do
  match ← attempt (processAccountPurgeJob host jobId leaseToken) with
  | .error error =>
    Persistence.failAccountPurge jobId leaseToken "ACCOUNT_PURGE_FAILED"
    .fail error
  | .ok _ => return ()

end Exports

end TaskTipsCloud

import TaskTipsCloud.Domain
import TaskTipsCloud.Library.Sessions
import TaskTipsCloud.Library.Table

/-!
# The database

The tables of `migrations/0001_init.sql` that hold projects, their synchronised objects, and the
records of pushes, bootstraps, snapshots and restores, as lists of rows in the order of insertion.
Columns that no modelled statement reads are left out. A revision is identified by its natural key,
which the schema declares unique, in place of a random UUID.

A statement runs under a database role. Row-level security lets `tasktips_app` see and change the
rows of the user of the session only; the worker and the administration see all rows of the tables
that they use.
-/

namespace TaskTipsCloud

/-! ## Rows -/

/-- A row of `users`. -/
structure UserRow where
  id : Uuid
  role : UserRole
  status : AccountStatus
  deriving DecidableEq, Repr

/-- A row of `devices`. -/
structure DeviceRow where
  id : Uuid
  ownerUserId : Uuid
  lastPullAt : Option Timestamp
  lastPushAt : Option Timestamp
  revokedAt : Option Timestamp
  deriving DecidableEq, Repr

/-- A row of `projects`. -/
structure ProjectRow where
  id : Uuid
  ownerUserId : Uuid
  name : String
  generation : ℤ
  status : ProjectStatus
  changeSeq : ℤ
  createdAt : Timestamp
  updatedAt : Timestamp
  deriving DecidableEq, Repr

/-- A row of `payloads`. -/
structure PayloadRow where
  id : Uuid
  projectId : Uuid
  ownerUserId : Uuid
  contentHash : String
  bucket : String
  objectKey : String
  sizeBytes : ℤ
  mediaType : String
  createdAt : Timestamp
  deriving DecidableEq, Repr

/-- What identifies a revision. -/
structure RevisionId where
  projectId : Uuid
  kind : ObjectKind
  objectId : String
  revision : ℤ
  deriving DecidableEq, Repr

/-- A row of `object_revisions`. -/
structure ObjectRevision where
  projectId : Uuid
  ownerUserId : Uuid
  kind : ObjectKind
  objectId : String
  revision : ℤ
  baseRevision : Option ℤ
  schemaVersion : Option ℤ
  payloadId : Option Uuid
  contentHash : Option String
  isTombstone : Bool
  changedAt : Timestamp
  deviceId : Uuid
  deriving DecidableEq, Repr

/-- A row of `object_heads`. -/
structure ObjectHead where
  projectId : Uuid
  ownerUserId : Uuid
  kind : ObjectKind
  objectId : String
  revision : ℤ
  revisionId : RevisionId
  deriving DecidableEq, Repr

/-- A row of `change_log`. -/
structure ChangeLogEntry where
  projectId : Uuid
  ownerUserId : Uuid
  sequence : ℤ
  revisionId : RevisionId
  deriving DecidableEq, Repr

/-- A row of `bootstrap_manifests`. Of its manifest only the items are read back. -/
structure BootstrapManifestRow where
  id : Uuid
  projectId : Uuid
  ownerUserId : Uuid
  generation : ℤ
  changeSequence : ℤ
  manifestHash : String
  manifestBucket : String
  manifestKey : String
  items : List SyncRecord
  expiresAt : Timestamp
  deriving DecidableEq, Repr

/-- A row of `bootstrap_completions`. -/
structure BootstrapCompletion where
  projectId : Uuid
  ownerUserId : Uuid
  deviceId : Uuid
  generation : ℤ
  changeSequence : ℤ
  completedAt : Timestamp
  deriving DecidableEq, Repr

/-- A row of `idempotency_records`. -/
structure IdempotencyRecord where
  ownerUserId : Uuid
  deviceId : Uuid
  projectId : Uuid
  requestKey : String
  requestHash : String
  response : Json
  responseStatus : ℤ
  expiresAt : Timestamp

/-- A row of `snapshots`. -/
structure SnapshotRow where
  id : Uuid
  projectId : Uuid
  ownerUserId : Uuid
  generation : ℤ
  changeSequence : ℤ
  manifestHash : String
  manifestBucket : String
  manifestKey : String
  manifest : Json
  status : SnapshotStatus
  createdBy : Uuid
  createdAt : Timestamp

/-- A row of `restore_jobs`. -/
structure RestoreJob where
  id : Uuid
  projectId : Uuid
  ownerUserId : Uuid
  requestedBy : Uuid
  snapshotId : Option Uuid
  targetChangeSequence : Option ℤ
  reason : String
  requestId : String
  status : RestoreStatus
  preRestoreSnapshotId : Option Uuid
  generationBefore : Option ℤ
  generationAfter : Option ℤ
  restoredObjects : ℤ
  restoredTombstones : ℤ
  errorCode : Option String
  createdAt : Timestamp
  startedAt : Option Timestamp
  finishedAt : Option Timestamp
  leaseToken : Option Uuid
  leaseExpiresAt : Option Timestamp
  attempts : ℤ
  runAfter : Timestamp
  cancelRequested : Bool
  deriving DecidableEq, Repr

/-- A row of `audit_events`. -/
structure AuditEvent where
  actorUserId : Option Uuid
  subjectUserId : Option Uuid
  projectId : Option Uuid
  action : String
  metadata : Json
  requestId : Option String

/-- The database. -/
structure Db where
  users : List UserRow
  devices : List DeviceRow
  projects : List ProjectRow
  payloads : List PayloadRow
  objectRevisions : List ObjectRevision
  objectHeads : List ObjectHead
  changeLog : List ChangeLogEntry
  bootstrapManifests : List BootstrapManifestRow
  bootstrapCompletions : List BootstrapCompletion
  idempotencyRecords : List IdempotencyRecord
  snapshots : List SnapshotRow
  restoreJobs : List RestoreJob
  auditEvents : List AuditEvent

/-- The database after the migrations, with the accounts of some users. -/
def Db.initial (users : List UserRow) : Db where
  users := users
  devices := []
  projects := []
  payloads := []
  objectRevisions := []
  objectHeads := []
  changeLog := []
  bootstrapManifests := []
  bootstrapCompletions := []
  idempotencyRecords := []
  snapshots := []
  restoreJobs := []
  auditEvents := []

/-! ## Roles and locks -/

/-- The database roles, with the user of an application session. -/
inductive DbRole where
  | app (userId : Uuid)
  | worker
  | admin

/-- Whether row-level security shows a row of an owner. -/
def DbRole.sees : DbRole → Uuid → Bool
  | .app userId, owner => owner == userId
  | .worker, _ => true
  | .admin, _ => true

/-- What a transaction locks: rows, rows that it inserts, and the advisory locks. A hash collision
between advisory keys can only make more sessions wait, so the keys themselves stand for them. -/
inductive Lock where
  /-- The advisory lock of a push key. -/
  | push (userId deviceId : Uuid) (requestKey : String)
  /-- The advisory lock of a payload. -/
  | payload (projectId : Uuid) (contentHash : String)
  | project (id : Uuid)
  | payloadRow (id : Uuid)
  | bootstrapManifest (id : Uuid)
  | snapshot (id : Uuid)
  | restoreJob (id : Uuid)
  deriving DecidableEq

/-- A transaction on the database, up to what it returns. -/
abbrev Tx := Txn Db Lock PersistenceError

/-- The order in which the database returns the rows of a query that does not fix it, or that fixes
it by the collation of a text column. -/
structure ScanOrder where
  /-- The rows as they are returned. -/
  arrange : List SyncRecord → List SyncRecord
  /-- Every row is returned once. -/
  perm : ∀ rows, (arrange rows).Perm rows

/-- The order in which the rows are stored. -/
def ScanOrder.stored : ScanOrder := ⟨id, fun _ => .rfl⟩

/-! ## Reading -/

namespace ObjectRevision

/-- What identifies the revision. -/
def id (r : ObjectRevision) : RevisionId := ⟨r.projectId, r.kind, r.objectId, r.revision⟩

/-- The revision with its entry in the change log, as the queries select it. -/
def syncRecord (r : ObjectRevision) (c : ChangeLogEntry) : SyncRecord where
  kind := r.kind
  id := r.objectId
  schemaVersion := r.schemaVersion
  revision := r.revision
  baseRevision := r.baseRevision
  contentHash := r.contentHash
  changedAt := .ofTimestamp r.changedAt
  deviceId := r.deviceId
  tombstone := r.isTombstone
  changeSequence := c.sequence

end ObjectRevision

namespace Db

/-- The project with an identifier. -/
def project (d : Db) (projectId : Uuid) : Option ProjectRow :=
  d.projects.find? (·.id == projectId)

/-- The revisions of a project. -/
def revisionsOf (d : Db) (projectId : Uuid) : List ObjectRevision :=
  d.objectRevisions.filter (·.projectId == projectId)

/-- The heads of a project. -/
def headsOf (d : Db) (projectId : Uuid) : List ObjectHead :=
  d.objectHeads.filter (·.projectId == projectId)

/-- The change log of a project. -/
def logOf (d : Db) (projectId : Uuid) : List ChangeLogEntry :=
  d.changeLog.filter (·.projectId == projectId)

end Db

/-- The rows of one project that its row lock protects. -/
structure ProjectData where
  project : Option ProjectRow
  revisions : List ObjectRevision
  heads : List ObjectHead
  log : List ChangeLogEntry

/-- The rows of a project. -/
def Db.data (d : Db) (projectId : Uuid) : ProjectData where
  project := d.project projectId
  revisions := d.revisionsOf projectId
  heads := d.headsOf projectId
  log := d.logOf projectId

namespace ProjectData

variable (x : ProjectData) (role : DbRole)

/-- The part of a project's rows that a role sees. -/
def visible : ProjectData where
  project := x.project.filter (role.sees ·.ownerUserId)
  revisions := x.revisions.filter (role.sees ·.ownerUserId)
  heads := x.heads.filter (role.sees ·.ownerUserId)
  log := x.log.filter (role.sees ·.ownerUserId)

/-- `change_log c JOIN object_revisions r ON r.id = c.revision_id`. A foreign key keeps an entry and
its revision in one project. -/
def records : List SyncRecord :=
  x.log.flatMap fun c => (x.revisions.filter (·.id == c.revisionId)).map (·.syncRecord c)

/-- `object_heads h JOIN object_revisions r ON r.id = h.revision_id JOIN change_log c ON
c.revision_id = r.id`. -/
def headRecords : List SyncRecord :=
  x.heads.flatMap fun h => (x.revisions.filter (·.id == h.revisionId)).flatMap fun r =>
    (x.log.filter (·.revisionId == r.id)).map r.syncRecord

/-- The head of an object. -/
def head (kind : ObjectKind) (objectId : String) : Option ObjectHead :=
  x.heads.find? fun h => h.kind == kind && h.objectId == objectId

end ProjectData

/-- `ROW_NUMBER() OVER (PARTITION BY kind, object_id ORDER BY sequence DESC)`. -/
def rowNumber (rows : List SyncRecord) (row : SyncRecord) : ℕ :=
  (rows.filter fun y =>
    y.kind == row.kind && y.id == row.id && row.changeSequence < y.changeSequence).length + 1

/-- The latest record of each object among those up to a sequence. -/
def rankedRecords (rows : List SyncRecord) (sequence : ℤ) : List SyncRecord :=
  let upTo := rows.filter (·.changeSequence ≤ sequence)
  upTo.filter (rowNumber upTo · == 1)

/-- `ORDER BY sequence`. -/
def orderBySequence (rows : List SyncRecord) : List SyncRecord :=
  rows.insertionSort fun a b => a.changeSequence ≤ b.changeSequence

end TaskTipsCloud

import TaskTipsCloud.Library.Serial
import TaskTipsCloud.Service

/-!
# Purges

The background jobs that delete a project or an account. A job carries a JSON payload, which holds
the phase of the job, and later the keys of the objects that are still to be deleted. The
transactions are executed one after the other here, so row locks are left out.
-/

namespace TaskTipsCloud

open Txn

/-- The kinds of background jobs. -/
inductive JobKind where
  | projectPurge
  | accountPurge
  deriving DecidableEq, Repr

/-- The states of a background job. -/
inductive JobStatus where
  | queued
  | running
  | succeeded
  | failed
  deriving DecidableEq, Repr

/-- A row of `jobs`. -/
structure JobRow where
  id : Uuid
  kind : JobKind
  ownerUserId : Uuid
  projectId : Option Uuid
  payload : Json
  status : JobStatus
  attempts : ℤ
  runAfter : Timestamp
  leaseToken : Option Uuid
  leaseExpiresAt : Option Timestamp
  errorCode : Option String
  createdAt : Timestamp
  startedAt : Option Timestamp
  finishedAt : Option Timestamp

/-- The states of an account export. -/
inductive ExportStatus where
  | pending
  | ready
  | purging
  | completed
  | failed
  | expired
  deriving DecidableEq, Repr

/-- A row of `account_purge_exports`. -/
structure AccountExport where
  id : Uuid
  userId : Uuid
  jobId : Uuid
  objectKey : String
  contentHash : Option String
  sizeBytes : Option ℤ
  status : ExportStatus
  createdAt : Timestamp
  expiresAt : Timestamp
  completedAt : Option Timestamp
  deriving DecidableEq, Repr

/-- The database with the background jobs. -/
structure PurgeDb where
  sync : Db
  jobs : List JobRow
  exports : List AccountExport

/-- The database after the migrations, with the accounts of some users. -/
def PurgeDb.initial (users : List UserRow) : PurgeDb := ⟨.initial users, [], []⟩

/-- The transactions on it. -/
abbrev PurgeTx := Txn PurgeDb Lock PersistenceError

/-- A transaction on the tables of the synchronisation. -/
def onSync {α : Type} (x : Tx α) : PurgeTx α := x.zoom PurgeDb.sync fun t s => { s with sync := t }

/-- The order in which a query without `ORDER BY` returns some keys. -/
structure KeyOrder where
  /-- The keys as they are returned. -/
  arrange : List String → List String
  /-- Every key is returned once. -/
  perm : ∀ keys, (arrange keys).Perm keys

/-- The order in which the rows are stored. -/
def KeyOrder.stored : KeyOrder := ⟨id, fun _ => .rfl⟩

/-- What a request for the purge of an account returns. -/
structure AccountPurgeResponse where
  jobId : Uuid
  exportId : Uuid
  status : String
  confirmationRequired : Bool

namespace PurgeDb

/-- The job with an identifier. -/
def job (d : PurgeDb) (jobId : Uuid) : Option JobRow := d.jobs.find? (·.id == jobId)

/-- Applies `f` to the job with an identifier. -/
def updateJob (d : PurgeDb) (jobId : Uuid) (f : JobRow → JobRow) : PurgeDb :=
  { d with jobs := updateWhere (·.id == jobId) f d.jobs }

/-- The account export with an identifier. -/
def accountExport (d : PurgeDb) (exportId : Uuid) : Option AccountExport :=
  d.exports.find? (·.id == exportId)

/-- Applies `f` to the account exports that satisfy `p`. -/
def updateExports (d : PurgeDb) (p : AccountExport → Bool) (f : AccountExport → AccountExport) :
    PurgeDb :=
  { d with exports := updateWhere p f d.exports }

/-- The account with an identifier. -/
def user (d : PurgeDb) (userId : Uuid) : Option UserRow := d.sync.users.find? (·.id == userId)

/-- Applies `f` to the account with an identifier. -/
def updateUser (d : PurgeDb) (userId : Uuid) (f : UserRow → UserRow) : PurgeDb :=
  { d with sync := { d.sync with users := updateWhere (·.id == userId) f d.sync.users } }

/-- Whether a job of a kind is queued or running for a user. -/
def hasActiveJob (d : PurgeDb) (kind : JobKind) (userId : Uuid) : Bool :=
  d.jobs.any fun j => j.ownerUserId == userId && j.kind == kind &&
    (j.status == .queued || j.status == .running)

end PurgeDb

/-! ## Payloads -/

/-- Whether the rows of a job are gone. -/
def isDetached (payload : Json) : Bool := ((payload.get? "detached").bind (·.bool?)).getD false

/-- The keys of the objects that a detached job still has to delete. -/
def objectKeys (payload : Json) : Option (List String) :=
  ((payload.get? "objectKeys").bind (·.arr?)).bind (·.mapM Json.str?)

/-- A member of a payload that is a UUID. -/
def uuidMember (payload : Json) (key : String) : Option Uuid :=
  ((payload.get? key).bind (·.str?)).bind Uuid.parse

/-- `COALESCE(payload->>'phase', '')`. -/
def payloadPhase (payload : Json) : String := ((payload.get? "phase").bind (·.str?)).getD ""

/-! ## Jobs -/

/-- How long a worker may keep a job. -/
def purgeLease : Timestamp := seconds (5 * 60)

namespace JobRow

/-- A job that is inserted. -/
def new (id : Uuid) (kind : JobKind) (ownerUserId : Uuid) (projectId : Option Uuid) (payload : Json)
    (now : Timestamp) : JobRow where
  id := id
  kind := kind
  ownerUserId := ownerUserId
  projectId := projectId
  payload := payload
  status := .queued
  attempts := 0
  runAfter := now
  leaseToken := none
  leaseExpiresAt := none
  errorCode := none
  createdAt := now
  startedAt := none
  finishedAt := none

/-- Whether a job can be claimed: it is due, and it is queued or its worker lost its lease. -/
def claimable (j : JobRow) (kind : JobKind) (now : Timestamp) : Bool :=
  j.kind == kind && j.runAfter ≤ now &&
    (j.status == .queued || (j.status == .running && j.leaseExpiresAt.any (· < now)))

/-- A job that a worker has claimed. -/
def claimed (j : JobRow) (now : Timestamp) (leaseToken : Uuid) : JobRow :=
  { j with status := .running, attempts := j.attempts + 1, leaseToken := some leaseToken,
           leaseExpiresAt := some (now + purgeLease), startedAt := some (j.startedAt.getD now),
           errorCode := none }

/-- A job after a failed attempt: queued again, or failed after the fifth. -/
def retried (j : JobRow) (now : Timestamp) (errorCode : String) : JobRow :=
  { j with status := if j.attempts < 5 then .queued else .failed, errorCode := some errorCode,
           leaseToken := none, leaseExpiresAt := none, runAfter := now + seconds 60,
           finishedAt := if j.attempts < 5 then none else some now }

/-- A job that is done. -/
def succeeded (j : JobRow) (now : Timestamp) : JobRow :=
  { j with status := .succeeded, leaseToken := none, leaseExpiresAt := none,
           finishedAt := some now }

end JobRow

/-- The running job of a kind whose lease token a worker holds. -/
def runningPurge (kind : JobKind) (jobId leaseToken : Uuid) (d : PurgeDb) : Option JobRow :=
  (d.job jobId).filter fun j =>
    j.kind == kind && j.status == .running && j.leaseToken == some leaseToken

/-- The running job of a kind whose lease a worker holds and has not lost. -/
def leasedPurge (kind : JobKind) (now : Timestamp) (jobId leaseToken : Uuid) (d : PurgeDb) :
    Option JobRow :=
  (runningPurge kind jobId leaseToken d).filter fun j => j.leaseExpiresAt.any (now < ·)

/-- The next job of a kind, past the jobs whose rows other sessions have locked. -/
def nextPurge (kind : JobKind) (now : Timestamp) (skipLocked : List Uuid) (d : PurgeDb) :
    Option JobRow :=
  ((d.jobs.filter fun j => j.claimable kind now && !skipLocked.contains j.id).insertionSort
    fun a b => a.runAfter < b.runAfter ∨ a.runAfter = b.runAfter ∧
      (a.createdAt < b.createdAt ∨ a.createdAt = b.createdAt ∧ a.id ≤ b.id)).head?

/-- Claims the next job of a kind. -/
def claimPurge (kind : JobKind) (now : Timestamp) (skipLocked : List Uuid) (leaseToken : Uuid) :
    PurgeTx (Except PersistenceError (Option JobRow)) := do
  match ← query (nextPurge kind now skipLocked) with
  | none => return .ok none
  | some job =>
    modify (·.updateJob job.id (·.claimed now leaseToken))
    return .ok (some (job.claimed now leaseToken))

/-- Claims one project purge. -/
def claimProjectPurgeJob (now : Timestamp) (skipLocked : List Uuid) (leaseToken : Uuid) :
    PurgeTx (Except PersistenceError (Option JobRow)) :=
  claimPurge .projectPurge now skipLocked leaseToken

/-- Claims one account purge. -/
def claimAccountPurgeJob (now : Timestamp) (skipLocked : List Uuid) (leaseToken : Uuid) :
    PurgeTx (Except PersistenceError (Option JobRow)) :=
  claimPurge .accountPurge now skipLocked leaseToken

/-- `INSERT INTO jobs`. A user has at most one account purge that is queued or running. -/
def insertJob (job : JobRow) : PurgeTx Unit := do
  let refused ← query fun d => firstViolation
    [((d.job job.id).isNone, .uniqueViolation),
      (job.kind != .accountPurge || !d.hasActiveJob .accountPurge job.ownerUserId,
        .uniqueViolation)]
  match refused with
  | some e => .throw (.database e)
  | none => modify fun d => { d with jobs := d.jobs ++ [job] }

/-- Appends an audit event of two users. -/
def auditPurge (actorUserId subjectUserId : Uuid) (action : String) (metadata : Json)
    (requestId : Option String) : PurgeTx Unit :=
  onSync (insertAudit
    { actorUserId := some actorUserId, subjectUserId := some subjectUserId, projectId := none,
      action := action, metadata := metadata, requestId := requestId })

/-! ## Rows of projects -/

/-- Deletes the projects that satisfy `q`, and before them all rows of these projects. Audit events
only lose their reference. -/
def Db.deleteProjects (q : Uuid → Bool) (d : Db) : Db :=
  { d with
    bootstrapCompletions := d.bootstrapCompletions.filter (!q ·.projectId)
    idempotencyRecords := d.idempotencyRecords.filter (!q ·.projectId)
    restoreJobs := d.restoreJobs.filter (!q ·.projectId)
    snapshots := d.snapshots.filter (!q ·.projectId)
    bootstrapManifests := d.bootstrapManifests.filter (!q ·.projectId)
    changeLog := d.changeLog.filter (!q ·.projectId)
    objectHeads := d.objectHeads.filter (!q ·.projectId)
    objectRevisions := d.objectRevisions.filter (!q ·.projectId)
    payloads := d.payloads.filter (!q ·.projectId)
    projects := d.projects.filter (!q ·.id)
    auditEvents := d.auditEvents.map fun e => { e with projectId := e.projectId.filter (!q ·) } }

/-- The keys of the objects of some projects, each once. -/
def Db.objectKeysOf (q : Uuid → Bool) (d : Db) : List String :=
  ((d.payloads.filter (q ·.projectId)).map (·.objectKey) ++
    (d.snapshots.filter (q ·.projectId)).map (·.manifestKey) ++
      (d.bootstrapManifests.filter (q ·.projectId)).map (·.manifestKey)).dedup

/-- The projects of a user. Composite foreign keys give every row of a project the owner of the
project, so the rows of a user are the rows of the projects of the user. -/
def Db.ownsProject (userId : Uuid) (d : Db) (projectId : Uuid) : Bool :=
  d.hasProject projectId userId

/-! ## Purging a project -/

/-- Moves a project into the state `deleting` and queues its purge. -/
def enqueueProjectPurge (now : Timestamp) (userId projectId jobId : Uuid)
    (reason requestId : String) : PurgeTx (Except PersistenceError JobRow) := do
  let row ← query fun d => visibleProject (.app userId) projectId d.sync
  let row ← orThrow .notFound row
  require (row.status == .active || row.status == .disabled) .conflict
  let hasActiveRestore ← query fun d => d.sync.restoreJobs.any fun j =>
    j.projectId == projectId && j.isActive && j.ownerUserId == userId
  require (!hasActiveRestore) .conflict
  modify fun d => { d with sync := d.sync.updateProject projectId fun p =>
    { p with status := .deleting, updatedAt := now } }
  let job := JobRow.new jobId .projectPurge userId (some projectId)
    (.obj [("reason", .str reason), ("requestedBy", userId.toJson)]) now
  insertJob job
  auditPurge userId userId "project.purge_requested"
    (.obj [("projectId", projectId.toJson), ("jobId", jobId.toJson), ("reason", .str reason)])
    (some requestId)
  return .ok job

/-- Removes the rows of a project and keeps the keys of its objects on the job. Once the rows are
gone, it returns the keys again. -/
def prepareProjectPurge (now : Timestamp) (order : KeyOrder) (jobId leaseToken : Uuid) :
    PurgeTx (Except PersistenceError (List String)) := do
  let job ← query (leasedPurge .projectPurge now jobId leaseToken)
  let job ← orThrow .notFound job
  let projectId ← orThrow (.database .rowNotFound) job.projectId
  if isDetached job.payload then
    let keys ← orThrow .invalidPayload (objectKeys job.payload)
    return .ok keys
  else
    let row ← query fun d => (d.sync.project projectId).filter (·.ownerUserId == job.ownerUserId)
    require (row.any (·.status == .deleting)) .conflict
    let keys ← query fun d => order.arrange (d.sync.objectKeysOf (· == projectId))
    modify fun d => { d with sync := d.sync.deleteProjects (· == projectId) }
    modify (·.updateJob jobId fun j =>
      { j with payload := .obj [("detached", .bool true), ("objectKeys", .arr (keys.map .str))] })
    return .ok keys

/-- Completes a project purge whose objects are gone. -/
def completeProjectPurge (now : Timestamp) (jobId leaseToken : Uuid) :
    PurgeTx (Except PersistenceError Unit) := do
  let job ← query (leasedPurge .projectPurge now jobId leaseToken)
  let job ← orThrow .notFound job
  let projectId ← orThrow (.database .rowNotFound) job.projectId
  modify (·.updateJob jobId (·.succeeded now))
  auditPurge job.ownerUserId job.ownerUserId "project.purge_completed"
    (.obj [("projectId", projectId.toJson), ("jobId", jobId.toJson)]) none
  return .ok ()

/-- Queues a job again after a failed attempt, or gives it up. The statement names no kind. -/
def failProjectPurge (now : Timestamp) (jobId leaseToken : Uuid) (errorCode : String) :
    PurgeTx (Except PersistenceError Unit) := do
  let job ← query fun d => (d.job jobId).filter fun j =>
    j.status == .running && j.leaseToken == some leaseToken
  require job.isSome .notFound
  modify (·.updateJob jobId (·.retried now errorCode))
  return .ok ()

end TaskTipsCloud

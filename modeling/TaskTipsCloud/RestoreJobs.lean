import TaskTipsCloud.Snapshots

/-!
# Restore jobs

The life of a restore job: it is queued, a worker claims it and puts its project into maintenance,
and it is cancelled, retried, failed or executed. The execution itself is in `Restore.lean`.
-/

namespace TaskTipsCloud

open Txn

namespace Db

/-- The restore job with an identifier. -/
def restoreJob (d : Db) (jobId : Uuid) : Option RestoreJob :=
  d.restoreJobs.find? (·.id == jobId)

/-- Applies `f` to the restore job with an identifier. -/
def updateRestoreJob (d : Db) (jobId : Uuid) (f : RestoreJob → RestoreJob) : Db :=
  { d with restoreJobs := updateWhere (·.id == jobId) f d.restoreJobs }

end Db

/-- How long a worker may keep a job without renewing its lease. -/
def restoreLease : Timestamp := seconds (5 * 60)

/-- The restore jobs that keep a project from another restore. -/
def RestoreJob.isActive (j : RestoreJob) : Bool := j.status == .queued || j.status == .running

/-- The job that a worker holds the lease of. -/
def leasedJob (jobId leaseToken : Uuid) (d : Db) : Option RestoreJob :=
  (d.restoreJob jobId).filter fun j => j.status == .running && j.leaseToken == some leaseToken

/-- The arguments of a new restore job. -/
structure EnqueueRestoreArgs where
  userId : Uuid
  projectId : Uuid
  snapshotId : Option Uuid
  targetChangeSequence : Option ℤ
  reason : String
  requestId : String
  /-- The identifier that the job gets. -/
  jobId : Uuid

/-- The row of a new restore job. -/
def EnqueueRestoreArgs.job (a : EnqueueRestoreArgs) (now : Timestamp) : RestoreJob where
  id := a.jobId
  projectId := a.projectId
  ownerUserId := a.userId
  requestedBy := a.userId
  snapshotId := a.snapshotId
  targetChangeSequence := a.targetChangeSequence
  reason := a.reason
  requestId := a.requestId
  status := .queued
  preRestoreSnapshotId := none
  generationBefore := none
  generationAfter := none
  restoredObjects := 0
  restoredTombstones := 0
  errorCode := none
  createdAt := now
  startedAt := none
  finishedAt := none
  leaseToken := none
  leaseExpiresAt := none
  attempts := 0
  runAfter := now
  cancelRequested := false

/-- `INSERT INTO restore_jobs`. -/
def insertRestoreJob (job : RestoreJob) : Tx Unit := do
  acquire (.restoreJob job.id)
  insertRow
    (fun d => firstViolation
      [(job.snapshotId.isSome != job.targetChangeSequence.isSome, .checkViolation),
        (job.targetChangeSequence.all (0 ≤ ·), .checkViolation),
        (1 ≤ job.reason.length && job.reason.length ≤ 512, .checkViolation),
        ((d.restoreJob job.id).isNone, .uniqueViolation),
        (d.restoreJobs.all fun j => !(j.projectId == job.projectId && j.isActive),
          .uniqueViolation),
        (d.hasProject job.projectId job.ownerUserId, .foreignKeyViolation),
        (d.users.any (·.id == job.requestedBy), .foreignKeyViolation),
        (job.snapshotId.all fun s => (d.snapshot s).any (·.projectId == job.projectId),
          .foreignKeyViolation)])
    fun d => { d with restoreJobs := d.restoreJobs ++ [job] }

/-- Enqueues a restore. -/
def enqueueRestore (now : Timestamp) (a : EnqueueRestoreArgs) :
    Tx (Except PersistenceError RestoreJob) := do
  require (validateRestoreTarget a.snapshotId a.targetChangeSequence) .invalidRestoreTarget
  let (_, currentSequence) ← requireActiveProjectForUpdate (.app a.userId) a.projectId
  let activeRestore ← query fun d => d.restoreJobs.any fun j =>
    j.projectId == a.projectId && j.isActive && j.ownerUserId == a.userId
  require (!activeRestore) .conflict
  require (!a.targetChangeSequence.any (currentSequence < ·)) .invalidRestoreTarget
  let belongs ← query fun d => a.snapshotId.all fun s => (d.snapshot s).any fun x =>
    x.projectId == a.projectId && x.status == .ready && x.ownerUserId == a.userId
  require belongs .notFound
  let job := a.job now
  insertRestoreJob job
  insertAudit
    { actorUserId := some a.userId, subjectUserId := some a.userId, projectId := none,
      action := "restore.requested",
      metadata := .obj [("projectId", a.projectId.toJson), ("restoreId", job.id.toJson)],
      requestId := some a.requestId }
  return .ok job

/-- The job of a project that its owner asks for. -/
def ownedJob (userId projectId restoreId : Uuid) (d : Db) : Option RestoreJob :=
  (d.restoreJob restoreId).filter fun j => j.projectId == projectId && j.ownerUserId == userId

/-- Cancels a job that is queued, marks one that is running, and names the action. -/
def cancelJob (now : Timestamp) (job : RestoreJob) : Tx String := do
  match job.status with
  | .queued => do
    modify (·.updateRestoreJob job.id fun j =>
      { j with status := .cancelled, finishedAt := some now })
    return "restore.cancelled"
  | .running => do
    modify (·.updateRestoreJob job.id fun j => { j with cancelRequested := true })
    return "restore.cancel_requested"
  | _ => .throw .conflict

/-- Cancels a queued restore, or asks the worker of a running one to cancel it. -/
def cancelRestore (now : Timestamp) (userId projectId restoreId : Uuid)
    (reason requestId : String) : Tx (Except PersistenceError RestoreJob) := do
  let row ← selectForUpdate (.restoreJob restoreId) (ownedJob userId projectId restoreId)
  let row ← orThrow .notFound row
  let action ← cancelJob now row
  insertAudit
    { actorUserId := some userId, subjectUserId := some userId, projectId := none,
      action := action,
      metadata := .obj [("projectId", projectId.toJson), ("restoreId", restoreId.toJson),
        ("reason", .str reason)],
      requestId := some requestId }
  let job ← query (ownedJob userId projectId restoreId)
  let job ← orThrow (.database .rowNotFound) job
  return .ok job

/-- Whether a job can be claimed: it is queued and due, or its worker lost its lease. -/
def RestoreJob.claimable (now : Timestamp) (j : RestoreJob) : Bool :=
  (j.status == .queued && j.runAfter ≤ now) ||
    (j.status == .running && j.leaseExpiresAt.any (· < now))

/-- The next job to claim, past the jobs whose rows other sessions have locked. -/
def nextRestoreJob (now : Timestamp) (skipLocked : List Uuid) (d : Db) : Option RestoreJob :=
  ((d.restoreJobs.filter fun j => j.claimable now && !skipLocked.contains j.id).insertionSort
    fun a b => a.createdAt < b.createdAt ∨ a.createdAt = b.createdAt ∧ a.id ≤ b.id).head?

/-- Puts the project of a queued job into maintenance, and finds the one of a running job there. -/
def enterMaintenance (now : Timestamp) (job : RestoreJob) : Tx (Option ℤ) := do
  if job.status == .queued then
    let row ← selectForUpdate (.project job.projectId) fun d =>
      (visibleProject .worker job.projectId d).filter fun p =>
        p.status == .active || p.status == .maintenance
    match row with
    | none => return none
    | some p =>
      modify (·.updateProject job.projectId fun p =>
        { p with status := .maintenance, updatedAt := now })
      return some p.generation
  else
    let row ← selectForUpdate (.project job.projectId) fun d =>
      (visibleProject .worker job.projectId d).filter (·.status == .maintenance)
    return row.map (·.generation)

/-- Claims the next restore job for a worker and puts its project into maintenance. -/
def claimRestoreJob (now : Timestamp) (skipLocked : List Uuid) (leaseToken : Uuid) :
    Tx (Except PersistenceError (Option RestoreJob)) := do
  match ← query (nextRestoreJob now skipLocked) with
  | none => return .ok none
  | some found =>
    match ← selectForUpdate (.restoreJob found.id) fun d =>
      (d.restoreJob found.id).filter (·.claimable now) with
    | none => return .ok none
    | some job =>
      match ← enterMaintenance now job with
      | none => do
        modify (·.updateRestoreJob job.id fun j =>
          { j with status := .failed, errorCode := some "PROJECT_MAINTENANCE",
                   finishedAt := some now })
        return .error .projectMaintenance
      | some generation => do
        modify (·.updateRestoreJob job.id fun j =>
          { j with status := .running,
                   generationBefore := some (j.generationBefore.getD generation),
                   leaseToken := some leaseToken, leaseExpiresAt := some (now + restoreLease),
                   startedAt := some (j.startedAt.getD now) })
        let job ← query (·.restoreJob job.id)
        return .ok job

/-- A job with its project, as the query that locks them both selects them. -/
def leasedJobAndProject (projectId jobId leaseToken : Uuid) (d : Db) :
    Option (RestoreJob × ProjectRow) := do
  let job ← (leasedJob jobId leaseToken d).filter (·.projectId == projectId)
  let project ← visibleProject .worker projectId d
  return (job, project)

/-- Creates the pending snapshot that precedes a restore. -/
def createPreRestoreSnapshot (host : Host) (now : Timestamp) (order : ScanOrder)
    (projectId jobId leaseToken snapshotId : Uuid) :
    Tx (Except PersistenceError (Uuid × Uuid × Json)) := do
  match ← query (leasedJobAndProject projectId jobId leaseToken) with
  | none => .throw .notFound
  | some _ =>
    acquire (.project projectId)
    let row ← selectForUpdate (.restoreJob jobId) (leasedJobAndProject projectId jobId leaseToken)
    let (job, project) ← orThrow .notFound row
    require (!job.cancelRequested) .restoreCancelled
    let rows ← query (headRows .worker order projectId)
    let manifest := snapshotManifestJson host snapshotId project.generation project.changeSeq rows
    insertPendingSnapshot host now snapshotId projectId project.ownerUserId project.generation
      project.changeSeq manifest
    modify (·.updateRestoreJob jobId fun j => { j with preRestoreSnapshotId := some snapshotId })
    return .ok (snapshotId, project.ownerUserId, manifest)

/-- Makes the snapshot that precedes a restore ready, for the worker that holds the lease. -/
def markSnapshotReadyForJob (jobId leaseToken snapshotId : Uuid) (bucket key : String) :
    Tx (Except PersistenceError Unit) := do
  match ← selectForUpdate (.snapshot snapshotId) fun d =>
      (pendingSnapshot snapshotId d).filter fun _ => (leasedJob jobId leaseToken d).isSome with
  | none => return .ok ()
  | some _ =>
    modify (·.updateSnapshot snapshotId fun x =>
      { x with manifestBucket := bucket, manifestKey := key, status := .ready })
    return .ok ()

/-- Changes the job that a worker holds the lease of; returns the job as it was. -/
def updateLeasedJob (jobId leaseToken : Uuid) (f : RestoreJob → RestoreJob) :
    Tx (Option RestoreJob) := do
  let row ← selectForUpdate (.restoreJob jobId) (leasedJob jobId leaseToken)
  match row with
  | none => return none
  | some job =>
    modify (·.updateRestoreJob jobId f)
    return some job

/-- Extends the lease of a worker. -/
def renewRestoreLease (now : Timestamp) (jobId leaseToken : Uuid) :
    Tx (Except PersistenceError Unit) := do
  match ← updateLeasedJob jobId leaseToken fun j =>
      { j with leaseExpiresAt := some (now + restoreLease) } with
  | none => return .error .conflict
  | some _ => return .ok ()

/-- Reopens a project that is in maintenance. -/
def leaveMaintenance (now : Timestamp) (projectId : Uuid) : Tx Unit := do
  let row ← selectForUpdate (.project projectId) fun d =>
    (visibleProject .worker projectId d).filter (·.status == .maintenance)
  match row with
  | none => return
  | some _ =>
    modify (·.updateProject projectId fun p => { p with status := .active, updatedAt := now })

/-- Completes the cancellation of a running restore. -/
def cancelRestoreWithLease (now : Timestamp) (jobId leaseToken : Uuid) :
    Tx (Except PersistenceError Unit) := do
  let row ← selectForUpdate (.restoreJob jobId) (leasedJob jobId leaseToken)
  let job ← orThrow .notFound row
  require job.cancelRequested .conflict
  modify (·.updateRestoreJob jobId fun j =>
    { j with status := .cancelled, finishedAt := some now, leaseToken := none,
             leaseExpiresAt := none })
  leaveMaintenance now job.projectId
  insertAudit
    { actorUserId := some job.requestedBy, subjectUserId := some job.ownerUserId,
      projectId := none, action := "restore.cancelled",
      metadata := .obj [("projectId", job.projectId.toJson), ("restoreId", jobId.toJson)],
      requestId := some "" }
  return .ok ()

/-- Fails a running restore, for the worker that holds its lease. -/
def failRestoreJobWithLease (now : Timestamp) (jobId leaseToken : Uuid) (errorCode : String) :
    Tx (Except PersistenceError Unit) := do
  discard <| updateLeasedJob jobId leaseToken fun j =>
    { j with status := .failed, errorCode := some errorCode, leaseToken := none,
             leaseExpiresAt := none, finishedAt := some now }
  return .ok ()

/-- The job after one more failed attempt: queued again, or failed after the third. -/
def RestoreJob.retried (j : RestoreJob) (now : Timestamp) (errorCode : String) : RestoreJob :=
  { j with attempts := j.attempts + 1, errorCode := some errorCode,
           status := if j.attempts + 1 < 3 then .queued else .failed,
           runAfter := now + seconds 60, leaseToken := none, leaseExpiresAt := none,
           finishedAt := if j.attempts + 1 < 3 then none else some now }

/-- Queues a running restore again after a transient failure; whether it was queued again. -/
def retryRestoreJobWithLease (now : Timestamp) (jobId leaseToken : Uuid) (errorCode : String) :
    Tx (Except PersistenceError Bool) := do
  match ← updateLeasedJob jobId leaseToken (·.retried now errorCode) with
  | none => return .ok false
  | some job => return .ok (job.attempts + 1 < 3)

/-- An active administrator. -/
def requireAdmin (userId : Uuid) : Tx Unit := do
  let isAdmin ← query fun d => (d.users.find? (·.id == userId)).any fun u =>
    u.role == .systemAdmin && u.status == .active
  require isAdmin .adminRequired

/-- Reopens a project after an administrator has looked at its failed restore. The check of the
administrator is a transaction of its own, which changes nothing. -/
def reopenFailedRestore (now : Timestamp) (actorUserId projectId : Uuid)
    (reason requestId : String) : Tx (Except PersistenceError Unit) := do
  requireAdmin actorUserId
  let row ← selectForUpdate (.project projectId) (visibleProject .admin projectId)
  let row ← orThrow .notFound row
  require (row.status == .maintenance) .restoreNotReopenable
  let failedRestore ← query fun d => d.restoreJobs.any fun j =>
    j.projectId == projectId && j.status == .failed
  require failedRestore .restoreNotReopenable
  modify (·.updateProject projectId fun p => { p with status := .active, updatedAt := now })
  insertAudit
    { actorUserId := some actorUserId, subjectUserId := none, projectId := none,
      action := "restore.reopened",
      metadata := .obj [("projectId", projectId.toJson), ("reason", .str reason)],
      requestId := some requestId }
  return .ok ()

end TaskTipsCloud

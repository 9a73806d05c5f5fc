import TaskTipsCloud.Expiry

/-!
# Purges of accounts

An account is purged in two phases: a job exports it, and once an administrator has confirmed the
export, a second job deletes it. The service of both kinds of purges ends the module. The export
itself is left out: its transaction reads and changes nothing.
-/

namespace TaskTipsCloud

open Txn

/-- The name of a state. -/
def JobStatus.asStr : JobStatus → String
  | .queued => "queued"
  | .running => "running"
  | .succeeded => "succeeded"
  | .failed => "failed"

/-- A user whose account can be purged. The check of the administrator is a transaction of its own,
which changes nothing. -/
def purgeableUser (actorUserId subjectUserId : Uuid) : PurgeTx Unit := do
  onSync (requireAdmin actorUserId)
  require (actorUserId != subjectUserId) .invalidAccountTransition
  let user ← query (·.user subjectUserId)
  let user ← orThrow .notFound user
  require (user.role == .user && (user.status == .active || user.status == .disabled))
    .invalidAccountTransition

/-- The projects of a user move into the state `deleting`. -/
def Db.markDeleting (now : Timestamp) (userId : Uuid) (d : Db) : Db :=
  let unmarked (p : ProjectRow) : Bool :=
    p.ownerUserId == userId &&
      (p.status == .active || p.status == .disabled || p.status == .maintenance)
  let mark (p : ProjectRow) : ProjectRow := { p with status := .deleting, updatedAt := now }
  { d with projects := updateWhere unmarked mark d.projects }

/-- The export of a user that is still wanted, with its job. -/
def wantedExport (now : Timestamp) (userId : Uuid) (d : PurgeDb) :
    Option (AccountExport × JobRow) := do
  let found ← ((d.exports.filter fun e => e.userId == userId && now < e.expiresAt &&
    (e.status == .pending || e.status == .ready) && (d.job e.jobId).isSome).insertionSort
      fun a b => b.createdAt ≤ a.createdAt).head?
  let job ← d.job found.jobId
  return (found, job)

/-- Starts the first phase of an account purge, unless an export is there. -/
def requestAccountPurgeExport (now : Timestamp) (actorUserId subjectUserId jobId exportId : Uuid)
    (reason requestId : String) : PurgeTx (Except PersistenceError AccountPurgeResponse) := do
  purgeableUser actorUserId subjectUserId
  let hasActiveProjectPurge ← query (·.hasActiveJob .projectPurge subjectUserId)
  require (!hasActiveProjectPurge) .conflict
  match ← query (wantedExport now subjectUserId) with
  | some (found, job) =>
    return .ok
      { jobId := job.id, exportId := found.id,
        status := if found.status == .ready then "ready" else job.status.asStr,
        confirmationRequired := true }
  | none =>
    insertJob (JobRow.new jobId .accountPurge subjectUserId none
      (.obj [("phase", .str "export"), ("exportId", exportId.toJson),
        ("requestedBy", actorUserId.toJson), ("reason", .str reason)]) now)
    let isNew ← query fun d => (d.accountExport exportId).isNone
    require isNew (.database .uniqueViolation)
    modify fun d => { d with exports := d.exports ++
      [{ id := exportId, userId := subjectUserId, jobId := jobId,
         objectKey := "users/" ++ subjectUserId.text ++ "/exports/" ++ exportId.text ++ ".tar.zst",
         contentHash := none, sizeBytes := none, status := .pending, createdAt := now,
         expiresAt := now + seconds (7 * 24 * 60 * 60), completedAt := none }] }
    auditPurge actorUserId subjectUserId "account.purge_export_requested"
      (.obj [("jobId", jobId.toJson), ("exportId", exportId.toJson), ("reason", .str reason)])
      (some requestId)
    return .ok
      { jobId := jobId, exportId := exportId, status := "queued", confirmationRequired := true }

/-- Confirms an export: the account and its projects move into the state `deleting`, and the second
phase is queued. -/
def confirmAccountPurge (now : Timestamp) (actorUserId subjectUserId exportId jobId : Uuid)
    (reason requestId : String) : PurgeTx (Except PersistenceError AccountPurgeResponse) := do
  purgeableUser actorUserId subjectUserId
  let found ← query fun d => do
    let found ← (d.accountExport exportId).filter fun e =>
      e.userId == subjectUserId && now < e.expiresAt
    let job ← d.job found.jobId
    return (found, job)
  let (found, job) ← orThrow .accountPurgeNotReady found
  require (found.status == .ready && job.status == .succeeded) .accountPurgeNotReady
  let hasActiveRestore ← query fun d => d.sync.restoreJobs.any fun r =>
    d.sync.ownsProject subjectUserId r.projectId && r.isActive
  require (!hasActiveRestore) .conflict
  let hasActiveProjectPurge ← query (·.hasActiveJob .projectPurge subjectUserId)
  require (!hasActiveProjectPurge) .conflict
  modify (·.updateUser subjectUserId fun u => { u with status := .deleting })
  modify fun d => { d with sync := d.sync.markDeleting now subjectUserId }
  modify (·.updateExports (·.id == exportId) fun e => { e with status := .purging })
  insertJob (JobRow.new jobId .accountPurge subjectUserId none
    (.obj [("phase", .str "purge"), ("exportId", exportId.toJson),
      ("requestedBy", actorUserId.toJson), ("reason", .str reason)]) now)
  auditPurge actorUserId subjectUserId "account.purge_requested"
    (.obj [("jobId", jobId.toJson), ("exportId", exportId.toJson), ("reason", .str reason)])
    (some requestId)
  return .ok
    { jobId := jobId, exportId := exportId, status := "queued", confirmationRequired := false }

/-- The phase of a claimed account purge. -/
def accountPurgePhase (now : Timestamp) (jobId leaseToken : Uuid) :
    PurgeTx (Except PersistenceError String) := do
  let job ← query (leasedPurge .accountPurge now jobId leaseToken)
  let job ← orThrow .notFound job
  let phase := payloadPhase job.payload
  if phase == "export" || phase == "purge" then return .ok phase
  else return .error .invalidPayload

/-- Extends the lease of an account purge. -/
def renewAccountPurgeLease (now : Timestamp) (jobId leaseToken : Uuid) :
    PurgeTx (Except PersistenceError Unit) := do
  let job ← query (leasedPurge .accountPurge now jobId leaseToken)
  require job.isSome .notFound
  modify (·.updateJob jobId fun j => { j with leaseExpiresAt := some (now + purgeLease) })
  return .ok ()

/-- Completes the export of an account whose archive is stored. -/
def completeAccountExport (now : Timestamp) (jobId leaseToken exportId : Uuid)
    (contentHash : String) (size : ℤ) : PurgeTx (Except PersistenceError Unit) := do
  let job ← query (leasedPurge .accountPurge now jobId leaseToken)
  let job ← orThrow .notFound job
  let requestedBy := (uuidMember job.payload "requestedBy").getD job.ownerUserId
  modify (·.updateExports
    (fun e => e.id == exportId && e.userId == job.ownerUserId && e.status == .pending)
    fun e => { e with status := .ready, contentHash := some contentHash, sizeBytes := some size,
                      completedAt := some now })
  modify (·.updateJob jobId (·.succeeded now))
  auditPurge requestedBy job.ownerUserId "account.purge_export_ready"
    (.obj [("jobId", jobId.toJson), ("exportId", exportId.toJson)]) (some "")
  return .ok ()

/-- The payload of an account purge whose rows are gone. -/
def detachedPayload (exportId : Uuid) (keys : List String) : Json :=
  .obj [("detached", .bool true), ("exportId", exportId.toJson),
    ("objectKeys", .arr (keys.map .str))]

/-- Removes the rows of an account and keeps the keys of its objects on the job. Once the rows are
gone, it returns the keys again. -/
def prepareAccountPurge (now : Timestamp) (jobId leaseToken : Uuid) :
    PurgeTx (Except PersistenceError (List String)) := do
  let job ← query (leasedPurge .accountPurge now jobId leaseToken)
  let job ← orThrow .notFound job
  if isDetached job.payload then
    let keys ← orThrow .invalidPayload (objectKeys job.payload)
    return .ok keys
  else
    let exportId ← orThrow .invalidPayload (uuidMember job.payload "exportId")
    let user ← query (·.user job.ownerUserId)
    let user ← orThrow .notFound user
    require (user.status == .deleting) .invalidAccountTransition
    let keys ← query fun d =>
      (d.sync.objectKeysOf (d.sync.ownsProject job.ownerUserId) ++
        ((d.accountExport exportId).toList.map (·.objectKey))).dedup.insertionSort (· ≤ ·)
    modify fun d => { d with sync :=
      { d.sync.deleteProjects (d.sync.ownsProject job.ownerUserId) with
        devices := d.sync.devices.filter (·.ownerUserId != job.ownerUserId) } }
    modify (·.updateJob jobId fun j => { j with payload := detachedPayload exportId keys })
    return .ok keys

/-- Marks an account deleted whose objects are gone. -/
def completeAccountPurge (now : Timestamp) (jobId leaseToken : Uuid) :
    PurgeTx (Except PersistenceError Unit) := do
  let job ← query (leasedPurge .accountPurge now jobId leaseToken)
  let job ← orThrow .notFound job
  let exportId ← orThrow .invalidPayload (uuidMember job.payload "exportId")
  let requestedBy := (uuidMember job.payload "requestedBy").getD job.ownerUserId
  modify (·.updateUser job.ownerUserId fun u =>
    if u.status == .deleting then { u with status := .deleted } else u)
  modify (·.updateExports (fun e => e.id == exportId && e.userId == job.ownerUserId)
    fun e => { e with status := .completed, completedAt := some now })
  modify (·.updateJob jobId (·.succeeded now))
  auditPurge requestedBy job.ownerUserId "account.purge_completed"
    (.obj [("jobId", jobId.toJson), ("exportId", exportId.toJson)]) (some "")
  return .ok ()

/-- Queues an account purge again after a failed attempt, or gives it up. -/
def failAccountPurge (now : Timestamp) (jobId leaseToken : Uuid) (errorCode : String) :
    PurgeTx (Except PersistenceError Unit) := do
  let job ← query (runningPurge .accountPurge jobId leaseToken)
  let job ← orThrow .notFound job
  let retried := job.retried now errorCode
  modify (·.updateJob jobId (·.retried now errorCode))
  if payloadPhase job.payload == "export" then
    modify (·.updateExports (fun e => e.jobId == jobId && e.status == .pending)
      fun e => { e with status := if retried.status == .failed then .failed else .pending })
    return .ok ()
  else return .ok ()

/-! ## The service -/

/-- A call to the persistence layer, with those that purge. -/
inductive PurgeCall where
  | sync (call : Call)
  | enqueueProjectPurge (userId projectId jobId : Uuid) (reason requestId : String)
  | claimProjectPurgeJob (skipLocked : List Uuid) (leaseToken : Uuid)
  | prepareProjectPurge (order : KeyOrder) (jobId leaseToken : Uuid)
  | completeProjectPurge (jobId leaseToken : Uuid)
  | failProjectPurge (jobId leaseToken : Uuid) (errorCode : String)
  | requestAccountPurgeExport (actorUserId subjectUserId jobId exportId : Uuid)
      (reason requestId : String)
  | confirmAccountPurge (actorUserId subjectUserId exportId jobId : Uuid)
      (reason requestId : String)
  | claimAccountPurgeJob (skipLocked : List Uuid) (leaseToken : Uuid)
  | accountPurgePhase (jobId leaseToken : Uuid)
  | renewAccountPurgeLease (jobId leaseToken : Uuid)
  | completeAccountExport (jobId leaseToken exportId : Uuid) (contentHash : String) (size : ℤ)
  | prepareAccountPurge (jobId leaseToken : Uuid)
  | completeAccountPurge (jobId leaseToken : Uuid)
  | failAccountPurge (jobId leaseToken : Uuid) (errorCode : String)
  | expireAccountPurgeExports (scan : Arrangement AccountExport) (limit : ℤ)

/-- What such a call returns. -/
inductive PurgeReply where
  | sync (reply : Reply)
  | done
  | job (row : JobRow)
  | claimed (row : Option JobRow)
  | keys (keys : List String)
  | phase (phase : String)
  | accountPurge (response : AccountPurgeResponse)

/-- A transaction whose value is returned as a reply. -/
def purging {α : Type} (reply : α → PurgeReply) (x : PurgeTx (Except PersistenceError α)) :
    PurgeTx (Except PersistenceError PurgeReply) :=
  x.bind fun r => .pure (r.map reply)

/-- The transaction of a call. -/
def PurgeCall.body (host : Host) (now : Timestamp) :
    PurgeCall → PurgeTx (Except PersistenceError PurgeReply)
  | .sync call => purging .sync (onSync (call.body host now))
  | .enqueueProjectPurge userId projectId jobId reason requestId =>
    purging .job (TaskTipsCloud.enqueueProjectPurge now userId projectId jobId reason requestId)
  | .claimProjectPurgeJob skipLocked leaseToken =>
    purging .claimed (TaskTipsCloud.claimProjectPurgeJob now skipLocked leaseToken)
  | .prepareProjectPurge order jobId leaseToken =>
    purging .keys (TaskTipsCloud.prepareProjectPurge now order jobId leaseToken)
  | .completeProjectPurge jobId leaseToken =>
    purging (fun _ => .done) (TaskTipsCloud.completeProjectPurge now jobId leaseToken)
  | .failProjectPurge jobId leaseToken errorCode =>
    purging (fun _ => .done) (TaskTipsCloud.failProjectPurge now jobId leaseToken errorCode)
  | .requestAccountPurgeExport actorUserId subjectUserId jobId exportId reason requestId =>
    purging .accountPurge (TaskTipsCloud.requestAccountPurgeExport now actorUserId subjectUserId
      jobId exportId reason requestId)
  | .confirmAccountPurge actorUserId subjectUserId exportId jobId reason requestId =>
    purging .accountPurge (TaskTipsCloud.confirmAccountPurge now actorUserId subjectUserId exportId
      jobId reason requestId)
  | .claimAccountPurgeJob skipLocked leaseToken =>
    purging .claimed (TaskTipsCloud.claimAccountPurgeJob now skipLocked leaseToken)
  | .accountPurgePhase jobId leaseToken =>
    purging .phase (TaskTipsCloud.accountPurgePhase now jobId leaseToken)
  | .renewAccountPurgeLease jobId leaseToken =>
    purging (fun _ => .done) (TaskTipsCloud.renewAccountPurgeLease now jobId leaseToken)
  | .completeAccountExport jobId leaseToken exportId contentHash size =>
    purging (fun _ => .done)
      (TaskTipsCloud.completeAccountExport now jobId leaseToken exportId contentHash size)
  | .prepareAccountPurge jobId leaseToken =>
    purging .keys (TaskTipsCloud.prepareAccountPurge now jobId leaseToken)
  | .completeAccountPurge jobId leaseToken =>
    purging (fun _ => .done) (TaskTipsCloud.completeAccountPurge now jobId leaseToken)
  | .failAccountPurge jobId leaseToken errorCode =>
    purging (fun _ => .done) (TaskTipsCloud.failAccountPurge now jobId leaseToken errorCode)
  | .expireAccountPurgeExports scan limit =>
    purging .keys (TaskTipsCloud.expireAccountPurgeExports now scan limit)

/-- A call with the time at which its transaction starts. -/
structure PurgeRequest where
  now : Timestamp
  call : PurgeCall

/-- The service: every call may be made at any time. -/
def purgeService (host : Host) :
    Service PurgeDb Lock PersistenceError PurgeReply PurgeRequest where
  body q := q.call.body host q.now
  time q := q.now
  Allowed _ := True

/-- A call that finished. -/
abbrev PurgeEvent := Event PurgeDb PersistenceError PurgeReply PurgeRequest

end TaskTipsCloud

import TaskTipsCloud.Service

/-!
# Footprints

The tables that a call may write to. Whatever reads other tables only is the same before and after
the call.
-/

namespace TaskTipsCloud

/-- The tables of the database. -/
inductive Table where
  | users | devices | projects | payloads | objectRevisions | objectHeads | changeLog
  | bootstrapManifests | bootstrapCompletions | idempotencyRecords | snapshots | restoreJobs
  | auditEvents
  deriving DecidableEq

/-- The database `d` with some tables of `d'`. -/
def Db.overlay (T : List Table) (d d' : Db) : Db where
  users := if .users ∈ T then d'.users else d.users
  devices := if .devices ∈ T then d'.devices else d.devices
  projects := if .projects ∈ T then d'.projects else d.projects
  payloads := if .payloads ∈ T then d'.payloads else d.payloads
  objectRevisions := if .objectRevisions ∈ T then d'.objectRevisions else d.objectRevisions
  objectHeads := if .objectHeads ∈ T then d'.objectHeads else d.objectHeads
  changeLog := if .changeLog ∈ T then d'.changeLog else d.changeLog
  bootstrapManifests :=
    if .bootstrapManifests ∈ T then d'.bootstrapManifests else d.bootstrapManifests
  bootstrapCompletions :=
    if .bootstrapCompletions ∈ T then d'.bootstrapCompletions else d.bootstrapCompletions
  idempotencyRecords :=
    if .idempotencyRecords ∈ T then d'.idempotencyRecords else d.idempotencyRecords
  snapshots := if .snapshots ∈ T then d'.snapshots else d.snapshots
  restoreJobs := if .restoreJobs ∈ T then d'.restoreJobs else d.restoreJobs
  auditEvents := if .auditEvents ∈ T then d'.auditEvents else d.auditEvents

/-- Only the tables `T` differ. -/
def Db.Touches (T : List Table) (d d' : Db) : Prop := d' = d.overlay T d'

namespace Db.Touches

variable {T : List Table} {d d' d'' : Db}

/-- Nothing touches nothing. -/
theorem rfl : d.Touches T d := by
  unfold Touches overlay
  simp only [ite_self]

/-- Two changes of the same tables. -/
theorem trans (h : d.Touches T d') (h' : d'.Touches T d'') : d.Touches T d'' := by
  unfold Touches at *
  rw [h', h]
  unfold overlay
  simp only [Db.mk.injEq]
  refine ⟨?_, ?_, ?_, ?_, ?_, ?_, ?_, ?_, ?_, ?_, ?_, ?_, ?_⟩ <;> split <;> rfl

/-- A table that is not among those touched stays: the users. -/
theorem users (h : d.Touches T d') (hT : .users ∉ T) : d'.users = d.users :=
  (congrArg Db.users h).trans (if_neg hT)

/-- The devices stay. -/
theorem devices (h : d.Touches T d') (hT : .devices ∉ T) : d'.devices = d.devices :=
  (congrArg Db.devices h).trans (if_neg hT)

/-- The projects stay. -/
theorem projects (h : d.Touches T d') (hT : .projects ∉ T) : d'.projects = d.projects :=
  (congrArg Db.projects h).trans (if_neg hT)

/-- The payloads stay. -/
theorem payloads (h : d.Touches T d') (hT : .payloads ∉ T) : d'.payloads = d.payloads :=
  (congrArg Db.payloads h).trans (if_neg hT)

/-- The snapshots stay. -/
theorem snapshots (h : d.Touches T d') (hT : .snapshots ∉ T) : d'.snapshots = d.snapshots :=
  (congrArg Db.snapshots h).trans (if_neg hT)

/-- The jobs of restores stay. -/
theorem restoreJobs (h : d.Touches T d') (hT : .restoreJobs ∉ T) :
    d'.restoreJobs = d.restoreJobs :=
  (congrArg Db.restoreJobs h).trans (if_neg hT)

/-- An audit event is written to its table. -/
theorem writeAuditEvents {events : List AuditEvent} (hT : .auditEvents ∈ T) :
    d.Touches T { d with auditEvents := events } := by
  unfold Touches overlay
  simp only [ite_self, if_pos hT]

/-- A snapshot is written to its table. -/
theorem writeSnapshots {rows : List SnapshotRow} (hT : .snapshots ∈ T) :
    d.Touches T { d with snapshots := rows } := by
  unfold Touches overlay
  simp only [ite_self, if_pos hT]

/-- A change of a restore job is written to its table. -/
theorem updateRestoreJob {j : Uuid} {f : RestoreJob → RestoreJob} (hT : .restoreJobs ∈ T) :
    d.Touches T (d.updateRestoreJob j f) := by
  unfold Touches overlay
  simp only [Db.updateRestoreJob, ite_self, if_pos hT]

end Db.Touches

/-- The tables that a call may write to. -/
def Call.tables : Call → List Table
  | .createProject .. | .disableProject .. => [.projects]
  | .registerDevice .. | .pullPage .. => [.devices]
  | .revokeDevice .. => [.devices, .auditEvents]
  | .registerPayload .. | .collectPayload .. => [.payloads]
  | .pushWithOutcome .. =>
    [.devices, .projects, .objectRevisions, .objectHeads, .changeLog, .idempotencyRecords,
      .auditEvents]
  | .prepareBootstrapManifest .. => []
  | .recordBootstrapManifest .. | .expireBootstrapManifests .. => [.bootstrapManifests]
  | .bootstrapManifestPage .. => [.bootstrapCompletions]
  | .purgeExpiredIdempotencyRecords .. => [.idempotencyRecords]
  | .snapshotManifest .. | .markSnapshotReady .. | .expirePendingSnapshots ..
  | .markSnapshotReadyForJob .. => [.snapshots]
  | .recordSnapshot .. => [.snapshots, .auditEvents]
  | .enqueueRestore .. | .cancelRestore .. => [.restoreJobs, .auditEvents]
  | .claimRestoreJob .. => [.projects, .restoreJobs]
  | .renewRestoreLease .. | .failRestoreJobWithLease .. | .retryRestoreJobWithLease .. =>
    [.restoreJobs]
  | .createPreRestoreSnapshot .. => [.snapshots, .restoreJobs]
  | .executeRestoreWithLease .. =>
    [.projects, .objectRevisions, .objectHeads, .changeLog, .restoreJobs, .auditEvents]
  | .cancelRestoreWithLease .. => [.projects, .restoreJobs, .auditEvents]
  | .reopenFailedRestore .. => [.projects, .auditEvents]

end TaskTipsCloud

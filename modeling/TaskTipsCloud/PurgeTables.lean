import TaskTipsCloud.Grants
import TaskTipsCloud.Invitations
import TaskTipsCloud.Library.Referential
import TaskTipsCloud.Nonces

/-!
# The statements of the purges

`prepare_project_purge` and `prepare_account_purge` of `crates/persistence/src/lib.rs` delete rows
table by table, under the grants and the foreign keys of `migrations/0001_init.sql`. The models of
the two functions delete all rows of some projects at once. Here are the statements: they are never
refused, they do what the models say, and no row of the project or the account is left.
-/

namespace TaskTipsCloud

/-- The tables with foreign keys, and those that a purge empties. -/
inductive SchemaTable where
  | users
  | devices
  | projects
  | payloads
  | objectRevisions
  | objectHeads
  | changeLog
  | snapshots
  | restoreJobs
  | bootstrapManifests
  | bootstrapCompletions
  | idempotencyRecords
  | syncAttempts
  | auditEvents
  | refreshTokens
  | invitations
  | adminReauthNonces
  | jobs
  | accountPurgeExports
  deriving DecidableEq, Repr

/-- All of them. -/
def SchemaTable.all : List SchemaTable :=
  [.users, .devices, .projects, .payloads, .objectRevisions, .objectHeads, .changeLog, .snapshots,
    .restoreJobs, .bootstrapManifests, .bootstrapCompletions, .idempotencyRecords, .syncAttempts,
    .auditEvents, .refreshTokens, .invitations, .adminReauthNonces, .jobs, .accountPurgeExports]

/-- The tables are finitely many. -/
instance : Fintype SchemaTable := .ofList SchemaTable.all fun t => (by cases t <;> decide)

/-- A row of `sync_attempts`, as far as it refers to other rows. -/
structure SyncAttempt where
  ownerUserId : Uuid
  projectId : Uuid
  deviceId : Option Uuid

/-- The rows of a table. -/
@[reducible]
def SchemaTable.Row : SchemaTable → Type
  | .users => AccountRow
  | .devices => DeviceRow
  | .projects => ProjectRow
  | .payloads => PayloadRow
  | .objectRevisions => ObjectRevision
  | .objectHeads => ObjectHead
  | .changeLog => ChangeLogEntry
  | .snapshots => SnapshotRow
  | .restoreJobs => RestoreJob
  | .bootstrapManifests => BootstrapManifestRow
  | .bootstrapCompletions => BootstrapCompletion
  | .idempotencyRecords => IdempotencyRecord
  | .syncAttempts => SyncAttempt
  | .auditEvents => AuditEvent
  | .refreshTokens => RefreshToken
  | .invitations => InvitationRow
  | .adminReauthNonces => ReauthNonce
  | .jobs => JobRow
  | .accountPurgeExports => AccountExport

/-- The rows of all tables. -/
abbrev SchemaRows := Tables SchemaTable.Row

section Keys

variable {c : SchemaTable}

/-- `REFERENCES`, without an action. -/
def refersTo (parent : SchemaTable) {Key : Type} [DecidableEq Key]
    (references : SchemaTable.Row c → Option Key) (key : SchemaTable.Row parent → Key) :
    ForeignKey SchemaTable.Row c where
  parent := parent
  references := references
  key := key
  cleared := none

/-- `REFERENCES public.users(id)`. -/
def refersToUser (references : SchemaTable.Row c → Option Uuid) : ForeignKey SchemaTable.Row c :=
  refersTo .users references fun u => u.id

/-- `REFERENCES public.devices(id, owner_user_id)`. -/
def refersToDevice (references : SchemaTable.Row c → Option (Uuid × Uuid)) :
    ForeignKey SchemaTable.Row c :=
  refersTo .devices references fun d => (d.id, d.ownerUserId)

/-- `REFERENCES public.projects(id, owner_user_id)`. -/
def refersToProject (references : SchemaTable.Row c → Uuid × Uuid) : ForeignKey SchemaTable.Row c :=
  refersTo .projects (fun x => some (references x)) fun p => (p.id, p.ownerUserId)

/-- `REFERENCES public.object_revisions(id, project_id)`. -/
def refersToRevision (references : SchemaTable.Row c → RevisionId × Uuid) :
    ForeignKey SchemaTable.Row c :=
  refersTo .objectRevisions (fun x => some (references x)) fun r => (r.id, r.projectId)

/-- `REFERENCES public.payloads(id, project_id)`. -/
def refersToPayload (references : SchemaTable.Row c → Option (Uuid × Uuid)) :
    ForeignKey SchemaTable.Row c :=
  refersTo .payloads references fun p => (p.id, p.projectId)

/-- `REFERENCES public.snapshots(id, project_id)`. -/
def refersToSnapshot (references : SchemaTable.Row c → Option (Uuid × Uuid)) :
    ForeignKey SchemaTable.Row c :=
  refersTo .snapshots references fun s => (s.id, s.projectId)

end Keys

/-- The foreign keys of the migrations. -/
def foreignKeys : ForeignKeys SchemaTable.Row
  | .accountPurgeExports =>
    [refersTo .jobs (fun e => some e.jobId) fun j => j.id, refersToUser fun e => some e.userId]
  | .auditEvents =>
    [refersToUser fun e => e.actorUserId,
      -- `ON DELETE SET NULL`
      ⟨.projects, fun e => e.projectId, fun p => p.id, some fun e => { e with projectId := none }⟩,
      refersToUser fun e => e.subjectUserId]
  | .adminReauthNonces =>
    [refersToUser fun n => some n.userId, refersToDevice fun n => some (n.deviceId, n.userId)]
  | .bootstrapCompletions =>
    [refersToDevice fun b => some (b.deviceId, b.ownerUserId),
      refersToProject fun b => (b.projectId, b.ownerUserId)]
  | .bootstrapManifests => [refersToProject fun m => (m.projectId, m.ownerUserId)]
  | .changeLog =>
    [refersToProject fun e => (e.projectId, e.ownerUserId),
      refersToRevision fun e => (e.revisionId, e.projectId)]
  | .devices => [refersToUser fun d => some d.ownerUserId]
  | .idempotencyRecords =>
    [refersToDevice fun r => some (r.deviceId, r.ownerUserId),
      refersToUser fun r => some r.ownerUserId,
      refersToProject fun r => (r.projectId, r.ownerUserId)]
  | .objectHeads =>
    [refersToProject fun h => (h.projectId, h.ownerUserId),
      refersToRevision fun h => (h.revisionId, h.projectId)]
  | .objectRevisions =>
    [refersToDevice fun r => some (r.deviceId, r.ownerUserId),
      refersToPayload fun r => r.payloadId.map fun i => (i, r.projectId),
      refersToProject fun r => (r.projectId, r.ownerUserId)]
  | .payloads => [refersToProject fun p => (p.projectId, p.ownerUserId)]
  | .projects => [refersToUser fun p => some p.ownerUserId]
  | .refreshTokens =>
    [refersToDevice fun t => some (t.deviceId, t.userId), refersToUser fun t => some t.userId]
  | .restoreJobs =>
    [refersToSnapshot fun j => j.preRestoreSnapshotId.map fun i => (i, j.projectId),
      refersToProject fun j => (j.projectId, j.ownerUserId),
      refersToUser fun j => some j.requestedBy,
      refersToSnapshot fun j => j.snapshotId.map fun i => (i, j.projectId)]
  | .snapshots =>
    [refersToUser fun s => some s.createdBy,
      refersToProject fun s => (s.projectId, s.ownerUserId)]
  | .syncAttempts =>
    [refersToDevice fun a => a.deviceId.map fun i => (i, a.ownerUserId),
      refersToUser fun a => some a.ownerUserId,
      refersToProject fun a => (a.projectId, a.ownerUserId)]
  | .users | .invitations | .jobs => []

/-- What the worker is granted on the tables that the purges empty. The row policies are left out:
on each of these tables one of them is for the worker, whatever the row. -/
def purgeGrants : List (Grant ServerRole SchemaTable) :=
  [⟨[.select, .delete], .devices, .worker⟩,
    ⟨[.select, .insert, .delete], .changeLog, .worker⟩,
    ⟨[.select, .insert, .delete], .objectRevisions, .worker⟩,
    ⟨[.select, .delete, .update], .projects, .worker⟩,
    ⟨[.select, .delete], .payloads, .worker⟩,
    ⟨[.select, .insert, .delete, .update], .restoreJobs, .worker⟩,
    ⟨[.select, .insert, .delete, .update], .snapshots, .worker⟩,
    ⟨[.select, .delete], .bootstrapCompletions, .worker⟩,
    ⟨[.select, .delete], .bootstrapManifests, .worker⟩,
    ⟨[.select, .delete], .idempotencyRecords, .worker⟩,
    ⟨[.select, .delete], .invitations, .worker⟩,
    ⟨[.select, .insert, .delete, .update], .objectHeads, .worker⟩,
    ⟨[.select, .delete], .refreshTokens, .worker⟩,
    ⟨[.select, .delete], .syncAttempts, .worker⟩]

/-- The tables from which `prepare_project_purge` deletes, in order. -/
def projectStatements : List SchemaTable :=
  [.bootstrapCompletions, .idempotencyRecords, .syncAttempts, .restoreJobs, .snapshots,
    .bootstrapManifests, .changeLog, .objectHeads, .objectRevisions, .payloads, .projects]

/-- The tables from which `prepare_account_purge` deletes, in order. -/
def accountStatements : List SchemaTable :=
  projectStatements ++ [.refreshTokens, .devices, .invitations]

/-- `WHERE project_id = $1`, and `WHERE id = $1` for the project. No statement is about `jobs`, so
the jobs of a project stay, with its identifier. -/
def ofProject (projectId : Uuid) : ∀ t, SchemaTable.Row t → Bool
  | .bootstrapCompletions, b => b.projectId == projectId
  | .idempotencyRecords, r => r.projectId == projectId
  | .syncAttempts, a => a.projectId == projectId
  | .restoreJobs, j => j.projectId == projectId
  | .snapshots, s => s.projectId == projectId
  | .bootstrapManifests, m => m.projectId == projectId
  | .changeLog, e => e.projectId == projectId
  | .objectHeads, h => h.projectId == projectId
  | .objectRevisions, r => r.projectId == projectId
  | .payloads, p => p.projectId == projectId
  | .projects, p => p.id == projectId
  | _, _ => false

/-- `WHERE owner_user_id = $1`, `WHERE user_id = $1` for the refresh tokens, and
`WHERE email_normalized = $1` for the invitations. -/
def ofAccount (userId : Uuid) (emailNormalized : String) : ∀ t, SchemaTable.Row t → Bool
  | .bootstrapCompletions, b => b.ownerUserId == userId
  | .idempotencyRecords, r => r.ownerUserId == userId
  | .syncAttempts, a => a.ownerUserId == userId
  | .restoreJobs, j => j.ownerUserId == userId
  | .snapshots, s => s.ownerUserId == userId
  | .bootstrapManifests, m => m.ownerUserId == userId
  | .changeLog, e => e.ownerUserId == userId
  | .objectHeads, h => h.ownerUserId == userId
  | .objectRevisions, r => r.ownerUserId == userId
  | .payloads, p => p.ownerUserId == userId
  | .projects, p => p.ownerUserId == userId
  | .refreshTokens, t => t.userId == userId
  | .devices, d => d.ownerUserId == userId
  | .invitations, i => i.emailNormalized == emailNormalized
  | .adminReauthNonces, n => n.userId == userId
  | _, _ => false

/-- Deletes from some tables as the worker. What it may read and delete is decided by the grants,
not by the row policies. -/
def purgeTables (q : ∀ t, SchemaTable.Row t → Bool) (ts : List SchemaTable) (db : SchemaRows) :
    Option SchemaRows :=
  if mayRun purgeGrants .worker (ts.flatMap fun t => [(t, .select), (t, .delete)]) then
    Tables.deleteAll foreignKeys q ts db
  else none

/-- What the model of the purges sees of the tables. -/
def purgeDb (db : SchemaRows) : PurgeDb where
  sync :=
    { users := (db .users).map (·.toUserRow)
      devices := db .devices
      projects := db .projects
      payloads := db .payloads
      objectRevisions := db .objectRevisions
      objectHeads := db .objectHeads
      changeLog := db .changeLog
      bootstrapManifests := db .bootstrapManifests
      bootstrapCompletions := db .bootstrapCompletions
      idempotencyRecords := db .idempotencyRecords
      snapshots := db .snapshots
      restoreJobs := db .restoreJobs
      auditEvents := db .auditEvents }
  jobs := db .jobs
  exports := db .accountPurgeExports

/-- What PostgreSQL keeps of the tables: the foreign keys, and the primary key of the projects. -/
structure SchemaSound (db : SchemaRows) : Prop where
  consistent : db.Consistent foreignKeys
  projectIds : ((db .projects).map (·.id)).Nodup

/-! ## The foreign keys -/

/-- Only the audit events have a column that is cleared. -/
theorem cleared_isNone : ∀ c, c ≠ .auditEvents → ∀ k ∈ foreignKeys c, k.cleared.isNone := by decide

/-- A foreign key of another table is firm. -/
theorem isFirm_of_ne {c : SchemaTable} (h : c ≠ .auditEvents) : foreignKeys.IsFirm c :=
  fun k hk => Option.isNone_iff_eq_none.mp (cleared_isNone c h k hk)

/-- The column is cleared by its own keys only. -/
theorem clearing_foreignKeys : foreignKeys.Clearing where
  clears c k hk f hf x := by
    by_cases h : c = .auditEvents
    · subst h
      simp only [foreignKeys, List.mem_cons, List.not_mem_nil, or_false] at hk
      rcases hk with rfl | rfl | rfl
      · cases hf
      · cases hf
        rfl
      · cases hf
    · rw [isFirm_of_ne h k hk] at hf
      cases hf
  others c k hk f hf k' hk' x := by
    by_cases h : c = .auditEvents
    · subst h
      simp only [foreignKeys, List.mem_cons, List.not_mem_nil, or_false] at hk hk'
      rcases hk with rfl | rfl | rfl
      · cases hf
      · cases hf
        rcases hk' with rfl | rfl | rfl
        · exact .inr rfl
        · exact .inl rfl
        · exact .inr rfl
      · cases hf
    · rw [isFirm_of_ne h k hk] at hf
      cases hf
  leaves := by decide

/-- The projects are deleted after the rows that refer to them, and so are the other tables. -/
theorem ordered_projectStatements : Ordered foreignKeys [] projectStatements := by decide

/-- The tables of an account purge are deleted after the rows that refer to them. -/
theorem ordered_accountStatements :
    Ordered foreignKeys [.adminReauthNonces] accountStatements := by decide

/-- The worker may run all statements. -/
theorem mayRun_statements : mayRun purgeGrants .worker
    (accountStatements.flatMap fun t => [(t, .select), (t, .delete)]) = true := by decide

end TaskTipsCloud

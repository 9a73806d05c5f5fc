import TaskTipsCloud.Domain
import TaskTipsCloud.Library.Access

/-!
# Roles, grants and row security

The roles of `migrations/0001_init.sql` and what the migrations grant them on the tables that the
worker cleans up. The server connects as one user and takes a role in each transaction; no role
bypasses row security, and the tables force it on their owner too.
-/

namespace TaskTipsCloud

/-- A role of the server. -/
inductive ServerRole where
  | auth
  | app
  | admin
  | worker
  deriving DecidableEq, Repr

/-- A table that the worker cleans up. -/
inductive DbTable where
  | payloads
  | objectRevisions
  | auditEvents
  | accountPurgeExports
  | bootstrapManifests
  deriving DecidableEq, Repr

/-- What a policy can see of a transaction: its role and the settings `app.role` and
`app.user_id`. -/
structure DbSession where
  currentUser : ServerRole
  appRole : Option String
  appUserId : Option Uuid

/-- A transaction of `begin_worker`, which sets the role only. -/
def workerSession : DbSession := ⟨.worker, none, none⟩

/-- What the migrations grant on these tables. -/
def grants : List (Grant ServerRole DbTable) :=
  [⟨[.select, .insert, .update], .accountPurgeExports, .worker⟩,
    ⟨[.insert, .update], .accountPurgeExports, .admin⟩,
    ⟨[.select, .insert, .delete], .objectRevisions, .worker⟩,
    ⟨[.select, .insert], .objectRevisions, .app⟩,
    ⟨[.select, .delete], .payloads, .worker⟩,
    ⟨[.select, .insert], .payloads, .app⟩,
    ⟨[.select, .insert, .update], .auditEvents, .auth⟩,
    ⟨[.select, .insert], .auditEvents, .admin⟩,
    ⟨[.insert], .auditEvents, .app⟩,
    ⟨[.insert, .update], .auditEvents, .worker⟩,
    ⟨[.select, .insert], .bootstrapManifests, .app⟩,
    ⟨[.select, .delete], .bootstrapManifests, .worker⟩,
    -- `0003_auth_failure_audit.sql`
    ⟨[.delete], .auditEvents, .worker⟩]

/-- A policy for all commands that admits every row for a role. -/
def rolePolicy {α : Type} (role : ServerRole) : RowPolicy DbSession α :=
  ⟨none, fun session _ => session.currentUser == role⟩

/-- A policy for all commands that admits the rows of the user. -/
def ownerPolicy {α : Type} (owner : α → Uuid) : RowPolicy DbSession α :=
  ⟨none, fun session row => session.appUserId == some (owner row)⟩

end TaskTipsCloud

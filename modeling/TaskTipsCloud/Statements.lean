import TaskTipsCloud.Schema

/-!
# Statements

The statements that the operations share: rows that are read for update, inserts with the
constraints of the schema, the state of a project, and the four statements that append a revision
to a project, which a push and a restore both run.
-/

namespace TaskTipsCloud

open Txn

/-! ## Reading for update and inserting -/

/-- `SELECT ... FOR UPDATE` of one row: nothing is locked when no row matches, and a row that
matches is read again once it is locked. -/
def selectForUpdate {α : Type} (l : Lock) (row : Db → Option α) : Tx (Option α) := do
  match ← query row with
  | none => return none
  | some _ =>
    acquire l
    query row

/-- An insert that the constraints may refuse. -/
def insertRow (refused : Db → Option DatabaseError) (write : Db → Db) : Tx Unit := do
  match ← query refused with
  | some e => .throw (.database e)
  | none => modify write

/-- The first of some constraints that is violated. -/
def firstViolation (constraints : List (Bool × DatabaseError)) : Option DatabaseError :=
  (constraints.find? (!·.1)).map (·.2)

/-- A unique violation of the body becomes a conflict. -/
def mapConflict {α : Type} (x : Tx α) : Tx α := do
  match ← x.attempt with
  | .ok a => return a
  | .error e => .throw (mapSqlxConflict e)

/-- A selection for update answers the row and changes nothing. -/
@[simp] theorem run_selectForUpdate {α : Type} (l : Lock) (row : Db → Option α) (d : Db) :
    (selectForUpdate l row).run d = (.ok (row d), d) := by
  simp only [selectForUpdate, bind_eq, query_bind, run_read]
  cases h : row d <;> simp [h]

/-- A constraint that is listed and not violated. -/
theorem constraint_of_firstViolation {constraints : List (Bool × DatabaseError)}
    (h : firstViolation constraints = none) {c : Bool} {e : DatabaseError}
    (hc : (c, e) ∈ constraints) : c = true := by
  unfold firstViolation at h
  rw [Option.map_eq_none_iff, List.find?_eq_none] at h
  simpa using h _ hc

/-- An insert that no constraint refuses. -/
theorem run_insertRow_ok_iff {refused : Db → Option DatabaseError} {write : Db → Db} {d d' : Db} :
    (insertRow refused write).run d = (.ok (), d') ↔ refused d = none ∧ d' = write d := by
  simp only [insertRow, bind_eq, query_bind, run_read]
  cases refused d <;> simp [eq_comm]

/-- A statement whose conflicts have another name succeeds as before. -/
theorem run_mapConflict_ok_iff {α : Type} {x : Tx α} {a : α} {d d' : Db} :
    (mapConflict x).run d = (.ok a, d') ↔ x.run d = (.ok a, d') := by
  simp only [mapConflict, bind_eq, run_bind, run_attempt]
  rcases x.run d with ⟨e | b, d₁⟩ <;> simp

/-- Appends an audit event. -/
def insertAudit (event : AuditEvent) : Tx Unit :=
  insertRow
    (fun d => firstViolation
      [(event.actorUserId.all fun u => d.users.any (·.id == u), .foreignKeyViolation),
        (event.subjectUserId.all fun u => d.users.any (·.id == u), .foreignKeyViolation),
        (event.projectId.all fun p => d.projects.any (·.id == p), .foreignKeyViolation)])
    fun d => { d with auditEvents := d.auditEvents ++ [event] }

namespace Db

/-- Whether a project belongs to a user, as composite foreign keys ask. -/
def hasProject (d : Db) (projectId ownerUserId : Uuid) : Bool :=
  (d.project projectId).any (·.ownerUserId == ownerUserId)

/-- Whether a device belongs to a user, as composite foreign keys ask. -/
def hasDevice (d : Db) (deviceId ownerUserId : Uuid) : Bool :=
  (d.devices.find? (·.id == deviceId)).any (·.ownerUserId == ownerUserId)

/-- The payload of a project with a content hash, if a role sees it. -/
def payload (d : Db) (role : DbRole) (projectId : Uuid) (contentHash : String) :
    Option PayloadRow :=
  (d.payloads.find? fun p => p.projectId == projectId && p.contentHash == contentHash).filter
    (role.sees ·.ownerUserId)

/-- Applies `f` to the project with an identifier. -/
def updateProject (d : Db) (projectId : Uuid) (f : ProjectRow → ProjectRow) : Db :=
  { d with projects := updateWhere (·.id == projectId) f d.projects }

/-- Applies `f` to the device with an identifier, if a role sees it. -/
def updateDevice (d : Db) (role : DbRole) (deviceId : Uuid) (f : DeviceRow → DeviceRow) : Db :=
  { d with devices :=
      updateWhere (fun v => v.id == deviceId && role.sees v.ownerUserId) f d.devices }

end Db

/-! ## Projects -/

/-- The project with an identifier, if a role sees it. -/
def visibleProject (role : DbRole) (projectId : Uuid) (d : Db) : Option ProjectRow :=
  ((d.data projectId).visible role).project

/-- The generation and the sequence of an active project. -/
def projectState (role : DbRole) (projectId : Uuid) (forUpdate : Bool) : Tx (ℤ × ℤ) := do
  let row ← if forUpdate then
      selectForUpdate (.project projectId) (visibleProject role projectId)
    else query (visibleProject role projectId)
  let row ← orThrow .notFound row
  require (row.status == .active) .projectMaintenance
  return (row.generation, row.changeSeq)

/-- The state of an active project. -/
def requireActiveProject (role : DbRole) (projectId : Uuid) : Tx (ℤ × ℤ) :=
  projectState role projectId false

/-- The state of an active project whose row stays locked. -/
def requireActiveProjectForUpdate (role : DbRole) (projectId : Uuid) : Tx (ℤ × ℤ) :=
  projectState role projectId true

/-- A project that is not disabled or being deleted. -/
def ensureProjectVisible (role : DbRole) (projectId : Uuid) : Tx Unit := do
  let exists_ ← query fun d => (visibleProject role projectId d).any fun p =>
    p.status != .disabled && p.status != .deleting
  require exists_ .notFound

/-! ## Appending a revision -/

/-- `UPDATE projects SET change_seq = change_seq + 1 ... RETURNING change_seq`. -/
def nextChangeSequence (role : DbRole) (now : Timestamp) (projectId : Uuid) : Tx ℤ := do
  let row ← query (visibleProject role projectId)
  let row ← orThrow (.database .rowNotFound) row
  modify (·.updateProject projectId fun p =>
    { p with changeSeq := p.changeSeq + 1, updatedAt := now })
  return row.changeSeq + 1

/-- The constraints on a row of `object_revisions`. -/
def revisionRefused (r : ObjectRevision) (d : Db) : Option DatabaseError :=
  firstViolation
    [(r.baseRevision.all (0 < ·), .checkViolation),
      ((r.isTombstone && r.payloadId.isNone && r.contentHash.isNone && r.schemaVersion.isNone) ||
        (!r.isTombstone && r.payloadId.isSome && r.contentHash.isSome && r.schemaVersion.isSome),
        .checkViolation),
      (0 < r.revision, .checkViolation),
      (r.schemaVersion.all (0 < ·), .checkViolation),
      ((d.revisionsOf r.projectId).all (·.id != r.id), .uniqueViolation),
      (d.hasDevice r.deviceId r.ownerUserId, .foreignKeyViolation),
      (r.payloadId.all fun p => d.payloads.any fun x => x.id == p && x.projectId == r.projectId,
        .foreignKeyViolation),
      (d.hasProject r.projectId r.ownerUserId, .foreignKeyViolation)]

/-- A foreign key keeps the row that it refers to from being deleted. -/
def keepPayloadRow : Option Uuid → Tx Unit
  | some payloadId => acquire (.payloadRow payloadId)
  | none => return

/-- `INSERT INTO object_revisions`. -/
def insertRevision (r : ObjectRevision) : Tx RevisionId := do
  keepPayloadRow r.payloadId
  insertRow (revisionRefused r) fun d => { d with objectRevisions := d.objectRevisions ++ [r] }
  return r.id

/-- Whether two heads are of the same object of the same project. -/
def ObjectHead.sameObject (h x : ObjectHead) : Bool :=
  x.projectId == h.projectId && x.kind == h.kind && x.objectId == h.objectId

/-- The heads with `h` in the place of the head of its object. -/
def putHead (h : ObjectHead) (heads : List ObjectHead) : List ObjectHead :=
  upsert h.sameObject h (fun x => { x with revision := h.revision, revisionId := h.revisionId })
    heads

/-- `INSERT INTO object_heads ... ON CONFLICT (project_id, kind, object_id) DO UPDATE`. -/
def upsertHead (h : ObjectHead) : Tx Unit :=
  modify fun d => { d with objectHeads := putHead h d.objectHeads }

/-- `INSERT INTO change_log`. -/
def insertLogEntry (c : ChangeLogEntry) : Tx Unit :=
  insertRow
    (fun d => firstViolation
      [(0 < c.sequence, .checkViolation),
        ((d.logOf c.projectId).all (·.sequence != c.sequence), .uniqueViolation),
        ((d.logOf c.projectId).all (·.revisionId != c.revisionId), .uniqueViolation)])
    fun d => { d with changeLog := d.changeLog ++ [c] }

/-- Appends a revision to its project and returns its sequence: the next sequence of the project is
taken, and the revision, the head of its object and the entry of the change log are written. -/
def appendRevision (role : DbRole) (now : Timestamp) (r : ObjectRevision) : Tx ℤ := do
  let sequence ← nextChangeSequence role now r.projectId
  let revisionId ← insertRevision r
  upsertHead
    { projectId := r.projectId, ownerUserId := r.ownerUserId, kind := r.kind,
      objectId := r.objectId, revision := r.revision, revisionId := revisionId }
  insertLogEntry
    { projectId := r.projectId, ownerUserId := r.ownerUserId, sequence := sequence,
      revisionId := revisionId }
  return sequence

end TaskTipsCloud

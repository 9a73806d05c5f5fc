import TaskTipsCloud.Grants
import TaskTipsCloud.Library.Programs
import TaskTipsCloud.Uploads

/-!
# Locks of payloads

`PayloadLock` of `crates/persistence/src/lib.rs`, and `put_payload` of `crates/api/src/routes.rs`
from the lock on. A lock is a transaction on a connection of its own, which is begun and ended by
statements. The connection goes back to the pool when the lock goes out of scope, whatever state it
is in.
-/

namespace TaskTipsCloud

open Program

/-! ## Operations -/

/-- A statement on the connection of a lock. -/
inductive LockStatement where
  | begin
  | advisoryLock (projectId : Uuid) (contentHash : String)
  | setRole (role : ServerRole)
  | setUser (userId : Uuid)
  | setAppRole (role : String)
  | projectStatus (projectId : Uuid)
  | insertPayload (projectId userId : Uuid) (payload : StoredPayload)
  | unreferencedPayload (projectId : Uuid) (contentHash : String) (olderThan : Timestamp)
  | payloadExists (projectId : Uuid) (contentHash : String)
  | deletePayload (projectId : Uuid) (contentHash : String)
  | commit
  | rollback

/-- What a statement returns. -/
def LockStatement.Reply : LockStatement → Type
  | .projectStatus _ => Option ProjectStatus
  | .unreferencedPayload .. => Option String
  | .payloadExists .. => Bool
  | _ => Unit

/-- An object as a page of a listing shows it. -/
structure ListedObject where
  key : Option String
  /-- When the object was written, in seconds. -/
  lastModified : Option ℤ
  deriving DecidableEq, Repr

/-- A page of a listing. -/
structure ObjectPage where
  contents : List ListedObject
  nextToken : Option String
  deriving DecidableEq, Repr

/-- What the API and the worker call: the pool, the object store, and transactions of the worker. -/
inductive StorageOp where
  /-- Takes a connection from the pool. -/
  | acquire
  /-- Puts the connection back. -/
  | release
  | statement (s : LockStatement)
  | putPayloadFile (userId projectId : Uuid) (contentHash mediaType : String) (bytes : List UInt8)
  | deleteKey (key : String)
  | listObjects (continuationToken : Option String)
  | expirePendingSnapshots (olderThan : Timestamp)
  | expireBootstrapManifests (limit : ℤ)
  | expireAccountPurgeExports (limit : ℤ)
  | purgeExpiredIdempotencyRecords (limit : ℤ)
  | unreferencedPayloadKeys (olderThan : Timestamp)
  | referencedPayloadKeys

/-- What an operation returns. -/
def StorageOp.Reply : StorageOp → Type
  | .statement s => s.Reply
  | .putPayloadFile .. => PayloadInfo
  | .listObjects _ => ObjectPage
  | .expirePendingSnapshots _ | .expireBootstrapManifests _ | .expireAccountPurgeExports _
  | .referencedPayloadKeys => List String
  | .purgeExpiredIdempotencyRecords _ => ℕ
  | .unreferencedPayloadKeys _ => List (Uuid × String)
  | .acquire | .release | .deleteKey _ => Unit

/-- Why an operation or a program fails. -/
inductive StorageError where
  /-- The server refuses a statement. -/
  | persistence (error : PersistenceError)
  /-- The connection to the server is gone. -/
  | disconnected
  | objectStore (error : ObjectStoreError)
  | internal

/-- A program on the storage. -/
abbrev StorageProgram := Program StorageOp StorageOp.Reply StorageError

/-- A call of such a program. -/
abbrev StorageCall := Called StorageOp StorageOp.Reply StorageError

/-- A statement on the connection of the lock. -/
def statement (s : LockStatement) : StorageProgram s.Reply := perform (StorageOp.statement s)

/-- `put_payload_file`. -/
def ObjectStore.putPayloadFile (userId projectId : Uuid) (contentHash mediaType : String)
    (bytes : List UInt8) : StorageProgram PayloadInfo :=
  perform (StorageOp.putPayloadFile userId projectId contentHash mediaType bytes)

/-! ## The lock -/

/-- `acquire_payload_lock`, a body that uses the lock, and the end of its scope. -/
def withPayloadLock {α : Type} (projectId : Uuid) (contentHash : String)
    (body : StorageProgram α) : StorageProgram α := do
  let _ ← perform StorageOp.acquire
  ensure (do
    let _ ← statement .begin
    let _ ← statement (.advisoryLock projectId contentHash)
    body) (perform StorageOp.release)

/-- The state of an active project. -/
def requireActiveStatus (projectId : Uuid) : StorageProgram Unit := do
  match ← statement (.projectStatus projectId) with
  | some .active => return ()
  | some _ => .fail (.persistence .projectMaintenance)
  | none => .fail (.persistence .notFound)

/-- Registers a payload, and ends the transaction. -/
def PayloadLock.registerPayload (userId : Uuid) (role : String) (projectId : Uuid)
    (payload : StoredPayload) : StorageProgram Unit := do
  let _ ← statement (.setRole .app)
  let _ ← statement (.setUser userId)
  let _ ← statement (.setAppRole role)
  requireActiveStatus projectId
  let _ ← statement (.insertPayload projectId userId payload)
  let _ ← statement .commit

/-- The key of the payload, if it is still old and unreferenced. -/
def PayloadLock.unreferencedPayloadKey (projectId : Uuid) (contentHash : String)
    (olderThan : Timestamp) : StorageProgram (Option String) := do
  let _ ← statement (.setRole .worker)
  statement (.unreferencedPayload projectId contentHash olderThan)

/-- Whether the catalog contains the payload. -/
def PayloadLock.payloadIsReferenced (projectId : Uuid) (contentHash : String) :
    StorageProgram Bool := do
  let _ ← statement (.setRole .worker)
  statement (.payloadExists projectId contentHash)

/-- Deletes the row of the payload, and ends the transaction. -/
def PayloadLock.deletePayloadRow (projectId : Uuid) (contentHash : String) :
    StorageProgram Unit := do
  let _ ← statement (.deletePayload projectId contentHash)
  let _ ← statement .commit

/-- Releases the lock without a change. -/
def PayloadLock.finish : StorageProgram Unit := do
  let _ ← statement .commit

/-- Rolls back the transaction. An error is ignored. -/
def PayloadLock.rollback : StorageProgram Unit := (statement .rollback).handle fun _ => .done ()

/-- `put_payload`, from the lock on. -/
def putPayloadLocked (userId : Uuid) (role : String) (projectId : Uuid)
    (contentHash mediaType : String) (bytes : List UInt8) : StorageProgram Unit :=
  withPayloadLock projectId contentHash <| do
    match ← attempt (ObjectStore.putPayloadFile userId projectId contentHash mediaType bytes) with
    | .error error =>
      PayloadLock.rollback
      .fail error
    | .ok payload =>
      -- The arguments are computed while the transaction is open.
      if payload.size < 2 ^ 63 then
        PayloadLock.registerPayload userId role projectId
          { contentHash := payload.contentHash, bucket := payload.bucket
            objectKey := payload.key.text, size := payload.size, mediaType := payload.mediaType }
      else .fail .internal

end TaskTipsCloud

import TaskTipsCloud.Expiry
import TaskTipsCloud.PayloadLocks

/-!
# Cleanup

`cleanup_orphans` of `crates/worker/src/main.rs`. One pass runs its stages in order and ends at the
first error. The expiry of account exports is the third stage.
-/

namespace TaskTipsCloud

open Program

/-! ## Operations -/

namespace Persistence

/-- `expire_pending_snapshots`. -/
def expirePendingSnapshots (olderThan : Timestamp) : StorageProgram (List String) :=
  perform (StorageOp.expirePendingSnapshots olderThan)

/-- `expire_bootstrap_manifests`. -/
def expireBootstrapManifests (limit : ℤ) : StorageProgram (List String) :=
  perform (StorageOp.expireBootstrapManifests limit)

/-- `expire_account_purge_exports`. -/
def expireAccountPurgeExports (limit : ℤ) : StorageProgram (List String) :=
  perform (StorageOp.expireAccountPurgeExports limit)

/-- `purge_expired_idempotency_records`. -/
def purgeExpiredIdempotencyRecords (limit : ℤ) : StorageProgram ℕ :=
  perform (StorageOp.purgeExpiredIdempotencyRecords limit)

/-- `unreferenced_payload_keys`. -/
def unreferencedPayloadKeys (olderThan : Timestamp) : StorageProgram (List (Uuid × String)) :=
  perform (StorageOp.unreferencedPayloadKeys olderThan)

/-- `referenced_payload_keys`. -/
def referencedPayloadKeys : StorageProgram (List String) :=
  perform StorageOp.referencedPayloadKeys

end Persistence

namespace ObjectStore

/-- `delete_key`. -/
def deleteKey (key : String) : StorageProgram Unit := perform (StorageOp.deleteKey key)

/-- A page of the objects below `users/`. -/
def listObjects (continuationToken : Option String) : StorageProgram ObjectPage :=
  perform (StorageOp.listObjects continuationToken)

/-- Whether a text occurs in a key. -/
def keyContains (key text : String) : Bool := decide (text.toList <:+: key.toList)

/-- The time of a number of seconds, if the library can write it. -/
def fromUnixTimestamp (secs : ℤ) : Option Timestamp :=
  if -377705116800 ≤ secs ∧ secs ≤ 253402300799 then some (seconds secs) else none

/-- Whether a listed object was written before a time. -/
def oldEnough (object : ListedObject) (olderThan : Timestamp) : Bool :=
  ((object.lastModified.bind fromUnixTimestamp).map
      fun modified => decide (modified < olderThan)) ==
    some true

/-- The keys of a page that hold objects of some kind, are old and are not referenced. -/
def unreferencedOn (page : ObjectPage) (managed : String → Bool) (referencedKeys : List String)
    (olderThan : Timestamp) : List String :=
  page.contents.filterMap fun object => object.key.filter fun key =>
    managed key && oldEnough object olderThan && !referencedKeys.contains key

/-- Temporary objects of uploads, and manifests. -/
def isManaged (key : String) : Bool :=
  keyContains key "/uploads/" || keyContains key "/snapshots/" || keyContains key "/bootstrap/"

/-- `delete_orphans`, over a listing with at most `pages` more pages. -/
def deleteOrphans (referencedKeys : List String) (olderThan : Timestamp) :
    ℕ → Option String → StorageProgram Unit
  | 0, _ => .fail .internal
  | pages + 1, continuationToken => do
    let page ← listObjects continuationToken
    forEach deleteKey (unreferencedOn page isManaged referencedKeys olderThan)
    match page.nextToken with
    | some token => deleteOrphans referencedKeys olderThan pages (some token)
    | none => return ()

/-- `stale_payload_keys`, over a listing with at most `pages` more pages. -/
def stalePayloadKeys (referencedKeys : List String) (olderThan : Timestamp) :
    ℕ → Option String → StorageProgram (List String)
  | 0, _ => .fail .internal
  | pages + 1, continuationToken => do
    let page ← listObjects continuationToken
    let candidates :=
      unreferencedOn page (keyContains · "/payloads/sha256/") referencedKeys olderThan
    match page.nextToken with
    | some token =>
      let rest ← stalePayloadKeys referencedKeys olderThan pages (some token)
      return candidates ++ rest
    | none => return candidates

end ObjectStore

/-- The owner, the project and the digest in the key of a payload. -/
def parsePayloadKey (key : String) : Option (Uuid × Uuid × String) :=
  match (key.toList.splitOn '/').map String.ofList with
  | [users, ownerUserId, projects, projectId, payloads, sha256, _, contentHash] => do
    guard (users = "users" ∧ projects = "projects" ∧ payloads = "payloads" ∧ sha256 = "sha256")
    let ownerUserId ← Uuid.parse ownerUserId
    let projectId ← Uuid.parse projectId
    guard (contentHash.utf8ByteSize = 64)
    return (ownerUserId, projectId, contentHash)
  | _ => none

/-! ## The pass -/

/-- How old an object without a reference is when it is deleted. -/
def orphanAge : Timestamp := seconds (24 * 60 * 60)

/-- Expires rows and deletes the objects of their keys. -/
def deleteExpired (expire : StorageProgram (List String)) : StorageProgram Unit := do
  let keys ← expire
  forEach ObjectStore.deleteKey keys

/-- Deletes an object and then goes on, or rolls the lock back. -/
def deleteUnderLock (objectKey : String) (next : StorageProgram Unit) : StorageProgram Unit := do
  match ← attempt (ObjectStore.deleteKey objectKey) with
  | .error error =>
    PayloadLock.rollback
    .fail error
  | .ok _ => next

/-- Collects one candidate of the payload stage. -/
def collectCandidate (cutoff : Timestamp) (candidate : Uuid × String) : StorageProgram Unit :=
  withPayloadLock candidate.1 candidate.2 <| do
    match ← PayloadLock.unreferencedPayloadKey candidate.1 candidate.2 cutoff with
    | none => PayloadLock.finish
    | some objectKey =>
      deleteUnderLock objectKey (PayloadLock.deletePayloadRow candidate.1 candidate.2)

/-- The payload stage: rows of old payloads without a reference, with their objects. -/
def collectPayloads (cutoff : Timestamp) : StorageProgram Unit := do
  let candidates ← Persistence.unreferencedPayloadKeys cutoff
  forEach (collectCandidate cutoff) candidates

/-- Deletes the object of a stale key, unless the catalog contains its payload. -/
def deleteStalePayload (objectKey : String) : StorageProgram Unit :=
  match parsePayloadKey objectKey with
  | none => return ()
  | some (_, projectId, contentHash) =>
    withPayloadLock projectId contentHash <| do
      if ← PayloadLock.payloadIsReferenced projectId contentHash then PayloadLock.finish
      else deleteUnderLock objectKey PayloadLock.finish

/-- The stages after the expiries. -/
def collectGarbage (pages : ℕ) (cutoff : Timestamp) : StorageProgram Unit := do
  let _ ← Persistence.purgeExpiredIdempotencyRecords 1000
  collectPayloads cutoff
  let referencedKeys ← Persistence.referencedPayloadKeys
  let staleKeys ← ObjectStore.stalePayloadKeys referencedKeys cutoff pages none
  forEach deleteStalePayload staleKeys
  let referencedKeys ← Persistence.referencedPayloadKeys
  ObjectStore.deleteOrphans referencedKeys cutoff pages none

/-- A pass that starts at a time, with listings of at most `pages` pages. -/
def cleanupOrphans (pages : ℕ) (now : Timestamp) : StorageProgram Unit := do
  let cutoff := now - orphanAge
  deleteExpired (Persistence.expirePendingSnapshots cutoff)
  deleteExpired (Persistence.expireBootstrapManifests 1000)
  deleteExpired (Persistence.expireAccountPurgeExports 1000)
  collectGarbage pages cutoff

end TaskTipsCloud

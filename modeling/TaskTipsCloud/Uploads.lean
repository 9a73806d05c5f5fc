import TaskTipsCloud.Library.Serial
import TaskTipsCloud.PushRequests
import TaskTipsCloud.Service

/-!
# Uploads

`put_payload` of `crates/api/src/routes.rs` and `put_payload_file` of
`crates/object-store/src/lib.rs`. The bytes of a payload are stored under a key made from their
digest, and then its row is registered in the catalog. Requests are served one after the other: the
lock of the payload keeps the uploads of one digest apart.

Each request to the object store may fail, or succeed without an answer. The garbage collectors may
delete any object at any time.
-/

namespace TaskTipsCloud

open Txn

/-! ## The object store -/

/-- The keys of the bucket that an upload uses. -/
inductive ObjectKey where
  /-- `payload_key`. -/
  | payload (ownerUserId projectId : Uuid) (contentHash : String)
  /-- The temporary key of an upload. -/
  | upload (ownerUserId projectId uploadId : Uuid)
  deriving DecidableEq, Repr

/-- A key as it is written. -/
def ObjectKey.text : ObjectKey → String
  | .payload ownerUserId projectId contentHash =>
    "users/" ++ ownerUserId.text ++ "/projects/" ++ projectId.text ++ "/payloads/sha256/" ++
      String.ofList (contentHash.toList.take 2) ++ "/" ++ contentHash
  | .upload ownerUserId projectId uploadId =>
    "users/" ++ ownerUserId.text ++ "/projects/" ++ projectId.text ++ "/uploads/" ++ uploadId.text

/-- An object with its content type. -/
structure StoredObject where
  bytes : List UInt8
  mediaType : Option String
  deriving DecidableEq, Repr

/-- The bucket. -/
abbrev ObjectStore := ObjectKey → Option StoredObject

/-- What the uploads take from the libraries and the configuration. -/
structure ObjectHost where
  /-- The SHA-256 digest of bytes, in hexadecimal. -/
  sha256 : List UInt8 → String
  bucket : String

/-- The errors of the object store. -/
inductive ObjectStoreError where
  | hashMismatch
  | backend
  deriving DecidableEq, Repr

/-- How a request to the object store ends: it is answered, it is not carried out, or it is carried
out without an answer. -/
inductive Fate where
  | answered
  | failed
  | lost
  deriving DecidableEq, Repr

/-- A payload as the object store returns it. -/
structure PayloadInfo where
  bucket : String
  key : ObjectKey
  contentHash : String
  size : ℕ
  mediaType : String
  deriving DecidableEq, Repr

/-- The database and the bucket. -/
structure StoreWorld where
  db : Db
  objects : ObjectStore

/-- Why a call failed. -/
inductive UploadError where
  | invalid (message : String)
  | contentHashMismatch
  | objectStore (error : ObjectStoreError)
  | persistence (error : PersistenceError)

/-- The steps of a call on the database and the bucket. What is done stays done when the call
fails. -/
abbrev StoreTx := Txn StoreWorld Lock UploadError

/-- A request that writes to the bucket. -/
def storeRequest (fate : Fate) (write : ObjectStore → ObjectStore) : StoreTx Unit := do
  match fate with
  | .answered => modify fun w => { w with objects := write w.objects }
  | .failed => .throw (.objectStore .backend)
  | .lost =>
    modify fun w => { w with objects := write w.objects }
    .throw (.objectStore .backend)

/-- A request that reads from the bucket. -/
def storeAnswer {α : Type} (fate : Fate) (read : ObjectStore → α) : StoreTx α :=
  if fate = .answered then query fun w => read w.objects else .throw (.objectStore .backend)

/-- `head_key`: the size and the content type of an object. -/
def headKey (fate : Fate) (key : ObjectKey) : StoreTx (Option (ℕ × Option String)) :=
  storeAnswer fate fun objects => (objects key).map fun o => (o.bytes.length, o.mediaType)

/-- `verify_key_hash`: the size and the digest of the bytes of an object. -/
def verifyKeyHash (s3 : ObjectHost) (fate : Fate) (key : ObjectKey) (expectedHash : String)
    (expectedSize : ℕ) : StoreTx Unit := do
  let output ← orThrow (.objectStore .backend) (← storeAnswer fate (· key))
  require (output.bytes.length == expectedSize && s3.sha256 output.bytes == expectedHash)
    (.objectStore .hashMismatch)

/-- `copy_object`, with a content type for the copy. -/
def copyObject (fate : Fate) (key source : ObjectKey) (mediaType : String) : StoreTx Unit := do
  let output ← orThrow (.objectStore .backend) (← query fun w => w.objects source)
  storeRequest fate (Function.update · key (some { output with mediaType := some mediaType }))

/-- How the requests of an upload end. -/
structure UploadFates where
  head : Fate
  put : Fate
  copy : Fate
  delete : Fate
  headStored : Fate
  get : Fate

/-- The part of `put_payload_file` for a key without an object: the bytes are sent to a temporary
key and copied from there. -/
def storePayloadFile (s3 : ObjectHost) (fates : UploadFates) (finalKey temporaryKey : ObjectKey)
    (expectedHash mediaType : String) (bytes : List UInt8) : StoreTx PayloadInfo := do
  storeRequest fates.put (Function.update · temporaryKey (some ⟨bytes, some mediaType⟩))
  let copyResult ← (copyObject fates.copy finalKey temporaryKey mediaType).attempt
  let _ ← (storeRequest fates.delete (Function.update · temporaryKey none)).attempt
  require copyResult.isOk (.objectStore .backend)
  let stored ← orThrow (.objectStore .backend) (← headKey fates.headStored finalKey)
  require (stored.1 == bytes.length) (.objectStore .backend)
  verifyKeyHash s3 fates.get finalKey expectedHash stored.1
  return ⟨s3.bucket, finalKey, expectedHash, stored.1, stored.2.getD mediaType⟩

/-- Streams a payload file to its key. An object that is there already stays as it is. -/
def putPayloadFile (s3 : ObjectHost) (fates : UploadFates) (ownerUserId projectId uploadId : Uuid)
    (expectedHash mediaType : String) (bytes : List UInt8) : StoreTx PayloadInfo := do
  let finalKey := .payload ownerUserId projectId expectedHash
  match ← headKey fates.head finalKey with
  | some existing =>
    verifyKeyHash s3 fates.get finalKey expectedHash existing.1
    return ⟨s3.bucket, finalKey, expectedHash, existing.1, existing.2.getD mediaType⟩
  | none =>
    storePayloadFile s3 fates finalKey (.upload ownerUserId projectId uploadId) expectedHash
      mediaType
      bytes

/-! ## The route -/

/-- A transaction on the database. -/
def onDatabase {α : Type} (x : Tx (Except PersistenceError α)) : StoreTx α := do
  let result ← query fun w => (x.execute w.db).1
  modify fun w => { w with db := (x.execute w.db).2 }
  match result with
  | .ok a => return a
  | .error e => .throw (.persistence e)

/-- The largest payload, in bytes. -/
def maxPayloadUpload : ℕ := 10 * 1024 * 1024

/-- An upload: its path, its headers, its body, and the user of its access token. The identifiers
are those that are drawn for its temporary object and for the row of its payload. -/
structure UploadRequest where
  userId : Uuid
  projectId : Uuid
  contentHash : String
  contentLength : Option ℕ
  contentType : Option String
  bytes : List UInt8
  uploadId : Uuid
  payloadId : Uuid
  fates : UploadFates

/-- The content type of an upload, if it is a valid one. -/
def UploadRequest.mediaType (u : UploadRequest) : Option String :=
  u.contentType.filter fun t => trimSpaces t.toList ≠ [] ∧ t.utf8ByteSize ≤ 255

/-- An active project of the user. -/
def validateSyncProject (userId projectId : Uuid) : Tx (Except PersistenceError (ℤ × ℤ)) := do
  let state ← requireActiveProject (.app userId) projectId
  return .ok state

/-- Uploads a payload. -/
def putPayload (s3 : ObjectHost) (now : Timestamp) (u : UploadRequest) : StoreTx Unit := do
  require (validContentHash u.contentHash) (.invalid "contentHash 必须是小写 SHA-256 十六进制字符串")
  let contentLength ← orThrow (.invalid "Content-Length 缺失或超过 10 MiB")
    (u.contentLength.filter (· ≤ maxPayloadUpload))
  let mediaType ← orThrow (.invalid "Content-Type 缺失或无效") u.mediaType
  let _ ← onDatabase (validateSyncProject u.userId u.projectId)
  require (u.bytes.length == contentLength) (.invalid "payload 大小与 Content-Length 不一致")
  require (s3.sha256 u.bytes == u.contentHash) .contentHashMismatch
  let payload ← putPayloadFile s3 u.fates u.userId u.projectId u.uploadId u.contentHash mediaType
    u.bytes
  onDatabase <| registerPayload now u.userId u.projectId u.payloadId
    { contentHash := payload.contentHash, bucket := payload.bucket, objectKey := payload.key.text,
      size := payload.size, mediaType := payload.mediaType }

/-! ## The service -/

/-- A call of the API or the worker on the database and the bucket. -/
inductive StoreCall where
  | putPayload (u : UploadRequest)
  | deleteObject (key : ObjectKey)
  | sync (call : Call)

/-- What such a call returns. -/
inductive StoreReply where
  | created
  | deleted
  | sync (reply : Reply)

/-- A call with the time at which it is made. -/
structure StoreRequest where
  now : Timestamp
  call : StoreCall

/-- The steps of a call. -/
def StoreCall.body (host : Host) (s3 : ObjectHost) (now : Timestamp) :
    StoreCall → StoreTx StoreReply
  | .putPayload u => (TaskTipsCloud.putPayload s3 now u).bind fun _ => .pure .created
  | .deleteObject key =>
    (storeRequest .answered (Function.update · key none)).bind fun _ => .pure .deleted
  | .sync call => (onDatabase (call.body host now)).bind fun reply => .pure (.sync reply)

/-- A call that only an upload makes. -/
def StoreCall.isRegistration : StoreCall → Bool
  | .sync (.registerPayload ..) => true
  | _ => false

/-- The service over the database and the bucket. -/
def storeService (host : Host) (s3 : ObjectHost) :
    Service StoreWorld Lock UploadError StoreReply StoreRequest where
  body q := (q.call.body host s3 q.now).attempt
  time q := q.now
  Allowed q := q.call.isRegistration = false

/-- A call that finished. -/
abbrev StoreEvent := Event StoreWorld UploadError StoreReply StoreRequest

end TaskTipsCloud

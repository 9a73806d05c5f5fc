import TaskTipsCloud.Library.Sha2
import TaskTipsCloud.PayloadLocks

/-!
# The body of an upload

`put_payload` of `crates/api/src/routes.rs` with the stream of its body. The chunks are written to a
temporary file while their length and their digest are computed; the payload is stored from that
file when all of the body has come and is what the request declares. How the body is cut into chunks
does not matter, and the file is gone at every end.
-/

namespace TaskTipsCloud

open Program

/-! ## Operations -/

/-- The hasher of SHA-256: what it has been given, one piece after the other, counts as one text. -/
structure Hasher where
  State : Type
  new : State
  update : State → List UInt8 → State
  /-- The digest in hexadecimal. -/
  finalize : State → String
  /-- The digest of a text. -/
  sha256 : List UInt8 → String
  finalize_update : ∀ pieces : List (List UInt8),
    finalize (pieces.foldl update new) = sha256 pieces.flatten

/-- What an upload calls: the checks of the service, its temporary file, the object store, and the
pool. -/
inductive StreamOp where
  | authenticate
  | allowAuthRequest (userId projectId : Uuid)
  | enforceSharedRateLimit (userId projectId : Uuid)
  | validateSyncProject (userId : Uuid) (role : String) (projectId : Uuid)
  | syncObjectStore
  | reserve (bytes : ℕ)
  | createDirAll
  | createFile
  | writeAll (bytes : List UInt8)
  | flush
  | removeFile
  /-- Streams the temporary file to the object store. -/
  | putPayloadFile (userId projectId : Uuid) (contentHash mediaType : String) (expectedSize : ℕ)
  | storage (op : StorageOp)

/-- What an operation returns. -/
def StreamOp.Reply : StreamOp → Type
  | .authenticate => Uuid × String
  | .allowAuthRequest .. | .reserve _ => Bool
  | .putPayloadFile .. => PayloadInfo
  | .storage op => op.Reply
  | _ => Unit

/-- The errors of an upload. -/
inductive StreamError where
  | invalid (message : String)
  | contentHashMismatch
  | unavailable
  | rateLimited
  | internal
  | storage (error : StorageError)

/-- The error of the storage in an error. -/
def StreamError.toStorage : StreamError → StorageError
  | .storage error => error
  | _ => .internal

/-- A program of an upload. -/
abbrev StreamProgram := Program StreamOp StreamOp.Reply StreamError

/-- A call of such a program. -/
abbrev StreamCall := Called StreamOp StreamOp.Reply StreamError

/-- A program on the storage. -/
def onStorage {α : Type} (x : StorageProgram α) : StreamProgram α :=
  x.lift StreamOp.storage (fun _ r => r.mapError StreamError.toStorage) .storage

/-- A program that fails with an error of its own. -/
def orError {α : Type} (e : StreamError) (x : StreamProgram α) : StreamProgram α :=
  x.handle fun
    | .ok a => .done a
    | .error _ => .fail e

/-- Fails unless a condition is met. -/
def checkThat (condition : Bool) (e : StreamError) : StreamProgram Unit :=
  if condition then .done () else .fail e

/-- The value of an option, or an error. -/
def valueOr {α : Type} (e : StreamError) : Option α → StreamProgram α
  | some a => .done a
  | none => .fail e

/-- Removes the temporary file. An error is ignored. -/
def removeTemporaryFile : StreamProgram Unit :=
  (perform StreamOp.removeFile).handle fun _ => .done ()

/-- Removes the temporary file, and fails. -/
def reject {α : Type} (e : StreamError) : StreamProgram α :=
  removeTemporaryFile.andThen fun _ => .fail e

/-! ## The route -/

/-- An upload: its path, its headers, and the chunks of its body, of which each may be an error. -/
structure StreamedUpload where
  projectId : Uuid
  contentHash : String
  contentLength : Option ℕ
  contentType : Option String
  body : List (Except Unit (List UInt8))

/-- What the checks before the body give: the user, and what is declared of the payload. -/
structure Admission where
  userId : Uuid
  role : String
  contentLength : ℕ
  mediaType : String
  length_le : contentLength ≤ maxPayloadUpload

/-- The declared length, if it is not too large. -/
def StreamedUpload.declaredLength (u : StreamedUpload) : Option {n : ℕ // n ≤ maxPayloadUpload} :=
  u.contentLength.bind fun n => if h : n ≤ maxPayloadUpload then some ⟨n, h⟩ else none

/-- The content type, if it is a valid one. -/
def StreamedUpload.mediaType (u : StreamedUpload) : Option String :=
  u.contentType.filter fun t => trimSpaces t.toList ≠ [] ∧ t.utf8ByteSize ≤ 255

/-- The checks of the service: who uploads, and whether there is room. -/
def checkService (u : StreamedUpload) (contentLength : ℕ) : StreamProgram (Uuid × String) := do
  let claims ← perform StreamOp.authenticate
  checkThat (← perform (StreamOp.allowAuthRequest claims.1 u.projectId)) .rateLimited
  let _ ← perform (StreamOp.enforceSharedRateLimit claims.1 u.projectId)
  let _ ← perform (StreamOp.validateSyncProject claims.1 claims.2 u.projectId)
  let _ ← perform StreamOp.syncObjectStore
  checkThat (← perform (StreamOp.reserve contentLength)) .unavailable
  let _ ← orError .unavailable (perform StreamOp.createDirAll)
  return claims

/-- The checks before the temporary file is created. -/
def checkRequest (u : StreamedUpload) : StreamProgram Admission := do
  checkThat (validContentHash u.contentHash) (.invalid "contentHash 必须是小写 SHA-256 十六进制字符串")
  let length ← valueOr (.invalid "Content-Length 缺失或超过 10 MiB") u.declaredLength
  let mediaType ← valueOr (.invalid "Content-Type 缺失或无效") u.mediaType
  let claims ← checkService u length.1
  return ⟨claims.1, claims.2, length.1, mediaType, length.2⟩

/-- The error of a length that is not the declared one. -/
def sizeMismatch : StreamError := .invalid "payload 大小与 Content-Length 不一致"

/-- Writes the chunks to the temporary file: their length and the state of the hasher after them. -/
def receiveChunks (h : Hasher) (contentLength : ℕ) :
    List (Except Unit (List UInt8)) → ℕ → h.State → StreamProgram (ℕ × h.State)
  | [], received, hasher => .done (received, hasher)
  | .error () :: _, _, _ => reject (.invalid "payload 请求体读取失败")
  | .ok chunk :: body, received, hasher =>
    let nextSize := min (received + chunk.length) (2 ^ 64 - 1)
    if contentLength < nextSize ∨ maxPayloadUpload < nextSize then reject sizeMismatch
    else
      (perform (StreamOp.writeAll chunk)).handle fun
        | .error _ => reject .unavailable
        | .ok _ => receiveChunks h contentLength body nextSize (h.update hasher chunk)

/-- Checks the length and the digest of what was received. -/
def checkReceived (contentHash : String) (contentLength received : ℕ) (digest : String) :
    StreamProgram Unit :=
  (perform StreamOp.flush).handle fun
    | .error _ => reject .unavailable
    | .ok _ =>
      if received ≠ contentLength then reject sizeMismatch
      else if digest ≠ contentHash then reject .contentHashMismatch
      else .done ()

/-- Receives the body, and checks its length and its digest. -/
def receivePayload (h : Hasher) (u : StreamedUpload) (contentLength : ℕ) : StreamProgram Unit := do
  let (received, hasher) ← receiveChunks h contentLength u.body 0 h.new
  checkReceived u.contentHash contentLength received (h.finalize hasher)

/-- `acquire_payload_lock`. -/
def acquirePayloadLock (projectId : Uuid) (contentHash : String) : StorageProgram Unit := do
  let _ ← perform StorageOp.acquire
  (do
    let _ ← statement .begin
    let _ ← statement (.advisoryLock projectId contentHash)).handle fun
      | .ok _ => .done ()
      | .error e => (perform StorageOp.release).handle fun _ => .fail e

/-- Stores the payload from the temporary file, under its lock. -/
def storePayload (projectId : Uuid) (contentHash : String) (a : Admission) : StreamProgram Unit :=
  (onStorage (acquirePayloadLock projectId contentHash)).handle fun
    | .error e => reject e
    | .ok _ =>
      ensure ((perform (StreamOp.putPayloadFile a.userId projectId contentHash a.mediaType
          a.contentLength)).handle fun
        | .error e => do
          removeTemporaryFile
          onStorage PayloadLock.rollback
          .fail e
        | .ok (payload : PayloadInfo) => do
          removeTemporaryFile
          if payload.size < 2 ^ 63 then
            onStorage <| PayloadLock.registerPayload a.userId a.role projectId
              { contentHash := payload.contentHash, bucket := payload.bucket
                objectKey := payload.key.text, size := payload.size
                mediaType := payload.mediaType }
          else .fail .internal)
        (onStorage (perform StorageOp.release))

/-- Receives the body into the temporary file, and stores it. -/
def putPayloadStream (h : Hasher) (u : StreamedUpload) : StreamProgram Unit := do
  let a ← checkRequest u
  let _ ← orError .unavailable (perform StreamOp.createFile)
  receivePayload h u a.contentLength
  storePayload u.projectId u.contentHash a

/-! ## What the operations do -/

/-- The temporary file, and what has been sent to the object store. -/
structure StreamWorld where
  file : Option (List UInt8)
  sent : List (List UInt8)

/-- An operation that neither uses the temporary file nor sends it. -/
def StreamOp.isElsewhere : StreamOp → Bool
  | .createFile | .writeAll _ | .removeFile | .putPayloadFile .. => false
  | _ => true

/-- What the operations do. The file has a name of its own, and can be removed when it is there; any
other operation may fail. -/
inductive StreamStep : Behaviour StreamOp StreamOp.Reply StreamError StreamWorld
  | created (s : StreamWorld) : StreamStep .createFile s (.ok ()) { s with file := some [] }
  | notCreated (s : StreamWorld) (e : StreamError) : StreamStep .createFile s (.error e) s
  | wrote {s : StreamWorld} {bytes content : List UInt8} (h : s.file = some content) :
    StreamStep (.writeAll bytes) s (.ok ()) { s with file := some (content ++ bytes) }
  | notWritten {s : StreamWorld} {bytes content : List UInt8} (h : s.file = some content)
    (content' : List UInt8) (e : StreamError) :
    StreamStep (.writeAll bytes) s (.error e) { s with file := some content' }
  | removed (s : StreamWorld) : StreamStep .removeFile s (.ok ()) { s with file := none }
  | notThere {s : StreamWorld} (h : s.file = none) (e : StreamError) :
    StreamStep .removeFile s (.error e) s
  | sent {s : StreamWorld} {content : List UInt8} (h : s.file = some content)
    (userId projectId : Uuid) (contentHash mediaType : String) (expectedSize : ℕ)
    (reply : Except StreamError PayloadInfo) :
    StreamStep (.putPayloadFile userId projectId contentHash mediaType expectedSize) s reply
      { s with sent := s.sent ++ [content] }
  | notSent (s : StreamWorld) (userId projectId : Uuid) (contentHash mediaType : String)
    (expectedSize : ℕ) (e : StreamError) :
    StreamStep (.putPayloadFile userId projectId contentHash mediaType expectedSize) s (.error e) s
  | elsewhere {op : StreamOp} (h : op.isElsewhere = true) (s : StreamWorld)
    (reply : Except StreamError op.Reply) : StreamStep op s reply s

/-- An operation that stores. -/
def StreamOp.stores : StreamOp → Bool
  | .putPayloadFile .. | .storage _ => true
  | _ => false

/-! ## What is declared -/

/-- The chunks before an error. -/
def chunksOf : List (Except Unit (List UInt8)) → List (List UInt8)
  | .ok chunk :: body => chunk :: chunksOf body
  | _ => []

/-- Whether a body ends without an error. -/
def endsWell : List (Except Unit (List UInt8)) → Bool
  | [] => true
  | .ok _ :: body => endsWell body
  | .error _ :: _ => false

/-- The bytes of the body. -/
def StreamedUpload.bytes (u : StreamedUpload) : List UInt8 := (chunksOf u.body).flatten

/-- All of the body comes, and it has the declared length and the digest of the path. -/
structure StreamedUpload.Matches (h : Hasher) (u : StreamedUpload) : Prop where
  complete : endsWell u.body = true
  length_eq : u.contentLength = some u.bytes.length
  length_le : u.bytes.length ≤ maxPayloadUpload
  digest : h.sha256 u.bytes = u.contentHash

/-! ## The temporary file -/

section

variable {h : Hasher} {u : StreamedUpload} {content : List UInt8} {sent : List (List UInt8)}
  {α : Type}

/-- The temporary file is there. -/
def FileHolds (content : List UInt8) (sent : List (List UInt8)) (s : StreamWorld) : Prop :=
  s.file = some content ∧ s.sent = sent

/-- The temporary file is gone. -/
def FileGone (sent : List (List UInt8)) (s : StreamWorld) : Prop := s.file = none ∧ s.sent = sent

/-- The operations elsewhere keep the file and what was sent. -/
theorem StreamStep.eq_of_isElsewhere {op : StreamOp} {s s' : StreamWorld}
    {reply : Except StreamError op.Reply} (hstep : StreamStep op s reply s')
    (h : op.isElsewhere = true) : s' = s := by
  cases hstep <;> first | rfl | cases h

/-- An operation elsewhere leaves the file and the bytes. -/
theorem triple_elsewhere {op : StreamOp} {P : StreamWorld → Prop} (h : op.isElsewhere = true) :
    Triple StreamStep P (perform op) fun _ => P :=
  triple_perform fun _ _ _ hs hstep => (hstep.eq_of_isElsewhere h).symm ▸ hs

/-- A program of the storage makes its operations only. -/
theorem respects_onStorage {K : StreamOp → Prop} {before : List StreamCall}
    (h : ∀ op, K (.storage op)) (x : StorageProgram α) :
    Respects (fun _ => K) before (onStorage x) :=
  respects_lift (fun _ => h) x

/-- It leaves the file and the bytes. -/
theorem triple_onStorage {P : StreamWorld → Prop} (x : StorageProgram α) :
    Triple StreamStep P (onStorage x) fun _ => P :=
  have hx : Respects (fun _ op => op.isElsewhere = true) [] (onStorage x) :=
    respects_onStorage (fun _ => rfl) x
  triple_of_respects (fun _ h _ _ _ hs hstep => (hstep.eq_of_isElsewhere h).symm ▸ hs) hx

/-- Afterwards the file is gone. -/
theorem triple_removeTemporaryFile {P : List (List UInt8) → Prop} :
    Triple StreamStep (fun s => P s.sent) removeTemporaryFile fun r s =>
      r = .ok () ∧ s.file = none ∧ P s.sent :=
  Triple.handle (R := fun _ s => s.file = none ∧ P s.sent)
    (triple_perform fun s r s' hs hstep => by
      cases hstep with
      | removed => exact ⟨rfl, hs⟩
      | notThere hnone => exact ⟨hnone, hs⟩
      | elsewhere hnot => cases hnot)
    fun _ => triple_done fun _ hs => ⟨rfl, hs⟩

/-- A rejection removes the file. -/
theorem triple_reject {P : List (List UInt8) → Prop} (e : StreamError) :
    Triple StreamStep (fun s => P s.sent) (reject e : StreamProgram α) fun r s =>
      r = .error e ∧ s.file = none ∧ P s.sent :=
  triple_removeTemporaryFile.andThen (fun _ => triple_fail fun _ hs => ⟨rfl, hs.2⟩)
    fun _ _ hs => by cases hs.1

/-- A rejection removes the file that holds what was sent. -/
theorem triple_reject_holds (e : StreamError) :
    Triple StreamStep (fun s => ∃ content, FileHolds content sent s)
      (reject e : StreamProgram α) fun r s => r = .error e ∧ FileGone sent s :=
  (triple_reject (P := (· = sent)) e).mono (fun _ ⟨_, hs⟩ => hs.2) fun _ _ hs => hs

/-- When all chunks are received, the file holds them; at an error it is gone. -/
theorem triple_receiveChunks {contentLength : ℕ} (body : List (Except Unit (List UInt8)))
    (received : ℕ) (hasher : h.State) :
    Triple StreamStep (FileHolds content sent) (receiveChunks h contentLength body received hasher)
      fun r s => match r with
        | .ok (total, hasher') => endsWell body = true ∧
            total = received + (chunksOf body).flatten.length ∧
              hasher' = (chunksOf body).foldl h.update hasher ∧
                FileHolds (content ++ (chunksOf body).flatten) sent s
        | .error _ => FileGone sent s := by
  -- By induction on the body; `content` is what the file has when the loop comes to it.
  induction body generalizing content received hasher with
  | nil =>
    exact triple_done fun s hs => ⟨rfl, by simp [chunksOf], rfl, by simpa [chunksOf] using hs⟩
  | cons item body ih =>
    cases item with
    | error _ =>
      refine (triple_reject_holds _).mono (fun s hs => ⟨content, hs⟩) fun r s hs => ?_
      obtain ⟨rfl, hgone⟩ := hs
      exact hgone
    | ok chunk =>
      unfold receiveChunks
      dsimp only
      split
      · refine (triple_reject_holds _).mono (fun s hs => ⟨content, hs⟩) fun r s hs => ?_
        obtain ⟨rfl, hgone⟩ := hs
        exact hgone
      · next hsize =>
        -- Below the limit the count of the received bytes does not saturate.
        have hnext : min (received + chunk.length) (2 ^ 64 - 1) = received + chunk.length := by
          have hmax : maxPayloadUpload = 10485760 := rfl
          omega
        rw [hnext]
        refine Triple.handle (R := fun r s => match r with
          | .ok _ => FileHolds (content ++ chunk) sent s
          | .error _ => ∃ content', FileHolds content' sent s) ?_ fun r => ?_
        · refine triple_perform fun s r s' hs hstep => ?_
          cases hstep with
          | wrote hfile =>
            obtain rfl := Option.some.inj (hs.1.symm.trans hfile)
            exact ⟨rfl, hs.2⟩
          | notWritten hfile content' => exact ⟨content', rfl, hs.2⟩
          | elsewhere hnot => cases hnot
        · cases r with
          | error e =>
            refine (triple_reject_holds _).mono (fun s hs => hs) fun r s hs => ?_
            obtain ⟨rfl, hgone⟩ := hs
            exact hgone
          | ok _ =>
            refine (ih (received + chunk.length) (h.update hasher chunk)).mono (fun s hs => hs)
              fun r s hs => ?_
            cases r with
            | error e => exact hs
            | ok total =>
              obtain ⟨hends, htotal, hhasher, hfile⟩ := hs
              refine ⟨hends, ?_, hhasher, ?_⟩
              · rw [htotal, chunksOf, List.flatten_cons, List.length_append, Nat.add_assoc]
              · rwa [chunksOf, List.flatten_cons, ← List.append_assoc]

/-- The body that is received is the declared one. -/
theorem triple_receivePayload {contentLength : ℕ} :
    Triple StreamStep (FileHolds [] sent) (receivePayload h u contentLength) fun r s => match r with
      | .ok _ => endsWell u.body = true ∧ u.bytes.length = contentLength ∧
          h.sha256 u.bytes = u.contentHash ∧ FileHolds u.bytes sent s
      | .error _ => FileGone sent s := by
  refine (triple_receiveChunks u.body 0 h.new).andThen (fun total => ?_) fun e s hs => hs
  obtain ⟨received, hasher⟩ := total
  refine Triple.handle (triple_elsewhere rfl) fun r => ?_
  -- Every check that fails removes the file.
  have hreject (e : StreamError) : Triple StreamStep (fun s => endsWell u.body = true ∧
      received = 0 + (chunksOf u.body).flatten.length ∧
        hasher = (chunksOf u.body).foldl h.update h.new ∧
          FileHolds ([] ++ (chunksOf u.body).flatten) sent s) (reject e : StreamProgram Unit)
      fun r s => match r with
        | .ok _ => endsWell u.body = true ∧ u.bytes.length = contentLength ∧
            h.sha256 u.bytes = u.contentHash ∧ FileHolds u.bytes sent s
        | .error _ => FileGone sent s := by
    refine (triple_reject_holds e).mono (fun s hs => ⟨_, hs.2.2.2⟩) fun r s hs => ?_
    obtain ⟨rfl, hgone⟩ := hs
    exact hgone
  cases r with
  | error e => exact hreject _
  | ok _ =>
    dsimp only
    split
    · exact hreject _
    · next hlength =>
      split
      · exact hreject _
      · next hdigest =>
        -- All checks have passed: the length and the digest are those that were declared.
        refine triple_done fun s hs => ?_
        obtain ⟨hends, htotal, hhasher, hfile⟩ := hs
        rw [not_not] at hlength hdigest
        refine ⟨hends, ?_, ?_, hfile⟩
        · rw [← hlength, htotal, Nat.zero_add]
          rfl
        · rw [← hdigest, hhasher, h.finalize_update]
          rfl

/-- The file is gone, and nothing but its content was sent. -/
def SentAtMost (content : List UInt8) (s : StreamWorld) : Prop :=
  s.file = none ∧ ∀ b ∈ s.sent, b = content

/-- Under the lock, nothing but the file is sent, and then it is removed. -/
theorem triple_storePayload (a : Admission) :
    Triple StreamStep (FileHolds content []) (storePayload u.projectId u.contentHash a)
      fun _ => SentAtMost content := by
  have hremove := triple_removeTemporaryFile (P := fun sent => ∀ b ∈ sent, b = content)
  refine (triple_onStorage _).handle fun r => ?_
  cases r with
  | error e =>
    refine (triple_reject (P := fun sent => ∀ b ∈ sent, b = content) e).mono (fun s hs => ?_)
      fun r s hs => hs.2
    rw [hs.2]
    simp
  | ok _ =>
    refine Triple.handle (R := fun _ => SentAtMost content) ?_ fun r =>
      (triple_onStorage _).handle fun _ => triple_ofExcept fun _ hs => hs
    refine Triple.handle (R := fun _ s => ∀ b ∈ s.sent, b = content) ?_ fun r => ?_
    · refine triple_perform fun s r s' hs hstep => ?_
      cases hstep with
      | sent hfile =>
        obtain rfl := Option.some.inj (hs.1.symm.trans hfile)
        simp [hs.2]
      | notSent => simp [hs.2]
      | elsewhere hnot => cases hnot
    · cases r with
      | error e =>
        refine hremove.andThen (fun _ => ?_) fun _ _ hs => hs.2
        refine Triple.andThen (R := fun _ => SentAtMost content)
          ((triple_onStorage _).mono (fun _ hs => hs.2) fun _ _ hs => hs)
          (fun _ => triple_fail fun _ hs => hs) fun _ _ hs => hs
      | ok payload =>
        refine hremove.andThen (fun _ => ?_) fun _ _ hs => hs.2
        split
        · exact (triple_onStorage _).mono (fun _ hs => hs.2) fun _ _ hs => hs
        · exact triple_fail fun _ hs => hs.2

/-! ## The checks before -/

/-- The checks before the body use neither the file nor the storage. -/
def IsCheck (op : StreamOp) : Prop := op.isElsewhere = true ∧ op.stores = false

/-- A check makes no call. -/
theorem respects_checkThat {K : StreamOp → Prop} {before : List StreamCall} (condition : Bool)
    (e : StreamError) : Respects (fun _ => K) before (checkThat condition e) := by
  unfold checkThat
  split <;> trivial

/-- Neither does the reading of an optional value. -/
theorem respects_valueOr {K : StreamOp → Prop} {before : List StreamCall} (e : StreamError)
    (o : Option α) : Respects (fun _ => K) before (valueOr e o) := by
  cases o <;> trivial

/-- A failure under another name makes the same calls. -/
theorem respects_orError {K : StreamOp → Prop} {before : List StreamCall} {e : StreamError}
    {x : StreamProgram α} (hx : Respects (fun _ => K) before x) :
    Respects (fun _ => K) before (orError e x) :=
  hx.handle fun _ r _ => by cases r <;> trivial

/-- The checks of the service come before the file. -/
theorem respects_checkService {contentLength : ℕ} {before : List StreamCall} :
    Respects (fun _ => IsCheck) before (checkService u contentLength) := by
  have hop {op : StreamOp} {before : List StreamCall} (h : op.isElsewhere = true)
      (h' : op.stores = false) : Respects (fun _ => IsCheck) before (perform op) :=
    respects_perform ⟨h, h'⟩
  exact (hop rfl rfl).andThen fun _ _ _ => (hop rfl rfl).andThen fun _ _ _ =>
    (respects_checkThat _ _).andThen fun _ _ _ => (hop rfl rfl).andThen fun _ _ _ =>
      (hop rfl rfl).andThen fun _ _ _ => (hop rfl rfl).andThen fun _ _ _ =>
        (hop rfl rfl).andThen fun _ _ _ => (respects_checkThat _ _).andThen fun _ _ _ =>
          (respects_orError (hop rfl rfl)).andThen fun _ _ _ => trivial

/-- So do all checks of the request. -/
theorem respects_checkRequest : Respects (fun _ => IsCheck) [] (checkRequest u) :=
  (respects_checkThat _ _).andThen fun _ _ _ => (respects_valueOr _ _).andThen fun _ _ _ =>
    (respects_valueOr _ _).andThen fun _ _ _ => respects_checkService.andThen fun _ _ _ => trivial

/-- A value that is there is read without a call. -/
theorem ends_valueOr_ok_iff {e : StreamError} {o : Option α} {calls : List StreamCall} {a : α} :
    Ends (valueOr e o) calls (.ok a) ↔ calls = [] ∧ o = some a := by
  cases o <;> simp [valueOr, eq_comm]

/-- The declared length is the one that the checks give. -/
theorem contentLength_of_checkRequest {calls : List StreamCall} {a : Admission}
    (h : Ends (checkRequest u) calls (.ok a)) : u.contentLength = some a.contentLength := by
  obtain ⟨_, _, _, -, h, -⟩ := ends_andThen_ok_iff.mp h
  obtain ⟨_, length, _, hlength, h, -⟩ := ends_andThen_ok_iff.mp h
  obtain ⟨_, mediaType, _, -, h, -⟩ := ends_andThen_ok_iff.mp h
  obtain ⟨_, claims, _, -, h, -⟩ := ends_andThen_ok_iff.mp h
  obtain ⟨-, ha⟩ := ends_done_iff.mp h
  cases ha
  obtain ⟨-, hdeclared⟩ := ends_valueOr_ok_iff.mp hlength
  obtain ⟨n, hn, hsome⟩ := Option.bind_eq_some_iff.mp hdeclared
  split at hsome
  · cases hsome
    exact hn
  · cases hsome

/-! ## The calls of an upload -/

/-- A call that wrote a chunk. -/
def wroteChunk (chunk : List UInt8) : StreamCall := ⟨.writeAll chunk, .ok ()⟩

/-- An operation that writes the temporary file. -/
def StreamOp.writes : StreamOp → Bool
  | .writeAll _ | .flush => true
  | _ => false

/-- The writes to the temporary file have not failed. -/
def WritesSucceed (calls : List StreamCall) : Prop := ∀ c ∈ calls, c.op.writes = true → ¬c.Failed

/-- A chunk that does not fit. -/
def Exceeds (contentLength received : ℕ) (chunk : List UInt8) : Prop :=
  contentLength < min (received + chunk.length) (2 ^ 64 - 1) ∨
    maxPayloadUpload < min (received + chunk.length) (2 ^ 64 - 1)

/-- Whether a chunk exceeds the announced length is decided by comparing lengths. -/
instance (contentLength received : ℕ) (chunk : List UInt8) :
    Decidable (Exceeds contentLength received chunk) := inferInstanceAs (Decidable (_ ∨ _))

/-- The chunks that are written. -/
def writtenChunks (contentLength : ℕ) : List (Except Unit (List UInt8)) → ℕ → List (List UInt8)
  | .ok chunk :: body, received =>
    if Exceeds contentLength received chunk then []
    else chunk :: writtenChunks contentLength body (min (received + chunk.length) (2 ^ 64 - 1))
  | _, _ => []

/-- How the loop over the chunks ends when the writes succeed. -/
def loopResult (contentLength : ℕ) : List (Except Unit (List UInt8)) → ℕ → Except StreamError ℕ
  | [], received => .ok received
  | .error () :: _, _ => .error (.invalid "payload 请求体读取失败")
  | .ok chunk :: body, received =>
    if Exceeds contentLength received chunk then .error sizeMismatch
    else loopResult contentLength body (min (received + chunk.length) (2 ^ 64 - 1))

/-- A rejection removes the file and answers its error. -/
theorem ends_reject_iff {e : StreamError} {calls : List StreamCall} {r : Except StreamError α} :
    Ends (reject e) calls r ↔ (∃ reply, calls = [⟨.removeFile, reply⟩]) ∧ r = .error e := by
  have hremove {calls : List StreamCall} {r : Except StreamError Unit} :
      Ends removeTemporaryFile calls r ↔
        (∃ reply, calls = [⟨.removeFile, reply⟩]) ∧ r = .ok () := by
    rw [removeTemporaryFile, ends_handle_iff]
    constructor
    · rintro ⟨calls₁, r₁, calls₂, h₁, h₂, rfl⟩
      obtain rfl := ends_perform_iff.mp h₁
      obtain ⟨rfl, rfl⟩ := ends_done_iff.mp h₂
      exact ⟨⟨r₁, rfl⟩, rfl⟩
    · rintro ⟨⟨reply, rfl⟩, rfl⟩
      exact ⟨_, reply, [], ends_perform_iff.mpr rfl, ends_done_iff.mpr ⟨rfl, rfl⟩, rfl⟩
  rw [reject, ends_andThen_iff]
  constructor
  · rintro (⟨calls₁, a, calls₂, h₁, h₂, rfl⟩ | ⟨e', h, -⟩)
    · obtain ⟨⟨reply, rfl⟩, -⟩ := hremove.mp h₁
      obtain ⟨rfl, rfl⟩ := ends_fail_iff.mp h₂
      exact ⟨⟨reply, rfl⟩, rfl⟩
    · cases (hremove.mp h).2
  · rintro ⟨⟨reply, rfl⟩, rfl⟩
    exact .inl ⟨_, (), [], hremove.mpr ⟨⟨reply, rfl⟩, rfl⟩, ends_fail_iff.mpr ⟨rfl, rfl⟩, rfl⟩

/-- At an error the file is removed. -/
def EndsCleared : Except StreamError α → List StreamCall → Except StreamError α → Prop
  | .ok a, tail, r => tail = [] ∧ r = .ok a
  | .error e, tail, r => (∃ reply, tail = [⟨.removeFile, reply⟩]) ∧ r = .error e

/-- When the writes succeed, the calls of the loop are the writes of its chunks and, at an error,
the removal of the file. -/
theorem ends_receiveChunks_iff {contentLength : ℕ} {body : List (Except Unit (List UInt8))}
    {received : ℕ} {hasher : h.State} {calls : List StreamCall}
    {r : Except StreamError (ℕ × h.State)} (hwrites : WritesSucceed calls) :
    Ends (receiveChunks h contentLength body received hasher) calls r ↔
      ∃ tail, calls = (writtenChunks contentLength body received).map wroteChunk ++ tail ∧
        EndsCleared ((loopResult contentLength body received).map fun total =>
          (total, (chunksOf body).foldl h.update hasher)) tail r := by
  induction body generalizing received hasher calls with
  | nil => simp [receiveChunks, writtenChunks, loopResult, chunksOf, EndsCleared, Except.map]
  | cons item body ih =>
    cases item with
    | error _ =>
      simp only [receiveChunks, writtenChunks, loopResult, List.map_nil, List.nil_append,
        exists_eq_left']
      exact ends_reject_iff
    | ok chunk =>
      by_cases hsize : Exceeds contentLength received chunk
      · have hreject : receiveChunks h contentLength (.ok chunk :: body) received hasher =
            reject sizeMismatch := if_pos hsize
        simp only [writtenChunks, loopResult, if_pos hsize, List.map_nil, List.nil_append,
          exists_eq_left', hreject]
        exact ends_reject_iff
      · simp only [writtenChunks, loopResult, if_neg hsize, List.map_cons, List.cons_append,
          chunksOf, List.foldl_cons]
        have hwrite : receiveChunks h contentLength (.ok chunk :: body) received hasher =
            (perform (StreamOp.writeAll chunk)).handle fun
              | .error _ => reject .unavailable
              | .ok _ => receiveChunks h contentLength body
                  (min (received + chunk.length) (2 ^ 64 - 1)) (h.update hasher chunk) :=
          if_neg hsize
        rw [hwrite, ends_handle_iff]
        constructor
        · rintro ⟨calls₁, r₁, calls₂, h₁, h₂, rfl⟩
          obtain rfl := ends_perform_iff.mp h₁
          cases r₁ with
          | error e =>
            have hmem : (⟨.writeAll chunk, .error e⟩ : StreamCall) ∈
                [⟨.writeAll chunk, .error e⟩] ++ calls₂ := List.mem_cons_self
            exact absurd ⟨e, rfl⟩ (hwrites _ hmem rfl)
          | ok u =>
            obtain ⟨tail, rfl, hend⟩ :=
              (ih fun c hc => hwrites c (List.mem_append_right _ hc)).mp h₂
            exact ⟨tail, rfl, hend⟩
        · rintro ⟨tail, rfl, hend⟩
          refine ⟨[wroteChunk chunk], .ok (), _, ends_perform_iff.mpr rfl,
            (ih fun c hc => hwrites c (List.mem_cons_of_mem _ hc)).mpr ⟨tail, rfl, hend⟩, rfl⟩

/-- How the loop ends depends on the bytes of the body and on how it ends. -/
theorem loopResult_eq {contentLength : ℕ} (hmax : contentLength ≤ maxPayloadUpload)
    {body : List (Except Unit (List UInt8))} {received : ℕ} (hreceived : received ≤ contentLength) :
    loopResult contentLength body received =
      if contentLength < received + (chunksOf body).flatten.length then .error sizeMismatch
      else if endsWell body then .ok (received + (chunksOf body).flatten.length)
      else .error (.invalid "payload 请求体读取失败") := by
  have hlimit : maxPayloadUpload = 10485760 := rfl
  induction body generalizing received with
  | nil => simp [loopResult, chunksOf, endsWell, hreceived]
  | cons item body ih =>
    cases item with
    | error _ => simp [loopResult, chunksOf, endsWell, hreceived]
    | ok chunk =>
      rw [loopResult, chunksOf, List.flatten_cons, List.length_append, ← Nat.add_assoc]
      by_cases hsize : Exceeds contentLength received chunk
      · have hover : contentLength < received + chunk.length := by
          unfold Exceeds at hsize
          omega
        rw [if_pos hsize, if_pos (by omega)]
      · have hfits : received + chunk.length ≤ contentLength := by
          unfold Exceeds at hsize
          omega
        have hnext :
            min (received + chunk.length) (2 ^ 64 - 1) = received + chunk.length := by omega
        rw [if_neg hsize, hnext, ih hfits]
        rfl

/-- The result of the checks on what was received. -/
def checkResult (contentHash : String) (contentLength received : ℕ) (digest : String) :
    Except StreamError Unit :=
  if received ≠ contentLength then .error sizeMismatch
  else if digest ≠ contentHash then .error .contentHashMismatch
  else .ok ()

/-- The checks after the body flush the file first and answer whether length and digest are
right. -/
theorem ends_checkReceived_iff {contentHash digest : String} {contentLength received : ℕ}
    {calls : List StreamCall} {r : Except StreamError Unit} (hwrites : WritesSucceed calls) :
    Ends (checkReceived contentHash contentLength received digest) calls r ↔
      ∃ tail, calls = ⟨.flush, .ok ()⟩ :: tail ∧
        EndsCleared (checkResult contentHash contentLength received digest) tail r := by
  have hchecks {calls : List StreamCall} :
      Ends (if received ≠ contentLength then reject sizeMismatch
        else if digest ≠ contentHash then reject .contentHashMismatch else .done ()) calls r ↔
          EndsCleared (checkResult contentHash contentLength received digest) calls r := by
    unfold checkResult
    split
    · exact ends_reject_iff
    · split
      · exact ends_reject_iff
      · exact ends_done_iff
  rw [checkReceived, ends_handle_iff]
  constructor
  · rintro ⟨calls₁, r₁, calls₂, h₁, h₂, rfl⟩
    obtain rfl := ends_perform_iff.mp h₁
    cases r₁ with
    | error e =>
      have hmem : (⟨.flush, .error e⟩ : StreamCall) ∈ [⟨.flush, .error e⟩] ++ calls₂ :=
        List.mem_cons_self
      exact absurd ⟨e, rfl⟩ (hwrites _ hmem rfl)
    | ok u => exact ⟨calls₂, rfl, hchecks.mp h₂⟩
  · rintro ⟨tail, rfl, hend⟩
    exact ⟨[⟨.flush, .ok ()⟩], .ok (), tail, ends_perform_iff.mpr rfl, hchecks.mpr hend, rfl⟩

/-- How many bytes are received, for a body that ends well or with an error. -/
def receivedLength (contentLength : ℕ) (bytes : List UInt8) (complete : Bool) :
    Except StreamError ℕ :=
  if contentLength < bytes.length then .error sizeMismatch
  else if complete then .ok bytes.length
  else .error (.invalid "payload 请求体读取失败")

/-- The calls of an upload after its writes, and how it ends, for the bytes of its body. -/
def ReceivesAs (h : Hasher) (contentHash : String) (contentLength : ℕ) (bytes : List UInt8)
    (complete : Bool) (tail : List StreamCall) (r : Except StreamError Unit) : Prop :=
  match receivedLength contentLength bytes complete with
  | .error e => EndsCleared (.error e) tail r
  | .ok received => ∃ tail', tail = ⟨.flush, .ok ()⟩ :: tail' ∧
      EndsCleared (checkResult contentHash contentLength received (h.sha256 bytes)) tail' r

/-- When the writes succeed, only the writes of an upload depend on how its body is cut. -/
theorem ends_receivePayload_iff {contentLength : ℕ} (hmax : contentLength ≤ maxPayloadUpload)
    {calls : List StreamCall} {r : Except StreamError Unit} (hwrites : WritesSucceed calls) :
    Ends (receivePayload h u contentLength) calls r ↔
      ∃ tail, calls = (writtenChunks contentLength u.body 0).map wroteChunk ++ tail ∧
        ReceivesAs h u.contentHash contentLength u.bytes (endsWell u.body) tail r := by
  have hdigest : h.finalize ((chunksOf u.body).foldl h.update h.new) = h.sha256 u.bytes :=
    h.finalize_update _
  have hloop : loopResult contentLength u.body 0 =
      receivedLength contentLength u.bytes (endsWell u.body) := by
    rw [loopResult_eq hmax (Nat.zero_le contentLength), Nat.zero_add]
    rfl
  rw [receivePayload, bind_eq, ends_andThen_iff]
  unfold ReceivesAs
  rw [← hloop, ← hdigest]
  -- The stream ends in the loop, or the loop ends well and the checks after it decide.
  constructor
  · rintro (⟨calls₁, ⟨total, hasher⟩, calls₂, h₁, h₂, rfl⟩ | ⟨e, h₁, rfl⟩)
    · have hwrites₁ : WritesSucceed calls₁ := fun c hc => hwrites c (List.mem_append_left _ hc)
      have hwrites₂ : WritesSucceed calls₂ := fun c hc => hwrites c (List.mem_append_right _ hc)
      obtain ⟨tail, rfl, hend⟩ := (ends_receiveChunks_iff hwrites₁).mp h₁
      obtain ⟨tail', rfl, hend'⟩ := (ends_checkReceived_iff hwrites₂).mp h₂
      cases hresult : loopResult contentLength u.body 0 with
      | error e =>
        rw [hresult] at hend
        cases hend.2
      | ok received =>
        rw [hresult] at hend
        obtain ⟨rfl, hsame⟩ := hend
        cases hsame
        exact ⟨_, by rw [List.append_nil], tail', rfl, hend'⟩
    · obtain ⟨tail, rfl, hend⟩ := (ends_receiveChunks_iff hwrites).mp h₁
      refine ⟨tail, rfl, ?_⟩
      cases hresult : loopResult contentLength u.body 0 with
      | error e' =>
        rw [hresult] at hend
        obtain ⟨hreply, hsame⟩ := hend
        cases hsame
        exact ⟨hreply, rfl⟩
      | ok received =>
        rw [hresult] at hend
        cases hend.2
  · rintro ⟨tail, rfl, hend⟩
    cases hresult : loopResult contentLength u.body 0 with
    | error e =>
      rw [hresult] at hend
      obtain ⟨hreply, rfl⟩ := hend
      refine .inr ⟨e, (ends_receiveChunks_iff hwrites).mpr ⟨tail, rfl, ?_⟩, rfl⟩
      rw [hresult]
      exact ⟨hreply, rfl⟩
    | ok received =>
      rw [hresult] at hend
      obtain ⟨tail', rfl, hend⟩ := hend
      refine .inl ⟨_, (received, (chunksOf u.body).foldl h.update h.new), _,
        (ends_receiveChunks_iff fun c hc => hwrites c (List.mem_append_left _ hc)).mpr
          ⟨[], (List.append_nil _).symm, ?_⟩,
        (ends_checkReceived_iff fun c hc => hwrites c (List.mem_append_right _ hc)).mpr
          ⟨tail', rfl, hend⟩, rfl⟩
      rw [hresult]
      exact ⟨rfl, rfl⟩

/-- What is received is accepted exactly when it is what the request declares. -/
theorem receivesAs_ok_iff {contentLength : ℕ} (hmax : contentLength ≤ maxPayloadUpload)
    (hlength : u.contentLength = some contentLength) {tail : List StreamCall}
    {r : Except StreamError Unit}
    (hend : ReceivesAs h u.contentHash contentLength u.bytes (endsWell u.body) tail r) :
    r = .ok () ↔ u.Matches h := by
  unfold ReceivesAs receivedLength checkResult at hend
  constructor
  · rintro rfl
    split at hend
    · cases hend.2
    · next received hreceived =>
      obtain ⟨tail', -, hend⟩ := hend
      split at hreceived
      · cases hreceived
      · split at hreceived
        · next hcomplete =>
          cases hreceived
          split at hend
          · cases hend.2
          · next hsame =>
            split at hend
            · cases hend.2
            · next hdigest =>
              rw [not_not] at hsame hdigest
              exact ⟨hcomplete, by rw [hlength, hsame], hsame ▸ hmax, hdigest⟩
        · cases hreceived
  · intro hmatches
    have hsame : contentLength = u.bytes.length :=
      Option.some.inj (hlength.symm.trans hmatches.length_eq)
    subst hsame
    rw [if_neg (Nat.lt_irrefl _), if_pos hmatches.complete] at hend
    obtain ⟨tail', -, hend⟩ := hend
    rw [if_neg (not_not.mpr rfl), if_neg (not_not.mpr hmatches.digest)] at hend
    exact hend.2

/-! ## Before the storage -/

/-- An operation that does not store. -/
def SparesStore (op : StreamOp) : Prop := op.stores = false

/-- A rejection spares the store. -/
theorem respects_reject {before : List StreamCall} (e : StreamError) :
    Respects (fun _ => SparesStore) before (reject e : StreamProgram α) := by
  have hperform : Respects (fun _ => SparesStore) before (perform StreamOp.removeFile) :=
    respects_perform rfl
  have hremove : Respects (fun _ => SparesStore) before removeTemporaryFile :=
    hperform.handle fun _ _ _ => trivial
  exact hremove.andThen fun _ _ _ => trivial

/-- The loop over the chunks spares the store. -/
theorem respects_receiveChunks {contentLength : ℕ} (body : List (Except Unit (List UInt8)))
    (received : ℕ) (hasher : h.State) (before : List StreamCall) :
    Respects (fun _ => SparesStore) before
      (receiveChunks h contentLength body received hasher) := by
  induction body generalizing received hasher before with
  | nil => trivial
  | cons item body ih =>
    cases item with
    | error _ => exact respects_reject _
    | ok chunk =>
      unfold receiveChunks
      dsimp only
      split
      · exact respects_reject _
      · have hwrite : Respects (fun _ => SparesStore) before
            (perform (StreamOp.writeAll chunk)) := respects_perform rfl
        refine hwrite.handle fun calls r _ => ?_
        cases r with
        | error e => exact respects_reject _
        | ok _ => exact ih _ _ _

/-- So does everything before the storing. -/
theorem respects_receivePayload {contentLength : ℕ} :
    Respects (fun _ => SparesStore) [] (receivePayload h u contentLength) := by
  refine (respects_receiveChunks _ _ _ _).andThen fun calls total _ => ?_
  have hflush : Respects (fun _ => SparesStore) ([] ++ calls) (perform StreamOp.flush) :=
    respects_perform rfl
  refine hflush.handle fun calls r _ => ?_
  cases r with
  | error e => exact respects_reject _
  | ok _ =>
    dsimp only
    split
    · exact respects_reject _
    · split
      · exact respects_reject _
      · trivial

/-- The storage begins with a connection from the pool. -/
theorem exists_acquire {a : Admission} {calls : List StreamCall} {r : Except StreamError Unit}
    (hends : Ends (storePayload u.projectId u.contentHash a) calls r) :
    ∃ c ∈ calls, c.op = .storage .acquire := by
  obtain ⟨next, hnext⟩ : ∃ next,
      storePayload u.projectId u.contentHash a = .call (.storage .acquire) next := ⟨_, rfl⟩
  rw [hnext, ends_call_iff] at hends
  obtain ⟨reply, rest, rfl, -⟩ := hends
  exact ⟨_, List.mem_cons_self, rfl⟩

/-! ## The whole upload -/

/-- How an upload ends: before its file is created, while it is received, or while it is stored. -/
theorem ends_putPayloadStream {calls : List StreamCall} {r : Except StreamError Unit}
    (hends : Ends (putPayloadStream h u) calls r) :
    (∀ c ∈ calls, SparesStore c.op ∧ c ≠ ⟨.createFile, .ok ()⟩) ∨
      ∃ a checks rest, u.contentLength = some a.contentLength ∧ (∀ c ∈ checks, IsCheck c.op) ∧
        calls = checks ++ ⟨.createFile, .ok ()⟩ :: rest ∧
          Ends ((receivePayload h u a.contentLength).andThen fun _ =>
            storePayload u.projectId u.contentHash a) rest r := by
  have hcheck {calls : List StreamCall} {r : Except StreamError Admission}
      (h : Ends (checkRequest u) calls r) : ∀ c ∈ calls, IsCheck c.op :=
    respects_checkRequest.forall_mem h
  have hspares {c : StreamCall} (h : IsCheck c.op) : SparesStore c.op ∧ c ≠ ⟨.createFile, .ok ()⟩ :=
    ⟨h.2, fun heq => by
      rw [heq] at h
      cases h.1⟩
  rcases ends_andThen_iff.mp hends with ⟨checks, a, rest, h₁, h₂, rfl⟩ | ⟨e, h₁, -⟩
  · rcases ends_andThen_iff.mp h₂ with ⟨creates, _, rest, h₃, h₄, rfl⟩ | ⟨e, h₃, -⟩
    · obtain ⟨calls₁, r₁, calls₂, h₅, h₆, rfl⟩ := ends_handle_iff.mp h₃
      obtain rfl := ends_perform_iff.mp h₅
      cases r₁ with
      | error e => cases (ends_fail_iff.mp h₆).2
      | ok _ =>
        obtain ⟨rfl, -⟩ := ends_done_iff.mp h₆
        exact .inr ⟨a, checks, rest, contentLength_of_checkRequest h₁, hcheck h₁, rfl, h₄⟩
    · obtain ⟨calls₁, r₁, calls₂, h₅, h₆, rfl⟩ := ends_handle_iff.mp h₃
      obtain rfl := ends_perform_iff.mp h₅
      cases r₁ with
      | error e =>
        obtain ⟨rfl, -⟩ := ends_fail_iff.mp h₆
        refine .inl fun c hc => ?_
        rcases List.mem_append.mp hc with hc | hc
        · exact hspares (hcheck h₁ c hc)
        · rw [List.append_nil, List.mem_singleton] at hc
          subst hc
          exact ⟨rfl, by simp⟩
      | ok _ => cases (ends_done_iff.mp h₆).2
  · exact .inl fun c hc => hspares (hcheck h₁ c hc)

/-- An upload whose file was created is stored exactly when it is what it declares. -/
theorem stores_iff_matches {calls : List StreamCall} {r : Except StreamError Unit}
    (hends : Ends (putPayloadStream h u) calls r) (hwrites : WritesSucceed calls) :
    (u.Matches h ∧ (⟨.createFile, .ok ()⟩ : StreamCall) ∈ calls →
      ∃ c ∈ calls, c.op = .storage .acquire) ∧
    (¬u.Matches h → ∀ c ∈ calls, SparesStore c.op) := by
  rcases ends_putPayloadStream hends with hnone | ⟨a, checks, rest, hlength, hchecks, rfl, hrest⟩
  · exact ⟨fun ⟨_, hcreated⟩ => absurd rfl (hnone _ hcreated).2, fun _ c hc => (hnone c hc).1⟩
  · have hrestWrites : WritesSucceed rest := fun c hc =>
      hwrites c (List.mem_append_right _ (List.mem_cons_of_mem _ hc))
    have hbefore {calls : List StreamCall} (hcalls : ∀ c ∈ calls, SparesStore c.op) :
        ∀ c ∈ checks ++ ⟨.createFile, .ok ()⟩ :: calls, SparesStore c.op := fun c hc => by
      rcases List.mem_append.mp hc with hc | hc
      · exact (hchecks c hc).2
      · rcases List.mem_cons.mp hc with rfl | hc
        · rfl
        · exact hcalls c hc
    rcases ends_andThen_iff.mp hrest with ⟨calls₁, _, calls₂, h₁, h₂, rfl⟩ | ⟨e, h₁, rfl⟩
    · obtain ⟨tail, -, hend⟩ := (ends_receivePayload_iff a.length_le
        fun c hc => hrestWrites c (List.mem_append_left _ hc)).mp h₁
      have hmatches := (receivesAs_ok_iff a.length_le hlength hend).mp rfl
      obtain ⟨c, hc, hop⟩ := exists_acquire h₂
      exact ⟨fun _ => ⟨c, by simp [hc], hop⟩, fun hnot => absurd hmatches hnot⟩
    · obtain ⟨tail, -, hend⟩ := (ends_receivePayload_iff a.length_le hrestWrites).mp h₁
      have hnot : ¬u.Matches h := fun hmatches => by
        have hok := (receivesAs_ok_iff a.length_le hlength hend).mpr hmatches
        cases hok
      exact ⟨fun hm => absurd hm.1 hnot,
        fun _ => hbefore (respects_receivePayload.forall_mem h₁)⟩

/-- Whether a call writes a chunk. -/
def StreamOp.isChunk : StreamOp → Bool
  | .writeAll _ => true
  | _ => false

/-- The calls besides the writes of chunks. -/
def besidesChunks (calls : List StreamCall) : List StreamCall := calls.filter (!·.op.isChunk)

/-- Chunks are no other calls. -/
theorem besidesChunks_map_wroteChunk (chunks : List (List UInt8)) :
    besidesChunks (chunks.map wroteChunk) = [] := by
  simp [besidesChunks, wroteChunk, StreamOp.isChunk]

/-- Chunks that were written have succeeded. -/
theorem writesSucceed_map_wroteChunk (chunks : List (List UInt8)) :
    WritesSucceed (chunks.map wroteChunk) := by
  intro c hc _ hfailed
  obtain ⟨chunk, -, rfl⟩ := List.mem_map.mp hc
  obtain ⟨e, he⟩ := hfailed
  cases he

/-- The calls besides the chunks, in two parts. -/
theorem besidesChunks_append (calls calls' : List StreamCall) :
    besidesChunks (calls ++ calls') = besidesChunks calls ++ besidesChunks calls' :=
  List.filter_append ..

/-- Writes in two parts succeed when both do. -/
theorem WritesSucceed.append {calls calls' : List StreamCall} (h : WritesSucceed calls)
    (h' : WritesSucceed calls') : WritesSucceed (calls ++ calls') := fun c hc =>
  (List.mem_append.mp hc).elim (h c) (h' c)

/-- Writes that succeed do so in each part. -/
theorem WritesSucceed.of_append {calls calls' : List StreamCall}
    (h : WritesSucceed (calls ++ calls')) : WritesSucceed calls ∧ WritesSucceed calls' :=
  ⟨fun c hc => h c (List.mem_append_left _ hc), fun c hc => h c (List.mem_append_right _ hc)⟩

/-- What a program calls besides the writes of chunks, and how it ends, another does too. -/
def Mimics (x y : StreamProgram α) : Prop :=
  ∀ calls r, Ends x calls r → WritesSucceed calls →
    ∃ calls', Ends y calls' r ∧ WritesSucceed calls' ∧ besidesChunks calls' = besidesChunks calls

/-- A program mimics itself. -/
theorem mimics_refl (x : StreamProgram α) : Mimics x x := fun calls _ h hwrites =>
  ⟨calls, h, hwrites, rfl⟩

/-- Programs that mimic others do so one after the other. -/
theorem Mimics.andThen {β : Type} {x y : StreamProgram α} {f g : α → StreamProgram β}
    (hx : Mimics x y) (hf : ∀ a calls, Ends x calls (.ok a) → Mimics (f a) (g a)) :
    Mimics (x.andThen f) (y.andThen g) := by
  intro calls r hends hwrites
  rcases ends_andThen_iff.mp hends with ⟨calls₁, a, calls₂, h₁, h₂, rfl⟩ | ⟨e, h₁, rfl⟩
  · obtain ⟨hwrites₁, hwrites₂⟩ := hwrites.of_append
    obtain ⟨calls₁', h₁', hwrites₁', hsame₁⟩ := hx calls₁ _ h₁ hwrites₁
    obtain ⟨calls₂', h₂', hwrites₂', hsame₂⟩ := hf a calls₁ h₁ calls₂ r h₂ hwrites₂
    refine ⟨calls₁' ++ calls₂', ends_andThen_iff.mpr (.inl ⟨_, a, _, h₁', h₂', rfl⟩),
      hwrites₁'.append hwrites₂', ?_⟩
    rw [besidesChunks_append, besidesChunks_append, hsame₁, hsame₂]
  · obtain ⟨calls', h', hwrites', hsame⟩ := hx calls _ h₁ hwrites
    exact ⟨calls', ends_andThen_iff.mpr (.inr ⟨e, h', rfl⟩), hwrites', hsame⟩

/-- Another cut of the same body is received with the same calls besides the writes of chunks. -/
theorem mimics_receivePayload {body : List (Except Unit (List UInt8))} {contentLength : ℕ}
    (hmax : contentLength ≤ maxPayloadUpload) (hbytes : (chunksOf body).flatten = u.bytes)
    (hcomplete : endsWell body = endsWell u.body) :
    Mimics (receivePayload h u contentLength)
      (receivePayload h { u with body := body } contentLength) := by
  intro calls r hends hwrites
  obtain ⟨tail, rfl, hend⟩ := (ends_receivePayload_iff hmax hwrites).mp hends
  have hwrites' := (writesSucceed_map_wroteChunk (writtenChunks contentLength body 0)).append
    hwrites.of_append.2
  refine ⟨_, (ends_receivePayload_iff hmax hwrites').mpr ⟨tail, rfl, ?_⟩, hwrites', ?_⟩
  · have hsame : ({ u with body := body } : StreamedUpload).bytes = u.bytes := hbytes
    rw [hsame]
    dsimp only
    rwa [hcomplete]
  · rw [besidesChunks_append, besidesChunks_append, besidesChunks_map_wroteChunk,
      besidesChunks_map_wroteChunk]

/-- Another cut of the same body has an upload with the same calls besides the writes of chunks. -/
theorem mimics_putPayloadStream {body : List (Except Unit (List UInt8))}
    (hbytes : (chunksOf body).flatten = u.bytes) (hcomplete : endsWell body = endsWell u.body) :
    Mimics (putPayloadStream h u) (putPayloadStream h { u with body := body }) :=
  Mimics.andThen (mimics_refl (checkRequest u)) fun a _ _ =>
    Mimics.andThen (mimics_refl _) fun _ _ _ =>
      Mimics.andThen (mimics_receivePayload a.length_le hbytes hcomplete) fun _ _ _ =>
        mimics_refl (storePayload u.projectId u.contentHash a)

/-- At every end the file is gone, and what was sent is the declared body. -/
theorem triple_putPayloadStream :
    Triple StreamStep (FileGone []) (putPayloadStream h u) fun _ s =>
      s.file = none ∧ ∀ b ∈ s.sent, b = u.bytes ∧ u.Matches h := by
  have hgone {s : StreamWorld} (hs : FileGone [] s) :
      s.file = none ∧ ∀ b ∈ s.sent, b = u.bytes ∧ u.Matches h := ⟨hs.1, by rw [hs.2]; simp⟩
  have hcheck : Triple StreamStep (FileGone []) (checkRequest u) fun r s =>
      FileGone [] s ∧ ∀ a, r = .ok a → u.contentLength = some a.contentLength := by
    intro s calls r s' hs hends hperforms
    refine ⟨triple_of_respects (fun _ hop _ _ _ hs hstep =>
      (hstep.eq_of_isElsewhere hop.1).symm ▸ hs) respects_checkRequest s calls r s' hs hends
        hperforms, ?_⟩
    rintro a rfl
    exact contentLength_of_checkRequest hends
  refine hcheck.andThen (fun a => ?_) fun _ s hs => hgone hs.1
  refine Triple.andThen (R := fun r s => match r with
    | .ok _ => FileHolds [] [] s ∧ u.contentLength = some a.contentLength
    | .error _ => FileGone [] s) ?_ (fun _ => ?_) fun _ s hs => hgone hs
  · refine Triple.handle (R := fun r s => match r with
      | .ok _ => FileHolds [] [] s ∧ u.contentLength = some a.contentLength
      | .error _ => FileGone [] s) ?_ fun r => ?_
    · refine triple_perform fun s r s' hs hstep => ?_
      cases hstep with
      | created => exact ⟨⟨rfl, hs.1.2⟩, hs.2 a rfl⟩
      | notCreated => exact hs.1
      | elsewhere hnot => cases hnot
    · cases r with
      | ok _ => exact triple_done fun _ hs => hs
      | error _ => exact triple_fail fun _ hs => hs
  · intro s calls r s' hs hends hperforms
    refine Triple.andThen (Q := fun _ s => s.file = none ∧ ∀ b ∈ s.sent, b = u.bytes ∧ u.Matches h)
      triple_receivePayload (fun _ => ?_) (fun _ s hs => hgone hs) s calls r s' hs.1 hends hperforms
    intro t calls r t' ht hends hperforms
    obtain ⟨hcomplete, hlength, hdigest, hfile⟩ := ht
    obtain ⟨hnone, hsent⟩ := triple_storePayload a t calls r t' hfile hends hperforms
    have hmatches : u.Matches h :=
      ⟨hcomplete, by rw [hs.2, hlength], hlength ▸ a.length_le, hdigest⟩
    exact ⟨hnone, fun b hb => ⟨hsent b hb, hmatches⟩⟩

end

/-- What an upload does with the chunks of its body, in every execution. -/
structure StreamsFaithfully (h : Hasher) (u : StreamedUpload) : Prop where
  /-- Once its file is created, an upload goes on to store exactly what is as it was declared. -/
  stores : ∀ calls r, Ends (putPayloadStream h u) calls r → WritesSucceed calls →
    (⟨.createFile, .ok ()⟩ : StreamCall) ∈ calls →
      ((∃ c ∈ calls, c.op = .storage .acquire) ↔ u.Matches h)
  /-- Otherwise neither the object store nor the database is called. -/
  spares : ∀ calls r, Ends (putPayloadStream h u) calls r → WritesSucceed calls → ¬u.Matches h →
    ∀ c ∈ calls, c.op.stores = false
  /-- With another cut of the same body there is an execution with the same result and the same
  calls besides the writes of chunks. -/
  independent : ∀ body, (chunksOf body).flatten = u.bytes → endsWell body = endsWell u.body →
    ∀ calls r, Ends (putPayloadStream h u) calls r → WritesSucceed calls →
      ∃ calls', Ends (putPayloadStream h { u with body := body }) calls' r ∧
        WritesSucceed calls' ∧ besidesChunks calls' = besidesChunks calls
  /-- At every end the temporary file is gone, and all that was sent is the declared body. -/
  removed : ∀ calls r s, Ends (putPayloadStream h u) calls r →
    Performs StreamStep ⟨none, []⟩ calls s →
    s.file = none ∧ ∀ b ∈ s.sent, b = u.bytes ∧ u.Matches h

/-- Uploads do not depend on how their bodies are cut. -/
theorem payload_streams_faithful (h : Hasher) (u : StreamedUpload) : StreamsFaithfully h u where
  stores calls r hends hwrites hcreated := by
    obtain ⟨hstores, hspares⟩ := stores_iff_matches hends hwrites
    refine ⟨fun ⟨c, hc, hop⟩ => ?_, fun hmatches => hstores ⟨hmatches, hcreated⟩⟩
    by_contra hnot
    have hspared : c.op.stores = false := hspares hnot c hc
    rw [hop] at hspared
    cases hspared
  spares _ _ hends hwrites hnot := (stores_iff_matches hends hwrites).2 hnot
  independent _ hbytes hcomplete calls r hends hwrites :=
    mimics_putPayloadStream hbytes hcomplete calls r hends hwrites
  removed calls r s hends hperforms :=
    triple_putPayloadStream ⟨none, []⟩ calls r s ⟨rfl, rfl⟩ hends hperforms

/-! ## A sample -/

/-- SHA-256 with the bytes so far as its state. -/
def sha256Hasher : Hasher where
  State := List UInt8
  new := []
  update state bytes := state ++ bytes
  finalize state := Sha2.hex (Sha2.digest state)
  sha256 bytes := Sha2.hex (Sha2.digest bytes)
  finalize_update pieces := by
    have hfold (state : List UInt8) :
        pieces.foldl (fun state bytes => state ++ bytes) state = state ++ pieces.flatten := by
      induction pieces generalizing state with
      | nil => simp
      | cons piece pieces ih => rw [List.foldl_cons, ih, List.flatten_cons, List.append_assoc]
    rw [hfold, List.nil_append]

/-- An upload of three bytes in two chunks, with an empty one between them. -/
def sampleStream : StreamedUpload where
  projectId := 2
  contentHash := "ba7816bf8f01cfea414140de5dae2223b00361a396177a9cb410ff61f20015ad"
  contentLength := some 3
  contentType := some "text/markdown"
  body := [.ok [0x61], .ok [], .ok [0x62, 0x63]]

/-- The sample body matches its headers. -/
theorem sampleStream_matches : sampleStream.Matches sha256Hasher where
  complete := rfl
  length_eq := rfl
  length_le := by decide
  digest := by decide +kernel

/-- The sample is what it declares, and its upload is faithful. -/
theorem payload_streams_sample :
    sampleStream.Matches sha256Hasher ∧ StreamsFaithfully sha256Hasher sampleStream :=
  ⟨sampleStream_matches, payload_streams_faithful sha256Hasher sampleStream⟩

end TaskTipsCloud

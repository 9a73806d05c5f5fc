import TaskTipsCloud.AccountPurges
import TaskTipsCloud.Auth
import TaskTipsCloud.Library.Serial
import TaskTipsCloud.Library.Traces

/-!
# Re-authentication nonces

An administrator who has entered the password again gets a nonce, and a request to purge an account
spends it: one transaction consumes the nonce, and when it did, a second one asks for the purge. The
transactions on nonces interleave statement by statement; those on accounts are served one after the
other. The check that an administrator is active is a transaction of its own before each call.
-/

namespace TaskTipsCloud

open Txn

/-- A row of `admin_reauth_nonces`. -/
structure ReauthNonce where
  nonceHash : TokenHash
  userId : Uuid
  deviceId : Uuid
  expiresAt : Timestamp
  deriving DecidableEq, Repr

/-- The table of the nonces. -/
structure NonceDb where
  nonces : List ReauthNonce
  deriving DecidableEq, Repr

/-- The locks of the nonces: of a row, and of a hash in the primary key. -/
inductive NonceLock where
  | nonce (nonceHash : TokenHash)
  deriving DecidableEq, Repr

/-- The transactions on nonces. -/
abbrev NonceTx := Txn NonceDb NonceLock PersistenceError

/-! ## Statements -/

/-- The hashes of the nonces that satisfy `p`. -/
def NonceDb.hashesOf (d : NonceDb) (p : ReauthNonce → Bool) : List TokenHash :=
  (d.nonces.filter p).map (·.nonceHash)

/-- The table without the nonces that satisfy `p`. -/
def NonceDb.without (d : NonceDb) (p : ReauthNonce → Bool) : NonceDb :=
  { d with nonces := d.nonces.filter fun x => !p x }

/-- Waits for the locks of some nonces. -/
def lockNonces : List TokenHash → NonceTx Unit
  | [] => return
  | nonceHash :: hashes => do
    acquire (.nonce nonceHash)
    lockNonces hashes

/-- `DELETE FROM admin_reauth_nonces WHERE p`. A chosen row that is gone once it is locked is
skipped; the hashes of the deleted rows are returned. -/
def deleteNonces (order : LockOrder) (p : ReauthNonce → Bool) : NonceTx (List TokenHash) := do
  let hashes ← query (·.hashesOf p)
  lockNonces (order.arrange hashes)
  let chosen (x : ReauthNonce) : Bool := hashes.contains x.nonceHash && p x
  let deleted ← query (·.hashesOf chosen)
  modify (·.without chosen)
  return deleted

/-! ## Operations -/

/-- Stores a new nonce, and removes those that have expired. -/
def createReauthNonce (now : Timestamp) (order : LockOrder) (actorUserId deviceId : Uuid)
    (nonceHash : TokenHash) (expiresAt : Timestamp) : NonceTx (Except PersistenceError Unit) := do
  let _ ← deleteNonces order fun x => x.expiresAt ≤ now
  acquire (.nonce nonceHash)
  let isNew ← query fun d => d.nonces.all (·.nonceHash != nonceHash)
  require isNew .conflict
  modify fun d => { d with nonces := d.nonces ++
    [{ nonceHash := nonceHash, userId := actorUserId, deviceId := deviceId,
       expiresAt := expiresAt }] }
  return .ok ()

/-- Consumes a nonce of an administrator on a device. -/
def consumeReauthNonce (now : Timestamp) (order : LockOrder) (actorUserId deviceId : Uuid)
    (nonceHash : TokenHash) : NonceTx (Except PersistenceError Bool) := do
  let deleted ← deleteNonces order fun x => x.nonceHash == nonceHash &&
    x.userId == actorUserId && x.deviceId == deviceId && now < x.expiresAt
  return .ok (deleted.length == 1)

/-- Removes the nonces of an administrator on a device. -/
def revokeReauthNonces (order : LockOrder) (actorUserId deviceId : Uuid) :
    NonceTx (Except PersistenceError Unit) := do
  let _ ← deleteNonces order fun x => x.userId == actorUserId && x.deviceId == deviceId
  return .ok ()

/-! ## The service of the nonces -/

/-- A request to purge an account, with the administrator and the device of its access token. -/
structure PurgeAccountRequest where
  actorUserId : Uuid
  deviceId : Uuid
  nonceHash : TokenHash
  subjectUserId : Uuid
  exportId : Option Uuid
  confirmed : Bool
  reason : String
  requestId : String
  deriving DecidableEq, Repr

/-- A confirmation names an export, and only a confirmation does. -/
def validateAccountPurgePhase (exportId : Option Uuid) (confirmed : Bool) : Bool :=
  confirmed == exportId.isSome

/-- A call on nonces. -/
inductive NonceCall where
  | createReauthNonce (order : LockOrder) (actorUserId deviceId : Uuid) (nonceHash : TokenHash)
      (expiresAt : Timestamp)
  | consumeReauthNonce (order : LockOrder) (request : PurgeAccountRequest)
  | revokeReauthNonces (order : LockOrder) (actorUserId deviceId : Uuid)

/-- What such a call returns. -/
inductive NonceReply where
  | done
  | consumed (consumed : Bool)
  deriving DecidableEq, Repr

/-- A call with the time at which its transaction starts. -/
structure NonceRequest where
  now : Timestamp
  call : NonceCall

/-- The administrator that makes a call. -/
def NonceCall.actorUserId : NonceCall → Uuid
  | .createReauthNonce _ actorUserId _ _ _ => actorUserId
  | .consumeReauthNonce _ request => request.actorUserId
  | .revokeReauthNonces _ actorUserId _ => actorUserId

/-- A transaction whose value is returned as a reply. -/
def onNonces {α : Type} (reply : α → NonceReply) (x : NonceTx (Except PersistenceError α)) :
    NonceTx (Except PersistenceError NonceReply) :=
  x.bind fun r => .pure (r.map reply)

/-- The transaction of a call. -/
def NonceCall.body (now : Timestamp) :
    NonceCall → NonceTx (Except PersistenceError NonceReply)
  | .createReauthNonce order actorUserId deviceId nonceHash expiresAt =>
    onNonces (fun _ => .done)
      (TaskTipsCloud.createReauthNonce now order actorUserId deviceId nonceHash expiresAt)
  | .consumeReauthNonce order request =>
    onNonces .consumed (TaskTipsCloud.consumeReauthNonce now order request.actorUserId
      request.deviceId request.nonceHash)
  | .revokeReauthNonces order actorUserId deviceId =>
    onNonces (fun _ => .done) (TaskTipsCloud.revokeReauthNonces order actorUserId deviceId)

/-- The service of the nonces. -/
def nonceService : Service NonceDb NonceLock PersistenceError NonceReply NonceRequest where
  body q := q.call.body q.now
  time q := q.now
  Allowed _ := True

/-- A call that finished. -/
abbrev NonceEvent := Event NonceDb PersistenceError NonceReply NonceRequest

/-- A finished call with its trace. -/
abbrev NonceRecord := Record NonceDb NonceLock PersistenceError NonceReply NonceRequest

/-! ## The service of the administrators -/

/-- The call that a request makes once its nonce is consumed. -/
def PurgeAccountRequest.purgeCall (request : PurgeAccountRequest) (jobId newExportId : Uuid) :
    PurgeCall :=
  match request.exportId with
  | some exportId =>
    .confirmAccountPurge request.actorUserId request.subjectUserId exportId jobId request.reason
      request.requestId
  | none =>
    .requestAccountPurgeExport request.actorUserId request.subjectUserId jobId newExportId
      request.reason request.requestId

/-- A call that only a request to purge an account makes. -/
def PurgeCall.isAccountRequest : PurgeCall → Bool
  | .requestAccountPurgeExport .. | .confirmAccountPurge .. => true
  | _ => false

/-- A call on accounts or projects that was served, and the consumption that authorised it. -/
structure AdminEntry where
  ticket : Option ℕ
  event : PurgeEvent

/-- The nonces with the calls on them, the accounts with theirs, and the administrators that were
found active. -/
structure AdminWorld where
  nonces : World NonceDb NonceLock PersistenceError NonceReply NonceRequest
  purges : PurgeDb
  verified : List Uuid
  entries : List AdminEntry

/-- A call on nonces may start: its administrator is verified, and the arguments of a request to
purge an account are valid. -/
def NonceCall.mayStart (verified : List Uuid) (call : NonceCall) : Bool :=
  verified.contains call.actorUserId &&
    match call with
    | .consumeReauthNonce _ request =>
      validateAccountPurgePhase request.exportId request.confirmed
    | _ => true

/-- One step of the administrators and everyone else. -/
inductive AdminStep (host : Host) (w : AdminWorld) : AdminWorld → Prop
  /-- An administrator is found active. -/
  | verify (actorUserId : Uuid)
      (hadmin : ∃ d, (requireAdmin actorUserId).run w.purges.sync = (.ok (), d)) :
      AdminStep host w { w with verified := actorUserId :: w.verified }
  /-- A call on nonces goes on. -/
  | nonces (n : World NonceDb NonceLock PersistenceError NonceReply NonceRequest)
      (hstep : nonceService.Step w.nonces n)
      (hstart : ∀ i s, n.live i = some s → w.nonces.live i = none →
        s.request.call.mayStart w.verified = true) :
      AdminStep host w { w with nonces := n }
  /-- A request whose nonce was consumed asks for its purge. -/
  | authorised (k : ℕ) (e : NonceEvent) (order : LockOrder) (request : PurgeAccountRequest)
      (jobId newExportId : Uuid) (hk : w.nonces.history[k]? = some e)
      (hcall : e.request.call = .consumeReauthNonce order request)
      (hresult : e.result = .ok (.consumed true)) (hnew : ∀ x ∈ w.entries, x.ticket ≠ some k) :
      AdminStep host w { w with
        purges := ((purgeService host).alone
          ⟨w.nonces.clock, request.purgeCall jobId newExportId⟩ w.purges).after
        entries := w.entries ++ [⟨some k, (purgeService host).alone
          ⟨w.nonces.clock, request.purgeCall jobId newExportId⟩ w.purges⟩] }
  /-- Another call on accounts or projects. -/
  | other (call : PurgeCall) (hcall : call.isAccountRequest = false) :
      AdminStep host w { w with
        purges := ((purgeService host).alone ⟨w.nonces.clock, call⟩ w.purges).after
        entries := w.entries ++
          [⟨none, (purgeService host).alone ⟨w.nonces.clock, call⟩ w.purges⟩] }

/-- A world that the administrators can reach, from a database without nonces. -/
def AdminReachable (host : Host) (d : PurgeDb) (t : ℤ) (w : AdminWorld) : Prop :=
  Relation.ReflTransGen (AdminStep host) ⟨Service.quiet ⟨[]⟩ t, d, [], []⟩ w

end TaskTipsCloud

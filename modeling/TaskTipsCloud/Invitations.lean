import TaskTipsCloud.Auth
import TaskTipsCloud.Library.Serial

/-!
# Invitations

An administrator invites an address: the account waits in the state `pending` until the token of the
invitation activates it. The calls are served one after the other here, so row locks are left out;
so are the audit events and the times of the last login.
-/

namespace TaskTipsCloud

open Txn

/-- A row of `users`, with the columns that invitations use. -/
structure AccountRow extends UserRow where
  emailNormalized : String
  emailDisplay : String
  passwordHash : String
  deriving DecidableEq, Repr

/-- A row of `invitations`. -/
structure InvitationRow where
  id : Uuid
  emailNormalized : String
  emailDisplay : String
  tokenHash : TokenHash
  expiresAt : Timestamp
  usedAt : Option Timestamp
  revokedAt : Option Timestamp
  deriving DecidableEq, Repr

/-- The tables that invitations use. -/
structure InviteDb where
  accounts : List AccountRow
  invitations : List InvitationRow
  devices : List DeviceRow
  refreshTokens : List RefreshToken
  deriving DecidableEq, Repr

/-- The transactions on these tables. -/
abbrev InviteTx := Txn InviteDb AuthLock PersistenceError

/-- An invitation that is to be created. -/
structure NewInvitation where
  emailNormalized : String
  emailDisplay : String
  tokenHash : TokenHash
  expiresAt : Timestamp
  deriving DecidableEq, Repr

/-- What the creation of an invitation returns. -/
structure InvitationRecord where
  id : Uuid
  email : String
  expiresAt : Timestamp
  deriving DecidableEq, Repr

/-- What an activation returns. -/
structure ActivatedSession where
  user : AccountRow
  deviceId : Uuid
  familyId : Uuid
  deriving DecidableEq, Repr

/-- The record of an invitation. -/
def InvitationRow.record (x : InvitationRow) : InvitationRecord :=
  { id := x.id, email := x.emailDisplay, expiresAt := x.expiresAt }

namespace InviteDb

/-- The account with an identifier. -/
def account (d : InviteDb) (userId : Uuid) : Option AccountRow :=
  d.accounts.find? (·.id == userId)

/-- The account of an address. -/
def accountOf (d : InviteDb) (email : String) : Option AccountRow :=
  d.accounts.find? (·.emailNormalized == email)

/-- The invitation of an address. -/
def invitationOf (d : InviteDb) (email : String) : Option InvitationRow :=
  d.invitations.find? (·.emailNormalized == email)

/-- Applies `f` to the accounts that satisfy `p`. -/
def updateAccounts (d : InviteDb) (p : AccountRow → Bool) (f : AccountRow → AccountRow) :
    InviteDb :=
  { d with accounts := updateWhere p f d.accounts }

/-- Applies `f` to the invitations that satisfy `p`. -/
def updateInvitations (d : InviteDb) (p : InvitationRow → Bool)
    (f : InvitationRow → InvitationRow) : InviteDb :=
  { d with invitations := updateWhere p f d.invitations }

/-- Applies `f` to the tokens that satisfy `p`. -/
def updateTokens (d : InviteDb) (p : RefreshToken → Bool) (f : RefreshToken → RefreshToken) :
    InviteDb :=
  { d with refreshTokens := updateWhere p f d.refreshTokens }

end InviteDb

/-! ## Statements -/

namespace Invitations

/-- An active administrator. -/
def requireAdmin (actorUserId : Uuid) : InviteTx Unit := do
  let isAdmin ← query fun d => (d.account actorUserId).any fun u =>
    u.role == .systemAdmin && u.status == .active
  require isAdmin .adminRequired

/-- `INSERT INTO users ... ON CONFLICT (email_normalized) DO UPDATE` of a pending account. -/
def upsertPendingAccount (userId : Uuid) (invitation : NewInvitation) : InviteTx Unit := do
  match ← query (·.accountOf invitation.emailNormalized) with
  | some _ =>
    modify (·.updateAccounts (·.emailNormalized == invitation.emailNormalized) fun u =>
      { u with emailDisplay := invitation.emailDisplay })
  | none =>
    let isNew ← query fun d => (d.account userId).isNone
    require isNew (.database .uniqueViolation)
    modify fun d => { d with accounts := d.accounts ++
      [{ id := userId, role := .user, status := .pending,
         emailNormalized := invitation.emailNormalized, emailDisplay := invitation.emailDisplay,
         passwordHash := "" }] }

/-- `INSERT INTO invitations ... ON CONFLICT (email_normalized) DO UPDATE`: the invitation of an
address gets a new token, and is neither used nor revoked any more. -/
def upsertInvitation (invitationId : Uuid) (invitation : NewInvitation) :
    InviteTx InvitationRecord := do
  match ← query (·.invitationOf invitation.emailNormalized) with
  | some x =>
    let isNew ← query fun d => d.invitations.all fun y =>
      y.emailNormalized == invitation.emailNormalized || y.tokenHash != invitation.tokenHash
    require isNew (.database .uniqueViolation)
    modify (·.updateInvitations (·.emailNormalized == invitation.emailNormalized) fun y =>
      { y with tokenHash := invitation.tokenHash, emailDisplay := invitation.emailDisplay,
               expiresAt := invitation.expiresAt, usedAt := none, revokedAt := none })
    return { id := x.id, email := invitation.emailDisplay, expiresAt := invitation.expiresAt }
  | none =>
    let isNew ← query fun d => d.invitations.all fun y =>
      y.id != invitationId && y.tokenHash != invitation.tokenHash
    require isNew (.database .uniqueViolation)
    modify fun d => { d with invitations := d.invitations ++
      [{ id := invitationId, emailNormalized := invitation.emailNormalized,
         emailDisplay := invitation.emailDisplay, tokenHash := invitation.tokenHash,
         expiresAt := invitation.expiresAt, usedAt := none, revokedAt := none }] }
    return { id := invitationId, email := invitation.emailDisplay,
             expiresAt := invitation.expiresAt }

/-- The device of an activation, which is created when it is new. -/
def ensureDevice (userId deviceId : Uuid) : InviteTx Unit := do
  match ← query fun d => d.devices.find? (·.id == deviceId) with
  | some device =>
    require (device.ownerUserId == userId) .notFound
    require device.revokedAt.isNone .deviceRevoked
  | none =>
    modify fun d => { d with devices := d.devices ++
      [{ id := deviceId, ownerUserId := userId, lastPullAt := none, lastPushAt := none,
         revokedAt := none }] }

/-- Inserts the first refresh token of an activation. -/
def insertRefresh (userId deviceId : Uuid) (refresh : NewRefreshToken) : InviteTx Unit := do
  let isNew ← query fun d => d.refreshTokens.all (·.tokenHash != refresh.tokenHash)
  require isNew (.database .uniqueViolation)
  modify fun d => { d with refreshTokens := d.refreshTokens ++
    [{ userId := userId, deviceId := deviceId, tokenHash := refresh.tokenHash,
       familyId := refresh.familyId, expiresAt := refresh.expiresAt, usedAt := none,
       revokedAt := none }] }

/-! ## Operations -/

/-- Invites an address whose account is not there, or waits for its activation. -/
def createInvitation (actorUserId userId invitationId : Uuid) (invitation : NewInvitation) :
    InviteTx (Except PersistenceError InvitationRecord) := do
  requireAdmin actorUserId
  let existing ← query (·.accountOf invitation.emailNormalized)
  require (existing.all (·.status == .pending)) .conflict
  upsertPendingAccount userId invitation
  let record ← upsertInvitation invitationId invitation
  return .ok record

/-- Revokes an invitation that was not used. -/
def adminRevokeInvitation (now : Timestamp) (actorUserId invitationId : Uuid) :
    InviteTx (Except PersistenceError Unit) := do
  requireAdmin actorUserId
  let open_ (x : InvitationRow) : Bool :=
    x.id == invitationId && x.usedAt.isNone && x.revokedAt.isNone
  let found ← query (·.invitations.any open_)
  require found .notFound
  modify (·.updateInvitations open_ fun x => { x with revokedAt := some now })
  return .ok ()

/-- Issues a new token for an invitation that was not used. -/
def adminResendInvitation (actorUserId invitationId : Uuid) (tokenHash : TokenHash)
    (expiresAt : Timestamp) : InviteTx (Except PersistenceError InvitationRecord) := do
  requireAdmin actorUserId
  let unused (x : InvitationRow) : Bool := x.id == invitationId && x.usedAt.isNone
  let found ← query (·.invitations.find? unused)
  let found ← orThrow .notFound found
  let isNew ← query fun d => d.invitations.all fun y =>
    y.id == invitationId || y.tokenHash != tokenHash
  require isNew (.database .uniqueViolation)
  modify (·.updateInvitations unused fun x =>
    { x with tokenHash := tokenHash, expiresAt := expiresAt, revokedAt := none })
  return .ok { id := found.id, email := found.emailDisplay, expiresAt := expiresAt }

/-- Activates the pending account of an invitation, and starts its first session. -/
def activateInvitation (now utcNow : Timestamp) (tokenHash : TokenHash) (passwordHash : String)
    (deviceId : Uuid) (refresh : NewRefreshToken) :
    InviteTx (Except PersistenceError ActivatedSession) := do
  let invitation ← query (·.invitations.find? (·.tokenHash == tokenHash))
  let invitation ← orThrow .invalidInvitation invitation
  require (invitation.usedAt.isNone && invitation.revokedAt.isNone &&
    utcNow < invitation.expiresAt) .invalidInvitation
  let pending (u : AccountRow) : Bool :=
    u.emailNormalized == invitation.emailNormalized && u.status == .pending
  let activated (u : AccountRow) : AccountRow :=
    { u with passwordHash := passwordHash, status := .active }
  let user ← query (·.accounts.find? pending)
  let user ← orThrow .invalidInvitation user
  modify (·.updateAccounts pending activated)
  modify (·.updateInvitations (·.id == invitation.id) fun x => { x with usedAt := some now })
  ensureDevice user.id deviceId
  insertRefresh user.id deviceId refresh
  return .ok { user := activated user, deviceId := deviceId, familyId := refresh.familyId }

/-- Disables or enables an account, among the accounts with their addresses. -/
def adminSetAccountStatus (now : Timestamp) (actorUserId subjectUserId : Uuid)
    (status : AccountStatus) : InviteTx (Except PersistenceError Unit) := do
  requireAdmin actorUserId
  let user ← query (·.account subjectUserId)
  let user ← orThrow .notFound user
  require (allowedTransition user.status status) .invalidAccountTransition
  modify (·.updateAccounts (·.id == subjectUserId) fun u => { u with status := status })
  if status != .active then
    modify (·.updateTokens (·.userId == subjectUserId) (·.revoked now))
    return .ok ()
  else return .ok ()

end Invitations

/-! ## The service -/

/-- A call with its arguments. -/
inductive InviteCall where
  | createInvitation (actorUserId userId invitationId : Uuid) (invitation : NewInvitation)
  | adminRevokeInvitation (actorUserId invitationId : Uuid)
  | adminResendInvitation (actorUserId invitationId : Uuid) (tokenHash : TokenHash)
      (expiresAt : Timestamp)
  | activateInvitation (tokenHash : TokenHash) (passwordHash : String) (deviceId : Uuid)
      (refresh : NewRefreshToken)
  | adminSetAccountStatus (actorUserId subjectUserId : Uuid) (status : AccountStatus)

/-- What a call returns. -/
inductive InviteReply where
  | invitation (record : InvitationRecord)
  | session (session : ActivatedSession)
  | done
  deriving DecidableEq, Repr

/-- A call with the time at which its transaction starts, and the time that its program reads. -/
structure InviteRequest where
  now : Timestamp
  utcNow : Timestamp
  call : InviteCall

/-- A transaction whose value is returned as a reply. -/
def inviting {α : Type} (reply : α → InviteReply) (x : InviteTx (Except PersistenceError α)) :
    InviteTx (Except PersistenceError InviteReply) :=
  x.bind fun r => .pure (r.map reply)

/-- The transaction of a call. -/
def InviteCall.body (now utcNow : Timestamp) :
    InviteCall → InviteTx (Except PersistenceError InviteReply)
  | .createInvitation actorUserId userId invitationId invitation =>
    inviting .invitation
      (Invitations.createInvitation actorUserId userId invitationId invitation)
  | .adminRevokeInvitation actorUserId invitationId =>
    inviting (fun _ => .done) (Invitations.adminRevokeInvitation now actorUserId invitationId)
  | .adminResendInvitation actorUserId invitationId tokenHash expiresAt =>
    inviting .invitation
      (Invitations.adminResendInvitation actorUserId invitationId tokenHash expiresAt)
  | .activateInvitation tokenHash passwordHash deviceId refresh =>
    inviting .session
      (Invitations.activateInvitation now utcNow tokenHash passwordHash deviceId refresh)
  | .adminSetAccountStatus actorUserId subjectUserId status =>
    inviting (fun _ => .done)
      (Invitations.adminSetAccountStatus now actorUserId subjectUserId status)

/-- The service: every call may be made at any time. -/
def inviteService : Service InviteDb AuthLock PersistenceError InviteReply InviteRequest where
  body q := q.call.body q.now q.utcNow
  time q := q.now
  Allowed _ := True

/-- A call that finished. -/
abbrev InviteEvent := Event InviteDb PersistenceError InviteReply InviteRequest

end TaskTipsCloud

import TaskTipsCloud.Schema

/-!
# Login sessions

The operations on refresh tokens: a login, the rotation of a token, and the five operations that
revoke tokens. They run on their own tables, under the role `tasktips_auth` or as the user, and each
`UPDATE` of several rows is written as PostgreSQL executes it: it chooses its rows on the snapshot
of its start, waits for their locks one after the other, and checks its condition on each row again.
The audit events are left out; they refer to users that are there.
-/

namespace TaskTipsCloud

open Txn

/-- The digest of a refresh token. -/
abbrev TokenHash := List UInt8

/-- A row of `refresh_tokens`. -/
structure RefreshToken where
  userId : Uuid
  deviceId : Uuid
  tokenHash : TokenHash
  familyId : Uuid
  expiresAt : Timestamp
  usedAt : Option Timestamp
  revokedAt : Option Timestamp
  deriving DecidableEq, Repr

/-- The tables of accounts, devices and refresh tokens. -/
structure AuthDb where
  users : List UserRow
  devices : List DeviceRow
  refreshTokens : List RefreshToken
  deriving DecidableEq, Repr

/-- What a transaction on these tables locks. -/
inductive AuthLock where
  | user (userId : Uuid)
  | device (deviceId : Uuid)
  | refreshToken (tokenHash : TokenHash)
  deriving DecidableEq, Repr

/-- The transactions on these tables. -/
abbrev AuthTx := Txn AuthDb AuthLock PersistenceError

/-- A refresh token that is to be inserted. -/
structure NewRefreshToken where
  tokenHash : TokenHash
  familyId : Uuid
  expiresAt : Timestamp
  deriving DecidableEq, Repr

/-- The session that a login or a rotation returns. -/
structure SessionRecord where
  user : UserRow
  deviceId : Uuid
  familyId : Uuid
  deriving DecidableEq, Repr

/-- How long a used token may be presented again, by a client that rotates it twice at a time. -/
def refreshRotationGrace : Timestamp := seconds 30

/-- How many members of a family may be active. -/
def refreshFamilyActiveLimit : ℕ := 4

namespace RefreshToken

/-- A token that was rotated or revoked. -/
def isSpent (t : RefreshToken) : Bool := t.usedAt.isSome || t.revokedAt.isSome

/-- A token that can be rotated. -/
def isActive (t : RefreshToken) (now : Timestamp) : Bool := !t.isSpent && t.expiresAt > now

/-- A token that was revoked, now or before. -/
def revoked (t : RefreshToken) (now : Timestamp) : RefreshToken :=
  { t with revokedAt := some (t.revokedAt.getD now) }

/-- A token that was rotated. -/
def used (t : RefreshToken) (now : Timestamp) : RefreshToken :=
  { t with usedAt := some now, revokedAt := some now }

end RefreshToken

namespace AuthDb

/-- The account with an identifier. -/
def user (d : AuthDb) (userId : Uuid) : Option UserRow := d.users.find? (·.id == userId)

/-- The device with an identifier. -/
def device (d : AuthDb) (deviceId : Uuid) : Option DeviceRow := d.devices.find? (·.id == deviceId)

/-- The token with a hash. -/
def refreshToken (d : AuthDb) (tokenHash : TokenHash) : Option RefreshToken :=
  d.refreshTokens.find? (·.tokenHash == tokenHash)

/-- How many members of a family are active. -/
def activeMembers (d : AuthDb) (familyId : Uuid) (now : Timestamp) : ℕ :=
  d.refreshTokens.countP fun t => t.familyId == familyId && t.isActive now

/-- Applies `f` to the accounts that satisfy `p`. -/
def updateUsers (d : AuthDb) (p : UserRow → Bool) (f : UserRow → UserRow) : AuthDb :=
  { d with users := updateWhere p f d.users }

/-- Applies `f` to the devices that satisfy `p`. -/
def updateDevices (d : AuthDb) (p : DeviceRow → Bool) (f : DeviceRow → DeviceRow) : AuthDb :=
  { d with devices := updateWhere p f d.devices }

/-- Applies `f` to the tokens that satisfy `p`. -/
def updateTokens (d : AuthDb) (p : RefreshToken → Bool) (f : RefreshToken → RefreshToken) :
    AuthDb :=
  { d with refreshTokens := updateWhere p f d.refreshTokens }

end AuthDb

/-! ## Statements -/

/-- The order in which a statement waits for the locks of its rows. -/
structure LockOrder where
  /-- The rows as they are locked. -/
  arrange : List TokenHash → List TokenHash
  /-- Every row is locked once. -/
  perm : ∀ hashes, (arrange hashes).Perm hashes

/-- The order in which the rows are stored. -/
def LockOrder.stored : LockOrder := ⟨id, fun _ => .rfl⟩

/-- A statement that is executed under a condition. -/
def onlyIf (p : Bool) (x : AuthTx Unit) : AuthTx Unit := if p then x else .pure ()

/-- `SELECT ... FOR UPDATE` of one row, which is read again once it is locked. -/
def selectRowForUpdate {α : Type} (l : AuthLock) (row : AuthDb → Option α) : AuthTx (Option α) := do
  match ← query row with
  | none => return none
  | some _ =>
    acquire l
    query row

/-- Waits for the locks of some tokens. -/
def lockTokens : List TokenHash → AuthTx Unit
  | [] => return
  | tokenHash :: hashes => do
    acquire (.refreshToken tokenHash)
    lockTokens hashes

/-- `UPDATE refresh_tokens SET revoked_at = COALESCE(revoked_at, CURRENT_TIMESTAMP) WHERE p`. -/
def revokeTokens (now : Timestamp) (order : LockOrder) (p : RefreshToken → Bool) : AuthTx Unit := do
  let hashes ← query fun d => (d.refreshTokens.filter p).map (·.tokenHash)
  lockTokens (order.arrange hashes)
  modify (·.updateTokens (fun t => hashes.contains t.tokenHash && p t) (·.revoked now))

/-- The account of an active user, whose row stays locked. -/
def lockActiveUser (userId : Uuid) : AuthTx UserRow := do
  let user ← selectRowForUpdate (.user userId) (·.user userId)
  let user ← orThrow .notFound user
  require (user.status == .active) .accountDisabled
  return user

/-- The device of a login, which is created when it is new. -/
def ensureDevice (userId deviceId : Uuid) : AuthTx Unit := do
  match ← query (·.device deviceId) with
  | some device =>
    require (device.ownerUserId == userId) .notFound
    require device.revokedAt.isNone .deviceRevoked
  | none =>
    acquire (.device deviceId)
    let isNew ← query fun d => (d.device deviceId).isNone
    require isNew (.database .uniqueViolation)
    modify fun d => { d with devices := d.devices ++
      [{ id := deviceId, ownerUserId := userId, lastPullAt := none, lastPushAt := none,
         revokedAt := none }] }

/-- The device of a token. -/
def ensureExistingDevice (userId deviceId : Uuid) : AuthTx Unit := do
  let device ← query fun d => (d.device deviceId).filter (·.ownerUserId == userId)
  let device ← orThrow .invalidRefreshToken device
  require device.revokedAt.isNone .deviceRevoked

/-- Inserts a refresh token: an insert with the same hash waits for this one. -/
def insertRefresh (userId deviceId : Uuid) (refresh : NewRefreshToken) : AuthTx Unit := do
  acquire (.refreshToken refresh.tokenHash)
  let isNew ← query fun d => (d.refreshToken refresh.tokenHash).isNone
  require isNew (.database .uniqueViolation)
  modify fun d => { d with refreshTokens := d.refreshTokens ++
    [{ userId := userId, deviceId := deviceId, tokenHash := refresh.tokenHash,
       familyId := refresh.familyId, expiresAt := refresh.expiresAt, usedAt := none,
       revokedAt := none }] }

/-! ## Operations -/

/-- A login. The last statements lock the row of the device for the time of the login. -/
def createLoginSession (userId deviceId : Uuid) (refresh : NewRefreshToken) :
    AuthTx (Except PersistenceError SessionRecord) := do
  let user ← lockActiveUser userId
  ensureDevice userId deviceId
  insertRefresh userId deviceId refresh
  acquire (.device deviceId)
  return .ok { user := user, deviceId := deviceId, familyId := refresh.familyId }

/-- Whether a used token may be rotated again: it was used a moment ago, and its family has active
members, but not too many. -/
def familyHealthy (now utcNow : Timestamp) (token : RefreshToken) : AuthTx Bool :=
  if token.usedAt.any fun used => utcNow - used ≤ refreshRotationGrace then do
    let activeMembers ← query (·.activeMembers token.familyId now)
    return 0 < activeMembers && activeMembers < refreshFamilyActiveLimit
  else
    return false

/-- Issues the successor of a token. A token that is rotated again stays as it is. -/
def issueReplacement (now utcNow : Timestamp) (token : RefreshToken)
    (replacement : NewRefreshToken) (expectedRole : Option UserRole) (graceRotation : Bool) :
    AuthTx (Except PersistenceError SessionRecord) := do
  require (utcNow < token.expiresAt) .invalidRefreshToken
  let user ← lockActiveUser token.userId
  require (expectedRole.all (user.role == ·)) .invalidRefreshToken
  ensureExistingDevice token.userId token.deviceId
  onlyIf (!graceRotation) (modify (·.updateTokens (·.tokenHash == token.tokenHash) (·.used now)))
  insertRefresh token.userId token.deviceId { replacement with familyId := token.familyId }
  acquire (.device token.deviceId)
  return .ok { user := user, deviceId := token.deviceId, familyId := token.familyId }

/-- Rotates a refresh token. The reuse of a spent one revokes its family and commits. -/
def rotateRefreshTokenInner (now utcNow : Timestamp) (order : LockOrder)
    (oldTokenHash : TokenHash) (replacement : NewRefreshToken) (expectedRole : Option UserRole) :
    AuthTx (Except PersistenceError SessionRecord) := do
  let token ← selectRowForUpdate (.refreshToken oldTokenHash) (·.refreshToken oldTokenHash)
  let token ← orThrow .invalidRefreshToken token
  if token.isSpent then
    let graceRotation ← familyHealthy now utcNow token
    if graceRotation then issueReplacement now utcNow token replacement expectedRole true
    else
      revokeTokens now order (·.familyId == token.familyId)
      return .error .refreshTokenReuse
  else issueReplacement now utcNow token replacement expectedRole false

/-- Logs a device out. -/
def logoutDevice (now : Timestamp) (order : LockOrder) (userId deviceId : Uuid) :
    AuthTx (Except PersistenceError Unit) := do
  revokeTokens now order fun t => t.userId == userId && t.deviceId == deviceId
  return .ok ()

/-- Logs the device of a token out. -/
def logoutDeviceByRefreshToken (now : Timestamp) (order : LockOrder) (tokenHash : TokenHash) :
    AuthTx (Except PersistenceError Unit) := do
  match ← query (·.refreshToken tokenHash) with
  | none => return .ok ()
  | some token =>
    revokeTokens now order fun t =>
      t.userId == token.userId && t.deviceId == token.deviceId && t.revokedAt.isNone
    return .ok ()

/-- Changes the password of a user. -/
def changePassword (now : Timestamp) (order : LockOrder) (userId : Uuid) :
    AuthTx (Except PersistenceError Unit) := do
  let user ← selectRowForUpdate (.user userId) (·.user userId)
  let _ ← orThrow .notFound user
  revokeTokens now order (·.userId == userId)
  return .ok ()

/-- Revokes a device of a user, with its tokens. -/
def revokeDeviceTokens (now : Timestamp) (order : LockOrder) (userId deviceId : Uuid) :
    AuthTx (Except PersistenceError Unit) := do
  let device ← selectRowForUpdate (.device deviceId) fun d =>
    (d.device deviceId).filter (·.ownerUserId == userId)
  let _ ← orThrow .notFound device
  modify (·.updateDevices (fun v => v.id == deviceId && v.ownerUserId == userId) fun v =>
    { v with revokedAt := some (v.revokedAt.getD now) })
  revokeTokens now order fun t => t.userId == userId && t.deviceId == deviceId
  return .ok ()

/-- The transitions that an administrator may make. -/
def allowedTransition : AccountStatus → AccountStatus → Bool
  | .active, .disabled | .disabled, .active | .pending, .active => true
  | _, _ => false

/-- Disables or enables an account. -/
def adminSetAccountStatus (now : Timestamp) (order : LockOrder)
    (actorUserId subjectUserId : Uuid) (status : AccountStatus) :
    AuthTx (Except PersistenceError Unit) := do
  let isAdmin ← query fun d => (d.user actorUserId).any fun u =>
    u.role == .systemAdmin && u.status == .active
  require isAdmin .adminRequired
  let user ← selectRowForUpdate (.user subjectUserId) (·.user subjectUserId)
  let user ← orThrow .notFound user
  require (allowedTransition user.status status) .invalidAccountTransition
  modify (·.updateUsers (·.id == subjectUserId) fun u => { u with status := status })
  onlyIf (status != .active) (revokeTokens now order (·.userId == subjectUserId))
  return .ok ()

/-! ## The service -/

/-- A call with its arguments. -/
inductive AuthCall where
  | createLoginSession (userId deviceId : Uuid) (refresh : NewRefreshToken)
  | rotateRefreshToken (order : LockOrder) (oldTokenHash : TokenHash)
      (replacement : NewRefreshToken) (expectedRole : Option UserRole)
  | logoutDevice (order : LockOrder) (userId deviceId : Uuid)
  | logoutDeviceByRefreshToken (order : LockOrder) (tokenHash : TokenHash)
  | changePassword (order : LockOrder) (userId : Uuid)
  | revokeDevice (order : LockOrder) (userId deviceId : Uuid)
  | adminSetAccountStatus (order : LockOrder) (actorUserId subjectUserId : Uuid)
      (status : AccountStatus)

/-- A call with the time at which its transaction starts, and the time that its program reads. -/
structure AuthRequest where
  now : Timestamp
  utcNow : Timestamp
  call : AuthCall

/-- A transaction that returns no session. -/
def withoutSession (x : AuthTx (Except PersistenceError Unit)) :
    AuthTx (Except PersistenceError (Option SessionRecord)) :=
  x.bind fun r => .pure (r.map fun _ => none)

/-- A transaction that returns a session. -/
def withSession (x : AuthTx (Except PersistenceError SessionRecord)) :
    AuthTx (Except PersistenceError (Option SessionRecord)) :=
  x.bind fun r => .pure (r.map some)

/-- The transaction of a call. -/
def AuthCall.body (now utcNow : Timestamp) :
    AuthCall → AuthTx (Except PersistenceError (Option SessionRecord))
  | .createLoginSession userId deviceId refresh =>
    withSession (TaskTipsCloud.createLoginSession userId deviceId refresh)
  | .rotateRefreshToken order oldTokenHash replacement expectedRole =>
    withSession (rotateRefreshTokenInner now utcNow order oldTokenHash replacement expectedRole)
  | .logoutDevice order userId deviceId =>
    withoutSession (TaskTipsCloud.logoutDevice now order userId deviceId)
  | .logoutDeviceByRefreshToken order tokenHash =>
    withoutSession (TaskTipsCloud.logoutDeviceByRefreshToken now order tokenHash)
  | .changePassword order userId => withoutSession (TaskTipsCloud.changePassword now order userId)
  | .revokeDevice order userId deviceId =>
    withoutSession (revokeDeviceTokens now order userId deviceId)
  | .adminSetAccountStatus order actorUserId subjectUserId status =>
    withoutSession (TaskTipsCloud.adminSetAccountStatus now order actorUserId subjectUserId status)

/-- The service: every call may be made at any time. -/
def authService :
    Service AuthDb AuthLock PersistenceError (Option SessionRecord) AuthRequest where
  body q := q.call.body q.now q.utcNow
  time q := q.now
  Allowed _ := True

/-- A call that finished. -/
abbrev AuthEvent := Event AuthDb PersistenceError (Option SessionRecord) AuthRequest

end TaskTipsCloud

import TaskTipsCloud.Auth

/-!
# What the operations on refresh tokens do

The operations of `Auth.lean` among other sessions, of whose commits `R H d c` says what is known:
which tokens an operation revokes, and when a rotation succeeds.
-/

namespace TaskTipsCloud

open Txn

section

variable {R : Set AuthLock → AuthDb → AuthDb → Prop} {c : AuthDb} {H H' : Set AuthLock}
  {b b' : AuthDb → AuthDb} {now utcNow : Timestamp}

/-! ## Statements -/

/-- A call without a session runs as its transaction and answers none. -/
theorem runs_withoutSession_iff {x : AuthTx (Except PersistenceError Unit)}
    {r : Except PersistenceError (Option SessionRecord)} :
    Runs R c (withoutSession x) ∅ id (.ok r) H b ↔
      ∃ r₀, Runs R c x ∅ id (.ok r₀) H b ∧ r = r₀.map fun _ => none := by
  simp only [withoutSession, runs_bind_ok_iff, runs_pure_iff, Except.ok.injEq]
  constructor
  · rintro ⟨r₀, _, _, h, rfl, rfl, rfl⟩
    exact ⟨r₀, h, rfl⟩
  · rintro ⟨r₀, h, rfl⟩
    exact ⟨r₀, H, b, h, rfl, rfl, rfl⟩

/-- A call with a session runs as its transaction and answers the session. -/
theorem runs_withSession_iff {x : AuthTx (Except PersistenceError SessionRecord)}
    {r : Except PersistenceError (Option SessionRecord)} :
    Runs R c (withSession x) ∅ id (.ok r) H b ↔
      ∃ r₀, Runs R c x ∅ id (.ok r₀) H b ∧ r = r₀.map some := by
  simp only [withSession, runs_bind_ok_iff, runs_pure_iff, Except.ok.injEq]
  constructor
  · rintro ⟨r₀, _, _, h, rfl, rfl, rfl⟩
    exact ⟨r₀, h, rfl⟩
  · rintro ⟨r₀, h, rfl⟩
    exact ⟨r₀, H, b, h, rfl, rfl, rfl⟩

/-- A row that is read for update and is there. -/
theorem runs_selectRowForUpdate {α β : Type} {l : AuthLock} {row : AuthDb → Option α}
    {e : PersistenceError} {f : α → AuthTx β} {r : β}
    (h : Runs R c ((selectRowForUpdate l row).bind fun o => (orThrow e o).bind f) H b (.ok r)
      H' b') :
    ∃ d x, R (insert l H) d c ∧ row (b d) = some x ∧
      Runs R c (f x) (insert l H) b (.ok r) H' b' := by
  simp only [selectRowForUpdate, bind_eq, query_bind, runs_bind_ok_iff, runs_read_iff,
    runs_orThrow_iff] at h
  obtain ⟨o, H₁, b₁, ⟨d, -, hselect⟩, x, H₂, b₂, ⟨hsome, rfl, rfl⟩, hrest⟩ := h
  cases hrow : row (b d) with
  | none =>
    rw [hrow] at hselect
    obtain ⟨ho, -, -⟩ := runs_pure_iff.mp hselect
    cases ho
    cases hsome
  | some y =>
    rw [hrow] at hselect
    obtain ⟨d', hd', ho, rfl, rfl⟩ := runs_query_iff.mp (runs_lock_iff.mp hselect)
    cases ho
    cases hrow' : row (b d') with
    | none => rw [hrow'] at hsome; cases hsome
    | some z =>
      rw [hrow'] at hsome
      cases hsome
      exact ⟨d', x, hd', hrow', hrest⟩

/-- The locks of some tokens. -/
theorem runs_lockTokens_iff {hashes : List TokenHash} {r : Except PersistenceError Unit} :
    Runs R c (lockTokens hashes) H b r H' b' ↔
      r = .ok () ∧ H' = H ∪ {l | ∃ h ∈ hashes, l = .refreshToken h} ∧ b' = b := by
  induction hashes generalizing H with
  | nil =>
    simp only [lockTokens, pure_eq, runs_pure_iff, List.not_mem_nil, false_and, exists_false,
      Set.ofPred_false, Set.union_empty]
    rw [eq_comm (a := H), eq_comm (a := b)]
  | cons h hashes ih =>
    simp only [lockTokens, bind_eq, acquire_bind, runs_lock_iff]
    rw [ih]
    refine and_congr Iff.rfl (and_congr (Eq.congr_right ?_) Iff.rfl)
    ext l
    simp only [Set.mem_union, Set.mem_insert_iff, Set.mem_ofPred_eq, List.mem_cons]
    constructor
    · rintro ((rfl | hl) | ⟨h', hh', rfl⟩)
      · exact .inr ⟨h, .inl rfl, rfl⟩
      · exact .inl hl
      · exact .inr ⟨h', .inr hh', rfl⟩
    · rintro (hl | ⟨h', rfl | hh', rfl⟩)
      · exact .inl (.inr hl)
      · exact .inl (.inl rfl)
      · exact .inr ⟨h', hh', rfl⟩

/-- The tokens that an `UPDATE` finds when it starts. -/
def AuthDb.hashesOf (d : AuthDb) (p : RefreshToken → Bool) : List TokenHash :=
  (d.refreshTokens.filter p).map (·.tokenHash)

/-- The tokens that an `UPDATE` has chosen are revoked, if they still satisfy its condition. -/
def AuthDb.revokeChosen (now : Timestamp) (hashes : List TokenHash) (p : RefreshToken → Bool)
    (d : AuthDb) : AuthDb :=
  d.updateTokens (fun t => hashes.contains t.tokenHash && p t) (·.revoked now)

/-- What the revocation of some tokens does. -/
theorem runs_revokeTokens_iff {order : LockOrder} {p : RefreshToken → Bool}
    {r : Except PersistenceError Unit} :
    Runs R c (revokeTokens now order p) H b r H' b' ↔ r = .ok () ∧ ∃ d, R H d c ∧
      H' = H ∪ {l | ∃ h ∈ (b d).hashesOf p, l = .refreshToken h} ∧
        b' = AuthDb.revokeChosen now ((b d).hashesOf p) p ∘ b := by
  have hlocks : ∀ hashes : List TokenHash,
      {l : AuthLock | ∃ h ∈ order.arrange hashes, l = .refreshToken h} =
        {l | ∃ h ∈ hashes, l = .refreshToken h} := fun hashes =>
    Set.ext fun l => exists_congr fun h => by rw [(order.perm hashes).mem_iff]
  simp only [revokeTokens, bind_eq, query_bind, runs_read_iff, runs_bind_iff, runs_lockTokens_iff,
    runs_modify_iff, reduceCtorEq, false_and, exists_false, false_or]
  constructor
  · rintro ⟨d, hd, _, _, _, ⟨-, rfl, rfl⟩, rfl, rfl, rfl⟩
    exact ⟨rfl, d, hd, by rw [hlocks]; rfl, rfl⟩
  · rintro ⟨rfl, d, hd, rfl, rfl⟩
    exact ⟨d, hd, (), _, _, ⟨trivial, rfl, rfl⟩, rfl, by rw [hlocks]; rfl, rfl⟩

/-- An account that is active. -/
theorem runs_lockActiveUser {userId : Uuid} {user : UserRow}
    (h : Runs R c (lockActiveUser userId) H b (.ok user) H' b') :
    H' = insert (.user userId) H ∧ b' = b := by
  obtain ⟨_, _, -, -, hrun⟩ := runs_selectRowForUpdate h
  simp only [bind_eq, runs_bind_ok_iff, runs_require_iff, pure_eq, runs_pure_iff] at hrun
  obtain ⟨_, _, _, ⟨-, rfl, rfl⟩, -, rfl, rfl⟩ := hrun
  exact ⟨rfl, rfl⟩

/-- A token that is to be inserted, with its owner. -/
def NewRefreshToken.row (refresh : NewRefreshToken) (userId deviceId : Uuid) : RefreshToken where
  userId := userId
  deviceId := deviceId
  tokenHash := refresh.tokenHash
  familyId := refresh.familyId
  expiresAt := refresh.expiresAt
  usedAt := none
  revokedAt := none

/-- The successor of a token, in its family. -/
def NewRefreshToken.successor (replacement : NewRefreshToken) (token : RefreshToken) :
    RefreshToken :=
  { replacement with familyId := token.familyId }.row token.userId token.deviceId

/-- The database with one more token. -/
def AuthDb.withToken (x : RefreshToken) (d : AuthDb) : AuthDb :=
  { d with refreshTokens := d.refreshTokens ++ [x] }

/-- What the insert of a token does. -/
theorem runs_insertRefresh {userId deviceId : Uuid} {refresh : NewRefreshToken}
    (h : Runs R c (insertRefresh userId deviceId refresh) H b (.ok ()) H' b') :
    H' = insert (.refreshToken refresh.tokenHash) H ∧
      b' = AuthDb.withToken (refresh.row userId deviceId) ∘ b ∧
        ∃ d, R H' d c ∧ (b d).refreshToken refresh.tokenHash = none := by
  simp only [insertRefresh, bind_eq, acquire_bind, runs_lock_iff, query_bind, runs_read_iff,
    runs_bind_ok_iff, runs_require_iff, runs_modify_iff] at h
  obtain ⟨d, hd, _, _, _, ⟨hnone, rfl, rfl⟩, -, rfl, rfl⟩ := h
  refine ⟨rfl, rfl, d, hd, ?_⟩
  cases hrow : (b d).refreshToken refresh.tokenHash with
  | none => rfl
  | some x => simp [hrow] at hnone

/-! ## Logins and rotations -/

/-- What a login does. -/
theorem runs_createLoginSession {userId deviceId : Uuid} {refresh : NewRefreshToken}
    {r : Except PersistenceError SessionRecord}
    (h : Runs R c (createLoginSession userId deviceId refresh) ∅ id (.ok r) H b) :
    .user userId ∈ H ∧ .device deviceId ∈ H ∧ .refreshToken refresh.tokenHash ∈ H ∧
      (∀ d, (b d).users = d.users) ∧
      (∀ d, (b d).refreshTokens = d.refreshTokens ++ [refresh.row userId deviceId]) ∧
      ∃ K d, .refreshToken refresh.tokenHash ∈ K ∧ R K d c ∧
        d.refreshToken refresh.tokenHash = none := by
  simp only [createLoginSession, bind_eq, runs_bind_ok_iff, acquire_bind, runs_lock_iff, pure_eq,
    runs_pure_iff] at h
  obtain ⟨user, _, _, huser, _, H₂, b₂, hdevice, _, _, _, hinsert, -, rfl, rfl⟩ := h
  obtain ⟨rfl, rfl⟩ := runs_lockActiveUser huser
  obtain ⟨rfl, rfl, d, hd, hnone⟩ := runs_insertRefresh hinsert
  have hsubset := hdevice.subset
  -- A new device changes neither the accounts nor the tokens.
  have hb : ∀ d, (b₂ d).users = d.users ∧ (b₂ d).refreshTokens = d.refreshTokens := by
    simp only [ensureDevice, bind_eq, query_bind, runs_read_iff] at hdevice
    obtain ⟨d, -, hdevice⟩ := hdevice
    cases hrow : (id d).device deviceId with
    | none =>
      simp only [hrow, acquire_bind, runs_lock_iff, runs_read_iff, runs_bind_ok_iff,
        runs_require_iff, runs_modify_iff] at hdevice
      obtain ⟨_, -, _, _, _, ⟨-, -, rfl⟩, -, -, rfl⟩ := hdevice
      exact fun _ => ⟨rfl, rfl⟩
    | some device =>
      simp only [hrow, runs_bind_ok_iff, runs_require_iff] at hdevice
      obtain ⟨_, _, _, ⟨-, -, rfl⟩, -, -, rfl⟩ := hdevice
      exact fun _ => ⟨rfl, rfl⟩
  refine ⟨?_, Set.mem_insert _ _, ?_, fun d => (hb d).1, fun d => ?_, _, d, Set.mem_insert _ _,
    hd, ?_⟩
  · exact Set.mem_insert_of_mem _ (Set.mem_insert_of_mem _ (hsubset (Set.mem_insert _ _)))
  · exact Set.mem_insert_of_mem _ (Set.mem_insert _ _)
  · exact congrArg (· ++ _) (hb d).2
  · unfold AuthDb.refreshToken at hnone ⊢
    rwa [(hb d).2] at hnone

/-- Whether a spent token may be rotated again, on a database that is read. -/
def AuthDb.healthy (d : AuthDb) (now utcNow : Timestamp) (token : RefreshToken) : Bool :=
  (token.usedAt.any fun used => utcNow - used ≤ refreshRotationGrace) &&
    (0 < d.activeMembers token.familyId now &&
      d.activeMembers token.familyId now < refreshFamilyActiveLimit)

/-- What decides whether a spent token may be rotated again. -/
theorem runs_familyHealthy {token : RefreshToken} {r : Bool} (hR : ∃ d, R H d c)
    (h : Runs R c (familyHealthy now utcNow token) H id (.ok r) H' b') :
    H' = H ∧ b' = id ∧ ∃ d, R H d c ∧ r = d.healthy now utcNow token := by
  unfold familyHealthy at h
  split at h
  · rename_i hgrace
    simp only [bind_eq, query_bind, runs_read_iff, pure_eq, runs_pure_iff] at h
    obtain ⟨d, hd, hr, rfl, rfl⟩ := h
    refine ⟨rfl, rfl, d, hd, ?_⟩
    cases hr
    rw [AuthDb.healthy, hgrace, Bool.true_and]
    rfl
  · rename_i hgrace
    obtain ⟨hr, rfl, rfl⟩ := runs_pure_iff.mp h
    obtain ⟨d, hd⟩ := hR
    refine ⟨rfl, rfl, d, hd, ?_⟩
    cases hr
    rw [AuthDb.healthy, Bool.eq_false_iff.mpr hgrace, Bool.false_and]

/-- The rotation of a token, unless it is rotated again. -/
def AuthDb.withRotation (now : Timestamp) (token : RefreshToken) (graceRotation : Bool)
    (d : AuthDb) : AuthDb :=
  if graceRotation then d
  else d.updateTokens (·.tokenHash == token.tokenHash) (·.used now)

/-- What the issue of a successor does. -/
theorem runs_issueReplacement {token : RefreshToken} {replacement : NewRefreshToken}
    {expectedRole : Option UserRole} {graceRotation : Bool}
    {r : Except PersistenceError SessionRecord}
    (h : Runs R c (issueReplacement now utcNow token replacement expectedRole graceRotation) H id
      (.ok r) H' b') :
    utcNow < token.expiresAt ∧ H ⊆ H' ∧ .user token.userId ∈ H' ∧ .device token.deviceId ∈ H' ∧
      .refreshToken replacement.tokenHash ∈ H' ∧
      (∃ user, r = .ok ⟨user, token.deviceId, token.familyId⟩) ∧
      b' = AuthDb.withToken (replacement.successor token) ∘
        AuthDb.withRotation now token graceRotation ∧
      ∃ K d, .refreshToken replacement.tokenHash ∈ K ∧ R K d c ∧
        (AuthDb.withRotation now token graceRotation d).refreshToken replacement.tokenHash =
          none := by
  simp only [issueReplacement, bind_eq, runs_bind_ok_iff, runs_require_iff, acquire_bind,
    runs_lock_iff, pure_eq, runs_pure_iff] at h
  obtain ⟨_, _, _, ⟨hexpires, rfl, rfl⟩, user, _, _, huser, _, _, _, ⟨-, rfl, rfl⟩, _, _, _,
    hdevice, _, H₁, b₁, hrotation, _, _, _, hinsert, hr, rfl, rfl⟩ := h
  obtain ⟨rfl, rfl⟩ := runs_lockActiveUser huser
  simp only [ensureExistingDevice, bind_eq, query_bind, runs_read_iff, runs_bind_ok_iff,
    runs_orThrow_iff, runs_require_iff] at hdevice
  obtain ⟨_, -, _, _, _, ⟨-, rfl, rfl⟩, -, rfl, rfl⟩ := hdevice
  -- A rotation in the grace period leaves the old token as it is, the first one marks it as used.
  have hrotation : H₁ = insert (.user token.userId) H ∧
      b₁ = AuthDb.withRotation now token graceRotation := by
    cases graceRotation with
    | true =>
      obtain ⟨-, rfl, rfl⟩ := runs_pure_iff.mp hrotation
      exact ⟨rfl, rfl⟩
    | false =>
      obtain ⟨-, rfl, rfl⟩ := runs_modify_iff.mp hrotation
      exact ⟨rfl, rfl⟩
  obtain ⟨rfl, rfl⟩ := hrotation
  obtain ⟨rfl, rfl, d, hd, hnone⟩ := runs_insertRefresh hinsert
  cases hr
  refine ⟨?_, ?_, ?_, Set.mem_insert _ _, ?_, ⟨user, rfl⟩, rfl, _, d, Set.mem_insert _ _, hd,
    hnone⟩
  · by_contra hnot
    rw [decide_eq_false hnot] at hexpires
    cases hexpires
  · exact ((Set.subset_insert _ _).trans (Set.subset_insert _ _)).trans (Set.subset_insert _ _)
  · exact Set.mem_insert_of_mem _ (Set.mem_insert_of_mem _ (Set.mem_insert _ _))
  · exact Set.mem_insert_of_mem _ (Set.mem_insert _ _)

/-- What a rotation does: it issues a successor of a token that is not spent, or that is spent and
may be rotated again, or it revokes the family of a token that is spent. -/
theorem runs_rotateRefreshTokenInner {order : LockOrder} {oldTokenHash : TokenHash}
    {replacement : NewRefreshToken} {expectedRole : Option UserRole}
    {r : Except PersistenceError SessionRecord}
    (h : Runs R c (rotateRefreshTokenInner now utcNow order oldTokenHash replacement expectedRole)
      ∅ id (.ok r) H b) :
    ∃ d d' token, R {.refreshToken oldTokenHash} d c ∧ R {.refreshToken oldTokenHash} d' c ∧
      d.refreshToken oldTokenHash = some token ∧ .refreshToken oldTokenHash ∈ H ∧
      ((∃ graceRotation, graceRotation = token.isSpent ∧
          (graceRotation = true → d'.healthy now utcNow token = true) ∧
          Runs R c (issueReplacement now utcNow token replacement expectedRole graceRotation)
            {.refreshToken oldTokenHash} id (.ok r) H b) ∨
        (token.isSpent = true ∧ d'.healthy now utcNow token = false ∧
          r = .error .refreshTokenReuse ∧
          Runs R c (revokeTokens now order (·.familyId == token.familyId))
            {.refreshToken oldTokenHash} id (.ok ()) H b)) := by
  unfold rotateRefreshTokenInner at h
  obtain ⟨d, token, hd, htoken, hrun⟩ := runs_selectRowForUpdate h
  rw [insert_empty_eq] at hd hrun
  have hheld := hrun.subset (Set.mem_singleton _)
  split at hrun
  · rename_i hspent
    obtain ⟨graceRotation, _, _, hhealthy, hrun⟩ := runs_bind_ok_iff.mp hrun
    obtain ⟨rfl, rfl, d', hd', rfl⟩ := runs_familyHealthy ⟨d, hd⟩ hhealthy
    refine ⟨d, d', token, hd, hd', htoken, hheld, ?_⟩
    split at hrun
    · rename_i hhealthy
      exact .inl ⟨true, hspent.symm, fun _ => hhealthy, hrun⟩
    · rename_i hunhealthy
      simp only [bind_eq, runs_bind_ok_iff, pure_eq, runs_pure_iff] at hrun
      obtain ⟨_, _, _, hrevoke, hr, rfl, rfl⟩ := hrun
      cases hr
      exact .inr ⟨hspent, Bool.eq_false_iff.mpr hunhealthy, rfl, hrevoke⟩
  · rename_i hunspent
    exact ⟨d, d, token, hd, hd, htoken, hheld,
      .inl ⟨false, (Bool.eq_false_iff.mpr hunspent).symm, fun h => (by cases h), hrun⟩⟩

/-! ## Revocations -/

/-- The transaction with the locks `H` revokes the tokens that satisfy `p` and that its `UPDATE`
found when it held the locks `K`. -/
def RevokesUnder (R : Set AuthLock → AuthDb → AuthDb → Prop) (c : AuthDb) (now : Timestamp)
    (p : RefreshToken → Bool) (K H : Set AuthLock) (b : AuthDb → AuthDb) : Prop :=
  ∃ d, R K d c ∧ K ⊆ H ∧ (∀ h ∈ d.hashesOf p, .refreshToken h ∈ H) ∧
    ∀ x, (b x).refreshTokens = (x.revokeChosen now (d.hashesOf p) p).refreshTokens

/-- An `UPDATE` in a transaction that has not changed the tokens. -/
theorem revokesUnder_of_runs {order : LockOrder} {p : RefreshToken → Bool}
    {r : Except PersistenceError Unit} (hb : ∀ d, (b d).refreshTokens = d.refreshTokens)
    (h : Runs R c (revokeTokens now order p) H b r H' b') : RevokesUnder R c now p H H' b' := by
  obtain ⟨-, d, hd, rfl, rfl⟩ := runs_revokeTokens_iff.mp h
  have hhashes : (b d).hashesOf p = d.hashesOf p := by
    unfold AuthDb.hashesOf
    rw [hb]
  refine ⟨d, hd, Set.subset_union_left, fun h hh => .inr ⟨h, hhashes.symm ▸ hh, rfl⟩, fun x => ?_⟩
  rw [hhashes, Function.comp_apply, AuthDb.revokeChosen, AuthDb.revokeChosen, AuthDb.updateTokens,
    AuthDb.updateTokens, hb]

/-- What a logout does. -/
theorem runs_logoutDevice {order : LockOrder} {userId deviceId : Uuid}
    {r : Except PersistenceError Unit}
    (h : Runs R c (logoutDevice now order userId deviceId) ∅ id (.ok r) H b) :
    RevokesUnder R c now (fun t => t.userId == userId && t.deviceId == deviceId) ∅ H b := by
  simp only [logoutDevice, bind_eq, runs_bind_ok_iff, pure_eq, runs_pure_iff] at h
  obtain ⟨_, _, _, hrevoke, -, rfl, rfl⟩ := h
  exact revokesUnder_of_runs (fun _ => rfl) hrevoke

/-- What a logout by a token does. -/
theorem runs_logoutDeviceByRefreshToken {order : LockOrder} {tokenHash : TokenHash}
    {r : Except PersistenceError Unit}
    (h : Runs R c (logoutDeviceByRefreshToken now order tokenHash) ∅ id (.ok r) H b) :
    ∃ d, R ∅ d c ∧ ((d.refreshToken tokenHash = none ∧ b = id) ∨
      ∃ token, d.refreshToken tokenHash = some token ∧ RevokesUnder R c now (fun t =>
        t.userId == token.userId && t.deviceId == token.deviceId && t.revokedAt.isNone) ∅ H b) := by
  simp only [logoutDeviceByRefreshToken, bind_eq, query_bind, runs_read_iff] at h
  obtain ⟨d, hd, h⟩ := h
  refine ⟨d, hd, ?_⟩
  cases htoken : (id d).refreshToken tokenHash with
  | none =>
    rw [htoken] at h
    obtain ⟨-, -, rfl⟩ := runs_pure_iff.mp h
    exact .inl ⟨htoken, rfl⟩
  | some token =>
    simp only [htoken, runs_bind_ok_iff, pure_eq, runs_pure_iff] at h
    obtain ⟨_, _, _, hrevoke, -, rfl, rfl⟩ := h
    exact .inr ⟨token, htoken, revokesUnder_of_runs (fun _ => rfl) hrevoke⟩

/-- What a change of a password does. -/
theorem runs_changePassword {order : LockOrder} {userId : Uuid} {r : Except PersistenceError Unit}
    (h : Runs R c (changePassword now order userId) ∅ id (.ok r) H b) :
    RevokesUnder R c now (·.userId == userId) {.user userId} H b := by
  obtain ⟨_, _, -, -, hrun⟩ := runs_selectRowForUpdate h
  simp only [bind_eq, runs_bind_ok_iff, pure_eq, runs_pure_iff, insert_empty_eq] at hrun
  obtain ⟨_, _, _, hrevoke, -, rfl, rfl⟩ := hrun
  exact revokesUnder_of_runs (fun _ => rfl) hrevoke

/-- What the revocation of a device does. -/
theorem runs_revokeDeviceTokens {order : LockOrder} {userId deviceId : Uuid}
    {r : Except PersistenceError Unit}
    (h : Runs R c (revokeDeviceTokens now order userId deviceId) ∅ id (.ok r) H b) :
    RevokesUnder R c now (fun t => t.userId == userId && t.deviceId == deviceId)
      {.device deviceId} H b := by
  obtain ⟨_, _, -, -, hrun⟩ := runs_selectRowForUpdate h
  simp only [bind_eq, modify_bind, runs_write_iff, runs_bind_ok_iff, pure_eq, runs_pure_iff,
    insert_empty_eq] at hrun
  obtain ⟨_, _, _, hrevoke, -, rfl, rfl⟩ := hrun
  refine revokesUnder_of_runs ?_ hrevoke
  exact fun _ => rfl

/-- What a change of the status of an account does. -/
theorem runs_adminSetAccountStatus {order : LockOrder} {actorUserId subjectUserId : Uuid}
    {status : AccountStatus} {r : Except PersistenceError Unit}
    (h : Runs R c (adminSetAccountStatus now order actorUserId subjectUserId status) ∅ id (.ok r)
      H b) :
    (status = .active ∧ ∀ d, (b d).refreshTokens = d.refreshTokens) ∨
      RevokesUnder R c now (·.userId == subjectUserId) {.user subjectUserId} H b := by
  simp only [adminSetAccountStatus, bind_eq, query_bind, runs_read_iff] at h
  obtain ⟨_, -, h⟩ := h
  obtain ⟨_, _, _, hrequire, h⟩ := runs_bind_ok_iff.mp h
  obtain ⟨-, rfl, rfl⟩ := runs_require_iff.mp hrequire
  obtain ⟨_, _, -, -, hrun⟩ := runs_selectRowForUpdate h
  simp only [modify_bind, runs_write_iff, runs_bind_ok_iff, runs_require_iff, pure_eq,
    runs_pure_iff, insert_empty_eq] at hrun
  obtain ⟨_, _, _, ⟨-, rfl, rfl⟩, _, _, _, hrevoke, -, rfl, rfl⟩ := hrun
  unfold onlyIf at hrevoke
  split at hrevoke
  · refine .inr (revokesUnder_of_runs ?_ hrevoke)
    exact fun _ => rfl
  · rename_i hstatus
    obtain ⟨-, -, rfl⟩ := runs_pure_iff.mp hrevoke
    exact .inl ⟨by simpa using hstatus, fun _ => rfl⟩

/-! ## What a finished call did -/

/-- What a finished call with the locks `H` did to the refresh tokens. -/
inductive TokenStep (R : Set AuthLock → AuthDb → AuthDb → Prop) (H : Set AuthLock) (e : AuthEvent) :
    Prop
  | kept (hafter : e.after.refreshTokens = e.before.refreshTokens)
      (hresult : ∀ session, e.result ≠ .ok (some session))
  | loggedIn {userId deviceId : Uuid} {refresh : NewRefreshToken}
      (hcall : e.request.call = .createLoginSession userId deviceId refresh)
      (hlocks : .user userId ∈ H ∧ .device deviceId ∈ H ∧ .refreshToken refresh.tokenHash ∈ H)
      (hnew : e.before.refreshToken refresh.tokenHash = none)
      (hafter : e.after.refreshTokens = e.before.refreshTokens ++ [refresh.row userId deviceId])
  | rotated {order : LockOrder} {oldTokenHash : TokenHash} {replacement : NewRefreshToken}
      {expectedRole : Option UserRole} {token : RefreshToken}
      (hcall : e.request.call = .rotateRefreshToken order oldTokenHash replacement expectedRole)
      (htoken : e.before.refreshToken oldTokenHash = some token)
      (hlocks : .user token.userId ∈ H ∧ .device token.deviceId ∈ H ∧
        .refreshToken oldTokenHash ∈ H ∧ .refreshToken replacement.tokenHash ∈ H)
      (hrotatable : ∃ d, R {.refreshToken oldTokenHash} d e.before ∧
        d.refreshToken oldTokenHash = some token ∧
          (token.isSpent = false ∨ d.healthy e.request.now e.request.utcNow token = true))
      (hexpires : e.request.utcNow < token.expiresAt)
      (hnew : e.before.refreshToken replacement.tokenHash = none)
      (hafter : e.after.refreshTokens =
        (e.before.withRotation e.request.now token token.isSpent).refreshTokens ++
          [replacement.successor token])
      (hresult : ∃ session, e.result = .ok (some session))
  | revoked {p : RefreshToken → Bool} {K : Set AuthLock} {b : AuthDb → AuthDb}
      (hrevokes : RevokesUnder R e.before e.request.now p K H b) (hafter : e.after = b e.before)
      (hresult : ∀ session, e.result ≠ .ok (some session))

/-- A rotated token keeps its hash. -/
theorem AuthDb.refreshToken_withRotation_eq_none {d : AuthDb} {token : RefreshToken}
    {graceRotation : Bool} {tokenHash : TokenHash} :
    (d.withRotation now token graceRotation).refreshToken tokenHash = none ↔
      d.refreshToken tokenHash = none := by
  unfold withRotation
  split
  · exact Iff.rfl
  · unfold updateTokens refreshToken
    rw [find?_updateWhere, Option.map_eq_none_iff]
    exact fun row _ => rfl

/-- What a call that commits does to the refresh tokens, when nobody else changes a token that is
locked. -/
theorem tokenStep_of_runs {e : AuthEvent}
    (hR : ∀ K d, R K d e.before → ∀ h, .refreshToken h ∈ K →
      d.refreshToken h = e.before.refreshToken h)
    (hruns : Runs R e.before (e.request.call.body e.request.now e.request.utcNow) ∅ id
      (.ok e.result) H b) (hafter : e.after = b e.before) : TokenStep R H e := by
  have hdone : ∀ {r : Except PersistenceError Unit}, e.result = r.map (fun _ => none) →
      ∀ session, e.result ≠ .ok (some session) := by
    rintro (_ | _) hr session <;> rw [hr] <;> exact nofun
  cases hcall : e.request.call with
  | createLoginSession =>
    rw [hcall] at hruns
    obtain ⟨r, hrun, -⟩ := runs_withSession_iff.mp hruns
    obtain ⟨huser, hdevice, htoken, -, htokens, K, d, hK, hd, hnone⟩ :=
      runs_createLoginSession hrun
    rw [hR K d hd _ hK] at hnone
    exact .loggedIn hcall ⟨huser, hdevice, htoken⟩ hnone (hafter ▸ htokens _)
  | rotateRefreshToken order oldTokenHash replacement expectedRole =>
    rw [hcall] at hruns
    obtain ⟨r, hrun, hr⟩ := runs_withSession_iff.mp hruns
    obtain ⟨d, d', token, hd, hd', htoken, hold, hend⟩ := runs_rotateRefreshTokenInner hrun
    have hfound := htoken
    rw [hR _ d hd _ rfl] at htoken
    -- A rotation issues a replacement, or it was a replay and revokes what it finds.
    rcases hend with ⟨graceRotation, rfl, hgrace, hissue⟩ | ⟨hspent, -, rfl, hrevoke⟩
    · obtain ⟨hexpires, -, huser, hdevice, hnewLock, ⟨user, rfl⟩, rfl, K, d₂, hK, hd₂, hnone⟩ :=
        runs_issueReplacement hissue
      rw [AuthDb.refreshToken_withRotation_eq_none, hR K d₂ hd₂ _ hK] at hnone
      refine .rotated hcall htoken ⟨huser, hdevice, hold, hnewLock⟩ ?_ hexpires hnone
        (congrArg AuthDb.refreshTokens hafter) ⟨_, hr⟩
      -- A token that is not spent is rotated as the first read found it; a spent one is judged
      -- anew.
      cases hspent : token.isSpent with
      | false => exact ⟨d, hd, hfound, .inl rfl⟩
      | true => exact ⟨d', hd', (hR _ d' hd' _ rfl).trans htoken, .inr (hgrace hspent)⟩
    · refine .revoked (revokesUnder_of_runs ?_ hrevoke) hafter ?_
      · exact fun _ => rfl
      · rw [hr]
        exact nofun
  | logoutDevice =>
    rw [hcall] at hruns
    obtain ⟨r, hrun, hr⟩ := runs_withoutSession_iff.mp hruns
    exact .revoked (runs_logoutDevice hrun) hafter (hdone hr)
  | logoutDeviceByRefreshToken =>
    rw [hcall] at hruns
    obtain ⟨r, hrun, hr⟩ := runs_withoutSession_iff.mp hruns
    -- An unknown token leaves everything as it is.
    obtain ⟨d, -, ⟨-, rfl⟩ | ⟨token, -, hrevokes⟩⟩ := runs_logoutDeviceByRefreshToken hrun
    · exact .kept (hafter ▸ rfl) (hdone hr)
    · exact .revoked hrevokes hafter (hdone hr)
  | changePassword =>
    rw [hcall] at hruns
    obtain ⟨r, hrun, hr⟩ := runs_withoutSession_iff.mp hruns
    exact .revoked (runs_changePassword hrun) hafter (hdone hr)
  | revokeDevice =>
    rw [hcall] at hruns
    obtain ⟨r, hrun, hr⟩ := runs_withoutSession_iff.mp hruns
    exact .revoked (runs_revokeDeviceTokens hrun) hafter (hdone hr)
  | adminSetAccountStatus =>
    rw [hcall] at hruns
    obtain ⟨r, hrun, hr⟩ := runs_withoutSession_iff.mp hruns
    rcases runs_adminSetAccountStatus hrun with ⟨-, hkept⟩ | hrevokes
    · exact .kept (hafter ▸ hkept _) (hdone hr)
    · exact .revoked hrevokes hafter (hdone hr)

/-- A call that failed leaves the refresh tokens. -/
theorem tokenStep_of_error {e : AuthEvent} {x : PersistenceError} (hresult : e.result = .error x)
    (hafter : e.after = e.before) : TokenStep R H e :=
  .kept (by rw [hafter]) fun session => by rw [hresult]; exact nofun

/-- What a finished call did to the refresh tokens. -/
theorem tokenStep_of_outcome {e : AuthEvent}
    (hR : ∀ K d, R K d e.before → ∀ h, .refreshToken h ∈ K →
      d.refreshToken h = e.before.refreshToken h)
    (h : authService.Outcome R e) : ∃ H, TokenStep R H e := by
  obtain ⟨H, b, ⟨hruns, hafter⟩ | ⟨_, -, herror, hafter⟩⟩ := h
  · exact ⟨H, tokenStep_of_runs hR hruns hafter⟩
  · exact ⟨H, tokenStep_of_error herror hafter⟩

end

end TaskTipsCloud

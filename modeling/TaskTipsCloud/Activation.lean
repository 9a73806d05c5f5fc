import TaskTipsCloud.Invitations

/-!
# Activation through invitations

An invitation activates the account of its address once. Its token is dead when it was used, revoked
or replaced, or when it has expired, and an account that has left the state `pending` stays out of
it, so no invitation sets its password any more.
-/

namespace TaskTipsCloud

open Txn

/-! ## What invitations promise -/

/-- A call that activated an account with a token. -/
def Activates (e : InviteEvent) (tokenHash : TokenHash) (userId : Uuid) : Prop :=
  ∃ passwordHash deviceId refresh session,
    e.request.call = .activateInvitation tokenHash passwordHash deviceId refresh ∧
      e.result = .ok (.session session) ∧ session.user.id = userId

/-- The token that a call would issue. -/
def drawnInvitation (e : InviteEvent) : Option (TokenHash × Timestamp) :=
  match e.request.call with
  | .createInvitation _ _ _ invitation => some (invitation.tokenHash, invitation.expiresAt)
  | .adminResendInvitation _ _ tokenHash expiresAt => some (tokenHash, expiresAt)
  | _ => none

/-- A call that revoked an invitation with a token, or gave it another token. -/
def EndsInvitation (e : InviteEvent) (tokenHash : TokenHash) : Prop :=
  ∃ x ∈ e.before.invitations, x.tokenHash = tokenHash ∧ (∃ reply, e.result = .ok reply) ∧
    ((∃ actorUserId, e.request.call = .adminRevokeInvitation actorUserId x.id) ∨
      (∃ actorUserId tokenHash' expiresAt,
        e.request.call = .adminResendInvitation actorUserId x.id tokenHash' expiresAt) ∨
      ∃ actorUserId userId invitationId invitation,
        e.request.call = .createInvitation actorUserId userId invitationId invitation ∧
          invitation.emailNormalized = x.emailNormalized)

/-- What holds of the invitations and the accounts in a run. -/
structure InvitationsSafe (h : List InviteEvent) : Prop where
  /-- A token activates at most one account, at most once. -/
  once : ∀ h₁ e h₂ tokenHash userId, h = h₁ ++ e :: h₂ → Activates e tokenHash userId →
    (∀ u, e.after.account u ≠ e.before.account u → u = userId) ∧
      ∀ e' ∈ h₂, ∀ u, ¬ Activates e' tokenHash u
  /-- A token that was revoked or replaced activates nothing. -/
  ended : ∀ h₁ e h₂ tokenHash, h = h₁ ++ e :: h₂ → EndsInvitation e tokenHash →
    ∀ e' ∈ h₂, ∀ u, ¬ Activates e' tokenHash u
  /-- A token that activates an account was issued, and has not expired. -/
  unexpired : ∀ h₁ e h₂ tokenHash userId, h = h₁ ++ e :: h₂ → Activates e tokenHash userId →
    (∃ e₀ ∈ h₁, ∃ expiresAt, drawnInvitation e₀ = some (tokenHash, expiresAt)) ∧
      ∀ e₀ ∈ h₁, ∀ expiresAt, drawnInvitation e₀ = some (tokenHash, expiresAt) →
        e.request.utcNow < expiresAt
  /-- An account that is activated was pending ever before. -/
  first : ∀ h₁ e h₂ tokenHash userId, h = h₁ ++ e :: h₂ → Activates e tokenHash userId →
    ∀ e' ∈ h₁ ++ [e], ∀ a, e'.before.account userId = some a → a.status = .pending
  /-- No other call sets a password. -/
  passwords : ∀ e ∈ h, ∀ u a a', e.before.account u = some a → e.after.account u = some a' →
    a'.passwordHash ≠ a.passwordHash → ∃ tokenHash, Activates e tokenHash u
  /-- An account that has left the state `pending` does not return to it. -/
  settled : ∀ h₁ e h₂ u a, h = h₁ ++ e :: h₂ → e.before.account u = some a → a.status ≠ .pending →
    ∀ e' ∈ e :: h₂, ∃ a', e'.after.account u = some a' ∧ a'.status ≠ .pending

/-! ## One call -/

/-- An account that an invitation adds. -/
def NewInvitation.account (invitation : NewInvitation) (userId : Uuid) : AccountRow where
  id := userId
  role := .user
  status := .pending
  emailNormalized := invitation.emailNormalized
  emailDisplay := invitation.emailDisplay
  passwordHash := ""

/-- An invitation that is added. -/
def NewInvitation.row (invitation : NewInvitation) (invitationId : Uuid) : InvitationRow where
  id := invitationId
  emailNormalized := invitation.emailNormalized
  emailDisplay := invitation.emailDisplay
  tokenHash := invitation.tokenHash
  expiresAt := invitation.expiresAt
  usedAt := none
  revokedAt := none

/-- An invitation with a new token. -/
def NewInvitation.renew (invitation : NewInvitation) (x : InvitationRow) : InvitationRow :=
  { x with tokenHash := invitation.tokenHash, emailDisplay := invitation.emailDisplay,
           expiresAt := invitation.expiresAt, usedAt := none, revokedAt := none }

/-- An account waits for the address of an invitation. -/
inductive NewInvitation.AddsAccount (invitation : NewInvitation) (userId : Uuid)
    (us : List AccountRow) : List AccountRow → Prop
  | found (u : AccountRow) (hu : u ∈ us)
      (haddress : u.emailNormalized = invitation.emailNormalized) :
      AddsAccount invitation userId us
        (updateWhere (·.emailNormalized == invitation.emailNormalized)
          (fun u => { u with emailDisplay := invitation.emailDisplay }) us)
  | added (haddress : ∀ u ∈ us, u.emailNormalized ≠ invitation.emailNormalized)
      (hid : ∀ u ∈ us, u.id ≠ userId) :
      AddsAccount invitation userId us (us ++ [invitation.account userId])

/-- The invitation of an address gets the token of another one. -/
inductive NewInvitation.AddsInvitation (invitation : NewInvitation) (invitationId : Uuid)
    (xs : List InvitationRow) : List InvitationRow → Prop
  | renewed (hnew : ∀ y ∈ xs, y.emailNormalized ≠ invitation.emailNormalized →
        y.tokenHash ≠ invitation.tokenHash) :
      AddsInvitation invitation invitationId xs
        (updateWhere (·.emailNormalized == invitation.emailNormalized) invitation.renew xs)
  | added (haddress : ∀ y ∈ xs, y.emailNormalized ≠ invitation.emailNormalized)
      (hnew : ∀ y ∈ xs, y.id ≠ invitationId ∧ y.tokenHash ≠ invitation.tokenHash) :
      AddsInvitation invitation invitationId xs (xs ++ [invitation.row invitationId])

/-- What a finished call did to the accounts and the invitations. -/
inductive InviteStep (e : InviteEvent) : Prop
  | kept (haccounts : e.after.accounts = e.before.accounts)
      (hinvitations : e.after.invitations = e.before.invitations)
      (hresult : ∀ reply, e.result ≠ .ok reply)
  | created {actorUserId userId invitationId : Uuid} {invitation : NewInvitation}
      (hcall : e.request.call = .createInvitation actorUserId userId invitationId invitation)
      (haccounts : invitation.AddsAccount userId e.before.accounts e.after.accounts)
      (hinvitations : invitation.AddsInvitation invitationId e.before.invitations
        e.after.invitations)
  | revoked {actorUserId invitationId : Uuid}
      (hcall : e.request.call = .adminRevokeInvitation actorUserId invitationId)
      (haccounts : e.after.accounts = e.before.accounts)
      (hinvitations : e.after.invitations =
        updateWhere (fun x => x.id == invitationId && x.usedAt.isNone && x.revokedAt.isNone)
          (fun x => { x with revokedAt := some e.request.now }) e.before.invitations)
  | resent {actorUserId invitationId : Uuid} {tokenHash : TokenHash} {expiresAt : Timestamp}
      (hcall : e.request.call = .adminResendInvitation actorUserId invitationId tokenHash expiresAt)
      (hfound : ∃ x ∈ e.before.invitations, x.id = invitationId ∧ x.usedAt = none)
      (hnew : ∀ y ∈ e.before.invitations, y.id ≠ invitationId → y.tokenHash ≠ tokenHash)
      (haccounts : e.after.accounts = e.before.accounts)
      (hinvitations : e.after.invitations =
        updateWhere (fun x => x.id == invitationId && x.usedAt.isNone)
          (fun x => { x with tokenHash := tokenHash, expiresAt := expiresAt, revokedAt := none })
            e.before.invitations)
  | activated {tokenHash : TokenHash} {passwordHash : String} {deviceId : Uuid}
      {refresh : NewRefreshToken} {x : InvitationRow} {u : AccountRow} {session : ActivatedSession}
      (hcall : e.request.call = .activateInvitation tokenHash passwordHash deviceId refresh)
      (hfound : e.before.invitations.find? (·.tokenHash == tokenHash) = some x)
      (hopen : x.usedAt = none ∧ x.revokedAt = none ∧ e.request.utcNow < x.expiresAt)
      (huser : e.before.accounts.find? (fun u =>
        u.emailNormalized == x.emailNormalized && u.status == .pending) = some u)
      (haccounts : e.after.accounts = updateWhere (fun u =>
        u.emailNormalized == x.emailNormalized && u.status == .pending)
          (fun u => { u with passwordHash := passwordHash, status := .active }) e.before.accounts)
      (hinvitations : e.after.invitations = updateWhere (·.id == x.id)
        (fun y => { y with usedAt := some e.request.now }) e.before.invitations)
      (hresult : e.result = .ok (.session session)) (hid : session.user.id = u.id)
  | statusSet {actorUserId subjectUserId : Uuid} {status : AccountStatus}
      (hcall : e.request.call = .adminSetAccountStatus actorUserId subjectUserId status)
      (hallowed : ∃ u, e.before.account subjectUserId = some u ∧
        allowedTransition u.status status = true)
      (haccounts : e.after.accounts = updateWhere (·.id == subjectUserId)
        (fun u => { u with status := status }) e.before.accounts)
      (hinvitations : e.after.invitations = e.before.invitations)

section

variable {e : InviteEvent} {d d' : InviteDb}

/-- The check of the administrator changes nothing. -/
theorem Invitations.run_requireAdmin {actorUserId : Uuid} {u : Unit}
    (h : (Invitations.requireAdmin actorUserId).run d = (.ok u, d')) : d = d' := by
  simp only [Invitations.requireAdmin, bind_eq, query_bind, run_read, run_require_ok_iff] at h
  exact h.2

/-- The account of an invitation is added, or the pending one is taken up again, and no
invitation changes. -/
theorem Invitations.run_upsertPendingAccount {userId : Uuid} {invitation : NewInvitation} {u : Unit}
    (h : (Invitations.upsertPendingAccount userId invitation).run d = (.ok u, d')) :
    invitation.AddsAccount userId d.accounts d'.accounts ∧ d'.invitations = d.invitations := by
  simp only [Invitations.upsertPendingAccount, bind_eq, query_bind, run_read] at h
  split at h
  · rename_i u hu
    rw [run_modify_ok_iff] at h
    subst h
    have haddress := List.find?_some hu
    exact ⟨.found u (List.mem_of_find?_eq_some hu) (beq_iff_eq.mp haddress), rfl⟩
  · rename_i hnone
    simp only [run_bind_ok_iff, run_require_ok_iff, run_read, run_modify_ok_iff,
      Option.isNone_iff_eq_none] at h
    obtain ⟨_, _, ⟨hid, rfl⟩, rfl⟩ := h
    refine ⟨.added (fun u hu => ?_) fun u hu => ?_, rfl⟩
    · simpa using List.find?_eq_none.mp hnone u hu
    · simpa using List.find?_eq_none.mp hid u hu

/-- The invitation for an address is added or replaced, and no account changes. -/
theorem Invitations.run_upsertInvitation {invitationId : Uuid} {invitation : NewInvitation}
    {record : InvitationRecord}
    (h : (Invitations.upsertInvitation invitationId invitation).run d = (.ok record, d')) :
    invitation.AddsInvitation invitationId d.invitations d'.invitations ∧
      d'.accounts = d.accounts := by
  simp only [Invitations.upsertInvitation, bind_eq, query_bind, run_read] at h
  split at h
  · simp only [run_bind_ok_iff, run_require_ok_iff, run_read, run_modify_ok_iff] at h
    obtain ⟨_, _, ⟨hnew, rfl⟩, _, _, rfl, hend⟩ := h
    obtain ⟨-, rfl⟩ := run_pure_ok_iff.mp hend
    refine ⟨.renewed fun y hy haddress => ?_, rfl⟩
    simpa [haddress] using List.all_eq_true.mp hnew y hy
  · rename_i hnone
    simp only [run_bind_ok_iff, run_require_ok_iff, run_read, run_modify_ok_iff] at h
    obtain ⟨_, _, ⟨hnew, rfl⟩, _, _, rfl, hend⟩ := h
    obtain ⟨-, rfl⟩ := run_pure_ok_iff.mp hend
    refine ⟨.added (fun y hy => ?_) fun y hy => ?_, rfl⟩
    · simpa using List.find?_eq_none.mp hnone y hy
    · simpa using List.all_eq_true.mp hnew y hy

/-- A device changes neither accounts nor invitations. -/
theorem Invitations.run_ensureDevice {userId deviceId : Uuid} {u : Unit}
    (h : (Invitations.ensureDevice userId deviceId).run d = (.ok u, d')) :
    d'.accounts = d.accounts ∧ d'.invitations = d.invitations := by
  simp only [Invitations.ensureDevice, bind_eq, query_bind, run_read] at h
  split at h
  · simp only [run_bind_ok_iff, run_require_ok_iff] at h
    obtain ⟨_, _, ⟨-, rfl⟩, -, rfl⟩ := h
    exact ⟨rfl, rfl⟩
  · rw [run_modify_ok_iff] at h
    subst h
    exact ⟨rfl, rfl⟩

/-- Neither does a refresh token. -/
theorem Invitations.run_insertRefresh {userId deviceId : Uuid} {refresh : NewRefreshToken}
    {u : Unit} (h : (Invitations.insertRefresh userId deviceId refresh).run d = (.ok u, d')) :
    d'.accounts = d.accounts ∧ d'.invitations = d.invitations := by
  simp only [Invitations.insertRefresh, bind_eq, query_bind, run_read, run_bind_ok_iff,
    run_require_ok_iff, run_modify_ok_iff] at h
  obtain ⟨_, _, ⟨-, rfl⟩, rfl⟩ := h
  exact ⟨rfl, rfl⟩

/-- A call whose body returned, or that did nothing. -/
theorem inviteStep_of_execute {α : Type} {reply : α → InviteReply}
    {x : InviteTx (Except PersistenceError α)}
    (hresult : e.result = ((inviting reply x).execute e.before).1)
    (hafter : e.after = ((inviting reply x).execute e.before).2)
    (hok : ∀ r d', x.run e.before = (.ok r, d') → e.result = r.map reply → e.after = d' →
      InviteStep e) : InviteStep e := by
  rw [inviting, execute_bind_map] at hresult hafter
  rcases hexecute : x.execute e.before with ⟨r, d'⟩
  rw [hexecute] at hresult hafter
  rcases execute_cases hexecute with hrun | ⟨rfl, _, _, -, rfl⟩
  · exact hok r d' hrun hresult hafter
  · refine .kept (by rw [hafter]) (by rw [hafter]) fun reply => ?_
    rw [hresult]
    exact nofun

/-- Every call that is executed alone does one step. -/
theorem inviteStep_alone (q : InviteRequest) (d : InviteDb) :
    InviteStep (inviteService.alone q d) := by
  obtain ⟨now, utcNow, call⟩ := q
  generalize he : inviteService.alone ⟨now, utcNow, call⟩ d = e
  have hrequest : e.request = ⟨now, utcNow, call⟩ := by rw [← he]; rfl
  have hresult : e.result = ((call.body now utcNow).execute e.before).1 := by rw [← he]; rfl
  have hafter : e.after = ((call.body now utcNow).execute e.before).2 := by rw [← he]; rfl
  have hcall : e.request.call = call := by rw [hrequest]
  obtain rfl : e.request.now = now := by rw [hrequest]
  obtain rfl : e.request.utcNow = utcNow := by rw [hrequest]
  cases call with
  | createInvitation actorUserId userId invitationId invitation =>
    refine inviteStep_of_execute hresult hafter fun r d' hrun _ hafter => ?_
    simp only [Invitations.createInvitation, bind_eq, query_bind, run_read, run_bind_ok_iff,
      run_require_ok_iff, pure_eq, run_pure_ok_iff] at hrun
    obtain ⟨_, _, hadmin, _, _, ⟨-, rfl⟩, _, d₁, haccount, _, d₂, hinvitation, -, rfl⟩ := hrun
    obtain rfl := Invitations.run_requireAdmin hadmin
    -- The account is written first, then the invitation; neither touches the other's table.
    obtain ⟨haccounts, hinvitations₁⟩ := Invitations.run_upsertPendingAccount haccount
    obtain ⟨hinvitations, haccounts₂⟩ := Invitations.run_upsertInvitation hinvitation
    rw [hinvitations₁] at hinvitations
    rw [← haccounts₂] at haccounts
    subst hafter
    exact .created hcall haccounts hinvitations
  | adminRevokeInvitation actorUserId invitationId =>
    refine inviteStep_of_execute hresult hafter fun r d' hrun _ hafter => ?_
    simp only [Invitations.adminRevokeInvitation, bind_eq, query_bind, run_read, run_bind_ok_iff,
      run_require_ok_iff, run_modify_ok_iff, pure_eq, run_pure_ok_iff] at hrun
    obtain ⟨_, _, hadmin, _, _, ⟨-, rfl⟩, _, _, rfl, -, rfl⟩ := hrun
    obtain rfl := Invitations.run_requireAdmin hadmin
    exact .revoked hcall ((congrArg InviteDb.accounts hafter).trans rfl)
      ((congrArg InviteDb.invitations hafter).trans rfl)
  | adminResendInvitation actorUserId invitationId tokenHash expiresAt =>
    refine inviteStep_of_execute hresult hafter fun r d' hrun _ hafter => ?_
    simp only [Invitations.adminResendInvitation, bind_eq, query_bind, run_read, run_bind_ok_iff,
      run_orThrow_ok_iff, run_require_ok_iff, run_modify_ok_iff, pure_eq, run_pure_ok_iff] at hrun
    obtain ⟨_, _, hadmin, x, _, ⟨hx, rfl⟩, _, _, ⟨hnew, rfl⟩, _, _, rfl, -, rfl⟩ := hrun
    obtain rfl := Invitations.run_requireAdmin hadmin
    have hunused := List.find?_some hx
    simp only [Bool.and_eq_true, beq_iff_eq, Option.isNone_iff_eq_none] at hunused
    -- The unique index on the tokens.
    have hothers : ∀ y ∈ e.before.invitations, y.id ≠ invitationId → y.tokenHash ≠ tokenHash := by
      intro y hy hid
      simpa [hid] using List.all_eq_true.mp hnew y hy
    exact .resent hcall ⟨x, List.mem_of_find?_eq_some hx, hunused⟩ hothers
      ((congrArg InviteDb.accounts hafter).trans rfl)
      ((congrArg InviteDb.invitations hafter).trans rfl)
  | activateInvitation tokenHash passwordHash deviceId refresh =>
    refine inviteStep_of_execute hresult hafter fun r d' hrun hresult hafter => ?_
    simp only [Invitations.activateInvitation, bind_eq, query_bind, run_read, run_bind_ok_iff,
      run_orThrow_ok_iff, run_require_ok_iff, run_modify_ok_iff, pure_eq, run_pure_ok_iff] at hrun
    obtain ⟨x, _, ⟨hfound, rfl⟩, _, _, ⟨hopen, rfl⟩, u, _, ⟨huser, rfl⟩, _, _, rfl, _, _, rfl, _,
      d₁, hdevice, _, d₂, hrefresh, rfl, rfl⟩ := hrun
    obtain ⟨haccounts₁, hinvitations₁⟩ := Invitations.run_ensureDevice hdevice
    obtain ⟨haccounts₂, hinvitations₂⟩ := Invitations.run_insertRefresh hrefresh
    simp only [Bool.and_eq_true, Option.isNone_iff_eq_none, decide_eq_true_eq] at hopen
    subst hafter
    exact .activated hcall hfound ⟨hopen.1.1, hopen.1.2, hopen.2⟩ huser
      (haccounts₂.trans haccounts₁) (hinvitations₂.trans hinvitations₁) hresult rfl
  | adminSetAccountStatus actorUserId subjectUserId status =>
    refine inviteStep_of_execute hresult hafter fun r d' hrun _ hafter => ?_
    simp only [Invitations.adminSetAccountStatus, bind_eq, query_bind, run_read, run_bind_ok_iff,
      run_orThrow_ok_iff, run_require_ok_iff, run_modify_ok_iff, pure_eq] at hrun
    obtain ⟨_, _, hadmin, u, _, ⟨huser, rfl⟩, _, _, ⟨hallowed, rfl⟩, _, _, rfl, hend⟩ := hrun
    obtain rfl := Invitations.run_requireAdmin hadmin
    -- A disabled account also loses its sessions, which are kept elsewhere.
    have hsame : d'.accounts = (e.before.updateAccounts (·.id == subjectUserId)
        fun u => { u with status := status }).accounts ∧
          d'.invitations = e.before.invitations := by
      split at hend
      · simp only [run_bind_ok_iff, run_modify_ok_iff, run_pure_ok_iff] at hend
        obtain ⟨_, _, rfl, -, rfl⟩ := hend
        exact ⟨rfl, rfl⟩
      · obtain ⟨-, rfl⟩ := run_pure_ok_iff.mp hend
        exact ⟨rfl, rfl⟩
    exact .statusSet hcall ⟨u, huser, hallowed⟩ (hafter ▸ hsame.1) (hafter ▸ hsame.2)

end

/-! ## What every state keeps -/

/-- The columns of the accounts and the invitations that are unique. -/
structure InviteDb.Keyed (d : InviteDb) : Prop where
  accountIds : (d.accounts.map (·.id)).Nodup
  accountEmails : (d.accounts.map (·.emailNormalized)).Nodup
  invitationIds : (d.invitations.map (·.id)).Nodup
  addresses : (d.invitations.map (·.emailNormalized)).Nodup
  tokenHashes : (d.invitations.map (·.tokenHash)).Nodup

/-- An invitation whose token is used or revoked. -/
def InvitationRow.Spent (x : InvitationRow) : Prop :=
  x.usedAt ≠ none ∨ x.revokedAt ≠ none

/-- No invitation with a token is open. -/
def InviteDb.Dead (d : InviteDb) (tokenHash : TokenHash) : Prop :=
  ∀ x ∈ d.invitations, x.tokenHash = tokenHash → x.Spent

section

variable {e : InviteEvent} {d : InviteDb} {u : Uuid} {a : AccountRow} {tokenHash : TokenHash}

/-- Adding an account keeps the identifiers and the addresses distinct. -/
theorem NewInvitation.AddsAccount.nodup {invitation : NewInvitation} {userId : Uuid}
    {us us' : List AccountRow} (h : invitation.AddsAccount userId us us')
    (hids : (us.map (·.id)).Nodup) (hemails : (us.map (·.emailNormalized)).Nodup) :
    (us'.map (·.id)).Nodup ∧ (us'.map (·.emailNormalized)).Nodup := by
  cases h with
  | found =>
    exact ⟨nodup_map_updateWhere_same hids fun _ => rfl,
      nodup_map_updateWhere_same hemails fun _ => rfl⟩
  | added haddress hid => exact ⟨nodup_map_concat hids hid, nodup_map_concat hemails haddress⟩

/-- Adding an invitation keeps the identifiers, the addresses and the tokens distinct. -/
theorem NewInvitation.AddsInvitation.nodup {invitation : NewInvitation} {invitationId : Uuid}
    {xs xs' : List InvitationRow} (h : invitation.AddsInvitation invitationId xs xs')
    (hids : (xs.map (·.id)).Nodup) (haddresses : (xs.map (·.emailNormalized)).Nodup)
    (htokens : (xs.map (·.tokenHash)).Nodup) :
    (xs'.map (·.id)).Nodup ∧ (xs'.map (·.emailNormalized)).Nodup ∧
      (xs'.map (·.tokenHash)).Nodup := by
  cases h with
  | renewed hnew =>
    exact ⟨nodup_map_updateWhere_same hids fun _ => rfl,
      nodup_map_updateWhere_same haddresses fun _ => rfl,
      nodup_map_updateWhere haddresses htokens (fun _ _ hp => beq_iff_eq.mp hp) (fun _ => rfl) hnew⟩
  | added haddress hnew =>
    exact ⟨nodup_map_concat hids fun y hy => (hnew y hy).1, nodup_map_concat haddresses haddress,
      nodup_map_concat htokens fun y hy => (hnew y hy).2⟩

/-- Every step keeps the unique columns. -/
theorem InviteStep.keyed (h : InviteStep e) (hd : e.before.Keyed) : e.after.Keyed := by
  obtain ⟨hids, hemails, hinvitationIds, haddresses, htokens⟩ := hd
  cases h with
  | kept haccounts hinvitations _ =>
    constructor
    · rwa [haccounts]
    · rwa [haccounts]
    · rwa [hinvitations]
    · rwa [hinvitations]
    · rwa [hinvitations]
  | created _ haccounts hinvitations =>
    obtain ⟨hids', hemails'⟩ := haccounts.nodup hids hemails
    obtain ⟨hinvitationIds', haddresses', htokens'⟩ :=
      hinvitations.nodup hinvitationIds haddresses htokens
    exact ⟨hids', hemails', hinvitationIds', haddresses', htokens'⟩
  | revoked _ haccounts hinvitations =>
    constructor
    · rwa [haccounts]
    · rwa [haccounts]
    · exact hinvitations ▸ nodup_map_updateWhere_same hinvitationIds fun _ => rfl
    · exact hinvitations ▸ nodup_map_updateWhere_same haddresses fun _ => rfl
    · exact hinvitations ▸ nodup_map_updateWhere_same htokens fun _ => rfl
  | resent _ _ hnew haccounts hinvitations =>
    constructor
    · rwa [haccounts]
    · rwa [haccounts]
    · exact hinvitations ▸ nodup_map_updateWhere_same hinvitationIds fun _ => rfl
    · exact hinvitations ▸ nodup_map_updateWhere_same haddresses fun _ => rfl
    · rw [hinvitations]
      -- The one row that is updated gets a token that no other row has.
      refine nodup_map_updateWhere hinvitationIds htokens (fun x _ hx => ?_) (fun _ => rfl) hnew
      exact beq_iff_eq.mp (Bool.and_eq_true_iff.mp hx).1
  | activated _ _ _ _ haccounts hinvitations _ _ =>
    constructor
    · exact haccounts ▸ nodup_map_updateWhere_same hids fun _ => rfl
    · exact haccounts ▸ nodup_map_updateWhere_same hemails fun _ => rfl
    · exact hinvitations ▸ nodup_map_updateWhere_same hinvitationIds fun _ => rfl
    · exact hinvitations ▸ nodup_map_updateWhere_same haddresses fun _ => rfl
    · exact hinvitations ▸ nodup_map_updateWhere_same htokens fun _ => rfl
  | statusSet _ _ haccounts hinvitations =>
    constructor
    · exact haccounts ▸ nodup_map_updateWhere_same hids fun _ => rfl
    · exact haccounts ▸ nodup_map_updateWhere_same hemails fun _ => rfl
    · rwa [hinvitations]
    · rwa [hinvitations]
    · rwa [hinvitations]

/-- An account that an activation found, and how it left the tables. -/
theorem InviteStep.of_activates (h : InviteStep e) (hactivates : Activates e tokenHash u) :
    ∃ passwordHash x a, e.before.invitations.find? (·.tokenHash == tokenHash) = some x ∧
      (x.usedAt = none ∧ x.revokedAt = none ∧ e.request.utcNow < x.expiresAt) ∧
      e.before.accounts.find? (fun a => a.emailNormalized == x.emailNormalized &&
        a.status == .pending) = some a ∧ a.id = u ∧
      e.after.accounts = updateWhere (fun a => a.emailNormalized == x.emailNormalized &&
          a.status == .pending)
        (fun a => { a with passwordHash := passwordHash, status := .active }) e.before.accounts ∧
      e.after.invitations = updateWhere (·.id == x.id)
        (fun y => { y with usedAt := some e.request.now }) e.before.invitations := by
  obtain ⟨passwordHash, deviceId, refresh, session, hcall, hresult, hid⟩ := hactivates
  cases h with
  | kept _ _ hnot => exact absurd hresult (hnot _)
  | created hcall' => cases hcall.symm.trans hcall'
  | revoked hcall' => cases hcall.symm.trans hcall'
  | resent hcall' => cases hcall.symm.trans hcall'
  | @activated _ passwordHash' _ _ x a session' hcall' hfound hopen huser haccounts hinvitations
      hresult' hid' =>
    cases hcall.symm.trans hcall'
    cases hresult.symm.trans hresult'
    exact ⟨passwordHash, x, a, hfound, hopen, huser, hid'.symm.trans hid, haccounts, hinvitations⟩
  | statusSet hcall' => cases hcall.symm.trans hcall'

/-- What a step keeps of an account: it does not return to `pending`, and only an activation sets
its password. -/
theorem InviteStep.account (h : InviteStep e) (hd : e.before.Keyed)
    (ha : e.before.account u = some a) : ∃ a', e.after.account u = some a' ∧
      (a.status ≠ .pending → a'.status ≠ .pending) ∧
      (a'.passwordHash ≠ a.passwordHash → ∃ tokenHash, Activates e tokenHash u) := by
  have hupdate : ∀ {p : AccountRow → Bool} {f : AccountRow → AccountRow},
      (∀ row, (f row).id = row.id) →
      (updateWhere p f e.before.accounts).find? (·.id == u) = some (if p a then f a else a) := by
    intro p f hf
    have hfind : e.before.accounts.find? (·.id == u) = some a := ha
    rw [find?_updateWhere fun row _ => by rw [hf], hfind]
    rfl
  have hsame : e.after.accounts = e.before.accounts → ∃ a', e.after.account u = some a' ∧
      (a.status ≠ .pending → a'.status ≠ .pending) ∧
      (a'.passwordHash ≠ a.passwordHash → ∃ tokenHash, Activates e tokenHash u) := fun haccounts =>
    ⟨a, by rw [InviteDb.account, haccounts]; exact ha, id, fun hne => absurd rfl hne⟩
  cases h with
  | kept haccounts => exact hsame haccounts
  | @created _ userId _ invitation _ haccounts _ =>
    generalize hafter : e.after.accounts = us at haccounts
    cases haccounts with
    | found =>
      refine ⟨_, (congrArg _ hafter).trans (hupdate fun _ => rfl), fun hne => ?_, fun hne => ?_⟩
      · split <;> exact hne
      · split at hne <;> exact absurd rfl hne
    | added =>
      refine ⟨a, (congrArg _ hafter).trans ?_, id, fun hne => absurd rfl hne⟩
      rw [List.find?_append]
      exact congrArg (Option.or · _) ha
  | revoked _ haccounts => exact hsame haccounts
  | resent _ _ _ haccounts => exact hsame haccounts
  -- The activation sets the password of the account of its invitation, found by address.
  | @activated tokenHash passwordHash deviceId refresh x a₀ session hcall _ _ huser haccounts _
      hresult hid =>
    refine ⟨_, (congrArg _ haccounts).trans (hupdate fun _ => rfl), fun hne => ?_, fun hne => ?_⟩
    · split
      · exact nofun
      · exact hne
    · split at hne
      · rename_i hmatch
        have hmem := List.mem_of_find?_eq_some ha
        have hmem₀ := List.mem_of_find?_eq_some huser
        have hmatch₀ := List.find?_some huser
        simp only [Bool.and_eq_true, beq_iff_eq] at hmatch hmatch₀
        obtain rfl := List.inj_on_of_nodup_map hd.accountEmails hmem hmem₀
          (hmatch.1.trans hmatch₀.1.symm)
        have hu : a.id = u := by simpa using List.find?_some ha
        exact ⟨tokenHash, passwordHash, deviceId, refresh, session, hcall, hresult, hid.trans hu⟩
      · exact absurd rfl hne
  | @statusSet _ subjectUserId status _ hallowed haccounts _ =>
    refine ⟨_, (congrArg _ haccounts).trans (hupdate fun _ => rfl), fun hne => ?_, fun hne => ?_⟩
    · split
      · -- No transition that is allowed leads to `pending`.
        obtain ⟨a₀, -, htransition⟩ := hallowed
        intro hpending
        rw [show status = .pending from hpending] at htransition
        cases hstatus : a₀.status <;> rw [hstatus] at htransition <;> cases htransition
      · exact hne
    · split at hne <;> exact absurd rfl hne

/-- An activation changes one account. -/
theorem InviteStep.account_of_activates (h : InviteStep e) (hd : e.before.Keyed)
    (hactivates : Activates e tokenHash u) {v : Uuid}
    (hne : e.after.account v ≠ e.before.account v) :
    v = u := by
  obtain ⟨passwordHash, x, a, -, -, huser, rfl, haccounts, -⟩ := h.of_activates hactivates
  unfold InviteDb.account at hne
  rw [haccounts, find?_updateWhere] at hne
  · cases hfind : e.before.accounts.find? (·.id == v) with
    | none => exact absurd (by rw [hfind]; rfl) hne
    | some b =>
      rw [hfind, Option.map_some] at hne
      split at hne
      · rename_i hmatch
        have hmatch₀ := List.find?_some huser
        simp only [Bool.and_eq_true, beq_iff_eq] at hmatch hmatch₀
        obtain rfl := List.inj_on_of_nodup_map hd.accountEmails (List.mem_of_find?_eq_some hfind)
          (List.mem_of_find?_eq_some huser) (hmatch.1.trans hmatch₀.1.symm)
        exact (by simpa using List.find?_some hfind : b.id = v).symm
      · exact absurd rfl hne
  · exact fun _ _ => rfl

/-- An invitation after a step: its token was issued there, or it had it before. -/
theorem InviteStep.invitation (h : InviteStep e) {x : InvitationRow}
    (hx : x ∈ e.after.invitations) : drawnInvitation e = some (x.tokenHash, x.expiresAt) ∨
      ∃ y ∈ e.before.invitations, y.tokenHash = x.tokenHash ∧ y.expiresAt = x.expiresAt ∧
        (y.Spent → x.Spent) := by
  cases h with
  | kept _ hinvitations => exact .inr ⟨x, hinvitations ▸ hx, rfl, rfl, id⟩
  | created hcall _ hinvitations =>
    generalize e.after.invitations = xs at hinvitations hx
    cases hinvitations with
    | renewed =>
      obtain ⟨y, hy, rfl⟩ := List.mem_map.mp hx
      split
      · exact .inl (by rw [drawnInvitation, hcall]; rfl)
      · exact .inr ⟨y, hy, rfl, rfl, id⟩
    | added =>
      rcases List.mem_append.mp hx with hx | hx
      · exact .inr ⟨x, hx, rfl, rfl, id⟩
      · obtain rfl := List.mem_singleton.mp hx
        exact .inl (by rw [drawnInvitation, hcall]; rfl)
  | revoked _ _ hinvitations =>
    obtain ⟨y, hy, rfl⟩ := List.mem_map.mp (hinvitations ▸ hx)
    split
    · exact .inr ⟨y, hy, rfl, rfl, fun _ => .inr nofun⟩
    · exact .inr ⟨y, hy, rfl, rfl, id⟩
  | resent hcall _ _ _ hinvitations =>
    obtain ⟨y, hy, rfl⟩ := List.mem_map.mp (hinvitations ▸ hx)
    split
    · exact .inl (by rw [drawnInvitation, hcall])
    · exact .inr ⟨y, hy, rfl, rfl, id⟩
  | activated _ _ _ _ _ hinvitations _ _ =>
    obtain ⟨y, hy, rfl⟩ := List.mem_map.mp (hinvitations ▸ hx)
    split
    · exact .inr ⟨y, hy, rfl, rfl, fun _ => .inl nofun⟩
    · exact .inr ⟨y, hy, rfl, rfl, id⟩
  | statusSet _ _ _ hinvitations => exact .inr ⟨x, hinvitations ▸ hx, rfl, rfl, id⟩

/-- A dead token stays dead when it is not issued again. -/
theorem InviteStep.dead (h : InviteStep e) (hdead : e.before.Dead tokenHash)
    (hfresh : ∀ expiresAt, drawnInvitation e ≠ some (tokenHash, expiresAt)) :
    e.after.Dead tokenHash := by
  intro x hx htoken
  rcases h.invitation hx with hdrawn | ⟨y, hy, hsame, -, hspent⟩
  · exact absurd (htoken ▸ hdrawn) (hfresh _)
  · exact hspent (hdead y hy (hsame.trans htoken))

/-- A dead token activates nothing. -/
theorem InviteStep.not_activates (h : InviteStep e) (hdead : e.before.Dead tokenHash) :
    ¬ Activates e tokenHash u := by
  intro hactivates
  obtain ⟨_, x, _, hfound, ⟨hunused, hopen, -⟩, -, -, -, -⟩ := h.of_activates hactivates
  rcases hdead x (List.mem_of_find?_eq_some hfound) (by simpa using List.find?_some hfound) with
    hused | hrevoked
  · exact hused hunused
  · exact hrevoked hopen

/-- An activation leaves its token dead. -/
theorem InviteStep.dead_of_activates (h : InviteStep e) (hd : e.before.Keyed)
    (hactivates : Activates e tokenHash u) : e.after.Dead tokenHash := by
  obtain ⟨_, x, _, hfound, -, -, -, -, hinvitations⟩ := h.of_activates hactivates
  intro y hy htoken
  obtain ⟨z, hz, rfl⟩ := List.mem_map.mp (hinvitations ▸ hy)
  have hx : x.tokenHash = tokenHash := by simpa using List.find?_some hfound
  have hz' : z.tokenHash = tokenHash := by
    split at htoken <;> exact htoken
  obtain rfl := List.inj_on_of_nodup_map hd.tokenHashes hz (List.mem_of_find?_eq_some hfound)
    (hz'.trans hx.symm)
  rw [if_pos (beq_self_eq_true _)]
  exact .inl nofun

/-- The end of an invitation leaves its token dead. -/
theorem InviteStep.dead_of_ends (h : InviteStep e) (hd : e.before.Keyed)
    (hends : EndsInvitation e tokenHash)
    (hfresh : ∀ expiresAt, drawnInvitation e ≠ some (tokenHash, expiresAt)) :
    e.after.Dead tokenHash := by
  obtain ⟨x, hx, htoken, ⟨reply, hreply⟩, hends⟩ := hends
  have hsame : ∀ z ∈ e.before.invitations, z.tokenHash = tokenHash → z = x := fun z hz hz' =>
    List.inj_on_of_nodup_map hd.tokenHashes hz hx (hz'.trans htoken.symm)
  intro y hy hy'
  -- The call of the step is the one that ends the invitation, so most pairs of cases are void.
  cases h with
  | kept _ _ hnot => exact absurd hreply (hnot _)
  | created hcall _ hinvitations =>
    rw [drawnInvitation, hcall] at hfresh
    rcases hends with ⟨_, hcall'⟩ | ⟨_, _, _, hcall'⟩ | ⟨_, _, _, _, hcall', haddress⟩
    · cases hcall.symm.trans hcall'
    · cases hcall.symm.trans hcall'
    · cases hcall.symm.trans hcall'
      generalize e.after.invitations = ys at hinvitations hy
      cases hinvitations with
      | renewed =>
        obtain ⟨z, hz, rfl⟩ := List.mem_map.mp hy
        split at hy'
        · -- The renewed row has the token just drawn, which is another one.
          exact absurd (by rw [← hy']; rfl) (hfresh _)
        · rename_i hnot
          obtain rfl := hsame z hz hy'
          exact absurd (beq_iff_eq.mpr haddress.symm) hnot
      | added hnew => exact absurd haddress.symm (hnew x hx)
  | revoked hcall _ hinvitations =>
    rcases hends with ⟨_, hcall'⟩ | ⟨_, _, _, hcall'⟩ | ⟨_, _, _, _, hcall', -⟩
    · cases hcall.symm.trans hcall'
      obtain ⟨z, hz, rfl⟩ := List.mem_map.mp (hinvitations ▸ hy)
      split
      · exact .inr nofun
      · rename_i hnot
        rw [if_neg hnot] at hy'
        obtain rfl := hsame z hz hy'
        -- What the statement passes over was used or revoked before.
        by_contra hopen
        simp only [InvitationRow.Spent, not_or, not_not] at hopen
        exact hnot (by simp [hopen.1, hopen.2])
    · cases hcall.symm.trans hcall'
    · cases hcall.symm.trans hcall'
  | resent hcall _ _ _ hinvitations =>
    rcases hends with ⟨_, hcall'⟩ | ⟨_, _, _, hcall'⟩ | ⟨_, _, _, _, hcall', -⟩
    · cases hcall.symm.trans hcall'
    · cases hcall.symm.trans hcall'
      rw [drawnInvitation, hcall] at hfresh
      obtain ⟨z, hz, rfl⟩ := List.mem_map.mp (hinvitations ▸ hy)
      split at hy'
      · exact absurd (by rw [← hy']) (hfresh _)
      · rename_i hnot
        rw [if_neg hnot]
        obtain rfl := hsame z hz hy'
        exact .inl fun hunused => hnot (by simp [hunused])
    · cases hcall.symm.trans hcall'
  | activated hcall =>
    rcases hends with ⟨_, hcall'⟩ | ⟨_, _, _, hcall'⟩ | ⟨_, _, _, _, hcall', -⟩ <;>
      cases hcall.symm.trans hcall'
  | statusSet hcall =>
    rcases hends with ⟨_, hcall'⟩ | ⟨_, _, _, hcall'⟩ | ⟨_, _, _, _, hcall', -⟩ <;>
      cases hcall.symm.trans hcall'

end

/-! ## Whole runs -/

section

variable {d d' : InviteDb} {t₀ t : ℤ} {h h₁ h₂ : List InviteEvent} {e : InviteEvent}
  {tokenHash : TokenHash} {u : Uuid} {a : AccountRow}

/-- The unique columns stay unique. -/
theorem keyed_of_serial (hrun : inviteService.Serial d t₀ h d' t) (hd : d.Keyed) : d'.Keyed :=
  Service.Serial.invariant (J := fun _ d' _ => d'.Keyed) hrun hd
    fun _ s _ q _ _ _ hs => (inviteStep_alone q s).keyed hs

/-- A dead token that is not issued again stays dead, and activates nothing. -/
theorem dead_of_serial (hrun : inviteService.Serial d t₀ h d' t) (hdead : d.Dead tokenHash)
    (hfresh : ∀ e ∈ h, ∀ expiresAt, drawnInvitation e ≠ some (tokenHash, expiresAt)) :
    ∀ e ∈ h, ∀ u, ¬ Activates e tokenHash u := by
  have hboth := Service.Serial.invariant (J := fun h d' _ =>
    (∀ e ∈ h, ∀ expiresAt, drawnInvitation e ≠ some (tokenHash, expiresAt)) →
      d'.Dead tokenHash ∧ ∀ e ∈ h, ∀ u, ¬ Activates e tokenHash u) hrun
    (fun _ => ⟨hdead, fun _ he => absurd he List.not_mem_nil⟩) ?_
  · exact (hboth hfresh).2
  · intro h s t q _ _ _ ih hfresh
    obtain ⟨hs, hnone⟩ := ih fun e he => hfresh e (List.mem_append_left _ he)
    have hstep := inviteStep_alone q s
    refine ⟨hstep.dead hs (hfresh _ (List.mem_append_right _ (List.mem_singleton_self _))),
      fun e he u => ?_⟩
    rcases List.mem_append.mp he with he | he
    · exact hnone e he u
    · rw [List.mem_singleton.mp he]
      exact hstep.not_activates hs

/-- Every invitation was issued. -/
theorem issued_of_serial (hrun : inviteService.Serial d t₀ h d' t) (hnone : d.invitations = []) :
    ∀ x ∈ d'.invitations, ∃ e ∈ h, drawnInvitation e = some (x.tokenHash, x.expiresAt) := by
  refine Service.Serial.invariant (J := fun h d' _ => ∀ x ∈ d'.invitations,
    ∃ e ∈ h, drawnInvitation e = some (x.tokenHash, x.expiresAt)) hrun ?_ ?_
  · rw [hnone]
    exact nofun
  · intro h s t q _ _ _ ih x hx
    rcases (inviteStep_alone q s).invitation hx with hdrawn | ⟨y, hy, htoken, hexpires, -⟩
    · exact ⟨_, List.mem_append_right _ (List.mem_singleton_self _), hdrawn⟩
    · obtain ⟨e, he, hdrawn⟩ := ih y hy
      exact ⟨e, List.mem_append_left _ he, by rw [hdrawn, htoken, hexpires]⟩

/-- An account that has left the state `pending` does not return to it. -/
theorem settled_of_serial (hrun : inviteService.Serial d t₀ h d' t) (hd : d.Keyed)
    (ha : d.account u = some a) (hsettled : a.status ≠ .pending) :
    (∃ a', d'.account u = some a' ∧ a'.status ≠ .pending) ∧
      ∀ e ∈ h, ∃ a', e.after.account u = some a' ∧ a'.status ≠ .pending := by
  have hall := Service.Serial.invariant (J := fun h d' _ => d'.Keyed ∧
    (∃ a', d'.account u = some a' ∧ a'.status ≠ .pending) ∧
      ∀ e ∈ h, ∃ a', e.after.account u = some a' ∧ a'.status ≠ .pending) hrun
    ⟨hd, ⟨a, ha, hsettled⟩, fun _ he => absurd he List.not_mem_nil⟩ ?_
  · exact hall.2
  · rintro h s t q _ _ _ ⟨hs, ⟨b, hb, hsettled⟩, hevents⟩
    have hstep := inviteStep_alone q s
    obtain ⟨b', hb', hsettled', -⟩ := hstep.account hs hb
    refine ⟨hstep.keyed hs, ⟨b', hb', hsettled' hsettled⟩, fun e he => ?_⟩
    rcases List.mem_append.mp he with he | he
    · exact hevents e he
    · rw [List.mem_singleton.mp he]
      exact ⟨b', hb', hsettled' hsettled⟩

/-- Issued tokens differ, before and after a call. -/
theorem not_drawn_again (hdrawn : (((h₁ ++ h₂).filterMap drawnInvitation).map Prod.fst).Nodup)
    {e₀ : InviteEvent} {expiresAt : Timestamp} (he₀ : e₀ ∈ h₁)
    (htoken : drawnInvitation e₀ = some (tokenHash, expiresAt)) :
    ∀ e ∈ h₂, ∀ expiresAt, drawnInvitation e ≠ some (tokenHash, expiresAt) := by
  intro e he expiresAt' hagain
  rw [List.filterMap_append, List.map_append, List.nodup_append] at hdrawn
  exact hdrawn.2.2 tokenHash (List.mem_map.mpr ⟨_, List.mem_filterMap.mpr ⟨e₀, he₀, htoken⟩, rfl⟩)
    tokenHash (List.mem_map.mpr ⟨_, List.mem_filterMap.mpr ⟨e, he, hagain⟩, rfl⟩) rfl

/-- What a call of a run finds. -/
theorem call_of_serial (hd : d.Keyed) (hnone : d.invitations = [])
    (hrun : inviteService.Serial d t₀ (h₁ ++ e :: h₂) d' t) :
    InviteStep e ∧ e.before.Keyed ∧ (∃ t₁, inviteService.Serial e.after t₁ h₂ d' t) ∧
      ∀ x ∈ e.before.invitations, ∃ e₀ ∈ h₁,
        drawnInvitation e₀ = some (x.tokenHash, x.expiresAt) := by
  obtain ⟨_, hrun₁, halone, -, -, hrun₂⟩ := hrun.split
  exact ⟨halone ▸ inviteStep_alone _ _, keyed_of_serial hrun₁ hd, ⟨_, hrun₂⟩,
    issued_of_serial hrun₁ hnone⟩

/-- In every run of the five operations, invitations are safe. -/
theorem invitations_safe (hd : d.Keyed) (hnone : d.invitations = [])
    (hrun : inviteService.Serial d t₀ h d' t)
    (hdrawn : ((h.filterMap drawnInvitation).map Prod.fst).Nodup) : InvitationsSafe h where
  once h₁ e h₂ tokenHash userId hh hactivates := by
    subst hh
    obtain ⟨hstep, hkeyed, ⟨_, hrun₂⟩, hissued⟩ := call_of_serial hd hnone hrun
    refine ⟨fun u hne => hstep.account_of_activates hkeyed hactivates hne, ?_⟩
    obtain ⟨_, x, _, hfound, -⟩ := hstep.of_activates hactivates
    have hx : x.tokenHash = tokenHash := by simpa using List.find?_some hfound
    obtain ⟨e₀, he₀, htoken⟩ := hissued x (List.mem_of_find?_eq_some hfound)
    -- The token of an invitation was drawn by one call, so no later call draws it again.
    refine dead_of_serial hrun₂ (hstep.dead_of_activates hkeyed hactivates) fun e' he' => ?_
    exact not_drawn_again hdrawn he₀ (hx ▸ htoken) e' (List.mem_cons_of_mem _ he')
  ended h₁ e h₂ tokenHash hh hends := by
    subst hh
    obtain ⟨hstep, hkeyed, ⟨_, hrun₂⟩, hissued⟩ := call_of_serial hd hnone hrun
    obtain ⟨x, hx, hx', -⟩ := id hends
    obtain ⟨e₀, he₀, htoken⟩ := hissued x hx
    have hfresh := not_drawn_again hdrawn he₀ (hx' ▸ htoken)
    exact dead_of_serial hrun₂ (hstep.dead_of_ends hkeyed hends (hfresh e List.mem_cons_self))
      fun e' he' => hfresh e' (List.mem_cons_of_mem _ he')
  unexpired h₁ e h₂ tokenHash userId hh hactivates := by
    subst hh
    obtain ⟨hstep, -, -, hissued⟩ := call_of_serial hd hnone hrun
    obtain ⟨_, x, _, hfound, ⟨-, -, hvalid⟩, -⟩ := hstep.of_activates hactivates
    obtain rfl : x.tokenHash = tokenHash := by simpa using List.find?_some hfound
    obtain ⟨e₁, he₁, htoken₁⟩ := hissued x (List.mem_of_find?_eq_some hfound)
    refine ⟨⟨e₁, he₁, _, htoken₁⟩, fun e₀ he₀ expiresAt htoken₀ => ?_⟩
    have hmem : ∀ {e₀ : InviteEvent} {y : TokenHash × Timestamp}, e₀ ∈ h₁ →
        drawnInvitation e₀ = some y → y ∈ (h₁ ++ e :: h₂).filterMap drawnInvitation :=
      fun he₀ hy => List.mem_filterMap.mpr ⟨_, List.mem_append_left _ he₀, hy⟩
    cases List.inj_on_of_nodup_map hdrawn (hmem he₀ htoken₀) (hmem he₁ htoken₁) rfl
    exact hvalid
  first h₁ e h₂ tokenHash userId hh hactivates e' he' a ha := by
    subst hh
    by_contra hsettled
    obtain ⟨hstep, hkeyed, -, -⟩ := call_of_serial hd hnone hrun
    -- An account that has settled once is still settled when its invitation is used.
    have hlast : ∃ b, e.before.account userId = some b ∧ b.status ≠ .pending := by
      rcases List.mem_append.mp he' with he' | he'
      · obtain ⟨g₁, g₂, rfl⟩ := List.append_of_mem he'
        obtain ⟨_, hrun₁, -, -, -, -⟩ := hrun.split
        obtain ⟨hstep', hkeyed', ⟨_, hrun₂⟩, -⟩ := call_of_serial hd hnone hrun₁
        obtain ⟨b, hb, hb', -⟩ := hstep'.account hkeyed' ha
        exact (settled_of_serial hrun₂ (hstep'.keyed hkeyed') hb (hb' hsettled)).1
      · rw [List.mem_singleton.mp he'] at ha
        exact ⟨a, ha, hsettled⟩
    obtain ⟨b, hb, hb'⟩ := hlast
    obtain ⟨_, x, c, -, -, huser, rfl, -, -⟩ := hstep.of_activates hactivates
    have hc := List.find?_some huser
    simp only [Bool.and_eq_true, beq_iff_eq] at hc
    have hfind := find?_key_eq hkeyed.accountIds (List.mem_of_find?_eq_some huser)
    cases hfind.symm.trans hb
    exact hb' hc.2
  passwords e he u a a' ha ha' hne := by
    obtain ⟨h₁, h₂, rfl⟩ := List.append_of_mem he
    obtain ⟨hstep, hkeyed, -, -⟩ := call_of_serial hd hnone hrun
    obtain ⟨b, hb, -, hpassword⟩ := hstep.account hkeyed ha
    cases hb.symm.trans ha'
    exact hpassword hne
  settled h₁ e h₂ u a hh ha hsettled e' he' := by
    subst hh
    obtain ⟨hstep, hkeyed, ⟨_, hrun₂⟩, -⟩ := call_of_serial hd hnone hrun
    obtain ⟨b, hb, hb', -⟩ := hstep.account hkeyed ha
    rcases List.mem_cons.mp he' with rfl | he'
    · exact ⟨b, hb, hb' hsettled⟩
    · exact (settled_of_serial hrun₂ (hstep.keyed hkeyed) hb (hb' hsettled)).2 e' he'

end

/-! ## A run -/

/-- An administrator before the first invitation. -/
def sampleInviteStart : InviteDb where
  accounts := [{ id := 1, role := .systemAdmin, status := .active, emailNormalized := "root",
                 emailDisplay := "root", passwordHash := "p" }]
  invitations := []
  devices := []
  refreshTokens := []

/-- An address is invited, its invitation is sent again, the first link is tried and the second one
is used; then the account is disabled and enabled, and its address is invited again. -/
def invitedTwice : List InviteRequest :=
  [⟨0, 0, .createInvitation 1 2 5 ⟨"ada", "Ada", [1], 100⟩⟩,
   ⟨1, 1, .adminResendInvitation 1 5 [2] 100⟩,
   ⟨2, 2, .activateInvitation [1] "q" 3 ⟨[9], 7, 3600⟩⟩,
   ⟨3, 3, .activateInvitation [2] "q" 3 ⟨[9], 7, 3600⟩⟩,
   ⟨4, 4, .adminSetAccountStatus 1 2 .disabled⟩,
   ⟨5, 5, .adminSetAccountStatus 1 2 .active⟩,
   ⟨6, 6, .createInvitation 1 2 5 ⟨"ada", "Ada", [3], 100⟩⟩,
   ⟨7, 7, .activateInvitation [2] "r" 3 ⟨[8], 8, 3600⟩⟩]

/-- In that run only the second link activates the account. -/
theorem invitedTwice_safe :
    InvitationsSafe (inviteService.serveAlone invitedTwice sampleInviteStart) ∧
      (inviteService.serveAlone invitedTwice sampleInviteStart).map
        (fun e => (e.after.account 2).map (·.passwordHash)) =
          [some "", some "", some "", some "q", some "q", some "q", some "q", some "q"] := by
  have hserial : ∃ d t, inviteService.Serial sampleInviteStart 0
      (inviteService.serveAlone invitedTwice sampleInviteStart) d t :=
    Service.serial_serveAlone invitedTwice .nil (fun _ _ => trivial) (by decide)
  obtain ⟨d', t, hrun⟩ := hserial
  exact ⟨invitations_safe ⟨by decide, by decide, by decide, by decide, by decide⟩ rfl hrun
    (by decide +kernel), by decide +kernel⟩

end TaskTipsCloud

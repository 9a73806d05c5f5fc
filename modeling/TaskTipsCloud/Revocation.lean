import TaskTipsCloud.AuthRuns
import TaskTipsCloud.Library.Schedules

/-!
# Revocation of sessions

A logout, a change of a password, the revocation of a device and the disabling of an account end the
families of refresh tokens that they affect: once they have returned, no member of such a family is
rotated any more, if no logout overlapped with a call that added a token of the same device. A
logout locks no row that a rotation needs beside the tokens that it finds, so it overlooks a token
that is just being added.
-/

namespace TaskTipsCloud

open Txn

/-! ## What a run is asked -/

/-- The tokens whose families a call is to end. -/
def Affects (e : AuthEvent) (x : RefreshToken) : Prop :=
  match e.request.call with
  | .logoutDevice _ userId deviceId | .revokeDevice _ userId deviceId =>
    x.userId = userId ∧ x.deviceId = deviceId
  | .logoutDeviceByRefreshToken _ tokenHash => ∃ y, e.before.refreshToken tokenHash = some y ∧
    x.userId = y.userId ∧ x.deviceId = y.deviceId
  | .changePassword _ userId => x.userId = userId
  | .adminSetAccountStatus _ _ subjectUserId status =>
    status = .disabled ∧ x.userId = subjectUserId
  | .createLoginSession .. | .rotateRefreshToken .. => False

/-- A call that rotated a token. -/
def RotatesToken (e : AuthEvent) (x : RefreshToken) : Prop :=
  ∃ order oldTokenHash replacement expectedRole session,
    e.request.call = .rotateRefreshToken order oldTokenHash replacement expectedRole ∧
      e.before.refreshToken oldTokenHash = some x ∧ e.result = .ok (some session)

/-- After a call that revokes sessions has returned, no affected token is rotated whose family was
there then. -/
def RevocationComplete (h : List AuthEvent) : Prop :=
  ∀ h₁ e h₂, h = h₁ ++ e :: h₂ → (∃ o, e.result = .ok o) → ∀ e' ∈ h₂, ∀ x, RotatesToken e' x →
    Affects e x → ∀ y ∈ e.after.refreshTokens, y.familyId ≠ x.familyId

/-- The family that a login draws. -/
def loginFamily (e : AuthEvent) : Option Uuid :=
  match e.request.call with
  | .createLoginSession _ _ refresh => some refresh.familyId
  | _ => none

/-- A call that added a token. -/
def Adds (e : AuthEvent) (x : RefreshToken) : Prop :=
  e.before.refreshToken x.tokenHash = none ∧ e.after.refreshToken x.tokenHash = some x

/-- A rotation. -/
def AuthCall.isRotation : AuthCall → Bool
  | .rotateRefreshToken .. => true
  | _ => false

/-- A logout of a device. -/
def LogsOut (e : AuthEvent) (userId deviceId : Uuid) : Prop :=
  match e.request.call with
  | .logoutDevice _ userId' deviceId' => userId = userId' ∧ deviceId = deviceId'
  | .logoutDeviceByRefreshToken _ tokenHash => ∃ y, e.before.refreshToken tokenHash = some y ∧
    userId = y.userId ∧ deviceId = y.deviceId
  | _ => False

/-- A logout of a device overlaps with a call that adds a token of the device: the token is added
after the `UPDATE` of the logout chose its rows and before the logout ends, or by a rotation that
read before the logout ended and ends after it. -/
def Overlap (rs : List AuthRecord) : Prop :=
  ∃ (k k' : ℕ) (l a : AuthRecord) (x : RefreshToken), rs[k]? = some l ∧ rs[k']? = some a ∧
    LogsOut l.event x.userId x.deviceId ∧ Adds a.event x ∧
      ((k' < k ∧ ∃ n, l.reads.getLast? = some n ∧ n ≤ k') ∨
        (k < k' ∧ a.event.request.call.isRotation = true ∧ ∃ n ∈ a.reads, n ≤ k))

/-! ## The records of a run -/

section

variable {s₀ : AuthDb} {rs : List AuthRecord}

/-- The records of the start of a run. -/
theorem AuthRecords.take (hrs : AuthRecords s₀ rs) (n : ℕ) : AuthRecords s₀ (rs.take n) := by
  intro rs₁ r rs₂ hsplit
  refine hrs rs₁ r (rs₂ ++ rs.drop n) ?_
  rw [← List.cons_append, ← List.append_assoc, ← hsplit, List.take_append_drop]

/-- The state between two records. -/
def stateAt (s₀ : AuthDb) (rs : List AuthRecord) (n : ℕ) : AuthDb := stateAfter s₀ (rs.take n)

/-- A record of a run. -/
structure IsRecord (s₀ : AuthDb) (rs : List AuthRecord) (k : ℕ) (r : AuthRecord) : Prop where
  lt : k < rs.length
  outcome : authService.RecordOutcome s₀ (rs.take k) r
  before : r.event.before = stateAt s₀ rs k
  after : r.event.after = stateAt s₀ rs (k + 1)
  step : TokenStep (SeenBy s₀ (rs.take k) r) r.locks r.event
  sound : r.event.before.Sound

/-- A record of a run is one at its place. -/
theorem AuthRecords.isRecord (hs₀ : s₀.Sound) (hrs : AuthRecords s₀ rs) {k : ℕ} {r : AuthRecord}
    (hk : rs[k]? = some r) : IsRecord s₀ rs k r := by
  obtain ⟨hlt, hget⟩ := List.getElem?_eq_some_iff.mp hk
  have htake : rs.take (k + 1) = rs.take k ++ [r] := by
    rw [List.take_succ_eq_append_getElem hlt, hget]
  have hout : authService.RecordOutcome s₀ (rs.take k) r := by
    refine hrs (rs.take k) r (rs.drop (k + 1)) ?_
    rw [← hget, List.getElem_cons_drop, List.take_append_drop]
  obtain ⟨hsound, hkeeps⟩ := (hrs.take k).keeps hs₀
  refine ⟨hlt, hout, hout.1, ?_, tokenStep_of_record hout hkeeps, hout.1 ▸ hsound⟩
  rw [stateAt, htake, stateAfter_concat]

/-- What holds of a later state. -/
theorem AuthRecords.kept (hs₀ : s₀.Sound) (hrs : AuthRecords s₀ rs) {m n : ℕ} (hmn : m ≤ n)
    (hn : n ≤ rs.length) : AuthDb.Keeps ∅ (stateAt s₀ rs m) (stateAt s₀ rs n) := by
  refine ((hrs.take n).keeps hs₀).2 ∅ m _ ⟨?_, ?_, fun r _ => Set.empty_disjoint _⟩
  · rw [List.length_take, min_eq_left hn]
    exact hmn
  · rw [stateAt, List.take_take, min_eq_left hmn]

/-- The tokens of a step were there, or one was added. -/
theorem TokenStep.adds {R : Set AuthLock → AuthDb → AuthDb → Prop} {H : Set AuthLock}
    {e : AuthEvent} (hb : e.before.Sound) (h : TokenStep R H e) {x : RefreshToken}
    (hx : x ∈ e.after.refreshTokens) (hnew : e.before.refreshToken x.tokenHash = none) :
    Adds e x :=
  ⟨hnew, (h.sound hb).refreshToken_eq hx⟩

/-- A token that appears between two states was added by one of the calls. -/
theorem AuthRecords.exists_adds (hs₀ : s₀.Sound) (hrs : AuthRecords s₀ rs) {m n : ℕ} (hmn : m ≤ n)
    (hn : n ≤ rs.length) {h : TokenHash} {x : RefreshToken}
    (hm : (stateAt s₀ rs m).refreshToken h = none)
    (hx : (stateAt s₀ rs n).refreshToken h = some x) :
    ∃ k a y, m ≤ k ∧ k < n ∧ rs[k]? = some a ∧ Adds a.event y ∧ y.Precedes x := by
  induction n, hmn using Nat.le_induction generalizing x with
  | base => exact absurd (hm.symm.trans hx) (Option.some_ne_none _).symm
  | succ n hmn ih =>
    have hlt : n < rs.length := hn
    have hget : rs[n]? = some rs[n] := List.getElem?_eq_getElem hlt
    have hrecord := hrs.isRecord hs₀ hget
    cases hbefore : (stateAt s₀ rs n).refreshToken h with
    | some y =>
      obtain ⟨k, a, z, hmk, hkn, hk, hadds, hzy⟩ := ih hlt.le hbefore
      obtain ⟨x', hx', hyx⟩ := (hrs.kept hs₀ (Nat.le_succ n) hn).kept h y hbefore
      cases hx.symm.trans hx'
      exact ⟨k, a, z, hmk, Nat.lt_succ_of_lt hkn, hk, hadds, hzy.trans hyx⟩
    | none =>
      obtain ⟨hmem, rfl⟩ := AuthDb.mem_of_refreshToken hx
      refine ⟨n, rs[n], x, hmn, Nat.lt_succ_self n, hget, ?_, .refl x⟩
      refine hrecord.step.adds hrecord.sound ?_ ?_
      · rwa [hrecord.after]
      · rwa [hrecord.before]

end

/-! ## Families -/

/-- The families of the tokens are among some, and each is of one device. -/
structure AuthDb.FamiliesIn (families : List Uuid) (d : AuthDb) : Prop where
  mem : ∀ x ∈ d.refreshTokens, x.familyId ∈ families
  homogeneous : d.Homogeneous

section

variable {families families' : List Uuid} {d d' : AuthDb}

/-- Tokens that are rotated or revoked keep their owner and their family. -/
theorem AuthDb.FamiliesIn.update (h : d.FamiliesIn families) {p : RefreshToken → Bool}
    {f : RefreshToken → RefreshToken} (hafter : d'.refreshTokens = updateWhere p f d.refreshTokens)
    (hf : ∀ x : RefreshToken, x.Precedes (f x)) : d'.FamiliesIn families := by
  have hmem : ∀ x ∈ d'.refreshTokens, ∃ y ∈ d.refreshTokens, y.Precedes x := by
    intro x hx
    rw [hafter] at hx
    obtain ⟨y, hy, rfl⟩ := List.mem_map.mp hx
    refine ⟨y, hy, ?_⟩
    split
    · exact hf y
    · exact .refl y
  refine ⟨fun x hx => ?_, fun x hx y hy hfamily => ?_⟩
  · obtain ⟨x', hx', hxx⟩ := hmem x hx
    rw [hxx.familyId]
    exact h.mem x' hx'
  · obtain ⟨x', hx', hxx⟩ := hmem x hx
    obtain ⟨y', hy', hyy⟩ := hmem y hy
    rw [hxx.userId, hxx.deviceId, hyy.userId, hyy.deviceId]
    exact h.homogeneous x' hx' y' hy' (by rw [← hxx.familyId, hfamily, hyy.familyId])

/-- A token is added to the family of its device, or to a new one. -/
theorem AuthDb.FamiliesIn.append (h : d.FamiliesIn families) {x : RefreshToken}
    (hx : ∀ y ∈ d.refreshTokens, y.familyId = x.familyId →
      y.userId = x.userId ∧ y.deviceId = x.deviceId)
    (hafter : d'.refreshTokens = d.refreshTokens ++ [x]) (hsubset : families ⊆ families')
    (hfamily : x.familyId ∈ families') : d'.FamiliesIn families' := by
  refine ⟨fun y hy => ?_, fun y hy z hz hyz => ?_⟩
  · rw [hafter] at hy
    rcases List.mem_append.mp hy with hy | hy
    · exact hsubset (h.mem y hy)
    · rwa [List.mem_singleton.mp hy]
  · rw [hafter] at hy hz
    rcases List.mem_append.mp hy with hy | hy <;> rcases List.mem_append.mp hz with hz | hz
    · exact h.homogeneous y hy z hz hyz
    · rw [List.mem_singleton.mp hz] at hyz ⊢
      exact hx y hy hyz
    · rw [List.mem_singleton.mp hy] at hyz ⊢
      obtain ⟨huser, hdevice⟩ := hx z hz hyz.symm
      exact ⟨huser.symm, hdevice.symm⟩
    · rw [List.mem_singleton.mp hy, List.mem_singleton.mp hz]
      exact ⟨rfl, rfl⟩

/-- A rotation keeps the families. -/
theorem AuthDb.FamiliesIn.withRotation (h : d.FamiliesIn families) {now : Timestamp}
    {token : RefreshToken} {graceRotation : Bool} :
    (d.withRotation now token graceRotation).FamiliesIn families := by
  unfold AuthDb.withRotation
  split
  · exact h
  · exact h.update (p := (·.tokenHash == token.tokenHash)) rfl fun x => x.precedes_used now

/-- A call adds at most the family that it draws. -/
theorem TokenStep.familiesIn {R : Set AuthLock → AuthDb → AuthDb → Prop} {H : Set AuthLock}
    {e : AuthEvent} (hstep : TokenStep R H e) (h : e.before.FamiliesIn families)
    (hnew : ∀ familyId, loginFamily e = some familyId → familyId ∉ families)
    (hsubset : families ⊆ families') (hdrawn : ∀ familyId, loginFamily e = some familyId →
      familyId ∈ families') : e.after.FamiliesIn families' := by
  cases hstep with
  | kept hafter hresult =>
    exact ⟨fun x hx => hsubset (h.mem x (hafter ▸ hx)), fun x hx y hy =>
      h.homogeneous x (hafter ▸ hx) y (hafter ▸ hy)⟩
  | loggedIn hcall hlocks hnone hafter =>
    rename_i userId deviceId refresh
    have hfamily : loginFamily e = some refresh.familyId := by
      unfold loginFamily
      rw [hcall]
    refine h.append (fun y hy heq => ?_) hafter hsubset (hdrawn _ hfamily)
    have hmem := h.mem y hy
    rw [heq] at hmem
    exact absurd hmem (hnew _ hfamily)
  | rotated hcall htoken hlocks hrotatable hexpires hnone hafter hsession =>
    rename_i order oldTokenHash replacement expectedRole token
    have hrotation : (e.before.withRotation e.request.now token token.isSpent).FamiliesIn _ :=
      h.withRotation
    refine hrotation.append (fun y hy heq => ?_) hafter hsubset
      (hsubset (h.mem token (AuthDb.mem_of_refreshToken htoken).1))
    -- The token that is rotated is still there, with its owner.
    have hkept : AuthDb.Keeps ∅ e.before
        (e.before.withRotation e.request.now token token.isSpent) :=
      AuthDb.keeps_withRotation (Set.notMem_empty _)
    obtain ⟨t, ht, hprecedes⟩ := hkept.kept _ _ htoken
    have howner := hrotation.homogeneous y hy t (AuthDb.mem_of_refreshToken ht).1
      (heq.trans hprecedes.familyId.symm)
    rwa [hprecedes.userId, hprecedes.deviceId] at howner
  | revoked hrevokes hafter hresult =>
    obtain ⟨d, -, -, -, htokens⟩ := hrevokes
    have hrevoked := h.update ((congrArg AuthDb.refreshTokens hafter).trans (htokens _))
      fun x => x.precedes_revoked e.request.now
    exact ⟨fun x hx => hsubset (hrevoked.mem x hx), hrevoked.homogeneous⟩

/-- The families of a run are those that its logins drew, and each of them is of one device. -/
theorem AuthRecords.familiesIn {s₀ : AuthDb} {rs : List AuthRecord} (hs₀ : s₀.Sound)
    (hempty : s₀.refreshTokens = []) (hrs : AuthRecords s₀ rs)
    (hfresh : (rs.filterMap (loginFamily ·.event)).Nodup) :
    (stateAfter s₀ rs).FamiliesIn (rs.filterMap (loginFamily ·.event)) := by
  induction rs using List.reverseRecOn with
  | nil =>
    have hnone : (stateAfter s₀ ([] : List AuthRecord)).refreshTokens = [] := hempty
    exact ⟨fun x hx => absurd (hnone ▸ hx) List.not_mem_nil,
      fun x hx => absurd (hnone ▸ hx) List.not_mem_nil⟩
  | append_singleton rs r ih =>
    rw [List.filterMap_append, List.nodup_append] at hfresh
    obtain ⟨hfresh, -, hnew⟩ := hfresh
    have htake : (rs ++ [r]).take rs.length = rs := List.take_left
    have hold : AuthRecords s₀ rs := htake ▸ hrs.take rs.length
    have hdrawn : ∀ familyId, loginFamily r.event = some familyId →
        familyId ∈ [r].filterMap (loginFamily ·.event) := fun familyId hfamily =>
      List.mem_filterMap.mpr ⟨r, List.mem_singleton_self r, hfamily⟩
    have hbefore := ih hold hfresh
    rw [← (hrs rs r [] rfl).1] at hbefore
    rw [stateAfter_concat, List.filterMap_append]
    exact (tokenStep_of_record (hrs rs r [] rfl) (hold.keeps hs₀).2).familiesIn hbefore
      (fun familyId hfamily hmem => hnew _ hmem _ (hdrawn _ hfamily) rfl)
      (List.subset_append_left _ _) fun familyId hfamily =>
        List.mem_append_right _ (hdrawn _ hfamily)

end

/-! ## What a revocation revokes -/

section

variable {P : Set AuthLock → ℕ → AuthDb → Prop} {H H' : Set AuthLock} {b b' : AuthDb → AuthDb}
  {ns : List ℕ} {now : Timestamp}

/-- Waiting for locks reads nothing. -/
theorem runsAt_lockTokens {hashes : List TokenHash}
    (h : RunsAt P (lockTokens hashes) H b (.ok ()) H' b' ns) : ns = [] := by
  induction hashes generalizing H with
  | nil =>
    cases h
    rfl
  | cons _ hashes ih =>
    cases h with
    | lock h => exact ih h

/-- The read of a revocation is the one on which its `UPDATE` chooses the rows. -/
theorem runsAt_revokeTokens {order : LockOrder} {p : RefreshToken → Bool}
    (h : RunsAt P (revokeTokens now order p) H b (.ok ()) H' b' ns) : ∃ n, ns = [n] := by
  simp only [revokeTokens, bind_eq, query_bind] at h
  cases h with
  | read n d hd h =>
    obtain ⟨_, _, _, ns₁, ns₂, rfl, hlocks, hwrite⟩ := runsAt_bind_ok_iff.mp h
    rw [runsAt_lockTokens hlocks]
    cases hwrite with
    | write h =>
      cases h
      exact ⟨n, rfl⟩

/-- A logout reads once. -/
theorem runsAt_logoutDevice {order : LockOrder} {userId deviceId : Uuid}
    {r : Except PersistenceError Unit} (c : AuthDb)
    (h : RunsAt P (logoutDevice now order userId deviceId) ∅ id (.ok r) H b ns) :
    ∃ n, ns = [n] ∧ RevokesUnder (fun K d _ => ∃ m ∈ [n], P K m d) c now
      (fun t => t.userId == userId && t.deviceId == deviceId) ∅ H b := by
  obtain ⟨_, _, _, ns₁, ns₂, rfl, hrevoke, hend⟩ := runsAt_bind_ok_iff.mp h
  obtain ⟨n, rfl⟩ := runsAt_revokeTokens hrevoke
  cases hend
  exact ⟨n, rfl, revokesUnder_of_runs (fun _ => rfl) (hrevoke.runs c)⟩

/-- A logout by a token reads the token, and then once more if it finds it. -/
theorem runsAt_logoutDeviceByRefreshToken {order : LockOrder} {tokenHash : TokenHash}
    {r : Except PersistenceError Unit} (c : AuthDb)
    (h : RunsAt P (logoutDeviceByRefreshToken now order tokenHash) ∅ id (.ok r) H b ns) :
    ∃ n₁ d, P ∅ n₁ d ∧ ((d.refreshToken tokenHash = none ∧ ns = [n₁]) ∨
      ∃ token n, d.refreshToken tokenHash = some token ∧ ns = [n₁, n] ∧
        RevokesUnder (fun K d _ => ∃ m ∈ [n], P K m d) c now (fun t =>
          t.userId == token.userId && t.deviceId == token.deviceId &&
            t.revokedAt.isNone) ∅ H b) := by
  simp only [logoutDeviceByRefreshToken, bind_eq, query_bind] at h
  cases h with
  | read n₁ d hd h =>
    refine ⟨n₁, d, hd, ?_⟩
    cases htoken : d.refreshToken tokenHash with
    | none =>
      simp only [id_eq, htoken] at h
      cases h
      exact .inl ⟨rfl, rfl⟩
    | some token =>
      simp only [id_eq, htoken] at h
      obtain ⟨_, _, _, ns₁, ns₂, rfl, hrevoke, hend⟩ := runsAt_bind_ok_iff.mp h
      obtain ⟨n, rfl⟩ := runsAt_revokeTokens hrevoke
      cases hend
      exact .inr ⟨token, n, rfl, rfl, revokesUnder_of_runs (fun _ => rfl) (hrevoke.runs c)⟩

/-- A transaction that returns no session reads what it reads. -/
theorem runsAt_withoutSession {x : AuthTx (Except PersistenceError Unit)}
    {r : Except PersistenceError (Option SessionRecord)}
    (h : RunsAt P (withoutSession x) ∅ id (.ok r) H b ns) :
    ∃ r₀, RunsAt P x ∅ id (.ok r₀) H b ns := by
  obtain ⟨r₀, _, _, ns₁, ns₂, rfl, hx, hend⟩ := runsAt_bind_ok_iff.mp h
  cases hend
  exact ⟨r₀, by rwa [List.append_nil]⟩

end

/-- What a finished revocation guarantees of the tokens that it affects. -/
structure Revokes (r : AuthRecord) : Prop where
  /-- It has locked each of them, but for revoked ones that a logout by a token skips. -/
  locked : ∀ x ∈ r.event.before.refreshTokens, Affects r.event x →
    .refreshToken x.tokenHash ∈ r.locks ∨ LogsOut r.event x.userId x.deviceId
  /-- They are revoked. -/
  revoked : ∀ x ∈ r.event.after.refreshTokens, Affects r.event x → x.revokedAt ≠ none

/-- The affected tokens are told by their owner. -/
theorem Affects.of_owner {e : AuthEvent} {x y : RefreshToken} (h : Affects e x)
    (huser : y.userId = x.userId) (hdevice : y.deviceId = x.deviceId) : Affects e y := by
  unfold Affects at h ⊢
  split at h
  · exact ⟨huser.trans h.1, hdevice.trans h.2⟩
  · exact ⟨huser.trans h.1, hdevice.trans h.2⟩
  · obtain ⟨z, hz, huser', hdevice'⟩ := h
    exact ⟨z, hz, huser.trans huser', hdevice.trans hdevice'⟩
  · exact huser.trans h
  · exact ⟨h.1, huser.trans h.2⟩
  · exact h
  · exact h

section

variable {s₀ : AuthDb} {rs : List AuthRecord} {k : ℕ} {r : AuthRecord} {b : AuthDb → AuthDb}

/-- An `UPDATE` that has found every affected token, or skipped it as it is revoked. -/
theorem revokes_of_found {p : RefreshToken → Bool} {hashes : List TokenHash}
    (hlocks : ∀ h ∈ hashes, .refreshToken h ∈ r.locks)
    (hafter : r.event.after.refreshTokens =
      (r.event.before.revokeChosen r.event.request.now hashes p).refreshTokens)
    (hfound : ∀ x ∈ r.event.before.refreshTokens, Affects r.event x →
      x.tokenHash ∈ hashes ∧ p x = true ∨
        LogsOut r.event x.userId x.deviceId ∧ x.revokedAt ≠ none) : Revokes r := by
  refine ⟨fun x hx haffects => ?_, fun x hx haffects => ?_⟩
  · rcases hfound x hx haffects with ⟨hmem, -⟩ | ⟨hlogs, -⟩
    · exact .inl (hlocks _ hmem)
    · exact .inr hlogs
  · rw [hafter] at hx
    obtain ⟨y, hy, rfl⟩ := List.mem_map.mp hx
    by_cases hchosen : (hashes.contains y.tokenHash && p y) = true
    · rw [if_pos hchosen]
      exact Option.some_ne_none _
    · rw [if_neg hchosen] at haffects ⊢
      rcases hfound y hy haffects with ⟨hmem, hp⟩ | ⟨-, hrevoked⟩
      · exact absurd (by rw [hp, Bool.and_true]; exact List.contains_iff_mem.mpr hmem) hchosen
      · exact hrevoked

/-- A token that was there when the `UPDATE` chose its rows was chosen. -/
theorem mem_hashesOf {d c : AuthDb} (hkeeps : AuthDb.Keeps ∅ d c) (hc : c.Sound)
    {p : RefreshToken → Bool} {x : RefreshToken} (hx : x ∈ c.refreshTokens)
    (hd : d.refreshToken x.tokenHash ≠ none) (hp : ∀ y : RefreshToken, y.Precedes x → p y = true) :
    x.tokenHash ∈ d.hashesOf p := by
  obtain ⟨y, hy⟩ := Option.ne_none_iff_exists'.mp hd
  obtain ⟨x', hx', hprecedes⟩ := hkeeps.kept _ y hy
  cases (hc.refreshToken_eq hx).symm.trans hx'
  obtain ⟨hmem, hhash⟩ := AuthDb.mem_of_refreshToken hy
  rw [← hhash]
  exact List.mem_map_of_mem (List.mem_filter.mpr ⟨hmem, hp y hprecedes⟩)

/-- What is kept under some locks is kept. -/
theorem AuthDb.Keeps.empty {H : Set AuthLock} {d c : AuthDb} (h : AuthDb.Keeps H d c) :
    AuthDb.Keeps ∅ d c :=
  ⟨fun _ hh => absurd hh (Set.notMem_empty _), h.kept, fun _ hu => absurd hu (Set.notMem_empty _),
    fun _ hv => absurd hv (Set.notMem_empty _)⟩

/-- A revocation under the lock of its user finds all tokens of the user. -/
theorem revokes_of_user {userId : Uuid} {K : Set AuthLock} (hK : .user userId ∈ K)
    (hkeeps : ∀ K d, SeenBy s₀ (rs.take k) r K d r.event.before →
      AuthDb.Keeps K d r.event.before) (hsound : r.event.before.Sound)
    (hrevokes : RevokesUnder (SeenBy s₀ (rs.take k) r) r.event.before r.event.request.now
      (·.userId == userId) K r.locks b) (hafter : r.event.after = b r.event.before)
    (haffects : ∀ x, Affects r.event x → x.userId = userId) : Revokes r := by
  obtain ⟨d, hd, -, hlocks, htokens⟩ := hrevokes
  have hkept := hkeeps K d hd
  refine revokes_of_found hlocks ((congrArg AuthDb.refreshTokens hafter).trans (htokens _)) ?_
  intro x hx hx'
  have huser := haffects x hx'
  refine .inl ⟨mem_hashesOf hkept.empty hsound hx
    (hkept.ofUser userId hK _ x (hsound.refreshToken_eq hx) huser) ?_, beq_iff_eq.mpr huser⟩
  exact fun y hy => beq_iff_eq.mpr (hy.userId.symm.trans huser)

/-- A revocation under the lock of its device finds all tokens of the device. -/
theorem revokes_of_device {userId deviceId : Uuid} {K : Set AuthLock} (hK : .device deviceId ∈ K)
    (hkeeps : ∀ K d, SeenBy s₀ (rs.take k) r K d r.event.before →
      AuthDb.Keeps K d r.event.before) (hsound : r.event.before.Sound)
    (hrevokes : RevokesUnder (SeenBy s₀ (rs.take k) r) r.event.before r.event.request.now
      (fun t => t.userId == userId && t.deviceId == deviceId) K r.locks b)
    (hafter : r.event.after = b r.event.before)
    (haffects : ∀ x, Affects r.event x → x.userId = userId ∧ x.deviceId = deviceId) :
    Revokes r := by
  obtain ⟨d, hd, -, hlocks, htokens⟩ := hrevokes
  have hkept := hkeeps K d hd
  refine revokes_of_found hlocks ((congrArg AuthDb.refreshTokens hafter).trans (htokens _)) ?_
  intro x hx hx'
  obtain ⟨huser, hdevice⟩ := haffects x hx'
  refine .inl ⟨mem_hashesOf hkept.empty hsound hx
    (hkept.ofDevice deviceId hK _ x (hsound.refreshToken_eq hx) hdevice) ?_, ?_⟩
  · intro y hy
    rw [← hy.userId, ← hy.deviceId, huser, hdevice, beq_self_eq_true, beq_self_eq_true]
    rfl
  · rw [huser, hdevice, beq_self_eq_true, beq_self_eq_true]
    rfl

/-- A read of a record saw the state at its position. -/
theorem IsRecord.eq_of_seen (h : IsRecord s₀ rs k r) {K : Set AuthLock} {n : ℕ} {d : AuthDb}
    (hd : Seen s₀ (rs.take k) K n d) : n ≤ k ∧ d = stateAt s₀ rs n := by
  have hle := hd.le
  rw [List.length_take, min_eq_left h.lt.le] at hle
  exact ⟨hle, by rw [hd.eq, List.take_take, min_eq_left hle, stateAt]⟩

/-- What a request has seen under its locks is kept up to its commit. -/
theorem IsRecord.keeps_of_seen (h : IsRecord s₀ rs k r) (hs₀ : s₀.Sound)
    (hrs : AuthRecords s₀ rs) {K : Set AuthLock} {n : ℕ} {d : AuthDb}
    (hd : Seen s₀ (rs.take k) K n d) : AuthDb.Keeps K d r.event.before := by
  rw [h.before]
  exact ((hrs.take k).keeps hs₀).2 K n d hd

/-- The last read of a logout that no other call overlaps with finds the tokens of its device. -/
theorem IsRecord.refreshToken_ne_none_of_seen (h : IsRecord s₀ rs k r) (hs₀ : s₀.Sound)
    (hrs : AuthRecords s₀ rs) (hoverlap : ¬ Overlap rs) (hk : rs[k]? = some r) {K : Set AuthLock}
    {n : ℕ} {d : AuthDb} (hd : Seen s₀ (rs.take k) K n d) (hlast : r.reads.getLast? = some n)
    {x : RefreshToken} (hx : x ∈ r.event.before.refreshTokens)
    (hlogs : LogsOut r.event x.userId x.deviceId) : d.refreshToken x.tokenHash ≠ none := by
  intro hnone
  obtain ⟨hn, rfl⟩ := h.eq_of_seen hd
  have hfound := h.sound.refreshToken_eq hx
  rw [h.before] at hfound
  obtain ⟨k', a, y, hnk, hkk, hk', hadds, hprecedes⟩ :=
    hrs.exists_adds hs₀ hn h.lt.le hnone hfound
  refine hoverlap ⟨k, k', r, a, y, hk, hk', ?_, hadds, .inl ⟨hkk, n, hlast, hnk⟩⟩
  rwa [← hprecedes.userId, ← hprecedes.deviceId]

/-- A logout that no other call overlaps with ends the sessions of its device. -/
theorem revokes_of_logout (hs₀ : s₀.Sound) (hrs : AuthRecords s₀ rs) (hoverlap : ¬ Overlap rs)
    (hk : rs[k]? = some r) {n : ℕ} (hlast : r.reads.getLast? = some n)
    {p : RefreshToken → Bool} (hrevokes : RevokesUnder
      (fun K d _ => ∃ m ∈ [n], Seen s₀ (rs.take k) K m d) r.event.before r.event.request.now p ∅
      r.locks b)
    (hafter : r.event.after = b r.event.before)
    (hlogs : ∀ x, Affects r.event x → LogsOut r.event x.userId x.deviceId)
    (hp : ∀ x y : RefreshToken, Affects r.event x → x.revokedAt = none → y.Precedes x →
      p y = true) : Revokes r := by
  have hrecord := hrs.isRecord hs₀ hk
  obtain ⟨d, ⟨m, hm, hd⟩, -, hlocks, htokens⟩ := hrevokes
  rw [List.mem_singleton.mp hm] at hd
  have hkeeps := hrecord.keeps_of_seen hs₀ hrs hd
  refine revokes_of_found hlocks ((congrArg AuthDb.refreshTokens hafter).trans (htokens _)) ?_
  intro x hx haffects
  cases hrevoked : x.revokedAt with
  | some t => exact .inr ⟨hlogs x haffects, Option.some_ne_none t⟩
  | none =>
    have hthere := hrecord.refreshToken_ne_none_of_seen hs₀ hrs hoverlap hk hd hlast hx
      (hlogs x haffects)
    exact .inl ⟨mem_hashesOf hkeeps hrecord.sound hx hthere fun y => hp x y haffects hrevoked,
      hp x x haffects hrevoked (.refl x)⟩

/-- A call that returns has ended the families that it affects, if it is no logout that another
call overlaps with. -/
theorem revokes_of_record (hs₀ : s₀.Sound) (hrs : AuthRecords s₀ rs) (hoverlap : ¬ Overlap rs)
    (hk : rs[k]? = some r) (hok : ∃ o, r.event.result = .ok o) : Revokes r := by
  have hrecord := hrs.isRecord hs₀ hk
  have hsound := hrecord.sound
  have hkeeps : ∀ K d, SeenBy s₀ (rs.take k) r K d r.event.before →
      AuthDb.Keeps K d r.event.before := by
    rintro K d ⟨n, -, hd⟩
    exact hrecord.keeps_of_seen hs₀ hrs hd
  obtain ⟨-, ⟨b, hrunsAt, hafter⟩ | ⟨⟨x, herror⟩, -⟩⟩ := hrecord.outcome
  · have hruns := hrunsAt.runs r.event.before
    simp only [authService] at hrunsAt hruns
    have hnothing : (∀ x, ¬ Affects r.event x) → Revokes r := fun hnot =>
      ⟨fun x _ hx => absurd hx (hnot x), fun x _ hx => absurd hx (hnot x)⟩
    cases hcall : r.event.request.call with
    | createLoginSession => exact hnothing fun x hx => by simp [Affects, hcall] at hx
    | rotateRefreshToken => exact hnothing fun x hx => by simp [Affects, hcall] at hx
    -- These calls revoke in one statement all tokens of the user or of the device that it finds.
    | changePassword order userId =>
      rw [hcall] at hruns
      obtain ⟨_, hrun, -⟩ := runs_withoutSession_iff.mp hruns
      exact revokes_of_user (Set.mem_singleton _) hkeeps hsound (runs_changePassword hrun) hafter
        fun x hx => by simpa [Affects, hcall] using hx
    | revokeDevice order userId deviceId =>
      rw [hcall] at hruns
      obtain ⟨_, hrun, -⟩ := runs_withoutSession_iff.mp hruns
      exact revokes_of_device (Set.mem_singleton _) hkeeps hsound (runs_revokeDeviceTokens hrun)
        hafter fun x hx => by simpa [Affects, hcall] using hx
    | adminSetAccountStatus order actorUserId subjectUserId status =>
      rw [hcall] at hruns
      obtain ⟨_, hrun, -⟩ := runs_withoutSession_iff.mp hruns
      rcases runs_adminSetAccountStatus hrun with ⟨rfl, -⟩ | hrevokes
      · exact hnothing fun x hx => by simp [Affects, hcall] at hx
      · exact revokes_of_user (Set.mem_singleton _) hkeeps hsound hrevokes hafter fun x hx => by
          simp only [Affects, hcall] at hx
          exact hx.2
    | logoutDevice order userId deviceId =>
      rw [hcall] at hrunsAt
      obtain ⟨_, hrun⟩ := runsAt_withoutSession hrunsAt
      obtain ⟨n, hreads, hrevokes⟩ := runsAt_logoutDevice r.event.before hrun
      have howner : ∀ x, Affects r.event x → x.userId = userId ∧ x.deviceId = deviceId :=
        fun x hx => by simpa [Affects, hcall] using hx
      -- A logout revokes the tokens that its snapshot has; without an overlap these are all.
      refine revokes_of_logout hs₀ hrs hoverlap hk (by rw [hreads]; rfl) hrevokes hafter ?_ ?_
      · intro x hx
        simp only [LogsOut, hcall]
        exact howner x hx
      · intro x y hx _ hy
        rw [← hy.userId, ← hy.deviceId, (howner x hx).1, (howner x hx).2, beq_self_eq_true,
          beq_self_eq_true]
        rfl
    | logoutDeviceByRefreshToken order tokenHash =>
      rw [hcall] at hrunsAt
      obtain ⟨_, hrun⟩ := runsAt_withoutSession hrunsAt
      have hlogs : ∀ x, Affects r.event x → LogsOut r.event x.userId x.deviceId := by
        intro x hx
        simp only [Affects, hcall] at hx
        simpa only [LogsOut, hcall] using hx
      obtain ⟨n₁, d, hd, ⟨hnone, hreads⟩ | ⟨token, n, htoken, hreads, hrevokes⟩⟩ :=
        runsAt_logoutDeviceByRefreshToken r.event.before hrun
      · refine hnothing fun x hx => ?_
        simp only [Affects, hcall] at hx
        obtain ⟨y, hy, -⟩ := hx
        obtain ⟨hmem, hhash⟩ := AuthDb.mem_of_refreshToken hy
        -- The token of an affected family was there when it was looked for.
        have hthere := hrecord.refreshToken_ne_none_of_seen hs₀ hrs hoverlap hk hd
          (by rw [hreads]; rfl) hmem (by simp only [LogsOut, hcall]; exact ⟨y, hy, rfl, rfl⟩)
        rw [hhash] at hthere
        exact hthere hnone
      · refine revokes_of_logout hs₀ hrs hoverlap hk (by rw [hreads]; rfl) hrevokes hafter hlogs ?_
        intro x y hx hrevoked hy
        simp only [Affects, hcall] at hx
        obtain ⟨z, hz, huser, hdevice⟩ := hx
        obtain ⟨z', hz', htz⟩ := (hrecord.keeps_of_seen hs₀ hrs hd).kept tokenHash token htoken
        cases hz.symm.trans hz'
        -- A token that was revoked before is left as it was.
        have hunrevoked : y.revokedAt = none := by
          by_contra hne
          exact hy.revokedAt hne hrevoked
        rw [← hy.userId, ← hy.deviceId, huser, hdevice, ← htz.userId, ← htz.deviceId,
          beq_self_eq_true, beq_self_eq_true, hunrevoked]
        rfl
  · obtain ⟨o, ho⟩ := hok
    rw [ho] at herror
    cases herror

end

/-! ## Ended families -/

/-- All tokens of a family are revoked. -/
def AuthDb.Ended (familyId : Uuid) (d : AuthDb) : Prop :=
  ∀ x ∈ d.refreshTokens, x.familyId = familyId → x.revokedAt ≠ none

section

variable {familyId : Uuid} {d d' : AuthDb}

/-- An update of tokens does not take up a family that has ended. -/
theorem AuthDb.Ended.update (h : d.Ended familyId) {p : RefreshToken → Bool}
    {f : RefreshToken → RefreshToken} (hafter : d'.refreshTokens = updateWhere p f d.refreshTokens)
    (hf : ∀ x : RefreshToken, x.Precedes (f x)) : d'.Ended familyId := by
  intro x hx hfamily
  rw [hafter] at hx
  obtain ⟨y, hy, rfl⟩ := List.mem_map.mp hx
  split at hfamily
  · rename_i hp
    rw [if_pos hp]
    exact (hf y).revokedAt (h y hy ((hf y).familyId.symm.trans hfamily))
  · rename_i hp
    rw [if_neg hp]
    exact h y hy hfamily

/-- A token of another family does not either. -/
theorem AuthDb.Ended.append (h : d.Ended familyId) {x : RefreshToken}
    (hafter : d'.refreshTokens = d.refreshTokens ++ [x]) (hx : x.familyId ≠ familyId) :
    d'.Ended familyId := by
  intro y hy hfamily
  rw [hafter] at hy
  rcases List.mem_append.mp hy with hy | hy
  · exact h y hy hfamily
  · rw [List.mem_singleton.mp hy] at hfamily
    exact absurd hfamily hx

/-- A rotation of a family that has ended does not add to it. -/
theorem AuthDb.Ended.withRotation (h : d.Ended familyId) {now : Timestamp} {token : RefreshToken}
    {graceRotation : Bool} : (d.withRotation now token graceRotation).Ended familyId := by
  unfold AuthDb.withRotation
  split
  · exact h
  · exact h.update (p := (·.tokenHash == token.tokenHash)) rfl fun x => x.precedes_used now

/-- A family that has ended has no active members. -/
theorem AuthDb.Ended.healthy_eq_false (h : d.Ended familyId) {now utcNow : Timestamp}
    {token : RefreshToken} (htoken : token.familyId = familyId) :
    d.healthy now utcNow token = false := by
  have hactive : d.activeMembers token.familyId now = 0 := by
    refine AuthDb.activeMembers_eq_zero_iff.mpr fun x hx hfamily => ?_
    obtain ⟨t, ht⟩ := Option.ne_none_iff_exists'.mp (h x hx (hfamily.trans htoken))
    rw [RefreshToken.isActive, RefreshToken.isSpent, ht, Option.isSome_some, Bool.or_true]
    rfl
  rw [AuthDb.healthy, hactive]
  exact Bool.and_false _

end

section

variable {s₀ : AuthDb} {rs : List AuthRecord} {k m : ℕ} {r a : AuthRecord} {y : RefreshToken}

/-- The families between two records. -/
theorem AuthRecords.familiesIn_stateAt (hs₀ : s₀.Sound) (hempty : s₀.refreshTokens = [])
    (hrs : AuthRecords s₀ rs) (hfresh : (rs.filterMap (loginFamily ·.event)).Nodup) (m : ℕ) :
    (stateAt s₀ rs m).FamiliesIn ((rs.take m).filterMap (loginFamily ·.event)) :=
  (hrs.take m).familiesIn hs₀ hempty (hfresh.sublist ((List.take_sublist m rs).filterMap _))

/-- A login draws a family that was not drawn before. -/
theorem loginFamily_fresh (hfresh : (rs.filterMap (loginFamily ·.event)).Nodup)
    (hm : rs[m]? = some a) {familyId : Uuid} (hfamily : loginFamily a.event = some familyId) :
    familyId ∉ (rs.take m).filterMap (loginFamily ·.event) := by
  intro hmem
  obtain ⟨hlt, rfl⟩ := List.getElem?_eq_some_iff.mp hm
  rw [← List.take_append_drop m rs, List.filterMap_append, List.drop_eq_getElem_cons hlt,
    List.nodup_append] at hfresh
  refine hfresh.2.2 _ hmem _ ?_ rfl
  exact List.mem_filterMap.mpr ⟨rs[m], List.mem_cons_self, hfamily⟩

/-- A token of a family that was there when a revocation returned. -/
structure EndedBy (s₀ : AuthDb) (rs : List AuthRecord) (k : ℕ) (r : AuthRecord)
    (y : RefreshToken) : Prop where
  record : rs[k]? = some r
  revokes : Revokes r
  affects : Affects r.event y
  mem : y ∈ r.event.after.refreshTokens

/-- A token that was ended is there later, and as it was left or further. -/
theorem EndedBy.exists_kept (h : EndedBy s₀ rs k r y) (hs₀ : s₀.Sound) (hrs : AuthRecords s₀ rs)
    (hkm : k < m) (hm : m ≤ rs.length) : ∃ z ∈ (stateAt s₀ rs m).refreshTokens, y.Precedes z := by
  have hrecord := hrs.isRecord hs₀ h.record
  have hfound := (hrecord.step.sound hrecord.sound).refreshToken_eq h.mem
  rw [hrecord.after] at hfound
  obtain ⟨z, hz, hyz⟩ := (hrs.kept hs₀ hkm hm).kept _ _ hfound
  exact ⟨z, (AuthDb.mem_of_refreshToken hz).1, hyz⟩

/-- The tokens of the family are of the owner that the revocation affects. -/
theorem EndedBy.owner (h : EndedBy s₀ rs k r y) (hs₀ : s₀.Sound) (hempty : s₀.refreshTokens = [])
    (hrs : AuthRecords s₀ rs) (hfresh : (rs.filterMap (loginFamily ·.event)).Nodup) (hkm : k < m)
    (hm : m ≤ rs.length) {x : RefreshToken} (hx : x ∈ (stateAt s₀ rs m).refreshTokens)
    (hfamily : x.familyId = y.familyId) : x.userId = y.userId ∧ x.deviceId = y.deviceId := by
  obtain ⟨z, hz, hyz⟩ := h.exists_kept hs₀ hrs hkm hm
  rw [← hyz.userId, ← hyz.deviceId]
  exact (hrs.familiesIn_stateAt hs₀ hempty hfresh m).homogeneous x hx z hz
    (hfamily.trans hyz.familyId.symm)

/-- No token of the family is rotated as long as the family has ended. -/
theorem EndedBy.not_rotated (h : EndedBy s₀ rs k r y) (hs₀ : s₀.Sound)
    (hempty : s₀.refreshTokens = []) (hrs : AuthRecords s₀ rs)
    (hfresh : (rs.filterMap (loginFamily ·.event)).Nodup) (hoverlap : ¬ Overlap rs) (hkm : k < m)
    (hm : rs[m]? = some a) (hended : ∀ n, k < n → n ≤ m → (stateAt s₀ rs n).Ended y.familyId)
    {order : LockOrder} {oldTokenHash : TokenHash} {replacement : NewRefreshToken}
    {expectedRole : Option UserRole} {token : RefreshToken}
    (hcall : a.event.request.call =
      .rotateRefreshToken order oldTokenHash replacement expectedRole)
    (htoken : a.event.before.refreshToken oldTokenHash = some token)
    (hrotatable : ∃ d, SeenBy s₀ (rs.take m) a {.refreshToken oldTokenHash} d a.event.before ∧
      d.refreshToken oldTokenHash = some token ∧ (token.isSpent = false ∨
        d.healthy a.event.request.now a.event.request.utcNow token = true))
    (hnew : a.event.before.refreshToken replacement.tokenHash = none)
    (hafter : a.event.after.refreshTokens =
      (a.event.before.withRotation a.event.request.now token token.isSpent).refreshTokens ++
        [replacement.successor token]) : token.familyId ≠ y.familyId := by
  intro hfamily
  have hrecord := hrs.isRecord hs₀ hm
  have hkrecord := hrs.isRecord hs₀ h.record
  have hmem := (AuthDb.mem_of_refreshToken htoken).1
  rw [hrecord.before] at hmem
  -- All tokens of a family that has ended are spent, so the rotation has judged the family.
  have hspent : token.isSpent = true := by
    obtain ⟨t, ht⟩ := Option.ne_none_iff_exists'.mp (hended m hkm le_rfl token hmem hfamily)
    rw [RefreshToken.isSpent, ht, Option.isSome_some, Bool.or_true]
  obtain ⟨d, ⟨n, hn, hd⟩, hthere, hunspent | hhealthy⟩ := hrotatable
  · rw [hspent] at hunspent
    cases hunspent
  obtain ⟨hle, hstate⟩ := hrecord.eq_of_seen hd
  rcases Nat.lt_or_ge k n with hkn | hnk
  · rw [hstate, (hended n hkn hle).healthy_eq_false hfamily] at hhealthy
    cases hhealthy
  -- The rotation has read the family before the revocation returned, and it holds the token since.
  have hfree : .refreshToken oldTokenHash ∉ r.locks := by
    refine Set.disjoint_singleton_left.mp (hd.disjoint r (List.mem_iff_getElem?.mpr ⟨k - n, ?_⟩))
    rw [List.getElem?_drop, Nat.add_sub_cancel' hnk, List.getElem?_take_of_lt hkm]
    exact h.record
  rw [hstate] at hthere
  obtain ⟨t, ht, hprecedes⟩ := (hrs.kept hs₀ hnk hkrecord.lt.le).kept _ _ hthere
  rw [← hkrecord.before] at ht
  obtain ⟨htmem, hthash⟩ := AuthDb.mem_of_refreshToken ht
  obtain ⟨huser, hdevice⟩ := h.owner hs₀ hempty hrs hfresh hkm hrecord.lt.le hmem hfamily
  have haffects : Affects r.event t := h.affects.of_owner (hprecedes.userId.trans huser)
    (hprecedes.deviceId.trans hdevice)
  -- A revocation locks the token, which the rotation holds; a logout may pass it over.
  rcases h.revokes.locked t htmem haffects with hlock | hlogs
  · rw [hthash] at hlock
    exact hfree hlock
  · rw [hprecedes.userId, hprecedes.deviceId] at hlogs
    refine hoverlap ⟨k, m, r, a, replacement.successor token, h.record, hm, hlogs, ⟨hnew, ?_⟩,
      .inr ⟨hkm, by rw [hcall]; rfl, n, hn, hnk⟩⟩
    refine (hrecord.step.sound hrecord.sound).refreshToken_eq ?_
    rw [hafter]
    exact List.mem_append_right _ (List.mem_singleton_self _)

/-- A family that has ended stays so. -/
theorem EndedBy.ended (h : EndedBy s₀ rs k r y) (hs₀ : s₀.Sound)
    (hempty : s₀.refreshTokens = []) (hrs : AuthRecords s₀ rs)
    (hfresh : (rs.filterMap (loginFamily ·.event)).Nodup) (hoverlap : ¬ Overlap rs) (hkm : k < m)
    (hm : m ≤ rs.length) : (stateAt s₀ rs m).Ended y.familyId := by
  -- By induction on the records. A rotation may have read any of the databases since the end of
  -- the family, so all of them are needed.
  induction m using Nat.strong_induction_on with
  | _ m ih =>
    obtain ⟨m, rfl⟩ : ∃ m', m = m' + 1 := ⟨m - 1, (Nat.succ_pred_eq_of_pos (pos_of_gt hkm)).symm⟩
    rcases (Nat.lt_succ_iff.mp hkm).eq_or_lt with rfl | hlt
    · -- The revocation itself.
      have hkrecord := hrs.isRecord hs₀ h.record
      intro x hx hfamily
      obtain ⟨huser, hdevice⟩ := h.owner hs₀ hempty hrs hfresh hkm hm hx hfamily
      rw [← hkrecord.after] at hx
      exact h.revokes.revoked x hx (h.affects.of_owner huser hdevice)
    · have hget : rs[m]? = some rs[m] := List.getElem?_eq_getElem hm
      have hrecord := hrs.isRecord hs₀ hget
      have hended : ∀ n, k < n → n ≤ m → (stateAt s₀ rs n).Ended y.familyId := fun n hkn hnm =>
        ih n (Nat.lt_succ_of_le hnm) hkn (hnm.trans hrecord.lt.le)
      have hbefore := hended m hlt le_rfl
      rw [← hrecord.before] at hbefore
      rw [← hrecord.after]
      cases hrecord.step with
      | kept hafter hresult => exact fun x hx => hbefore x (hafter ▸ hx)
      | loggedIn hcall hlocks hnew hafter =>
        rename_i userId deviceId refresh
        -- A login draws a family of its own.
        refine hbefore.append hafter fun hfamily => ?_
        obtain ⟨z, hz, hyz⟩ := h.exists_kept hs₀ hrs hlt hrecord.lt.le
        have hdrawn := (hrs.familiesIn_stateAt hs₀ hempty hfresh m).mem z hz
        rw [hyz.familyId] at hdrawn
        refine loginFamily_fresh hfresh hget ?_ hdrawn
        rw [loginFamily, hcall]
        exact congrArg some hfamily
      | rotated hcall htoken hlocks hrotatable hexpires hnew hafter hsession =>
        have hother := h.not_rotated hs₀ hempty hrs hfresh hoverlap hlt hget hended hcall htoken
          hrotatable hnew hafter
        exact hbefore.withRotation.append hafter hother
      | revoked hrevokes hafter hresult =>
        obtain ⟨d, -, -, -, htokens⟩ := hrevokes
        exact hbefore.update ((congrArg AuthDb.refreshTokens hafter).trans (htokens _))
          fun x => x.precedes_revoked _

end

/-! ## Revocation is complete -/

/-- In every run from a database without tokens whose logins draw distinct families, and in which
no call that adds a token of a device overlaps with a logout of it, revocations are complete. -/
theorem revocation_complete (users : List UserRow) (devices : List DeviceRow)
    {w : World AuthDb AuthLock PersistenceError (Option SessionRecord) AuthRequest}
    {reads : ℕ → List ℕ} {rs : List AuthRecord}
    (hw : authService.Traced ⟨users, devices, []⟩ w reads rs)
    (hfresh : (w.history.filterMap loginFamily).Nodup) (hoverlap : ¬ Overlap rs) :
    RevocationComplete w.history := by
  have hs₀ : AuthDb.Sound ⟨users, devices, []⟩ := List.nodup_nil
  have hrs : AuthRecords ⟨users, devices, []⟩ rs := hw.linked.records
  rw [← hw.linked.history] at hfresh ⊢
  rw [List.filterMap_map] at hfresh
  intro h₁ e h₂ hsplit hok e' he' x hrotates haffects y hy hfamily
  obtain ⟨rs₁, rs₂, rfl, rfl, hrs₂⟩ := List.map_eq_append_iff.mp hsplit
  obtain ⟨r, rs₂, rfl, rfl, rfl⟩ := List.map_eq_cons_iff.mp hrs₂
  obtain ⟨r', hr', rfl⟩ := List.mem_map.mp he'
  obtain ⟨i, hi⟩ := List.mem_iff_getElem?.mp hr'
  have hk : (rs₁ ++ r :: rs₂)[rs₁.length]? = some r := by
    rw [List.getElem?_append_right le_rfl, Nat.sub_self, List.getElem?_cons_zero]
  have hm : (rs₁ ++ r :: rs₂)[rs₁.length + (i + 1)]? = some r' := by
    rw [List.getElem?_append_right (Nat.le_add_right _ _), Nat.add_sub_cancel_left,
      List.getElem?_cons_succ, hi]
  have hkm : rs₁.length < rs₁.length + (i + 1) := Nat.lt_add_of_pos_right (Nat.succ_pos i)
  have hrecord := hrs.isRecord hs₀ hm
  obtain ⟨order, oldTokenHash, replacement, expectedRole, session, hcall, hx, hresult⟩ := hrotates
  -- A token of the family that was there when the revocation returned is affected as `x` is.
  have hkrecord := hrs.isRecord hs₀ hk
  have howner : y.userId = x.userId ∧ y.deviceId = x.deviceId := by
    have hfound := (hkrecord.step.sound hkrecord.sound).refreshToken_eq hy
    rw [hkrecord.after] at hfound
    obtain ⟨z, hz, hyz⟩ := (hrs.kept hs₀ hkm hrecord.lt.le).kept _ _ hfound
    have hxmem := (AuthDb.mem_of_refreshToken hx).1
    rw [hrecord.before] at hxmem
    rw [← hyz.userId, ← hyz.deviceId]
    exact (hrs.familiesIn_stateAt hs₀ rfl hfresh _).homogeneous z (AuthDb.mem_of_refreshToken hz).1
      x hxmem (hyz.familyId.trans hfamily)
  have hended : EndedBy ⟨users, devices, []⟩ (rs₁ ++ r :: rs₂) rs₁.length r y :=
    ⟨hk, revokes_of_record hs₀ hrs hoverlap hk hok, haffects.of_owner howner.1 howner.2, hy⟩
  cases hrecord.step with
  | kept hafter hnot => exact hnot _ hresult
  | loggedIn hlogin => rw [hcall] at hlogin; cases hlogin
  | rotated hcall' htoken hlocks hrotatable hexpires hnew hafter hsession =>
    rw [hcall] at hcall'
    cases hcall'
    cases hx.symm.trans htoken
    refine hended.not_rotated hs₀ rfl hrs hfresh hoverlap hkm hm ?_ hcall hx hrotatable hnew hafter
      hfamily.symm
    exact fun n hkn hnm => hended.ended hs₀ rfl hrs hfresh hoverlap hkn (hnm.trans hrecord.lt.le)
  | revoked hrevokes hafter hnot => exact hnot _ hresult

/-! ## Two runs -/

/-- Several statements of one session. -/
def nexts (i n : ℕ) : List (Move AuthRequest) := List.replicate n (.next i)

/-- A login, and a rotation that only has to commit. -/
def rotating : List (Move AuthRequest) :=
  .start 0 ⟨0, 0, .createLoginSession 1 3 (sampleRefresh 1 7)⟩ :: nexts 0 9 ++
    .start 0 (sampleRotation 1 1 2) :: nexts 0 12

/-- The device is revoked, and waits for the rotation. -/
def revokedWhileRotating : List (Move AuthRequest) :=
  rotating ++ .start 1 ⟨1, 1, .revokeDevice .stored 1 3⟩ :: nexts 1 1 ++ nexts 0 1 ++ nexts 1 8 ++
    .start 2 (sampleRotation 2 2 3) :: nexts 2 8

/-- The device is logged out: the `UPDATE` chooses its tokens when the rotation has not committed
yet, and the successor of the rotation is rotated afterwards. -/
def overlookedSuccessor : List (Move AuthRequest) :=
  rotating ++ .start 1 ⟨1, 1, .logoutDevice .stored 1 3⟩ :: nexts 1 1 ++ nexts 0 1 ++ nexts 1 3 ++
    .start 2 (sampleRotation 2 2 3) :: nexts 2 13

/-- The run with a revocation during a rotation can be played. -/
theorem play_revokedWhileRotating : ((Board.quiet sampleAuthStart 0 3).play authService
    revokedWhileRotating).isSome = true := by
  decide +kernel

/-- The run with an overlooked successor can be played. -/
theorem play_overlookedSuccessor : ((Board.quiet sampleAuthStart 0 3).play authService
    overlookedSuccessor).isSome = true := by
  decide +kernel

/-- A call that logs a device out. -/
def AuthCall.isLogout : AuthCall → Bool
  | .logoutDevice .. | .logoutDeviceByRefreshToken .. => true
  | _ => false

/-- Without logouts, no logout overlaps with anything. -/
theorem not_overlap_of_isLogout {rs : List AuthRecord}
    (h : ∀ r ∈ rs, r.event.request.call.isLogout = false) : ¬ Overlap rs := by
  rintro ⟨k, k', l, a, x, hk, -, hlogs, -⟩
  have hcall := h l (List.mem_of_getElem? hk)
  unfold LogsOut at hlogs
  split at hlogs
  · rename_i heq
    rw [heq] at hcall
    cases hcall
  · rename_i heq
    rw [heq] at hcall
    cases hcall
  · exact hlogs

/-- In the first run the revocation of the device is complete. -/
theorem revokedWhileRotating_complete : ∃ w, authService.Reachable sampleAuthStart w ∧
    w.history.length = 4 ∧ RevocationComplete w.history := by
  have hreachable : authService.Reachable sampleAuthStart
      (Board.world (Option.get _ play_revokedWhileRotating)) :=
    Board.reachable_of_play (fun _ => trivial) (Option.some_get _).symm
  obtain ⟨reads, rs, htraced⟩ := hreachable.traced
  refine ⟨_, hreachable, by decide +kernel, ?_⟩
  refine revocation_complete sampleAuthStart.users sampleAuthStart.devices htraced
    (by decide +kernel) (not_overlap_of_isLogout fun r hr => ?_)
  have hcalls : (Board.world (Option.get _ play_revokedWhileRotating)).history.all
      (fun e => !e.request.call.isLogout) = true := by decide +kernel
  rw [← htraced.linked.history] at hcalls
  simpa using List.all_eq_true.mp hcalls _ (List.mem_map_of_mem hr)

/-- A token that is rotated after it should have been revoked. -/
theorem not_revocationComplete {h : List AuthEvent} (h₁ h₂ h₃ : List AuthEvent) {e e' : AuthEvent}
    {x y : RefreshToken} (hsplit : h = h₁ ++ e :: (h₂ ++ e' :: h₃)) (hok : ∃ o, e.result = .ok o)
    (hrotates : RotatesToken e' x) (haffects : Affects e x) (hy : y ∈ e.after.refreshTokens)
    (hfamily : y.familyId = x.familyId) : ¬ RevocationComplete h := fun hcomplete =>
  hcomplete h₁ e _ hsplit hok e' (List.mem_append_right _ List.mem_cons_self) x hrotates haffects y
    hy hfamily

/-- In the second run the logout of the device is not complete. -/
theorem overlookedSuccessor_incomplete : ∃ w, authService.Reachable sampleAuthStart w ∧
    (w.history.filterMap loginFamily).Nodup ∧ ¬ RevocationComplete w.history := by
  refine ⟨Board.world (Option.get _ play_overlookedSuccessor),
    Board.reachable_of_play (fun _ => trivial) (Option.some_get _).symm, by decide +kernel, ?_⟩
  refine not_revocationComplete [_, _] [] [] (x := (sampleRefresh 2 7).row 1 3)
    (y := (sampleRefresh 2 7).row 1 3) rfl ⟨none, rfl⟩
    ⟨.stored, [2], sampleRefresh 3 0, none, ⟨⟨1, .user, .active⟩, 3, 7⟩, rfl, rfl, rfl⟩ ?_ ?_ rfl
  · exact ⟨rfl, rfl⟩
  · decide +kernel

end TaskTipsCloud

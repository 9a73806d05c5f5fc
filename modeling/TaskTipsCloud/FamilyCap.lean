import TaskTipsCloud.Revocation

/-!
# The limit of a family of refresh tokens

A spent token may be presented again while its family has room. The rotation counts the active
members before it waits for the row of the account, so two rotations that present different members
count the same room and both fill it: what a rotation fills is the room that it counted, less what
other rotations of the family have filled by the time it commits.
-/

namespace TaskTipsCloud

open Txn

/-! ## What the limit promises -/

/-- No call leaves a family with more active members than its limit. -/
def FamiliesCapped (h : List AuthEvent) : Prop :=
  ∀ e ∈ h, ∀ familyId t, e.clock ≤ t →
    e.after.activeMembers familyId t ≤ refreshFamilyActiveLimit

/-! ## Rotations that overlap -/

/-- The token that a rotation presented, with the replacement that it committed. -/
def replacedToken (e : AuthEvent) : Option (RefreshToken × NewRefreshToken) :=
  match e.request.call with
  | .rotateRefreshToken _ oldTokenHash replacement _ =>
    if e.before.refreshToken replacement.tokenHash = none ∧
        e.after.refreshToken replacement.tokenHash ≠ none then
      (e.before.refreshToken oldTokenHash).map (·, replacement)
    else none
  | _ => none

/-- A rotation that committed a member of a family for a token that was spent. -/
def isGraceRotation (familyId : Uuid) (e : AuthEvent) : Bool :=
  (replacedToken e).any fun (token, _) => token.isSpent && token.familyId == familyId

/-- How many rotations of spent tokens of a family commit after the position `n` and before the
position `k`. -/
def graceRotations (rs : List AuthRecord) (familyId : Uuid) (n k : ℕ) : ℕ :=
  ((rs.take k).drop n).countP (isGraceRotation familyId ·.event)

/-- How many members of a family are lost: they were not rotated, and they are revoked or have
expired. -/
def AuthDb.lostMembers (d : AuthDb) (familyId : Uuid) (now : Timestamp) : ℕ :=
  d.refreshTokens.countP fun t => t.familyId == familyId && t.usedAt.isNone && !t.isActive now

/-- The rotation `r` that commits at position `k` found its token at position `n`, and what it adds
is more than the room that it found there. -/
structure Crowds (s₀ : AuthDb) (rs : List AuthRecord) (k n : ℕ) (r : AuthRecord)
    (token : RefreshToken) (replacement : NewRefreshToken) : Prop where
  record : rs[k]? = some r
  replaced : replacedToken r.event = some (token, replacement)
  read : n ∈ r.reads
  le : n ≤ k
  found : (stateAt s₀ rs n).refreshToken token.tokenHash = some token
  /-- The token was spent and its family had room, or it has expired since it was checked. -/
  judged : token.isSpent = true ∧
      (stateAt s₀ rs n).healthy r.event.request.now r.event.request.utcNow token = true ∨
    token.isSpent = false ∧ r.event.request.utcNow < token.expiresAt ∧
      token.expiresAt ≤ r.event.clock
  unexpired : r.event.clock < replacement.expiresAt
  /-- The members that it counted and those that other rotations of spent tokens added by then are
  as many as the limit and those that the family lost meanwhile. -/
  filled : refreshFamilyActiveLimit + r.event.before.lostMembers token.familyId r.event.clock ≤
    (stateAt s₀ rs n).activeMembers token.familyId r.event.request.now +
      (stateAt s₀ rs n).lostMembers token.familyId r.event.request.now +
        graceRotations rs token.familyId n k

/-- A rotation adds a member to a family that is full, and the token that it was given is not one of
the active members. -/
def Overfills (e : AuthEvent) : Prop :=
  ∃ token replacement, replacedToken e = some (token, replacement) ∧
    token.isActive e.clock = false ∧ e.clock < replacement.expiresAt ∧
      refreshFamilyActiveLimit ≤ e.before.activeMembers token.familyId e.clock

/-! ## Counting the members -/

section

variable {d d' : AuthDb} {familyId : Uuid} {now t t' : Timestamp}

/-- Members expire. -/
theorem AuthDb.activeMembers_mono (ht : t ≤ t') :
    d.activeMembers familyId t' ≤ d.activeMembers familyId t := by
  refine List.countP_mono_left fun x _ hx => ?_
  rw [Bool.and_eq_true] at hx ⊢
  refine ⟨hx.1, ?_⟩
  by_contra hinactive
  rw [RefreshToken.isActive_mono ht (eq_false_of_ne_true hinactive)] at hx
  cases hx.2

/-- Tokens that are rotated or revoked are not counted any more. -/
theorem AuthDb.activeMembers_updateTokens_le {p : RefreshToken → Bool}
    {f : RefreshToken → RefreshToken} (hf : ∀ x, (f x).isActive t = false) :
    (d.updateTokens p f).activeMembers familyId t ≤ d.activeMembers familyId t := by
  rw [activeMembers, updateTokens, countP_updateWhere fun x => by rw [hf, Bool.and_false]]
  exact List.countP_mono_left fun x _ hx => (Bool.and_eq_true _ _).mp hx |>.1

/-- A member that is added. -/
theorem AuthDb.activeMembers_withToken {x : RefreshToken} :
    (d.withToken x).activeMembers familyId t = d.activeMembers familyId t +
      if x.familyId = familyId ∧ x.isActive t = true then 1 else 0 := by
  rw [activeMembers, withToken, List.countP_append, activeMembers, List.countP_singleton]
  simp only [Bool.and_eq_true, beq_iff_eq]

/-- The members of a family that were not rotated. -/
def AuthDb.unusedMembers (d : AuthDb) (familyId : Uuid) : ℕ :=
  d.refreshTokens.countP fun t => t.familyId == familyId && t.usedAt.isNone

/-- A member that was not rotated is active or lost. -/
theorem AuthDb.unusedMembers_eq (d : AuthDb) (familyId : Uuid) (t : Timestamp) :
    d.unusedMembers familyId = d.activeMembers familyId t + d.lostMembers familyId t := by
  unfold unusedMembers activeMembers lostMembers
  induction d.refreshTokens with
  | nil => rfl
  | cons x xs ih =>
    rw [List.countP_cons, List.countP_cons, List.countP_cons, ih]
    have hunused : x.isActive t = true → x.usedAt.isNone = true := by
      unfold RefreshToken.isActive RefreshToken.isSpent
      cases x.usedAt <;> simp
    cases hfamily : x.familyId == familyId <;> cases hactive : x.isActive t <;>
      cases hnone : x.usedAt.isNone <;> simp_all <;> omega

/-- Members stay lost. -/
theorem AuthDb.lostMembers_mono (ht : t ≤ t') :
    d.lostMembers familyId t ≤ d.lostMembers familyId t' := by
  refine List.countP_mono_left fun x _ hx => ?_
  simp only [Bool.and_eq_true, Bool.not_eq_true'] at hx ⊢
  exact ⟨hx.1, RefreshToken.isActive_mono ht hx.2⟩

/-- A used token is not active. -/
theorem RefreshToken.isActive_used (x : RefreshToken) : (x.used now).isActive t = false := rfl

/-- The use of the token by a rotation adds no active member. -/
theorem AuthDb.activeMembers_withRotation_le {token : RefreshToken} {graceRotation : Bool} :
    (d.withRotation now token graceRotation).activeMembers familyId t ≤
      d.activeMembers familyId t := by
  unfold withRotation
  split
  · exact le_rfl
  · exact activeMembers_updateTokens_le RefreshToken.isActive_used

/-- A rotation takes the token from the active members. -/
theorem AuthDb.activeMembers_withRotation_lt {token : RefreshToken} (hmem : token ∈ d.refreshTokens)
    (hactive : token.isActive t = true) :
    (d.withRotation now token token.isSpent).activeMembers token.familyId t <
      d.activeMembers token.familyId t := by
  have hspent : token.isSpent = false := by
    unfold RefreshToken.isActive at hactive
    simpa using (Bool.and_eq_true _ _).mp hactive |>.1
  rw [withRotation, hspent, if_neg Bool.false_ne_true, activeMembers, updateTokens]
  refine countP_updateWhere_lt (fun x => ?_) hmem ?_ (beq_self_eq_true _)
  · rw [RefreshToken.isActive_used, Bool.and_false]
  · rw [hactive, beq_self_eq_true, Bool.and_self]

/-- A rotation of a token that is not active leaves the others. -/
theorem AuthDb.activeMembers_withRotation_eq {token : RefreshToken} (hd : d.Sound)
    (hmem : token ∈ d.refreshTokens) (hinactive : token.isActive t = false) {graceRotation : Bool} :
    (d.withRotation now token graceRotation).activeMembers familyId t =
      d.activeMembers familyId t := by
  unfold withRotation
  split
  · rfl
  · rw [activeMembers, updateTokens,
      countP_updateWhere fun x => by rw [RefreshToken.isActive_used, Bool.and_false], activeMembers]
    refine List.countP_congr fun x hx => ?_
    -- The token is the only one with its hash.
    by_cases hhash : x.tokenHash = token.tokenHash
    · obtain rfl : x = token := List.inj_on_of_nodup_map hd hx hmem hhash
      rw [hinactive, Bool.and_false, Bool.false_and]
    · rw [beq_false_of_ne hhash, Bool.not_false, Bool.and_true]

end

/-! ## One call -/

section

variable {R : Set AuthLock → AuthDb → AuthDb → Prop} {H : Set AuthLock} {e : AuthEvent}
  {familyId : Uuid} {t : Timestamp} {token : RefreshToken} {replacement : NewRefreshToken}

/-- Only the tokens matter. -/
theorem AuthDb.activeMembers_of_eq {d d' : AuthDb} (h : d'.refreshTokens = d.refreshTokens) :
    d'.activeMembers familyId t = d.activeMembers familyId t := by
  unfold AuthDb.activeMembers
  rw [h]

/-- A call that commits no token replaces none. -/
theorem replacedToken_eq_none (h : ∀ hash, e.before.refreshToken hash = none →
    e.after.refreshToken hash = none) : replacedToken e = none := by
  unfold replacedToken
  split
  · exact if_neg fun hnew => hnew.2 (h _ hnew.1)
  · rfl

/-- A rotation replaces the token that it was given. -/
theorem replacedToken_rotated {order : LockOrder} {oldTokenHash : TokenHash}
    {expectedRole : Option UserRole}
    (hcall : e.request.call = .rotateRefreshToken order oldTokenHash replacement expectedRole)
    (htoken : e.before.refreshToken oldTokenHash = some token)
    (hnew : e.before.refreshToken replacement.tokenHash = none)
    (hafter : e.after.refreshTokens =
      (e.before.withRotation e.request.now token token.isSpent).refreshTokens ++
        [replacement.successor token]) :
    replacedToken e = some (token, replacement) := by
  have hthere : e.after.refreshToken replacement.tokenHash ≠ none := by
    unfold AuthDb.refreshToken
    rw [hafter, Ne, List.find?_eq_none]
    exact fun hnone => hnone _ (List.mem_append_right _ (List.mem_singleton_self _))
      (beq_self_eq_true _)
  simp only [replacedToken, hcall]
  rw [if_pos ⟨hnew, hthere⟩, htoken]
  rfl

/-- Revoking tokens adds none. -/
theorem refreshToken_eq_none_of_revoked {d d' : AuthDb} {p : RefreshToken → Bool} {now : Timestamp}
    (hafter : d'.refreshTokens = (d.updateTokens p (·.revoked now)).refreshTokens)
    {hash : TokenHash}
    (h : d.refreshToken hash = none) : d'.refreshToken hash = none := by
  unfold AuthDb.refreshToken at h ⊢
  rw [hafter]
  refine (find?_updateWhere (f := (RefreshToken.revoked · now)) fun _ _ => rfl).trans ?_
  rw [h, Option.map_none]

/-- What a call that replaces a token is and what it has read. -/
theorem TokenStep.of_replacedToken (hstep : TokenStep R H e)
    (h : replacedToken e = some (token, replacement)) :
    token ∈ e.before.refreshTokens ∧ e.request.utcNow < token.expiresAt ∧
      (∃ d, R {.refreshToken token.tokenHash} d e.before ∧
        d.refreshToken token.tokenHash = some token ∧ (token.isSpent = false ∨
          d.healthy e.request.now e.request.utcNow token = true)) ∧
      e.after.refreshTokens =
        (e.before.withRotation e.request.now token token.isSpent).refreshTokens ++
          [replacement.successor token] := by
  have hnone : replacedToken e ≠ none := by
    rw [h]
    exact Option.some_ne_none _
  cases hstep with
  | kept hafter =>
    refine absurd (replacedToken_eq_none fun hash hhash => ?_) hnone
    unfold AuthDb.refreshToken at hhash ⊢
    rwa [hafter]
  | loggedIn hcall =>
    unfold replacedToken at hnone
    rw [hcall] at hnone
    exact absurd rfl hnone
  | rotated hcall htoken hlocks hrotatable hexpires hnew hafter =>
    cases h.symm.trans (replacedToken_rotated hcall htoken hnew hafter)
    obtain ⟨hmem, rfl⟩ := AuthDb.mem_of_refreshToken htoken
    exact ⟨hmem, hexpires, hrotatable, hafter⟩
  | revoked hrevokes hafter =>
    obtain ⟨d, -, -, -, htokens⟩ := hrevokes
    exact absurd (replacedToken_eq_none fun _ => refreshToken_eq_none_of_revoked
      ((congrArg AuthDb.refreshTokens hafter).trans (htokens _))) hnone

/-- A call that does not overfill a family keeps its limit. -/
theorem TokenStep.capped (hstep : TokenStep R H e) (hnot : ¬ Overfills e)
    (hfresh : ∀ drawn, loginFamily e = some drawn →
      ∀ x ∈ e.before.refreshTokens, x.familyId ≠ drawn)
    (hcapped : e.before.activeMembers familyId e.clock ≤ refreshFamilyActiveLimit) :
    e.after.activeMembers familyId e.clock ≤ refreshFamilyActiveLimit := by
  cases hstep with
  | kept hafter => rwa [AuthDb.activeMembers_of_eq hafter]
  | loggedIn hcall hlocks hnew hafter =>
    rename_i userId deviceId refresh
    rw [@AuthDb.activeMembers_of_eq _ _ (e.before.withToken (refresh.row userId deviceId)) _ hafter,
      AuthDb.activeMembers_withToken]
    split
    · rename_i hmember
      have hnone : e.before.activeMembers familyId e.clock = 0 := by
        refine AuthDb.activeMembers_eq_zero_iff.mpr fun x hx hfamily => ?_
        have hdrawn : loginFamily e = some refresh.familyId := by
          unfold loginFamily
          rw [hcall]
        exact absurd (hfamily.trans hmember.1.symm) (hfresh _ hdrawn x hx)
      rw [hnone]
      decide
    · exact hcapped
  | rotated hcall htoken hlocks hrotatable hexpires hnew hafter hresult =>
    rename_i order oldTokenHash replacement expectedRole token
    have hreplaced := replacedToken_rotated hcall htoken hnew hafter
    obtain ⟨hmem, rfl⟩ := AuthDb.mem_of_refreshToken htoken
    rw [@AuthDb.activeMembers_of_eq _ _ ((e.before.withRotation e.request.now token
      token.isSpent).withToken (replacement.successor token)) _ hafter,
      AuthDb.activeMembers_withToken]
    have hle := @AuthDb.activeMembers_withRotation_le e.before familyId e.request.now e.clock token
      token.isSpent
    split
    · rename_i hmember
      obtain ⟨hfamily, hfilled⟩ := hmember
      obtain rfl : token.familyId = familyId := hfamily
      cases hactive : token.isActive e.clock with
      | true =>
        have hlt := @AuthDb.activeMembers_withRotation_lt _ e.request.now _ _ hmem hactive
        omega
      | false =>
        -- The family has room.
        have hroom : e.before.activeMembers token.familyId e.clock < refreshFamilyActiveLimit := by
          by_contra hfull
          have hunexpired : e.clock < replacement.expiresAt :=
            of_decide_eq_true ((Bool.and_eq_true _ _).mp hfilled).2
          exact hnot ⟨token, replacement, hreplaced, hactive, hunexpired, not_lt.mp hfull⟩
        omega
    · exact hle.trans hcapped
  | revoked hrevokes hafter =>
    obtain ⟨d, -, -, -, htokens⟩ := hrevokes
    rename_i p K b
    rw [AuthDb.activeMembers_of_eq ((congrArg AuthDb.refreshTokens hafter).trans (htokens _))]
    refine (AuthDb.activeMembers_updateTokens_le fun x => ?_).trans hcapped
    simp [RefreshToken.isActive, RefreshToken.isSpent, RefreshToken.revoked]

/-- A call that overfills a family breaks its limit. -/
theorem TokenStep.not_capped (hstep : TokenStep R H e) (hb : e.before.Sound) (h : Overfills e) :
    ∃ familyId, refreshFamilyActiveLimit < e.after.activeMembers familyId e.clock := by
  obtain ⟨token, replacement, hreplaced, hinactive, hunexpired, hfull⟩ := h
  obtain ⟨hmem, -, -, hafter⟩ := hstep.of_replacedToken hreplaced
  refine ⟨token.familyId, ?_⟩
  rw [@AuthDb.activeMembers_of_eq _ _ ((e.before.withRotation e.request.now token
    token.isSpent).withToken (replacement.successor token)) _ hafter,
    AuthDb.activeMembers_withToken, AuthDb.activeMembers_withRotation_eq hb hmem hinactive,
    if_pos ⟨rfl, decide_eq_true hunexpired⟩]
  exact Nat.lt_succ_of_le hfull

/-- Revoking tokens rotates none. -/
theorem AuthDb.unusedMembers_revoked {d d' : AuthDb} {p : RefreshToken → Bool} {now : Timestamp}
    (hafter : d'.refreshTokens = (d.updateTokens p (·.revoked now)).refreshTokens) :
    d'.unusedMembers familyId = d.unusedMembers familyId := by
  unfold AuthDb.unusedMembers
  rw [hafter, AuthDb.updateTokens, updateWhere, List.countP_map]
  refine List.countP_congr fun x _ => ?_
  simp only [Function.comp_apply]
  split <;> rfl

/-- The rotation of a token that is not spent takes it from the unused members of its family. -/
theorem AuthDb.unusedMembers_withRotation {d : AuthDb} {now : Timestamp} (hd : d.Sound)
    (hmem : token ∈ d.refreshTokens) (hspent : token.isSpent = false) :
    (d.withRotation now token false).unusedMembers familyId +
      (if token.familyId = familyId then 1 else 0) = d.unusedMembers familyId := by
  have hunused : token.usedAt.isNone = true := by
    unfold RefreshToken.isSpent at hspent
    cases hused : token.usedAt with
    | none => rfl
    | some _ => simp [hused] at hspent
  obtain ⟨l₁, l₂, hrows, hused⟩ := exists_updateWhere_key (f := (RefreshToken.used · now))
    (g := RefreshToken.tokenHash) hd hmem
  have hafter : (d.withRotation now token false).refreshTokens = l₁ ++ token.used now :: l₂ := hused
  have hgone : (token.used now).usedAt.isNone = false := rfl
  unfold AuthDb.unusedMembers
  rw [hafter, hrows, List.countP_append, List.countP_append, List.countP_cons, List.countP_cons,
    hgone, hunused]
  simp only [Bool.and_false, Bool.and_true, beq_iff_eq, Bool.false_eq_true, if_false]
  omega

/-- A call that is no login into a family adds a member that was not rotated only as a rotation of a
spent token. -/
theorem TokenStep.unusedMembers_eq (hstep : TokenStep R H e) (hb : e.before.Sound)
    (hlogin : loginFamily e ≠ some familyId) :
    e.after.unusedMembers familyId = e.before.unusedMembers familyId +
      if isGraceRotation familyId e = true then 1 else 0 := by
  -- Only a rotation replaces a token.
  have hother : replacedToken e = none → isGraceRotation familyId e = false := fun hnone => by
    rw [isGraceRotation, hnone, Option.any_none]
  cases hstep with
  | kept hafter =>
    rw [hother (replacedToken_eq_none fun hash hhash => ?_), if_neg Bool.false_ne_true,
      Nat.add_zero, AuthDb.unusedMembers, hafter]
    · rfl
    · unfold AuthDb.refreshToken at hhash ⊢
      rwa [hafter]
  | loggedIn hcall hlocks hnew hafter =>
    rename_i userId deviceId refresh
    have hne : refresh.familyId ≠ familyId := fun hfamily => hlogin (by
      unfold loginFamily
      rw [hcall]
      exact congrArg some hfamily)
    have hreplaced : replacedToken e = none := by
      unfold replacedToken
      rw [hcall]
    have hrow : ((refresh.row userId deviceId).familyId == familyId) = false :=
      beq_false_of_ne hne
    rw [hother hreplaced, if_neg Bool.false_ne_true, AuthDb.unusedMembers, hafter,
      List.countP_append, List.countP_singleton, hrow, Bool.false_and, if_neg Bool.false_ne_true]
    rfl
  | rotated hcall htoken hlocks hrotatable hexpires hnew hafter hresult =>
    rename_i order oldTokenHash replacement expectedRole token
    have hreplaced := replacedToken_rotated hcall htoken hnew hafter
    obtain ⟨hmem, -⟩ := AuthDb.mem_of_refreshToken htoken
    have hgrace : isGraceRotation familyId e = (token.isSpent && token.familyId == familyId) := by
      rw [isGraceRotation, hreplaced, Option.any_some]
    -- The replacement is a new member of its family that was not rotated.
    have hadded : e.after.unusedMembers familyId =
        (e.before.withRotation e.request.now token token.isSpent).unusedMembers familyId +
          if token.familyId = familyId then 1 else 0 := by
      rw [AuthDb.unusedMembers, hafter, List.countP_append, List.countP_singleton]
      have hsuccessor : ((replacement.successor token).familyId == familyId &&
          (replacement.successor token).usedAt.isNone) = (token.familyId == familyId) :=
        Bool.and_true _
      simp only [hsuccessor, beq_iff_eq]
      rfl
    rw [hadded, hgrace]
    -- The first rotation of a token spends it, so the family has as many as before.
    cases hspent : token.isSpent with
    | true =>
      rw [Bool.true_and]
      simp only [beq_iff_eq]
      rfl
    | false =>
      rw [Bool.false_and, if_neg Bool.false_ne_true]
      exact AuthDb.unusedMembers_withRotation hb hmem hspent
  | revoked hrevokes hafter =>
    obtain ⟨d, -, -, -, htokens⟩ := hrevokes
    have hrevoked := (congrArg AuthDb.refreshTokens hafter).trans (htokens _)
    rw [hother (replacedToken_eq_none fun _ => refreshToken_eq_none_of_revoked hrevoked),
      if_neg Bool.false_ne_true]
    exact AuthDb.unusedMembers_revoked hrevoked

/-- Members of a family stay lost in every call that neither adds nor rotates one of the family. -/
theorem TokenStep.lostMembers_le (hstep : TokenStep R H e) (hb : e.before.Sound)
    (hrotation : ∀ x, replacedToken e = some x → x.1.familyId ≠ familyId) :
    e.before.lostMembers familyId t ≤ e.after.lostMembers familyId t := by
  have hsame : ∀ {d d' : AuthDb}, d'.refreshTokens = d.refreshTokens →
      d.lostMembers familyId t ≤ d'.lostMembers familyId t := fun h => by
    unfold AuthDb.lostMembers
    rw [h]
  have happend : ∀ {d d' : AuthDb} {x : RefreshToken}, d'.refreshTokens = d.refreshTokens ++ [x] →
      d.lostMembers familyId t ≤ d'.lostMembers familyId t := fun h => by
    unfold AuthDb.lostMembers
    rw [h, List.countP_append]
    exact Nat.le_add_right _ _
  cases hstep with
  | kept hafter => exact hsame hafter
  | loggedIn hcall hlocks hnew hafter => exact happend hafter
  | rotated hcall htoken hlocks hrotatable hexpires hnew hafter hresult =>
    rename_i order oldTokenHash replacement expectedRole token
    have hne := hrotation _ (replacedToken_rotated hcall htoken hnew hafter)
    obtain ⟨hmem, -⟩ := AuthDb.mem_of_refreshToken htoken
    refine le_trans ?_ (happend hafter)
    unfold AuthDb.withRotation
    split
    · exact le_rfl
    · unfold AuthDb.lostMembers
      rw [AuthDb.updateTokens, updateWhere, List.countP_map]
      refine List.countP_mono_left fun x hx hlost => ?_
      -- The token that is rotated is of another family.
      have hother : x.tokenHash ≠ token.tokenHash := by
        refine fun hhash => hne ?_
        obtain rfl : x = token := List.inj_on_of_nodup_map hb hx hmem hhash
        simp only [Bool.and_eq_true, beq_iff_eq] at hlost
        exact hlost.1.1
      simpa [hother] using hlost
  | revoked hrevokes hafter =>
    obtain ⟨d, -, -, -, htokens⟩ := hrevokes
    refine le_trans ?_ (hsame ((congrArg AuthDb.refreshTokens hafter).trans (htokens _)))
    unfold AuthDb.lostMembers
    rw [AuthDb.revokeChosen, AuthDb.updateTokens, updateWhere, List.countP_map]
    refine List.countP_mono_left fun x _ hlost => ?_
    simp only [Function.comp_apply]
    split
    · simp only [Bool.and_eq_true] at hlost ⊢
      exact ⟨hlost.1, by simp [RefreshToken.isActive, RefreshToken.isSpent, RefreshToken.revoked]⟩
    · exact hlost

end

/-! ## Every run -/

section

variable {users : List UserRow} {devices : List DeviceRow}
  {w : World AuthDb AuthLock PersistenceError (Option SessionRecord) AuthRequest}
  {reads : ℕ → List ℕ} {rs : List AuthRecord}

/-- What finished up to a record finished before it. -/
theorem clock_le_of_mem_take (hclocks : (rs.map (·.event.clock)).Pairwise (· ≤ ·)) {k : ℕ}
    {r : AuthRecord} (hk : rs[k]? = some r) :
    ∀ r' ∈ rs.take (k + 1), r'.event.clock ≤ r.event.clock := by
  obtain ⟨hlt, rfl⟩ := List.getElem?_eq_some_iff.mp hk
  have htake : rs.take (k + 1) = rs.take k ++ [rs[k]] := List.take_succ_eq_append_getElem hlt
  rw [← List.take_append_drop (k + 1) rs, List.map_append, htake, List.map_append,
    List.pairwise_append, List.pairwise_append] at hclocks
  rw [htake]
  intro r' hr'
  rcases List.mem_append.mp hr' with hr' | hr'
  · exact hclocks.1.2.2 _ (List.mem_map_of_mem hr') _ (List.mem_singleton_self _)
  · rw [List.mem_singleton.mp hr']

/-- The families stay within their limit, up to every record of a run that overfills none. -/
theorem AuthRecords.capped {s₀ : AuthDb} (hs₀ : s₀.Sound) (hempty : s₀.refreshTokens = [])
    (hrs : AuthRecords s₀ rs) (hfresh : (rs.filterMap (loginFamily ·.event)).Nodup)
    (hclocks : (rs.map (·.event.clock)).Pairwise (· ≤ ·)) (hnot : ∀ r ∈ rs, ¬ Overfills r.event)
    {n : ℕ} (hn : n ≤ rs.length) {familyId : Uuid} {t : Timestamp}
    (ht : ∀ r ∈ rs.take n, r.event.clock ≤ t) :
    (stateAt s₀ rs n).activeMembers familyId t ≤ refreshFamilyActiveLimit := by
  induction n generalizing t with
  | zero =>
    have hnone : (stateAt s₀ rs 0).refreshTokens = [] := hempty
    rw [AuthDb.activeMembers, hnone]
    exact Nat.zero_le _
  | succ n ih =>
    have hget : rs[n]? = some rs[n] := List.getElem?_eq_getElem hn
    have hrecord := hrs.isRecord hs₀ hget
    have hearlier := clock_le_of_mem_take hclocks hget
    have hbefore : rs[n].event.before.activeMembers familyId rs[n].event.clock ≤
        refreshFamilyActiveLimit := by
      rw [hrecord.before]
      exact ih (Nat.le_of_succ_le hn) fun r hr =>
        hearlier r (List.take_subset_take_left rs (Nat.le_succ n) hr)
    have hafter := hrecord.step.capped (hnot _ (List.getElem_mem hn))
      (fun drawn hdrawn x hx hfamily => ?_) hbefore
    · rw [hrecord.after] at hafter
      refine (AuthDb.activeMembers_mono (ht _ ?_)).trans hafter
      rw [List.take_succ_eq_append_getElem hn]
      exact List.mem_append_right _ (List.mem_singleton_self _)
    · rw [hrecord.before] at hx
      have hmem := (hrs.familiesIn_stateAt hs₀ hempty hfresh n).mem x hx
      rw [hfamily] at hmem
      exact loginFamily_fresh hfresh hget hdrawn hmem

/-- No login draws a family that has a token. -/
theorem AuthRecords.loginFamily_ne {s₀ : AuthDb} (hs₀ : s₀.Sound) (hempty : s₀.refreshTokens = [])
    (hrs : AuthRecords s₀ rs) (hfresh : (rs.filterMap (loginFamily ·.event)).Nodup) {n m : ℕ}
    (hnm : n ≤ m) {a : AuthRecord} (hm : rs[m]? = some a) {x : RefreshToken}
    (hx : x ∈ (stateAt s₀ rs n).refreshTokens) : loginFamily a.event ≠ some x.familyId := by
  intro hdrawn
  have hmem := (hrs.familiesIn_stateAt hs₀ hempty hfresh n).mem x hx
  exact loginFamily_fresh hfresh hm hdrawn
    (((List.take_prefix_take_left hnm).sublist.filterMap _).subset hmem)

/-- The members of a family that were not rotated are those of an earlier state and those that
rotations of spent tokens have added since. -/
theorem AuthRecords.unusedMembers_eq {s₀ : AuthDb} (hs₀ : s₀.Sound)
    (hempty : s₀.refreshTokens = []) (hrs : AuthRecords s₀ rs)
    (hfresh : (rs.filterMap (loginFamily ·.event)).Nodup) {n k : ℕ} (hnk : n ≤ k)
    (hk : k ≤ rs.length) {x : RefreshToken} (hx : x ∈ (stateAt s₀ rs n).refreshTokens) :
    (stateAt s₀ rs k).unusedMembers x.familyId =
      (stateAt s₀ rs n).unusedMembers x.familyId + graceRotations rs x.familyId n k := by
  induction k, hnk using Nat.le_induction with
  | base =>
    have hnone : (rs.take n).drop n = [] := by
      rw [List.drop_eq_nil_iff, List.length_take]
      exact min_le_left _ _
    rw [graceRotations, hnone, List.countP_nil, Nat.add_zero]
  | succ k hnk ih =>
    have hget : rs[k]? = some rs[k] := List.getElem?_eq_getElem hk
    have hrecord := hrs.isRecord hs₀ hget
    have hstep := hrecord.step.unusedMembers_eq hrecord.sound
      (hrs.loginFamily_ne hs₀ hempty hfresh hnk hget hx)
    have hlength : n ≤ (rs.take k).length := by
      rw [List.length_take, min_eq_left (Nat.le_of_succ_le hk)]
      exact hnk
    rw [hrecord.before, hrecord.after, ih (Nat.le_of_succ_le hk)] at hstep
    rw [hstep, graceRotations, graceRotations, List.take_succ_eq_append_getElem hk,
      List.drop_append_of_le_length hlength, List.countP_append, List.countP_singleton,
      Nat.add_assoc]

/-- What a rotation adds is more than the room that it found exactly when the family is full when it
commits. -/
theorem AuthRecords.filled_iff {s₀ : AuthDb} (hs₀ : s₀.Sound) (hempty : s₀.refreshTokens = [])
    (hrs : AuthRecords s₀ rs) (hfresh : (rs.filterMap (loginFamily ·.event)).Nodup) {n k : ℕ}
    {r : AuthRecord} (hk : rs[k]? = some r) (hnk : n ≤ k) {x : RefreshToken}
    (hx : x ∈ (stateAt s₀ rs n).refreshTokens) :
    refreshFamilyActiveLimit + r.event.before.lostMembers x.familyId r.event.clock ≤
        (stateAt s₀ rs n).activeMembers x.familyId r.event.request.now +
          (stateAt s₀ rs n).lostMembers x.familyId r.event.request.now +
            graceRotations rs x.familyId n k ↔
      refreshFamilyActiveLimit ≤ r.event.before.activeMembers x.familyId r.event.clock := by
  have hrecord := hrs.isRecord hs₀ hk
  have hunused := hrs.unusedMembers_eq hs₀ hempty hfresh hnk hrecord.lt.le hx
  have hbefore := r.event.before.unusedMembers_eq x.familyId r.event.clock
  have hread := (stateAt s₀ rs n).unusedMembers_eq x.familyId r.event.request.now
  rw [hrecord.before] at hbefore ⊢
  omega

/-- A rotation that adds more than the room that it found overfills the family. -/
theorem Crowds.overfills {s₀ : AuthDb} (hs₀ : s₀.Sound) (hempty : s₀.refreshTokens = [])
    (hrs : AuthRecords s₀ rs) (hfresh : (rs.filterMap (loginFamily ·.event)).Nodup) {k n : ℕ}
    {r : AuthRecord} {token : RefreshToken} {replacement : NewRefreshToken}
    (h : Crowds s₀ rs k n r token replacement) : Overfills r.event := by
  refine ⟨token, replacement, h.replaced, ?_, h.unexpired,
    (hrs.filled_iff hs₀ hempty hfresh h.record h.le (AuthDb.mem_of_refreshToken h.found).1).mp
      h.filled⟩
  rcases h.judged with ⟨hspent, -⟩ | ⟨-, -, hexpired⟩
  · rw [RefreshToken.isActive, hspent]
    rfl
  · rw [RefreshToken.isActive, decide_eq_false (not_lt.mpr hexpired), Bool.and_false]

/-- A rotation that overfills a family adds more than the room that it found. -/
theorem AuthRecords.exists_crowds {s₀ : AuthDb} (hs₀ : s₀.Sound) (hempty : s₀.refreshTokens = [])
    (hrs : AuthRecords s₀ rs) (hfresh : (rs.filterMap (loginFamily ·.event)).Nodup) {k : ℕ}
    {r : AuthRecord} (hk : rs[k]? = some r) (h : Overfills r.event) :
    ∃ n token replacement, Crowds s₀ rs k n r token replacement := by
  have hrecord := hrs.isRecord hs₀ hk
  obtain ⟨token, replacement, hreplaced, hinactive, hunexpired, hfull⟩ := h
  obtain ⟨-, hexpires, ⟨d, ⟨n, hn, hseen⟩, hfound, hrotatable⟩, -⟩ :=
    hrecord.step.of_replacedToken hreplaced
  obtain ⟨hle, rfl⟩ := hrecord.eq_of_seen hseen
  refine ⟨n, token, replacement, hk, hreplaced, hn, hle, hfound, ?_, hunexpired,
    (hrs.filled_iff hs₀ hempty hfresh hk hle (AuthDb.mem_of_refreshToken hfound).1).mpr hfull⟩
  cases hspent : token.isSpent with
  | false =>
    rw [RefreshToken.isActive, hspent, Bool.not_false, Bool.true_and,
      decide_eq_false_iff_not] at hinactive
    exact .inr ⟨rfl, hexpires, not_lt.mp hinactive⟩
  | true =>
    rcases hrotatable with hunspent | hhealthy
    · cases hspent.symm.trans hunspent
    · exact .inl ⟨rfl, hhealthy⟩

/-- Members of a family stay lost while no rotation of the family commits. -/
theorem AuthRecords.lostMembers_le {s₀ : AuthDb} (hs₀ : s₀.Sound) (hrs : AuthRecords s₀ rs)
    {n k : ℕ} (hnk : n ≤ k) (hk : k ≤ rs.length) {familyId : Uuid} {t : Timestamp}
    (hnone : ∀ j a x, n ≤ j → j < k → rs[j]? = some a → replacedToken a.event = some x →
      x.1.familyId ≠ familyId) :
    (stateAt s₀ rs n).lostMembers familyId t ≤ (stateAt s₀ rs k).lostMembers familyId t := by
  induction k, hnk using Nat.le_induction with
  | base => exact le_rfl
  | succ k hnk ih =>
    have hget : rs[k]? = some rs[k] := List.getElem?_eq_getElem hk
    have hrecord := hrs.isRecord hs₀ hget
    have hstep := @TokenStep.lostMembers_le _ _ _ familyId t hrecord.step hrecord.sound
      fun x => hnone k _ x hnk (Nat.lt_succ_self k) hget
    rw [hrecord.before, hrecord.after] at hstep
    exact (ih (Nat.le_of_succ_le hk) fun j a x hnj hjk =>
      hnone j a x hnj (Nat.lt_succ_of_lt hjk)).trans hstep

/-- A rotation of a spent token that adds more than the room that it found overlaps with another
rotation of the family, which commits after the one counted and before it commits. -/
theorem Crowds.overlaps {s₀ : AuthDb} (hs₀ : s₀.Sound) (hrs : AuthRecords s₀ rs) {k n : ℕ}
    {r : AuthRecord} {token : RefreshToken} {replacement : NewRefreshToken}
    (h : Crowds s₀ rs k n r token replacement) (htime : r.event.request.now ≤ r.event.clock)
    (hspent : token.isSpent = true) : ∃ j a x, n ≤ j ∧ j < k ∧ rs[j]? = some a ∧
      replacedToken a.event = some x ∧ x.1.familyId = token.familyId := by
  by_contra hnone
  have hrecord := hrs.isRecord hs₀ h.record
  have hother : ∀ j a x, n ≤ j → j < k → rs[j]? = some a → replacedToken a.event = some x →
      x.1.familyId ≠ token.familyId := fun j a x hnj hjk hj hx hfamily =>
    hnone ⟨j, a, x, hnj, hjk, hj, hx, hfamily⟩
  have hgrace : graceRotations rs token.familyId n k = 0 := by
    refine List.countP_eq_zero.mpr fun a ha hgrace => ?_
    obtain ⟨i, hi⟩ := List.mem_iff_getElem?.mp ha
    rw [List.getElem?_drop, List.getElem?_take] at hi
    split at hi
    · rename_i hik
      unfold isGraceRotation at hgrace
      cases hx : replacedToken a.event with
      | none =>
        rw [hx] at hgrace
        cases hgrace
      | some x =>
        rw [hx, Option.any_some, Bool.and_eq_true, beq_iff_eq] at hgrace
        exact hother (n + i) a x (Nat.le_add_right _ _) hik hi hx hgrace.2
    · cases hi
  have hlost : (stateAt s₀ rs n).lostMembers token.familyId r.event.request.now ≤
      r.event.before.lostMembers token.familyId r.event.clock := by
    rw [hrecord.before]
    exact (hrs.lostMembers_le hs₀ h.le hrecord.lt.le hother).trans (AuthDb.lostMembers_mono htime)
  have hfilled := h.filled
  rcases h.judged with ⟨-, hhealthy⟩ | ⟨hunspent, -⟩
  · simp only [AuthDb.healthy, Bool.and_eq_true, decide_eq_true_eq] at hhealthy
    omega
  · cases hspent.symm.trans hunspent

/-- In every run from a database without tokens whose logins draw distinct families, families stay
within their limit if and only if no rotation adds more than the room that it found; and a rotation
of a spent token that does overlaps with another rotation of its family, which commits after the one
counted and before it commits. -/
theorem families_capped_iff (hw : authService.Traced ⟨users, devices, []⟩ w reads rs)
    (hfresh : (w.history.filterMap loginFamily).Nodup) :
    (FamiliesCapped w.history ↔ ∀ k n r token replacement,
      ¬ Crowds ⟨users, devices, []⟩ rs k n r token replacement) ∧
      ∀ k n r token replacement, Crowds ⟨users, devices, []⟩ rs k n r token replacement →
        token.isSpent = true → ∃ j a x, n ≤ j ∧ j < k ∧ rs[j]? = some a ∧
          replacedToken a.event = some x ∧ x.1.familyId = token.familyId := by
  have hs₀ : AuthDb.Sound ⟨users, devices, []⟩ := List.nodup_nil
  have hrs : AuthRecords ⟨users, devices, []⟩ rs := hw.linked.records
  have htrail := hw.reachable.trail (Service.relies_nothing authService) trivial
  have hclocks := htrail.clocks
  have hhistory := hw.linked.history
  have hmem {k : ℕ} {r : AuthRecord} (hk : rs[k]? = some r) : r.event ∈ w.history := by
    rw [← hhistory]
    exact List.mem_map_of_mem (List.mem_of_getElem? hk)
  rw [← hhistory] at hfresh hclocks
  rw [List.filterMap_map] at hfresh
  rw [List.map_map] at hclocks
  refine ⟨⟨fun hcapped k n r token replacement hcrowds => ?_, fun hnot e he familyId t ht => ?_⟩,
    fun k n r token replacement hcrowds => hcrowds.overlaps hs₀ hrs ?_⟩
  · -- A rotation that crowds its family leaves more members than the limit at its own commit.
    have hrecord := hrs.isRecord hs₀ hcrowds.record
    obtain ⟨familyId, hmore⟩ := hrecord.step.not_capped hrecord.sound
      (hcrowds.overfills hs₀ rfl hrs hfresh)
    exact absurd (hcapped r.event (hmem hcrowds.record) familyId _ le_rfl) (not_le.mpr hmore)
  · -- Without one the count stays within the limit, and time only takes members away.
    rw [← hhistory] at he
    obtain ⟨r, hr, rfl⟩ := List.mem_map.mp he
    obtain ⟨k, hk⟩ := List.mem_iff_getElem?.mp hr
    have hrecord := hrs.isRecord hs₀ hk
    rw [hrecord.after]
    refine hrs.capped hs₀ rfl hfresh hclocks (fun r hr hoverfills => ?_) hrecord.lt
      fun r' hr' => (clock_le_of_mem_take hclocks hk r' hr').trans ht
    obtain ⟨j, hj⟩ := List.mem_iff_getElem?.mp hr
    obtain ⟨n, token, replacement, hcrowds⟩ := hrs.exists_crowds hs₀ rfl hfresh hj hoverfills
    exact hnot j n r token replacement hcrowds
  · obtain ⟨h₁, h₂, hsplit⟩ := List.append_of_mem (hmem hcrowds.record)
    rw [hsplit] at htrail
    exact htrail.split.2.1

end

/-! ## Two runs -/

/-- A family with three active members: its first token and the second are spent. -/
def threeMembers : List (Move AuthRequest) :=
  .start 0 ⟨0, 0, .createLoginSession 1 3 (sampleRefresh 1 7)⟩ :: nexts 0 9 ++
    .start 0 (sampleRotation 1 1 2) :: nexts 0 13 ++
      .start 0 (sampleRotation 1 1 3) :: nexts 0 13 ++
      .start 0 (sampleRotation 1 1 4) :: nexts 0 13 ++ .start 0 (sampleRotation 1 2 5) :: nexts 0 13

/-- Two rotations count the members of that family before one of them goes on. -/
def countedTwice : List (Move AuthRequest) :=
  threeMembers ++ .start 0 (sampleRotation 1 1 6) :: nexts 0 4 ++
    .start 1 (sampleRotation 1 2 7) :: nexts 1 4 ++ nexts 0 9 ++ nexts 1 9

/-- The run with three members can be played. -/
theorem play_threeMembers : ((Board.quiet sampleAuthStart 0 3).play authService
    threeMembers).isSome = true := by
  decide +kernel

/-- The run in which a member is counted twice can be played. -/
theorem play_countedTwice : ((Board.quiet sampleAuthStart 0 3).play authService
    countedTwice).isSome = true := by
  decide +kernel

/-- The family of the first run stays within its limit. -/
theorem threeMembers_capped : ∃ w, authService.Reachable sampleAuthStart w ∧
    w.history.length = 5 ∧ FamiliesCapped w.history := by
  have hreachable : authService.Reachable sampleAuthStart
      (Board.world (Option.get _ play_threeMembers)) :=
    Board.reachable_of_play (fun _ => trivial) (Option.some_get _).symm
  obtain ⟨reads, rs, htraced⟩ := hreachable.traced
  refine ⟨_, hreachable, by decide +kernel, ?_⟩
  refine (@families_capped_iff sampleAuthStart.users sampleAuthStart.devices _ _ _ htraced
    (by decide +kernel)).1.mpr ?_
  intro k n r _ _ hcrowds
  have hhistory := htraced.linked.history
  have hfresh : (rs.filterMap (loginFamily ·.event)).Nodup := by
    have hdrawn : ((Board.world (Option.get _ play_threeMembers)).history.filterMap
        loginFamily).Nodup := by decide +kernel
    rwa [← hhistory, List.filterMap_map] at hdrawn
  have hs₀ : AuthDb.Sound ⟨sampleAuthStart.users, sampleAuthStart.devices, []⟩ := List.nodup_nil
  obtain ⟨token, _, -, -, -, hfull⟩ := hcrowds.overfills hs₀ rfl htraced.linked.records hfresh
  have he : r.event ∈ (Board.world (Option.get _ play_threeMembers)).history := by
    rw [← hhistory]
    exact List.mem_map_of_mem (List.mem_of_getElem? hcrowds.record)
  -- No call meets four members that are not spent.
  have hfew : (Board.world (Option.get _ play_threeMembers)).history.all
      (fun e => e.before.refreshTokens.countP (fun x => !x.isSpent) < 4) = true := by
    decide +kernel
  have hless := of_decide_eq_true (List.all_eq_true.mp hfew r.event he)
  have hle : r.event.before.activeMembers token.familyId r.event.clock ≤
      r.event.before.refreshTokens.countP fun x => !x.isSpent := by
    refine List.countP_mono_left fun x _ hx => ?_
    simp only [RefreshToken.isActive, Bool.and_eq_true] at hx
    exact hx.2.1
  exact absurd (hfull.trans hle) (not_le.mpr hless)

/-- In the second run the family gets a fifth active member. -/
theorem countedTwice_overfilled : ∃ w, authService.Reachable sampleAuthStart w ∧
    (w.history.filterMap loginFamily).Nodup ∧ ¬ FamiliesCapped w.history := by
  refine ⟨Board.world (Option.get _ play_countedTwice),
    Board.reachable_of_play (fun _ => trivial) (Option.some_get _).symm, by decide +kernel,
    fun hcapped => ?_⟩
  have hmany : ∃ e ∈ (Board.world (Option.get _ play_countedTwice)).history,
      e.after.activeMembers 7 e.clock = 5 := by
    refine ⟨_, List.mem_of_getElem? (i := 6) rfl, ?_⟩
    decide +kernel
  obtain ⟨e, he, hfive⟩ := hmany
  have hfour := hcapped e he 7 e.clock le_rfl
  rw [hfive] at hfour
  exact absurd hfour (by decide)

end TaskTipsCloud

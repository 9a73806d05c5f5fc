import TaskTipsCloud.AuthSteps

/-!
# Families of refresh tokens

Calls that are executed one after the other, on one clock. A spent token that is presented too late,
or when its family has too many active members, takes its whole family with it. A family without
active members stays so: none of its members is rotated, and none is added.
-/

namespace TaskTipsCloud

open Txn

/-- A call that is executed alone. -/
def AuthRequest.alone (q : AuthRequest) (d : AuthDb) : AuthEvent where
  request := q
  result := ((q.call.body q.now q.utcNow).execute d).1
  before := d
  after := ((q.call.body q.now q.utcNow).execute d).2
  clock := q.now

/-- A login uses a family that has no members yet. -/
def AuthCall.IsFresh (call : AuthCall) (d : AuthDb) : Prop :=
  ∀ userId deviceId refresh, call = .createLoginSession userId deviceId refresh →
    ∀ x ∈ d.refreshTokens, x.familyId ≠ refresh.familyId

/-- Calls that are executed one after the other, from any database, on a clock that does not go
back. -/
inductive AuthRun (d₀ : AuthDb) (t₀ : Timestamp) : List AuthEvent → AuthDb → Timestamp → Prop
  | nil : AuthRun d₀ t₀ [] d₀ t₀
  | snoc {h : List AuthEvent} {d : AuthDb} {t : Timestamp} (q : AuthRequest)
      (hrun : AuthRun d₀ t₀ h d t) (ht : t ≤ q.now) (hclock : q.utcNow = q.now)
      (hfresh : q.call.IsFresh d) : AuthRun d₀ t₀ (h ++ [q.alone d]) (q.alone d).after q.now

/-- A call that is executed alone has no stale reads. -/
theorem AuthRequest.outcome_alone (q : AuthRequest) (d : AuthDb) :
    authService.Outcome (fun _ d c => d = c) (q.alone d) :=
  Service.outcome_execute (fun _ => rfl) q q.now

/-! ## Reuse -/

section

variable {d : AuthDb} {now utcNow : Timestamp}

/-- Locking tokens changes nothing. -/
theorem run_lockTokens (hashes : List TokenHash) : (lockTokens hashes).run d = (.ok (), d) := by
  induction hashes with
  | nil => rfl
  | cons h hashes ih => exact ih

/-- Revoking tokens revokes those that were chosen. -/
theorem run_revokeTokens (order : LockOrder) (p : RefreshToken → Bool) :
    (revokeTokens now order p).run d = (.ok (), d.revokeChosen now (d.hashesOf p) p) := by
  simp only [revokeTokens, bind_eq, query_bind, run_read, run_bind, run_lockTokens, run_modify]
  rfl

/-- The check of a family reads whether it is healthy. -/
theorem run_familyHealthy (token : RefreshToken) :
    (familyHealthy now utcNow token).run d = (.ok (d.healthy now utcNow token), d) := by
  unfold familyHealthy AuthDb.healthy
  split
  · rename_i hgrace
    rw [hgrace, Bool.true_and]
    rfl
  · rename_i hgrace
    rw [Bool.eq_false_iff.mpr hgrace, Bool.false_and]
    rfl

/-- A spent token that may not be rotated again takes its family with it, and the transaction
commits. -/
theorem run_rotateRefreshTokenInner_reuse {order : LockOrder} {oldTokenHash : TokenHash}
    {replacement : NewRefreshToken} {expectedRole : Option UserRole} {token : RefreshToken}
    (htoken : d.refreshToken oldTokenHash = some token) (hspent : token.isSpent = true)
    (hunhealthy : d.healthy now utcNow token = false) :
    (rotateRefreshTokenInner now utcNow order oldTokenHash replacement expectedRole).run d =
      (.ok (.error .refreshTokenReuse), d.revokeChosen now
        (d.hashesOf (·.familyId == token.familyId)) (·.familyId == token.familyId)) := by
  have hselect : (selectRowForUpdate (.refreshToken oldTokenHash)
      (·.refreshToken oldTokenHash)).run d = (.ok (some token), d) := by
    simp only [selectRowForUpdate, bind_eq, query_bind, run_read, htoken, acquire_bind, run_lock,
      run_query]
  simp only [rotateRefreshTokenInner, bind_eq, run_bind, hselect, run_orThrow, Option.elim_some,
    hspent, if_true, run_familyHealthy, hunhealthy, Bool.false_eq_true, if_false, run_revokeTokens,
    pure_eq, run_pure]

/-- The tokens that an `UPDATE` found are revoked. -/
theorem AuthDb.revokedAt_of_revokeChosen {p : RefreshToken → Bool} {x : RefreshToken}
    (hx : x ∈ (d.revokeChosen now (d.hashesOf p) p).refreshTokens) (hpx : p x = true) :
    x.revokedAt ≠ none := by
  obtain ⟨y, hy, rfl⟩ := List.mem_map.mp hx
  by_cases hchosen : ((d.hashesOf p).contains y.tokenHash && p y) = true
  · rw [if_pos hchosen]
    exact Option.some_ne_none _
  · rw [if_neg hchosen] at hpx
    refine absurd ?_ hchosen
    rw [hpx, Bool.and_true, List.contains_iff_mem]
    exact List.mem_map_of_mem (List.mem_filter.mpr ⟨hy, hpx⟩)

/-! ## Dead families -/

/-- The members of a family. -/
def AuthDb.membersOf (d : AuthDb) (familyId : Uuid) : List TokenHash :=
  (d.refreshTokens.filter (·.familyId == familyId)).map (·.tokenHash)

/-- A family has no active member when none of its tokens is active. -/
theorem AuthDb.activeMembers_eq_zero_iff {familyId : Uuid} : d.activeMembers familyId now = 0 ↔
    ∀ x ∈ d.refreshTokens, x.familyId = familyId → x.isActive now = false := by
  rw [activeMembers, List.countP_eq_zero]
  simp

/-- A token that is not active does not become so. -/
theorem RefreshToken.isActive_mono {x : RefreshToken} {t t' : Timestamp} (ht : t ≤ t')
    (h : x.isActive t = false) : x.isActive t' = false := by
  unfold isActive at h ⊢
  cases hspent : x.isSpent with
  | true => rfl
  | false =>
    rw [hspent, Bool.not_false, Bool.true_and, decide_eq_false_iff_not] at h
    rw [Bool.not_false, Bool.true_and, decide_eq_false_iff_not]
    exact fun hlt => h (lt_of_le_of_lt ht hlt)

/-- A family that is dead stays so when some tokens are rotated or revoked. -/
theorem AuthDb.activeMembers_updateTokens {familyId : Uuid} {p : RefreshToken → Bool}
    {f : RefreshToken → RefreshToken} (hspent : ∀ x, (f x).isActive now = false)
    (h : d.activeMembers familyId now = 0) :
    (d.updateTokens p f).activeMembers familyId now = 0 := by
  rw [activeMembers_eq_zero_iff] at h ⊢
  intro x hx hfamily
  obtain ⟨y, hy, rfl⟩ := List.mem_map.mp hx
  by_cases hp : p y = true
  · rw [if_pos hp]
    exact hspent y
  · rw [if_neg hp] at hfamily ⊢
    exact h y hy hfamily

/-- The members of a family stay when some tokens are rotated or revoked. -/
theorem AuthDb.membersOf_updateTokens {familyId : Uuid} {p : RefreshToken → Bool}
    {f : RefreshToken → RefreshToken} (hf : ∀ x, (f x).familyId = x.familyId)
    (hhash : ∀ x, (f x).tokenHash = x.tokenHash) :
    (d.updateTokens p f).membersOf familyId = d.membersOf familyId := by
  unfold membersOf updateTokens
  rw [filter_updateWhere fun x _ => by rw [hf], map_updateWhere fun x _ _ => hhash x]

/-- A rotation leaves the members of every family, and the families that are dead. -/
theorem AuthDb.withRotation_spec {familyId : Uuid} {token : RefreshToken} {graceRotation : Bool} :
    (d.withRotation now token graceRotation).membersOf familyId = d.membersOf familyId ∧
      (d.activeMembers familyId now = 0 →
        (d.withRotation now token graceRotation).activeMembers familyId now = 0) := by
  unfold withRotation
  split
  · exact ⟨rfl, id⟩
  · exact ⟨membersOf_updateTokens (fun _ => rfl) fun _ => rfl,
      activeMembers_updateTokens fun _ => rfl⟩

end

/-- A call that rotated a member of a family. -/
def Rotates (familyId : Uuid) (e : AuthEvent) : Prop :=
  ∃ order oldTokenHash replacement expectedRole token session,
    e.request.call = .rotateRefreshToken order oldTokenHash replacement expectedRole ∧
      e.before.refreshToken oldTokenHash = some token ∧ token.familyId = familyId ∧
        e.result = .ok (some session)

/-- A token that is added to another family. -/
theorem AuthDb.withToken_spec {d : AuthDb} {familyId : Uuid} {now : Timestamp} {x : RefreshToken}
    (hx : x.familyId ≠ familyId) :
    (d.withToken x).membersOf familyId = d.membersOf familyId ∧
      (d.withToken x).activeMembers familyId now = d.activeMembers familyId now := by
  constructor
  · simp [withToken, membersOf, hx]
  · simp [withToken, activeMembers, hx]

/-- What one call does to a family without active members. -/
theorem dead_step {q : AuthRequest} {d : AuthDb} {familyId : Uuid} (hclock : q.utcNow = q.now)
    (hfresh : q.call.IsFresh d) (hmember : ∃ x ∈ d.refreshTokens, x.familyId = familyId)
    (hdead : d.activeMembers familyId q.now = 0) :
    ¬ Rotates familyId (q.alone d) ∧ (q.alone d).after.membersOf familyId = d.membersOf familyId ∧
      (q.alone d).after.activeMembers familyId q.now = 0 := by
  obtain ⟨H, hstep⟩ := tokenStep_of_outcome (fun _ _ h _ _ => by rw [h]) (q.outcome_alone d)
  -- Only the tokens of the database that is left matter.
  have hsame : ∀ {d' : AuthDb}, (q.alone d).after.refreshTokens = d'.refreshTokens →
      (q.alone d).after.membersOf familyId = d'.membersOf familyId ∧
        (q.alone d).after.activeMembers familyId q.now = d'.activeMembers familyId q.now := by
    intro d' htokens
    unfold AuthDb.membersOf AuthDb.activeMembers
    rw [htokens]
    exact ⟨rfl, rfl⟩
  have hnot : (∀ session, (q.alone d).result ≠ .ok (some session)) →
      ¬ Rotates familyId (q.alone d) :=
    fun hresult => by
      rintro ⟨_, _, _, _, _, session, _, _, _, hrotated⟩
      exact hresult session hrotated
  cases hstep with
  | kept hafter hresult =>
    obtain ⟨hmembers, hactive⟩ := hsame hafter
    exact ⟨hnot hresult, hmembers, hactive.trans hdead⟩
  | loggedIn hcall hlocks hnew hafter =>
    rename_i userId deviceId refresh
    obtain ⟨x, hx, hfamily⟩ := hmember
    have hne : (refresh.row userId deviceId).familyId ≠ familyId := fun heq =>
      hfresh _ _ _ hcall x hx (hfamily.trans heq.symm)
    obtain ⟨hmembers, hactive⟩ := @hsame (d.withToken (refresh.row userId deviceId)) hafter
    obtain ⟨hmembers', hactive'⟩ := @AuthDb.withToken_spec d _ q.now _ hne
    refine ⟨?_, hmembers.trans hmembers', (hactive.trans hactive').trans hdead⟩
    rintro ⟨_, _, _, _, _, _, hrotate, _⟩
    cases hcall.symm.trans hrotate
  | rotated hcall htoken hlocks hrotatable hexpires hnew hafter hsession =>
    rename_i order oldTokenHash replacement expectedRole token
    have hmem : token ∈ d.refreshTokens := List.mem_of_find?_eq_some htoken
    -- The token is active itself, or its family has an active member.
    have hne : token.familyId ≠ familyId := by
      rintro rfl
      obtain ⟨_, rfl, -, hunspent | hhealthy⟩ := hrotatable
      · have hinactive := AuthDb.activeMembers_eq_zero_iff.mp hdead token hmem rfl
        unfold RefreshToken.isActive at hinactive
        rw [hunspent, Bool.not_false, Bool.true_and, decide_eq_false_iff_not, ← hclock]
          at hinactive
        exact hinactive hexpires
      · simp only [AuthDb.healthy, Bool.and_eq_true, decide_eq_true_eq] at hhealthy
        exact absurd hdead hhealthy.2.1.ne'
    obtain ⟨hmembers, hactive⟩ := @hsame ((d.withRotation q.now token token.isSpent).withToken
      (replacement.successor token)) hafter
    obtain ⟨hmembers', hactive'⟩ := @AuthDb.withToken_spec
      (d.withRotation q.now token token.isSpent) _ q.now (replacement.successor token) hne
    obtain ⟨hkept, hzero⟩ := @AuthDb.withRotation_spec d q.now familyId token token.isSpent
    refine ⟨?_, (hmembers.trans hmembers').trans hkept,
      (hactive.trans hactive').trans (hzero hdead)⟩
    rintro ⟨_, _, _, _, token', _, hrotate, htoken', hfamily, _⟩
    refine hne ?_
    cases hcall.symm.trans hrotate
    cases htoken.symm.trans htoken'
    exact hfamily
  | revoked hrevokes hafter hresult =>
    obtain ⟨d', -, -, -, htokens⟩ := hrevokes
    rename_i p K b
    obtain ⟨hmembers, hactive⟩ := @hsame (d.revokeChosen q.now (d'.hashesOf p) p)
      ((congrArg AuthDb.refreshTokens hafter).trans (htokens d))
    refine ⟨hnot hresult, hmembers.trans ?_, hactive.trans ?_⟩
    · exact AuthDb.membersOf_updateTokens (fun _ => rfl) fun _ => rfl
    · refine AuthDb.activeMembers_updateTokens (fun x => ?_) hdead
      simp [RefreshToken.isActive, RefreshToken.isSpent, RefreshToken.revoked]

/-- What happens to families in a run of calls that follow one another. -/
structure FamiliesDie (d₀ : AuthDb) (t₀ : Timestamp) (h : List AuthEvent) : Prop where
  /-- A used token that is presented too late, or when its family has too many active members,
  takes its family with it: the call returns an error, and every member is revoked. -/
  reused : ∀ e ∈ h, ∀ order oldTokenHash replacement expectedRole token used,
    e.request.call = .rotateRefreshToken order oldTokenHash replacement expectedRole →
    e.before.refreshToken oldTokenHash = some token → token.usedAt = some used →
    (refreshRotationGrace < e.request.now - used ∨
      refreshFamilyActiveLimit ≤ e.before.activeMembers token.familyId e.request.now) →
    e.result = .error .refreshTokenReuse ∧
      ∀ x ∈ e.after.refreshTokens, x.familyId = token.familyId → x.revokedAt ≠ none
  /-- Of a family without active members no member is rotated, and none is added. -/
  dead : ∀ familyId, (∃ x ∈ d₀.refreshTokens, x.familyId = familyId) →
    d₀.activeMembers familyId t₀ = 0 →
    ∀ e ∈ h, ¬ Rotates familyId e ∧ e.after.membersOf familyId = e.before.membersOf familyId

/-- A family that is dead when a run starts is dead when it ends. -/
theorem AuthRun.dead {d₀ d : AuthDb} {t₀ t : Timestamp} {h : List AuthEvent}
    (hrun : AuthRun d₀ t₀ h d t) {familyId : Uuid}
    (hmember : ∃ x ∈ d₀.refreshTokens, x.familyId = familyId)
    (hdead : d₀.activeMembers familyId t₀ = 0) :
    (∀ e ∈ h, ¬ Rotates familyId e ∧ e.after.membersOf familyId = e.before.membersOf familyId) ∧
      d.membersOf familyId = d₀.membersOf familyId ∧ d.activeMembers familyId t = 0 := by
  induction hrun with
  | nil => exact ⟨fun e he => absurd he List.not_mem_nil, rfl, hdead⟩
  | snoc q hrun ht hclock hfresh ih =>
    rename_i h d t
    obtain ⟨hall, hmembers, hzero⟩ := ih
    have hnow : d.activeMembers familyId q.now = 0 :=
      AuthDb.activeMembers_eq_zero_iff.mpr fun x hx hfamily =>
        (AuthDb.activeMembers_eq_zero_iff.mp hzero x hx hfamily).symm ▸
          RefreshToken.isActive_mono ht (AuthDb.activeMembers_eq_zero_iff.mp hzero x hx hfamily)
    have hthere : ∃ x ∈ d.refreshTokens, x.familyId = familyId := by
      obtain ⟨x, hx, hfamily⟩ := hmember
      have hmem : x.tokenHash ∈ d.membersOf familyId := by
        rw [hmembers]
        exact List.mem_map_of_mem (List.mem_filter.mpr ⟨hx, beq_iff_eq.mpr hfamily⟩)
      obtain ⟨y, hy, -⟩ := List.mem_map.mp hmem
      obtain ⟨hy, hfamily⟩ := List.mem_filter.mp hy
      exact ⟨y, hy, beq_iff_eq.mp hfamily⟩
    obtain ⟨hrotates, hkept, hafter⟩ := dead_step hclock hfresh hthere hnow
    refine ⟨fun e he => ?_, hkept.trans hmembers, hafter⟩
    rcases List.mem_append.mp he with he | he
    · exact hall e he
    · rw [List.mem_singleton.mp he]
      exact ⟨hrotates, hkept⟩

/-- Every call of a run is executed alone, on one clock. -/
theorem AuthRun.eq_alone {d₀ d : AuthDb} {t₀ t : Timestamp} {h : List AuthEvent}
    (hrun : AuthRun d₀ t₀ h d t) : ∀ e ∈ h, ∃ (q : AuthRequest) (d : AuthDb),
      q.utcNow = q.now ∧ e = q.alone d := by
  induction hrun with
  | nil => exact fun e he => absurd he List.not_mem_nil
  | snoc q hrun ht hclock hfresh ih =>
    intro e he
    rcases List.mem_append.mp he with he | he
    · exact ih e he
    · exact ⟨q, _, hclock, List.mem_singleton.mp he⟩

/-- In every run of calls that follow one another, compromised families die. -/
theorem compromised_families_die {d₀ d : AuthDb} {t₀ t : Timestamp} {h : List AuthEvent}
    (hrun : AuthRun d₀ t₀ h d t) : FamiliesDie d₀ t₀ h := by
  refine ⟨?_, fun familyId hmember hdead => (hrun.dead hmember hdead).1⟩
  intro e he order oldTokenHash replacement expectedRole token used hcall htoken hused hreuse
  obtain ⟨q, d, hclock, rfl⟩ := hrun.eq_alone e he
  have hspent : token.isSpent = true := by
    unfold RefreshToken.isSpent
    rw [hused]
    rfl
  have hunhealthy : d.healthy q.now q.utcNow token = false := by
    rw [Bool.eq_false_iff]
    intro hhealthy
    simp only [AuthDb.healthy, hused, Option.any_some, Bool.and_eq_true, decide_eq_true_eq,
      hclock] at hhealthy
    rcases hreuse with hlate | hmany
    · exact absurd hhealthy.1 (not_le.mpr hlate)
    · exact absurd hhealthy.2.2 (not_lt.mpr hmany)
  have hexecute : (q.call.body q.now q.utcNow).execute d = (.error .refreshTokenReuse,
      d.revokeChosen q.now (d.hashesOf (·.familyId == token.familyId))
        (·.familyId == token.familyId)) := by
    change q.call = _ at hcall
    change d.refreshToken oldTokenHash = some token at htoken
    rw [hcall]
    unfold AuthCall.body withSession Txn.execute
    rw [run_bind, run_rotateRefreshTokenInner_reuse htoken hspent hunhealthy]
    rfl
  refine ⟨congrArg Prod.fst hexecute, fun x hx hfamily => ?_⟩
  have hafter : (q.alone d).after = _ := congrArg Prod.snd hexecute
  rw [hafter] at hx
  exact AuthDb.revokedAt_of_revokeChosen hx (beq_iff_eq.mpr hfamily)

/-- An account with a device. -/
def sampleAuthStart : AuthDb where
  users := [⟨1, .user, .active⟩]
  devices := [⟨3, 1, none, none, none⟩]
  refreshTokens := []

/-- A new refresh token that expires after an hour. -/
def sampleRefresh (tokenHash : UInt8) (familyId : Uuid) : NewRefreshToken :=
  ⟨[tokenHash], familyId, seconds 3600⟩

/-- A rotation at a time. -/
def sampleRotation (now : Timestamp) (oldTokenHash tokenHash : UInt8) : AuthRequest :=
  ⟨now, now, .rotateRefreshToken .stored [oldTokenHash] (sampleRefresh tokenHash 0) none⟩

/-- A login, a rotation, the reuse of the first token a minute later, and a rotation of the second
one. -/
def replayedTooLate : List AuthRequest :=
  [⟨0, 0, .createLoginSession 1 3 (sampleRefresh 1 7)⟩, sampleRotation 1 1 2,
    sampleRotation (seconds 60) 1 3, sampleRotation (seconds 61) 2 4]

/-- A rotation uses no new family. -/
theorem isFresh_sampleRotation (now : Timestamp) (oldTokenHash tokenHash : UInt8) (d : AuthDb) :
    (sampleRotation now oldTokenHash tokenHash).call.IsFresh d :=
  fun _ _ _ h => nomatch h

/-- In that run the family of the first token dies. -/
theorem replayedTooLate_families_die :
    ∃ h d, AuthRun sampleAuthStart 0 h d (seconds 61) ∧ h.map (·.request) = replayedTooLate ∧
      FamiliesDie sampleAuthStart 0 h := by
  have hlogin : AuthRun sampleAuthStart 0 _ _ 0 :=
    .snoc ⟨0, 0, .createLoginSession 1 3 (sampleRefresh 1 7)⟩ .nil (by decide) rfl
      fun _ _ _ _ x hx => absurd hx List.not_mem_nil
  have hrun := ((hlogin.snoc (sampleRotation 1 1 2) (by decide) rfl
    (isFresh_sampleRotation _ _ _ _)).snoc (sampleRotation (seconds 60) 1 3) (by decide) rfl
      (isFresh_sampleRotation _ _ _ _)).snoc (sampleRotation (seconds 61) 2 4) (by decide) rfl
        (isFresh_sampleRotation _ _ _ _)
  exact ⟨_, _, hrun, rfl, compromised_families_die hrun⟩

end TaskTipsCloud

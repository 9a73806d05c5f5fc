import TaskTipsCloud.Families
import TaskTipsCloud.Library.Traces

/-!
# Runs of the login sessions

What the transactions on refresh tokens keep for each other when they interleave: a token that is
locked stays as it is, and the tokens of a user or of a device are added under the lock of that user
and of that device.
-/

namespace TaskTipsCloud

open Txn

namespace AuthDb

/-- Tokens of one family are of one device of one user. -/
def Homogeneous (d : AuthDb) : Prop :=
  ∀ x ∈ d.refreshTokens, ∀ y ∈ d.refreshTokens, x.familyId = y.familyId →
    x.userId = y.userId ∧ x.deviceId = y.deviceId

/-- Tokens have distinct hashes. -/
def Sound (d : AuthDb) : Prop := (d.refreshTokens.map (·.tokenHash)).Nodup

end AuthDb

/-- What a token keeps: its owner and its family, and that it is revoked or spent. -/
structure RefreshToken.Precedes (x y : RefreshToken) : Prop where
  userId : y.userId = x.userId
  deviceId : y.deviceId = x.deviceId
  familyId : y.familyId = x.familyId
  revokedAt : x.revokedAt ≠ none → y.revokedAt ≠ none

/-- Nothing happened to the token. -/
theorem RefreshToken.Precedes.refl (x : RefreshToken) : x.Precedes x := ⟨rfl, rfl, rfl, id⟩

/-- What happened to a token in two steps. -/
theorem RefreshToken.Precedes.trans {x y z : RefreshToken} (h : x.Precedes y) (h' : y.Precedes z) :
    x.Precedes z :=
  ⟨h'.userId.trans h.userId, h'.deviceId.trans h.deviceId, h'.familyId.trans h.familyId,
    fun hx => h'.revokedAt (h.revokedAt hx)⟩

/-- What a session with the locks `H` that reads the database `d` knows of the tokens of the
database `c` on which it commits. -/
structure AuthDb.Keeps (H : Set AuthLock) (d c : AuthDb) : Prop where
  /-- A token changes under its lock. -/
  token : ∀ h, .refreshToken h ∈ H → d.refreshToken h = c.refreshToken h
  /-- Tokens stay, with their owner and their family. -/
  kept : ∀ h x, d.refreshToken h = some x → ∃ y, c.refreshToken h = some y ∧ x.Precedes y
  /-- Tokens of a user are added under the lock of the user. -/
  ofUser : ∀ u, .user u ∈ H → ∀ h x, c.refreshToken h = some x → x.userId = u →
    d.refreshToken h ≠ none
  /-- Tokens of a device are added under the lock of the device. -/
  ofDevice : ∀ v, .device v ∈ H → ∀ h x, c.refreshToken h = some x → x.deviceId = v →
    d.refreshToken h ≠ none

section

variable {H H' : Set AuthLock} {d d' d'' : AuthDb}

/-- A stored token is found by its hash. -/
theorem AuthDb.Sound.refreshToken_eq (hd : d.Sound) {x : RefreshToken}
    (hx : x ∈ d.refreshTokens) : d.refreshToken x.tokenHash = some x :=
  find?_key_eq hd hx

/-- A token that is found is stored under its hash. -/
theorem AuthDb.mem_of_refreshToken {h : TokenHash} {x : RefreshToken}
    (hx : d.refreshToken h = some x) : x ∈ d.refreshTokens ∧ x.tokenHash = h :=
  ⟨List.mem_of_find?_eq_some hx, by simpa using List.find?_some hx⟩

/-- Nothing is lost when nothing happens. -/
theorem AuthDb.Keeps.refl (H : Set AuthLock) (d : AuthDb) : AuthDb.Keeps H d d where
  token _ _ := rfl
  kept _ x hx := ⟨x, hx, .refl x⟩
  ofUser _ _ _ _ hx _ hnone := Option.some_ne_none _ (hx.symm.trans hnone)
  ofDevice _ _ _ _ hx _ hnone := Option.some_ne_none _ (hx.symm.trans hnone)

/-- Databases with the same tokens. -/
theorem AuthDb.Keeps.of_eq (h : d'.refreshTokens = d.refreshTokens) : AuthDb.Keeps H d d' := by
  have hsame : ∀ k, d'.refreshToken k = d.refreshToken k := fun k => by
    unfold AuthDb.refreshToken
    rw [h]
  have hkeeps := AuthDb.Keeps.refl H d
  refine ⟨fun k _ => (hsame k).symm, fun k x hx => ⟨x, (hsame k).trans hx, .refl x⟩, ?_, ?_⟩
  · intro u hu k x hx
    exact hkeeps.ofUser u hu k x ((hsame k).symm.trans hx)
  · intro v hv k x hx
    exact hkeeps.ofDevice v hv k x ((hsame k).symm.trans hx)

/-- What is known of two changes is known of both together. -/
theorem AuthDb.Keeps.trans (h : AuthDb.Keeps H d d') (h' : AuthDb.Keeps H d' d'') :
    AuthDb.Keeps H d d'' where
  token k hk := (h.token k hk).trans (h'.token k hk)
  kept k x hx := by
    obtain ⟨y, hy, hxy⟩ := h.kept k x hx
    obtain ⟨z, hz, hyz⟩ := h'.kept k y hy
    exact ⟨z, hz, hxy.trans hyz⟩
  ofUser u hu k x hx huser := by
    obtain ⟨y, hy⟩ := Option.ne_none_iff_exists'.mp (h'.ofUser u hu k x hx huser)
    obtain ⟨x', hx', hyx⟩ := h'.kept k y hy
    cases hx.symm.trans hx'
    exact h.ofUser u hu k y hy (hyx.userId.symm.trans huser)
  ofDevice v hv k x hx hdevice := by
    obtain ⟨y, hy⟩ := Option.ne_none_iff_exists'.mp (h'.ofDevice v hv k x hx hdevice)
    obtain ⟨x', hx', hyx⟩ := h'.kept k y hy
    cases hx.symm.trans hx'
    exact h.ofDevice v hv k y hy (hyx.deviceId.symm.trans hdevice)

/-- A token that is added. -/
theorem AuthDb.Keeps.append {x : RefreshToken} (hafter : d'.refreshTokens = d.refreshTokens ++ [x])
    (huser : .user x.userId ∉ H) (hdevice : .device x.deviceId ∉ H)
    (htoken : .refreshToken x.tokenHash ∉ H) : AuthDb.Keeps H d d' := by
  have hfind : ∀ h y, d.refreshToken h = some y → d'.refreshToken h = some y := by
    intro h y hy
    unfold AuthDb.refreshToken at hy ⊢
    rw [hafter, List.find?_append, hy]
    rfl
  have hnone : ∀ h, h ≠ x.tokenHash → d.refreshToken h = none → d'.refreshToken h = none := by
    intro h hne hnone
    unfold AuthDb.refreshToken at hnone ⊢
    rw [hafter, List.find?_append, hnone, Option.none_or, List.find?_singleton]
    simp [hne.symm]
  -- A token of the new database that was not there is the one that was added.
  have hadded : ∀ h y, d'.refreshToken h = some y → d.refreshToken h = none → y = x := by
    intro h y hy hnone
    unfold AuthDb.refreshToken at hy hnone
    rw [hafter, List.find?_append, hnone, Option.none_or] at hy
    exact List.mem_singleton.mp (List.mem_of_find?_eq_some hy)
  refine ⟨fun h hh => ?_, fun h y hy => ⟨y, hfind h y hy, .refl y⟩, fun u hu h y hy hyu hdn => ?_,
    fun v hv h y hy hyv hdn => ?_⟩
  · cases hd : d.refreshToken h with
    | some y => exact (hfind h y hd).symm
    | none => exact (hnone h (fun heq => htoken (heq ▸ hh)) hd).symm
  · rw [hadded h y hy hdn] at hyu
    exact huser (hyu ▸ hu)
  · rw [hadded h y hy hdn] at hyv
    exact hdevice (hyv ▸ hv)

/-- Tokens that are rotated or revoked, under their locks. -/
theorem AuthDb.Keeps.update {p : RefreshToken → Bool} {f : RefreshToken → RefreshToken}
    (hafter : d'.refreshTokens = updateWhere p f d.refreshTokens)
    (hhash : ∀ x, (f x).tokenHash = x.tokenHash) (hf : ∀ x : RefreshToken, x.Precedes (f x))
    (hlocks : ∀ x ∈ d.refreshTokens, p x = true → .refreshToken x.tokenHash ∉ H) :
    AuthDb.Keeps H d d' := by
  have hfind : ∀ h, d'.refreshToken h =
      (d.refreshToken h).map fun x => if p x then f x else x := by
    intro h
    unfold AuthDb.refreshToken
    rw [hafter, find?_updateWhere]
    exact fun x _ => by rw [hhash]
  have hsome : ∀ h x, d'.refreshToken h = some x → d.refreshToken h ≠ none := by
    intro h x hx hnone
    rw [hfind, hnone] at hx
    cases hx
  refine ⟨fun h hh => ?_, fun h x hx => ?_, fun _ _ h x hx _ => hsome h x hx,
    fun _ _ h x hx _ => hsome h x hx⟩
  · rw [hfind]
    cases hd : d.refreshToken h with
    | none => rfl
    | some x =>
      obtain ⟨hx, rfl⟩ := AuthDb.mem_of_refreshToken hd
      have hp : p x = false := Bool.eq_false_iff.mpr fun hp => hlocks x hx hp hh
      rw [Option.map_some, hp]
      rfl
  · refine ⟨if p x then f x else x, by rw [hfind, hx]; rfl, ?_⟩
    split
    · exact hf x
    · exact .refl x

end

/-! ## What a call keeps -/

section

variable {R : Set AuthLock → AuthDb → AuthDb → Prop} {H K : Set AuthLock} {e : AuthEvent}

/-- A revoked token is a later version of itself. -/
theorem RefreshToken.precedes_revoked (x : RefreshToken) (now : Timestamp) :
    x.Precedes (x.revoked now) := ⟨rfl, rfl, rfl, fun _ => Option.some_ne_none _⟩

/-- A used token is a later version of itself. -/
theorem RefreshToken.precedes_used (x : RefreshToken) (now : Timestamp) :
    x.Precedes (x.used now) := ⟨rfl, rfl, rfl, fun _ => Option.some_ne_none _⟩

/-- A rotation keeps the tokens that others have locked. -/
theorem AuthDb.keeps_withRotation {d : AuthDb} {now : Timestamp} {token : RefreshToken}
    {graceRotation : Bool} (hlock : .refreshToken token.tokenHash ∉ K) :
    AuthDb.Keeps K d (d.withRotation now token graceRotation) := by
  unfold withRotation
  split
  · exact .refl K d
  · refine .update (p := (·.tokenHash == token.tokenHash)) (f := (·.used now)) rfl (fun _ => rfl)
      (fun x => x.precedes_used now) fun x _ hx => ?_
    rwa [beq_iff_eq.mp hx]

/-- What a call with the locks `H` keeps for a session with other locks. -/
theorem TokenStep.keeps (h : TokenStep R H e) (hK : Disjoint K H) :
    AuthDb.Keeps K e.before e.after := by
  have hfree : ∀ l ∈ H, l ∉ K := fun l hl hlK => Set.disjoint_left.mp hK hlK hl
  cases h with
  | kept hafter hresult => exact .of_eq hafter
  | loggedIn hcall hlocks hnew hafter =>
    exact .append hafter (hfree _ hlocks.1) (hfree _ hlocks.2.1) (hfree _ hlocks.2.2)
  | rotated hcall htoken hlocks hrotatable hexpires hnew hafter hsession =>
    rename_i order oldTokenHash replacement expectedRole token
    obtain ⟨huser, hdevice, hold, hnewLock⟩ := hlocks
    obtain ⟨-, rfl⟩ := AuthDb.mem_of_refreshToken htoken
    have hrotation : AuthDb.Keeps K e.before
        (e.before.withRotation e.request.now token token.isSpent) :=
      AuthDb.keeps_withRotation (hfree _ hold)
    refine hrotation.trans ?_
    exact .append hafter (hfree _ huser) (hfree _ hdevice) (hfree _ hnewLock)
  | revoked hrevokes hafter hresult =>
    obtain ⟨d, -, -, hlocks, htokens⟩ := hrevokes
    rename_i p K' b
    refine .update ((congrArg AuthDb.refreshTokens hafter).trans (htokens e.before))
      (fun _ => rfl) (fun x => x.precedes_revoked e.request.now) fun x _ hx => ?_
    rw [Bool.and_eq_true, List.contains_iff_mem] at hx
    exact hfree _ (hlocks _ hx.1)

/-- The tokens keep distinct hashes. -/
theorem TokenStep.sound (h : TokenStep R H e) (hb : e.before.Sound) : e.after.Sound := by
  have hupdate : ∀ {d d' : AuthDb} {p : RefreshToken → Bool} {f : RefreshToken → RefreshToken},
      d'.refreshTokens = updateWhere p f d.refreshTokens →
        (∀ x, (f x).tokenHash = x.tokenHash) → d.Sound → d'.Sound := by
    intro d d' p f hafter hhash hd
    unfold AuthDb.Sound
    rw [hafter, map_updateWhere fun x _ _ => hhash x]
    exact hd
  have happend : ∀ {d d' : AuthDb} {x : RefreshToken}, d'.refreshTokens = d.refreshTokens ++ [x] →
      d.refreshToken x.tokenHash = none → d.Sound → d'.Sound := by
    intro d d' x hafter hnew hd
    unfold AuthDb.Sound
    rw [hafter, List.map_append, List.nodup_append]
    refine ⟨hd, List.nodup_singleton _, fun h hh h' hh' => ?_⟩
    obtain ⟨y, hy, rfl⟩ := List.mem_map.mp hh
    rw [List.map_singleton, List.mem_singleton] at hh'
    rw [hh']
    have hne := List.find?_eq_none.mp hnew y hy
    simpa using hne
  cases h with
  | kept hafter hresult => unfold AuthDb.Sound; rw [hafter]; exact hb
  | loggedIn hcall hlocks hnew hafter => exact happend hafter hnew hb
  | rotated hcall htoken hlocks hrotatable hexpires hnew hafter hsession =>
    rename_i order oldTokenHash replacement expectedRole token
    refine happend hafter (AuthDb.refreshToken_withRotation_eq_none.mpr hnew) ?_
    unfold AuthDb.withRotation
    split
    · exact hb
    · exact hupdate rfl (fun _ => rfl) hb
  | revoked hrevokes hafter hresult =>
    obtain ⟨d, -, -, -, htokens⟩ := hrevokes
    exact hupdate ((congrArg AuthDb.refreshTokens hafter).trans (htokens e.before))
      (fun _ => rfl) hb

end

/-! ## Records -/

/-- A finished call with its trace. -/
abbrev AuthRecord := Record AuthDb AuthLock PersistenceError (Option SessionRecord) AuthRequest

/-- What is known of the reads of a record, when the requests `rs` had finished before. -/
def SeenBy (s₀ : AuthDb) (rs : List AuthRecord) (r : AuthRecord) (K : Set AuthLock) (d : AuthDb)
    (_ : AuthDb) : Prop :=
  ∃ n ∈ r.reads, Seen s₀ rs K n d

/-- The records of a run of the login sessions. -/
def AuthRecords (s₀ : AuthDb) (rs : List AuthRecord) : Prop :=
  ∀ rs₁ r rs₂, rs = rs₁ ++ r :: rs₂ → authService.RecordOutcome s₀ rs₁ r

/-- What a record did to the tokens, when reads are kept. -/
theorem tokenStep_of_record {s₀ : AuthDb} {rs : List AuthRecord} {r : AuthRecord}
    (hr : authService.RecordOutcome s₀ rs r)
    (hkeeps : ∀ K n d, Seen s₀ rs K n d → AuthDb.Keeps K d (stateAfter s₀ rs)) :
    TokenStep (SeenBy s₀ rs r) r.locks r.event := by
  obtain ⟨hbefore, ⟨b, hruns, hafter⟩ | ⟨⟨x, herror⟩, hafter⟩⟩ := hr
  · refine tokenStep_of_runs ?_ (hruns.runs r.event.before) hafter
    rintro K d ⟨n, -, hd⟩ h hh
    rw [hbefore]
    exact (hkeeps K n d hd).token h hh
  · exact tokenStep_of_error herror hafter

/-- What a run of records keeps. -/
theorem AuthRecords.keeps {s₀ : AuthDb} {rs : List AuthRecord} (hs₀ : s₀.Sound)
    (hrs : AuthRecords s₀ rs) : (stateAfter s₀ rs).Sound ∧
      ∀ K n d, Seen s₀ rs K n d → AuthDb.Keeps K d (stateAfter s₀ rs) := by
  induction rs using List.reverseRecOn with
  | nil =>
    refine ⟨hs₀, fun K n d hd => ?_⟩
    rw [hd.eq, List.take_nil]
    exact .refl K _
  | append_singleton rs r ih =>
    obtain ⟨hsound, hkeeps⟩ := ih fun rs₁ r' rs₂ hsplit =>
      hrs rs₁ r' (rs₂ ++ [r]) (by rw [hsplit, List.append_assoc, List.cons_append])
    have hr := hrs rs r [] rfl
    have hstep := tokenStep_of_record hr hkeeps
    rw [stateAfter_concat]
    refine ⟨hstep.sound (hr.1 ▸ hsound), fun K n d hd => ?_⟩
    rcases Nat.lt_or_ge rs.length n with hn | hn
    · have hlen : n = (rs ++ [r]).length :=
        le_antisymm hd.le (by rw [List.length_append]; exact hn)
      rw [hd.eq, hlen, List.take_length, stateAfter_concat]
      exact .refl K _
    · have hold : Seen s₀ rs K n d := by
        refine ⟨hn, ?_, fun r' hr' => hd.disjoint r' ?_⟩
        · rw [hd.eq, List.take_append_of_le_length hn]
        · rw [List.drop_append_of_le_length hn]
          exact List.mem_append_left _ hr'
      have hdisjoint : Disjoint K r.locks := by
        refine hd.disjoint r ?_
        rw [List.drop_append_of_le_length hn]
        exact List.mem_append_right _ (List.mem_singleton_self r)
      exact (hr.1 ▸ hkeeps K n d hold).trans (hstep.keeps hdisjoint)

end TaskTipsCloud

import TaskTipsCloud.Nonces
import TaskTipsCloud.Library.Schedules

/-!
# What a nonce authorises

A nonce is spent by the transaction that deletes its row. The row is locked before it is deleted, so
of two deletions one finds it; and a hash that is drawn once does not come back, so what has spent
or revoked a nonce ends it for good.
-/

namespace TaskTipsCloud

open Txn

/-! ## The statement that deletes -/

/-- The nonces that a statement deletes: those that it chose and that satisfy its condition. -/
def chosenNonce (hashes : List TokenHash) (p : ReauthNonce → Bool) (x : ReauthNonce) : Bool :=
  hashes.contains x.nonceHash && p x

/-- The rows with a hash. -/
def NonceDb.row (d : NonceDb) (nonceHash : TokenHash) : List ReauthNonce :=
  d.nonces.filter (·.nonceHash == nonceHash)

/-- Databases with the same rows of locked hashes. -/
def NonceDb.Agree (K : Set NonceLock) (d c : NonceDb) : Prop :=
  ∀ nonceHash, .nonce nonceHash ∈ K → d.row nonceHash = c.row nonceHash

section

variable {P : Set NonceLock → ℕ → NonceDb → Prop} {H H' : Set NonceLock} {b b' : NonceDb → NonceDb}
  {ns : List ℕ} {K : Set NonceLock} {d : NonceDb} {hashes : List TokenHash}
  {p : ReauthNonce → Bool}

/-- A nonce is found by its hash. -/
theorem NonceDb.mem_row {nonceHash : TokenHash} {x : ReauthNonce} :
    x ∈ d.row nonceHash ↔ x ∈ d.nonces ∧ x.nonceHash = nonceHash := by
  rw [NonceDb.row, List.mem_filter, beq_iff_eq]

/-- A deletion leaves the rows that it did not lock. -/
theorem NonceDb.agree_without (hlocks : ∀ h ∈ hashes, .nonce h ∉ K) :
    NonceDb.Agree K d (d.without (chosenNonce hashes p)) := by
  intro h hh
  rw [NonceDb.row, NonceDb.row, NonceDb.without, List.filter_filter]
  refine List.filter_congr fun x _ => ?_
  by_cases hx : x.nonceHash = h
  · have hnot : h ∉ hashes := fun hmem => hlocks h hmem hh
    simp [chosenNonce, hx, hnot]
  · simp [hx]

/-- A row that is added leaves the other ones. -/
theorem NonceDb.agree_append {x : ReauthNonce} (hlock : .nonce x.nonceHash ∉ K) :
    NonceDb.Agree K d { d with nonces := d.nonces ++ [x] } := by
  intro h hh
  have hne : x.nonceHash ≠ h := by
    rintro rfl
    exact hlock hh
  simp [NonceDb.row, List.filter_append, hne]

/-- The nonces that are left were not chosen. -/
theorem mem_without {x : ReauthNonce} :
    x ∈ (d.without (chosenNonce hashes p)).nonces ↔
      x ∈ d.nonces ∧ chosenNonce hashes p x = false := by
  rw [NonceDb.without, List.mem_filter, Bool.not_eq_true']

/-- Waiting for locks reads nothing and writes nothing. -/
theorem runsAt_lockNonces (h : RunsAt P (lockNonces hashes) H b (.ok ()) H' b' ns) :
    ns = [] ∧ b' = b ∧ H ⊆ H' ∧ ∀ h ∈ hashes, .nonce h ∈ H' := by
  induction hashes generalizing H with
  | nil =>
    cases h
    exact ⟨rfl, rfl, subset_rfl, nofun⟩
  | cons nonceHash hashes ih =>
    cases h with
    | lock h =>
      obtain ⟨hns, hb, hsub, hlocks⟩ := ih h
      refine ⟨hns, hb, (Set.subset_insert _ _).trans hsub, fun h hh => ?_⟩
      rcases List.mem_cons.mp hh with rfl | hh
      · exact hsub (Set.mem_insert _ _)
      · exact hlocks h hh

/-- What a deletion does: it chooses its rows on the first state that it reads, and returns those
that the second one still has, under their locks. -/
structure DeletesNonces (P : Set NonceLock → ℕ → NonceDb → Prop) (p : ReauthNonce → Bool)
    (H H' : Set NonceLock) (b b' : NonceDb → NonceDb) (deleted hashes : List TokenHash)
    (n m : ℕ) : Prop where
  chosen : ∃ d, P H n d ∧ hashes = (b d).hashesOf p
  found : ∃ d, P H' m d ∧ deleted = (b d).hashesOf (chosenNonce hashes p)
  mono : H ⊆ H'
  locks : ∀ h ∈ hashes, .nonce h ∈ H'
  written : b' = (·.without (chosenNonce hashes p)) ∘ b

/-- The deletion of nonces reads them first and then deletes those that it has locked. -/
theorem runsAt_deleteNonces {order : LockOrder} {deleted : List TokenHash}
    (h : RunsAt P (deleteNonces order p) H b (.ok deleted) H' b' ns) :
    ∃ hashes n m, ns = [n, m] ∧ DeletesNonces P p H H' b b' deleted hashes n m := by
  simp only [deleteNonces, bind_eq, query_bind] at h
  cases h with
  | read n d hd hbody =>
    obtain ⟨_, H₁, b₁, ns₁, ns₂, rfl, hlock, hrest⟩ := runsAt_bind_ok_iff.mp hbody
    obtain ⟨rfl, rfl, hsub, hlocks⟩ := runsAt_lockNonces hlock
    cases hrest with
    | read m d' hd' hwrite =>
      cases hwrite with
      | write hend =>
        cases hend
        exact ⟨_, n, m, rfl, ⟨d, hd, rfl⟩, ⟨d', hd', rfl⟩, hsub,
          fun h hh => hlocks h ((order.perm _).mem_iff.mpr hh), rfl⟩

end

/-! ## Calls -/

/-- The nonce that a call creates. -/
def drawnNonce (e : NonceEvent) : Option ReauthNonce :=
  match e.request.call with
  | .createReauthNonce _ actorUserId deviceId nonceHash expiresAt =>
    some ⟨nonceHash, actorUserId, deviceId, expiresAt⟩
  | _ => none

/-- What a finished call did to the nonces. -/
inductive NonceStep (P : Set NonceLock → ℕ → NonceDb → Prop) (r : NonceRecord) : Prop
  | kept (hafter : r.event.after = r.event.before)
      (hresult : ∀ reply, r.event.result ≠ .ok reply)
  | created {hashes : List TokenHash} {p : ReauthNonce → Bool} {x : ReauthNonce}
      (hdrawn : drawnNonce r.event = some x)
      (hlocks : ∀ h ∈ x.nonceHash :: hashes, .nonce h ∈ r.locks)
      (hafter : r.event.after = { r.event.before.without (chosenNonce hashes p) with
        nonces := (r.event.before.without (chosenNonce hashes p)).nonces ++ [x] })
      (hresult : r.event.result = .ok .done)
  | consumed {order : LockOrder} {request : PurgeAccountRequest} {hashes : List TokenHash}
      {p : ReauthNonce → Bool} {m : ℕ} {d : NonceDb}
      (hcall : r.event.request.call = .consumeReauthNonce order request)
      (hp : ∀ x, p x = true ↔ x.nonceHash = request.nonceHash ∧ x.userId = request.actorUserId ∧
        x.deviceId = request.deviceId ∧ r.event.request.now < x.expiresAt)
      (hlocks : ∀ h ∈ hashes, .nonce h ∈ r.locks) (hseen : P r.locks m d)
      (hafter : r.event.after = r.event.before.without (chosenNonce hashes p))
      (hresult : r.event.result =
        .ok (.consumed ((d.hashesOf (chosenNonce hashes p)).length == 1)))
  | revoked {order : LockOrder} {actorUserId deviceId : Uuid} {n : ℕ} {d : NonceDb}
      (hcall : r.event.request.call = .revokeReauthNonces order actorUserId deviceId)
      (hseen : P ∅ n d) (hreads : r.reads.head? = some n)
      (hlocks : ∀ h ∈ d.hashesOf (fun x => x.userId == actorUserId && x.deviceId == deviceId),
        .nonce h ∈ r.locks)
      (hafter : r.event.after = r.event.before.without (chosenNonce
        (d.hashesOf fun x => x.userId == actorUserId && x.deviceId == deviceId)
        fun x => x.userId == actorUserId && x.deviceId == deviceId))
      (hresult : r.event.result = .ok .done)

/-- A call whose body is a transaction with a mapped value. -/
theorem runsAt_onNonces {α : Type} {reply : α → NonceReply}
    {x : NonceTx (Except PersistenceError α)} {P : Set NonceLock → ℕ → NonceDb → Prop}
    {H : Set NonceLock} {b : NonceDb → NonceDb} {ns : List ℕ}
    {result : Except PersistenceError NonceReply}
    (h : RunsAt P (onNonces reply x) ∅ id (.ok result) H b ns) :
    ∃ r, RunsAt P x ∅ id (.ok r) H b ns ∧ result = r.map reply := by
  obtain ⟨r, _, _, _, _, rfl, hx, hend⟩ := runsAt_bind_ok_iff.mp h
  cases hend
  exact ⟨r, by rwa [List.append_nil], rfl⟩

/-- A check that passed. -/
theorem runsAt_require {P : Set NonceLock → ℕ → NonceDb → Prop} {H H' : Set NonceLock}
    {b b' : NonceDb → NonceDb} {ns : List ℕ} {p : Bool} {error : PersistenceError} {u : Unit}
    (h : RunsAt P (require p error : NonceTx Unit) H b (.ok u) H' b' ns) : H = H' ∧ b = b' := by
  cases p <;> cases h
  exact ⟨rfl, rfl⟩

/-- What a record says of the nonces. -/
theorem nonceStep_of_record {s₀ : NonceDb} {rs : List NonceRecord} {r : NonceRecord}
    (hr : nonceService.RecordOutcome s₀ rs r) : NonceStep (Seen s₀ rs) r := by
  obtain ⟨hbefore, ⟨b, hruns, hafter⟩ | ⟨⟨x, herror⟩, hafter⟩⟩ := hr
  · obtain ⟨⟨⟨now, call⟩, result, before, after, clock⟩, reads, locks⟩ := r
    dsimp only at hruns hafter
    cases call with
    -- Expired nonces are deleted first, then the new one is checked and inserted.
    | createReauthNonce order actorUserId deviceId nonceHash expiresAt =>
      obtain ⟨a, hx, hresult⟩ := runsAt_onNonces hruns
      obtain ⟨deleted, H₁, b₁, _, _, -, hdelete, hrest⟩ := runsAt_bind_ok_iff.mp hx
      obtain ⟨hashes, n, m, -, hdeletes⟩ := runsAt_deleteNonces hdelete
      cases hrest with
      | lock hread =>
        cases hread with
        | read _ d _ hcheck =>
          obtain ⟨_, _, _, _, _, -, hnew, hinsert⟩ := runsAt_bind_ok_iff.mp hcheck
          cases hnew
          obtain ⟨_, _, _, _, _, -, hrequire, hwrite⟩ := runsAt_bind_ok_iff.mp hinsert
          obtain ⟨rfl, rfl⟩ := runsAt_require hrequire
          cases hwrite with
          | write hend =>
            cases hend
            have hbefore : b₁ before = before.without (chosenNonce hashes _) :=
              congrFun hdeletes.written before
            refine .created rfl (fun h hh => ?_) (hafter.trans (congrArg (fun d : NonceDb =>
              { d with nonces := d.nonces ++
                [(⟨nonceHash, actorUserId, deviceId, expiresAt⟩ : ReauthNonce)] })
                hbefore)) hresult
            rcases List.mem_cons.mp hh with rfl | hh
            · exact Set.mem_insert _ _
            · exact Set.mem_insert_of_mem _ (hdeletes.locks h hh)
    | consumeReauthNonce order request =>
      obtain ⟨a, hx, hresult⟩ := runsAt_onNonces hruns
      obtain ⟨deleted, H₁, b₁, _, _, -, hdelete, hrest⟩ := runsAt_bind_ok_iff.mp hx
      obtain ⟨hashes, n, m, -, hdeletes⟩ := runsAt_deleteNonces hdelete
      cases hrest
      obtain ⟨d, hd, rfl⟩ := hdeletes.found
      refine .consumed rfl (fun x => ?_) hdeletes.locks hd
        (hafter.trans (congrFun hdeletes.written before)) hresult
      simp [and_assoc]
    | revokeReauthNonces order actorUserId deviceId =>
      obtain ⟨a, hx, hresult⟩ := runsAt_onNonces hruns
      obtain ⟨deleted, H₁, b₁, _, _, rfl, hdelete, hrest⟩ := runsAt_bind_ok_iff.mp hx
      obtain ⟨hashes, n, m, rfl, hdeletes⟩ := runsAt_deleteNonces hdelete
      cases hrest
      obtain ⟨d, hd, hhashes⟩ := hdeletes.chosen
      obtain rfl : hashes = d.hashesOf _ := hhashes
      exact .revoked rfl hd rfl hdeletes.locks (hafter.trans (congrFun hdeletes.written before))
        hresult
  · refine .kept hafter fun reply hreply => ?_
    rw [herror] at hreply
    cases hreply

section

variable {P : Set NonceLock → ℕ → NonceDb → Prop} {r : NonceRecord} {K : Set NonceLock}

/-- What a call leaves to a session with other locks. -/
theorem NonceStep.agree (h : NonceStep P r) (hK : Disjoint K r.locks) :
    NonceDb.Agree K r.event.before r.event.after := by
  have hfree : ∀ l ∈ r.locks, l ∉ K := fun l hl hlK => Set.disjoint_left.mp hK hlK hl
  cases h with
  | kept hafter _ =>
    rw [hafter]
    exact fun _ _ => rfl
  | @created hashes p x _ hlocks hafter _ =>
    rw [hafter]
    intro h hh
    have hwithout := NonceDb.agree_without (d := r.event.before) (p := p)
      (fun h hh => hfree _ (hlocks h (List.mem_cons_of_mem _ hh))) h hh
    exact hwithout.trans (NonceDb.agree_append (hfree _ (hlocks _ List.mem_cons_self)) h hh)
  | consumed _ _ hlocks _ hafter _ =>
    rw [hafter]
    exact NonceDb.agree_without fun h hh => hfree _ (hlocks h hh)
  | revoked _ _ _ hlocks hafter _ =>
    rw [hafter]
    exact NonceDb.agree_without fun h hh => hfree _ (hlocks h hh)

/-- A nonce after a call was there before, or the call created it. -/
theorem NonceStep.mem_after (h : NonceStep P r) {x : ReauthNonce}
    (hx : x ∈ r.event.after.nonces) : x ∈ r.event.before.nonces ∨
      drawnNonce r.event = some x ∧ r.event.result = .ok .done := by
  cases h with
  | kept hafter _ => exact .inl (hafter ▸ hx)
  | created hdrawn _ hafter hresult =>
    rw [hafter] at hx
    rcases List.mem_append.mp hx with hx | hx
    · exact .inl (mem_without.mp hx).1
    · exact .inr ⟨List.mem_singleton.mp hx ▸ hdrawn, hresult⟩
  | consumed _ _ _ _ hafter _ => exact .inl (mem_without.mp (hafter ▸ hx)).1
  | revoked _ _ _ _ hafter _ => exact .inl (mem_without.mp (hafter ▸ hx)).1

end

/-! ## Whole runs -/

/-- The hash that a call draws. -/
def drawnHash (e : NonceEvent) : Option TokenHash := (drawnNonce e).map (·.nonceHash)

/-- A call that created a nonce. -/
def CreatesNonce (e : NonceEvent) (x : ReauthNonce) : Prop :=
  drawnNonce e = some x ∧ e.result = .ok .done

/-- A call consumed the nonce of a request. -/
def Consumes (e : NonceEvent) (request : PurgeAccountRequest) : Prop :=
  (∃ order, e.request.call = .consumeReauthNonce order request) ∧ e.result = .ok (.consumed true)

/-- No nonce has a hash. -/
def NonceDb.Absent (d : NonceDb) (nonceHash : TokenHash) : Prop :=
  ∀ x ∈ d.nonces, x.nonceHash ≠ nonceHash

section

variable {rs : List NonceRecord} {i j k l m n : ℕ} {c r : NonceRecord} {x y : ReauthNonce}
  {request : PurgeAccountRequest} {nonceHash : TokenHash}

/-- The nonces between two records. -/
def noncesAt (rs : List NonceRecord) (n : ℕ) : NonceDb := stateAfter ⟨[]⟩ (rs.take n)

/-- Every nonce was created. -/
theorem issued_of_recorded (hrs : nonceService.Recorded ⟨[]⟩ rs) (hn : n ≤ rs.length) :
    ∀ x ∈ (noncesAt rs n).nonces, ∃ i c, i < n ∧ rs[i]? = some c ∧ CreatesNonce c.event x := by
  refine hrs.induct (J := fun n s => ∀ x ∈ s.nonces,
    ∃ i c, i < n ∧ rs[i]? = some c ∧ CreatesNonce c.event x) (Nat.zero_le n) hn nofun ?_
  intro k r _ _ hk ih x hx
  rcases (nonceStep_of_record (hrs.outcome hk)).mem_after hx with hx | hcreates
  · obtain ⟨i, c, hi, hc, hcreates⟩ := ih x hx
    exact ⟨i, c, Nat.lt_succ_of_lt hi, hc, hcreates⟩
  · exact ⟨k, r, k.lt_succ_self, hk, hcreates⟩

/-- A request that creates a nonce has drawn its hash. -/
theorem drawnHash_of_creates (h : CreatesNonce c.event x) :
    drawnHash c.event = some x.nonceHash := by
  rw [drawnHash, h.1]
  rfl

/-- A hash is drawn by one call. -/
theorem creation_unique (hfresh : (rs.filterMap (drawnHash ·.event)).Nodup)
    (hi : rs[i]? = some c) (hc : CreatesNonce c.event x) (hj : rs[j]? = some r)
    (hr : CreatesNonce r.event y) (h : x.nonceHash = y.nonceHash) : i = j ∧ x = y := by
  obtain rfl := position_unique hfresh hi hj (drawnHash_of_creates hc)
    (h ▸ drawnHash_of_creates hr)
  cases hi.symm.trans hj
  exact ⟨rfl, Option.some.inj (hc.1.symm.trans hr.1)⟩

/-- A hash that is gone after its creation stays away. -/
theorem absent_of_absent (hrs : nonceService.Recorded ⟨[]⟩ rs)
    (hfresh : (rs.filterMap (drawnHash ·.event)).Nodup) (hi : rs[i]? = some c)
    (hc : CreatesNonce c.event x) (him : i < m) (hm : (noncesAt rs m).Absent x.nonceHash)
    (hmn : m ≤ n) (hn : n ≤ rs.length) : (noncesAt rs n).Absent x.nonceHash := by
  refine hrs.induct (J := fun _ s => s.Absent x.nonceHash) hmn hn hm ?_
  intro k r hmk _ hk ih y hy hsame
  rcases (nonceStep_of_record (hrs.outcome hk)).mem_after hy with hy | hcreates
  · exact ih y hy hsame
  · obtain ⟨rfl, -⟩ := creation_unique hfresh hi hc hk hcreates hsame.symm
    exact absurd him (not_lt.mpr hmk)

/-- A consumption finds the nonce that was created for its administrator and device, before it
expires, and leaves no nonce with its hash. -/
theorem spends_of_consumes (hrs : nonceService.Recorded ⟨[]⟩ rs)
    (hfresh : (rs.filterMap (drawnHash ·.event)).Nodup) (hk : rs[k]? = some r)
    (hr : Consumes r.event request) : ∃ x ∈ (noncesAt rs k).nonces,
      x.nonceHash = request.nonceHash ∧ x.userId = request.actorUserId ∧
        x.deviceId = request.deviceId ∧ r.event.request.now < x.expiresAt ∧
          (noncesAt rs (k + 1)).Absent request.nonceHash := by
  obtain ⟨⟨order, hcall⟩, hresult⟩ := hr
  have houtcome := hrs.outcome hk
  cases nonceStep_of_record houtcome with
  | kept _ hnot => exact absurd hresult (hnot _)
  | created _ _ _ hdone => cases hresult.symm.trans hdone
  | revoked _ _ _ _ _ hdone => cases hresult.symm.trans hdone
  | @consumed _ _ hashes p m d hcall' hp hlocks hseen hafter hdeleted =>
    cases hcall.symm.trans hcall'
    have hone : ((d.hashesOf (chosenNonce hashes p)).length == 1) = true := by
      simpa using hdeleted.symm.trans hresult
    obtain ⟨h, hh⟩ := List.exists_mem_of_length_pos
      (Nat.lt_of_lt_of_eq Nat.zero_lt_one (beq_iff_eq.mp hone).symm)
    obtain ⟨x, hx, rfl⟩ := List.mem_map.mp hh
    obtain ⟨hx, hchosen⟩ := List.mem_filter.mp hx
    obtain ⟨hmem, hpx⟩ := Bool.and_eq_true_iff.mp hchosen
    obtain ⟨hhash, huser, hdevice, hexpires⟩ := (hp x).mp hpx
    -- The row is locked, so that it is still there when the call commits.
    have hagree : NonceDb.Agree r.locks d (noncesAt rs k) := by
      refine (hrs.take k).rel_of_seen (fun _ _ _ => rfl)
        (fun _ _ _ h h' nonceHash hlock => (h nonceHash hlock).trans (h' nonceHash hlock)) hseen
        fun j r' hj hdisjoint => ?_
      exact (nonceStep_of_record ((hrs.take k).outcome hj)).agree hdisjoint
    have hlock := hlocks _ (List.contains_iff_mem.mp hmem)
    have hrow : x ∈ (noncesAt rs k).row x.nonceHash :=
      hagree _ hlock ▸ NonceDb.mem_row.mpr ⟨hx, rfl⟩
    have hfound := (NonceDb.mem_row.mp hrow).1
    refine ⟨x, hfound, hhash, huser, hdevice, hexpires, fun y hy hsame => ?_⟩
    have hle : k ≤ rs.length := (List.getElem?_eq_some_iff.mp hk).1.le
    rw [noncesAt, Service.stateAfter_take_succ hk, hafter, mem_without, houtcome.1] at hy
    obtain ⟨i, c, -, hi, hc⟩ := issued_of_recorded hrs hle x hfound
    obtain ⟨i', c', -, hi', hc'⟩ := issued_of_recorded hrs hle y hy.1
    obtain ⟨-, rfl⟩ := creation_unique hfresh hi hc hi' hc' (hhash.trans hsame.symm)
    exact absurd hchosen (Bool.eq_false_iff.mp hy.2)

/-- A nonce that is gone is not consumed. -/
theorem not_consumes_of_absent (hrs : nonceService.Recorded ⟨[]⟩ rs)
    (hfresh : (rs.filterMap (drawnHash ·.event)).Nodup) (hi : rs[i]? = some c)
    (hc : CreatesNonce c.event x) (him : i < m) (hm : (noncesAt rs m).Absent x.nonceHash)
    (hk : rs[k]? = some r) (hmk : m ≤ k) (hr : Consumes r.event request) :
    request.nonceHash ≠ x.nonceHash := by
  intro hsame
  obtain ⟨y, hy, hhash, -⟩ := spends_of_consumes hrs hfresh hk hr
  have hle : k ≤ rs.length := (List.getElem?_eq_some_iff.mp hk).1.le
  exact absent_of_absent hrs hfresh hi hc him hm hmk hle y hy (hhash.trans hsame)

/-- A nonce is consumed once. -/
theorem consumes_once (hrs : nonceService.Recorded ⟨[]⟩ rs)
    (hfresh : (rs.filterMap (drawnHash ·.event)).Nodup) {r' : NonceRecord}
    {request' : PurgeAccountRequest} (hk : rs[k]? = some r) (hr : Consumes r.event request)
    (hl : rs[l]? = some r') (hr' : Consumes r'.event request')
    (hsame : request.nonceHash = request'.nonceHash) : k = l := by
  have hlt : ∀ {k l : ℕ} {r r' : NonceRecord} {q q' : PurgeAccountRequest}, rs[k]? = some r →
      Consumes r.event q → rs[l]? = some r' → Consumes r'.event q' → q.nonceHash = q'.nonceHash →
        ¬ k < l := by
    intro k l r r' q q' hk hr hl hr' hsame hkl
    obtain ⟨x, hx, hhash, -, -, -, habsent⟩ := spends_of_consumes hrs hfresh hk hr
    have hle : k ≤ rs.length := (List.getElem?_eq_some_iff.mp hk).1.le
    obtain ⟨i, c, hik, hi, hc⟩ := issued_of_recorded hrs hle x hx
    exact not_consumes_of_absent hrs hfresh hi hc (Nat.lt_succ_of_lt hik) (hhash ▸ habsent) hl hkl
      hr' (hsame.symm.trans hhash.symm)
  exact le_antisymm (not_lt.mp (hlt hl hr' hk hr hsame.symm)) (not_lt.mp (hlt hk hr hl hr' hsame))

/-- A revocation whose `DELETE` read after a nonce was created leaves no nonce with its hash. -/
theorem absent_of_revokes (hrs : nonceService.Recorded ⟨[]⟩ rs)
    (hfresh : (rs.filterMap (drawnHash ·.event)).Nodup) (hi : rs[i]? = some c)
    (hc : CreatesNonce c.event x) (hj : rs[j]? = some r)
    (hr : (∃ order, r.event.request.call = .revokeReauthNonces order x.userId x.deviceId) ∧
      r.event.result = .ok .done) (hread : r.reads.head? = some n) (hin : i < n) :
    i < j + 1 ∧ (noncesAt rs (j + 1)).Absent x.nonceHash := by
  obtain ⟨⟨order, hcall⟩, hresult⟩ := hr
  have hle : j ≤ rs.length := (List.getElem?_eq_some_iff.mp hj).1.le
  have houtcome := hrs.outcome hj
  cases nonceStep_of_record houtcome with
  | kept _ hnot => exact absurd hresult (hnot _)
  | created hdrawn => rw [drawnNonce, hcall] at hdrawn; cases hdrawn
  | consumed hcall' => cases hcall.symm.trans hcall'
  | @revoked _ _ _ n' d hcall' hseen hread' _ hafter _ =>
    cases hcall.symm.trans hcall'
    cases hread.symm.trans hread'
    have hnj : n ≤ j := by
      have hlen := hseen.le
      rwa [List.length_take, min_eq_left hle] at hlen
    refine ⟨hin.trans_le (hnj.trans j.le_succ), fun y hy hsame => ?_⟩
    rw [noncesAt, Service.stateAfter_take_succ hj, hafter, mem_without, houtcome.1] at hy
    obtain ⟨i', c', -, hi', hc'⟩ := issued_of_recorded hrs hle y hy.1
    obtain ⟨-, rfl⟩ := creation_unique hfresh hi hc hi' hc' hsame.symm
    -- The `DELETE` did not choose the row, so it was gone when the statement read.
    have hd : d = noncesAt rs n := by
      rw [hseen.eq, List.take_take, min_eq_left hnj, noncesAt]
    have habsent : (noncesAt rs n).Absent x.nonceHash := by
      intro z hz hz'
      obtain ⟨i₂, c₂, -, hi₂, hc₂⟩ := issued_of_recorded hrs (hnj.trans hle) z hz
      obtain ⟨-, rfl⟩ := creation_unique hfresh hi hc hi₂ hc₂ hz'.symm
      have hmem : x.nonceHash ∈ d.hashesOf fun z => z.userId == x.userId &&
          z.deviceId == x.deviceId :=
        List.mem_map.mpr ⟨x, List.mem_filter.mpr ⟨hd ▸ hz, by simp⟩, rfl⟩
      simp [chosenNonce, hmem] at hy
    exact absent_of_absent hrs hfresh hi hc hin habsent hnj hle x hy.1 rfl

end

/-! ## Requests to purge accounts -/

/-- What holds of the requests to purge accounts, when the records of the calls on nonces are
`rs`. -/
structure NoncesSafe (host : Host) (d : PurgeDb) (t : ℤ) (rs : List NonceRecord)
    (w : AdminWorld) : Prop where
  /-- The accounts and projects are what the calls on them left. -/
  serial : ∃ t', (purgeService host).Serial d t (w.entries.map (·.event)) w.purges t'
  /-- A call that a request to purge an account makes has a consumed nonce behind it. -/
  authorised : ∀ x ∈ w.entries, x.event.request.call.isAccountRequest = true →
    ∃ (k : ℕ) (r : NonceRecord) (request : PurgeAccountRequest), x.ticket = some k ∧
      rs[k]? = some r ∧ Consumes r.event request ∧
        ∃ jobId newExportId, x.event.request.call = request.purgeCall jobId newExportId
  /-- A request whose nonce was refused makes no call. -/
  refused : ∀ (k : ℕ) (r : NonceRecord), rs[k]? = some r →
    (∀ request, ¬ Consumes r.event request) → ∀ x ∈ w.entries, x.ticket ≠ some k
  /-- A nonce is behind one call at most. -/
  once : w.entries.Pairwise fun x y => ∀ (k l : ℕ) (r r' : NonceRecord)
    (request request' : PurgeAccountRequest), x.ticket = some k → y.ticket = some l →
      rs[k]? = some r → rs[l]? = some r' → Consumes r.event request →
        Consumes r'.event request' → request.nonceHash ≠ request'.nonceHash
  /-- A nonce that is consumed was created for the administrator and the device of the request, and
  has not expired. -/
  issued : ∀ (k : ℕ) (r : NonceRecord) (request : PurgeAccountRequest), rs[k]? = some r →
    Consumes r.event request → ∃ (i : ℕ) (c : NonceRecord) (expiresAt : Timestamp),
      i < k ∧ rs[i]? = some c ∧ CreatesNonce c.event
        ⟨request.nonceHash, request.actorUserId, request.deviceId, expiresAt⟩ ∧
          r.event.request.now < expiresAt
  /-- A nonce that was there when the `DELETE` of a revocation read is not consumed after it. -/
  revoked :
    ∀ (i j k n : ℕ) (c r r' : NonceRecord) (x : ReauthNonce) (request : PurgeAccountRequest),
    rs[i]? = some c → CreatesNonce c.event x → rs[j]? = some r →
      (∃ order, r.event.request.call = .revokeReauthNonces order x.userId x.deviceId) →
        r.event.result = .ok .done → r.reads.head? = some n → i < n → rs[k]? = some r' →
          Consumes r'.event request → request.nonceHash = x.nonceHash → k < j

/-- What links the two sides of a world. -/
structure AdminLinked (host : Host) (d : PurgeDb) (t : ℤ) (w : AdminWorld) : Prop where
  serial : ∃ t' ≤ w.nonces.clock,
    (purgeService host).Serial d t (w.entries.map (·.event)) w.purges t'
  authorised : ∀ x ∈ w.entries, ∀ k, x.ticket = some k → ∃ e request,
    w.nonces.history[k]? = some e ∧ Consumes e request ∧
      ∃ jobId newExportId, x.event.request.call = request.purgeCall jobId newExportId
  others : ∀ x ∈ w.entries, x.ticket = none → x.event.request.call.isAccountRequest = false
  once : w.entries.Pairwise fun x y => ∀ k, x.ticket = some k → y.ticket ≠ some k

section

variable {host : Host} {d : PurgeDb} {t : ℤ} {w w' : AdminWorld} {rs : List NonceRecord}

/-- Calls on nonces go on: finished calls stay, and time does not go back. -/
theorem nonceStep_history {n n' : World NonceDb NonceLock PersistenceError NonceReply NonceRequest}
    (h : nonceService.Step n n') : (∃ es, n'.history = n.history ++ es) ∧ n.clock ≤ n'.clock := by
  cases h with
  | tick _ ht => exact ⟨⟨[], (List.append_nil _).symm⟩, ht⟩
  | commit => exact ⟨⟨_, rfl⟩, le_rfl⟩
  | rollback => exact ⟨⟨_, rfl⟩, le_rfl⟩
  | start | lock | read | write | lose => exact ⟨⟨[], (List.append_nil _).symm⟩, le_rfl⟩

/-- A call that is served keeps the link. -/
theorem AdminLinked.serve (h : AdminLinked host d t w) {ticket : Option ℕ} {call : PurgeCall}
    (hauthorised : ∀ k, ticket = some k → ∃ e request, w.nonces.history[k]? = some e ∧
      Consumes e request ∧ ∃ jobId newExportId, call = request.purgeCall jobId newExportId)
    (hother : ticket = none → call.isAccountRequest = false)
    (hnew : ∀ x ∈ w.entries, ∀ k, x.ticket = some k → ticket ≠ some k) :
    AdminLinked host d t { w with
      purges := ((purgeService host).alone ⟨w.nonces.clock, call⟩ w.purges).after
      entries := w.entries ++
        [⟨ticket, (purgeService host).alone ⟨w.nonces.clock, call⟩ w.purges⟩] } where
  serial := by
    obtain ⟨t', ht', hrun⟩ := h.serial
    refine ⟨w.nonces.clock, le_rfl, ?_⟩
    rw [List.map_append]
    exact hrun.snoc _ trivial ht'
  authorised x hx k hk := by
    rcases List.mem_append.mp hx with hx | hx
    · exact h.authorised x hx k hk
    · obtain rfl := List.mem_singleton.mp hx
      exact hauthorised k hk
  others x hx hk := by
    rcases List.mem_append.mp hx with hx | hx
    · exact h.others x hx hk
    · obtain rfl := List.mem_singleton.mp hx
      exact hother hk
  once := by
    refine List.pairwise_append.mpr ⟨h.once, List.pairwise_singleton _ _, fun x hx y hy => ?_⟩
    obtain rfl := List.mem_singleton.mp hy
    exact hnew x hx

/-- Every step keeps the link. -/
theorem AdminLinked.step (h : AdminLinked host d t w) (hstep : AdminStep host w w') :
    AdminLinked host d t w' := by
  cases hstep with
  | verify => exact ⟨h.serial, h.authorised, h.others, h.once⟩
  | nonces n hstep _ =>
    obtain ⟨⟨es, hhistory⟩, hclock⟩ := nonceStep_history hstep
    obtain ⟨t', ht', hrun⟩ := h.serial
    refine ⟨⟨t', ht'.trans hclock, hrun⟩, fun x hx k hk => ?_, h.others, h.once⟩
    obtain ⟨e, request, he, hconsumes⟩ := h.authorised x hx k hk
    refine ⟨e, request, ?_, hconsumes⟩
    rw [hhistory, List.getElem?_append_left (List.getElem?_eq_some_iff.mp he).1]
    exact he
  | authorised k e order request jobId newExportId hk hcall hresult hnew =>
    refine h.serve (fun k' hk' => ?_) nofun fun x hx k' hx' hk' => ?_
    · cases hk'
      exact ⟨e, request, hk, ⟨⟨order, hcall⟩, hresult⟩, jobId, newExportId, rfl⟩
    · cases hk'
      exact hnew x hx hx'
  | other call hcall => exact h.serve nofun (fun _ => hcall) fun _ _ _ _ => nofun

/-- A reachable world is linked, and so are its nonces. -/
theorem AdminReachable.linked (hw : AdminReachable host d t w) :
    AdminLinked host d t w ∧ nonceService.Reachable ⟨[]⟩ w.nonces := by
  induction hw with
  | refl =>
    exact ⟨⟨⟨t, le_rfl, .nil⟩, fun _ hx => absurd hx List.not_mem_nil,
      fun _ hx => absurd hx List.not_mem_nil, .nil⟩, t, .refl⟩
  | tail _ hstep ih =>
    refine ⟨ih.1.step hstep, ?_⟩
    cases hstep with
    | verify => exact ih.2
    | nonces n hstep _ =>
      obtain ⟨t', hsteps⟩ := ih.2
      exact ⟨t', hsteps.tail hstep⟩
    | authorised => exact ih.2
    | other => exact ih.2

/-- In every run with fresh nonces, a nonce authorises one request to purge an account, of the
administrator and the device that it was issued to, before it expires or is revoked. -/
theorem nonces_safe (hw : AdminReachable host d t w) {reads : ℕ → List ℕ}
    (htraced : nonceService.Traced ⟨[]⟩ w.nonces reads rs)
    (hfresh : (w.nonces.history.filterMap drawnHash).Nodup) : NoncesSafe host d t rs w := by
  obtain ⟨hlinked, -⟩ := hw.linked
  have hrs : nonceService.Recorded ⟨[]⟩ rs := htraced.linked.records
  have hhistory := htraced.linked.history
  have hfresh' : (rs.filterMap (drawnHash ·.event)).Nodup := by
    rw [← hhistory, List.filterMap_map] at hfresh
    exact hfresh
  -- Whatever carries a ticket was authorised by the request that consumed the nonce.
  have hticket : ∀ x ∈ w.entries, ∀ k, x.ticket = some k →
      ∃ (r : NonceRecord) (request : PurgeAccountRequest),
        rs[k]? = some r ∧ Consumes r.event request ∧
        ∃ jobId newExportId, x.event.request.call = request.purgeCall jobId newExportId := by
    intro x hx k hk
    obtain ⟨e, request, he, hconsumes⟩ := hlinked.authorised x hx k hk
    rw [← hhistory, List.getElem?_map, Option.map_eq_some_iff] at he
    obtain ⟨r, hr, rfl⟩ := he
    exact ⟨r, request, hr, hconsumes⟩
  refine ⟨?_, fun x hx hcall => ?_, fun k r hk hrefused x hx hticket' => ?_, ?_,
    fun k r request hk hr => ?_,
    fun i j k n c r r' x request hi hc hj hcall hdone hread hin hk hr' hsame => ?_⟩
  · obtain ⟨t', -, hrun⟩ := hlinked.serial
    exact ⟨t', hrun⟩
  · cases hk : x.ticket with
    | none => exact absurd (hlinked.others x hx hk) (by rw [hcall]; exact nofun)
    | some k =>
      obtain ⟨r, request, hr, hconsumes⟩ := hticket x hx k hk
      exact ⟨k, r, request, rfl, hr, hconsumes⟩
  · obtain ⟨r', request, hr', hconsumes, -⟩ := hticket x hx k hticket'
    cases hk.symm.trans hr'
    exact hrefused request hconsumes
  · refine hlinked.once.imp fun {x y} hxy k l r r' request request' hx hy hk hl hr hr' hsame => ?_
    -- Two requests that consume one nonce are one request, and a ticket is used once.
    obtain rfl := consumes_once hrs hfresh' hk hr hl hr' hsame
    exact hxy k hx hy
  · obtain ⟨x, hx, hhash, huser, hdevice, hexpires, -⟩ := spends_of_consumes hrs hfresh' hk hr
    have hle : k ≤ rs.length := (List.getElem?_eq_some_iff.mp hk).1.le
    obtain ⟨i, c, hik, hi, hc⟩ := issued_of_recorded hrs hle x hx
    refine ⟨i, c, x.expiresAt, hik, hi, ?_, hexpires⟩
    rw [← hhash, ← huser, ← hdevice]
    exact hc
  · by_contra hjk
    obtain ⟨hij, habsent⟩ := absent_of_revokes hrs hfresh' hi hc hj ⟨hcall, hdone⟩ hread hin
    rcases (not_lt.mp hjk).eq_or_lt with rfl | hjk
    · cases hj.symm.trans hk
      obtain ⟨_, hcall⟩ := hcall
      obtain ⟨⟨_, hcall'⟩, -⟩ := hr'
      cases hcall.symm.trans hcall'
    · exact not_consumes_of_absent hrs hfresh' hi hc hij habsent hk hjk hr' hsame

end

/-! ## A run -/

/-- The nonces under administrators that were found active. -/
def verifiedNonceService (verified : List Uuid) :
    Service NonceDb NonceLock PersistenceError NonceReply NonceRequest where
  body := nonceService.body
  time := nonceService.time
  Allowed q := q.call.mayStart verified = true

/-- A call of such an administrator is a step. -/
theorem AdminStep.of_verified {host : Host} {w : AdminWorld}
    {n : World NonceDb NonceLock PersistenceError NonceReply NonceRequest}
    (h : (verifiedNonceService w.verified).Step w.nonces n) :
    AdminStep host w { w with nonces := n } := by
  -- A step of a live session starts no other one.
  have hkept : ∀ {i j : ℕ}
      {s s' : Session NonceDb NonceLock PersistenceError NonceReply NonceRequest}
      {o : Option (Session NonceDb NonceLock PersistenceError NonceReply NonceRequest)},
      w.nonces.live i = some s → Function.update w.nonces.live i o j = some s' →
        w.nonces.live j = none → s'.request.call.mayStart w.verified = true := by
    intro i j s s' o hi hj hnone
    have hji : j ≠ i := by
      rintro rfl
      cases hi.symm.trans hnone
    rw [Function.update_of_ne hji] at hj
    cases hj.symm.trans hnone
  cases h with
  | tick t ht => exact .nonces _ (.tick _ t ht) fun i s hs hnone => nomatch hs.symm.trans hnone
  | start i q hi hq ht =>
    refine .nonces _ (.start _ i q hi trivial ht) fun j s hs hnone => ?_
    dsimp only at hs
    by_cases hji : j = i
    · subst hji
      rw [Function.update_self] at hs
      cases hs
      exact hq
    · rw [Function.update_of_ne hji] at hs
      cases hs.symm.trans hnone
  | lock i q l k b H hi hfree =>
    exact .nonces _ (.lock _ i q l k b H hi hfree) fun _ _ => hkept hi
  | read i q k b H hi => exact .nonces _ (.read _ i q k b H hi) fun _ _ => hkept hi
  | write i q f k b H hi => exact .nonces _ (.write _ i q f k b H hi) fun _ _ => hkept hi
  | commit i q r b H hi => exact .nonces _ (.commit _ i q r b H hi) fun _ _ => hkept hi
  | rollback i q x b H hi => exact .nonces _ (.rollback _ i q x b H hi) fun _ _ => hkept hi
  | lose i =>
    refine .nonces _ (.lose _ i) fun j s hs hnone => ?_
    dsimp only at hs
    by_cases hji : j = i
    · subst hji
      rw [Function.update_self] at hs
      cases hs
    · rw [Function.update_of_ne hji] at hs
      cases hs.symm.trans hnone

/-- What a schedule of such calls reaches. -/
theorem AdminReachable.nonces {host : Host} {d : PurgeDb} {t : ℤ} {w : AdminWorld}
    {n : World NonceDb NonceLock PersistenceError NonceReply NonceRequest}
    (hw : AdminReachable host d t w)
    (h : Relation.ReflTransGen (verifiedNonceService w.verified).Step w.nonces n) :
    AdminReachable host d t { w with nonces := n } := by
  induction h with
  | refl => exact hw
  | @tail n n' _ hstep ih => exact ih.tail (.of_verified (w := { w with nonces := n }) hstep)

/-- A request of the administrator 1 on the device 3 to purge the account 2. -/
def samplePurgeRequest : PurgeAccountRequest where
  actorUserId := 1
  deviceId := 3
  nonceHash := [7]
  subjectUserId := 2
  exportId := none
  confirmed := false
  reason := "left"
  requestId := "r"

/-- The request is made twice with one nonce: both transactions find the nonce, and the second one
waits for the lock of its row. -/
def requestedTwice : List (Move NonceRequest) :=
  .start 0 ⟨0, .createReauthNonce .stored 1 3 [7] 100⟩ :: List.replicate 7 (.next 0) ++
    .start 0 ⟨1, .consumeReauthNonce .stored samplePurgeRequest⟩ :: List.replicate 2 (.next 0) ++
      .start 1 ⟨1, .consumeReauthNonce .stored samplePurgeRequest⟩ :: .next 1 ::
        List.replicate 3 (.next 0) ++ List.replicate 4 (.next 1)

/-- The request that a call consumes a nonce for. -/
def NonceCall.purgeRequest : NonceCall → Option PurgeAccountRequest
  | .consumeReauthNonce _ request => some request
  | _ => none

/-- A request with a purge is one that consumes a nonce. -/
theorem NonceCall.of_purgeRequest {call : NonceCall} {request : PurgeAccountRequest}
    (h : call.purgeRequest = some request) : ∃ order, call = .consumeReauthNonce order request := by
  cases call with
  | consumeReauthNonce order request' =>
    cases h
    exact ⟨order, rfl⟩
  | createReauthNonce => cases h
  | revokeReauthNonces => cases h

/-- The run can be played. -/
theorem play_requestedTwice : ((Board.quiet ⟨[]⟩ 0 2).play (verifiedNonceService [1])
    requestedTwice).isSome = true := by
  decide +kernel

/-- The calls of that run. -/
def requestedEvents : List NonceEvent := (Option.get _ play_requestedTwice).history

/-- One of the two requests consumes the nonce. -/
theorem requestedEvents_consumed : requestedEvents.map
    (fun e => (e.request.call.purgeRequest, e.result.toOption)) =
      [(none, some .done), (some samplePurgeRequest, some (.consumed true)),
        (some samplePurgeRequest, some (.consumed false))] := by
  decide +kernel

/-- One of the two requests is authorised. -/
theorem requestedTwice_safe : ∃ d w reads rs, AdminReachable sampleHost d 0 w ∧
    nonceService.Traced ⟨[]⟩ w.nonces reads rs ∧ w.nonces.history.length = 3 ∧
      w.entries.length = 1 ∧ NoncesSafe sampleHost d 0 rs w := by
  have hstart : AdminReachable sampleHost
      (.initial [⟨2, .user, .active⟩, ⟨1, .systemAdmin, .active⟩])
      0 ⟨Service.quiet ⟨[]⟩ 0, _, [1], []⟩ := .single (.verify 1 ⟨_, rfl⟩)
  have hsteps : Relation.ReflTransGen (verifiedNonceService [1]).Step (Service.quiet ⟨[]⟩ 0)
      (Board.world (Option.get _ play_requestedTwice)) := by
    have hplay := Board.steps_of_play (fun i q hq => ?_) (Option.some_get play_requestedTwice).symm
    · rwa [Board.world_quiet] at hplay
    · simp only [requestedTwice, List.replicate, List.cons_append, List.nil_append, List.mem_cons,
        Move.start.injEq, reduceCtorEq, List.not_mem_nil, false_or, or_false] at hq
      rcases hq with ⟨-, rfl⟩ | ⟨-, rfl⟩ | ⟨-, rfl⟩ <;> rfl
  have hconsumed := hstart.nonces hsteps
  have hevent : requestedEvents[1]?.map
      (fun e => (e.request.call.purgeRequest, e.result.toOption)) =
        some (some samplePurgeRequest, some (.consumed true)) := by
    rw [← List.getElem?_map, requestedEvents_consumed]
    rfl
  obtain ⟨e, he, hcall⟩ := Option.map_eq_some_iff.mp hevent
  rw [Prod.mk.injEq] at hcall
  obtain ⟨order, hconsume⟩ := NonceCall.of_purgeRequest hcall.1
  have hresult : e.result = .ok (.consumed true) := by
    cases hr : e.result with
    | error x => rw [hr] at hcall; cases hcall.2
    | ok reply => rw [hr] at hcall; exact congrArg Except.ok (Option.some.inj hcall.2)
  have hanswered := hconsumed.tail (.authorised 1 e order samplePurgeRequest 5 6 he hconsume hresult
    fun _ hx => absurd hx List.not_mem_nil)
  obtain ⟨reads, rs, htraced⟩ := (AdminReachable.linked hanswered).2.traced
  refine ⟨_, _, reads, rs, hanswered, htraced, ?_, rfl, nonces_safe hanswered htraced ?_⟩
  · have hlength := congrArg List.length requestedEvents_consumed
    rwa [List.length_map] at hlength
  · have hdrawn : requestedEvents.filterMap drawnHash = [[7]] := by decide +kernel
    exact (hdrawn ▸ List.nodup_singleton _ : (requestedEvents.filterMap drawnHash).Nodup)

end TaskTipsCloud

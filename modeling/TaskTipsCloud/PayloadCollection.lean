import TaskTipsCloud.LockSessions

/-!
# Collection of payloads

The payload stage of `cleanup_orphans`, run as the worker under the grants and policies of
`migrations/0001_init.sql`. The locked recheck of a candidate is a `SELECT .. FOR UPDATE`, for which
a role needs the privilege to update the table. The worker may read and delete payloads, but not
update them.
-/

namespace TaskTipsCloud

namespace PayloadCollection

open Program

/-! ## The state -/

/-- `payloads` and `object_revisions`, with the keys of `payloads`. -/
structure PayloadCatalog where
  payloads : List PayloadRow
  objectRevisions : List ObjectRevision
  primaryKey : (payloads.map (·.id)).Nodup
  uniqueKey : (payloads.map fun p => (p.projectId, p.contentHash)).Nodup

/-- The catalog, the keys of the bucket that hold an object, and the connection of the lock. -/
structure CollectionState where
  catalog : PayloadCatalog
  objects : String → Bool
  session : Option LockSession

/-- What the server lets a session do with the two tables. -/
structure PayloadAccess where
  grants : List (Grant ServerRole DbTable)
  payloadPolicies : List (RowPolicy DbSession PayloadRow)
  revisionPolicies : List (RowPolicy DbSession ObjectRevision)

/-- The access that the migrations set up. -/
def migratedAccess : PayloadAccess where
  grants := TaskTipsCloud.grants
  payloadPolicies := [rolePolicy .admin, ownerPolicy (·.ownerUserId), rolePolicy .worker]
  revisionPolicies := [rolePolicy .admin, ownerPolicy (·.ownerUserId), rolePolicy .worker,
    ⟨some .delete, fun session _ => session.currentUser == .worker⟩]

/-! ## What the operations do -/

/-- Whether a payload is old and no revision refers to it. -/
def PayloadCatalog.isDead (c : PayloadCatalog) (olderThan : Timestamp) (p : PayloadRow) : Bool :=
  decide (p.createdAt < olderThan) && c.objectRevisions.all (·.payloadId != some p.id)

/-- The catalog without some payloads. -/
def PayloadCatalog.without (c : PayloadCatalog) (gone : PayloadRow → Bool) : PayloadCatalog where
  payloads := c.payloads.filter (!gone ·)
  objectRevisions := c.objectRevisions
  primaryKey := c.primaryKey.sublist (List.filter_sublist.map _)
  uniqueKey := c.uniqueKey.sublist (List.filter_sublist.map _)

/-- Whether a payload has a project and a digest. -/
def isPayload (projectId : Uuid) (contentHash : String) (p : PayloadRow) : Bool :=
  p.projectId == projectId && p.contentHash == contentHash

section

variable (access : PayloadAccess) (session : DbSession) (c : PayloadCatalog)

/-- The catalog as a query sees it. -/
def PayloadCatalog.seen : PayloadCatalog where
  payloads := c.payloads.filter (shows access.payloadPolicies session .select)
  objectRevisions := c.objectRevisions.filter (shows access.revisionPolicies session .select)
  primaryKey := c.primaryKey.sublist (List.filter_sublist.map _)
  uniqueKey := c.uniqueKey.sublist (List.filter_sublist.map _)

/-- The order of the candidates. -/
def isBefore (p q : PayloadRow) : Bool :=
  decide (p.createdAt < q.createdAt ∨ p.createdAt = q.createdAt ∧ p.id.toNat ≤ q.id.toNat)

/-- The query of `unreferenced_payload_keys`. -/
def unreferencedPayloadKeys (olderThan : Timestamp) : List (Uuid × String) :=
  (((c.seen access session).payloads.filter
    ((c.seen access session).isDead olderThan)).mergeSort isBefore).map fun p =>
      (p.projectId, p.contentHash)

/-- The query of `unreferenced_payload_key`. -/
def unreferencedPayloadKey (projectId : Uuid) (contentHash : String) (olderThan : Timestamp) :
    Option String :=
  ((c.seen access session).payloads.find? fun p =>
    isPayload projectId contentHash p &&
      (c.seen access session).isDead olderThan p).map (·.objectKey)

/-- Whether `delete_payload_row` deletes a payload. -/
def deletesPayload (projectId : Uuid) (contentHash : String) (p : PayloadRow) : Bool :=
  isPayload projectId contentHash p &&
    (c.seen access session).objectRevisions.all (·.payloadId != some p.id) &&
    shows access.payloadPolicies session .select p && shows access.payloadPolicies session .delete p

end

/-- The privileges that the query of `unreferenced_payload_keys` needs. -/
def candidateNeeds : List (DbTable × Privilege) :=
  [(.payloads, .select), (.objectRevisions, .select)]

/-- The privileges that the locked recheck needs. -/
def recheckNeeds : List (DbTable × Privilege) :=
  [(.payloads, .select), (.payloads, .update), (.objectRevisions, .select)]

/-- The privileges that the deletion of a row needs. -/
def deletionNeeds : List (DbTable × Privilege) :=
  [(.payloads, .select), (.payloads, .delete), (.objectRevisions, .select)]

/-- Carries out a statement in a session whose role has the privileges for it. -/
def withPrivileges {α : Type} (access : PayloadAccess) (needs : List (DbTable × Privilege))
    (l : LockSession) (s : CollectionState)
    (body : DbSession → Except StorageError α × CollectionState) :
    Except StorageError α × CollectionState :=
  match l.role with
  | some role =>
    if mayRun access.grants role needs then body ⟨role, l.appRole, l.userId⟩
    else (.error (.persistence (.database .insufficientPrivilege)), s)
  | none => (.error (.persistence (.database .insufficientPrivilege)), s)

/-- A statement on the connection of the lock. The stage sends no others. -/
def serveStatement (access : PayloadAccess) (l : LockSession) (s : CollectionState) :
    (st : LockStatement) → Except StorageError st.Reply × CollectionState
  | .begin => (.ok (), { s with session := some (l.after .begin) })
  | .advisoryLock projectId contentHash =>
    (.ok (), { s with session := some (l.after (.advisoryLock projectId contentHash)) })
  | .setRole role => (.ok (), { s with session := some (l.after (.setRole role)) })
  | .unreferencedPayload projectId contentHash olderThan =>
    withPrivileges access recheckNeeds l s fun session =>
      (.ok (unreferencedPayloadKey access session s.catalog projectId contentHash olderThan), s)
  | .deletePayload projectId contentHash =>
    withPrivileges access deletionNeeds l s fun session =>
      (.ok (), { s with
        catalog :=
          s.catalog.without (deletesPayload access session s.catalog projectId contentHash) })
  | .commit => (.ok (), { s with session := some (l.after .commit) })
  | .rollback => (.ok (), { s with session := some (l.after .rollback) })
  | _ => (.error .internal, s)

/-- What the operations of the stage do while the object store answers. -/
def serve (access : PayloadAccess) :
    (op : StorageOp) → CollectionState → Except StorageError op.Reply × CollectionState
  | .acquire, s => (.ok (), { s with session := some .fresh })
  | .release, s => (.ok (), { s with session := none })
  | .statement st, s =>
    match s.session with
    | some l => serveStatement access l s st
    | none => (.error .disconnected, s)
  | .deleteKey key, s => (.ok (), { s with objects := Function.update s.objects key false })
  | .unreferencedPayloadKeys olderThan, s =>
    if mayRun access.grants .worker candidateNeeds then
      (.ok (unreferencedPayloadKeys access workerSession s.catalog olderThan), s)
    else (.error (.persistence (.database .insufficientPrivilege)), s)
  | _, s => (.error .internal, s)

/-- The stage ends without an error, has removed every dead payload with its object, and has left
everything else. -/
def CollectsDead (access : PayloadAccess) (cutoff : Timestamp) (s : CollectionState) : Prop :=
  let (result, after) := (collectPayloads cutoff).run (serve access) s
  result = .ok () ∧
    after.catalog.objectRevisions = s.catalog.objectRevisions ∧
    after.catalog.payloads = s.catalog.payloads.filter (!s.catalog.isDead cutoff ·) ∧
    ∀ key, after.objects key = (s.objects key &&
      !(s.catalog.payloads.any fun p => s.catalog.isDead cutoff p && p.objectKey == key))

/-! ## One candidate -/

section

variable {access : PayloadAccess} {cutoff : Timestamp} {s : CollectionState} {projectId : Uuid}
  {contentHash : String}

/-- The session of a lock before its body. -/
def lockedSession (projectId : Uuid) (contentHash : String) : LockSession :=
  ⟨true, none, none, none, [(projectId, contentHash)]⟩

/-- A lock runs its body in a transaction of its own, and puts the connection back. -/
theorem run_withPayloadLock {body : StorageProgram Unit} :
    (withPayloadLock projectId contentHash body).run (serve access) s =
      ((body.run (serve access) { s with session := some (lockedSession projectId contentHash) }).1,
        { (body.run (serve access)
            { s with session := some (lockedSession projectId contentHash) }).2 with
          session := none }) := by
  change (body.handle _).run (serve access) _ = _
  rw [run_handle]
  change ((ofExcept _ : StorageProgram Unit).run (serve access) _) = _
  rw [run_ofExcept]
  rfl

/-- A statement runs when the role may. -/
theorem withPrivileges_of_mayRun {α : Type} {needs : List (DbTable × Privilege)} {l : LockSession}
    {role : ServerRole} {body : DbSession → Except StorageError α × CollectionState}
    (hrole : l.role = some role) (h : mayRun access.grants role needs = true) :
    withPrivileges access needs l s body = body ⟨role, l.appRole, l.userId⟩ := by
  rw [withPrivileges, hrole]
  exact if_pos h

/-- A statement is refused when the role may not. -/
theorem withPrivileges_of_not_mayRun {α : Type} {needs : List (DbTable × Privilege)}
    {l : LockSession} {role : ServerRole}
    {body : DbSession → Except StorageError α × CollectionState}
    (hrole : l.role = some role) (h : mayRun access.grants role needs = false) :
    withPrivileges access needs l s body =
      (.error (.persistence (.database .insufficientPrivilege)), s) := by
  rw [withPrivileges, hrole]
  exact if_neg (Bool.eq_false_iff.mp h)

/-- The session of a lock after the worker's role is set. -/
def workerLocked (projectId : Uuid) (contentHash : String) : LockSession :=
  (lockedSession projectId contentHash).after (.setRole .worker)

/-- The search answers the keys that the session sees. -/
theorem serve_unreferencedPayload {l : LockSession} :
    serve access (.statement (.unreferencedPayload projectId contentHash cutoff))
        { s with session := some l } =
      withPrivileges access recheckNeeds l { s with session := some l } fun session =>
        (.ok (unreferencedPayloadKey access session s.catalog projectId contentHash cutoff),
          { s with session := some l }) := rfl

/-- The deletion removes the rows that the session may delete. -/
theorem serve_deletePayload {l : LockSession} :
    serve access (.statement (.deletePayload projectId contentHash)) { s with session := some l } =
      withPrivileges access deletionNeeds l { s with session := some l } fun session =>
        (.ok (), ⟨s.catalog.without (deletesPayload access session s.catalog projectId contentHash),
          s.objects, some l⟩) := rfl

/-- Without the privilege to update, the recheck of any candidate is refused. -/
theorem run_collectCandidate_refused (h : mayRun access.grants .worker recheckNeeds = false) :
    (collectCandidate cutoff (projectId, contentHash)).run (serve access) s =
      (.error (.persistence (.database .insufficientPrivilege)), { s with session := none }) := by
  have hrecheck : (PayloadLock.unreferencedPayloadKey projectId contentHash cutoff).run
      (serve access) { s with session := some (lockedSession projectId contentHash) } =
      (.error (.persistence (.database .insufficientPrivilege)),
        { s with session := some (workerLocked projectId contentHash) }) := by
    refine (run_andThen_ok rfl).trans ((run_perform _).trans ?_)
    exact serve_unreferencedPayload.trans (withPrivileges_of_not_mayRun rfl h)
  rw [collectCandidate, run_withPayloadLock, bind_eq, run_andThen_error hrecheck]

/-- The row of the payload is deleted when the worker may. -/
theorem run_deletePayloadRow (h : mayRun access.grants .worker deletionNeeds = true) :
    (PayloadLock.deletePayloadRow projectId contentHash).run (serve access)
        { s with session := some (workerLocked projectId contentHash) } =
      (.ok (), ⟨s.catalog.without
          (deletesPayload access workerSession s.catalog projectId contentHash), s.objects,
        some .fresh⟩) := by
  have hrow : (statement (.deletePayload projectId contentHash)).run (serve access)
      { s with session := some (workerLocked projectId contentHash) } =
      (.ok (), ⟨s.catalog.without
          (deletesPayload access workerSession s.catalog projectId contentHash), s.objects,
        some (workerLocked projectId contentHash)⟩) :=
    (run_perform _).trans (serve_deletePayload.trans (withPrivileges_of_mayRun rfl h))
  exact (run_andThen_ok hrow).trans rfl

/-- The state without a payload and its object. -/
def CollectionState.collected (access : PayloadAccess) (projectId : Uuid)
    (contentHash objectKey : String) (s : CollectionState) : CollectionState :=
  ⟨s.catalog.without (deletesPayload access workerSession s.catalog projectId contentHash),
    Function.update s.objects objectKey false, none⟩

/-- With it, an unreferenced payload is removed with its object. -/
theorem run_collectCandidate {objectKey : String}
    (hrecheck : mayRun access.grants .worker recheckNeeds = true)
    (hdeletion : mayRun access.grants .worker deletionNeeds = true)
    (hkey : unreferencedPayloadKey access workerSession s.catalog projectId contentHash cutoff =
      some objectKey) :
    (collectCandidate cutoff (projectId, contentHash)).run (serve access) s =
      (.ok (), s.collected access projectId contentHash objectKey) := by
  have hfound : (PayloadLock.unreferencedPayloadKey projectId contentHash cutoff).run
      (serve access) { s with session := some (lockedSession projectId contentHash) } =
      (.ok (some objectKey), { s with session := some (workerLocked projectId contentHash) }) := by
    refine (run_andThen_ok rfl).trans ((run_perform _).trans ?_)
    refine serve_unreferencedPayload.trans ((withPrivileges_of_mayRun rfl hrecheck).trans ?_)
    exact congrArg (fun key => (Except.ok key, _)) hkey
  have hdelete := @run_deletePayloadRow access
    { s with objects := Function.update s.objects objectKey false } projectId contentHash hdeletion
  rw [collectCandidate, run_withPayloadLock, bind_eq, run_andThen_ok hfound]
  exact congrArg (fun r => (Prod.fst r, { (Prod.snd r) with session := none })) hdelete

end

/-! ## All candidates -/

/-- An access under which the worker reads and deletes every row. -/
structure PayloadAccess.IsOpen (access : PayloadAccess) : Prop where
  candidates : mayRun access.grants .worker candidateNeeds = true
  deletion : mayRun access.grants .worker deletionNeeds = true
  payloads : ∀ command p, shows access.payloadPolicies workerSession command p = true
  revisions : ∀ command r, shows access.revisionPolicies workerSession command r = true

section

variable {access : PayloadAccess} {cutoff : Timestamp} {s : CollectionState}

/-- A session without policies sees all rows. -/
theorem PayloadAccess.IsOpen.seen (h : access.IsOpen) (c : PayloadCatalog) :
    c.seen access workerSession = c := by
  have hpayloads : c.payloads.filter (shows access.payloadPolicies workerSession .select) =
      c.payloads := List.filter_eq_self.mpr fun p _ => h.payloads .select p
  have hrevisions : c.objectRevisions.filter
      (shows access.revisionPolicies workerSession .select) = c.objectRevisions :=
    List.filter_eq_self.mpr fun r _ => h.revisions .select r
  unfold PayloadCatalog.seen
  cases c
  simp only [hpayloads, hrevisions]

/-- The candidates are the dead payloads. -/
theorem PayloadAccess.IsOpen.keys (h : access.IsOpen) (cutoff : Timestamp) (c : PayloadCatalog) :
    ∃ dead : List PayloadRow, unreferencedPayloadKeys access workerSession c cutoff =
        dead.map (fun p => (p.projectId, p.contentHash)) ∧
      dead.Perm (c.payloads.filter (c.isDead cutoff)) := by
  refine ⟨_, ?_, List.mergeSort_perm _ isBefore⟩
  rw [unreferencedPayloadKeys, h.seen]

/-- The collection goes through the candidates one by one. -/
theorem run_collectPayloads (h : access.IsOpen) :
    (collectPayloads cutoff).run (serve access) s =
      (forEach (collectCandidate cutoff)
        (unreferencedPayloadKeys access workerSession s.catalog cutoff)).run (serve access) s :=
  run_andThen_ok ((run_perform _).trans (if_pos h.candidates))

/-- A payload is found by its project and digest. -/
theorem PayloadCatalog.eq_of_isPayload {c : PayloadCatalog} {p q : PayloadRow}
    (hp : p ∈ c.payloads) (hq : q ∈ c.payloads)
    (h : isPayload p.projectId p.contentHash q = true) : q = p := by
  unfold isPayload at h
  rw [Bool.and_eq_true, beq_iff_eq, beq_iff_eq] at h
  exact List.inj_on_of_nodup_map c.uniqueKey hq hp (Prod.ext h.1 h.2)

/-- A dead payload is collected. -/
theorem run_collectCandidate_of_isDead (h : access.IsOpen)
    (hrecheck : mayRun access.grants .worker recheckNeeds = true) {p : PayloadRow}
    (hp : p ∈ s.catalog.payloads) (hdead : s.catalog.isDead cutoff p = true) :
    ∃ s', (collectCandidate cutoff (p.projectId, p.contentHash)).run (serve access) s =
        (.ok (), s') ∧ s'.catalog.objectRevisions = s.catalog.objectRevisions ∧
      s'.catalog.payloads = s.catalog.payloads.filter (fun q => decide (q ≠ p)) ∧
      s'.objects = Function.update s.objects p.objectKey false := by
  have hself : isPayload p.projectId p.contentHash p = true := by simp [isPayload]
  have hkey : unreferencedPayloadKey access workerSession s.catalog p.projectId p.contentHash
      cutoff = some p.objectKey := by
    rw [unreferencedPayloadKey, h.seen, Option.map_eq_some_iff]
    refine ⟨p, ?_, rfl⟩
    rcases hfound : s.catalog.payloads.find? (fun q =>
        isPayload p.projectId p.contentHash q && s.catalog.isDead cutoff q) with _ | q
    · have hnone := List.find?_eq_none.mp hfound p hp
      simp [hself, hdead] at hnone
    · have hq := List.find?_some hfound
      rw [Bool.and_eq_true] at hq
      rw [PayloadCatalog.eq_of_isPayload hp (List.mem_of_find?_eq_some hfound) hq.1]
  have hunreferenced : s.catalog.objectRevisions.all (·.payloadId != some p.id) = true :=
    ((Bool.and_eq_true _ _).mp hdead).2
  refine ⟨_, run_collectCandidate hrecheck h.deletion hkey, rfl, ?_, rfl⟩
  refine List.filter_congr fun q hq => ?_
  rw [deletesPayload, h.seen, h.payloads, h.payloads, Bool.and_true, Bool.and_true, Bool.eq_iff_iff,
    Bool.not_eq_true', decide_eq_true_eq]
  constructor
  · rintro hkept rfl
    rw [hself, hunreferenced] at hkept
    cases hkept
  · intro hne
    rw [Bool.and_eq_false_iff]
    exact .inl (Bool.eq_false_iff.mpr fun hq' => hne (PayloadCatalog.eq_of_isPayload hp hq hq'))

/-- Some dead payloads are collected one after the other. -/
theorem run_forEach_collectCandidate (h : access.IsOpen)
    (hrecheck : mayRun access.grants .worker recheckNeeds = true) {dead : List PayloadRow}
    (hdead : ∀ p ∈ dead, p ∈ s.catalog.payloads ∧ s.catalog.isDead cutoff p = true)
    (hnodup : dead.Nodup) :
    ∃ s', (forEach (collectCandidate cutoff) (dead.map fun p => (p.projectId, p.contentHash))).run
        (serve access) s = (.ok (), s') ∧
      s'.catalog.objectRevisions = s.catalog.objectRevisions ∧
      s'.catalog.payloads = s.catalog.payloads.filter (fun q => decide (q ∉ dead)) ∧
      ∀ key, s'.objects key = (s.objects key && !dead.any (·.objectKey == key)) := by
  induction dead generalizing s with
  | nil => exact ⟨s, rfl, rfl, by simp, fun key => by simp⟩
  | cons p dead ih =>
    obtain ⟨hp, hrest⟩ := List.forall_mem_cons.mp hdead
    obtain ⟨hnotMem, hnodup⟩ := List.nodup_cons.mp hnodup
    obtain ⟨s₁, hrun, hrevisions, hpayloads, hobjects⟩ :=
      run_collectCandidate_of_isDead h hrecheck hp.1 hp.2
    -- What is dead depends on the revisions only, and the others are still there.
    have hstill : ∀ q ∈ dead, q ∈ s₁.catalog.payloads ∧ s₁.catalog.isDead cutoff q = true := by
      intro q hq
      refine ⟨?_, ?_⟩
      · rw [hpayloads, List.mem_filter, decide_eq_true_eq]
        exact ⟨(hrest q hq).1, fun e => hnotMem (e ▸ hq)⟩
      · rw [PayloadCatalog.isDead, hrevisions]
        exact (hrest q hq).2
    obtain ⟨s', hrun', hrevisions', hpayloads', hobjects'⟩ := ih hstill hnodup
    refine ⟨s', (run_andThen_ok hrun).trans hrun', hrevisions'.trans hrevisions, ?_, fun key => ?_⟩
    · rw [hpayloads', hpayloads, List.filter_filter]
      refine List.filter_congr fun q _ => ?_
      simp only [List.mem_cons, not_or, Bool.decide_and, Bool.and_comm]
    · rw [hobjects', hobjects, List.any_cons, Function.update_apply]
      by_cases hkey : key = p.objectKey
      · simp [hkey]
      · have hother : (p.objectKey == key) = false := beq_eq_false_iff_ne.mpr (Ne.symm hkey)
        simp [hkey, hother]

/-- A worker that may update the payloads, too, collects exactly the dead ones. -/
theorem collectsDead_of_access (h : access.IsOpen)
    (hrecheck : mayRun access.grants .worker recheckNeeds = true) :
    CollectsDead access cutoff s := by
  obtain ⟨dead, hkeys, hperm⟩ := h.keys cutoff s.catalog
  have hmem : ∀ p, p ∈ dead ↔ p ∈ s.catalog.payloads ∧ s.catalog.isDead cutoff p = true :=
    fun p => by rw [hperm.mem_iff, List.mem_filter]
  have hnodup : dead.Nodup := hperm.nodup_iff.mpr (s.catalog.primaryKey.of_map.filter _)
  obtain ⟨s', hrun, hrevisions, hpayloads, hobjects⟩ :=
    run_forEach_collectCandidate h hrecheck (fun p hp => (hmem p).mp hp) hnodup
  rw [CollectsDead, run_collectPayloads h, hkeys, hrun]
  refine ⟨rfl, hrevisions, ?_, fun key => ?_⟩
  · rw [hpayloads]
    refine List.filter_congr fun p hp => ?_
    simp [hmem, hp]
  · rw [hobjects, Bool.eq_iff_iff]
    simp [hmem]

/-- The stage of a worker that may not update the payloads ends at its first candidate. -/
theorem run_collectPayloads_refused (h : access.IsOpen)
    (hrecheck : mayRun access.grants .worker recheckNeeds = false) {p : PayloadRow}
    (hp : p ∈ s.catalog.payloads) (hdead : s.catalog.isDead cutoff p = true) :
    ((collectPayloads cutoff).run (serve access) s).1 =
      .error (.persistence (.database .insufficientPrivilege)) := by
  obtain ⟨dead, hkeys, hperm⟩ := h.keys cutoff s.catalog
  rw [run_collectPayloads h, hkeys]
  cases dead with
  | nil => cases (hperm.mem_iff.mpr (List.mem_filter.mpr ⟨hp, hdead⟩) : p ∈ [])
  | cons q dead =>
    rw [List.map_cons, forEach, run_andThen_error (run_collectCandidate_refused hrecheck)]

/-- A stage without a candidate changes nothing. -/
theorem run_collectPayloads_of_forall_not (h : access.IsOpen)
    (hdead : ∀ p ∈ s.catalog.payloads, s.catalog.isDead cutoff p = false) :
    (collectPayloads cutoff).run (serve access) s = (.ok (), s) := by
  obtain ⟨dead, hkeys, hperm⟩ := h.keys cutoff s.catalog
  have hnil : dead = [] := by
    rw [List.filter_eq_nil_iff.mpr fun p hp => Bool.eq_false_iff.mp (hdead p hp)] at hperm
    exact hperm.eq_nil
  rw [run_collectPayloads h, hkeys, hnil]
  rfl

end

/-! ## The access of the migrations -/

/-- The access of the migrations is open. -/
theorem migratedAccess_isOpen : migratedAccess.IsOpen where
  candidates := by decide
  deletion := by decide
  payloads _ _ := rfl
  revisions _ _ := by
    refine shows_iff.mpr ⟨_, List.mem_cons_of_mem _ (List.mem_cons_of_mem _ List.mem_cons_self), ?_⟩
    exact ⟨.inl rfl, rfl⟩

/-- The worker may not lock the rows of `payloads`. -/
theorem not_mayRun_recheck : mayRun migratedAccess.grants .worker recheckNeeds = false := by decide

/-- Under the grants of the migrations, the stage collects the dead payloads if and only if there
are none. -/
theorem collectsDead_iff (cutoff : Timestamp) (s : CollectionState) :
    CollectsDead migratedAccess cutoff s ↔
      ∀ p ∈ s.catalog.payloads, s.catalog.isDead cutoff p = false := by
  constructor
  · intro h p hp
    by_contra hdead
    have hrun := run_collectPayloads_refused migratedAccess_isOpen not_mayRun_recheck hp
      (Bool.not_eq_false _ ▸ hdead)
    cases h.1.symm.trans hrun
  · intro hdead
    rw [CollectsDead, run_collectPayloads_of_forall_not migratedAccess_isOpen hdead]
    refine ⟨rfl, rfl, ?_, fun key => ?_⟩
    · refine (List.filter_eq_self.mpr fun p hp => ?_).symm
      rw [hdead p hp]
      rfl
    · have hnone : (s.catalog.payloads.any fun p =>
          s.catalog.isDead cutoff p && p.objectKey == key) = false := by
        refine List.any_eq_false.mpr fun p hp => ?_
        rw [hdead p hp]
        simp
      rw [hnone]
      exact (Bool.and_true _).symm

/-- A payload without a reference. -/
def deadPayload : PayloadRow :=
  ⟨1, 2, 3, sampleDigest, "payloads", "users/3", 0, "text/plain", 0⟩

/-- A state with this payload and its object. -/
def deadState : CollectionState where
  catalog := ⟨[deadPayload], [], by decide, by decide⟩
  objects key := key == "users/3"
  session := none

/-- The stage ends with an error, and the payload and its object stay. -/
theorem deadPayload_not_collected :
    ¬ CollectsDead migratedAccess 10 deadState ∧
      ((collectPayloads 10).run (serve migratedAccess) deadState).1 =
        .error (.persistence (.database .insufficientPrivilege)) ∧
      ((collectPayloads 10).run (serve migratedAccess) deadState).2.catalog.payloads =
        [deadPayload] := by
  have hkeys : unreferencedPayloadKeys migratedAccess workerSession deadState.catalog 10 =
      [(2, sampleDigest)] := by
    have hdead : deadState.catalog.payloads.filter (deadState.catalog.isDead 10) = [deadPayload] :=
      rfl
    rw [unreferencedPayloadKeys, migratedAccess_isOpen.seen, hdead, List.mergeSort_singleton]
    rfl
  have hrun : (collectPayloads 10).run (serve migratedAccess) deadState =
      (.error (.persistence (.database .insufficientPrivilege)), deadState) := by
    rw [run_collectPayloads migratedAccess_isOpen, hkeys, forEach,
      run_andThen_error (run_collectCandidate_refused not_mayRun_recheck)]
    rfl
  refine ⟨fun h => ?_, congrArg Prod.fst hrun, ?_⟩
  · cases h.1.symm.trans (congrArg Prod.fst hrun)
  · rw [hrun]
    rfl

end PayloadCollection

end TaskTipsCloud

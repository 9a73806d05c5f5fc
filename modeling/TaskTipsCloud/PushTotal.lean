import TaskTipsCloud.Bindings
import TaskTipsCloud.Coherence
import TaskTipsCloud.SnapshotSteps

/-!
# A push never hits the checks of the database

What the validators of the push route let through satisfies every constraint of the schema, in every
coherent database and for every batch. One value is not validated: the identifier of the request may
contain the character NUL, which no text of the database can hold.
-/

namespace TaskTipsCloud

open Txn

/-! ## Values that are validated -/

section

variable {kind : ObjectKind} {id hash : String}

/-- A text can be stored when it has no NUL. -/
theorem encodable_iff {s : String} : encodable s = true ↔ '\x00' ∉ s.toList := by
  unfold encodable
  rw [List.all_eq_true]
  constructor
  · exact fun h hmem => absurd (h _ hmem) (by decide)
  · intro h c hc
    rw [bne_iff_ne]
    rintro rfl
    exact h hc

/-- An accepted identifier can be stored. -/
theorem encodable_of_validObjectId (h : validObjectId kind id = true) : encodable id = true := by
  rw [encodable_iff]
  intro hmem
  cases kind with
  | todo =>
    simp only [validObjectId, Bool.and_eq_true, List.all_eq_true] at h
    exact absurd (h.2 _ hmem) (by decide)
  | classification =>
    rw [validObjectId, beq_iff_eq] at h
    subst h
    exact absurd hmem (by decide)
  | index =>
    rw [validObjectId, beq_iff_eq] at h
    subst h
    exact absurd hmem (by decide)
  | image =>
    simp only [validObjectId, Bool.and_eq_true, Bool.not_eq_true', List.any_eq_false] at h
    exact h.2 _ hmem (by decide)

/-- An accepted hash can be stored, and has 64 characters. -/
theorem encodable_of_validContentHash (h : validContentHash hash = true) :
    encodable hash = true ∧ hash.toList.length = 64 := by
  rw [validContentHash, Bool.and_eq_true, beq_iff_eq, List.all_eq_true] at h
  rw [encodable_iff]
  exact ⟨fun hmem => absurd (h.2 _ hmem) (by decide), h.1⟩

end

/-- What the validators say of an item. -/
structure ItemBinds (host : Host) (revision : NewSyncRevision) : Prop where
  id : encodable revision.id = true
  hash : ∀ h, revision.contentHash = some h → encodable h = true ∧ h.toList.length = 64
  shape : revision.tombstone = true ∧ revision.contentHash = none ∧ revision.schemaVersion = none ∨
    revision.tombstone = false ∧ revision.contentHash.isSome ∧
      ∃ v, revision.schemaVersion = some v ∧ 0 < v
  encodes : (host.rfc3339 revision.changedAt).isSome

section

variable {host : Host} {deviceId : Uuid}

/-- The identifier of an accepted revision is accepted. -/
theorem validObjectId_of_validateRevisionFields {kind : ObjectKind} {id : String} {revision : ℤ}
    {baseRevision : Option ℤ} {itemDeviceId : Uuid} {u : Unit} (h : validateRevisionFields kind id
      revision baseRevision itemDeviceId deviceId = .ok u) : validObjectId kind id = true := by
  unfold validateRevisionFields at h
  dsimp only at h
  split at h
  · cases h
  · rename_i hvalid
    simp only [Bool.or_eq_true, not_or, Bool.not_eq_true', Bool.not_eq_false] at hvalid
    exact hvalid.2

/-- An accepted object can be stored. -/
theorem PushObject.itemBinds {x : PushObject} {revision : NewSyncRevision} {j : Json}
    (h : x.validated deviceId = .ok revision) (hj : x.toJson host = some j) :
    ItemBinds host revision := by
  unfold PushObject.validated validatePushItem at h
  split at h
  · cases h
  · rename_i hschema
    split at h
    · cases h
    · rename_i hhash
      rw [Bool.not_eq_true', Bool.not_eq_false] at hhash
      rcases hfields :
          validateRevisionFields x.kind x.id x.revision x.baseRevision x.deviceId deviceId
        with _ | u
      · rw [hfields] at h
        cases h
      · rw [hfields] at h
        cases h
        refine ⟨encodable_of_validObjectId (validObjectId_of_validateRevisionFields hfields),
          fun h hh => ?_, .inr ⟨rfl, rfl, _, rfl, not_le.mp hschema⟩, ?_⟩
        · cases hh
          exact encodable_of_validContentHash hhash
        · obtain ⟨text, htext, -⟩ := Option.bind_eq_some_iff.mp hj
          exact Option.isSome_iff_exists.mpr ⟨text, htext⟩

/-- An accepted tombstone can be stored. -/
theorem PushTombstone.itemBinds {x : PushTombstone} {revision : NewSyncRevision} {j : Json}
    (h : x.validated deviceId = .ok revision) (hj : x.toJson host = some j) :
    ItemBinds host revision := by
  unfold PushTombstone.validated at h
  rcases hfields : validateRevisionFields x.kind x.id x.revision x.baseRevision x.deviceId deviceId
    with _ | u
  · rw [hfields] at h
    cases h
  · rw [hfields] at h
    cases h
    refine ⟨encodable_of_validObjectId (validObjectId_of_validateRevisionFields hfields), nofun,
      .inl ⟨rfl, rfl, rfl⟩, ?_⟩
    obtain ⟨text, htext, -⟩ := Option.bind_eq_some_iff.mp hj
    exact Option.isSome_iff_exists.mpr ⟨text, htext⟩

/-- What is mapped with checks comes from what passed them. -/
theorem exists_of_mapM_ok {α β ε : Type} {f : α → Except ε β} {xs : List α} {ys : List β}
    (h : xs.mapM f = .ok ys) {y : β} (hy : y ∈ ys) : ∃ x ∈ xs, f x = .ok y := by
  induction xs generalizing ys with
  | nil =>
    cases h
    cases hy
  | cons x xs ih =>
    rw [List.mapM_cons] at h
    rcases hx : f x with e | z
    · rw [hx] at h
      cases h
    · rcases hxs : xs.mapM f with e | zs
      · rw [hx, hxs] at h
        cases h
      · rw [hx, hxs] at h
        cases h
        rcases List.mem_cons.mp hy with rfl | hy
        · exact ⟨x, List.mem_cons_self, hx⟩
        · obtain ⟨x', hx', hf⟩ := ih hxs hy
          exact ⟨x', List.mem_cons_of_mem _ hx', hf⟩

/-- Each element of a list that is mapped has its image. -/
theorem exists_of_mapM_some {α β : Type} {f : α → Option β} {xs : List α} {ys : List β}
    (h : xs.mapM f = some ys) {x : α} (hx : x ∈ xs) : ∃ y, f x = some y := by
  induction xs generalizing ys with
  | nil => cases hx
  | cons x' xs ih =>
    simp only [List.mapM_cons, Option.pure_def, Option.bind_eq_bind, Option.bind_eq_some_iff] at h
    obtain ⟨y, hy, rest, hrest, -⟩ := h
    rcases List.mem_cons.mp hx with rfl | hx
    · exact ⟨y, hy⟩
    · exact ih hrest hx

/-- What the checks of the route say of its push. -/
structure PushBinds (host : Host) (a : PushArgs) : Prop where
  items : ∀ revision ∈ a.revisions, ItemBinds host revision
  count : a.revisions.length ≤ 100
  hash : ∃ j, a.requestHash = host.sha256Hex j

/-- A list that is mapped keeps its length. -/
theorem length_of_mapM_ok {α β ε : Type} {f : α → Except ε β} {xs : List α} {ys : List β}
    (h : xs.mapM f = .ok ys) : ys.length = xs.length := by
  induction xs generalizing ys with
  | nil =>
    cases h
    rfl
  | cons x xs ih =>
    rw [List.mapM_cons] at h
    rcases hx : f x with e | z
    · rw [hx] at h
      cases h
    · rcases hxs : xs.mapM f with e | zs
      · rw [hx, hxs] at h
        cases h
      · rw [hx, hxs] at h
        cases h
        rw [List.length_cons, List.length_cons, ih hxs]

/-- The push of a request that passes the checks. -/
theorem PushRequest.pushBinds {r : PushRequest} {userId projectId : Uuid} {a : PushArgs}
    (h : r.args host userId deviceId projectId = .ok a) :
    PushBinds host a ∧ a.userId = userId ∧ a.deviceId = deviceId ∧ a.projectId = projectId ∧
      a.requestKey = r.requestId := by
  unfold PushRequest.args at h
  split at h
  · cases h
  · rename_i hfields
    simp only [Bool.or_eq_true, decide_eq_true_eq, not_or, not_lt] at hfields
    rcases hobjects : r.objects.mapM (·.validated deviceId) with _ | objects
    · rw [hobjects] at h
      cases h
    rcases htombstones : r.tombstones.mapM (·.validated deviceId) with _ | tombstones
    · rw [hobjects, htombstones] at h
      cases h
    rw [hobjects, htombstones] at h
    rcases hjson : r.toJson host with _ | canonicalRequest
    · rw [hjson] at h
      cases h
    rw [hjson] at h
    cases h
    simp only [PushRequest.toJson, Option.pure_def, Option.bind_eq_bind,
      Option.bind_eq_some_iff] at hjson
    obtain ⟨_, hobjectsJson, _, htombstonesJson, -⟩ := hjson
    refine ⟨⟨fun revision hmem => ?_, ?_, _, rfl⟩, rfl, rfl, rfl, rfl⟩
    · rcases List.mem_append.mp hmem with hmem | hmem
      · obtain ⟨x, hx, hvalid⟩ := exists_of_mapM_ok hobjects hmem
        obtain ⟨j, hj⟩ := exists_of_mapM_some hobjectsJson hx
        exact x.itemBinds hvalid hj
      · obtain ⟨x, hx, hvalid⟩ := exists_of_mapM_ok htombstones hmem
        obtain ⟨j, hj⟩ := exists_of_mapM_some htombstonesJson hx
        exact x.itemBinds hvalid hj
    · rw [List.length_append, length_of_mapM_ok hobjects, length_of_mapM_ok htombstones]
      exact hfields.2

end

/-! ## Appending a revision -/

/-- No constraint is violated when all are met. -/
theorem firstViolation_eq_none_iff {constraints : List (Bool × DatabaseError)} :
    firstViolation constraints = none ↔ ∀ c ∈ constraints, c.1 = true := by
  unfold firstViolation
  rw [Option.map_eq_none_iff, List.find?_eq_none]
  simp

section

variable {d : Db} {now : Timestamp} {r : ObjectRevision} {row : ProjectRow} {role : DbRole}

/-- What the foreign keys and the checks ask of a revision, beyond that its project accepts it. -/
structure RevisionBinds (d : Db) (r : ObjectRevision) : Prop where
  shape :
    r.isTombstone = true ∧ r.payloadId = none ∧ r.contentHash = none ∧ r.schemaVersion = none ∨
    r.isTombstone = false ∧ r.payloadId.isSome ∧ r.contentHash.isSome ∧
      ∃ v, r.schemaVersion = some v ∧ 0 < v
  device : d.hasDevice r.deviceId r.ownerUserId = true
  payload : ∀ i, r.payloadId = some i → ∃ x ∈ d.payloads, x.id = i ∧ x.projectId = r.projectId

/-- A revision that its project accepts is new. -/
theorem ProjectData.Coherent.id_ne {x : ProjectData} (hx : x.Coherent row) (hr : x.Accepts row r) :
    ∀ r' ∈ x.revisions, r'.id ≠ r.id := by
  have hnodup := nodup_map_id (hx.append hr 0).isHistory
  rw [ProjectData.append, List.map_append, List.nodup_append] at hnodup
  exact fun r' hr' => hnodup.2.2 _ (List.mem_map_of_mem hr') _ List.mem_cons_self

/-- The entry of a revision that its project accepts is new. -/
theorem ProjectData.Coherent.entry_new {x : ProjectData} (hx : x.Coherent row)
    (hr : x.Accepts row r) :
    ∀ c ∈ x.log, c.sequence ≠ row.changeSeq + 1 ∧ c.revisionId ≠ r.id := by
  intro c hc
  rw [hx.log] at hc
  constructor
  · have hsequence := List.mem_map_of_mem (f := (·.sequence)) hc
    rw [map_logEntries_sequence, List.mem_map] at hsequence
    obtain ⟨n, hn, heq⟩ := hsequence
    rw [List.mem_range'_1] at hn
    rw [← heq, hx.sequence]
    omega
  · have hrevision := List.mem_map_of_mem (f := (·.revisionId)) hc
    rw [map_logEntries_revisionId, List.mem_map] at hrevision
    obtain ⟨r', hr', heq⟩ := hrevision
    rw [← heq]
    exact hx.id_ne hr r' hr'

/-- A revision that its project accepts, and whose references are there, violates no constraint. -/
theorem revisionRefused_eq_none (hrow : d.project r.projectId = some row)
    (hx : (d.data r.projectId).Coherent row) (hr : (d.data r.projectId).Accepts row r)
    (hbinds : RevisionBinds d r) : revisionRefused r d = none := by
  have hrevision : (0 : ℤ) < r.revision := by
    have h := hr.fits.revision
    change r.revision = _ at h
    omega
  have hbase : ∀ b, r.baseRevision = some b → 0 < b := by
    intro b hb
    have h : r.baseRevision = previousRevision r.revision := hr.fits.base
    rw [previousRevision_eq (by omega), hb] at h
    split at h
    · cases h
    · cases h
      omega
  have hproject : d.hasProject r.projectId r.ownerUserId = true := by
    rw [Db.hasProject, hrow]
    exact beq_iff_eq.mpr hr.ownerUserId.symm
  rw [revisionRefused, firstViolation_eq_none_iff]
  simp only [List.forall_mem_cons, List.not_mem_nil, false_imp_iff, implies_true, and_true]
  refine ⟨?_, ?_, decide_eq_true hrevision, ?_, ?_, hbinds.device, ?_, hproject⟩
  · cases hb : r.baseRevision with
    | none => rfl
    | some b => exact decide_eq_true (hbase b hb)
  · rcases hbinds.shape with ⟨htombstone, hpayload, hhash, hschema⟩ |
      ⟨htombstone, hpayload, hhash, v, hschema, -⟩
    · rw [htombstone, hpayload, hhash, hschema]
      rfl
    · rw [htombstone, hpayload, hhash, hschema]
      rfl
  · rcases hbinds.shape with ⟨-, -, -, hschema⟩ | ⟨-, -, -, v, hschema, hv⟩
    · rw [hschema]
      rfl
    · rw [hschema]
      exact decide_eq_true hv
  · rw [List.all_eq_true]
    exact fun x hmem => bne_iff_ne.mpr (hx.id_ne hr x hmem)
  · cases hi : r.payloadId with
    | none => rfl
    | some i =>
      obtain ⟨x, hx, hid, hp⟩ := hbinds.payload i hi
      exact List.any_eq_true.mpr ⟨x, hx, by simp [hid, hp]⟩

/-- A revision that its project accepts, and whose references are there, is appended. -/
theorem run_appendRevision (hd : d.Coherent) (hrow : visibleProject role r.projectId d = some row)
    (hr : (d.data r.projectId).Accepts row r) (hbinds : RevisionBinds d r) :
    (appendRevision role now r).run d =
      (.ok (row.changeSeq + 1), d.append now (row.changeSeq + 1) r) := by
  obtain ⟨hproject, -⟩ := visibleProject_eq_some_iff.mp hrow
  have hx := hd.data hproject
  have hnext : (nextChangeSequence role now r.projectId).run d =
      (.ok (row.changeSeq + 1), d.updateProject r.projectId (·.advance now)) := by
    simp only [nextChangeSequence, bind_eq, query_bind, run_read, hrow]
    rfl
  -- The constraints on revisions do not read what the first statement changes.
  have howner : (d.updateProject r.projectId (·.advance now)).hasProject r.projectId r.ownerUserId =
      d.hasProject r.projectId r.ownerUserId := by
    unfold Db.hasProject
    rw [Db.project_updateProject (ProjectRow.id_advance now), hproject]
    rfl
  have hrefused : revisionRefused r (d.updateProject r.projectId (·.advance now)) = none := by
    rw [← revisionRefused_eq_none hproject hx hr hbinds]
    unfold revisionRefused
    rw [howner]
    rfl
  have hkeep : ∀ d', (keepPayloadRow r.payloadId).run d' = (.ok (), d') := by
    intro d'
    cases r.payloadId <;> rfl
  have hlog : firstViolation
      [(decide (0 < row.changeSeq + 1), .checkViolation),
        ((d.logOf r.projectId).all (·.sequence != row.changeSeq + 1), .uniqueViolation),
        ((d.logOf r.projectId).all (·.revisionId != r.id), .uniqueViolation)] = none := by
    rw [firstViolation_eq_none_iff]
    simp only [List.forall_mem_cons, List.not_mem_nil, false_imp_iff, implies_true, and_true]
    have hentries := hx.entry_new hr
    refine ⟨decide_eq_true (by rw [hx.sequence]; omega), ?_, ?_⟩
    · exact List.all_eq_true.mpr fun c hc => bne_iff_ne.mpr (hentries c hc).1
    · exact List.all_eq_true.mpr fun c hc => bne_iff_ne.mpr (hentries c hc).2
  have hinsert : (insertRevision r).run (d.updateProject r.projectId (·.advance now)) = (.ok r.id,
      { d.updateProject r.projectId (·.advance now) with
        objectRevisions := d.objectRevisions ++ [r] }) :=
    run_bind_ok_iff.mpr ⟨_, _, hkeep _, run_bind_ok_iff.mpr
      ⟨_, _, run_insertRow_ok_iff.mpr ⟨hrefused, rfl⟩, rfl⟩⟩
  refine run_bind_ok_iff.mpr ⟨_, _, hnext, run_bind_ok_iff.mpr ⟨_, _, hinsert, ?_⟩⟩
  exact run_bind_ok_iff.mpr ⟨_, _, rfl, run_bind_ok_iff.mpr
    ⟨_, _, run_insertRow_ok_iff.mpr ⟨hlog, rfl⟩, rfl⟩⟩

end

/-! ## Items -/

section

variable {host : Host} {d d' : Db} {now : Timestamp} {a : PushArgs} {revision : NewSyncRevision}
  {n : ℕ}

/-- A text that can be stored is bound. -/
theorem bindText_eq {s : String} (h : encodable s = true) : bindText s = .pure () := by
  rw [bindText, h]
  rfl

/-- A text of 64 characters that can be stored is bound. -/
theorem bindChar64_eq {s : String} (h : encodable s = true) (hlength : s.toList.length = 64) :
    bindChar64 s = .pure () := by
  rw [bindChar64, bindText_eq h, hlength]
  rfl

/-- A value that can be stored is bound. -/
theorem bindJson_eq {j : Json} (h : j.encodable = true) : bindJson j = .pure () := by
  rw [bindJson, h]
  rfl

/-- Statements that succeed do so with their parameters. -/
theorem run_statements {α : Type} {x : Tx α} {v : α} (h : x.run d = (.ok v, d')) :
    (statements x).run d = (.ok v, d') :=
  run_mapErr_ok_iff.mpr h

/-- A database on which a push can be executed: its user, its device and its project are there, and
its key has no record. -/
structure PushReady (a : PushArgs) (d : Db) : Prop where
  coherent : d.Coherent
  row : ∃ row, visibleProject (.app a.userId) a.projectId d = some row
  device : d.hasDevice a.deviceId a.userId = true
  user : d.users.any (·.id == a.userId) = true
  records : d.recordsFor a = []

/-- A result whose JSON can be written and stored. -/
def ResultBinds (host : Host) (result : PushItemResult) : Prop :=
  ∃ j, result.toJson host = some j ∧ j.encodable = true

/-- The texts that the host writes can be stored. -/
structure HostBinds (host : Host) : Prop where
  rfc3339 : ∀ t s, host.rfc3339 t = some s → encodable s = true
  digest : ∀ j, encodable (host.sha256Hex j) = true ∧ (host.sha256Hex j).toList.length = 64

/-- The name of a kind can be stored. -/
theorem encodable_asStr (kind : ObjectKind) : encodable kind.asStr = true := by
  cases kind <;> decide

/-- A payload is rejected with texts that can be stored. -/
theorem resultBinds_of_checkPayload {o : Option PayloadRow} {rejected : PushItemResult}
    (hid : encodable revision.id = true) (h : checkPayload revision o = .error rejected) :
    ResultBinds host rejected := by
  have hkind := encodable_asStr revision.kind
  unfold checkPayload at h
  split at h
  · cases h
    refine ⟨_, rfl, ?_⟩
    simp [Json.encodable, Json.membersEncodable, hid, hkind]
    decide
  · dsimp only at h
    split at h
    · cases h
      refine ⟨_, rfl, ?_⟩
      simp [Json.encodable, Json.membersEncodable, hid, hkind]
      decide
    · split at h
      · cases h
        refine ⟨_, rfl, ?_⟩
        simp [Json.encodable, Json.membersEncodable, hid, hkind]
        decide
      · cases h

/-- The payload that an item refers to, if its checks let it through. -/
def payloadOf (a : PushArgs) (revision : NewSyncRevision) (d : Db) :
    Except PushItemResult (Option Uuid) :=
  if revision.tombstone then .ok none
  else (checkPayload revision
    (revision.contentHash.bind (d.payload (.app a.userId) a.projectId))).map some

/-- The payload of an item is looked up and nothing is changed. -/
theorem run_itemPayload : (itemPayload a revision).run d = (.ok (payloadOf a revision d), d) := by
  unfold itemPayload payloadOf
  split
  · rfl
  · cases revision.contentHash <;> rfl

/-- An item whose payload is rejected is answered with texts that can be stored. -/
theorem resultBinds_of_payloadOf {rejected : PushItemResult} (hid : encodable revision.id = true)
    (h : payloadOf a revision d = .error rejected) : ResultBinds host rejected := by
  unfold payloadOf at h
  split at h
  · cases h
  · cases hcheck : checkPayload revision
      (revision.contentHash.bind (d.payload (.app a.userId) a.projectId)) with
    | error e =>
      rw [hcheck] at h
      cases h
      exact resultBinds_of_checkPayload hid hcheck
    | ok payloadId =>
      rw [hcheck] at h
      cases h

/-- A payload that is found is one of the project. -/
theorem mem_of_payload {role : DbRole} {p : Uuid} {contentHash : String} {x : PayloadRow}
    (h : d.payload role p contentHash = some x) : x ∈ d.payloads ∧ x.projectId = p := by
  unfold Db.payload at h
  obtain ⟨hfind, -⟩ := Option.filter_eq_some_iff.mp h
  have hp := List.find?_some hfind
  rw [Bool.and_eq_true, beq_iff_eq] at hp
  exact ⟨List.mem_of_find?_eq_some hfind, hp.1⟩

/-- A payload that the checks let through is the one that was found. -/
theorem checkPayload_eq_ok {o : Option PayloadRow} {payloadId : Uuid}
    (h : checkPayload revision o = .ok payloadId) : ∃ x, o = some x ∧ x.id = payloadId := by
  unfold checkPayload at h
  split at h
  · cases h
  · dsimp only at h
    split at h
    · cases h
    · split at h
      · cases h
      · cases h
        exact ⟨_, rfl, rfl⟩

/-- The revision of an item whose payload is let through satisfies the constraints. -/
theorem revisionBinds_itemRevision {payloadId : Option Uuid} (hd : PushReady a d)
    (hitem : ItemBinds host revision) (h : payloadOf a revision d = .ok payloadId)
    (actual : Option ℤ) : RevisionBinds d (itemRevision a revision actual payloadId) := by
  unfold payloadOf at h
  split at h
  · rename_i htombstone
    cases h
    refine ⟨.inl ⟨htombstone, rfl, ?_⟩, hd.device, nofun⟩
    rcases hitem.shape with ⟨-, hhash, hschema⟩ | ⟨hnot, -⟩
    · exact ⟨hhash, hschema⟩
    · rw [htombstone] at hnot
      cases hnot
  · rename_i htombstone
    rw [Bool.not_eq_true] at htombstone
    cases hcheck : checkPayload revision
      (revision.contentHash.bind (d.payload (.app a.userId) a.projectId)) with
    | error e =>
      rw [hcheck] at h
      cases h
    | ok i =>
      rw [hcheck] at h
      cases h
      obtain ⟨x, hx, rfl⟩ := checkPayload_eq_ok hcheck
      obtain ⟨contentHash, -, hfound⟩ := Option.bind_eq_some_iff.mp hx
      obtain ⟨hmem, hp⟩ := mem_of_payload hfound
      refine ⟨.inr ⟨htombstone, rfl, ?_⟩, hd.device, fun i hi => ?_⟩
      · rcases hitem.shape with ⟨htrue, -⟩ | ⟨-, hhash, hschema⟩
        · rw [htombstone] at htrue
          cases htrue
        · exact ⟨hhash, hschema⟩
      · cases hi
        exact ⟨x, hmem, rfl, hp⟩

/-! ## Batches -/

/-- The payload of an item that is applied: its base is the head revision of its object, and its
payload is let through. -/
def appliedPayload (a : PushArgs) (revision : NewSyncRevision) (d : Db) : Option (Option Uuid) :=
  if revision.baseRevision = headRevision (.app a.userId) a.projectId revision.kind revision.id d
  then (payloadOf a revision d).toOption
  else none

/-- An item that is applied has the current base and a payload. -/
theorem appliedPayload_eq_some {payloadId : Option Uuid}
    (h : appliedPayload a revision d = some payloadId) :
    revision.baseRevision = headRevision (.app a.userId) a.projectId revision.kind revision.id d ∧
      payloadOf a revision d = .ok payloadId := by
  unfold appliedPayload at h
  split at h
  · rename_i hbase
    cases hpayload : payloadOf a revision d with
    | error rejected =>
      rw [hpayload] at h
      cases h
    | ok i =>
      rw [hpayload] at h
      cases h
      exact ⟨hbase, rfl⟩
  · cases h

/-- Every item that is applied finds a sequence that fits its column, and its instant has a date in
UTC. -/
def BatchBinds (now : Timestamp) (a : PushArgs) : List NewSyncRevision → Db → Prop
  | [], _ => True
  | revision :: revisions, d =>
    match appliedPayload a revision d with
    | none => BatchBinds now a revisions d
    | some payloadId =>
      d.nextSequence a.projectId < 2 ^ 63 ∧ revision.changedAt.fitsUtc = true ∧
        BatchBinds now a revisions
          (d.appendNext now (itemRevision a revision revision.baseRevision payloadId))

/-- A number can be stored. -/
theorem encodable_ofOption_num (o : Option ℤ) : (Json.ofOption .num o).encodable = true := by
  cases o <;> rfl

/-- The content hash of an item is bound. -/
theorem bindOption_eq (hitem : ItemBinds host revision) :
    bindOption bindText (if revision.tombstone then none else revision.contentHash) = .pure () ∧
      bindOption bindChar64 revision.contentHash = .pure () := by
  cases hhash : revision.contentHash with
  | none => exact ⟨by split <;> rfl, rfl⟩
  | some contentHash =>
    obtain ⟨hencodable, hlength⟩ := hitem.hash _ hhash
    refine ⟨?_, bindChar64_eq hencodable hlength⟩
    split
    · rfl
    · exact bindText_eq hencodable

/-- An item whose base is the head revision of its object is answered by its payload. -/
theorem boundItem_run (now : Timestamp) (hitem : ItemBinds host revision)
    (hbase : revision.baseRevision =
      headRevision (.app a.userId) a.projectId revision.kind revision.id d) :
    (boundItem now a revision).run d = (match payloadOf a revision d with
      | .error rejected => Txn.pure rejected
      | .ok payloadId => boundAppend now a revision revision.baseRevision payloadId).run d := by
  unfold boundItem
  rw [bindText_eq hitem.id, (bindOption_eq hitem).1]
  simp only [bind_eq, pure_bind, query_bind, run_read, pure_eq]
  have hpayload : (statements (itemPayload a revision)).run d = (.ok (payloadOf a revision d), d) :=
    run_statements run_itemPayload
  rw [← hbase, if_neg (not_not.mpr rfl)]
  refine (run_bind_of_ok hpayload).trans ?_
  cases payloadOf a revision d <;> rfl

/-- An item that is not applied is answered, and changes nothing. -/
theorem run_boundItem_of_none (now : Timestamp) (hitem : ItemBinds host revision)
    (h : appliedPayload a revision d = none) :
    ∃ result, (boundItem now a revision).run d = (.ok result, d) ∧ ResultBinds host result := by
  unfold appliedPayload at h
  split at h
  · rename_i hbase
    rw [boundItem_run now hitem hbase]
    rcases hpayload : payloadOf a revision d with rejected | payloadId
    · exact ⟨rejected, rfl, resultBinds_of_payloadOf hitem.id hpayload⟩
    · rw [hpayload] at h
      cases h
  · rename_i hbase
    unfold boundItem
    rw [bindText_eq hitem.id]
    simp only [bind_eq, pure_bind, query_bind, run_read, pure_eq]
    rw [if_pos hbase]
    refine ⟨_, rfl, _, rfl, ?_⟩
    simp [Json.encodable, Json.membersEncodable, hitem.id, encodable_asStr, encodable_ofOption_num]
    decide

/-- Why items that do not bind fail: there is no sequence left, or an instant has no date in UTC. -/
def Refuses (revisions : List NewSyncRevision) (e : BindError) : Prop :=
  e = .outOfRange ∨
    e = .persistence .panicked ∧ ∃ revision ∈ revisions, revision.changedAt.fitsUtc = false

/-- A refused push is not a declared one. -/
theorem Refuses.not_isDeclared {revisions : List NewSyncRevision} {e : BindError}
    (h : Refuses revisions e) : isDeclared (.error e) = false := by
  rcases h with rfl | ⟨rfl, -⟩ <;> rfl

/-- An item refuses a longer push too. -/
theorem Refuses.mono {revisions revisions' : List NewSyncRevision} {e : BindError}
    (h : Refuses revisions e) (hsubset : revisions ⊆ revisions') : Refuses revisions' e :=
  h.imp_right fun ⟨he, revision, hmem, hfits⟩ => ⟨he, revision, hsubset hmem, hfits⟩

/-- The next sequence of a project is checked. -/
theorem run_checkSequence {row : ProjectRow} (hrow : d.project a.projectId = some row) :
    (checkSequence a.projectId).run d =
      (if d.nextSequence a.projectId < 2 ^ 63 then .ok () else .error .outOfRange, d) := by
  unfold checkSequence
  simp only [bind_eq, query_bind, run_read, run_require, Db.nextSequence, hrow, Option.all_some,
    Option.elim_some, decide_eq_true_eq]

/-- An item that is applied appends its revision, unless its sequence does not fit its column or its
instant has no date in UTC. -/
theorem run_boundAppend (now : Timestamp) (hd : PushReady a d) (hhost : HostBinds host)
    (hitem : ItemBinds host revision) {payloadId : Option Uuid} (hbase : revision.baseRevision =
      headRevision (.app a.userId) a.projectId revision.kind revision.id d)
    (hpayload : payloadOf a revision d = .ok payloadId) :
    (¬ d.nextSequence a.projectId < 2 ^ 63 →
      ((boundAppend now a revision revision.baseRevision payloadId).run d).1 =
        .error .outOfRange) ∧
    (d.nextSequence a.projectId < 2 ^ 63 → revision.changedAt.fitsUtc = false →
      ((boundAppend now a revision revision.baseRevision payloadId).run d).1 =
        .error (.persistence .panicked)) ∧
    (d.nextSequence a.projectId < 2 ^ 63 ∧ revision.changedAt.fitsUtc = true →
      ∃ result, (boundAppend now a revision revision.baseRevision payloadId).run d =
        (.ok result, d.appendNext now (itemRevision a revision revision.baseRevision payloadId)) ∧
        ResultBinds host result) := by
  obtain ⟨row, hrow⟩ := hd.row
  obtain ⟨hproject, -⟩ := visibleProject_eq_some_iff.mp hrow
  have hnext : d.nextSequence a.projectId = row.changeSeq + 1 := by
    simp [Db.nextSequence, hproject]
  -- The project accepts the revision, so only the binds can fail.
  obtain ⟨row', hrow', haccepts⟩ := accepts_itemRevision hd.coherent hrow hbase payloadId
  obtain rfl : row = row' := Option.some.inj (hproject.symm.trans hrow')
  have hbinds := revisionBinds_itemRevision hd hitem hpayload revision.baseRevision
  have happend : (statements (appendRevision (.app a.userId) now
      (itemRevision a revision revision.baseRevision payloadId))).run d = (.ok (row.changeSeq + 1),
        d.appendNext now (itemRevision a revision revision.baseRevision payloadId)) := by
    refine run_statements ?_
    rw [Db.appendNext]
    change _ = (_, d.append now (d.nextSequence a.projectId) _)
    rw [hnext]
    exact run_appendRevision hd.coherent hrow haccepts hbinds
  have hcheck := run_checkSequence hproject
  unfold boundAppend
  rw [bindText_eq hitem.id, (bindOption_eq hitem).2]
  simp only [bind_eq, pure_bind, pure_eq]
  refine ⟨fun hroom => ?_, fun hroom hfits => ?_, ?_⟩
  · rw [if_neg hroom] at hcheck
    rw [run_bind, hcheck]
  · rw [if_pos hroom] at hcheck
    rw [run_bind_of_ok hcheck, bindTime, hfits]
    rfl
  · rintro ⟨hroom, hfits⟩
    rw [if_pos hroom] at hcheck
    refine ⟨.applied revision.kind revision.id (revision.baseRevision.getD 0 + 1)
      (row.changeSeq + 1) revision.changedAt, ?_, ?_⟩
    · rw [run_bind_of_ok hcheck, bindTime, hfits]
      exact run_bind_of_ok happend
    · obtain ⟨text, htext⟩ := Option.isSome_iff_exists.mp hitem.encodes
      refine ⟨_, Option.bind_eq_some_iff.mpr ⟨text, htext, rfl⟩, ?_⟩
      simp [Json.encodable, Json.membersEncodable, hitem.id, encodable_asStr,
        hhost.rfc3339 _ _ htext]
      decide

/-- A push can still be executed after one of its items. -/
theorem PushReady.appendNext (hd : PushReady a d) {payloadId : Option Uuid}
    (hbase : revision.baseRevision =
      headRevision (.app a.userId) a.projectId revision.kind revision.id d) :
    PushReady a (d.appendNext now (itemRevision a revision revision.baseRevision payloadId)) := by
  obtain ⟨row, hrow⟩ := hd.row
  have haccepts := accepts_itemRevision hd.coherent hrow hbase payloadId
  obtain ⟨hproject, hrole⟩ := visibleProject_eq_some_iff.mp hrow
  have hproject' := congrArg ProjectData.project (Db.data_append d now
    (d.nextSequence a.projectId) (itemRevision a revision revision.baseRevision payloadId))
  refine ⟨haccepts.coherent hd.coherent,
    ⟨row.advance now, visibleProject_eq_some_iff.mpr ⟨hproject'.trans ?_, hrole⟩⟩, hd.device,
    hd.user, hd.records⟩
  exact congrArg (Option.map (·.advance now)) hproject

/-- Items that bind are answered with results that can be stored, and the push can go on. -/
theorem run_boundItems {revisions : List NewSyncRevision} (hd : PushReady a d)
    (hhost : HostBinds host) (hitems : ∀ revision ∈ revisions, ItemBinds host revision)
    (hbatch : BatchBinds now a revisions d) :
    ∃ results d', (boundItems now a revisions).run d = (.ok results, d') ∧
      (∀ result ∈ results, ResultBinds host result) ∧ PushReady a d' := by
  induction revisions generalizing d with
  | nil => exact ⟨[], d, rfl, by simp, hd⟩
  | cons revision revisions ih =>
    obtain ⟨hitem, hitems⟩ := List.forall_mem_cons.mp hitems
    -- The first item is answered, and the push can go on with the others.
    obtain ⟨result, d₁, hrun, hresult, hd₁, hrest⟩ : ∃ result d₁,
        (boundItem now a revision).run d = (.ok result, d₁) ∧ ResultBinds host result ∧
          PushReady a d₁ ∧ BatchBinds now a revisions d₁ := by
      unfold BatchBinds at hbatch
      cases happlied : appliedPayload a revision d with
      | none =>
        rw [happlied] at hbatch
        obtain ⟨result, hrun, hresult⟩ := run_boundItem_of_none now hitem happlied
        exact ⟨result, d, hrun, hresult, hd, hbatch⟩
      | some payloadId =>
        rw [happlied] at hbatch
        obtain ⟨hroom, hfits, hrest⟩ := hbatch
        obtain ⟨hbase, hpayload⟩ := appliedPayload_eq_some happlied
        obtain ⟨result, hrun, hresult⟩ :=
          (run_boundAppend now hd hhost hitem hbase hpayload).2.2 ⟨hroom, hfits⟩
        refine ⟨result, _, ?_, hresult, hd.appendNext hbase, hrest⟩
        rw [boundItem_run now hitem hbase, hpayload]
        exact hrun
    obtain ⟨results, d₂, hruns, hresults, hd₂⟩ := ih hd₁ hitems hrest
    refine ⟨result :: results, d₂, ?_, List.forall_mem_cons.mpr ⟨hresult, hresults⟩, hd₂⟩
    unfold boundItems
    exact (run_bind_of_ok hrun).trans (run_bind_of_ok hruns)

/-- Items that do not bind fail. -/
theorem run_boundItems_of_not {revisions : List NewSyncRevision} (hd : PushReady a d)
    (hhost : HostBinds host) (hitems : ∀ revision ∈ revisions, ItemBinds host revision)
    (hbatch : ¬ BatchBinds now a revisions d) :
    ∃ e, ((boundItems now a revisions).run d).1 = .error e ∧ Refuses revisions e := by
  induction revisions generalizing d with
  | nil => exact absurd trivial hbatch
  | cons revision revisions ih =>
    obtain ⟨hitem, hitems⟩ := List.forall_mem_cons.mp hitems
    unfold BatchBinds at hbatch
    unfold boundItems
    cases happlied : appliedPayload a revision d with
    | none =>
      rw [happlied] at hbatch
      obtain ⟨result, hrun, -⟩ := run_boundItem_of_none now hitem happlied
      obtain ⟨e, he, hrefuses⟩ := ih hd hitems hbatch
      exact ⟨e, (congrArg Prod.fst (run_bind_of_ok hrun)).trans (run_bind_error he),
        hrefuses.mono (List.subset_cons_self _ _)⟩
    | some payloadId =>
      rw [happlied] at hbatch
      obtain ⟨hbase, hpayload⟩ := appliedPayload_eq_some happlied
      obtain ⟨hrange, hpanics, happlies⟩ := run_boundAppend now hd hhost hitem hbase hpayload
      have hrun := boundItem_run now hitem hbase
      rw [hpayload] at hrun
      by_cases hbinds : d.nextSequence a.projectId < 2 ^ 63 ∧ revision.changedAt.fitsUtc = true
      · obtain ⟨result, happend, -⟩ := happlies hbinds
        have hrest : ¬ BatchBinds now a revisions
            (d.appendNext now (itemRevision a revision revision.baseRevision payloadId)) :=
          fun h => hbatch ⟨hbinds.1, hbinds.2, h⟩
        obtain ⟨e, he, hrefuses⟩ := ih (hd.appendNext hbase) hitems hrest
        exact ⟨e, (congrArg Prod.fst (run_bind_of_ok (hrun.trans happend))).trans
          (run_bind_error he), hrefuses.mono (List.subset_cons_self _ _)⟩
      · by_cases hroom : d.nextSequence a.projectId < 2 ^ 63
        · have hfits : revision.changedAt.fitsUtc = false := by
            rw [← Bool.not_eq_true]
            exact fun h => hbinds ⟨hroom, h⟩
          exact ⟨_, run_bind_error ((congrArg Prod.fst hrun).trans (hpanics hroom hfits)),
            .inr ⟨rfl, revision, List.mem_cons_self, hfits⟩⟩
        · exact ⟨_, run_bind_error ((congrArg Prod.fst hrun).trans (hrange hroom)), .inl rfl⟩

/-! ## Pushes -/

/-- The results of a batch make a response that can be written and stored. -/
theorem exists_pushResponseJson {results : List PushItemResult} (generation : ℤ)
    (h : ∀ result ∈ results, ResultBinds host result) :
    ∃ response, pushResponseJson host generation results = some response ∧
      response.encodable = true := by
  have hitems : ∃ items, results.mapM (PushItemResult.toJson host) = some items ∧
      Json.allEncodable items = true := by
    induction results with
    | nil => exact ⟨[], rfl, rfl⟩
    | cons result results ih =>
      obtain ⟨⟨j, hj, hencodable⟩, hresults⟩ := List.forall_mem_cons.mp h
      obtain ⟨items, hitems, hall⟩ := ih hresults
      refine ⟨j :: items, ?_, ?_⟩
      · rw [List.mapM_cons, hj, hitems]
        rfl
      · rw [Json.allEncodable, hencodable, hall]
        rfl
  obtain ⟨items, hitems, hall⟩ := hitems
  refine ⟨_, Option.bind_eq_some_iff.mpr ⟨items, hitems, rfl⟩, ?_⟩
  simp [Json.encodable, Json.membersEncodable, hall]
  decide

/-- The record of a push is stored. -/
theorem run_insertIdempotencyRecord (now : Timestamp) (hd : PushReady a d) {status : ℤ}
    (hstatus : 200 ≤ status ∧ status ≤ 599) (response : Json) :
    ∃ d', (insertIdempotencyRecord now a response status).run d = (.ok (), d') := by
  obtain ⟨row, hrow⟩ := hd.row
  obtain ⟨hproject, hrole⟩ := visibleProject_eq_some_iff.mp hrow
  refine ⟨_, run_insertRow_ok_iff.mpr ⟨firstViolation_eq_none_iff.mpr ?_, rfl⟩⟩
  simp only [List.forall_mem_cons, List.not_mem_nil, false_imp_iff, implies_true, and_true]
  refine ⟨by simpa using hstatus, by rw [hd.records]; rfl, hd.device, hd.user, ?_⟩
  rw [Db.hasProject, hproject]
  exact hrole

/-- The values of a record can be stored. -/
theorem bindRecord_eq (hhost : HostBinds host) (hpush : PushBinds host a) {response : Json}
    (hkey : encodable a.requestKey = true) (hresponse : response.encodable = true) :
    bindRecord a response = .pure () := by
  obtain ⟨j, hj⟩ := hpush.hash
  obtain ⟨hdigest, hlength⟩ := hhost.digest j
  rw [← hj] at hdigest hlength
  unfold bindRecord
  rw [bindText_eq hkey, bindChar64_eq hdigest hlength, bindJson_eq hresponse]
  rfl

/-- The failures that are stored can be stored. -/
theorem encodable_of_pushFailureResponse {error : PersistenceError} {status : ℤ} {response : Json}
    (h : pushFailureResponse error = some (status, response)) :
    (200 ≤ status ∧ status ≤ 599) ∧ response.encodable = true := by
  unfold pushFailureResponse at h
  split at h <;> cases h
  · exact ⟨by decide, by decide⟩
  · refine ⟨by decide, ?_⟩
    simp [Json.encodable, Json.membersEncodable]
    decide
  · exact ⟨by decide, by decide⟩

/-- Storing a failure succeeds, if it is one that is stored. -/
theorem run_boundStoreFailure (now : Timestamp) (hd : PushReady a d) (hhost : HostBinds host)
    (hpush : PushBinds host a) (hkey : encodable a.requestKey = true) {error : PersistenceError}
    {stored : ℤ × Json} (hstored : pushFailureResponse error = some stored) :
    ∃ d', (boundStoreFailure now a error).run d = (.ok true, d') := by
  obtain ⟨status, response⟩ := stored
  obtain ⟨hstatus, hresponse⟩ := encodable_of_pushFailureResponse hstored
  obtain ⟨d', hrun⟩ := run_insertIdempotencyRecord now hd hstatus response
  refine ⟨d', ?_⟩
  unfold boundStoreFailure storePushFailure
  rw [hstored]
  dsimp only
  rw [bindRecord_eq hhost hpush hkey hresponse]
  refine run_statements ?_
  exact run_bind_of_ok (run_mapConflict_ok_iff.mpr hrun)

/-- What a push returns, from what its transaction returns. -/
def flatten : Except BindError (Except PersistenceError PushOutcome) →
    Except BindError PushOutcome
  | .ok r => r.mapError .persistence
  | .error e => .error e

/-- A push is answered by its transaction, and an error of a parameter like one of the database. -/
theorem runPush_eq (host : Host) (now : Timestamp) (a : PushArgs) (d : Db) :
    (runPush host now a d).1 = flatten ((boundPush host now a).run d).1 := by
  unfold runPush execute
  rw [run_bind]
  rcases (boundPush host now a).run d with ⟨e | r, d'⟩
  · rfl
  · rfl

/-- The items of a push are executed: its key has no record, its project is active and has the
expected generation, and its device completed a bootstrap. -/
def GetsToItems (a : PushArgs) (d : Db) : Prop :=
  d.recordsFor a = [] ∧ ∃ row, visibleProject (.app a.userId) a.projectId d = some row ∧
    row.status = .active ∧ a.expectedGeneration = row.generation ∧
    bootstrapped a row.generation d = true

/-- A batch that binds is answered with its results. -/
theorem isDeclared_boundApply (hd : PushReady a d) (hhost : HostBinds host)
    (hpush : PushBinds host a) (hkey : encodable a.requestKey = true) (generation : ℤ)
    (hbatch : BatchBinds now a a.revisions d) :
    isDeclared (flatten ((boundApply host now a generation).run d).1) = true := by
  obtain ⟨results, d₁, hrun, hresults, hd₁⟩ := run_boundItems hd hhost hpush.items hbatch
  obtain ⟨response, hresponse, hencodable⟩ := exists_pushResponseJson generation hresults
  have hstatus : (200 : ℤ) ≤ 200 ∧ (200 : ℤ) ≤ 599 := by decide
  obtain ⟨d₂, hinsert⟩ := run_insertIdempotencyRecord now hd₁ hstatus response
  unfold boundApply
  simp only [bind_eq]
  rw [run_bind_of_ok hrun, hresponse]
  simp only [orThrow, pure_bind]
  rw [bindRecord_eq hhost hpush hkey hencodable, pure_bind,
    run_bind_of_ok (run_statements hinsert)]
  rfl

/-- A batch that does not bind fails the push. -/
theorem refuses_boundApply (hd : PushReady a d) (hhost : HostBinds host)
    (hpush : PushBinds host a) (generation : ℤ) (hbatch : ¬ BatchBinds now a a.revisions d) :
    ∃ e, flatten ((boundApply host now a generation).run d).1 = .error e ∧
      Refuses a.revisions e := by
  obtain ⟨e, he, hrefuses⟩ := run_boundItems_of_not hd hhost hpush.items hbatch
  refine ⟨e, ?_, hrefuses⟩
  unfold boundApply
  simp only [bind_eq]
  rw [run_bind_error he]
  rfl

/-- The state of a project that a user sees or does not see. -/
theorem run_requireActiveProjectForUpdate (role : DbRole) (p : Uuid) (d : Db) :
    (requireActiveProjectForUpdate role p).attempt.run d =
      (.ok (match visibleProject role p d with
        | none => .error .notFound
        | some row =>
          if row.status = .active then .ok (row.generation, row.changeSeq)
          else .error .projectMaintenance), d) := by
  rw [run_attempt]
  simp only [requireActiveProjectForUpdate, projectState, if_true, bind_eq, run_bind,
    run_selectForUpdate]
  cases visibleProject role p d with
  | none => rfl
  | some row =>
    simp only [run_orThrow, run_require, pure_eq, run_pure]
    by_cases hactive : row.status = .active
    · simp [hactive]
    · simp [hactive]

/-- A stored failure is declared. -/
theorem isDeclared_boundFail (hd : PushReady a d) (hhost : HostBinds host)
    (hpush : PushBinds host a) (hkey : encodable a.requestKey = true) {error : PersistenceError}
    {stored : ℤ × Json} (hstored : pushFailureResponse error = some stored) :
    isDeclared (flatten ((boundFail now a error).run d).1) = true := by
  obtain ⟨d', hrun⟩ := run_boundStoreFailure now hd hhost hpush hkey hstored
  unfold boundFail
  simp only [bind_eq, discard_eq, pure_eq]
  rw [run_bind_of_ok (run_bind_of_ok hrun)]
  cases error <;> first | rfl | cases hstored

/-- A push whose key has no record gets to its items, or it ends with a declared error. -/
theorem boundExecute_cases (hhost : HostBinds host) (hpush : PushBinds host a)
    (hkey : encodable a.requestKey = true) (hcoherent : d.Coherent)
    (hdevice : d.hasDevice a.deviceId a.userId = true)
    (huser : d.users.any (·.id == a.userId) = true) (hrecords : d.recordsFor a = []) :
    (GetsToItems a d ∧ PushReady a d ∧ ∃ generation, (boundExecute host now a).run d =
        (boundApply host now a generation).run d) ∨
      ¬ GetsToItems a d ∧ isDeclared (flatten ((boundExecute host now a).run d).1) = true := by
  have hstate := run_statements (run_requireActiveProjectForUpdate (.app a.userId) a.projectId d)
  unfold boundExecute
  simp only [bind_eq]
  rw [run_bind_of_ok hstate]
  cases hrow : visibleProject (.app a.userId) a.projectId d with
  | none =>
    refine .inr ⟨?_, rfl⟩
    rintro ⟨-, row, hrow', -⟩
    rw [hrow] at hrow'
    cases hrow'
  | some row =>
    have hd : PushReady a d := ⟨hcoherent, ⟨row, hrow⟩, hdevice, huser, hrecords⟩
    have hof : GetsToItems a d → row.status = .active ∧ a.expectedGeneration = row.generation ∧
        bootstrapped a row.generation d = true := by
      rintro ⟨-, row', hrow', h⟩
      obtain rfl : row = row' := Option.some.inj (hrow.symm.trans hrow')
      exact h
    by_cases hactive : row.status = .active
    · simp only [if_pos hactive]
      by_cases hgeneration : a.expectedGeneration = row.generation
      · rw [if_neg (not_not.mpr hgeneration)]
        simp only [query_bind, run_read]
        cases hbootstrapped : bootstrapped a row.generation d with
        | false =>
          rw [hbootstrapped] at hof
          exact .inr ⟨fun h => absurd (hof h).2.2 (by decide),
            isDeclared_boundFail hd hhost hpush hkey rfl⟩
        | true =>
          exact .inl ⟨⟨hrecords, row, hrow, hactive, hgeneration, hbootstrapped⟩, hd,
            row.generation, rfl⟩
      · rw [if_pos hgeneration]
        exact .inr ⟨fun h => hgeneration (hof h).2.1,
          isDeclared_boundFail hd hhost hpush hkey rfl⟩
    · simp only [if_neg hactive]
      have hstored : pushFailureResponse .projectMaintenance = some _ := rfl
      obtain ⟨d', hrun⟩ := run_boundStoreFailure now hd hhost hpush hkey hstored
      rw [run_bind_of_ok hrun]
      exact .inr ⟨fun h => hactive (hof h).1, rfl⟩

/-- Answering a push from a record is declared. -/
theorem isDeclared_replayPush (r : IdempotencyRecord) :
    isDeclared (flatten ((statements (replayPush host a r)).run d).1) = true := by
  unfold replayPush
  split
  · split <;> rfl
  · rfl

/-- A push whose key can be stored gets to its items, or it ends with a declared answer. -/
theorem runPush_cases (now : Timestamp) (hhost : HostBinds host) (hpush : PushBinds host a)
    (hd : d.Sound) (hdevice : d.hasDevice a.deviceId a.userId = true)
    (huser : d.users.any (·.id == a.userId) = true) (hkey : encodable a.requestKey = true) :
    (GetsToItems a (d.withoutExpired now a) ∧ PushReady a (d.withoutExpired now a) ∧
        ∃ generation, (runPush host now a d).1 =
          flatten ((boundApply host now a generation).run (d.withoutExpired now a)).1) ∨
      ¬ GetsToItems a (d.withoutExpired now a) ∧ isDeclared (runPush host now a d).1 = true := by
  have hdelete : (statements (deleteExpiredRecords now a)).run d =
      (.ok (), d.withoutExpired now a) := rfl
  have hsound := hd.withoutExpired now a
  rw [runPush_eq]
  unfold boundPush
  rw [bindText_eq hkey]
  simp only [bind_eq, pure_bind, acquire_bind, run_lock]
  rw [run_bind_of_ok hdelete]
  simp only [query_bind, run_read]
  cases hrecords : (d.withoutExpired now a).recordsFor a with
  | nil =>
    rcases boundExecute_cases hhost hpush hkey hsound.coherent hdevice huser hrecords
      with ⟨hgets, hready, generation, hrun⟩ | hdeclared
    · exact .inl ⟨hgets, hready, generation, congrArg (flatten ·.1) hrun⟩
    · exact .inr hdeclared
  | cons r rs =>
    refine .inr ⟨?_, isDeclared_replayPush r⟩
    rintro ⟨hnil, -⟩
    rw [hrecords] at hnil
    cases hnil

/-- A push whose key cannot be stored fails at its first statement. -/
theorem runPush_of_not_encodable (hkey : ¬ encodable a.requestKey = true) :
    (runPush host now a d).1 = .error .invalidText := by
  rw [Bool.not_eq_true] at hkey
  rw [runPush_eq]
  unfold boundPush
  rw [bindText, hkey]
  rfl

/-- A push ends with its results or with a declared error exactly when its key can be stored and,
if its items are executed, the batch binds. -/
theorem isDeclared_runPush (hhost : HostBinds host) (hpush : PushBinds host a) (hd : d.Sound)
    (hdevice : d.hasDevice a.deviceId a.userId = true)
    (huser : d.users.any (·.id == a.userId) = true) :
    isDeclared (runPush host now a d).1 = true ↔ encodable a.requestKey = true ∧
      (GetsToItems a (d.withoutExpired now a) →
        BatchBinds now a a.revisions (d.withoutExpired now a)) := by
  by_cases hkey : encodable a.requestKey = true
  · rw [and_iff_right hkey]
    rcases runPush_cases now hhost hpush hd hdevice huser hkey with
      ⟨hgets, hready, generation, hrun⟩ | ⟨hgets, hdeclared⟩
    · rw [hrun]
      refine ⟨fun hdeclared _ => ?_,
        fun h => isDeclared_boundApply hready hhost hpush hkey _ (h hgets)⟩
      by_contra hbatch
      obtain ⟨e, he, hrefuses⟩ := refuses_boundApply hready hhost hpush generation hbatch
      rw [he, hrefuses.not_isDeclared] at hdeclared
      cases hdeclared
    · exact iff_of_true hdeclared fun h => absurd h hgets
  · rw [runPush_of_not_encodable hkey]
    exact iff_of_false Bool.false_ne_true fun h => hkey h.1

/-- A push panics on an instant that has no date in UTC only. -/
theorem exists_of_runPush_panicked (hhost : HostBinds host) (hpush : PushBinds host a)
    (hd : d.Sound) (hdevice : d.hasDevice a.deviceId a.userId = true)
    (huser : d.users.any (·.id == a.userId) = true)
    (h : (runPush host now a d).1 = .error (.persistence .panicked)) :
    ∃ revision ∈ a.revisions, revision.changedAt.fitsUtc = false := by
  have hnot : ¬ isDeclared (runPush host now a d).1 = true := by
    rw [h]
    exact Bool.false_ne_true
  by_cases hkey : encodable a.requestKey = true
  · rcases runPush_cases now hhost hpush hd hdevice huser hkey with
      ⟨-, hready, generation, hrun⟩ | ⟨-, hdeclared⟩
    · rw [hrun] at h hnot
      have hbatch : ¬ BatchBinds now a a.revisions (d.withoutExpired now a) :=
        fun hbatch => hnot (isDeclared_boundApply hready hhost hpush hkey generation hbatch)
      obtain ⟨e, he, hrefuses⟩ := refuses_boundApply hready hhost hpush generation hbatch
      rw [h] at he
      cases he
      rcases hrefuses with hrange | ⟨-, hfits⟩
      · cases hrange
      · exact hfits
    · exact absurd hdeclared hnot
  · rw [runPush_of_not_encodable hkey] at h
    cases h

end

/-! ## Every accepted request -/

/-- On every reachable state, a push of a request that passes the checks of the route ends with its
results or with a declared error exactly when the identifier of the request has no NUL and, if its
items are executed, every item that is applied finds a sequence and has a date in UTC. -/
theorem push_isDeclared_iff {host : Host} (hhost : HostBinds host) {users : List UserRow}
    {w : World Db Lock PersistenceError Reply Request}
    (hw : (service host).Reachable (.initial users) w) {r : PushRequest}
    {userId deviceId projectId : Uuid} {a : PushArgs}
    (hargs : r.args host userId deviceId projectId = .ok a)
    (huser : w.committed.users.any (·.id == userId) = true)
    (hdevice : w.committed.hasDevice deviceId userId = true) (now : Timestamp) :
    isDeclared (runPush host now a w.committed).1 = true ↔
      '\x00' ∉ r.requestId.toList ∧ (GetsToItems a (w.committed.withoutExpired now a) →
        BatchBinds now a a.revisions (w.committed.withoutExpired now a)) := by
  obtain ⟨hpush, hu, hv, -, hkey⟩ := r.pushBinds hargs
  rw [← hu] at huser hdevice
  rw [← hv] at hdevice
  have hsound := hw.inv (relies_service host) (sound_initial users)
  rw [isDeclared_runPush hhost hpush hsound hdevice huser, hkey, encodable_iff]

/-- The sample host binds what it writes. -/
theorem hostBinds_sampleHost : HostBinds sampleHost where
  rfc3339 t s h := by
    unfold sampleHost at h
    dsimp only at h
    split at h
    · cases h
      decide
    · cases h
  digest j := by
    change encodable sampleDigest = true ∧ sampleDigest.toList.length = 64
    decide +kernel

/-- A request that creates a todo. -/
def sampleRequest (requestId : String) : PushRequest where
  requestId := requestId
  generation := 1
  objects := [⟨.todo, "01HZZZZZZZZZZZZZZZZZZZZZZZ", 1, 1, none, sampleDigest, ⟨0, 0⟩, 3⟩]
  tombstones := []

/-- The push of the request. -/
def sampleRequestPush (requestId : String) : PushArgs where
  userId := 1
  deviceId := 3
  projectId := 2
  expectedGeneration := 1
  requestKey := requestId
  requestHash := sampleDigest
  revisions := [sampleItem "01HZZZZZZZZZZZZZZZZZZZZZZZ" none false]

/-- The sample request is accepted with and without a NUL. -/
theorem args_sampleRequest :
    (sampleRequest "a").args sampleHost 1 3 2 = .ok (sampleRequestPush "a") ∧
      (sampleRequest "a\x00").args sampleHost 1 3 2 = .ok (sampleRequestPush "a\x00") :=
  ⟨rfl, rfl⟩

/-- The request is answered. -/
theorem sampleRequest_isDeclared :
    isDeclared (runPush sampleHost 1 (sampleRequestPush "a")
        (sampleWorld sampleSetup).committed).1 = true ∧
      (isDeclared (runPush sampleHost 1 (sampleRequestPush "a")
          (sampleWorld sampleSetup).committed).1 = true ↔
        '\x00' ∉ (sampleRequest "a").requestId.toList ∧
          (GetsToItems (sampleRequestPush "a")
              ((sampleWorld sampleSetup).committed.withoutExpired 1 (sampleRequestPush "a")) →
            BatchBinds 1 (sampleRequestPush "a") (sampleRequestPush "a").revisions
              ((sampleWorld sampleSetup).committed.withoutExpired 1 (sampleRequestPush "a")))) :=
  ⟨by decide +kernel, push_isDeclared_iff hostBinds_sampleHost
    (reachable_sampleWorld (by decide)) args_sampleRequest.1 (by decide +kernel)
    (by decide +kernel) 1⟩

/-- The identifier of a request may have a NUL, which no statement of its push can bind. -/
theorem request_not_isDeclared :
    ¬ ∀ (host : Host) (users : List UserRow) (w : World Db Lock PersistenceError Reply Request)
      (r : PushRequest) (userId deviceId projectId : Uuid) (a : PushArgs) (now : Timestamp),
      HostBinds host → (service host).Reachable (.initial users) w →
      r.args host userId deviceId projectId = .ok a →
      w.committed.users.any (·.id == userId) = true →
      w.committed.hasDevice deviceId userId = true →
      isDeclared (runPush host now a w.committed).1 = true := by
  intro h
  have hdeclared := h sampleHost [⟨1, .user, .active⟩] (sampleWorld sampleSetup)
    (sampleRequest "a\x00") 1 3 2 (sampleRequestPush "a\x00") 1 hostBinds_sampleHost
    (reachable_sampleWorld (by decide)) args_sampleRequest.2 (by decide +kernel)
    (by decide +kernel)
  exact absurd hdeclared (by decide +kernel)

end TaskTipsCloud

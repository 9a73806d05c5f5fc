import TaskTipsCloud.Library.Triples
import TaskTipsCloud.PushTotal
import TaskTipsCloud.SnapshotRestore

/-!
# What revisions keep

A revision that is not a tombstone refers to the row of its payload. Pushes and restores refer to
rows that they have read without a lock, while the worker deletes rows that it has found without
references. The foreign key and the lock that it takes make each revision refer to a row that stays:
no committed revision, in any interleaving, is without its payload.
-/

namespace TaskTipsCloud

open Txn

/-! ## What holds of every committed database -/

/-- The device of a revision is there, and its payload is registered with its content hash. -/
structure ObjectRevision.Backed (d : Db) (r : ObjectRevision) : Prop where
  device : d.hasDevice r.deviceId r.ownerUserId = true
  payload : r.isTombstone = true ∧ r.payloadId = none ∧ r.contentHash = none ∧
      r.schemaVersion = none ∨
    r.isTombstone = false ∧ ∃ x ∈ d.payloads, r.payloadId = some x.id ∧
      x.projectId = r.projectId ∧ r.contentHash = some x.contentHash ∧
        ∃ v, r.schemaVersion = some v ∧ 0 < v

/-- What holds of every committed database. An identifier of a payload is drawn for one content:
`drawn` tells for which project and for which content. -/
structure Db.Backed (drawn : Uuid → Uuid × String) (d : Db) : Prop where
  sound : d.Sound
  revisions : ∀ r ∈ d.objectRevisions, r.Backed d
  drawn : ∀ x ∈ d.payloads, drawn x.id = (x.projectId, x.contentHash)
  /-- A content of a project is registered once. -/
  single : ∀ x ∈ d.payloads, ∀ y ∈ d.payloads, x.projectId = y.projectId →
    x.contentHash = y.contentHash → x = y

/-- What a session with the locks `H` that reads the database `d` knows of the payloads and the
devices of the database `c` on which it commits. -/
structure Db.BackedRely (drawn : Uuid → Uuid × String) (H : Set Lock) (d c : Db) : Prop where
  rely : Db.Rely H d c
  backed : d.Backed drawn
  /-- A row that is locked is not deleted. -/
  row : ∀ i, Lock.payloadRow i ∈ H → ∀ x ∈ d.payloads, x.id = i → x ∈ c.payloads
  /-- A content is registered and collected under its advisory lock. -/
  digest : ∀ p h, Lock.payload p h ∈ H → ∀ x : PayloadRow, x.projectId = p → x.contentHash = h →
    (x ∈ d.payloads ↔ x ∈ c.payloads)
  devices : ∀ i u, d.hasDevice i u = true → c.hasDevice i u = true
  /-- A row that is locked gets no references. -/
  unreferenced : ∀ i, Lock.payloadRow i ∈ H → (∀ r ∈ d.objectRevisions, r.payloadId ≠ some i) →
    ∀ r ∈ c.objectRevisions, r.payloadId ≠ some i

section

variable {drawn : Uuid → Uuid × String} {H H' : Set Lock} {d d' d'' : Db}

/-- Others may change nothing. -/
theorem Db.BackedRely.refl (hd : d.Backed drawn) (H : Set Lock) : Db.BackedRely drawn H d d where
  rely := .refl hd.sound H
  backed := hd
  row _ _ _ hx _ := hx
  digest _ _ _ _ _ _ := .rfl
  devices _ _ := id
  unreferenced _ _ h := h

/-- What others do under the same locks, in two parts. -/
theorem Db.BackedRely.trans (h : Db.BackedRely drawn H d d') (h' : Db.BackedRely drawn H d' d'') :
    Db.BackedRely drawn H d d'' where
  rely := h.rely.trans h'.rely
  backed := h.backed
  row i hi x hx hid := h'.row i hi x (h.row i hi x hx hid) hid
  digest p a hl x hp ha := (h.digest p a hl x hp ha).trans (h'.digest p a hl x hp ha)
  devices i u hu := h'.devices i u (h.devices i u hu)
  unreferenced i hi hr := h'.unreferenced i hi (h.unreferenced i hi hr)

/-- What others may do under more locks they may do under fewer. -/
theorem Db.BackedRely.anti (hH : H ⊆ H') (h : Db.BackedRely drawn H' d d') :
    Db.BackedRely drawn H d d' where
  rely := h.rely.anti hH
  backed := h.backed
  row i hi := h.row i (hH hi)
  digest p a hl := h.digest p a (hH hl)
  devices := h.devices
  unreferenced i hi := h.unreferenced i (hH hi)

end

/-! ## The writes that append revisions -/

/-- The writes made so far leave the payloads and the devices. The revisions that are there after
them are backed on the database `c` on which they are committed, and the payload rows of those that
were not there before are locked. -/
structure Retaining (c : Db) (H : Set Lock) (b : Db → Db) : Prop where
  payloads : ∀ d, (b d).payloads = d.payloads
  devices : ∀ d i u, (b d).hasDevice i u = d.hasDevice i u
  revisions : ∀ r ∈ (b c).objectRevisions, r.Backed c
  locked : ∀ r ∈ (b c).objectRevisions, r ∈ c.objectRevisions ∨
    ∀ i, r.payloadId = some i → Lock.payloadRow i ∈ H

/-- A write that leaves the payloads, the devices and the revisions. -/
structure Spares (w : Db → Db) : Prop where
  payloads : ∀ d, (w d).payloads = d.payloads
  devices : ∀ d i u, (w d).hasDevice i u = d.hasDevice i u
  revisions : ∀ d, (w d).objectRevisions = d.objectRevisions

section

variable {drawn : Uuid → Uuid × String} {c : Db} {H : Set Lock} {now : Timestamp}
  {b w : Db → Db}

/-- A write that spares the payloads keeps them retained. -/
theorem Retaining.comp (hb : Retaining c H b) (hw : Spares w) : Retaining c H (w ∘ b) where
  payloads d := (hw.payloads _).trans (hb.payloads d)
  devices d i u := (hw.devices _ i u).trans (hb.devices d i u)
  revisions r hr := hb.revisions r (hw.revisions _ ▸ hr)
  locked r hr := hb.locked r (hw.revisions _ ▸ hr)

/-- A further lock keeps them retained. -/
theorem Retaining.insert (hb : Retaining c H b) (l : Lock) : Retaining c (insert l H) b where
  payloads := hb.payloads
  devices := hb.devices
  revisions := hb.revisions
  locked r hr := (hb.locked r hr).imp_right fun h i hi => Set.mem_insert_of_mem _ (h i hi)

/-- A lock upholds the retention. -/
theorem upholds_lock (l : Lock) :
    Upholds (Db.BackedRely drawn) c (Retaining c) (acquire l : Tx Unit) fun _ => True :=
  upholds_acquire (fun _ _ hb => hb.insert l) trivial

/-- So does a write that spares the payloads. -/
theorem upholds_write (hw : Spares w) :
    Upholds (Db.BackedRely drawn) c (Retaining c) (modify w : Tx Unit) fun _ => True :=
  upholds_modify (fun _ _ hb => hb.comp hw) trivial

/-- So does the insertion of a row. -/
theorem upholds_insertRow {refused : Db → Option DatabaseError} (hw : Spares w) :
    Upholds (Db.BackedRely drawn) c (Retaining c) (insertRow refused w) fun _ => True := by
  refine Upholds.bind (Q := fun _ => True) (upholds_query fun _ _ _ _ _ => trivial) fun o _ => ?_
  cases o with
  | some e => exact upholds_throw _
  | none => exact upholds_write hw

/-- So does the selection of a row for update. -/
theorem upholds_selectForUpdate {α : Type} (l : Lock) (row : Db → Option α) :
    Upholds (Db.BackedRely drawn) c (Retaining c) (selectForUpdate l row) fun _ => True := by
  refine Upholds.bind (Q := fun _ => True) (upholds_query fun _ _ _ _ _ => trivial) fun o _ => ?_
  cases o with
  | none => exact upholds_pure trivial
  | some _ =>
    exact (upholds_lock l).bind fun _ _ => upholds_query fun _ _ _ _ _ => trivial

/-- So does a statement whose conflicts have another name. -/
theorem upholds_mapConflict {α : Type} {x : Tx α}
    (hx : Upholds (Db.BackedRely drawn) c (Retaining c) x fun _ => True) :
    Upholds (Db.BackedRely drawn) c (Retaining c) (mapConflict x) fun _ => True := by
  refine Upholds.bind (Q := fun _ => True)
    (hx.attempt (fun _ _ => trivial) fun _ => trivial) fun r _ => ?_
  cases r with
  | ok a => exact upholds_pure trivial
  | error e => exact upholds_throw _

/-- A payload that was registered for a project and a content when a session read it. -/
def SeenPayload (drawn : Uuid → Uuid × String) (p : Uuid) (contentHash : String) (i : Uuid) :
    Prop :=
  ∃ (d : Db) (x : PayloadRow), d.Backed drawn ∧ x ∈ d.payloads ∧ x.id = i ∧ x.projectId = p ∧
    x.contentHash = contentHash

/-- The revisions that a session inserts refer to payloads that it has seen. -/
def ObjectRevision.Refers (drawn : Uuid → Uuid × String) (r : ObjectRevision) : Prop :=
  ∀ i, r.payloadId = some i → ∃ contentHash, r.contentHash = some contentHash ∧
    SeenPayload drawn r.projectId contentHash i

/-- A revision that no constraint refuses, when the row of its payload is locked, is backed on the
database on which it is committed. -/
theorem backed_of_revisionRefused {r : ObjectRevision} {d : Db} (hc : c.Backed drawn)
    (hb : Retaining c H b) (hr : r.Refers drawn) (hd : Db.BackedRely drawn H d c)
    (hlock : ∀ i, r.payloadId = some i → Lock.payloadRow i ∈ H)
    (hrefused : revisionRefused r (b d) = none) : r.Backed c := by
  rw [revisionRefused, firstViolation_eq_none_iff] at hrefused
  simp only [List.forall_mem_cons, List.not_mem_nil, false_imp_iff, implies_true, and_true]
    at hrefused
  obtain ⟨-, hshape, -, hschema, -, hdevice, hforeign, -⟩ := hrefused
  refine ⟨hd.devices _ _ (hb.devices d _ _ ▸ hdevice), ?_⟩
  rw [Bool.or_eq_true] at hshape
  rcases hshape with hshape | hshape
  · left
    simpa [and_assoc] using hshape
  · right
    simp only [Bool.and_eq_true, Bool.not_eq_true', Option.isSome_iff_exists] at hshape
    obtain ⟨⟨⟨htombstone, i, hi⟩, hash, hhash⟩, v, hv⟩ := hshape
    rw [hi, Option.all_some, hb.payloads, List.any_eq_true] at hforeign
    obtain ⟨x, hx, hxi⟩ := hforeign
    rw [Bool.and_eq_true, beq_iff_eq, beq_iff_eq] at hxi
    have hxc : x ∈ c.payloads := hd.row i (hlock i hi) x hx hxi.1
    -- The identifier was drawn for the content that was seen.
    obtain ⟨hash', hhash', d₀, y, hd₀, hy, hyi, hyp, hyh⟩ := hr i hi
    have hdrawn : (x.projectId, x.contentHash) = (y.projectId, y.contentHash) := by
      rw [← hc.drawn x hxc, ← hd₀.drawn y hy, hxi.1, hyi]
    rw [hv, Option.all_some, decide_eq_true_iff] at hschema
    refine ⟨htombstone, x, hxc, by rw [hi, hxi.1], hxi.2, ?_, v, hv, hschema⟩
    rw [hhash', (Prod.mk.inj hdrawn).2, hyh]

/-- The foreign key finds the row of a payload under its lock, where it stays. -/
theorem upholds_insertRevision {r : ObjectRevision} (hc : c.Backed drawn) (hr : r.Refers drawn) :
    Upholds (Db.BackedRely drawn) c (Retaining c) (insertRevision r) fun _ => True := by
  intro H H' b b' result hb hruns
  refine ⟨?_, fun _ _ => trivial⟩
  unfold insertRevision at hruns
  simp only [bind_eq] at hruns
  -- The lock of the row is held when the constraints are checked.
  have hlocked {K K' : Set Lock} {b₁ b₂ : Db → Db} {res : Except PersistenceError Unit}
      (hkeep : Runs (Db.BackedRely drawn) c (keepPayloadRow r.payloadId) K b₁ res K' b₂)
      (hb₁ : Retaining c K b₁) :
      Retaining c K' b₂ ∧ ∀ i, r.payloadId = some i → Lock.payloadRow i ∈ K' := by
    cases hp : r.payloadId with
    | none =>
      rw [hp] at hkeep
      obtain ⟨-, rfl, rfl⟩ := runs_pure_iff.mp hkeep
      exact ⟨hb₁, fun i hi => (by cases hi)⟩
    | some i =>
      rw [hp] at hkeep
      obtain ⟨-, rfl, rfl⟩ := runs_acquire_iff.mp hkeep
      exact ⟨hb₁.insert _, fun j hj => by cases hj; exact Set.mem_insert _ _⟩
  rcases runs_bind_iff.mp hruns with ⟨e, he, -⟩ | ⟨_, K, b₁, hkeep, hrest⟩
  · exact (hlocked he hb).1
  obtain ⟨hb₁, hlock⟩ := hlocked hkeep hb
  rcases runs_bind_iff.mp hrest with ⟨e, he, -⟩ | ⟨_, K', b₂, hinsert, hend⟩
  · rcases runs_bind_iff.mp he with ⟨e', he', -⟩ | ⟨o, K₁, b₃, hquery, hthen⟩
    · obtain ⟨_, -, -, rfl, rfl⟩ := runs_query_iff.mp he'
      exact hb₁
    · obtain ⟨_, -, -, rfl, rfl⟩ := runs_query_iff.mp hquery
      cases o with
      | some e' =>
        obtain ⟨-, rfl, rfl⟩ := runs_throw_iff.mp hthen
        exact hb₁
      | none => exact absurd (runs_modify_iff.mp hthen).1 (by simp)
  obtain ⟨-, rfl, rfl⟩ := runs_pure_iff.mp hend
  obtain ⟨rfl, rfl, d, hd, hrefused⟩ := runs_insertRow hinsert
  refine ⟨hb₁.payloads, hb₁.devices, fun x hx => ?_, fun x hx => ?_⟩
  · rcases List.mem_append.mp hx with hx | hx
    · exact hb₁.revisions x hx
    obtain rfl := List.mem_singleton.mp hx
    exact backed_of_revisionRefused hc hb₁ hr hd hlock hrefused
  · rcases List.mem_append.mp hx with hx | hx
    · exact hb₁.locked x hx
    obtain rfl := List.mem_singleton.mp hx
    exact .inr hlock

/-! ## Pushes -/

/-- An update of a project spares the payloads. -/
theorem spares_updateProject (p : Uuid) (f : ProjectRow → ProjectRow) :
    Spares (·.updateProject p f) :=
  ⟨fun _ => rfl, fun _ _ _ => rfl, fun _ => rfl⟩

/-- The reading of a project upholds the retention. -/
theorem upholds_projectState (role : DbRole) (p : Uuid) (forUpdate : Bool) :
    Upholds (Db.BackedRely drawn) c (Retaining c) (projectState role p forUpdate)
      fun _ => True := by
  have hend (o : Option ProjectRow) : Upholds (Db.BackedRely drawn) c (Retaining c)
      (((orThrow .notFound o).bind fun row => (require (row.status == .active)
        .projectMaintenance).bind fun _ => .pure (row.generation, row.changeSeq)) : Tx (ℤ × ℤ))
      fun _ => True :=
    (upholds_orThrow (Q := fun _ => True) fun _ _ => trivial).bind fun _ _ =>
      (upholds_require (Q := fun _ => True) fun _ => trivial).bind fun _ _ => upholds_pure trivial
  cases forUpdate with
  | false =>
    exact (upholds_query (Q := fun _ => True) fun _ _ _ _ _ => trivial).bind fun o _ => hend o
  | true => exact (upholds_selectForUpdate _ _).bind fun o _ => hend o

/-- So does the insertion of a head. -/
theorem upholds_upsertHead (h : ObjectHead) :
    Upholds (Db.BackedRely drawn) c (Retaining c) (upsertHead h) fun _ => True :=
  upholds_write ⟨fun _ => rfl, fun _ _ _ => rfl, fun _ => rfl⟩

/-- So does the insertion of an entry of the log. -/
theorem upholds_insertLogEntry (entry : ChangeLogEntry) :
    Upholds (Db.BackedRely drawn) c (Retaining c) (insertLogEntry entry) fun _ => True :=
  upholds_insertRow ⟨fun _ => rfl, fun _ _ _ => rfl, fun _ => rfl⟩

/-- Appending a revision that refers to a payload that was seen. -/
theorem upholds_appendRevision {role : DbRole} {r : ObjectRevision} (hc : c.Backed drawn)
    (hr : r.Refers drawn) :
    Upholds (Db.BackedRely drawn) c (Retaining c) (appendRevision role now r) fun _ => True := by
  have hnext : Upholds (Db.BackedRely drawn) c (Retaining c)
      (nextChangeSequence role now r.projectId) fun _ => True :=
    (upholds_query (Q := fun _ => True) fun _ _ _ _ _ => trivial).bind fun o _ =>
      (upholds_orThrow (Q := fun _ => True) fun _ _ => trivial).bind fun row _ =>
        (upholds_write (spares_updateProject _ _)).bind fun _ _ => upholds_pure trivial
  refine hnext.bind fun sequence _ => (upholds_insertRevision hc hr).bind fun revisionId _ => ?_
  refine (upholds_upsertHead _).bind fun _ _ => ?_
  exact (upholds_insertLogEntry _).bind fun _ _ => upholds_pure trivial

/-- The payload that a session reads under its writes is one that it sees. -/
theorem seen_of_payload {d : Db} {role : DbRole} {p : Uuid} {contentHash : String} {x : PayloadRow}
    (hb : Retaining c H b) (hd : d.Backed drawn) (h : (b d).payload role p contentHash = some x) :
    SeenPayload drawn p contentHash x.id := by
  unfold Db.payload at h
  obtain ⟨hfind, -⟩ := Option.filter_eq_some_iff.mp h
  have hp := List.find?_some hfind
  rw [Bool.and_eq_true, beq_iff_eq, beq_iff_eq] at hp
  rw [hb.payloads] at hfind
  exact ⟨d, x, hd, List.mem_of_find?_eq_some hfind, rfl, hp.1, hp.2⟩

/-- The payload that an item of a push refers to was seen. -/
theorem upholds_itemPayload (a : PushArgs) (revision : NewSyncRevision) (actual : Option ℤ) :
    Upholds (Db.BackedRely drawn) c (Retaining c) (itemPayload a revision) fun o =>
      ∀ payloadId, o = .ok payloadId → (itemRevision a revision actual payloadId).Refers drawn := by
  unfold itemPayload
  split
  · refine upholds_pure fun payloadId h i hi => ?_
    obtain rfl := Except.ok.inj h
    cases hi
  · cases hhash : revision.contentHash with
    | none =>
      refine upholds_pure fun payloadId h => ?_
      cases h
    | some contentHash =>
      refine Upholds.bind
        (Q := fun o => ∀ x, o = some x → SeenPayload drawn a.projectId contentHash x.id)
        (upholds_query fun _ _ d hb hd x hx => seen_of_payload hb hd.backed hx) fun o ho => ?_
      refine upholds_pure fun payloadId h i hi => ?_
      cases hcheck : checkPayload revision o with
      | error rejected =>
        rw [hcheck] at h
        cases h
      | ok payloadId' =>
        rw [hcheck] at h
        obtain rfl := Except.ok.inj h
        obtain rfl := Option.some.inj hi
        obtain ⟨x, hx, hxi⟩ := checkPayload_eq_ok hcheck
        exact ⟨contentHash, hhash, hxi ▸ ho x hx⟩

/-- An item of a push upholds the retention. -/
theorem upholds_pushItem (hc : c.Backed drawn) (a : PushArgs) (revision : NewSyncRevision) :
    Upholds (Db.BackedRely drawn) c (Retaining c) (pushItem now a revision) fun _ => True := by
  refine Upholds.bind (Q := fun _ => True) (upholds_query fun _ _ _ _ _ => trivial)
    fun actual _ => ?_
  split
  · exact upholds_pure trivial
  · refine (upholds_itemPayload a revision actual).bind fun o ho => ?_
    cases o with
    | error rejected => exact upholds_pure trivial
    | ok payloadId =>
      exact (upholds_appendRevision hc (ho payloadId rfl)).bind fun _ _ => upholds_pure trivial

/-- So do all its items. -/
theorem upholds_pushItems (hc : c.Backed drawn) (a : PushArgs) (revisions : List NewSyncRevision) :
    Upholds (Db.BackedRely drawn) c (Retaining c) (pushItems now a revisions) fun _ => True := by
  induction revisions with
  | nil => exact upholds_pure trivial
  | cons revision revisions ih =>
    exact (upholds_pushItem hc a revision).bind fun _ _ => ih.bind fun _ _ => upholds_pure trivial

/-- So does the record of a push. -/
theorem upholds_insertIdempotencyRecord (a : PushArgs) (response : Json) (status : ℤ) :
    Upholds (Db.BackedRely drawn) c (Retaining c) (insertIdempotencyRecord now a response status)
      fun _ => True :=
  upholds_insertRow ⟨fun _ => rfl, fun _ _ _ => rfl, fun _ => rfl⟩

/-- So does the record of a failure. -/
theorem upholds_storePushFailure (a : PushArgs) (error : PersistenceError) :
    Upholds (Db.BackedRely drawn) c (Retaining c) (storePushFailure now a error) fun _ => True := by
  unfold storePushFailure
  cases pushFailureResponse error with
  | none => exact upholds_pure trivial
  | some response =>
    exact (upholds_mapConflict (upholds_insertIdempotencyRecord a response.2 response.1)).bind
      fun _ _ => upholds_pure trivial

/-- A change of a device that leaves its identifier and its owner. -/
theorem Db.hasDevice_updateDevice (d : Db) {role : DbRole} {deviceId i u : Uuid}
    {f : DeviceRow → DeviceRow} (hf : ∀ v, (f v).id = v.id ∧ (f v).ownerUserId = v.ownerUserId) :
    (d.updateDevice role deviceId f).hasDevice i u = d.hasDevice i u := by
  unfold hasDevice updateDevice
  rw [find?_updateWhere fun v _ => by rw [(hf v).1]]
  cases d.devices.find? (·.id == i) with
  | none => rfl
  | some v =>
    rw [Option.map_some, Option.any_some, Option.any_some]
    split
    · rw [(hf v).2]
    · rfl

/-- An executed push upholds the retention. -/
theorem upholds_executePush (hc : c.Backed drawn) (host : Host) (a : PushArgs) :
    Upholds (Db.BackedRely drawn) c (Retaining c) (executePush host now a) fun _ => True := by
  have hfail (error : PersistenceError) : Upholds (Db.BackedRely drawn) c (Retaining c)
      (failPush now a error) fun _ => True := by
    refine Upholds.bind (Q := fun _ => True) ?_ fun _ _ => upholds_pure trivial
    exact (upholds_storePushFailure a error).bind fun _ _ => upholds_pure trivial
  refine Upholds.bind (Q := fun _ => True)
    ((upholds_projectState _ _ true).attempt (fun _ _ => trivial) fun _ => trivial) fun r _ => ?_
  cases r with
  | error error =>
    refine (upholds_storePushFailure a error).bind fun stored _ => ?_
    cases stored with
    | true => exact upholds_pure trivial
    | false => exact upholds_throw _
  | ok state =>
    dsimp only
    split
    · exact hfail _
    · refine Upholds.bind (Q := fun _ => True) (upholds_query fun _ _ _ _ _ => trivial)
        fun done _ => ?_
      cases done with
      | false => exact hfail _
      | true =>
        refine (upholds_pushItems hc a a.revisions).bind fun results _ => ?_
        refine (upholds_orThrow (Q := fun _ => True) fun _ _ => trivial).bind fun response _ => ?_
        refine (upholds_insertIdempotencyRecord a response 200).bind fun _ _ => ?_
        refine Upholds.bind (Q := fun _ => True) (upholds_write ⟨fun _ => rfl, fun d i u => ?_,
          fun _ => rfl⟩) fun _ _ => upholds_pure trivial
        exact d.hasDevice_updateDevice fun _ => ⟨rfl, rfl⟩

/-- So does the removal of expired records. -/
theorem upholds_deleteExpiredRecords (a : PushArgs) :
    Upholds (Db.BackedRely drawn) c (Retaining c) (deleteExpiredRecords now a) fun _ => True :=
  upholds_write ⟨fun _ => rfl, fun _ _ _ => rfl, fun _ => rfl⟩

/-- A push appends revisions whose payloads stay. -/
theorem upholds_pushWithOutcome (hc : c.Backed drawn) (host : Host) (a : PushArgs) :
    Upholds (Db.BackedRely drawn) c (Retaining c) (pushWithOutcome host now a) fun _ => True := by
  refine (upholds_lock _).bind fun _ _ => ?_
  refine (upholds_deleteExpiredRecords a).bind fun _ _ => ?_
  refine Upholds.bind (Q := fun _ => True) (upholds_query fun _ _ _ _ _ => trivial) fun rs _ => ?_
  cases rs.head? with
  | none => exact upholds_executePush hc host a
  | some r =>
    dsimp only
    unfold replayPush
    split
    · split
      · exact upholds_pure trivial
      · exact upholds_pure trivial
    · exact upholds_throw _

/-! ## Restores -/

/-- The payload of a restored item was seen. -/
theorem upholds_restorePayload (now : Timestamp) (p ownerUserId : Uuid) (item : ManifestItem)
    (actual : ℤ) :
    Upholds (Db.BackedRely drawn) c (Retaining c) (restorePayload p item) fun payloadId =>
      (restoredRevision now p ownerUserId item actual payloadId).Refers drawn := by
  unfold restorePayload
  split
  · refine upholds_pure fun i hi => ?_
    cases hi
  · refine Upholds.bind (Q := fun contentHash => item.contentHash = some contentHash)
      (upholds_orThrow fun contentHash h => h) fun contentHash hhash => ?_
    refine Upholds.bind (Q := fun o => ∀ x, o = some x → SeenPayload drawn p contentHash x.id)
      (upholds_query fun _ _ d hb hd x hx => seen_of_payload hb hd.backed hx) fun o ho => ?_
    refine Upholds.bind (Q := fun x => o = some x) (upholds_orThrow fun x h => h) fun x hx => ?_
    refine upholds_pure fun i hi => ?_
    obtain rfl := Option.some.inj hi
    exact ⟨contentHash, hhash, ho x hx⟩

/-- The items of a restore uphold the retention. -/
theorem upholds_restoreItems (hc : c.Backed drawn) (p ownerUserId : Uuid)
    (current : List ManifestRow) (items : List ManifestItem) (counts : RestoredCounts) :
    Upholds (Db.BackedRely drawn) c (Retaining c)
      (restoreItems now p ownerUserId current items counts) fun _ => True := by
  induction items generalizing counts with
  | nil => exact upholds_pure trivial
  | cons item items ih =>
    unfold restoreItems
    dsimp only
    split
    · exact ih counts
    · refine (upholds_restorePayload now p ownerUserId item
        ((existingRow current item).elim 0 (·.revision))).bind fun payloadId hrefers => ?_
      refine Upholds.bind (Q := fun _ => True) ?_ fun _ _ => ih _
      exact (upholds_appendRevision hc hrefers).bind fun _ _ => upholds_pure trivial

/-- So does an audit event. -/
theorem upholds_insertAudit (event : AuditEvent) :
    Upholds (Db.BackedRely drawn) c (Retaining c) (insertAudit event) fun _ => True :=
  upholds_insertRow ⟨fun _ => rfl, fun _ _ _ => rfl, fun _ => rfl⟩

/-- An update of a job spares the payloads. -/
theorem spares_updateRestoreJob (jobId : Uuid) (f : RestoreJob → RestoreJob) :
    Spares (·.updateRestoreJob jobId f) :=
  ⟨fun _ => rfl, fun _ _ _ => rfl, fun _ => rfl⟩

/-- The reading of a restore's target upholds the retention. -/
theorem upholds_restoreTarget (order : ScanOrder) (job : RestoreJob) :
    Upholds (Db.BackedRely drawn) c (Retaining c) (restoreTarget order job) fun _ => True := by
  unfold restoreTarget
  cases job.snapshotId with
  | some snapshotId =>
    refine Upholds.bind (Q := fun _ => True) (upholds_query fun _ _ _ _ _ => trivial) fun o _ => ?_
    refine Upholds.bind (Q := fun _ => True) (upholds_orThrow fun _ _ => trivial)
      fun manifest _ => ?_
    cases manifestItems manifest with
    | error e => exact upholds_throw _
    | ok items => exact upholds_pure trivial
  | none =>
    cases job.targetChangeSequence with
    | none => exact upholds_throw _
    | some sequence =>
      exact Upholds.bind (Q := fun _ => True) (upholds_query fun _ _ _ _ _ => trivial) fun _ _ =>
        upholds_pure trivial

/-- A restore appends revisions whose payloads stay. -/
theorem upholds_executeRestoreWithLease (hc : c.Backed drawn) (targetOrder currentOrder : ScanOrder)
    (jobId leaseToken : Uuid) : Upholds (Db.BackedRely drawn) c (Retaining c)
      (executeRestoreWithLease now targetOrder currentOrder jobId leaseToken) fun _ => True := by
  refine (upholds_selectForUpdate _ _).bind fun o _ => ?_
  refine Upholds.bind (Q := fun _ => True) (upholds_orThrow fun _ _ => trivial) fun job _ => ?_
  refine Upholds.bind (Q := fun _ => True) (upholds_require fun _ => trivial) fun _ _ => ?_
  refine (upholds_selectForUpdate _ _).bind fun o' _ => ?_
  refine Upholds.bind (Q := fun _ => True) (upholds_orThrow fun _ _ => trivial) fun project _ => ?_
  refine (upholds_restoreTarget _ _).bind fun target _ => ?_
  refine Upholds.bind (Q := fun _ => True) (upholds_query fun _ _ _ _ _ => trivial)
    fun current _ => ?_
  refine (upholds_restoreItems hc _ _ _ _ _).bind fun counts _ => ?_
  refine Upholds.bind (Q := fun _ => True) ?_ fun _ _ => upholds_pure trivial
  refine (upholds_write (spares_updateProject _ _)).bind fun _ _ => ?_
  exact (upholds_write (spares_updateRestoreJob _ _)).bind fun _ _ => upholds_insertAudit _

/-! ## Uploads and collections -/

/-- What a finished request did to the rows of the payloads, with the locks that it held. -/
inductive PayloadStep (drawn : Uuid → Uuid × String) (H : Set Lock) (d d' : Db) : Prop
  | kept (h : d'.payloads = d.payloads)
  | registered {x : PayloadRow} (h : d'.payloads = d.payloads ++ [x])
      (hdrawn : drawn x.id = (x.projectId, x.contentHash))
      (hlock : Lock.payload x.projectId x.contentHash ∈ H)
      (hnew : ∀ y ∈ d.payloads, y.projectId = x.projectId → y.contentHash ≠ x.contentHash)
  | collected {x : PayloadRow} (h : d'.payloads = d.payloads.filter fun y => !(y == x))
      (hrevisions : d'.objectRevisions = d.objectRevisions) (hrow : Lock.payloadRow x.id ∈ H)
      (hlock : Lock.payload x.projectId x.contentHash ∈ H)
      (hunreferenced : ∀ r ∈ d.objectRevisions, r.payloadId ≠ some x.id)

/-- What a query for a payload finds. -/
theorem mem_of_unreferencedPayload {d : Db} {p : Uuid} {contentHash : String}
    {olderThan : Timestamp} {x : PayloadRow}
    (h : unreferencedPayload p contentHash olderThan d = some x) :
    x ∈ d.payloads ∧ x.projectId = p ∧ x.contentHash = contentHash := by
  unfold unreferencedPayload Db.payload at h
  obtain ⟨hfind, -⟩ := Option.filter_eq_some_iff.mp (Option.filter_eq_some_iff.mp h).1
  have hp := List.find?_some hfind
  rw [Bool.and_eq_true, beq_iff_eq, beq_iff_eq] at hp
  exact ⟨List.mem_of_find?_eq_some hfind, hp.1, hp.2⟩

/-- No revision names a payload that is collected. -/
theorem unreferenced_of_unreferencedPayload {d : Db} {p : Uuid} {contentHash : String}
    {olderThan : Timestamp} {x : PayloadRow}
    (h : unreferencedPayload p contentHash olderThan d = some x) :
    ∀ r ∈ d.objectRevisions, r.payloadId ≠ some x.id := by
  obtain ⟨-, hx⟩ := Option.filter_eq_some_iff.mp h
  simpa using (Bool.and_eq_true_iff.mp hx).2

/-- A content that no session has registered is registered under its lock. -/
theorem payloadStep_registerPayload {userId projectId payloadId : Uuid} {payload : StoredPayload}
    {r : Except PersistenceError Unit} (hdrawn : drawn payloadId = (projectId, payload.contentHash))
    (h : Runs (Db.BackedRely drawn) c (registerPayload now userId projectId payloadId payload) ∅ id
      (.ok r) H b) : PayloadStep drawn H c (b c) := by
  unfold registerPayload at h
  rw [bind_eq, acquire_bind, runs_lock_iff] at h
  obtain ⟨-, row, -, -, h⟩ := runs_lockRow h
  obtain ⟨_, _, _, hrequire, h⟩ := runs_bind_ok_iff.mp h
  obtain ⟨-, rfl, rfl⟩ := runs_require_iff.mp hrequire
  rw [bind_eq, query_bind, runs_read_iff] at h
  obtain ⟨d, hd, h⟩ := h
  rw [id] at h
  split at h
  · obtain ⟨-, -, rfl⟩ := runs_pure_iff.mp h
    exact .kept rfl
  · rename_i hnone
    obtain ⟨_, _, _, hinsert, hend⟩ := runs_bind_ok_iff.mp h
    obtain ⟨-, rfl, rfl⟩ := runs_pure_iff.mp hend
    obtain ⟨rfl, rfl, -⟩ := runs_insertRow hinsert
    have hlock : Lock.payload projectId payload.contentHash ∈
        insert (Lock.project projectId) (insert (Lock.payload projectId payload.contentHash) ∅) :=
      Set.mem_insert_of_mem _ (Set.mem_insert _ _)
    refine .registered rfl hdrawn hlock fun y hy hyp hyh => ?_
    -- What is registered at the commit was registered when the session looked.
    have hseen : y ∈ d.payloads := (hd.digest _ _ hlock y hyp hyh).mpr hy
    refine hnone (List.any_eq_true.mpr ⟨y, hseen, ?_⟩)
    rw [Bool.and_eq_true, beq_iff_eq, beq_iff_eq]
    exact ⟨hyp, hyh⟩

/-- A collection deletes at most the row that it has found, locked and seen unreferenced. -/
theorem payloadStep_collectPayload {projectId : Uuid} {contentHash : String} {olderThan : Timestamp}
    {r : Except PersistenceError Unit} (hc : c.Backed drawn)
    (h : Runs (Db.BackedRely drawn) c (collectPayload projectId contentHash olderThan) ∅ id
      (.ok r) H b) : PayloadStep drawn H c (b c) := by
  unfold collectPayload at h
  simp only [bind_eq, acquire_bind, runs_lock_iff, query_bind, runs_read_iff] at h
  obtain ⟨d, hd, h⟩ := h
  have hlock : Lock.payload projectId contentHash ∈ insert (Lock.payload projectId contentHash) ∅ :=
    Set.mem_insert _ _
  rw [id] at h
  cases hfound : unreferencedPayload projectId contentHash olderThan d with
  | none =>
    rw [hfound] at h
    obtain ⟨-, -, rfl⟩ := runs_pure_iff.mp h
    exact .kept rfl
  | some found =>
    rw [hfound] at h
    obtain ⟨hfoundMem, hp, hh⟩ := mem_of_unreferencedPayload hfound
    have hfoundc : found ∈ c.payloads := (hd.digest _ _ hlock found hp hh).mp hfoundMem
    obtain ⟨o, H₁, b₁, hselect, h⟩ := runs_bind_ok_iff.mp h
    obtain ⟨d₁, -, ⟨-, ho, rfl, rfl⟩ | ⟨-, d₂, hd₂, ho, rfl, rfl⟩⟩ :=
      runs_selectForUpdate_iff.mp hselect
    · obtain rfl := Except.ok.inj ho
      obtain ⟨-, -, rfl⟩ := runs_pure_iff.mp h
      exact .kept rfl
    obtain rfl := Except.ok.inj ho
    rw [id] at h
    cases hagain : unreferencedPayload projectId contentHash olderThan d₂ with
    | none =>
      rw [hagain] at h
      obtain ⟨-, -, rfl⟩ := runs_pure_iff.mp h
      exact .kept rfl
    | some y =>
      rw [hagain] at h
      obtain ⟨-, rfl, rfl⟩ := runs_pure_iff.mp (runs_write_iff.mp h)
      -- A content has one row, so the row that is locked is the one that is found again.
      have hlock₂ := Set.mem_insert_of_mem (Lock.payloadRow found.id) hlock
      obtain ⟨hy, hyp, hyh⟩ := mem_of_unreferencedPayload hagain
      have hyc : y ∈ c.payloads := (hd₂.digest _ _ hlock₂ y hyp hyh).mp hy
      obtain rfl : found = y :=
        hc.single found hfoundc y hyc (hp.trans hyp.symm) (hh.trans hyh.symm)
      have hunreferenced := hd₂.unreferenced found.id (Set.mem_insert _ _)
        (unreferenced_of_unreferencedPayload hagain)
      refine .collected (x := found) ?_ rfl (Set.mem_insert _ _) (by rw [hp, hh]; exact hlock₂)
        hunreferenced
      refine List.filter_congr fun z hz => congrArg (!·) ?_
      rw [Bool.eq_iff_iff, beq_iff_eq]
      simp only [Bool.and_eq_true, beq_iff_eq, List.all_eq_true, bne_iff_ne, id]
      constructor
      · rintro ⟨⟨hzp, hzh⟩, -⟩
        exact hc.single z hz found hfoundc (hzp.trans hp.symm) (hzh.trans hh.symm)
      · rintro rfl
        exact ⟨⟨hp, hh⟩, hunreferenced⟩

/-! ## Every call keeps what the others rely on -/

/-- The writes of a body leave every device that is there. -/
def deviceWrite (_ : Set Lock) (w : Db → Db) : Prop :=
  ∀ d i u, d.hasDevice i u = true → (w d).hasDevice i u = true

/-- The registration of a device writes devices only. -/
theorem guarded_registerDevice (userId deviceId : Uuid) :
    (registerDevice userId deviceId).Guarded deviceWrite ∅ fun _ _ => True := by
  refine guarded_query_bind fun d => ?_
  cases d.device deviceId with
  | some device => exact guarded_require_bind fun _ => trivial
  | none =>
    refine guarded_bind_iff.mpr (guarded_mapConflict
      (guarded_insertRow_iff.mpr fun _ _ => ⟨?_, trivial⟩))
    intro d i u h
    unfold Db.hasDevice at h ⊢
    rw [List.find?_append]
    cases hfind : d.devices.find? (·.id == i) with
    | none =>
      rw [hfind] at h
      cases h
    | some v =>
      rw [hfind] at h
      exact h

/-- An update of a device writes devices only. -/
theorem deviceWrite_updateDevice {role : DbRole} {deviceId : Uuid} {f : DeviceRow → DeviceRow}
    (hf : ∀ v, (f v).id = v.id ∧ (f v).ownerUserId = v.ownerUserId) :
    deviceWrite H (·.updateDevice role deviceId f) :=
  fun d _ _ h => (d.hasDevice_updateDevice hf).trans h

/-- The revocation of a device writes devices only. -/
theorem guarded_revokeDevice (userId deviceId : Uuid) (requestId : String) :
    (revokeDevice now userId deviceId requestId).Guarded deviceWrite ∅ fun _ _ => True := by
  refine guarded_query_bind fun d => guarded_orThrow_bind fun device _ => ⟨?_, ?_⟩
  · exact deviceWrite_updateDevice fun _ => ⟨rfl, rfl⟩
  · exact guarded_insertRow_bind (fun _ _ _ => id) trivial

/-- A pull writes devices only. -/
theorem guarded_pullPage (a : PullArgs) :
    (pullPage now a).Guarded deviceWrite ∅ fun _ _ => True := by
  refine guarded_projectState.bind fun state H _ _ => ?_
  refine guarded_require_bind fun _ => guarded_require_bind fun _ => guarded_query_bind fun d => ?_
  exact ⟨deviceWrite_updateDevice fun _ => ⟨rfl, rfl⟩, trivial⟩

/-- What a body leaves of the devices when its writes do. -/
theorem hasDevice_of_guarded {α : Type} {R : Set Lock → Db → Db → Prop} {x : Tx α}
    {r : Except PersistenceError α} (hx : x.Guarded deviceWrite ∅ fun _ _ => True)
    (h : Runs R c x ∅ id r H b) (i u : Uuid) (hi : c.hasDevice i u = true) :
    (b c).hasDevice i u = true :=
  h.guarded (W := deviceWrite) (fun _ hw => hw) (fun hw hw' d i u h => hw' _ i u (hw d i u h)) hx
    (fun _ _ _ => id) c i u hi

/-- What a finished request did to the revisions and to what they refer to, with the locks that it
held. -/
structure RetentionStep (drawn : Uuid → Uuid × String) (H : Set Lock) (d d' : Db) : Prop where
  payloads : PayloadStep drawn H d d'
  devices : ∀ i u, d.hasDevice i u = true → d'.hasDevice i u = true
  revisions : ∀ r ∈ d'.objectRevisions, r ∈ d.objectRevisions ∨
    r.Backed d ∧ ∀ i, r.payloadId = some i → Lock.payloadRow i ∈ H

/-- A retaining transaction commits a step that retains. -/
theorem Retaining.step (h : Retaining c H b) : RetentionStep drawn H c (b c) where
  payloads := .kept (h.payloads c)
  devices i u hi := (h.devices c i u).trans hi
  revisions r hr := (h.locked r hr).imp_right fun hlock => ⟨h.revisions r hr, hlock⟩

/-- A table that is not among those touched stays: the revisions. -/
theorem Db.Touches.objectRevisions {T : List Table} {d d' : Db} (h : d.Touches T d')
    (hT : .objectRevisions ∉ T) : d'.objectRevisions = d.objectRevisions :=
  (congrArg Db.objectRevisions h).trans (if_neg hT)

/-- A request that writes to none of the tables. -/
theorem retentionStep_of_touches {T : List Table} {d d' : Db} (h : d.Touches T d')
    (hpayloads : .payloads ∉ T) (hdevices : .devices ∉ T) (hrevisions : .objectRevisions ∉ T) :
    RetentionStep drawn H d d' where
  payloads := .kept (h.payloads hpayloads)
  devices i u hi := by
    unfold Db.hasDevice at hi ⊢
    rwa [h.devices hdevices]
  revisions r hr := .inl (h.objectRevisions hrevisions ▸ hr)

/-- A revision stays backed when its payload and its device stay. -/
theorem ObjectRevision.Backed.mono {d d' : Db} {r : ObjectRevision} (h : r.Backed d)
    (hdevices : ∀ i u, d.hasDevice i u = true → d'.hasDevice i u = true)
    (hpayloads : ∀ x ∈ d.payloads, r.payloadId = some x.id → x ∈ d'.payloads) : r.Backed d' := by
  refine ⟨hdevices _ _ h.device, h.payload.imp_right fun hx => ?_⟩
  obtain ⟨htombstone, x, hx, hi, hrest⟩ := hx
  exact ⟨htombstone, x, hpayloads x hx hi, hi, hrest⟩

/-- The payload of a revision that is there stays. -/
theorem RetentionStep.mem_payloads {d d' : Db} {r : ObjectRevision}
    (h : RetentionStep drawn H d d') (hr : r ∈ d'.objectRevisions) :
    ∀ x ∈ d.payloads, r.payloadId = some x.id → x ∈ d'.payloads := by
  intro x hx hi
  cases h.payloads with
  | kept h => exact h ▸ hx
  | registered h => exact h ▸ List.mem_append_left _ hx
  | @collected y h hrevisions hrow hlock hunreferenced =>
    rw [h, List.mem_filter, Bool.not_eq_true', beq_eq_false_iff_ne]
    refine ⟨hx, ?_⟩
    rintro rfl
    exact hunreferenced r (hrevisions ▸ hr) hi

/-- What holds of every committed database holds after the step. -/
theorem RetentionStep.backed {d d' : Db} (h : RetentionStep drawn H d d') (hd : d.Backed drawn)
    (hsound : d'.Sound) : d'.Backed drawn where
  sound := hsound
  revisions r hr := by
    have hbacked : r.Backed d := (h.revisions r hr).elim (hd.revisions r) And.left
    exact hbacked.mono h.devices (h.mem_payloads hr)
  drawn x hx := by
    cases h.payloads with
    | kept h => exact hd.drawn x (h ▸ hx)
    | registered h hdrawn =>
      rw [h] at hx
      rcases List.mem_append.mp hx with hx | hx
      · exact hd.drawn x hx
      · obtain rfl := List.mem_singleton.mp hx
        exact hdrawn
    | collected h =>
      rw [h] at hx
      exact hd.drawn x (List.mem_filter.mp hx).1
  -- A payload is registered only when its project has none of its hash.
  single x hx y hy hp hh := by
    cases h.payloads with
    | kept h => exact hd.single x (h ▸ hx) y (h ▸ hy) hp hh
    | registered h hdrawn hlock hnew =>
      rw [h] at hx hy
      rcases List.mem_append.mp hx with hx | hx
      · rcases List.mem_append.mp hy with hy | hy
        · exact hd.single x hx y hy hp hh
        · rw [List.mem_singleton.mp hy] at hp hh
          exact absurd hh (hnew x hx hp)
      · rw [List.mem_singleton.mp hx] at hp hh ⊢
        rcases List.mem_append.mp hy with hy | hy
        · exact absurd hh.symm (hnew y hy hp.symm)
        · exact (List.mem_singleton.mp hy).symm
    | collected h =>
      rw [h] at hx hy
      exact hd.single x (List.mem_filter.mp hx).1 y (List.mem_filter.mp hy).1 hp hh

/-- Other sessions rely on the step. -/
theorem RetentionStep.rely {K : Set Lock} {d d' : Db} (h : RetentionStep drawn H d d')
    (hd : d.Backed drawn) (hrely : Db.Rely K d d') (hK : Disjoint K H) :
    Db.BackedRely drawn K d d' where
  rely := hrely
  backed := hd
  row i hi x hx hxi := by
    have hfree : Lock.payloadRow i ∉ H := Set.disjoint_left.mp hK hi
    cases h.payloads with
    | kept h => exact h ▸ hx
    | registered h => exact h ▸ List.mem_append_left _ hx
    | @collected y h hrevisions hrow =>
      rw [h, List.mem_filter, Bool.not_eq_true', beq_eq_false_iff_ne]
      refine ⟨hx, ?_⟩
      rintro rfl
      exact hfree (hxi ▸ hrow)
  digest p a hl x hp ha := by
    have hfree : Lock.payload p a ∉ H := Set.disjoint_left.mp hK hl
    subst hp ha
    cases h.payloads with
    | kept h => rw [h]
    | @registered y h hdrawn hlock =>
      rw [h, List.mem_append, List.mem_singleton, or_iff_left]
      rintro rfl
      exact hfree hlock
    | @collected y h hrevisions hrow hlock =>
      rw [h, List.mem_filter, Bool.not_eq_true', beq_eq_false_iff_ne]
      refine (and_iff_left ?_).symm
      rintro rfl
      exact hfree hlock
  devices := h.devices
  unreferenced i hi hr r hmem := by
    rcases h.revisions r hmem with hr' | ⟨-, hlock⟩
    · exact hr r hr'
    · exact fun hi' => Set.disjoint_left.mp hK hi (hlock i hi')

/-- The identifier that the database draws for the row of a payload, with its project and its
content hash. -/
def Call.draws : Call → Option (Uuid × Uuid × String)
  | .registerPayload _ projectId payloadId payload =>
    some (payloadId, projectId, payload.contentHash)
  | _ => none

/-- Every call that commits does one step. -/
theorem retentionStep_of_runs {host : Host} {call : Call} {r : Except PersistenceError Reply}
    (hc : c.Backed drawn)
    (hcall : ∀ i content, call.draws = some (i, content) → drawn i = content)
    (h : Runs (Db.BackedRely drawn) c (call.body host now) ∅ id (.ok r) H b) :
    RetentionStep drawn H c (b c) := by
  have hruns : Runs Db.Rely c (call.body host now) ∅ id (.ok r) H b := h.mono fun _ _ h => h.rely
  have htouches : c.Touches call.tables (b c) :=
    (eventEffect_of_outcome (e := ⟨⟨now, call⟩, r, c, b c, 0⟩) hc.sound
      ⟨H, b, .inl ⟨hruns, rfl⟩⟩ : EventEffect host _).touches
  have hinitial : Retaining c ∅ id :=
    ⟨fun _ => rfl, fun _ _ _ => rfl, hc.revisions, fun _ hr => .inl hr⟩
  cases call with
  | registerDevice userId deviceId =>
    obtain ⟨_, hrun, -⟩ := runs_replying_iff.mp h
    exact ⟨.kept (htouches.payloads (by simp [Call.tables])),
      hasDevice_of_guarded (guarded_registerDevice userId deviceId) hrun,
      fun x hx => .inl (htouches.objectRevisions (by simp [Call.tables]) ▸ hx)⟩
  | revokeDevice userId deviceId requestId =>
    obtain ⟨_, hrun, -⟩ := runs_replying_iff.mp h
    exact ⟨.kept (htouches.payloads (by simp [Call.tables])),
      hasDevice_of_guarded (guarded_revokeDevice userId deviceId requestId) hrun,
      fun x hx => .inl (htouches.objectRevisions (by simp [Call.tables]) ▸ hx)⟩
  | pullPage a =>
    obtain ⟨_, hrun, -⟩ := runs_replying_iff.mp h
    exact ⟨.kept (htouches.payloads (by simp [Call.tables])),
      hasDevice_of_guarded (guarded_pullPage a) hrun,
      fun x hx => .inl (htouches.objectRevisions (by simp [Call.tables]) ▸ hx)⟩
  | registerPayload userId projectId payloadId payload =>
    obtain ⟨_, hrun, -⟩ := runs_replying_iff.mp h
    have hdevices : (b c).devices = c.devices := htouches.devices (by simp [Call.tables])
    exact ⟨payloadStep_registerPayload (hcall _ _ rfl) hrun,
      fun i u hi => by unfold Db.hasDevice at hi ⊢; rwa [hdevices],
      fun x hx => .inl (htouches.objectRevisions (by simp [Call.tables]) ▸ hx)⟩
  | collectPayload projectId contentHash olderThan =>
    obtain ⟨_, hrun, -⟩ := runs_replying_iff.mp h
    have hdevices : (b c).devices = c.devices := htouches.devices (by simp [Call.tables])
    exact ⟨payloadStep_collectPayload hc hrun,
      fun i u hi => by unfold Db.hasDevice at hi ⊢; rwa [hdevices],
      fun x hx => .inl (htouches.objectRevisions (by simp [Call.tables]) ▸ hx)⟩
  | pushWithOutcome a =>
    obtain ⟨_, hrun, -⟩ := runs_replying_iff.mp h
    exact (upholds_pushWithOutcome hc host a hinitial hrun).1.step
  | executeRestoreWithLease targetOrder currentOrder jobId leaseToken =>
    obtain ⟨_, hrun, -⟩ := runs_replying_iff.mp h
    exact (upholds_executeRestoreWithLease hc targetOrder currentOrder jobId leaseToken hinitial
      hrun).1.step
  -- No other call writes to the payloads, the devices or the revisions.
  | _ =>
    exact retentionStep_of_touches htouches (by simp [Call.tables]) (by simp [Call.tables])
      (by simp [Call.tables])

/-- The requests that are made: an identifier that the database draws for the row of a payload is
drawn for one content only. -/
def Request.Draws (drawn : Uuid → Uuid × String) (q : Request) : Prop :=
  ∀ i content, q.call.draws = some (i, content) → drawn i = content

/-- The service, whose database draws the identifiers of payloads. -/
def drawingService (host : Host) (drawn : Uuid → Uuid × String) :
    Service Db Lock PersistenceError Reply Request :=
  { service host with Allowed := fun q => q.Draws drawn }

variable {host : Host}

/-- What the calls rely on, they keep for each other. -/
theorem relies_backed (host : Host) (drawn : Uuid → Uuid × String) :
    (drawingService host drawn).Relies (Db.Backed drawn) (Db.BackedRely drawn) where
  refl H _ hd := .refl hd H
  trans := Db.BackedRely.trans
  anti := Db.BackedRely.anti
  commit {q c r H b} hq hc h := by
    have hruns : Runs Db.Rely c (q.call.body host q.now) ∅ id (.ok r) H b :=
      h.mono fun _ _ h => h.rely
    have hstep := retentionStep_of_runs hc hq h
    have hsound := Call.sound hc.sound hruns
    exact ⟨hstep.backed hc hsound,
      fun K hK => hstep.rely hc ((Call.moves hruns).rely hc.sound hK) hK⟩

/-- Without revisions the database is backed. -/
theorem backed_initial (users : List UserRow) : (Db.initial users).Backed drawn :=
  ⟨sound_initial users, fun _ hr => (by cases hr), fun _ hx => (by cases hx),
    fun _ hx => (by cases hx)⟩

/-- A finished request had an outcome on what every session relies on. -/
theorem outcome_of_drawing {R : Set Lock → Db → Db → Prop} {e : SyncEvent}
    (hR : ∀ H d, R H d e.before → Db.Rely H d e.before)
    (h : (drawingService host drawn).Outcome R e) : (service host).Outcome Db.Rely e := by
  obtain ⟨H, b, ⟨hruns, hafter⟩ | ⟨x, hruns, hresult, hafter⟩⟩ := h
  · exact ⟨H, b, .inl ⟨hruns.mono hR, hafter⟩⟩
  · exact ⟨H, b, .inr ⟨x, hruns.mono hR, hresult, hafter⟩⟩

/-- A finished request did one step, and took no revision away. -/
theorem retentionStep_of_outcome {e : SyncEvent} (hq : e.request.Draws drawn)
    (hb : e.before.Backed drawn)
    (h : (drawingService host drawn).Outcome (Db.BackedRely drawn) e) :
    (∃ H, RetentionStep drawn H e.before e.after) ∧
      ∀ r ∈ e.before.objectRevisions, r ∈ e.after.objectRevisions := by
  have houtcome := outcome_of_drawing (fun _ _ h => h.rely) h
  constructor
  · obtain ⟨H, b, ⟨hruns, hafter⟩ | ⟨-, -, -, hafter⟩⟩ := h
    · rw [hafter]
      exact ⟨H, retentionStep_of_runs hb hq hruns⟩
    · rw [hafter]
      exact ⟨∅, .kept rfl, fun _ _ => id, fun _ hr => .inl hr⟩
  · intro r hr
    have hgrow :=
      ((eventEffect_of_outcome hb.sound houtcome).projectStep r.projectId).revisions_grow
    exact (List.mem_filter.mp (hgrow.subset (List.mem_filter.mpr ⟨hr, beq_self_eq_true _⟩))).1

/-- What a query for the content of a backed revision finds is the row of its payload. -/
theorem Db.Backed.payload_eq {d : Db} (hd : d.Backed drawn) {x : PayloadRow} (hx : x ∈ d.payloads) :
    d.payload .worker x.projectId x.contentHash = some x := by
  unfold Db.payload
  cases hfind : d.payloads.find? fun p =>
      p.projectId == x.projectId && p.contentHash == x.contentHash with
  | none =>
    have hnone := List.find?_eq_none.mp hfind x hx
    simp at hnone
  | some y =>
    have hy := List.find?_some hfind
    rw [Bool.and_eq_true, beq_iff_eq, beq_iff_eq] at hy
    rw [hd.single y (List.mem_of_find?_eq_some hfind) x hx hy.1 hy.2]
    rfl

/-- In every world, whatever uploads, pushes, restores and collections interleave, every committed
revision that is not a tombstone has the row of its payload, and a restore that looks for its
content finds it; no later request deletes the row of a revision that was committed once. -/
theorem revisions_keep_payloads {users : List UserRow}
    {w : World Db Lock PersistenceError Reply Request}
    (hw : (drawingService host drawn).Reachable (.initial users) w) :
    (∀ r ∈ w.committed.objectRevisions, r.isTombstone = false → ∃ contentHash x,
      r.contentHash = some contentHash ∧ r.payloadId = some x.id ∧
        w.committed.payload .worker r.projectId contentHash = some x) ∧
    ∀ e ∈ w.history, ∀ r ∈ e.after.objectRevisions, ∀ x ∈ e.after.payloads,
      r.payloadId = some x.id → r ∈ w.committed.objectRevisions ∧ x ∈ w.committed.payloads := by
  have hrelies := relies_backed host drawn
  have htrail := hw.trail hrelies (backed_initial users)
  have hbacked := hw.inv hrelies (backed_initial users)
  constructor
  · intro r hr htombstone
    rcases (hbacked.revisions r hr).payload with ⟨hother, -⟩ | ⟨-, x, hx, hi, hp, hhash, -⟩
    · rw [htombstone] at hother
      cases hother
    · exact ⟨x.contentHash, x, hhash, hi, hp ▸ hbacked.payload_eq hx⟩
  · refine htrail.invariant (J := fun h d => ∀ e ∈ h, ∀ r ∈ e.after.objectRevisions,
      ∀ x ∈ e.after.payloads, r.payloadId = some x.id → r ∈ d.objectRevisions ∧ x ∈ d.payloads)
      (by simp) fun h e _ _ hallowed hout hbefore _ ih => ?_
    obtain ⟨⟨H, hstep⟩, hgrow⟩ := retentionStep_of_outcome hallowed hbefore hout
    intro e' he' r hr x hx hi
    rcases List.mem_append.mp he' with he' | he'
    · obtain ⟨hr', hx'⟩ := ih e' he' r hr x hx hi
      exact ⟨hgrow r hr', hstep.mem_payloads (hgrow r hr') x hx' hi⟩
    · rw [List.mem_singleton.mp he'] at hr hx
      exact ⟨hr, hx⟩

end

/-! ## A sample run -/

/-- Requests are served alike, whatever the identifiers that are drawn. -/
theorem serve_drawing {host : Host} {drawn : Uuid → Uuid × String} (requests : List Request)
    (w : World Db Lock PersistenceError Reply Request) :
    (drawingService host drawn).serve requests w = (service host).serve requests w := by
  induction requests generalizing w with
  | nil => rfl
  | cons q requests ih => exact ih _

/-- A sample run in which the identifiers of payloads are drawn as `drawn` tells. -/
theorem reachable_drawing {drawn : Uuid → Uuid × String} {requests : List Request}
    (htimes : (0 :: requests.map (·.now)).Pairwise (· ≤ ·))
    (hdrawn : ∀ x ∈ requests.filterMap (·.call.draws), drawn x.1 = x.2) :
    (drawingService sampleHost drawn).Reachable sampleStart (sampleWorld requests) := by
  rw [sampleWorld, ← serve_drawing]
  refine Service.reachable_serve ⟨0, .refl⟩ (fun _ => rfl) requests (fun q hq i content hcall => ?_)
    htimes
  exact hdrawn (i, content) (List.mem_filterMap.mpr ⟨q, hq, hcall⟩)

/-- Two objects are pushed and one is deleted again; then their payload is collected, or not. -/
def collectedAfterwards : List Request :=
  sampleSetup ++ samplePushes ++ [⟨9, .collectPayload 2 sampleDigest 9⟩]

/-- The payload of the revisions is still there. -/
theorem collectedAfterwards_kept :
    (sampleWorld collectedAfterwards).committed.objectRevisions.map
        (fun r => (r.objectId, r.isTombstone, r.payloadId)) =
      [("x", false, some 5), ("y", false, some 5), ("x", false, some 5), ("y", true, none)] ∧
    (∀ r ∈ (sampleWorld collectedAfterwards).committed.objectRevisions, r.isTombstone = false →
      ∃ contentHash x, r.contentHash = some contentHash ∧ r.payloadId = some x.id ∧
        (sampleWorld collectedAfterwards).committed.payload .worker r.projectId contentHash =
          some x) ∧
    ∀ e ∈ (sampleWorld collectedAfterwards).history, ∀ r ∈ e.after.objectRevisions,
      ∀ x ∈ e.after.payloads, r.payloadId = some x.id →
        r ∈ (sampleWorld collectedAfterwards).committed.objectRevisions ∧
          x ∈ (sampleWorld collectedAfterwards).committed.payloads :=
  ⟨by rfl, @revisions_keep_payloads (fun _ => (2, sampleDigest)) _ _ _
    (reachable_drawing (by decide) (by decide))⟩

end TaskTipsCloud

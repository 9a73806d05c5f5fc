import TaskTipsCloud.Encoders
import TaskTipsCloud.Events

/-!
# Instants over a run

Where the instants of the stored revisions come from: from the items of the pushes, cut to
microseconds, and from the clock of a restore. When these have years from 0 to 9999 in UTC, no push
panics on an instant, and every answer in every state that is reached writes the instant of the item
that was pushed.
-/

namespace TaskTipsCloud

open Txn

/-! ## One item -/

section

variable {host : Host} {a : PushArgs} {d : Db} {revision : NewSyncRevision}

/-- The result of an item that is applied writes the instant of the item. -/
theorem exists_appliedText (rfc : Rfc3339 host) (hitem : ItemBinds host revision)
    (number sequence : ℤ) : ∃ j text, (PushItemResult.applied revision.kind revision.id number
      sequence revision.changedAt).toJson host = some j ∧
        j.get? "changedAt" = some (.str text) ∧ rfc.Denotes text revision.changedAt := by
  obtain ⟨text, htext⟩ := Option.isSome_iff_exists.mp hitem.encodes
  obtain ⟨hne, hparse⟩ := rfc.parse_rfc3339 _ _ htext
  refine ⟨_, text, Option.bind_eq_some_iff.mpr ⟨text, htext, rfl⟩, ?_, hne, _, hparse, rfl⟩
  simp

/-- The push of an item that is applied does not panic, and every answer writes its instant, exactly
when the instant has a year from 0 to 9999 in UTC. -/
theorem item_writes_iff (rfc : Rfc3339 host) (hhost : HostBinds host) (hd : PushReady a d)
    (hitem : ItemBinds host revision) {payloadId : Option Uuid}
    (happlied : appliedPayload a revision d = some payloadId)
    (hroom : d.nextSequence a.projectId < 2 ^ 63) (now : Timestamp) :
    ((boundItem now a revision).run d).1 ≠ .error (.persistence .panicked) ∧
      (∀ c, rfc.Writes
        ((itemRevision a revision revision.baseRevision payloadId).syncRecord c)
        revision.changedAt) ↔ revision.changedAt.Reencodes := by
  obtain ⟨hbase, hpayload⟩ := appliedPayload_eq_some happlied
  obtain ⟨-, hpanics, happlies⟩ := run_boundAppend now hd hhost hitem hbase hpayload
  have hrun := boundItem_run now hitem hbase
  rw [hpayload] at hrun
  have hwritable := (rfc.isSome_iff _).mp hitem.encodes
  rw [← reencodes_iff hwritable, hrun]
  refine and_congr ⟨fun hne => ?_, fun hfits hpanic => ?_⟩ ⟨fun h => ?_, fun h c => ?_⟩
  · by_contra hnot
    rw [Bool.not_eq_true] at hnot
    exact hne (hpanics hroom hnot)
  · obtain ⟨result, happend, -⟩ := happlies ⟨hroom, hfits⟩
    rw [happend] at hpanic
    cases hpanic
  · exact (writes_iff rfl rfl).mp
      (h ⟨a.projectId, a.userId, 0, ⟨a.projectId, revision.kind, revision.id, 0⟩⟩)
  · exact (writes_iff rfl rfl).mpr h

end

/-! ## Where revisions come from -/

/-- A revision comes from a request: from an item of a push, or from a restore. -/
inductive ComesFrom (q : Request) (r : ObjectRevision) : Prop
  | pushed {a : PushArgs} {revision : NewSyncRevision} (hcall : q.call = .pushWithOutcome a)
      (hitem : revision ∈ a.revisions) (hkind : r.kind = revision.kind)
      (hid : r.objectId = revision.id)
      (hchanged : r.changedAt = revision.changedAt.toTimestamp)
  | restored {targetOrder currentOrder : ScanOrder} {jobId leaseToken : Uuid}
      (hcall : q.call = .executeRestoreWithLease targetOrder currentOrder jobId leaseToken)
      (hchanged : r.changedAt = q.now)

/-- The revisions grow by the appended ones. -/
theorem Db.objectRevisions_appendAll {now : Timestamp} {d : Db} {rs : List ObjectRevision} :
    (d.appendAll now rs).objectRevisions = d.objectRevisions ++ rs := by
  induction rs generalizing d with
  | nil => simp
  | cons r rs ih =>
    rw [Db.appendAll_cons, ih]
    simp [Db.appendNext, Db.append]

/-- What the items of a push append comes from them. -/
theorem ItemEffects.comesFrom {now : Timestamp} {a : PushArgs} {d : Db}
    {revisions : List NewSyncRevision} {results : List PushItemResult} {rs : List ObjectRevision}
    (h : ItemEffects now a d revisions results rs) : ∀ r ∈ rs, ∃ revision ∈ revisions,
      r.kind = revision.kind ∧ r.objectId = revision.id ∧
        r.changedAt = revision.changedAt.toTimestamp := by
  induction h with
  | nil => simp
  | @cons d revision revisions result results rs rs' h hs ih =>
    intro r hr
    rcases List.mem_append.mp hr with hr | hr
    · cases h with
      | skipped h => cases hr
      | applied payloadId hrow hbase =>
        rw [List.mem_singleton.mp hr]
        exact ⟨revision, List.mem_cons_self, rfl, rfl, rfl⟩
    · obtain ⟨revision', hmem, h⟩ := ih r hr
      exact ⟨revision', List.mem_cons_of_mem _ hmem, h⟩

/-- The revisions of a restore come from its clock. -/
theorem changedAt_of_restored {now : Timestamp} {p ownerUserId : Uuid} {current : List ManifestRow}
    {items : List ManifestItem} {rs : List ObjectRevision}
    (h : List.Forall₂ (IsRestored now p ownerUserId current) items rs) :
    ∀ r ∈ rs, r.changedAt = now := by
  induction h with
  | nil => simp
  | cons hr _ ih =>
    obtain ⟨payloadId, rfl⟩ := hr
    exact List.forall_mem_cons.mpr ⟨rfl, ih⟩

/-- A revision that is there after a request was there before, or it comes from the request. -/
theorem EventEffect.comesFrom {host : Host} {e : SyncEvent} (h : EventEffect host e)
    {r : ObjectRevision} (hr : r ∈ e.after.objectRevisions) :
    r ∈ e.before.objectRevisions ∨ ComesFrom e.request r := by
  cases h with
  | unchanged h => exact .inl (h ▸ hr)
  | quiet hquiet h htouches =>
    left
    have hT : Table.objectRevisions ∉ e.request.call.tables := by
      cases hcall : e.request.call <;> simp [hcall, Call.isQuiet, Call.tables] at hquiet ⊢
    have heq : e.after.objectRevisions = e.before.objectRevisions :=
      (congrArg Db.objectRevisions htouches).trans (if_neg hT)
    exact heq ▸ hr
  | created hcall hnone hseq hgeneration h => exact .inl (by rw [h] at hr; exact hr)
  | collected hcall h => exact .inl (by rw [h] at hr; exact hr)
  | purged hcall h => exact .inl (by rw [h] at hr; exact hr)
  | replayed hcall h => exact .inl (by rw [h] at hr; exact hr)
  | completed hcall hresult hlast h => exact .inl (by rw [h] at hr; exact hr)
  | pushed hcall hresult hnew h =>
    generalize hafter : e.after = d' at h hr
    cases h with
    | failed herror hresponse => exact .inl hr
    | applied hrow hactive hgeneration hbootstrapped hitems hresponse =>
      have hmem := hr
      change r ∈ (Db.appendAll _ _ _).objectRevisions at hmem
      rw [Db.objectRevisions_appendAll] at hmem
      rcases List.mem_append.mp hmem with hmem | hmem
      · exact .inl hmem
      · obtain ⟨revision, hitem, hkind, hid, hchanged⟩ := hitems.comesFrom r hmem
        exact .inr (.pushed hcall hitem hkind hid hchanged)
  | restored hcall hresult h =>
    generalize hafter : e.after = d' at h hr
    obtain ⟨hjob, hrequested, hrow, hstatus, htarget, hall, hitems⟩ := h
    have hmem := hr
    change r ∈ (Db.appendAll _ _ _).objectRevisions at hmem
    rw [Db.objectRevisions_appendAll] at hmem
    rcases List.mem_append.mp hmem with hmem | hmem
    · exact .inl hmem
    · exact .inr (.restored hcall (changedAt_of_restored hitems r hmem))

section

variable {host : Host} {users : List UserRow} {w : World Db Lock PersistenceError Reply Request}

/-- Along a trail every revision comes from one of its requests. -/
theorem comesFrom_of_trail {d : Db} {l : List SyncEvent} {t : ℤ}
    (htr : (service host).Trail Db.Sound Db.Rely (.initial users) l d t) :
    ∀ r ∈ d.objectRevisions, ∃ e ∈ l, ComesFrom e.request r := by
  refine htr.invariant (J := fun l d => ∀ r ∈ d.objectRevisions, ∃ e ∈ l, ComesFrom e.request r)
    (by simp [Db.initial]) fun l e _ _ _ hout hsound _ ih r hr => ?_
  rcases (eventEffect_of_outcome hsound hout).comesFrom hr with hr | hr
  · obtain ⟨e', he', hcomes⟩ := ih r hr
    exact ⟨e', List.mem_append_left _ he', hcomes⟩
  · exact ⟨e, by simp, hr⟩

end

/-! ## What the answers hold -/

/-- A record comes from a request of a run. -/
def HeldFrom (l : List SyncEvent) (record : SyncRecord) : Prop :=
  ∃ r c, record = r.syncRecord c ∧ ∃ e ∈ l, ComesFrom e.request r

section

variable {d : Db} {role : DbRole} {p : Uuid} {record : SyncRecord}

/-- A record of a project is one of a stored revision. -/
theorem exists_of_mem_records (h : record ∈ ((d.data p).visible role).records) :
    ∃ r ∈ d.objectRevisions, ∃ c, record = r.syncRecord c := by
  obtain ⟨c, -, hmem⟩ := List.mem_flatMap.mp h
  obtain ⟨r, hr, rfl⟩ := List.mem_map.mp hmem
  have hr' := List.mem_of_mem_filter (List.mem_of_mem_filter (List.mem_of_mem_filter hr))
  exact ⟨r, hr', c, rfl⟩

/-- A row of a manifest is the record of a revision. -/
theorem exists_of_mem_rankedRows {order : ScanOrder} {sequence : ℤ}
    (h : record ∈ rankedRows role order p sequence d) :
    ∃ r ∈ d.objectRevisions, ∃ c, record = r.syncRecord c := by
  have hmem := (order.perm _).mem_iff.mp h
  exact exists_of_mem_records (List.mem_of_mem_filter (List.mem_of_mem_filter hmem))

/-- A record of the change log is that of a revision. -/
theorem exists_of_mem_recordsAfter {sequence : ℤ} (h : record ∈ recordsAfter role p sequence d) :
    ∃ r ∈ d.objectRevisions, ∃ c, record = r.syncRecord c :=
  exists_of_mem_records (List.mem_of_mem_filter ((List.perm_insertionSort _ _).mem_iff.mp h))

/-- A record of the history is that of a revision. -/
theorem exists_of_mem_historyRecords {kind : Option ObjectKind} {objectId : Option String}
    {sequence : ℤ} (h : record ∈ historyRecords role p kind objectId sequence d) :
    ∃ r ∈ d.objectRevisions, ∃ c, record = r.syncRecord c :=
  exists_of_mem_recordsAfter (List.mem_of_mem_filter h)

end

/-- A request that records a manifest. -/
def RecordedBy (q : Request) (m : BootstrapManifestRow) : Prop :=
  ∃ userId projectId manifest bucket key,
    q.call = .recordBootstrapManifest userId projectId manifest bucket key ∧
      m.items = manifest.records

/-- A manifest that is there after a request was there before, or the request recorded it. -/
theorem recordedBy_of_outcome {host : Host} {e : SyncEvent} (hsound : e.before.Sound)
    (h : (service host).Outcome Db.Rely e) {m : BootstrapManifestRow}
    (hm : m ∈ e.after.bootstrapManifests) :
    m ∈ e.before.bootstrapManifests ∨ RecordedBy e.request m := by
  have htouches := (eventEffect_of_outcome hsound h).touches
  obtain ⟨H, b, ⟨hruns, hafter⟩ | ⟨_, -, -, hafter⟩⟩ := h
  · obtain ⟨⟨now, call⟩, result, before, after, clock⟩ := e
    simp only at hruns hafter htouches hm
    by_cases hT : Table.bootstrapManifests ∈ call.tables
    · cases call with
      | recordBootstrapManifest userId projectId manifest bucket key =>
        obtain ⟨r, hrecord, -⟩ := runs_replying_iff.mp hruns
        simp only [recordBootstrapManifest, bind_eq, acquire_bind, runs_lock_iff, runs_bind_ok_iff,
          runs_mapConflict_ok_iff, pure_eq, runs_pure_iff] at hrecord
        obtain ⟨_, _, _, hinsert, -, -, rfl⟩ := hrecord
        obtain ⟨-, rfl, -⟩ := runs_insertRow hinsert
        rw [hafter] at hm
        rcases List.mem_append.mp hm with hm | hm
        · exact .inl hm
        · rw [List.mem_singleton.mp hm]
          exact .inr ⟨userId, projectId, manifest, bucket, key, rfl, rfl⟩
      | expireBootstrapManifests inBatch =>
        obtain ⟨r, hexpire, -⟩ := runs_replying_iff.mp hruns
        simp only [expireBootstrapManifests, bind_eq, modify_bind, pure_eq, runs_write_iff,
          runs_pure_iff] at hexpire
        obtain ⟨-, -, rfl⟩ := hexpire
        rw [hafter] at hm
        exact .inl (List.mem_of_mem_filter hm)
      | _ => simp [Call.tables] at hT
    · have heq : after.bootstrapManifests = before.bootstrapManifests :=
        (congrArg Db.bootstrapManifests htouches).trans (if_neg hT)
      exact .inl (heq ▸ hm)
  · rw [hafter] at hm
    exact .inl hm

/-- A manifest that is prepared holds records of stored revisions. -/
theorem exists_of_prepared {host : Host} {e : SyncEvent}
    (h : (service host).Outcome Db.Rely e) {order : ScanOrder} {userId p manifestId : Uuid}
    (hcall : e.request.call = .prepareBootstrapManifest order userId p manifestId)
    {manifest : BootstrapManifest} (hresult : e.result = .ok (.bootstrapManifest manifest)) :
    ∀ record ∈ manifest.records, ∃ r ∈ e.before.objectRevisions, ∃ c, record = r.syncRecord c := by
  obtain ⟨H, b, ⟨hruns, -⟩ | ⟨_, -, herror, -⟩⟩ := h
  · change Runs _ _ (e.request.call.body host e.request.now) ∅ id _ H b at hruns
    rw [hcall] at hruns
    obtain ⟨r, hprepare, hr⟩ := runs_replying_iff.mp hruns
    obtain ⟨⟨generation, sequence⟩, H₁, b₁, hproject, hrest⟩ := runs_bind_ok_iff.mp hprepare
    obtain ⟨rfl, rfl, d, row, hd, hrow, -, hstate⟩ := runs_requireActiveProjectForUpdate hproject
    simp only [query_bind, bind_eq, runs_read_iff, runs_bind_ok_iff, pure_eq, runs_pure_iff,
      Except.ok.injEq] at hrest
    obtain ⟨d', hd', _, _, _, -, hr', -, -⟩ := hrest
    have hdata := hd'.data p (Set.mem_insert _ _)
    rw [hr, hr'] at hresult
    cases hresult
    intro record hmem
    dsimp only at hmem
    unfold rankedRows at hmem
    rw [id, hdata] at hmem
    exact exists_of_mem_rankedRows hmem
  · rw [herror] at hresult
    cases hresult

/-! ## Every state of a run -/

/-- Every answer that holds a record of a run writes the instant of the item that was pushed, or of
the clock of the restore. -/
def WrittenFrom {host : Host} (rfc : Rfc3339 host) (l : List SyncEvent) (record : SyncRecord) :
    Prop :=
  ∃ e ∈ l, (∃ a revision, e.request.call = .pushWithOutcome a ∧ revision ∈ a.revisions ∧
      record.kind = revision.kind ∧ record.id = revision.id ∧
      rfc.Writes record revision.changedAt) ∨
    rfc.Writes record (.ofTimestamp e.request.now)

/-- What a state answers with: no bootstrap panics, and every record of a bootstrap, of its pages,
of a pull and of a history is written. -/
structure Answers {host : Host} (rfc : Rfc3339 host) (l : List SyncEvent) (d : Db) : Prop where
  bootstrap : ∀ order userId p manifestId,
    ((prepareBootstrapManifest host order userId p manifestId).run d).1 ≠ .error .panicked
  manifest : ∀ role order p sequence, ∀ record ∈ rankedRows role order p sequence d,
    WrittenFrom rfc l record
  page : ∀ m ∈ d.bootstrapManifests, ∀ record ∈ m.items, WrittenFrom rfc l record
  pull : ∀ role p sequence, ∀ record ∈ recordsAfter role p sequence d, WrittenFrom rfc l record
  history : ∀ role p kind objectId sequence,
    ∀ record ∈ historyRecords role p kind objectId sequence d, WrittenFrom rfc l record

/-- The requests of a run have instants in range: the items that were pushed, and the clock. -/
structure InstantsInRange (l : List SyncEvent) : Prop where
  items : ∀ e ∈ l, ∀ a, e.request.call = .pushWithOutcome a →
    ∀ revision ∈ a.revisions, revision.changedAt.Reencodes
  clock : ∀ e ∈ l, InYears e.request.now

/-- Every manifest that is recorded was prepared: the bootstrap route records what it prepared. -/
def RecordsPrepared (l : List SyncEvent) : Prop :=
  ∀ e ∈ l, ∀ userId p manifest bucket key,
    e.request.call = .recordBootstrapManifest userId p manifest bucket key →
      ∃ e' ∈ l, ∃ order userId' p' manifestId,
        e'.request.call = .prepareBootstrapManifest order userId' p' manifestId ∧
          e'.result = .ok (.bootstrapManifest manifest)

section

variable {host : Host} {rfc : Rfc3339 host} {l : List SyncEvent} {record : SyncRecord}

/-- A database time that comes from an instant in range is in range. -/
theorem OffsetDateTime.Reencodes.inYears {t : OffsetDateTime} (h : t.Reencodes) :
    InYears t.toTimestamp := by
  obtain ⟨τ, hτ⟩ : ∃ τ : ℤ, t.toTimestamp = τ := ⟨_, rfl⟩
  have hbounds := toTimestamp_bounds hτ
  unfold OffsetDateTime.Reencodes at h
  unfold InYears
  rw [hτ] at h ⊢
  unfold yearZero maxUtcNanos at *
  omega

/-- An instant that is read back with another offset fits UTC. -/
theorem OffsetDateTime.Reencodes.fitsUtc {t : OffsetDateTime} (h : t.Reencodes) :
    t.fitsUtc = true := by
  obtain ⟨τ, hτ⟩ : ∃ τ : ℤ, t.toTimestamp = τ := ⟨_, rfl⟩
  have hbounds := toTimestamp_bounds hτ
  unfold OffsetDateTime.Reencodes at h
  rw [hτ] at h
  unfold OffsetDateTime.fitsUtc
  unfold yearZero maxUtcNanos at *
  unfold minUtcNanos
  simp only [Bool.and_eq_true, decide_eq_true_eq]
  omega

/-- A record that comes from a request in range is written. -/
theorem writtenFrom_of_heldFrom (hrange : InstantsInRange l) (h : HeldFrom l record) :
    WrittenFrom rfc l record := by
  obtain ⟨r, c, rfl, e, he, hcomes⟩ := h
  refine ⟨e, he, ?_⟩
  cases hcomes with
  | pushed hcall hitem hkind hid hchanged =>
    rename_i a revision
    have hwrites : rfc.Writes (r.syncRecord c) revision.changedAt :=
      (writes_iff (congrArg OffsetDateTime.ofTimestamp hchanged) rfl).mpr
        (hrange.items e he a hcall revision hitem).inYears
    exact .inl ⟨a, revision, hcall, hitem, hkind, hid, hwrites⟩
  | restored hcall hchanged =>
    exact .inr ((writes_iff (congrArg OffsetDateTime.ofTimestamp hchanged)
      (OffsetDateTime.toTimestamp_ofTimestamp _)).mpr (hrange.clock e he))

/-- The manifest of records that are written can be written. -/
theorem exists_bootstrapManifestJson {records : List SyncRecord} (manifestId p : Uuid)
    (generation sequence : ℤ) (h : ∀ record ∈ records, WrittenFrom rfc l record) :
    ∃ j, bootstrapManifestJson host manifestId p generation sequence records = some j := by
  have hitems : ∃ items, records.mapM (SyncRecord.toJson host) = some items := by
    induction records with
    | nil => exact ⟨[], rfl⟩
    | cons record records ih =>
      obtain ⟨hrecord, hrecords⟩ := List.forall_mem_cons.mp h
      obtain ⟨items, hitems⟩ := ih hrecords
      obtain ⟨j, hj⟩ : ∃ j, record.toJson host = some j := by
        obtain ⟨e, -, ⟨_, _, -, -, -, -, hwrites⟩ | hwrites⟩ := hrecord
        · obtain ⟨j, _, hj, -⟩ := hwrites.manifest
          exact ⟨j, hj⟩
        · obtain ⟨j, _, hj, -⟩ := hwrites.manifest
          exact ⟨j, hj⟩
      refine ⟨j :: items, ?_⟩
      rw [List.mapM_cons, hj, hitems]
      rfl
  obtain ⟨items, hitems⟩ := hitems
  exact ⟨_, Option.bind_eq_some_iff.mpr ⟨items, hitems, rfl⟩⟩

/-- A bootstrap whose records are written does not panic. -/
theorem prepareBootstrapManifest_ne_panicked {d : Db} {order : ScanOrder}
    {userId p manifestId : Uuid} (h : ∀ sequence,
      ∀ record ∈ rankedRows (.app userId) order p sequence d, WrittenFrom rfc l record) :
    ((prepareBootstrapManifest host order userId p manifestId).run d).1 ≠ .error .panicked := by
  have hstate : (requireActiveProjectForUpdate (.app userId) p).run d =
      ((visibleProject (.app userId) p d).elim (.error .notFound) fun row =>
        if row.status = .active then .ok (row.generation, row.changeSeq)
        else .error .projectMaintenance, d) := by
    have hrun := run_requireActiveProjectForUpdate (.app userId) p d
    rw [run_attempt] at hrun
    simp only [Prod.mk.injEq, Except.ok.injEq] at hrun
    refine Prod.ext (hrun.1.trans ?_) hrun.2
    cases visibleProject (.app userId) p d <;> rfl
  unfold prepareBootstrapManifest
  rw [bind_eq, run_bind, hstate]
  cases visibleProject (.app userId) p d with
  | none => exact fun h => by cases h
  | some row =>
    rw [Option.elim_some]
    by_cases hactive : row.status = .active
    · simp only [hactive, if_true]
      obtain ⟨j, hj⟩ := exists_bootstrapManifestJson manifestId p row.generation row.changeSeq
        (h row.changeSeq)
      simp only [bind_eq, query_bind, run_read, hj]
      exact fun h => by cases h
    · simp only [hactive, if_false]
      exact fun h => by cases h

end

section

variable {host : Host} {users : List UserRow} {w : World Db Lock PersistenceError Reply Request}

/-- The answers of every state of a run in range. -/
theorem answers_of_reachable (rfc : Rfc3339 host)
    (hw : (service host).Reachable (.initial users) w) (hrange : InstantsInRange w.history)
    (hprepared : RecordsPrepared w.history) : Answers rfc w.history w.committed := by
  have htr := hw.trail (relies_service host) (sound_initial users)
  have hcomes := comesFrom_of_trail htr
  have hwritten : ∀ record, (∃ r ∈ w.committed.objectRevisions, ∃ c, record = r.syncRecord c) →
      WrittenFrom rfc w.history record := by
    rintro record ⟨r, hr, c, rfl⟩
    exact writtenFrom_of_heldFrom hrange ⟨r, c, rfl, hcomes r hr⟩
  refine ⟨fun order userId p manifestId => prepareBootstrapManifest_ne_panicked fun sequence record
      h => hwritten record (exists_of_mem_rankedRows h),
    fun role order p sequence record h => hwritten record (exists_of_mem_rankedRows h),
    fun m hm record h => ?_,
    fun role p sequence record h => hwritten record (exists_of_mem_recordsAfter h),
    fun role p kind objectId sequence record h =>
      hwritten record (exists_of_mem_historyRecords h)⟩
  -- The manifest was recorded by a request, with what a request of the run had prepared.
  have hrecorded : ∀ m ∈ w.committed.bootstrapManifests, ∃ e ∈ w.history,
      RecordedBy e.request m := by
    refine htr.invariant (J := fun l d => ∀ m ∈ d.bootstrapManifests, ∃ e ∈ l,
      RecordedBy e.request m) (by simp [Db.initial]) fun l e _ _ _ hout hsound _ ih m hm => ?_
    rcases recordedBy_of_outcome hsound hout hm with hm | hm
    · obtain ⟨e', he', hby⟩ := ih m hm
      exact ⟨e', List.mem_append_left _ he', hby⟩
    · exact ⟨e, by simp, hm⟩
  obtain ⟨e, he, userId, p, manifest, bucket, key, hcall, hitems⟩ := hrecorded m hm
  obtain ⟨e', he', order, userId', p', manifestId, hcall', hresult⟩ :=
    hprepared e he userId p manifest bucket key hcall
  obtain ⟨earlier, later, hsplit⟩ := List.append_of_mem he'
  rw [hsplit] at htr
  obtain ⟨hbefore, -, hout, -⟩ := htr.split
  rw [hitems] at h
  obtain ⟨r, hr, c, rfl⟩ := exists_of_prepared hout hcall' hresult record h
  obtain ⟨e'', he'', hfrom⟩ := comesFrom_of_trail hbefore r hr
  refine writtenFrom_of_heldFrom hrange ⟨r, c, rfl, e'', ?_, hfrom⟩
  rw [hsplit]
  exact List.mem_append_left _ he''

/-- An accepted item that is applied does not panic, its answer is written, and every later answer
writes its instant, exactly when the instant has a year from 0 to 9999 in UTC. In every run in range
no push in range panics, and every answer of every state writes the instants of its records. -/
theorem instants_written (rfc : Rfc3339 host) (hhost : HostBinds host)
    (hw : (service host).Reachable (.initial users) w) :
    (∀ a d revision payloadId now, PushReady a d → ItemBinds host revision →
      appliedPayload a revision d = some payloadId → d.nextSequence a.projectId < 2 ^ 63 →
      (((boundItem now a revision).run d).1 ≠ .error (.persistence .panicked) ∧
          (∀ number sequence, ∃ j text, (PushItemResult.applied revision.kind revision.id number
            sequence revision.changedAt).toJson host = some j ∧
              j.get? "changedAt" = some (.str text) ∧ rfc.Denotes text revision.changedAt) ∧
          (∀ c, rfc.Writes
            ((itemRevision a revision revision.baseRevision payloadId).syncRecord c)
            revision.changedAt) ↔ revision.changedAt.Reencodes)) ∧
    (InstantsInRange w.history → RecordsPrepared w.history →
      Answers rfc w.history w.committed ∧
      ∀ (r : PushRequest) userId deviceId projectId a now,
        r.args host userId deviceId projectId = .ok a →
        w.committed.users.any (·.id == userId) = true →
        w.committed.hasDevice deviceId userId = true →
        (∀ revision ∈ a.revisions, revision.changedAt.Reencodes) →
        (runPush host now a w.committed).1 ≠ .error (.persistence .panicked)) := by
  constructor
  · intro a d revision payloadId now hd hitem happlied hroom
    have hiff := item_writes_iff rfc hhost hd hitem happlied hroom now
    rw [← hiff]
    exact ⟨fun h => ⟨h.1, h.2.2⟩, fun h => ⟨h.1, exists_appliedText rfc hitem, h.2⟩⟩
  · -- A push panics only at the instant of one of its items.
    intro hrange hprepared
    refine ⟨answers_of_reachable rfc hw hrange hprepared, ?_⟩
    intro r userId deviceId projectId a now hargs huser hdevice hitems hpanicked
    obtain ⟨hpush, hu, hv, -, -⟩ := r.pushBinds hargs
    rw [← hu] at huser hdevice
    rw [← hv] at hdevice
    have hsound := hw.inv (relies_service host) (sound_initial users)
    obtain ⟨revision, hmem, hfits⟩ :=
      exists_of_runPush_panicked hhost hpush hsound hdevice huser hpanicked
    rw [(hitems revision hmem).fitsUtc] at hfits
    cases hfits

end

/-! ## A host for samples -/

/-- An instant of the last day of the year 9999, written west of Greenwich. -/
def lateInstant : OffsetDateTime := ⟨(253402300800 + 3599) * 10 ^ 9, -3600⟩

/-- The text of a number, one character for each. -/
def unaryText (n : ℕ) : String := String.ofList (List.replicate (n + 1) 'x')

/-- Whether an instant is writable is decided by its year and its offset. -/
instance (t : OffsetDateTime) : Decidable t.IsWritable := by
  unfold OffsetDateTime.IsWritable
  infer_instance

/-- A host that writes the instants of the samples as RFC 3339 does, and others in unary. -/
def unaryHost : Host where
  sha256Hex _ := sampleDigest
  rfc3339 t :=
    if t.IsWritable then
      if t = ⟨0, 0⟩ then some "1970-01-01T00:00:00Z"
      else if t = lateInstant then some "9999-12-31T23:59:59-01:00"
      else some (unaryText (Encodable.encode (t.unixNanos, t.offsetSeconds)))
    else none
  isRfc3339 text := text == "1970-01-01T00:00:00Z" || text == "9999-12-31T23:59:59-01:00"
  serdeText _ := "1970-01-01 00:00:00.0 +00:00:00"
  displayText _ := "1970-01-01 0:00:00.0 +00:00:00"

/-- A text with another character is no unary text. -/
theorem unaryText_ne {s : String} (n : ℕ) {c : Char} (hc : c ∈ s.toList) (hne : c ≠ 'x') :
    unaryText n ≠ s := by
  rintro rfl
  unfold unaryText at hc
  rw [String.toList_ofList] at hc
  exact hne (List.eq_of_mem_replicate hc)

/-- The texts of the host are read back. -/
def unaryRfc3339 : Rfc3339 unaryHost where
  parse text :=
    if text = "1970-01-01T00:00:00Z" then some ⟨0, 0⟩
    else if text = "9999-12-31T23:59:59-01:00" then some lateInstant
    else (Encodable.decode (text.toList.length - 1) : Option (ℤ × ℤ)).map fun p => ⟨p.1, p.2⟩
  isSome_iff t := by
    unfold unaryHost
    dsimp only
    split_ifs <;> simp_all
  parse_rfc3339 t text h := by
    unfold unaryHost at h
    dsimp only at h
    split_ifs at h with hwritable hzero hlate
    · cases h
      exact ⟨by decide, by rw [hzero, if_pos rfl]⟩
    · cases h
      exact ⟨by decide, by rw [hlate, if_neg (by decide), if_pos rfl]⟩
    · cases h
      have hlength : (unaryText (Encodable.encode (t.unixNanos, t.offsetSeconds))).toList.length =
          Encodable.encode (t.unixNanos, t.offsetSeconds) + 1 := by
        simp [unaryText]
      refine ⟨fun hnil => ?_, ?_⟩
      · rw [hnil] at hlength
        cases hlength
      · rw [if_neg (unaryText_ne _ (c := '1') (by decide) (by decide)),
          if_neg (unaryText_ne _ (c := '9') (by decide) (by decide)), hlength]
        rw [Nat.add_sub_cancel, Encodable.encodek]
        rfl

/-- The unary host binds what it writes. -/
theorem hostBinds_unaryHost : HostBinds unaryHost where
  rfc3339 t text h := by
    obtain ⟨-, hparse⟩ := unaryRfc3339.parse_rfc3339 t text h
    unfold unaryHost at h
    dsimp only at h
    split_ifs at h
    · cases h
      decide
    · cases h
      decide
    · cases h
      rw [encodable_iff, unaryText, String.toList_ofList]
      intro hmem
      exact absurd (List.eq_of_mem_replicate hmem) (by decide)
  digest j := by
    change encodable sampleDigest = true ∧ sampleDigest.toList.length = 64
    decide +kernel

/-- A device bootstraps a project and pushes a todo. -/
def instantRequests : List Request :=
  [⟨0, .createProject 1 2 "tasks"⟩, ⟨0, .registerDevice 1 3⟩,
    ⟨0, .registerPayload 1 2 5 ⟨sampleDigest, "payloads", "todo", 12, "text/markdown"⟩⟩,
    ⟨0, .prepareBootstrapManifest .stored 1 2 4⟩,
    ⟨0, .recordBootstrapManifest 1 2 ⟨4, 1, 0, [], sampleDigest⟩ "manifests" "4"⟩,
    ⟨0, .bootstrapManifestPage ⟨1, 3, 2, 4, 0, 100⟩⟩,
    ⟨1, samplePush 1 "a" [sampleItem "01HZZZZZZZZZZZZZZZZZZZZZZZ" none false]⟩]

/-- The world after the requests. -/
def instantWorld : World Db Lock PersistenceError Reply Request :=
  (service unaryHost).serve instantRequests (Service.quiet sampleStart 0)

/-- The sample world is reachable. -/
theorem reachable_instantWorld : (service unaryHost).Reachable sampleStart instantWorld :=
  Service.reachable_serve ⟨0, .refl⟩ (fun _ => rfl) instantRequests (fun _ _ => trivial) (by decide)

/-- The events of the sample world are those of its requests. -/
theorem request_mem_of_instantWorld {e : SyncEvent} (he : e ∈ instantWorld.history) :
    e.request ∈ instantRequests := by
  have hmem := List.mem_map_of_mem (f := (·.request)) he
  unfold instantWorld at hmem
  rw [Service.requests_serve] at hmem
  exact hmem

/-- The epoch is read back. -/
theorem reencodes_epoch : (⟨0, 0⟩ : OffsetDateTime).Reencodes := by
  constructor <;> decide

/-- The run is in range, and records what it prepared. -/
theorem instantWorld_inRange :
    InstantsInRange instantWorld.history ∧ RecordsPrepared instantWorld.history := by
  have hlength : instantWorld.history.length = 7 := by rfl
  refine ⟨⟨fun e he a hcall revision hrevision => ?_, fun e he => ?_⟩,
    fun e he userId p manifest bucket key hcall => ?_⟩
  · have hmem := request_mem_of_instantWorld he
    simp only [instantRequests, List.mem_cons, List.not_mem_nil, or_false] at hmem
    rcases hmem with h | h | h | h | h | h | h <;> rw [h] at hcall <;> cases hcall
    rw [List.mem_singleton.mp hrevision]
    exact reencodes_epoch
  · have hmem := request_mem_of_instantWorld he
    have hnow : e.request.now = 0 ∨ e.request.now = 1 := by
      simp only [instantRequests, List.mem_cons, List.not_mem_nil, or_false] at hmem
      rcases hmem with h | h | h | h | h | h | h <;> rw [h] <;> simp
    rcases hnow with h | h <;> rw [h] <;> constructor <;> decide
  · have hmem := request_mem_of_instantWorld he
    have hmanifest : manifest = ⟨4, 1, 0, [], sampleDigest⟩ := by
      simp only [instantRequests, List.mem_cons, List.not_mem_nil, or_false] at hmem
      rcases hmem with h | h | h | h | h | h | h <;> rw [h] at hcall <;> cases hcall
      rfl
    subst hmanifest
    exact ⟨instantWorld.history[3], List.getElem_mem _, .stored, 1, 2, 4, rfl, rfl⟩

/-- The answers of the run write its instants. -/
theorem instantWorld_answers :
    Answers unaryRfc3339 instantWorld.history instantWorld.committed :=
  ((instants_written unaryRfc3339 hostBinds_unaryHost reachable_instantWorld).2
    instantWorld_inRange.1 instantWorld_inRange.2).1

/-- A request with an instant. -/
def instantRequest (t : OffsetDateTime) : PushRequest where
  requestId := "b"
  generation := 1
  objects := []
  tombstones := [⟨.todo, "01HYYYYYYYYYYYYYYYYYYYYYYY", 1, none, t, 3⟩]

/-- The push of the request. -/
def instantPush (t : OffsetDateTime) : PushArgs where
  userId := 1
  deviceId := 3
  projectId := 2
  expectedGeneration := 1
  requestKey := "b"
  requestHash := sampleDigest
  revisions := [⟨.todo, "01HYYYYYYYYYYYYYYYYYYYYYYY", none, none, none, t, true⟩]

/-- The sample request is accepted. -/
theorem args_instantRequest :
    (instantRequest lateInstant).args unaryHost 1 3 2 = .ok (instantPush lateInstant) := by
  rfl

/-- Whether a push panicked. -/
def isPanicked : Except BindError PushOutcome → Bool
  | .error (.persistence .panicked) => true
  | _ => false

/-- A push that panics answers so. -/
theorem eq_of_isPanicked {r : Except BindError PushOutcome} (h : isPanicked r = true) :
    r = .error (.persistence .panicked) := by
  unfold isPanicked at h
  split at h
  · rfl
  · cases h

/-- The push of an accepted instant whose year in UTC is 10000 panics. -/
theorem late_instant_panics :
    ¬ ∀ (host : Host) (_ : Rfc3339 host) (users : List UserRow)
      (w : World Db Lock PersistenceError Reply Request) (r : PushRequest)
      (userId deviceId projectId : Uuid) (a : PushArgs) (now : Timestamp),
      HostBinds host → (service host).Reachable (.initial users) w →
      r.args host userId deviceId projectId = .ok a →
      w.committed.users.any (·.id == userId) = true →
      w.committed.hasDevice deviceId userId = true →
      (runPush host now a w.committed).1 ≠ .error (.persistence .panicked) := by
  intro h
  refine h unaryHost unaryRfc3339 [⟨1, .user, .active⟩] instantWorld (instantRequest lateInstant)
    1 3 2 (instantPush lateInstant) 1 hostBinds_unaryHost reachable_instantWorld
    args_instantRequest (by decide +kernel) (by decide +kernel) (eq_of_isPanicked ?_)
  decide +kernel

end TaskTipsCloud

import TaskTipsCloud.Restoration

/-!
# Restores from snapshots

A restore from a snapshot reads the heads that the snapshot kept as JSON; a restore to a sequence
computes the state from the log. From one state the two append the same revisions, up to their
order, when the snapshot was taken at that sequence.
-/

namespace TaskTipsCloud

open Txn Versions

/-- What a revision tells of its object and of where it comes from. -/
structure RevisionStamp where
  kind : ObjectKind
  objectId : String
  revision : ℤ
  baseRevision : Option ℤ
  content : ObjectContent
  deviceId : Uuid
  deriving DecidableEq, Repr

/-- What a revision says of its object, without its identifier and time. -/
def ObjectRevision.stamp (r : ObjectRevision) : RevisionStamp :=
  ⟨r.kind, r.objectId, r.revision, r.baseRevision, r.content, r.deviceId⟩

/-- The columns of `object_revisions` are `INTEGER` and `BIGINT`. -/
def ObjectRevision.FitsColumns (r : ObjectRevision) : Prop :=
  (∀ v ∈ r.schemaVersion, -2 ^ 31 ≤ v ∧ v ≤ 2 ^ 31 - 1) ∧
    (-2 ^ 63 ≤ r.revision ∧ r.revision ≤ 2 ^ 63 - 1)

/-- It is decided by comparing numbers. -/
instance (r : ObjectRevision) : Decidable r.FitsColumns := inferInstanceAs (Decidable (_ ∧ _))

/-- A restore job with a sequence as its target. -/
def RestoreJob.retargeted (t : ℤ) (j : RestoreJob) : RestoreJob :=
  { j with snapshotId := none, targetChangeSequence := some t }

/-- The database with a sequence as the target of a restore job. -/
def Db.retargeted (jobId : Uuid) (t : ℤ) (d : Db) : Db :=
  d.updateRestoreJob jobId (·.retargeted t)

/-! ## The order of a target -/

section Order

variable {target target' : List ManifestItem} {rows rows' : List ManifestRow}
  {h h₀ : List SyncRecord}

/-- The missing rows do not depend on the order. -/
theorem missingRows_perm (htarget : target.Perm target') (hrows : rows.Perm rows') :
    (missingRows target rows).Perm (missingRows target' rows') := by
  have hsame : missingRows target rows = missingRows target' rows := by
    refine List.filter_congr fun row _ => ?_
    rw [Bool.eq_iff_iff, decide_eq_true_eq, decide_eq_true_eq,
      (htarget.map ManifestItem.key).mem_iff]
  rw [hsame]
  exact hrows.filter _

/-- A target with its deletions has the same items in whatever order its parts are read. -/
theorem withDeletions_perm (htarget : target.Perm target') (hrows : rows.Perm rows')
    (hnodup : (rows.map SyncRecord.key).Nodup) :
    (withDeletions target rows).Perm (withDeletions target' rows') := by
  rw [withDeletions_eq hnodup,
    withDeletions_eq ((hrows.map SyncRecord.key).nodup_iff.mp hnodup)]
  exact htarget.append ((missingRows_perm htarget hrows).map _)

/-- The stamp of the revision that restores an item. -/
def restoredStamp (current : List ManifestRow) (item : ManifestItem) : RevisionStamp where
  kind := item.kind
  objectId := item.id
  revision := actualRevision current item + 1
  baseRevision :=
    if 0 < actualRevision current item then some (actualRevision current item) else none
  content := item.content
  deviceId := item.deviceId

/-- The revisions of a restore say what the restored items do. -/
theorem map_stamp_of_restored {now : Timestamp} {p ownerUserId : Uuid} {items : List ManifestItem}
    {rs : List ObjectRevision}
    (hitems : List.Forall₂ (IsRestored now p ownerUserId rows) items rs) :
    rs.map ObjectRevision.stamp = items.map (restoredStamp rows) := by
  induction hitems with
  | nil => rfl
  | cons hr _ ih =>
    obtain ⟨payloadId, rfl⟩ := hr
    rw [List.map_cons, List.map_cons, ih]
    rfl

/-- Restores to two readings of one target append the same revisions, up to their order. -/
theorem map_stamp_perm {now now' : Timestamp} {p ownerUserId : Uuid} {rs rs' : List ObjectRevision}
    (hh : IsHistory h) (hrows : IsCurrentOf rows h) (hrows' : IsCurrentOf rows' h)
    (htarget : IsTargetOf target h₀) (htarget' : IsTargetOf target' h₀)
    (hitems : List.Forall₂ (IsRestored now p ownerUserId rows)
      ((withDeletions target rows).filter (needsRestore rows)) rs)
    (hitems' : List.Forall₂ (IsRestored now' p ownerUserId rows')
      ((withDeletions target' rows').filter (needsRestore rows')) rs') :
    (rs.map ObjectRevision.stamp).Perm (rs'.map ObjectRevision.stamp) := by
  have hexisting : existingRow rows = existingRow rows' := funext fun item => by
    rw [hrows.existingRow_eq, hrows'.existingRow_eq]
  have hneeds : needsRestore rows = needsRestore rows' := funext fun item => by
    unfold needsRestore
    rw [hexisting]
  have hstamp : restoredStamp rows = restoredStamp rows' := funext fun item => by
    unfold restoredStamp actualRevision
    rw [hexisting]
  have hperm := withDeletions_perm (htarget.trans htarget'.symm) (hrows.trans hrows'.symm)
    (hrows.nodup hh)
  rw [map_stamp_of_restored hitems, map_stamp_of_restored hitems', hneeds, hstamp]
  exact (hperm.filter _).map _

end Order

/-! ## Snapshots of a run -/

/-- A project's revisions only grow. -/
theorem ProjectStep.revisions_grow {e : SyncEvent} {p : Uuid} (h : ProjectStep e p) :
    e.before.revisionsOf p <+: e.after.revisionsOf p := by
  cases h with
  | kept h =>
    have hrevisions : e.after.revisionsOf p = e.before.revisionsOf p := h.revisions
    exact hrevisions ▸ List.prefix_refl _
  | created hbefore hp hgeneration hafter =>
    have hrevisions : e.after.revisionsOf p = e.before.revisionsOf p :=
      congrArg ProjectData.revisions hafter
    exact hrevisions ▸ List.prefix_refl _
  | pushed _ _ _ _ _ _ _ hrevisions => exact hrevisions ▸ List.prefix_append _ _
  | restored _ _ _ _ _ hrevisions => exact hrevisions ▸ List.prefix_append _ _

/-- Along a trail a project's revisions only grow. -/
theorem revisions_grow_of_trail {host : Host} {s₀ s : Db} {l : List SyncEvent} {t : ℤ}
    (htr : (service host).Trail Db.Sound Db.Rely s₀ l s t) (p : Uuid) :
    s₀.revisionsOf p <+: s.revisionsOf p := by
  refine htr.invariant (J := fun _ s => s₀.revisionsOf p <+: s.revisionsOf p) (List.prefix_refl _)
    fun _ e _ _ _ hout hsound _ ih => ?_
  exact ih.trans ((eventEffect_of_outcome hsound hout).projectStep p).revisions_grow

/-- What a snapshot's manifest is made of. -/
theorem runs_snapshotManifest {host : Host} {now : Timestamp} {order : ScanOrder}
    {userId projectId snapshotId : Uuid} {H' : Set Lock} {c : Db} {b' : Db → Db}
    {r : Except PersistenceError (ℤ × ℤ × Json)}
    (h : Runs Db.Rely c (snapshotManifest host now order userId projectId snapshotId) ∅ id (.ok r)
      H' b') :
    ∃ row, visibleProject (.app userId) projectId c = some row ∧
      r = .ok (row.generation, row.changeSeq, snapshotManifestJson host snapshotId row.generation
        row.changeSeq (headRows (.app userId) order projectId c)) := by
  obtain ⟨⟨generation, sequence⟩, H₁, b₁, hproject, h⟩ := runs_bind_ok_iff.mp h
  obtain ⟨rfl, rfl, d, row, hd, hrow, -, hstate⟩ := runs_requireActiveProjectForUpdate hproject
  cases hstate
  simp only [query_bind, bind_eq, runs_read_iff, runs_bind_ok_iff, pure_eq, runs_pure_iff,
    Except.ok.injEq] at h
  obtain ⟨d', hd', _, _, _, -, hr, -, -⟩ := h
  have hdata := hd.data projectId (Set.mem_insert _ _)
  have hdata' := hd'.data projectId (Set.mem_insert _ _)
  refine ⟨row, ?_, ?_⟩
  · unfold visibleProject at hrow ⊢
    rw [← hdata]
    exact hrow
  · have hheads : headRows (.app userId) order projectId (id d') =
        headRows (.app userId) order projectId c := by
      unfold headRows
      rw [id, hdata']
    rw [← hheads, ← hr]

/-- The rows of a snapshot are the records of the history that it was taken of, and the manifest is
read back as these rows. -/
theorem manifestItems_of_snapshot {host : Host} {e : SyncEvent} (hsound : e.before.Sound)
    (hout : (service host).Outcome Db.Rely e) {order : ScanOrder} {userId p snapshotId : Uuid}
    (hcall : e.request.call = .snapshotManifest order userId p snapshotId) {g s : ℤ}
    {manifest : Json} (hresult : e.result = .ok (.snapshotManifest g s manifest))
    (hfits : ∀ r ∈ e.before.revisionsOf p, r.FitsColumns) :
    manifestItems manifest =
        .ok ((headRows (.app userId) order p e.before).map manifestItemFromRow) ∧
      IsTargetOf ((headRows (.app userId) order p e.before).map manifestItemFromRow)
        (history (e.before.revisionsOf p)) ∧ s = (e.before.revisionsOf p).length := by
  obtain ⟨H, b, ⟨hruns, -⟩ | ⟨_, -, herror, -⟩⟩ := hout
  · change Runs _ _ (e.request.call.body host e.request.now) ∅ id _ H b at hruns
    rw [hcall] at hruns
    obtain ⟨r, hsnapshot, hr⟩ := runs_replying_iff.mp hruns
    obtain ⟨row, hrow, rfl⟩ := runs_snapshotManifest hsnapshot
    rw [hresult] at hr
    cases hr
    obtain ⟨hproject, hrole⟩ := visibleProject_eq_some_iff.mp hrow
    have hx := hsound.coherent.data hproject
    have hcurrent : IsCurrentOf (headRows (.app userId) order p e.before)
        (history (e.before.revisionsOf p)) := by
      unfold headRows
      rw [hx.visible_eq hrole]
      exact (order.perm _).trans hx.headRecords_perm
    refine ⟨manifestItems_snapshotManifestJson host snapshotId _ _ _ fun v hv => ?_,
      hcurrent.map _, hx.sequence⟩
    obtain ⟨r, i, hr, rfl⟩ := mem_history.mp (mem_of_latest (hcurrent.mem.mp hv))
    exact hfits r (List.fst_mem_of_mem_zipIdx hr)
  · rw [herror] at hresult
    cases hresult

/-! ## The two restores -/

/-- What a restore that runs alone does. -/
theorem restoreEffect_of_execute {now : Timestamp} {targetOrder currentOrder : ScanOrder}
    {jobId leaseToken : Uuid} {c d : Db} (hc : c.Sound)
    (h : (executeRestoreWithLease now targetOrder currentOrder jobId leaseToken).execute c =
      (.ok (), d)) :
    RestoreEffect (fun _ d c => d = c ∧ d.Sound) now targetOrder currentOrder jobId leaseToken c
      d := by
  rcases execute_cases h with hrun | ⟨-, _, _, -, herror⟩
  · obtain ⟨H, b, hruns, hb⟩ := runs_run (R := fun _ d c => d = c ∧ d.Sound) (c := c)
      (fun _ => ⟨rfl, hc⟩)
      (executeRestoreWithLease now targetOrder currentOrder jobId leaseToken) ∅ id
    rw [id, hrun] at hruns hb
    obtain rfl : d = b c := hb
    exact (runs_executeRestoreWithLease (fun H d hd => hd.1 ▸ .refl hd.2 H) hc.coherent hruns).2
  · cases herror

/-- The target of a restore from a snapshot whose manifest was taken of a prefix of the history. -/
theorem RestoredRows.isTargetOf_snapshot {now : Timestamp} {targetOrder currentOrder : ScanOrder}
    {job : RestoreJob} {c d : Db} {row : ProjectRow} {target items : List ManifestItem}
    {rs : List ObjectRevision}
    (h : RestoredRows (fun _ d c => d = c ∧ d.Sound) now targetOrder currentOrder job c d row target
      rs) {snapshotId : Uuid} (hsnapshot : job.snapshotId = some snapshotId) {manifest : Json}
    (hready : readyManifest snapshotId job.projectId c = some manifest)
    (hmanifest : manifestItems manifest = .ok items) : target = items := by
  obtain ⟨-, -, -, -, htarget, -⟩ := h
  cases htarget with
  | snapshot hjob hd hm htarget =>
    obtain ⟨_, rfl, -⟩ := hd
    rw [hsnapshot] at hjob
    cases hjob
    rw [hready] at hm
    cases hm
    rw [hmanifest] at htarget
    exact (Except.ok.inj htarget).symm
  | sequence hjob => rw [hsnapshot] at hjob; cases hjob

/-- The project of a ready snapshot. -/
theorem eq_of_readyManifest {snapshotId p q : Uuid} {d : Db} {m m' : Json}
    (h : readyManifest snapshotId p d = some m) (h' : readyManifest snapshotId q d = some m') :
    p = q := by
  unfold readyManifest at h h'
  simp only [Option.map_eq_some_iff, Option.filter_eq_some_iff, Bool.and_eq_true,
    beq_iff_eq] at h h'
  obtain ⟨x, ⟨hx, hp, -⟩, -⟩ := h
  obtain ⟨y, ⟨hy, hq, -⟩, -⟩ := h'
  rw [hx] at hy
  cases hy
  exact hp.symm.trans hq

/-- The job with a sequence as its target is leased as the job was. -/
theorem leasedJob_retargeted {jobId leaseToken : Uuid} {t : ℤ} {c : Db} {job : RestoreJob}
    (hjob : leasedJob jobId leaseToken c = some job) :
    leasedJob jobId leaseToken (c.retargeted jobId t) =
      some (job.retargeted t) := by
  obtain ⟨hfind, hleased⟩ := Option.filter_eq_some_iff.mp hjob
  unfold leasedJob Db.retargeted
  rw [Db.restoreJob_updateRestoreJob (f := (·.retargeted t)) fun _ => rfl, hfind, Option.map_some]
  exact Option.filter_eq_some_iff.mpr ⟨rfl, hleased⟩

/-- The latest records of a history up to the length of a part of it are those of the part. -/
theorem history_take_of_prefix {rs rs' : List ObjectRevision} (h : rs <+: rs') :
    (history rs').take rs.length = history rs := by
  obtain ⟨rest, rfl⟩ := h
  rw [← history_take, List.take_left]

/-- In every reachable state, take a ready snapshot with the manifest that an earlier request took
of a project at the sequence `s`. The manifest is read back as the rows it was made from. A restore
from the snapshot and a restore to `s` append the same revisions, up to their order, and leave the
same contents. -/
theorem snapshot_restore_agrees {host : Host} {users : List UserRow}
    {w : World Db Lock PersistenceError Reply Request}
    (hw : (service host).Reachable (.initial users) w)
    (hfits : ∀ r ∈ w.committed.objectRevisions, r.FitsColumns)
    {e : SyncEvent} (he : e ∈ w.history) {order : ScanOrder} {userId p snapshotId : Uuid}
    (hcall : e.request.call = .snapshotManifest order userId p snapshotId) {g s : ℤ}
    {manifest : Json} (hresult : e.result = .ok (.snapshotManifest g s manifest))
    (hready : readyManifest snapshotId p w.committed = some manifest)
    {jobId leaseToken : Uuid} {job : RestoreJob}
    (hjob : leasedJob jobId leaseToken w.committed = some job)
    (hsnapshot : job.snapshotId = some snapshotId)
    {now now' : Timestamp} {targetOrder targetOrder' currentOrder currentOrder' : ScanOrder}
    {d d' : Db}
    (hd : (executeRestoreWithLease now targetOrder currentOrder jobId leaseToken).execute
      w.committed = (.ok (), d))
    (hd' : (executeRestoreWithLease now' targetOrder' currentOrder' jobId leaseToken).execute
      (w.committed.retargeted jobId s) = (.ok (), d')) :
    manifestItems manifest =
        .ok ((headRows (.app userId) order p e.before).map manifestItemFromRow) ∧
      (∃ rs rs', d.revisionsOf p = w.committed.revisionsOf p ++ rs ∧
        d'.revisionsOf p = w.committed.revisionsOf p ++ rs' ∧
          (rs.map ObjectRevision.stamp).Perm (rs'.map ObjectRevision.stamp)) ∧
        ∀ k, d.headContent p k = d'.headContent p k := by
  have hsound := hw.inv (relies_service host) (sound_initial users)
  have htr := hw.trail (relies_service host) (sound_initial users)
  obtain ⟨earlier, later, hsplit⟩ := List.append_of_mem he
  rw [hsplit] at htr
  obtain ⟨-, -, hout, hbefore, -, hlater, -⟩ := htr.split
  -- The revisions have only grown since the snapshot was taken.
  have hgrow : e.before.revisionsOf p <+: w.committed.revisionsOf p :=
    ((eventEffect_of_outcome hbefore hout).projectStep p).revisions_grow.trans
      (revisions_grow_of_trail hlater p)
  obtain ⟨hmanifest, htarget₀, hs⟩ := manifestItems_of_snapshot hbefore hout hcall hresult
    fun r hr => hfits r (List.mem_filter.mp (hgrow.subset hr)).1
  have htake := history_take_of_prefix hgrow
  refine ⟨hmanifest, ?_⟩
  -- What the two restores do.
  have heffect := restoreEffect_of_execute hsound hd
  have heffect' := restoreEffect_of_execute (c := w.committed.retargeted jobId s)
    ⟨hsound.coherent, hsound.records⟩ hd'
  obtain ⟨row, target, rs, hrows⟩ := heffect.rows hjob
  obtain ⟨row', target', rs', hrows'⟩ := heffect'.rows (leasedJob_retargeted hjob)
  obtain rfl : p = job.projectId := by
    cases hrows.isTarget with
    | snapshot hjob' hseen hm =>
      obtain ⟨_, rfl, -⟩ := hseen
      rw [hsnapshot] at hjob'
      cases hjob'
      exact eq_of_readyManifest hready hm
    | sequence hjob' => rw [hsnapshot] at hjob'; cases hjob'
  -- Both targets are the latest records of the history at the sequence of the snapshot.
  have htarget : IsTargetOf target (history (e.before.revisionsOf job.projectId)) := by
    rw [hrows.isTargetOf_snapshot hsnapshot hready hmanifest]
    exact htarget₀
  have htarget' : IsTargetOf target' (history (e.before.revisionsOf job.projectId)) := by
    have hranked := hrows'.isTargetOf hsound.coherent rfl rfl
    rw [hs, Int.toNat_natCast] at hranked
    exact htake ▸ hranked
  obtain rfl : row = row' := Option.some.inj (hrows.before.symm.trans hrows'.before)
  have hh : IsHistory (history (w.committed.revisionsOf job.projectId)) :=
    (hsound.coherent.data hrows.before).isHistory
  have hh₀ : IsHistory (history (e.before.revisionsOf job.projectId)) :=
    htake ▸ hh.of_prefix (List.take_prefix _ _)
  have hcurrent := isCurrentOf_headRows hsound.coherent hrows.before currentOrder
  have hcurrent' := isCurrentOf_headRows hsound.coherent hrows.before currentOrder'
  refine ⟨⟨rs, rs', hrows.revisions, hrows'.revisions,
    map_stamp_perm hh hcurrent hcurrent' htarget htarget' hrows.items hrows'.items⟩, fun k => ?_⟩
  -- The contents are those of the target, whichever way it was read.
  have hd : d.Coherent := (heffect.sound hsound).coherent
  have hd' : d'.Coherent := (heffect'.sound ⟨hsound.coherent, hsound.records⟩).coherent
  have hrevisions' : d'.revisionsOf job.projectId = w.committed.revisionsOf job.projectId ++ rs' :=
    hrows'.revisions
  have hcontent' : d'.headContent job.projectId k = (latest ObjectRevision.key k
      (w.committed.revisionsOf job.projectId ++ rs')).map ObjectRevision.content := by
    rw [← hrevisions']
    exact headContent_eq hd' hrows'.after k
  rw [headContent_eq hd hrows.after, hcontent', hrows.revisions,
    content_after hh hcurrent hrows.items htarget hh₀,
    content_after hh hcurrent' hrows'.items htarget' hh₀]

/-- The manifest of the sample project after the pushes. -/
def sampleManifest : Json :=
  snapshotManifestJson sampleHost 20 1 4
    (headRows (.app 1) .stored 2 (sampleWorld (sampleSetup ++ samplePushes)).committed)

/-- The requests of the sample run that take a snapshot, change the project, and start a restore
from the snapshot. -/
def snapshotRequests : List Request :=
  sampleSetup ++ samplePushes ++
    [⟨3, .snapshotManifest .stored 1 2 20⟩,
      ⟨4, .recordSnapshot ⟨1, 2, 20, 1, 4, sampleDigest, "snapshots", "20", sampleManifest⟩⟩,
      ⟨5, samplePush 1 "c" [sampleItem "x" (some 2) true, sampleItem "z" none false]⟩,
      ⟨6, .enqueueRestore ⟨1, 2, some 20, none, "undo", "r", 7⟩⟩, ⟨7, .claimRestoreJob [] 8⟩]

set_option maxRecDepth 8000 in
/-- Both restores succeed, and they leave the same contents. -/
theorem snapshotRequests_snapshot_restore_agrees : ∃ d d',
    (executeRestoreWithLease 8 .stored .stored 7 8).execute
        (sampleWorld snapshotRequests).committed = (.ok (), d) ∧
      (executeRestoreWithLease 8 .stored .stored 7 8).execute
          ((sampleWorld snapshotRequests).committed.retargeted 7 4) = (.ok (), d') ∧
        ∀ k, d.headContent 2 k = d'.headContent 2 k := by
  have hfits : ∀ r ∈ (sampleWorld snapshotRequests).committed.objectRevisions, r.FitsColumns := by
    decide +kernel
  obtain ⟨job, hjob, hsnapshot⟩ : ∃ job, leasedJob 7 8 (sampleWorld snapshotRequests).committed =
      some job ∧ job.snapshotId = some 20 := Option.map_eq_some_iff.mp (by decide +kernel)
  have hmem : sampleEvent snapshotRequests ⟨7, by decide⟩ ∈
      (sampleWorld snapshotRequests).history :=
    List.mem_of_mem_take (sampleEvent_mem_take (j := ⟨8, by decide⟩) (by decide))
  have hd : (executeRestoreWithLease 8 .stored .stored 7 8).execute
      (sampleWorld snapshotRequests).committed = (.ok (),
        ((executeRestoreWithLease 8 .stored .stored 7 8).execute
          (sampleWorld snapshotRequests).committed).2) := Prod.ext rfl rfl
  have hd' : (executeRestoreWithLease 8 .stored .stored 7 8).execute
      ((sampleWorld snapshotRequests).committed.retargeted 7 4) = (.ok (),
        ((executeRestoreWithLease 8 .stored .stored 7 8).execute
          ((sampleWorld snapshotRequests).committed.retargeted 7 4)).2) := Prod.ext rfl rfl
  have hresult : (sampleEvent snapshotRequests ⟨7, by decide⟩).result =
      .ok (.snapshotManifest 1 4 sampleManifest) := rfl
  exact ⟨_, _, hd, hd', (snapshot_restore_agrees (reachable_sampleWorld (by decide)) hfits hmem rfl
    hresult rfl hjob hsnapshot hd hd').2.2⟩

end TaskTipsCloud

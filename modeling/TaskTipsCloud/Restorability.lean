import TaskTipsCloud.Convergence
import TaskTipsCloud.Targets

/-!
# Restores find what they need

When a restore is enqueued its target is checked once; the worker applies it later, after more
pushes, restores and collections. Along every run of requests that are served one after the other
the target stays there: its snapshot keeps a manifest of an earlier history of the project, and the
revisions keep their payloads. So the statements of the restore find every payload and violate no
constraint.
-/

namespace TaskTipsCloud

open Txn Versions

/-! ## Appending the items of a target -/

/-- An item that can be restored: its device is there, and it is a deletion, or the payload of its
content is registered. -/
structure ManifestItem.Restorable (d : Db) (p ownerUserId : Uuid) (item : ManifestItem) : Prop where
  device : d.hasDevice item.deviceId ownerUserId = true
  payload : item.tombstone = true ∧ item.contentHash = none ∧ item.schemaVersion = none ∨
    item.tombstone = false ∧ ∃ contentHash x v, item.contentHash = some contentHash ∧
      d.payload .worker p contentHash = some x ∧ item.schemaVersion = some v ∧ 0 < v

section

variable {d : Db} {p : Uuid} {row : ProjectRow} {now : Timestamp} {item : ManifestItem}
  {current : List ManifestRow}

/-- The payload of an item that can be restored is found. -/
theorem ManifestItem.Restorable.run_restorePayload (h : item.Restorable d p row.ownerUserId)
    (now : Timestamp) (current : List ManifestRow) :
    ∃ payloadId, (restorePayload p item).run d = (.ok payloadId, d) ∧
      RevisionBinds d (restoredRevision now p row.ownerUserId item (actualRevision current item)
        payloadId) := by
  rcases h.payload with ⟨htombstone, hhash, hschema⟩ |
    ⟨htombstone, hash, x, v, hhash, hx, hschema, hv⟩
  · refine ⟨none, ?_, ?_⟩
    · rw [restorePayload, htombstone]
      rfl
    · exact ⟨.inl ⟨htombstone, rfl, hhash, hschema⟩, h.device, fun i hi => (by cases hi)⟩
  · refine ⟨some x.id, ?_, ?_⟩
    · simp only [restorePayload, htombstone, hhash, bind_eq, Bool.false_eq_true, if_false, orThrow,
        pure_bind, query_bind, run_read, hx]
      rfl
    · obtain ⟨hmem, hp⟩ := mem_of_payload hx
      have hsome : item.contentHash.isSome = true := by rw [hhash]; rfl
      refine ⟨.inr ⟨htombstone, rfl, hsome, v, hschema, hv⟩, h.device, fun i hi => ?_⟩
      cases hi
      exact ⟨x, hmem, rfl, hp⟩

/-- The number of the head is that of the revisions of the object. -/
def CountsOf (d : Db) (p : Uuid) (current : List ManifestRow) (item : ManifestItem) : Prop :=
  actualRevision current item = d.revisionCount p item.key

/-- A restore appends what its project accepts when the head that it has read is the one that is
there. -/
theorem accepts_of_countsOf (hproject : d.project p = some row)
    (hcount : CountsOf d p current item) (now : Timestamp) (payloadId : Option Uuid) :
    (d.data p).Accepts row (restoredRevision now p row.ownerUserId item
      (actualRevision current item) payloadId) := by
  have hid := Db.id_of_project hproject
  have hzero : 0 ≤ actualRevision current item := by
    rw [hcount]
    exact Int.natCast_nonneg _
  refine ⟨hid.symm, rfl, ?_, ?_, ?_⟩
  · simp only [ObjectRevision.syncRecord, ObjectRevision.entry, length_history]
  · simp only [ObjectRevision.syncRecord, restoredRevision]
    rw [hcount]
    rfl
  · exact (previousRevision_succ hzero).symm

/-- Appending a revision of another object leaves the number of revisions of an object. -/
theorem revisionCount_appendNext {r : ObjectRevision} (hr : r.projectId = p)
    {k : ObjectKind × String} (hk : r.key ≠ k) :
    (d.appendNext now r).revisionCount p k = d.revisionCount p k := by
  have hrs : ∀ s ∈ [r], s.projectId = p := by simpa using hr
  have hrevisions : (d.appendNext now r).revisionsOf p = d.revisionsOf p ++ [r] :=
    Db.revisionsOf_appendAll hrs
  have hkey : (r.syncRecord (r.entry ((d.revisionsOf p).length + 1))).key ≠ k := hk
  unfold Db.revisionCount
  rw [hrevisions, history_concat, versions_concat_of_ne hkey]

/-- Restoring items of different objects, of which the heads are those that were read. -/
theorem run_restoreItems {items : List ManifestItem} (hd : d.Coherent)
    (hproject : d.project p = some row) (hnodup : (items.map ManifestItem.key).Nodup)
    (hcounts : ∀ item ∈ items, CountsOf d p current item)
    (hitems : ∀ item ∈ items, item.Restorable d p row.ownerUserId) (now : Timestamp)
    (counts : RestoredCounts) :
    ∃ rs counts', (restoreItems now p row.ownerUserId current items counts).run d =
      (.ok counts', d.appendAll now rs) ∧ ∀ r ∈ rs, r.projectId = p := by
  induction items generalizing d row counts with
  | nil => exact ⟨[], counts, rfl, by simp⟩
  | cons item items ih =>
    obtain ⟨hne, hnodup⟩ := List.nodup_cons.mp hnodup
    rw [List.forall_mem_cons] at hcounts hitems
    unfold restoreItems
    dsimp only
    split
    · exact ih hd hproject hnodup hcounts.2 hitems.2 counts
    · obtain ⟨payloadId, hpayload, hbinds⟩ := hitems.1.run_restorePayload now current
      have haccepts := accepts_of_countsOf hproject hcounts.1 now payloadId
      have hvisible : visibleProject .worker p d = some row :=
        visibleProject_eq_some_iff.mpr ⟨hproject, rfl⟩
      have happend := @run_appendRevision d now _ row .worker hd hvisible haccepts hbinds
      rw [append_eq_appendNext hvisible] at happend
      -- The other items find their heads, their devices and their payloads as before.
      have hother : ∀ other ∈ items, item.key ≠ other.key := fun other hmem heq =>
        hne (heq ▸ List.mem_map_of_mem hmem)
      have hnext : (d.appendNext now (restoredRevision now p row.ownerUserId item
          (actualRevision current item) payloadId)).project p = some (row.advance now) := by
        exact (Db.project_appendNext rfl).trans (congrArg (Option.map _) hproject)
      have hrevisions : ∀ other ∈ items, (d.appendNext now (restoredRevision now p row.ownerUserId
          item (actualRevision current item) payloadId)).revisionCount p other.key =
          d.revisionCount p other.key := fun other hmem =>
        revisionCount_appendNext rfl (hother other hmem)
      obtain ⟨rs, counts', hrun, hrs⟩ := ih
        (Db.Accepts.coherent ⟨row, hproject, haccepts⟩ hd) hnext hnodup
        (fun other hmem => (hcounts.2 other hmem).trans (hrevisions other hmem).symm)
        (fun other hmem => ⟨(hitems.2 other hmem).device, (hitems.2 other hmem).payload⟩)
        (counts.add item.tombstone)
      refine ⟨restoredRevision now p row.ownerUserId item (actualRevision current item) payloadId ::
        rs, counts', ?_, List.forall_mem_cons.mpr ⟨rfl, hrs⟩⟩
      simp only [bind_eq, discard_eq, run_bind, hpayload]
      unfold actualRevision at happend
      rw [happend]
      exact hrun

/-! ## A restore whose target is there -/

variable {drawn : Uuid → Uuid × String} {c : Db} {target : List ManifestItem}
  {h₀ : List SyncRecord}

/-- The head of an object that a restore has read counts the revisions of the object. -/
theorem countsOf_headRows (hc : c.Coherent) (hrow : c.project p = some row) (order : ScanOrder)
    (item : ManifestItem) : CountsOf c p (headRows .worker order p c) item := by
  have hcurrent := isCurrentOf_headRows hc hrow order
  have hh : IsHistory (history (c.revisionsOf p)) := (hc.data hrow).isHistory
  unfold CountsOf actualRevision Db.revisionCount
  rw [hcurrent.existingRow_eq]
  cases hl : latest SyncRecord.key item.key (history (c.revisionsOf p)) with
  | none =>
    have hnone : versions SyncRecord.key item.key (history (c.revisionsOf p)) = [] :=
      List.getLast?_eq_none_iff.mp hl
    rw [hnone]
    rfl
  | some v => exact hh.numbered.rev_latest hl

/-- The device of a record of a project is there, and so is its payload. -/
theorem restorable_of_mem (hc : c.Backed drawn) (hrow : c.project p = some row) {v : SyncRecord}
    (hv : v ∈ history (c.revisionsOf p)) :
    c.hasDevice v.deviceId row.ownerUserId = true ∧
      (manifestItemFromRow v).Restorable c p row.ownerUserId := by
  obtain ⟨r, i, hr, rfl⟩ := mem_history.mp hv
  have hmem : r ∈ c.revisionsOf p := List.fst_mem_of_mem_zipIdx hr
  obtain ⟨-, howner⟩ := (hc.sound.coherent.data hrow).owned r hmem
  obtain ⟨hall, hp⟩ := List.mem_filter.mp hmem
  have hbacked := hc.revisions r hall
  have hdevice : c.hasDevice r.deviceId row.ownerUserId = true := howner ▸ hbacked.device
  refine ⟨hdevice, hdevice, ?_⟩
  rcases hbacked.payload with ⟨htombstone, -, hhash, hschema⟩ |
    ⟨htombstone, x, hx, -, hxp, hhash, w, hschema, hw⟩
  · exact .inl ⟨htombstone, hhash, hschema⟩
  · refine .inr ⟨htombstone, x.contentHash, x, w, hhash, ?_, hschema, hw⟩
    rw [← beq_iff_eq.mp hp, ← hxp]
    exact hc.payload_eq hx

/-- Every item of a restore can be restored: those of the target are records of the project, and so
are the objects that are deleted. -/
theorem restorable_withDeletions (hc : c.Backed drawn) (hrow : c.project p = some row)
    (order : ScanOrder) (htarget : IsTargetOf target h₀)
    (hearlier : h₀ <+: history (c.revisionsOf p)) :
    ∀ item ∈ withDeletions target (headRows .worker order p c),
      item.Restorable c p row.ownerUserId := by
  have hcurrent := isCurrentOf_headRows hc.sound.coherent hrow order
  have hh : IsHistory (history (c.revisionsOf p)) := (hc.sound.coherent.data hrow).isHistory
  rw [withDeletions_eq (hcurrent.nodup hh)]
  intro item hitem
  rcases List.mem_append.mp hitem with hitem | hitem
  · obtain ⟨v, hv, rfl⟩ := List.mem_map.mp (htarget.mem_iff.mp hitem)
    have hmem := mem_of_latest (mem_current_iff.mp hv)
    exact (restorable_of_mem hc hrow (hearlier.subset hmem)).2
  · obtain ⟨v, hv, rfl⟩ := List.mem_map.mp hitem
    have hmem := mem_of_latest (hcurrent.mem.mp (List.mem_filter.mp hv).1)
    exact ⟨(restorable_of_mem hc hrow hmem).1, .inl ⟨rfl, rfl, rfl⟩⟩

/-- The end of a restore: the user who asked for it and the project are there. -/
theorem run_finishRestore {job : RestoreJob} (hrow : c.project job.projectId = some row)
    (huser : c.users.any (·.id == job.requestedBy) = true) (now : Timestamp) (generation : ℤ)
    (counts : RestoredCounts) :
    ∃ d, (finishRestore now job generation counts).run c = (.ok (), d) := by
  have hproject := @Db.project_updateProject c job.projectId (fun p =>
    { p with generation := generation + 1, status := .active, updatedAt := now }) fun _ => rfl
  rw [hrow, Option.map_some] at hproject
  refine ⟨_, run_bind_ok_iff.mpr ⟨(), _, rfl, run_bind_ok_iff.mpr ⟨(), _, rfl,
    run_insertRow_ok_iff.mpr ⟨?_, rfl⟩⟩⟩⟩
  rw [firstViolation_eq_none_iff]
  simp only [List.forall_mem_cons, List.not_mem_nil, false_imp_iff, implies_true, and_true,
    Option.all_some]
  have hid : row.id = job.projectId := Db.id_of_project hrow
  exact ⟨huser, huser, List.any_eq_true.mpr
    ⟨_, List.mem_of_find?_eq_some hproject, beq_iff_eq.mpr hid⟩⟩

/-- A restore of a project in maintenance whose target can be read, and is of an earlier history of
the project, succeeds. -/
theorem execute_restore_of_target {targetOrder currentOrder : ScanOrder}
    {jobId leaseToken : Uuid} {job : RestoreJob} (hc : c.Backed drawn)
    (hjob : leasedJob jobId leaseToken c = some job) (hrequested : job.cancelRequested = false)
    (hrow : c.project job.projectId = some row) (hstatus : row.status = .maintenance)
    (huser : c.users.any (·.id == job.requestedBy) = true)
    (hread : (restoreTarget targetOrder job).run c = (.ok target, c))
    (htarget : IsTargetOf target h₀) (hearlier : h₀ <+: history (c.revisionsOf job.projectId)) :
    ((executeRestoreWithLease now targetOrder currentOrder jobId leaseToken).execute c).1 =
      .ok () := by
  have hcurrent := isCurrentOf_headRows hc.sound.coherent hrow currentOrder
  have hh : IsHistory (history (c.revisionsOf job.projectId)) :=
    (hc.sound.coherent.data hrow).isHistory
  obtain ⟨rs, counts, hitems, hrs⟩ := run_restoreItems
    hc.sound.coherent hrow
    (nodup_withDeletions (htarget.nodup (hh.of_prefix hearlier)) (hcurrent.nodup hh))
    (fun item _ => countsOf_headRows hc.sound.coherent hrow currentOrder item)
    (restorable_withDeletions hc hrow currentOrder htarget hearlier) now ⟨0, 0⟩
  have hmaintained : maintainedProject job.projectId c = some row := by
    unfold maintainedProject
    rw [visibleProject_eq_some_iff.mpr ⟨hrow, rfl⟩, Option.filter_some, hstatus]
    rfl
  have hproject := @Db.project_appendAll now c rs job.projectId hrs row hrow
  have husers : (c.appendAll now rs).users.any (·.id == job.requestedBy) = true := by
    rw [Db.appendAll_eq]
    exact huser
  obtain ⟨d, hfinish⟩ := run_finishRestore hproject husers now row.generation counts
  have hrun : (executeRestoreWithLease now targetOrder currentOrder jobId leaseToken).run c =
      (.ok (.ok ()), d) := by
    unfold executeRestoreWithLease
    simp only [bind_eq, run_bind, run_selectForUpdate, hjob, orThrow, run_pure, hrequested, require,
      Bool.not_false, if_true, hmaintained, hread, run_query, hitems, hfinish, pure_eq]
  rw [execute, hrun]
  rfl

/-! ## What the manifests of snapshots hold -/

/-- A manifest holds the heads of an earlier history of a project. -/
def Db.Depicts (d : Db) (p : Uuid) (manifest : Json) : Prop :=
  ∃ target h₀, manifestItems manifest = .ok target ∧ IsTargetOf target h₀ ∧
    h₀ <+: history (d.revisionsOf p)

/-- A manifest depicts the project still when that has grown. -/
theorem Db.Depicts.mono {d d' : Db} {manifest : Json} (h : d.Depicts p manifest)
    (hgrow : d.revisionsOf p <+: d'.revisionsOf p) : d'.Depicts p manifest := by
  obtain ⟨target, h₀, hitems, htarget, hearlier⟩ := h
  exact ⟨target, h₀, hitems, htarget, hearlier.trans (history_grow hgrow)⟩

/-- The manifest of the heads of a project holds them. -/
theorem depicts_headRows {host : Host} {role : DbRole} {order : ScanOrder} {s : Uuid}
    {generation sequence : ℤ} (hd : d.Coherent) (hrow : visibleProject role p d = some row)
    (hfits : ∀ r ∈ d.objectRevisions, r.FitsColumns) :
    d.Depicts p (snapshotManifestJson host s generation sequence (headRows role order p d)) := by
  obtain ⟨hproject, hrole⟩ := visibleProject_eq_some_iff.mp hrow
  have hx := hd.data hproject
  have hcurrent : IsCurrentOf (headRows role order p d) (history (d.revisionsOf p)) := by
    unfold headRows
    rw [hx.visible_eq hrole]
    exact (order.perm _).trans hx.headRecords_perm
  refine ⟨_, _, manifestItems_snapshotManifestJson host s _ _ _ fun v hv => ?_, hcurrent.map _,
    List.prefix_refl _⟩
  obtain ⟨r, i, hr, rfl⟩ := mem_history.mp (mem_of_latest (hcurrent.mem.mp hv))
  exact hfits r (List.mem_filter.mp (List.fst_mem_of_mem_zipIdx hr)).1

/-- A finished request took the manifest of a snapshot. -/
def TookManifest (e : SyncEvent) (userId p s : Uuid) (manifest : Json) : Prop :=
  ∃ order generation sequence, e.request.call = .snapshotManifest order userId p s ∧
    e.result = .ok (.snapshotManifest generation sequence manifest)

/-- The route records the manifests that it took, for the same user, project and snapshot. -/
def SnapshotRoute (l : List SyncEvent) : Prop :=
  ∀ l₁ e l₂, l = l₁ ++ e :: l₂ → ∀ a, e.request.call = .recordSnapshot a →
    ∃ e' ∈ l₁, TookManifest e' a.userId a.projectId a.snapshotId a.manifest

/-- A part of a run of the snapshot route is one. -/
theorem SnapshotRoute.of_prefix {l l' : List SyncEvent} (h : SnapshotRoute l) (hp : l' <+: l) :
    SnapshotRoute l' := by
  obtain ⟨l₃, rfl⟩ := hp
  intro l₁ e l₂ hl
  exact h l₁ e (l₂ ++ l₃) (by rw [hl]; simp)

/-- Every snapshot holds the heads of an earlier history, and so does every manifest that was
taken. -/
structure Depicted (h : List SyncEvent) (d : Db) : Prop where
  snapshots : ∀ s x, d.snapshot s = some x → d.Depicts x.projectId x.manifest
  taken : ∀ e ∈ h, ∀ userId p s manifest, TookManifest e userId p s manifest → d.Depicts p manifest

/-- What a change of the snapshots leaves of their manifests. -/
theorem SnapshotChange.depicts {host : Host} {H : Set Lock} {e : SyncEvent}
    (h : SnapshotChange host H e) (hb : e.before.Coherent)
    (hgrow : ∀ p, e.before.revisionsOf p <+: e.after.revisionsOf p)
    (hfits : ∀ r ∈ e.before.objectRevisions, r.FitsColumns)
    (hsnapshots : ∀ s x, e.before.snapshot s = some x →
      e.before.Depicts x.projectId x.manifest)
    (hrecorded : ∀ a, e.request.call = .recordSnapshot a →
      e.before.Depicts a.projectId a.manifest) :
    ∀ s x, e.after.snapshot s = some x → e.after.Depicts x.projectId x.manifest := by
  intro s x hx
  refine Db.Depicts.mono ?_ (hgrow _)
  cases h with
  | kept h =>
    refine hsnapshots s x ?_
    rw [← hx, Db.snapshot, Db.snapshot, h]
  | inserted y row role order h hlock hstatus hrow hmanifest =>
    rw [Db.snapshot, h, List.find?_append, Option.or_eq_some_iff] at hx
    rcases hx with hx | ⟨-, hx⟩
    · exact hsnapshots s x hx
    · -- The new manifest is taken of the heads, which are read under the lock.
      rw [List.mem_singleton.mp (List.mem_of_find?_eq_some hx), hmanifest]
      exact depicts_headRows hb hrow hfits
  | marked hlock hunready h hf =>
    rw [snapshot_of_update h fun x => ⟨(hf x).1, (hf x).2.1⟩, Option.map_eq_some_iff] at hx
    obtain ⟨y, hy, rfl⟩ := hx
    have hdepicts := hsnapshots s y hy
    split
    · rw [(hf y).2.1, (hf y).2.2]
      exact hdepicts
    · exact hdepicts
  | @recorded a y hcall hlock hy hunready hproject h =>
    rw [snapshot_of_update h fun x => ⟨rfl, rfl⟩, Option.map_eq_some_iff] at hx
    obtain ⟨z, hz, rfl⟩ := hx
    split
    · rename_i hid
      -- The row is the one of the project that the manifest was taken of.
      have hs : s = a.snapshotId := (Db.id_of_snapshot hz).symm.trans (beq_iff_eq.mp hid)
      rw [hs, hy] at hz
      obtain rfl := Option.some.inj hz
      show e.before.Depicts y.projectId a.manifest
      rw [hproject]
      exact hrecorded a hcall
    · exact hsnapshots s z hz
  | expired hq h =>
    rw [snapshot_of_update h fun x => ⟨rfl, rfl⟩, Option.map_eq_some_iff] at hx
    obtain ⟨y, hy, rfl⟩ := hx
    have hdepicts := hsnapshots s y hy
    split <;> exact hdepicts

/-! ## Every restore succeeds -/

variable {host : Host} {users : List UserRow} {w : World Db Lock PersistenceError Reply Request}

/-- In every world each snapshot holds the heads of an earlier history of its project. -/
theorem depicted_of_reachable (hw : (drawingService host drawn).Reachable (.initial users) w)
    (hroute : SnapshotRoute w.history) (hfits : ∀ r ∈ w.committed.objectRevisions, r.FitsColumns) :
    Depicted w.history w.committed := by
  -- By induction on the commits: the history of a project only grows, so what a manifest depicts
  -- it depicts for good.
  have htrail := hw.trail (relies_targeted host drawn) (targeted_initial users)
  refine htrail.invariant (J := fun h d => SnapshotRoute h →
    (∀ r ∈ d.objectRevisions, r.FitsColumns) → Depicted h d)
    (fun _ _ => ⟨fun _ _ hx => (by cases hx), fun _ he => (by cases he)⟩)
    (fun h e _ _ _ hout hbefore _ ih hroute hfits => ?_) hroute hfits
  have hsound := hbefore.jobsSound.sound
  have houtcome := outcome_of_drawing (fun _ _ h => h.jobs.rely) hout
  have hgrow (p : Uuid) : e.before.revisionsOf p <+: e.after.revisionsOf p :=
    ((eventEffect_of_outcome hsound houtcome).projectStep p).revisions_grow
  have hfits' : ∀ r ∈ e.before.objectRevisions, r.FitsColumns := fun r hr => by
    have hmem : r ∈ e.before.revisionsOf r.projectId :=
      List.mem_filter.mpr ⟨hr, beq_self_eq_true _⟩
    exact hfits r (List.mem_filter.mp ((hgrow _).subset hmem)).1
  have hdepicted := ih (hroute.of_prefix (List.prefix_append _ _)) hfits'
  have htaken : ∀ e' ∈ h, ∀ userId p s manifest, TookManifest e' userId p s manifest →
      e.before.Depicts p manifest := hdepicted.taken
  have hrecorded : ∀ a, e.request.call = .recordSnapshot a →
      e.before.Depicts a.projectId a.manifest := fun a hcall => by
    obtain ⟨e', he', htook⟩ := hroute h e [] rfl a hcall
    exact htaken e' he' _ _ _ _ htook
  refine ⟨?_, fun e' he' userId p s manifest htook => ?_⟩
  · obtain ⟨H, b, ⟨hruns, hafter⟩ | ⟨-, -, -, hafter⟩⟩ := hout
    · have hchange : SnapshotChange host H
          ⟨e.request, e.result, e.before, b e.before, e.clock⟩ :=
        snapshotChange_of_runs hbefore hruns
      rw [← hafter] at hchange
      exact hchange.depicts hsound.coherent hgrow hfits' hdepicted.snapshots hrecorded
    · rw [hafter]
      exact hdepicted.snapshots
  · rcases List.mem_append.mp he' with he' | he'
    · exact (htaken e' he' userId p s manifest htook).mono (hgrow p)
    · obtain ⟨order, generation, sequence, hcall, hresult⟩ := htook
      rw [List.mem_singleton.mp he'] at hcall hresult
      obtain ⟨hitems, htarget, -⟩ := manifestItems_of_snapshot hsound houtcome hcall hresult
        fun r hr => hfits' r (List.mem_filter.mp hr).1
      exact Db.Depicts.mono ⟨_, _, hitems, htarget, List.prefix_refl _⟩ (hgrow p)

/-- In every world, whatever uploads, pushes, restores, snapshots and collections interleave before
it, the worker that holds the lease of a restore job of a project in maintenance executes it without
an error, whichever target the job was enqueued with. -/
theorem restores_succeed (hw : (drawingService host drawn).Reachable (.initial users) w)
    (hroute : SnapshotRoute w.history) (hfits : ∀ r ∈ w.committed.objectRevisions, r.FitsColumns)
    {jobId leaseToken : Uuid} {job : RestoreJob}
    (hjob : leasedJob jobId leaseToken w.committed = some job)
    (hrequested : job.cancelRequested = false)
    (hproject : w.committed.project job.projectId = some row) (hstatus : row.status = .maintenance)
    (targetOrder currentOrder : ScanOrder) :
    ((executeRestoreWithLease now targetOrder currentOrder jobId leaseToken).execute
      w.committed).1 = .ok () := by
  have htargeted := hw.inv (relies_targeted host drawn) (targeted_initial users)
  have hmem : job ∈ w.committed.restoreJobs :=
    Db.mem_of_restoreJob (Option.filter_eq_some_iff.mp hjob).1
  have htarget := htargeted.targets job hmem
  have hcoherent := htargeted.backed.sound.coherent
  -- Whichever way the target is read, a restore of a target of the history goes through.
  have hgoes {target : List ManifestItem} {h₀ : List SyncRecord}
      (hread : (restoreTarget targetOrder job).run w.committed = (.ok target, w.committed))
      (hof : IsTargetOf target h₀)
      (hearlier : h₀ <+: history (w.committed.revisionsOf job.projectId)) :
      ((executeRestoreWithLease now targetOrder currentOrder jobId leaseToken).execute
        w.committed).1 = .ok () :=
    execute_restore_of_target htargeted.backed hjob hrequested hproject hstatus htarget.user hread
      hof hearlier
  cases hs : job.snapshotId with
  | none =>
    obtain ⟨t, ht⟩ := Option.isSome_iff_exists.mp (htarget.sequence hs)
    refine hgoes ?_ (isTargetOf_rankedRows hcoherent hproject targetOrder t) (List.take_prefix _ _)
    rw [restoreTarget, hs, ht]
    rfl
  | some s =>
    obtain ⟨x, hx, hp, hready⟩ := htarget.snapshot s hs
    obtain ⟨target, h₀, hitems, hof, hearlier⟩ :=
      (depicted_of_reachable hw hroute hfits).snapshots s x hx
    rw [hp] at hearlier
    refine hgoes ?_ hof hearlier
    have hmanifest : readyManifest s job.projectId w.committed = some x.manifest := by
      rw [readyManifest, hx, Option.filter_some, hp, hready]
      simp
    simp only [restoreTarget, hs, bind_eq, query_bind, run_read, hmanifest, orThrow, pure_bind,
      hitems]
    rfl

end

/-- The snapshot of the sample run was taken by its route. -/
theorem snapshotRoute_snapshotRequests : SnapshotRoute (sampleWorld snapshotRequests).history := by
  intro l₁ e l₂ hl a hcall
  obtain ⟨⟨i, hi⟩, rfl, rfl⟩ := eq_sampleEvent_of_split hl
  have htook : TookManifest (sampleEvent snapshotRequests ⟨7, by decide⟩) 1 2 20 sampleManifest :=
    ⟨.stored, 1, 4, rfl, rfl⟩
  -- Only the eighth request takes a manifest, and only the ninth records one.
  have hindex : i = 8 := by
    have htwelve : i < 12 := hi
    interval_cases i <;> first | rfl | cases hcall
  subst hindex
  cases hcall
  exact ⟨_, @sampleEvent_mem_take _ ⟨7, by decide⟩ ⟨8, by decide⟩ (by decide), htook⟩

/-- The objects of the snapshot were changed since; the restore finds what it needs. -/
theorem snapshotRequests_succeeds :
    ((executeRestoreWithLease 8 .stored .stored 7 8).execute
      (sampleWorld snapshotRequests).committed).1 = .ok () := by
  have hfits : ∀ r ∈ (sampleWorld snapshotRequests).committed.objectRevisions, r.FitsColumns := by
    decide +kernel
  obtain ⟨job, hjob, hfields⟩ : ∃ job, leasedJob 7 8 (sampleWorld snapshotRequests).committed =
      some job ∧ (job.cancelRequested, job.projectId) = (false, 2) :=
    Option.map_eq_some_iff.mp (by decide +kernel)
  obtain ⟨row, hrow, hstatus⟩ : ∃ row, (sampleWorld snapshotRequests).committed.project 2 =
      some row ∧ row.status = .maintenance := Option.map_eq_some_iff.mp (by decide +kernel)
  obtain ⟨hrequested, hp⟩ := Prod.mk.inj hfields
  exact @restores_succeed row 8 (fun _ => (2, sampleDigest)) _ _ _
    (reachable_drawing (by decide) (by decide)) snapshotRoute_snapshotRequests hfits 7 8 job hjob
    hrequested (hp ▸ hrow) hstatus .stored .stored

end TaskTipsCloud

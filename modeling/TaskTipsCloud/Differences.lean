import TaskTipsCloud.SnapshotRestore

/-!
# What a restore writes

A restore skips an object whose head is the revision of its target, by its number. So it appends a
revision for every object whose content differs from the one that the target prescribes; and also
for every object that has the prescribed content under another number, as every earlier change or
restore of the object leaves it, and for every object that is deleted already and that the target
does not have, since the deletion that stands for it has the number zero.
-/

namespace TaskTipsCloud

open Txn Versions

/-- The revision number of the head of an object. -/
def Db.headNumber (d : Db) (p : Uuid) (k : ObjectKind × String) : Option ℤ :=
  ((d.data p).head k.1 k.2).map (·.revision)

/-- The content that a target prescribes for an object: that of its item, and a tombstone for an
object that is there but not in the target. -/
inductive Prescribes (target : List ManifestItem) (d : Db) (p : Uuid) (k : ObjectKind × String) :
    ObjectContent → Prop
  | item {item : ManifestItem} (hitem : item ∈ target) (hkey : item.key = k) :
      Prescribes target d p k item.content
  | deletion (hmissing : ∀ item ∈ target, item.key ≠ k) (hthere : (d.headContent p k).isSome) :
      Prescribes target d p k ⟨true, none, none⟩

/-- A target prescribes for an object a content that it does not have. -/
def IsDifference (target : List ManifestItem) (d : Db) (p : Uuid) (k : ObjectKind × String)
    (content : ObjectContent) : Prop :=
  Prescribes target d p k content ∧ d.headContent p k ≠ some content

/-- The objects that differ from what a target prescribes, a tombstone or not. -/
def differences (target : List ManifestItem) (d : Db) (p : Uuid) (tombstone : Bool) :
    Set (ObjectKind × String) :=
  {k | ∃ content, IsDifference target d p k content ∧ content.tombstone = tombstone}

/-- The revisions of a project that the database `d` has after those of `c`. -/
def Db.appendedSince (c d : Db) (p : Uuid) : List ObjectRevision :=
  (d.revisionsOf p).drop (c.revisionsOf p).length

/-- A restore, from the database `c` to `d`, writes the differences between the current contents
and those of its target, and counts them. -/
structure WritesDifferences (target : List ManifestItem) (c d : Db) (job : RestoreJob) :
    Prop where
  appended : ∀ k, (∃ r ∈ c.appendedSince d job.projectId, r.key = k) ↔
    ∃ content, IsDifference target c job.projectId k content
  counts : ∃ job', d.restoreJob job.id = some job' ∧
    job'.restoredObjects = (differences target c job.projectId false).ncard ∧
      job'.restoredTombstones = (differences target c job.projectId true).ncard

/-- Every object that has the content of its item has it under the number of the item, and no object
without an item is deleted already. -/
structure Db.Unrevised (d : Db) (p : Uuid) (target : List ManifestItem) : Prop where
  items : ∀ item ∈ target, d.headContent p item.key = some item.content →
    d.headNumber p item.key = some item.revision
  deletions : ∀ k, (∀ item ∈ target, item.key ≠ k) →
    d.headContent p k ≠ some ⟨true, none, none⟩

/-- A restore to a target with the items `target` that succeeds on the database `c` and leaves
`d`. -/
structure RestoresItems (c : Db) (job : RestoreJob) (target : List ManifestItem) (d : Db) :
    Prop where
  executed : ∃ now targetOrder currentOrder jobId leaseToken,
    leasedJob jobId leaseToken c = some job ∧ IsRestoreTarget (· = c) targetOrder job c target ∧
      (executeRestoreWithLease now targetOrder currentOrder jobId leaseToken).execute c =
        (.ok (), d)

/-! ## The items of a restore and the heads -/

section Coherent

variable {d : Db} {p : Uuid} {row : ProjectRow} (hd : d.Coherent) (hrow : d.project p = some row)
include hd hrow

/-- The heads have the numbers of the latest revisions. -/
theorem headNumber_eq (k : ObjectKind × String) : d.headNumber p k =
    (latest SyncRecord.key k (history (d.revisionsOf p))).map (·.revision) := by
  have hx := hd.data hrow
  unfold Db.headNumber
  rw [hx.heads, Option.map_map]
  rfl

/-- The heads have the contents of the latest records. -/
theorem headContent_eq_latest (k : ObjectKind × String) : d.headContent p k =
    (latest SyncRecord.key k (history (d.revisionsOf p))).map SyncRecord.content := by
  rw [headContent_eq hd hrow, map_latest_history (g := ObjectRevision.content) fun _ _ => rfl]

variable {rows : List ManifestRow} (hrows : IsCurrentOf rows (history (d.revisionsOf p)))
include hrows

/-- A restore skips an item whose content and number the head of its object has. -/
theorem needsRestore_iff (item : ManifestItem) : needsRestore rows item = true ↔
    ¬(d.headContent p item.key = some item.content ∧
      d.headNumber p item.key = some item.revision) := by
  have hexisting := hrows.existingRow_eq item
  rw [headContent_eq_latest hd hrow, headNumber_eq hd hrow, ← hexisting, needsRestore]
  cases hfound : existingRow rows item with
  | none => simp
  | some v =>
    have hkey := (key_of_existingRow hfound).2
    simp only [SyncRecord.key, Prod.mk.injEq] at hkey
    simp only [sameManifestState, hkey, SyncRecord.content, ManifestItem.content, Option.any_some,
      Bool.not_eq_true', Bool.and_eq_false_iff, beq_eq_false_iff_ne, Option.map_some,
      Option.some.injEq, ObjectContent.mk.injEq, ne_eq, not_and_or, beq_self_eq_true,
      Bool.true_eq_false, false_or, or_assoc]

/-- The items of a target with its deletions are what it prescribes. -/
theorem prescribes_iff {target : List ManifestItem} {k : ObjectKind × String}
    {content : ObjectContent} : Prescribes target d p k content ↔
      ∃ item ∈ withDeletions target rows, item.key = k ∧ item.content = content := by
  have hh : IsHistory (history (d.revisionsOf p)) := (hd.data hrow).isHistory
  rw [withDeletions_eq (hrows.nodup hh)]
  constructor
  · intro h
    cases h with
    | item hitem hkey => exact ⟨_, List.mem_append_left _ hitem, hkey, rfl⟩
    | deletion hmissing hthere =>
      rw [headContent_eq_latest hd hrow, Option.isSome_map] at hthere
      obtain ⟨v, hv⟩ := Option.isSome_iff_exists.mp hthere
      have hkey := key_of_latest hv
      have hmem : v ∈ missingRows target rows := by
        refine List.mem_filter.mpr ⟨hrows.mem.mpr (by rw [hkey, hv]), decide_eq_true ?_⟩
        intro hmem
        obtain ⟨item, hitem, hk⟩ := List.mem_map.mp hmem
        exact hmissing item hitem (hk.trans hkey)
      exact ⟨deletionOf v, List.mem_append_right _ (List.mem_map_of_mem hmem), hkey, rfl⟩
  · rintro ⟨item, hitem, rfl, rfl⟩
    rcases List.mem_append.mp hitem with hitem | hitem
    · exact .item hitem rfl
    · obtain ⟨v, hv, rfl⟩ := List.mem_map.mp hitem
      obtain ⟨hmem, hmissing⟩ := List.mem_filter.mp hv
      refine .deletion (fun item hitem hk => of_decide_eq_true hmissing ?_) ?_
      · exact List.mem_map.mpr ⟨item, hitem, hk⟩
      · have hlatest := hrows.mem.mp hmem
        rw [headContent_eq_latest hd hrow, Option.isSome_map]
        exact Option.isSome_iff_exists.mpr ⟨v, hlatest⟩

omit hrows in
/-- No head has the number zero. -/
theorem headNumber_ne_zero (k : ObjectKind × String) : d.headNumber p k ≠ some 0 := by
  have hh : IsHistory (history (d.revisionsOf p)) := (hd.data hrow).isHistory
  intro hzero
  rw [headNumber_eq hd hrow, Option.map_eq_some_iff] at hzero
  obtain ⟨v, hv, hnumber⟩ := hzero
  have hone := hh.numbered.one_le (mem_of_latest hv)
  omega

/-- The heads have every prescribed content that they have under the number of its item. -/
theorem unrevised_iff {target : List ManifestItem} : d.Unrevised p target ↔
    ∀ item ∈ withDeletions target rows, d.headContent p item.key = some item.content →
      d.headNumber p item.key = some item.revision := by
  have hh : IsHistory (history (d.revisionsOf p)) := (hd.data hrow).isHistory
  constructor
  · rintro ⟨hitems, hdeletions⟩ item hitem hcontent
    rw [withDeletions_eq (hrows.nodup hh)] at hitem
    rcases List.mem_append.mp hitem with hitem | hitem
    · exact hitems item hitem hcontent
    · obtain ⟨v, hv, rfl⟩ := List.mem_map.mp hitem
      refine absurd hcontent (hdeletions _ fun item hitem hk => ?_)
      exact of_decide_eq_true (List.mem_filter.mp hv).2 (List.mem_map.mpr ⟨item, hitem, hk⟩)
  · refine fun h => ⟨fun item hitem => h item ?_, fun k hmissing hcontent => ?_⟩
    · rw [withDeletions_eq (hrows.nodup hh)]
      exact List.mem_append_left _ hitem
    · have hprescribed : Prescribes target d p k ⟨true, none, none⟩ :=
        .deletion hmissing (by rw [hcontent]; rfl)
      obtain ⟨item, hitem, rfl, hitemContent⟩ := (prescribes_iff hd hrow hrows).mp hprescribed
      have hnumber := h item hitem (by rw [hcontent, hitemContent])
      have hzero : item.revision = 0 := by
        rw [withDeletions_eq (hrows.nodup hh)] at hitem
        rcases List.mem_append.mp hitem with hitem | hitem
        · exact absurd rfl (hmissing item hitem)
        · obtain ⟨v, -, rfl⟩ := List.mem_map.mp hitem
          rfl
      rw [hzero] at hnumber
      exact headNumber_ne_zero hd hrow _ hnumber

end Coherent

/-! ## The counts of a restore -/

/-- A restore counts the items without and with a tombstone. -/
theorem foldl_add_eq (items : List ManifestItem) (counts : RestoredCounts) :
    items.foldl (fun n item => n.add item.tombstone) counts =
      ⟨counts.objects + (items.filter (·.tombstone == false)).length,
        counts.tombstones + (items.filter (·.tombstone == true)).length⟩ := by
  induction items generalizing counts with
  | nil => simp
  | cons item items ih =>
    rw [List.foldl_cons, ih]
    cases hitem : item.tombstone <;> simp [RestoredCounts.add, hitem] <;> omega

/-- As many items as objects have a tombstone, or none, when the objects are different. -/
theorem ncard_items {items : List ManifestItem} (hitems : (items.map ManifestItem.key).Nodup)
    (tombstone : Bool) :
    ({k | ∃ item ∈ items, item.key = k ∧ item.tombstone = tombstone} :
      Set (ObjectKind × String)).ncard = (items.filter (·.tombstone == tombstone)).length := by
  have hnodup : ((items.filter (·.tombstone == tombstone)).map ManifestItem.key).Nodup :=
    hitems.sublist (List.filter_sublist.map _)
  have hset : ({k | ∃ item ∈ items, item.key = k ∧ item.tombstone = tombstone} :
      Set (ObjectKind × String)) =
        ((items.filter (·.tombstone == tombstone)).map ManifestItem.key).toFinset := by
    ext k
    simp only [Set.mem_ofPred_eq, List.coe_toFinset, List.mem_map, List.mem_filter, beq_iff_eq]
    constructor
    · rintro ⟨item, hitem, hkey, htombstone⟩
      exact ⟨item, ⟨hitem, htombstone⟩, hkey⟩
    · rintro ⟨item, ⟨hitem, htombstone⟩, hkey⟩
      exact ⟨item, hitem, hkey, htombstone⟩
  rw [hset, Set.ncard_coe_finset, List.toFinset_card_of_nodup hnodup, List.length_map]

/-! ## What a restore appends -/

section Restored

variable {R : Set Lock → Db → Db → Prop} {now : Timestamp} {targetOrder currentOrder : ScanOrder}
  {job : RestoreJob} {c d : Db} {row : ProjectRow} {target : List ManifestItem}
  {rs : List ObjectRevision}
  (h : RestoredRows R now targetOrder currentOrder job c d row target rs)
include h

/-- What was appended since the capture are the revisions of the restore. -/
theorem RestoredRows.appendedSince_eq : c.appendedSince d job.projectId = rs := by
  rw [Db.appendedSince, h.revisions, List.drop_left]

/-- The objects that get a revision are those of the items that a restore does not skip. -/
theorem RestoredRows.exists_key_iff {k : ObjectKind × String} :
    (∃ r ∈ rs, r.key = k) ↔
      ∃ item ∈ withDeletions target (headRows .worker currentOrder job.projectId c),
        needsRestore (headRows .worker currentOrder job.projectId c) item = true ∧
          item.key = k := by
  have hkeys := map_key_of_restored h.items
  have hmem : (∃ r ∈ rs, r.key = k) ↔ k ∈ rs.map ObjectRevision.key := List.mem_map.symm
  rw [hmem, hkeys, List.mem_map]
  simp only [List.mem_filter, and_assoc]

/-- A restore appends at most one revision of an object: a second one would have the same number. -/
theorem RestoredRows.nodup_key (hd : d.Coherent) : (rs.map ObjectRevision.key).Nodup := by
  have hids : ((d.revisionsOf job.projectId).map (·.id)).Nodup :=
    nodup_map_id (hd.data h.after).isHistory
  rw [h.revisions, List.map_append] at hids
  have hrs := (List.nodup_append.mp hids).2.1
  refine (List.nodup_map_iff_inj_on hrs.of_map).mpr fun r hr r' hr' hkey => ?_
  refine List.inj_on_of_nodup_map hrs hr hr' ?_
  obtain ⟨item, -, payload, rfl⟩ := exists_of_forall₂ h.items.flip hr
  obtain ⟨item', -, payload', rfl⟩ := exists_of_forall₂ h.items.flip hr'
  obtain ⟨hkind, hid⟩ := Prod.mk.inj hkey
  have hactual : actualRevision (headRows .worker currentOrder job.projectId c) item =
      actualRevision (headRows .worker currentOrder job.projectId c) item' := by
    simp only [restoredRevision] at hkind hid
    rw [actualRevision, actualRevision, existingRow, existingRow, hkind, hid]
  simp only [ObjectRevision.id, restoredRevision] at hkind hid ⊢
  rw [hkind, hid, hactual]

/-- A restore whose heads have the prescribed contents under the prescribed numbers writes the
differences. -/
theorem RestoredRows.writesDifferences (hc : c.Coherent) (hd : d.Coherent)
    (hcounts : ∃ job', d.restoreJob job.id = some job' ∧
      RestoredCounts.mk job'.restoredObjects job'.restoredTombstones =
        ((withDeletions target (headRows .worker currentOrder job.projectId c)).filter
          (needsRestore (headRows .worker currentOrder job.projectId c))).foldl
            (fun n item => n.add item.tombstone) ⟨0, 0⟩)
    (hunrevised : c.Unrevised job.projectId target) : WritesDifferences target c d job := by
  have hrows := isCurrentOf_headRows hc h.before currentOrder
  have hdiffers := (unrevised_iff hc h.before hrows).mp hunrevised
  -- Without its second half the test of an item compares the contents.
  have hneeds : ∀ item ∈ withDeletions target (headRows .worker currentOrder job.projectId c),
      (needsRestore (headRows .worker currentOrder job.projectId c) item = true ↔
        c.headContent job.projectId item.key ≠ some item.content) := fun item hitem => by
    rw [needsRestore_iff hc h.before hrows]
    exact ⟨fun hne hcontent => hne ⟨hcontent, hdiffers item hitem hcontent⟩, fun hne hsame =>
      hne hsame.1⟩
  have hdifference : ∀ {k content}, IsDifference target c job.projectId k content ↔
      ∃ item ∈ (withDeletions target (headRows .worker currentOrder job.projectId c)).filter
        (needsRestore (headRows .worker currentOrder job.projectId c)),
          item.key = k ∧ item.content = content := fun {k content} => by
    rw [IsDifference, prescribes_iff hc h.before hrows]
    constructor
    · rintro ⟨⟨item, hitem, rfl, rfl⟩, hne⟩
      exact ⟨item, List.mem_filter.mpr ⟨hitem, (hneeds item hitem).mpr hne⟩, rfl, rfl⟩
    · rintro ⟨item, hitem, rfl, rfl⟩
      obtain ⟨hitem, hneed⟩ := List.mem_filter.mp hitem
      exact ⟨⟨item, hitem, rfl, rfl⟩, (hneeds item hitem).mp hneed⟩
  have hnodup : (((withDeletions target (headRows .worker currentOrder job.projectId c)).filter
      (needsRestore (headRows .worker currentOrder job.projectId c))).map ManifestItem.key).Nodup :=
    map_key_of_restored h.items ▸ h.nodup_key hd
  have hset : ∀ tombstone, differences target c job.projectId tombstone =
      {k | ∃ item ∈ (withDeletions target (headRows .worker currentOrder job.projectId c)).filter
        (needsRestore (headRows .worker currentOrder job.projectId c)),
          item.key = k ∧ item.tombstone = tombstone} := fun tombstone => by
    ext k
    simp only [differences, hdifference, Set.mem_ofPred_eq]
    constructor
    · rintro ⟨_, ⟨item, hitem, hkey, rfl⟩, htombstone⟩
      exact ⟨item, hitem, hkey, htombstone⟩
    · rintro ⟨item, hitem, hkey, htombstone⟩
      exact ⟨_, ⟨item, hitem, hkey, rfl⟩, htombstone⟩
  obtain ⟨job', hjob', hcounts⟩ := hcounts
  rw [foldl_add_eq] at hcounts
  obtain ⟨hobjects, htombstones⟩ := RestoredCounts.mk.inj hcounts
  refine ⟨fun k => ?_, job', hjob', ?_, ?_⟩
  · rw [h.appendedSince_eq, h.exists_key_iff]
    constructor
    · rintro ⟨item, hitem, hneed, hkey⟩
      exact ⟨_, hdifference.mpr ⟨item, List.mem_filter.mpr ⟨hitem, hneed⟩, hkey, rfl⟩⟩
    · rintro ⟨_, hdiff⟩
      obtain ⟨item, hitem, hkey, -⟩ := hdifference.mp hdiff
      exact ⟨item, (List.mem_filter.mp hitem).1, (List.mem_filter.mp hitem).2, hkey⟩
  · rw [hset, ncard_items hnodup, hobjects, zero_add]
  · rw [hset, ncard_items hnodup, htombstones, zero_add]

/-- A restore that writes the differences has found the prescribed contents under the prescribed
numbers: an object with another number gets a revision, and so it would differ from another item of
the target too, which would get a second revision. -/
theorem RestoredRows.unrevised_of_writesDifferences (hc : c.Coherent) (hd : d.Coherent)
    (hwrites : WritesDifferences target c d job) : c.Unrevised job.projectId target := by
  have hrows := isCurrentOf_headRows hc h.before currentOrder
  refine (unrevised_iff hc h.before hrows).mpr fun item hitem hcontent => ?_
  by_contra hnumber
  have hneeds := (needsRestore_iff hc h.before hrows item).mpr fun hsame => hnumber hsame.2
  have happended := (hwrites.appended item.key).mp (by
    rw [h.appendedSince_eq]
    exact h.exists_key_iff.mpr ⟨item, hitem, hneeds, rfl⟩)
  obtain ⟨content, hprescribed, hne⟩ := happended
  obtain ⟨item', hitem', hkey, rfl⟩ := (prescribes_iff hc h.before hrows).mp hprescribed
  have hneeds' := (needsRestore_iff hc h.before hrows item').mpr fun hsame =>
    hne (hkey ▸ hsame.1)
  have hnodup := h.nodup_key hd
  rw [map_key_of_restored h.items] at hnodup
  have hsame := List.inj_on_of_nodup_map hnodup (List.mem_filter.mpr ⟨hitem', hneeds'⟩)
    (List.mem_filter.mpr ⟨hitem, hneeds⟩) hkey
  rw [hsame] at hne
  exact hne hcontent

/-- After a restore to a target with one item for each object, every object has the content that the
target prescribes. -/
theorem RestoredRows.headContent_of_prescribes (hc : c.Coherent) (hd : d.Coherent)
    (htarget : (target.map ManifestItem.key).Nodup) {k : ObjectKind × String}
    {content : ObjectContent} (hprescribed : Prescribes target d job.projectId k content) :
    d.headContent job.projectId k = some content := by
  have hh : IsHistory (history (c.revisionsOf job.projectId)) := (hc.data h.before).isHistory
  have hrows := isCurrentOf_headRows hc h.before currentOrder
  have hafter : ∀ {item}, item ∈ withDeletions target
      (headRows .worker currentOrder job.projectId c) →
        d.headContent job.projectId item.key = some item.content := fun {item} hitem => by
    rw [headContent_eq hd h.after, h.revisions]
    exact content_of_restored hh hrows h.items htarget hitem
  cases hprescribed with
  | item hitem hkey =>
    subst hkey
    refine hafter ?_
    rw [withDeletions_eq (hrows.nodup hh)]
    exact List.mem_append_left _ hitem
  | deletion hmissing hthere =>
    -- An object that is there afterwards was there before, as the restore adds objects of the
    -- target only.
    have hbefore : (c.headContent job.projectId k).isSome := by
      rw [headContent_eq hd h.after, h.revisions, latest_append, Option.isSome_map,
        Option.isSome_or, Bool.or_eq_true] at hthere
      rcases hthere with hthere | hthere
      · obtain ⟨r, hr⟩ := Option.isSome_iff_exists.mp hthere
        obtain ⟨item, hitem, -, hkey⟩ := h.exists_key_iff.mp
          ⟨r, mem_of_latest hr, key_of_latest hr⟩
        have hprescribed := (prescribes_iff hc h.before hrows).mpr ⟨item, hitem, hkey, rfl⟩
        generalize item.content = content at hprescribed
        cases hprescribed with
        | item hitem hkey => exact absurd hkey (hmissing _ hitem)
        | deletion _ hthere => exact hthere
      · rw [headContent_eq hc h.before, Option.isSome_map]
        exact hthere
    obtain ⟨item, hitem, rfl, hcontent⟩ := (prescribes_iff hc h.before hrows).mp
      (Prescribes.deletion hmissing hbefore)
    rw [hafter hitem, hcontent]

/-- A restore that finds every prescribed content appends nothing exactly when it finds them under
the prescribed numbers. -/
theorem RestoredRows.eq_nil_iff (hc : c.Coherent)
    (hthere : ∀ k content, Prescribes target c job.projectId k content →
      c.headContent job.projectId k = some content) :
    rs = [] ↔ c.Unrevised job.projectId target := by
  have hrows := isCurrentOf_headRows hc h.before currentOrder
  have hlength := h.items.length_eq
  rw [unrevised_iff hc h.before hrows, ← List.length_eq_zero_iff, ← hlength,
    List.length_eq_zero_iff, List.filter_eq_nil_iff]
  refine forall₂_congr fun item hitem => ?_
  have hcontent := hthere _ _ ((prescribes_iff hc h.before hrows).mpr ⟨item, hitem, rfl, rfl⟩)
  rw [needsRestore_iff hc h.before hrows, not_not]
  exact ⟨fun hsame _ => hsame.2, fun hnumber => ⟨hcontent, hnumber hcontent⟩⟩

end Restored

/-! ## RestoresItems in reachable states -/

/-- A restore reads the target of its job from the database that it runs on. -/
theorem IsRestoreTarget.unique {order : ScanOrder} {job : RestoreJob} {c : Db}
    {target target' : List ManifestItem} (h : IsRestoreTarget (· = c) order job c target)
    (h' : IsRestoreTarget (fun d => ∃ _ : Set Lock, d = c ∧ d.Sound) order job c target') :
    target = target' := by
  cases h with
  | snapshot hjob hd hmanifest htarget =>
    cases h' with
    | snapshot hjob' hd' hmanifest' htarget' =>
      obtain ⟨_, rfl, -⟩ := hd'
      subst hd
      rw [hjob] at hjob'
      cases hjob'
      rw [hmanifest] at hmanifest'
      cases hmanifest'
      rw [htarget] at htarget'
      exact Except.ok.inj htarget'
    | sequence hjob' => rw [hjob] at hjob'; cases hjob'
  | sequence hjob ht =>
    cases h' with
    | snapshot hjob' => rw [hjob] at hjob'; cases hjob'
    | sequence _ ht' =>
      rw [ht] at ht'
      cases ht'
      rfl

/-- What a restore changes. -/
theorem RestoresItems.rows {c d : Db} {job : RestoreJob} {target : List ManifestItem} (hc : c.Sound)
    (h : RestoresItems c job target d) : d.Sound ∧ ∃ now targetOrder currentOrder row rs,
      RestoredRows (fun _ d c => d = c ∧ d.Sound) now targetOrder currentOrder job c d row target
        rs ∧ ∃ job', d.restoreJob job.id = some job' ∧
          RestoredCounts.mk job'.restoredObjects job'.restoredTombstones =
            ((withDeletions target (headRows .worker currentOrder job.projectId c)).filter
              (needsRestore (headRows .worker currentOrder job.projectId c))).foldl
                (fun n item => n.add item.tombstone) ⟨0, 0⟩ := by
  obtain ⟨now, targetOrder, currentOrder, jobId, leaseToken, hjob, htarget, hexecute⟩ := h.executed
  have heffect := restoreEffect_of_execute hc hexecute
  obtain ⟨row, target', rs, hrows, hcounts⟩ := heffect.rows_counts hjob
  obtain rfl := htarget.unique hrows.isTarget
  exact ⟨heffect.sound hc, now, targetOrder, currentOrder, row, rs, hrows, hcounts⟩

/-- A restore writes the differences exactly when the heads with prescribed contents have the
prescribed numbers. -/
theorem RestoresItems.writesDifferences_iff {c d : Db} {job : RestoreJob}
    {target : List ManifestItem}
    (hc : c.Sound) (h : RestoresItems c job target d) :
    WritesDifferences target c d job ↔ c.Unrevised job.projectId target := by
  obtain ⟨hd, _, _, _, row, rs, hrows, hcounts⟩ := h.rows hc
  exact ⟨hrows.unrevised_of_writesDifferences hc.coherent hd.coherent,
    hrows.writesDifferences hc.coherent hd.coherent hcounts⟩

/-- The contents of the heads are told by the revisions. -/
theorem headContent_congr {c d : Db} {p : Uuid} {row row' : ProjectRow} (hc : c.Coherent)
    (hd : d.Coherent) (hrow : c.project p = some row) (hrow' : d.project p = some row')
    (hrevisions : c.revisionsOf p = d.revisionsOf p) : c.headContent p = d.headContent p := by
  funext k
  rw [headContent_eq hc hrow, headContent_eq hd hrow', hrevisions]

/-- A second restore to a target in a row appends nothing exactly when it finds the prescribed
numbers. -/
theorem RestoresItems.again {c d c' d' : Db} {job job' : RestoreJob}
    {target target' : List ManifestItem}
    (hc : c.Sound) (hc' : c'.Sound) (h : RestoresItems c job target d)
    (h' : RestoresItems c' job' target' d')
    (htarget : (target.map ManifestItem.key).Nodup) (hp : job'.projectId = job.projectId)
    (hsame : ∀ item, item ∈ target' ↔ item ∈ target)
    (hrevisions : c'.revisionsOf job.projectId = d.revisionsOf job.projectId) :
    c'.appendedSince d' job.projectId = [] ↔ c'.Unrevised job.projectId target' := by
  obtain ⟨hd, _, _, _, row, rs, hrows, -⟩ := h.rows hc
  obtain ⟨-, _, _, _, row', rs', hrows', -⟩ := h'.rows hc'
  have hrow' := hrows'.before
  have happended := hrows'.appendedSince_eq
  have hnil := hrows'.eq_nil_iff hc'.coherent
  rw [hp] at hrow' happended hnil
  have hheads := headContent_congr hc'.coherent hd.coherent hrow' hrows.after hrevisions
  rw [happended]
  refine hnil fun k content hprescribed => ?_
  rw [hheads]
  refine hrows.headContent_of_prescribes hc.coherent hd.coherent htarget ?_
  cases hprescribed with
  | item hitem hkey => exact .item ((hsame _).mp hitem) hkey
  | deletion hmissing hthere =>
    exact .deletion (fun item hitem => hmissing item ((hsame item).mpr hitem)) (hheads ▸ hthere)

/-- In every reachable state, a restore writes the differences exactly when every object that has
the content of its item has it under the number of the item, and no object without an item is
deleted already. And when a second restore, in any reachable state with the revisions that the first
one left, has a target with the same items, one for each object, it appends nothing exactly when the
same holds of that state. -/
theorem restores_write_differences {host : Host} {users : List UserRow}
    {w : World Db Lock PersistenceError Reply Request}
    (hw : (service host).Reachable (.initial users) w) {job : RestoreJob}
    {target : List ManifestItem} {d : Db} (h : RestoresItems w.committed job target d) :
    (WritesDifferences target w.committed d job ↔
      w.committed.Unrevised job.projectId target) ∧
    ((target.map ManifestItem.key).Nodup → ∀ w' job' target' d',
      (service host).Reachable (.initial users) w' → RestoresItems w'.committed job' target' d' →
        job'.projectId = job.projectId → (∀ item, item ∈ target' ↔ item ∈ target) →
          w'.committed.revisionsOf job.projectId = d.revisionsOf job.projectId →
            (w'.committed.appendedSince d' job.projectId = [] ↔
              w'.committed.Unrevised job.projectId target')) := by
  have hsound := hw.inv (relies_service host) (sound_initial users)
  refine ⟨h.writesDifferences_iff hsound, fun htarget w' job' target' d' hw' h' hp hsame hrev => ?_⟩
  exact h.again hsound (hw'.inv (relies_service host) (sound_initial users)) h' htarget hp hsame
    hrev

/-! ## Sample restores -/

/-- The sample run up to a restore to a sequence, which a worker has claimed. -/
def leasedTo (t : ℤ) : List Request :=
  sampleSetup ++ samplePushes ++
    [⟨3, .enqueueRestore ⟨1, 2, none, some t, "undo", "r", 7⟩⟩, ⟨3, .claimRestoreJob [] 8⟩]

/-- The sample run with a restore to the sequence 3, up to a second restore to it. -/
def leasedAgain : List Request :=
  sampleSetup ++ samplePushes ++ sampleRestore 9 7 3 ++
    [⟨9, .enqueueRestore ⟨1, 2, none, some 3, "undo", "r", 9⟩⟩, ⟨9, .claimRestoreJob [] 8⟩]

/-- The items of the target of a sample restore. -/
def sampleTarget (t : ℤ) (d : Db) : List ManifestItem :=
  (rankedRows .worker .stored 2 t d).map manifestItemFromRow

/-- What a sample restore leaves. -/
def restoredSample (jobId : Uuid) (d : Db) : Db :=
  ((executeRestoreWithLease 9 .stored .stored jobId 8).execute d).2

/-- A restore of a sample run. -/
theorem restores_sample (d : Db) (jobId : Uuid) (t : ℤ)
    (hjob : (leasedJob jobId 8 d).map
        (fun j => (j.projectId, j.snapshotId, j.targetChangeSequence)) =
      some (2, none, some t))
    (hresult : ((executeRestoreWithLease 9 .stored .stored jobId 8).execute d).1.isOk = true) :
    ∃ job, job.projectId = 2 ∧
      RestoresItems d job (sampleTarget t d) (restoredSample jobId d) := by
  obtain ⟨job, hsome, hfields⟩ := Option.map_eq_some_iff.mp hjob
  simp only [Prod.mk.injEq] at hfields
  obtain ⟨hp, hsnapshot, htarget⟩ := hfields
  refine ⟨job, hp, ⟨9, .stored, .stored, jobId, 8, hsome, ?_, ?_⟩⟩
  · have hsequence : IsRestoreTarget (· = d) .stored job d
        ((rankedRows .worker .stored job.projectId t d).map manifestItemFromRow) :=
      .sequence hsnapshot htarget
    rw [hp] at hsequence
    exact hsequence
  · unfold restoredSample
    generalize (executeRestoreWithLease 9 .stored .stored jobId 8).execute d = x at hresult ⊢
    obtain ⟨r | r, d'⟩ := x
    · cases hresult
    · rfl

/-- The sample runs are sound. -/
theorem sound_sampleWorld {requests : List Request}
    (h : (0 :: requests.map (·.now)).Pairwise (· ≤ ·)) :
    (sampleWorld requests).committed.Sound :=
  (reachable_sampleWorld h).inv (relies_service sampleHost) (sound_initial _)

set_option maxRecDepth 8000 in
/-- A restore of an object that is deleted and one that is as it was writes the differences. The
same restore once more appends a revision again, as the first one has moved the number. -/
theorem leasedTo_write_differences : ∃ job target,
    WritesDifferences target (sampleWorld (leasedTo 3)).committed
        (restoredSample 7 (sampleWorld (leasedTo 3)).committed) job ∧
      (sampleWorld leasedAgain).committed.appendedSince
        (restoredSample 9 (sampleWorld leasedAgain).committed) 2 ≠ [] := by
  obtain ⟨job, hp, hrestores⟩ := restores_sample (sampleWorld (leasedTo 3)).committed 7 3
    (by decide +kernel) (by decide +kernel)
  obtain ⟨job', hp', hrestores'⟩ := restores_sample (sampleWorld leasedAgain).committed 9 3
    (by decide +kernel) (by decide +kernel)
  obtain ⟨hwrites, hagain⟩ := restores_write_differences
    (@reachable_sampleWorld (leasedTo 3) (by decide)) hrestores
  have htarget : sampleTarget 3 (sampleWorld leasedAgain).committed =
      sampleTarget 3 (sampleWorld (leasedTo 3)).committed := by decide +kernel
  have hagain := hagain (by decide +kernel) _ _ _ _ (@reachable_sampleWorld leasedAgain (by decide))
    hrestores' (hp'.trans hp.symm) (fun item => by rw [htarget]) (by rw [hp]; decide +kernel)
  rw [hp] at hwrites hagain
  refine ⟨job, _, hwrites.mpr ?_, fun hnil => ?_⟩
  · obtain ⟨row, hrow⟩ : ∃ row, (sampleWorld (leasedTo 3)).committed.project 2 = some row :=
      Option.isSome_iff_exists.mp (by decide +kernel)
    have hsound := @sound_sampleWorld (leasedTo 3) (by decide)
    refine (unrevised_iff hsound.coherent hrow
      (isCurrentOf_headRows hsound.coherent hrow .stored)).mpr ?_
    decide +kernel
  · have hitems := (hagain.mp hnil).items
    revert hitems
    decide +kernel

set_option maxRecDepth 8000 in
/-- A restore to the start of a project appends a tombstone of an object that is deleted already. -/
theorem leasedTo_redundant : ∃ job target d,
    RestoresItems (sampleWorld (leasedTo 0)).committed job target d ∧
      ¬WritesDifferences target (sampleWorld (leasedTo 0)).committed d job := by
  obtain ⟨job, hp, hrestores⟩ := restores_sample (sampleWorld (leasedTo 0)).committed 7 0
    (by decide +kernel) (by decide +kernel)
  refine ⟨job, _, _, hrestores, fun hwrites => ?_⟩
  have hunrevised := (hrestores.writesDifferences_iff
    (@sound_sampleWorld (leasedTo 0) (by decide))).mp hwrites
  rw [hp] at hunrevised
  refine hunrevised.deletions (.todo, "y") ?_ (by decide +kernel)
  decide +kernel

end TaskTipsCloud

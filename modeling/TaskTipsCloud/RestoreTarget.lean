import TaskTipsCloud.Events

/-!
# What a restore leaves

The target of a restore has one item for each object of a history: of the history up to the target
sequence, or of the history that a snapshot was taken of. A restore appends a revision for every
item that the head of its object does not have already, so that afterwards the latest revision of
each object has the content of its item.
-/

namespace TaskTipsCloud

open Txn Versions

/-- What a revision says of its object. -/
structure ObjectContent where
  tombstone : Bool
  schemaVersion : Option ℤ
  contentHash : Option String
  deriving DecidableEq, Repr

/-- The object of a record, its hash and whether it is deleted. -/
def SyncRecord.content (v : SyncRecord) : ObjectContent :=
  ⟨v.tombstone, v.schemaVersion, v.contentHash⟩

/-- The object of a revision, its hash and whether it is deleted. -/
def ObjectRevision.content (r : ObjectRevision) : ObjectContent :=
  ⟨r.isTombstone, r.schemaVersion, r.contentHash⟩

/-- The object of an item, its hash and whether it is deleted. -/
def ManifestItem.content (item : ManifestItem) : ObjectContent :=
  ⟨item.tombstone, item.schemaVersion, item.contentHash⟩

/-- The object of an item. -/
def ManifestItem.key (item : ManifestItem) : ObjectKind × String := (item.kind, item.id)

/-! ## Histories and their revisions -/

/-- The latest record of an object is its latest revision with its entry. -/
theorem latest_history (k : ObjectKind × String) (rs : List ObjectRevision) :
    latest SyncRecord.key k (history rs) =
      (latest (fun x : ObjectRevision × ℕ => x.1.key) k (rs.zipIdx 1)).map
        fun (r, i) => r.syncRecord (r.entry i) := by
  unfold history
  exact latest_map fun _ => rfl

/-- Numbering the revisions does not change which is the latest. -/
theorem latest_zipIdx (k : ObjectKind × String) (rs : List ObjectRevision) (n : ℕ) :
    (latest (fun x : ObjectRevision × ℕ => x.1.key) k (rs.zipIdx n)).map Prod.fst =
      latest ObjectRevision.key k rs := by
  have hfst : (rs.zipIdx n).map Prod.fst = rs := by simp
  calc (latest (fun x : ObjectRevision × ℕ => x.1.key) k (rs.zipIdx n)).map Prod.fst
      = latest ObjectRevision.key k ((rs.zipIdx n).map Prod.fst) := (latest_map fun _ => rfl).symm
    _ = latest ObjectRevision.key k rs := by rw [hfst]

/-- What a record has from its revision is told by the latest revision. -/
theorem map_latest_history {α : Type} {f : SyncRecord → α} {g : ObjectRevision → α}
    (hfg : ∀ r c, f (r.syncRecord c) = g r) (k : ObjectKind × String)
    (rs : List ObjectRevision) :
    (latest SyncRecord.key k (history rs)).map f = (latest ObjectRevision.key k rs).map g := by
  rw [latest_history, ← latest_zipIdx k rs 1, Option.map_map, Option.map_map]
  refine congrArg (Option.map · _) (funext fun x => ?_)
  exact hfg x.1 _

/-- A part of the revisions from the start has that part of the history. -/
theorem history_take (rs : List ObjectRevision) (n : ℕ) :
    history (rs.take n) = (history rs).take n := by
  refine List.ext_getElem? fun i => ?_
  simp only [history, List.getElem?_map, List.getElem?_zipIdx, List.getElem?_take]
  split <;> rfl

/-! ## The items of a restore -/

/-- The items of a target are those of the latest records of a history, in any order. -/
def IsTargetOf (target : List ManifestItem) (h : List SyncRecord) : Prop :=
  target.Perm ((current SyncRecord.key h).map manifestItemFromRow)

/-- The rows that a restore reads as the current ones are the latest records of a history. -/
def IsCurrentOf (rows : List ManifestRow) (h : List SyncRecord) : Prop :=
  rows.Perm (current SyncRecord.key h)

/-- An item is about the object of its row. -/
theorem key_manifestItemFromRow (v : ManifestRow) : (manifestItemFromRow v).key = v.key := rfl

/-- The objects of the latest records are different. -/
theorem nodup_map_key_current {h : List SyncRecord} (hh : IsHistory h) :
    ((current SyncRecord.key h).map SyncRecord.key).Nodup := by
  refine (List.nodup_map_iff_inj_on (hh.nodup.filter _)).mpr fun v hv w hw hk => ?_
  have hv := mem_current_iff.mp hv
  have hw := mem_current_iff.mp hw
  rw [hk, hw] at hv
  exact (Option.some.inj hv).symm

namespace IsCurrentOf

variable {rows : List ManifestRow} {h : List SyncRecord} (hrows : IsCurrentOf rows h)
include hrows

/-- The rows are the latest records of the history. -/
theorem mem {v : SyncRecord} : v ∈ rows ↔ latest SyncRecord.key v.key h = some v := by
  rw [hrows.mem_iff, mem_current_iff]

/-- An object has at most one row. -/
theorem nodup (hh : IsHistory h) : (rows.map SyncRecord.key).Nodup :=
  (hrows.map SyncRecord.key).nodup_iff.mpr (nodup_map_key_current hh)

/-- An item finds the latest record of its object. -/
theorem existingRow_eq (item : ManifestItem) :
    existingRow rows item = latest SyncRecord.key item.key h := by
  cases hl : latest SyncRecord.key item.key h with
  | none =>
    refine List.find?_eq_none.mpr fun v hv => ?_
    have hne := latest_eq_none_iff.mp hl v (mem_of_latest (hrows.mem.mp hv))
    simpa [SyncRecord.key, ManifestItem.key] using hne
  | some v =>
    have hkey := key_of_latest hl
    cases hfind : existingRow rows item with
    | none =>
      have hnot := List.find?_eq_none.mp hfind v (hrows.mem.mpr (by rw [hkey, hl]))
      simp only [SyncRecord.key, ManifestItem.key, Prod.mk.injEq] at hkey
      simp [hkey] at hnot
    | some w =>
      obtain ⟨hmem, hw⟩ := key_of_existingRow hfind
      have hlw := hrows.mem.mp hmem
      rw [hw] at hlw
      exact hlw.symm.trans hl

end IsCurrentOf

/-- The current rows whose objects a target does not have. -/
def missingRows (target : List ManifestItem) (current : List ManifestRow) : List ManifestRow :=
  current.filter fun row => row.key ∉ target.map ManifestItem.key

/-- A target gets one deletion for each of the current objects that it does not have. -/
theorem withDeletions_eq {current : List ManifestRow}
    (hcurrent : (current.map SyncRecord.key).Nodup)
    (target : List ManifestItem) :
    withDeletions target current = target ++ (missingRows target current).map deletionOf := by
  induction current generalizing target with
  | nil => simp [withDeletions, missingRows]
  | cons row rows ih =>
    obtain ⟨hrow, hrows⟩ := List.nodup_cons.mp hcurrent
    have hany : (target.any fun item => item.kind == row.kind && item.id == row.id) = true ↔
        row.key ∈ target.map ManifestItem.key := by
      simp [SyncRecord.key, ManifestItem.key, Prod.mk.injEq]
    unfold withDeletions at ih ⊢
    rw [List.foldl_cons]
    split
    · rename_i hthere
      rw [ih hrows]
      unfold missingRows
      rw [List.filter_cons_of_neg (by simpa using hany.mp hthere)]
    · rename_i hmissing
      rw [ih hrows]
      have hskip : missingRows (target ++ [deletionOf row]) rows = missingRows target rows := by
        refine List.filter_congr fun v hv => ?_
        have hne : v.key ≠ (deletionOf row).key := fun heq =>
          hrow (List.mem_map.mpr ⟨v, hv, heq⟩)
        simp [hne]
      have hcons : missingRows target (row :: rows) = row :: missingRows target rows := by
        unfold missingRows
        rw [List.filter_cons_of_pos (by rwa [decide_eq_true_eq, ← hany])]
      rw [hskip, hcons, List.map_cons, List.append_assoc]
      rfl

/-- A target with the deletions has one item for each object. -/
theorem nodup_withDeletions {target : List ManifestItem} {current : List ManifestRow}
    (htarget : (target.map ManifestItem.key).Nodup)
    (hcurrent : (current.map SyncRecord.key).Nodup) :
    ((withDeletions target current).map ManifestItem.key).Nodup := by
  have hkeys : ((missingRows target current).map deletionOf).map ManifestItem.key =
      (missingRows target current).map SyncRecord.key := by
    rw [List.map_map]
    rfl
  rw [withDeletions_eq hcurrent, List.map_append, hkeys]
  refine List.Nodup.append htarget (hcurrent.sublist (List.filter_sublist.map _)) ?_
  intro k hk hmissing
  obtain ⟨row, hrow, rfl⟩ := List.mem_map.mp hmissing
  exact of_decide_eq_true (List.mem_filter.mp hrow).2 hk

/-- The restored revisions are of the objects of their items. -/
theorem map_key_of_restored {now : Timestamp} {p ownerUserId : Uuid} {current : List ManifestRow}
    {items : List ManifestItem} {rs : List ObjectRevision}
    (h : List.Forall₂ (IsRestored now p ownerUserId current) items rs) :
    rs.map ObjectRevision.key = items.map ManifestItem.key := by
  induction h with
  | nil => rfl
  | cons hr _ ih =>
    obtain ⟨payloadId, rfl⟩ := hr
    rw [List.map_cons, List.map_cons, ih]
    rfl

/-- The objects of a target are different. -/
theorem IsTargetOf.nodup {target : List ManifestItem} {h : List SyncRecord}
    (htarget : IsTargetOf target h) (hh : IsHistory h) : (target.map ManifestItem.key).Nodup := by
  refine (htarget.map ManifestItem.key).nodup_iff.mpr ?_
  rw [List.map_map]
  exact nodup_map_key_current hh

/-! ## What the restored revisions say -/

section Restored

variable {now : Timestamp} {p ownerUserId : Uuid} {rs₀ rs : List ObjectRevision}
  {rows : List ManifestRow} {target : List ManifestItem} {h₀ : List SyncRecord}
  (hh : IsHistory (history rs₀)) (hrows : IsCurrentOf rows (history rs₀))
  (hitems : List.Forall₂ (IsRestored now p ownerUserId rows)
    ((withDeletions target rows).filter (needsRestore rows)) rs)
include hh hrows hitems

/-- Afterwards the latest revision of the object of an item has the content of the item. -/
theorem content_of_restored (htarget : (target.map ManifestItem.key).Nodup) {item : ManifestItem}
    (hitem : item ∈ withDeletions target rows) :
    (latest ObjectRevision.key item.key (rs₀ ++ rs)).map ObjectRevision.content =
      some item.content := by
  have hnodup := nodup_withDeletions htarget (hrows.nodup hh)
  have hkeys := map_key_of_restored hitems
  have hrs : (rs.map ObjectRevision.key).Nodup := by
    rw [hkeys]
    exact hnodup.sublist (List.filter_sublist.map _)
  rw [latest_append]
  by_cases hneeds : needsRestore rows item = true
  · -- The item is restored: its revision is the only one of its object that is appended.
    obtain ⟨r, hr, payloadId, heq⟩ : ∃ r ∈ rs, IsRestored now p ownerUserId rows item r :=
      exists_of_forall₂ hitems (List.mem_filter.mpr ⟨hitem, hneeds⟩)
    have hlatest := latest_of_nodup hrs hr
    have hkey : r.key = item.key := by rw [heq]; rfl
    rw [hkey] at hlatest
    rw [hlatest, heq]
    rfl
  · -- The item is skipped: the head has its state already, and no revision is appended.
    have hnone : latest ObjectRevision.key item.key rs = none := by
      refine latest_eq_none_iff.mpr fun r hr hk => hneeds ?_
      have hmem : r.key ∈ rs.map ObjectRevision.key := List.mem_map_of_mem hr
      rw [hkeys, hk] at hmem
      obtain ⟨item', hitem', hk'⟩ := List.mem_map.mp hmem
      obtain ⟨hmem', hneeds'⟩ := List.mem_filter.mp hitem'
      rwa [← List.inj_on_of_nodup_map hnodup hmem' hitem hk']
    simp only [needsRestore, Bool.not_eq_true', Bool.not_eq_false, Option.any_eq_true] at hneeds
    obtain ⟨v, hv, hsame⟩ := hneeds
    rw [hrows.existingRow_eq] at hv
    have hcontent : v.content = item.content := by
      unfold sameManifestState at hsame
      simp only [Bool.and_eq_true, beq_iff_eq] at hsame
      obtain ⟨⟨⟨⟨⟨-, -⟩, htombstone⟩, hschema⟩, hhash⟩, -⟩ := hsame
      simp only [SyncRecord.content, ManifestItem.content, htombstone, hschema, hhash]
    rw [hnone, Option.none_or, ← map_latest_history (f := SyncRecord.content) (fun _ _ => rfl), hv,
      Option.map_some, hcontent]

/-- What a restore leaves of each object: the content that its target has, a tombstone for an object
that only the current state has, and nothing for the others. -/
theorem content_after (htarget : IsTargetOf target h₀) (hh₀ : IsHistory h₀)
    (k : ObjectKind × String) :
    (latest ObjectRevision.key k (rs₀ ++ rs)).map ObjectRevision.content =
      ((latest SyncRecord.key k h₀).map SyncRecord.content).or
        ((latest ObjectRevision.key k rs₀).map fun _ => ⟨true, none, none⟩) := by
  have hnodup := htarget.nodup hh₀
  have hdeletions := withDeletions_eq (hrows.nodup hh) target
  cases hl : latest SyncRecord.key k h₀ with
  | some v =>
    have hkey := key_of_latest hl
    have hmem : manifestItemFromRow v ∈ withDeletions target rows := by
      rw [hdeletions]
      refine List.mem_append_left _ (htarget.mem_iff.mpr (List.mem_map.mpr ⟨v, ?_, rfl⟩))
      rw [mem_current_iff, hkey, hl]
    have hcontent := content_of_restored hh hrows hitems hnodup hmem
    rw [key_manifestItemFromRow, hkey] at hcontent
    exact hcontent
  | none =>
    -- The target does not have the object.
    have hmissing : ∀ item ∈ target, item.key ≠ k := fun item hitem hk => by
      obtain ⟨v, hv, rfl⟩ := List.mem_map.mp (htarget.mem_iff.mp hitem)
      rw [mem_current_iff, ← key_manifestItemFromRow, hk, hl] at hv
      cases hv
    rw [Option.map_none, Option.none_or]
    cases hcurrent : latest SyncRecord.key k (history rs₀) with
    | some v =>
      have hkey := key_of_latest hcurrent
      -- The current state has it, so it is deleted.
      have hrow : v ∈ missingRows target rows := by
        refine List.mem_filter.mpr ⟨hrows.mem.mpr (by rw [hkey, hcurrent]), decide_eq_true ?_⟩
        rintro hmem
        obtain ⟨item, hitem, hk⟩ := List.mem_map.mp hmem
        exact hmissing item hitem (hk.trans hkey)
      have hmem : deletionOf v ∈ withDeletions target rows := by
        rw [hdeletions]
        exact List.mem_append_right _ (List.mem_map_of_mem hrow)
      have hcontent := content_of_restored hh hrows hitems hnodup hmem
      rw [show (deletionOf v).key = k from hkey] at hcontent
      have hthere := map_latest_history (f := fun _ => (⟨true, none, none⟩ : ObjectContent))
        (fun _ _ => rfl) k rs₀
      rw [hcurrent] at hthere
      rw [hcontent, ← hthere]
      rfl
    | none =>
      -- Neither has it, and no item of the restore is about it.
      have hnone : latest ObjectRevision.key k rs₀ = none := by
        have hthere := map_latest_history (f := SyncRecord.content)
          (g := ObjectRevision.content) (fun _ _ => rfl) k rs₀
        rw [hcurrent] at hthere
        exact Option.map_eq_none_iff.mp hthere.symm
      have hrs : latest ObjectRevision.key k rs = none := by
        refine latest_eq_none_iff.mpr fun r hr hk => ?_
        have hmem : r.key ∈ rs.map ObjectRevision.key := List.mem_map_of_mem hr
        rw [map_key_of_restored hitems, hk] at hmem
        obtain ⟨item, hitem, hk'⟩ := List.mem_map.mp hmem
        have hitem := (List.mem_filter.mp hitem).1
        rw [hdeletions] at hitem
        rcases List.mem_append.mp hitem with hitem | hitem
        · exact hmissing item hitem hk'
        · obtain ⟨row, hrow, rfl⟩ := List.mem_map.mp hitem
          have hlatest := hrows.mem.mp (List.mem_filter.mp hrow).1
          rw [show row.key = k from hk', hcurrent] at hlatest
          cases hlatest
      rw [latest_append, hrs, hnone]
      rfl

end Restored

end TaskTipsCloud

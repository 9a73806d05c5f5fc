import TaskTipsCloud.RestoreTarget

/-!
# Restores to a sequence

A restore to a sequence gives every object the content of its latest entry up to that sequence, and
makes the objects that came later tombstones. What was there before stays as it was; the restore
only appends. Restoring a second time leaves every content as it is.
-/

namespace TaskTipsCloud

open Txn Versions

/-- The content that the head of an object points at. -/
def Db.headContent (d : Db) (p : Uuid) (k : ObjectKind × String) : Option ObjectContent := do
  let h ← (d.data p).head k.1 k.2
  let r ← (d.revisionsOf p).find? (·.id == h.revisionId)
  return r.content

/-- The revision with the latest entry of its object up to a sequence. -/
def Db.LatestUpTo (d : Db) (p : Uuid) (t : ℤ) (r : ObjectRevision) : Prop :=
  ∃ c, d.Logged p r c ∧ c.sequence ≤ t ∧
    ∀ r' c', d.Logged p r' c' → r'.key = r.key → c'.sequence ≤ t → c'.sequence ≤ c.sequence

/-- What a restore of a project to the sequence `t` makes of the database `c`. -/
structure IsRestoredTo (c d : Db) (jobId p : Uuid) (t : ℤ) : Prop where
  /-- An object with an entry up to `t` has the content of the latest of them. -/
  restored : ∀ r, c.LatestUpTo p t r → d.headContent p r.key = some r.content
  /-- An object that was created after `t` is a tombstone. -/
  created : ∀ r ∈ c.revisionsOf p,
    (∀ r' c', c.Logged p r' c' → r'.key = r.key → t < c'.sequence) →
      ∃ content, d.headContent p r.key = some content ∧ content.tombstone = true
  revisions : c.revisionsOf p <+: d.revisionsOf p
  log : c.logOf p <+: d.logOf p
  /-- The project has its next generation and is active, and its sequence grew by the counts of the
  job. -/
  project : ∃ row row' job, c.project p = some row ∧ d.project p = some row' ∧
    d.restoreJob jobId = some job ∧ row'.generation = row.generation + 1 ∧
      row'.status = .active ∧
        row'.changeSeq = row.changeSeq + (job.restoredObjects + job.restoredTombstones)
  /-- Nothing is appended by a restore to the current sequence. -/
  current : (c.project p).map (·.changeSeq) = some t → d.revisionsOf p = c.revisionsOf p

/-- A restore of a project to a sequence that succeeded. -/
structure RestoresTo (e : SyncEvent) (job : RestoreJob) (t : ℤ) : Prop where
  executed : ∃ targetOrder currentOrder jobId leaseToken, e.request.call =
    .executeRestoreWithLease targetOrder currentOrder jobId leaseToken ∧
      leasedJob jobId leaseToken e.before = some job
  result : e.result = .ok .done
  snapshotId : job.snapshotId = none
  target : job.targetChangeSequence = some t
  /-- The target is not above the current sequence. -/
  le : ∀ row, e.before.project job.projectId = some row → t ≤ row.changeSeq

/-! ## The tables of a project and its history -/

section Coherent

variable {d : Db} {p : Uuid} {row : ProjectRow} (hd : d.Coherent) (hrow : d.project p = some row)
include hd hrow

/-- The heads have the contents of the latest revisions. -/
theorem headContent_eq (k : ObjectKind × String) : d.headContent p k =
    (latest ObjectRevision.key k (d.revisionsOf p)).map ObjectRevision.content := by
  have hx := hd.data hrow
  have hid := Db.id_of_project hrow
  unfold Db.headContent
  rw [hx.heads, ← map_latest_history (f := SyncRecord.content) (fun _ _ => rfl)]
  show (latest SyncRecord.key k (history (d.revisionsOf p))).map (headOf row) >>= _ = _
  cases hl : latest SyncRecord.key k (history (d.revisionsOf p)) with
  | none => rfl
  | some v =>
    obtain ⟨r, i, hr, rfl⟩ := mem_history.mp (mem_of_latest hl)
    have hmem : r ∈ d.revisionsOf p := List.fst_mem_of_mem_zipIdx hr
    have hids : ((d.revisionsOf p).map (·.id)).Nodup := nodup_map_id hx.isHistory
    have hfind := find?_key_eq hids hmem
    have hrid : r.id = (headOf row (r.syncRecord (r.entry i))).revisionId := by
      simp [headOf, ObjectRevision.id, ObjectRevision.syncRecord, (hx.owned r hmem).1]
    rw [hrid] at hfind
    rw [Option.map_some, Option.map_some]
    simp only [Option.bind_eq_bind, Option.bind_some, hfind]
    rfl

/-- The latest entry of an object up to a sequence is its latest record in the history that far. -/
theorem latest_take_of_latestUpTo {t : ℤ} {r : ObjectRevision} (h : d.LatestUpTo p t r) :
    (latest SyncRecord.key r.key ((history (d.revisionsOf p)).take t.toNat)).map
      SyncRecord.content = some r.content := by
  obtain rfl := Db.id_of_project hrow
  have hx := hd.data hrow
  have hh : IsHistory (history (d.revisionsOf row.id)) := hx.isHistory
  obtain ⟨c, hlogged, hle, hmax⟩ := h
  obtain ⟨i, hi, rfl⟩ := mem_zipIdx_of_logged hx hlogged
  have hmem : r.syncRecord (r.entry i) ∈ (history (d.revisionsOf row.id)).filter
      (·.changeSequence ≤ t) :=
    List.mem_filter.mpr ⟨mem_history.mpr ⟨r, i, hi, rfl⟩, decide_eq_true hle⟩
  rw [← hh.filter_le]
  have hlatest := (latest_iff_forall SyncRecord.key
    (hh.pairwise_sequence.sublist List.filter_sublist) hmem).mpr ?_
  · rw [show (r.syncRecord (r.entry i)).key = r.key from rfl] at hlatest
    rw [hlatest]
    rfl
  · intro v hv hk
    obtain ⟨hv, hvt⟩ := List.mem_filter.mp hv
    obtain ⟨r', i', hi', rfl⟩ := mem_history.mp hv
    refine hmax r' (r'.entry i') ⟨List.fst_mem_of_mem_zipIdx hi', ?_, rfl⟩ hk
      (of_decide_eq_true hvt)
    have hlog : d.logOf row.id = logEntries (d.revisionsOf row.id) := hx.log
    rw [hlog]
    exact List.mem_map.mpr ⟨(r', i'), hi', rfl⟩

/-- An object without entries up to a sequence has no record in the history that far. -/
theorem latest_take_of_created {t : ℤ} {r : ObjectRevision}
    (h : ∀ r' c', d.Logged p r' c' → r'.key = r.key → t < c'.sequence) :
    latest SyncRecord.key r.key ((history (d.revisionsOf p)).take t.toNat) = none := by
  obtain rfl := Db.id_of_project hrow
  have hx := hd.data hrow
  have hh : IsHistory (history (d.revisionsOf row.id)) := hx.isHistory
  rw [← hh.filter_le, latest_eq_none_iff]
  intro v hv hk
  obtain ⟨hv, hvt⟩ := List.mem_filter.mp hv
  obtain ⟨r', i', hi', rfl⟩ := mem_history.mp hv
  have hlog : d.logOf row.id = logEntries (d.revisionsOf row.id) := hx.log
  have hlt := h r' (r'.entry i') ⟨List.fst_mem_of_mem_zipIdx hi', by
    rw [hlog]; exact List.mem_map.mpr ⟨(r', i'), hi', rfl⟩, rfl⟩ hk
  exact absurd (of_decide_eq_true hvt) (not_le.mpr hlt)

/-- The rows that a restore reads as the current ones. -/
theorem isCurrentOf_headRows (order : ScanOrder) :
    IsCurrentOf (headRows .worker order p d) (history (d.revisionsOf p)) := by
  have hx := hd.data hrow
  unfold headRows
  rw [hx.visible_eq rfl]
  exact (order.perm _).trans hx.headRecords_perm

/-- The target of a restore to a sequence. -/
theorem isTargetOf_rankedRows (order : ScanOrder) (t : ℤ) :
    IsTargetOf ((rankedRows .worker order p t d).map manifestItemFromRow)
      ((history (d.revisionsOf p)).take t.toNat) := by
  have hx := hd.data hrow
  unfold rankedRows
  rw [hx.visible_eq rfl, hx.records_eq, hx.isHistory.rankedRecords_eq]
  exact (order.perm _).map _

end Coherent

/-! ## The restore -/

/-- The counts of a restore are the number of its revisions. -/
theorem foldl_add (items : List ManifestItem) (counts : RestoredCounts) :
    (items.foldl (fun n item => n.add item.tombstone) counts).objects +
        (items.foldl (fun n item => n.add item.tombstone) counts).tombstones =
      counts.objects + counts.tombstones + items.length := by
  induction items generalizing counts with
  | nil => simp
  | cons item items ih =>
    rw [List.foldl_cons, ih, List.length_cons]
    cases item.tombstone <;> simp [RestoredCounts.add] <;> omega

section Restored

variable {R : Set Lock → Db → Db → Prop} {now t : ℤ} {targetOrder currentOrder : ScanOrder}
  {jobId leaseToken : Uuid} {job : RestoreJob} {c d : Db}

/-- What a restore to a sequence leaves of an object. -/
def Db.restoredContent (c : Db) (p : Uuid) (t : ℤ) (k : ObjectKind × String) :
    Option ObjectContent :=
  ((latest SyncRecord.key k ((history (c.revisionsOf p)).take t.toNat)).map SyncRecord.content).or
    ((latest ObjectRevision.key k (c.revisionsOf p)).map fun _ => ⟨true, none, none⟩)

/-- The rows that a restore changes: it appends the revisions `rs`. -/
structure RestoredRows (R : Set Lock → Db → Db → Prop) (now : Timestamp)
    (targetOrder currentOrder : ScanOrder) (job : RestoreJob) (c d : Db) (row : ProjectRow)
    (target : List ManifestItem) (rs : List ObjectRevision) : Prop where
  before : c.project job.projectId = some row
  after : d.project job.projectId = some { row with
    generation := row.generation + 1, status := .active, updatedAt := now,
    changeSeq := row.changeSeq + rs.length }
  counts : ∃ job', d.restoreJob job.id = some job' ∧
    job'.restoredObjects + job'.restoredTombstones = rs.length
  revisions : d.revisionsOf job.projectId = c.revisionsOf job.projectId ++ rs
  isTarget : IsRestoreTarget (fun d => ∃ H, R H d c) targetOrder job c target
  items : List.Forall₂ (IsRestored now job.projectId row.ownerUserId
      (headRows .worker currentOrder job.projectId c))
    ((withDeletions target (headRows .worker currentOrder job.projectId c)).filter
      (needsRestore (headRows .worker currentOrder job.projectId c))) rs

/-- The job of a restore that ends has succeeded. -/
theorem Db.restoreJob_finished (d : Db) (now : Timestamp) (job : RestoreJob) (generation : ℤ)
    (counts : RestoredCounts) : (d.finished now job generation counts).restoreJob job.id =
      (d.restoreJob job.id).map fun j =>
        { j with status := .succeeded, generationAfter := some (generation + 1),
                 restoredObjects := counts.objects, restoredTombstones := counts.tombstones,
                 leaseToken := none, leaseExpiresAt := none, finishedAt := some now } := by
  exact Db.restoreJob_updateRestoreJob (d := d.updateProject job.projectId _) fun _ => rfl

/-- A restore changes rows as `RestoredRows` says, and its job has the counts of the items that it
restored. -/
theorem RestoreEffect.rows_counts
    (h : RestoreEffect R now targetOrder currentOrder jobId leaseToken c d)
    (hjob : leasedJob jobId leaseToken c = some job) :
    ∃ row target rs, RestoredRows R now targetOrder currentOrder job c d row target rs ∧
      ∃ job', d.restoreJob job.id = some job' ∧
        RestoredCounts.mk job'.restoredObjects job'.restoredTombstones =
          ((withDeletions target (headRows .worker currentOrder job.projectId c)).filter
            (needsRestore (headRows .worker currentOrder job.projectId c))).foldl
              (fun n item => n.add item.tombstone) ⟨0, 0⟩ := by
  obtain ⟨hjob', hrequested, hrow, hstatus, htarget, hall, hitems⟩ := h
  rename_i job₀ row target rs
  obtain rfl : job₀ = job := Option.some.inj (hjob'.symm.trans hjob)
  have hrs := projectId_of_restored hitems
  have hlength := hitems.length_eq
  have hcounts := foldl_add ((withDeletions target
    (headRows .worker currentOrder job₀.projectId c)).filter
      (needsRestore (headRows .worker currentOrder job₀.projectId c))) ⟨0, 0⟩
  generalize hn : ((withDeletions target
    (headRows .worker currentOrder job₀.projectId c)).filter
      (needsRestore (headRows .worker currentOrder job₀.projectId c))).foldl
        (fun (n : RestoredCounts) item => n.add item.tombstone) ⟨0, 0⟩ = counts at hcounts ⊢
  have hdata := Db.data_finished (c.appendAll now rs) now job₀ row.generation counts
  have hproject := (congrArg ProjectData.project hdata).trans
    (congrArg (Option.map _) (Db.project_appendAll hrs hrow))
  have hfind : (c.appendAll now rs).restoreJob job₀.id = some job₀ := by
    rw [Db.appendAll_eq, id_of_leasedJob hjob']
    exact (Option.filter_eq_some_iff.mp hjob').1
  have hfinished := Db.restoreJob_finished (c.appendAll now rs) now job₀ row.generation counts
  rw [hfind, Option.map_some] at hfinished
  refine ⟨row, target, rs, ⟨hrow, hproject, ⟨_, hfinished, ?_⟩, ?_, htarget, hitems⟩, _, hfinished,
    hn.symm⟩
  · show counts.objects + counts.tombstones = _
    rw [hcounts, hlength]
    simp
  · exact (congrArg ProjectData.revisions hdata).trans (Db.revisionsOf_appendAll hrs)

/-- A restore changes rows as `RestoredRows` says. -/
theorem RestoreEffect.rows
    (h : RestoreEffect R now targetOrder currentOrder jobId leaseToken c d)
    (hjob : leasedJob jobId leaseToken c = some job) :
    ∃ row target rs, RestoredRows R now targetOrder currentOrder job c d row target rs := by
  obtain ⟨row, target, rs, hrows, -⟩ := h.rows_counts hjob
  exact ⟨row, target, rs, hrows⟩

/-- The target of a restore to a sequence. -/
theorem RestoredRows.isTargetOf {row : ProjectRow} {target : List ManifestItem}
    {rs : List ObjectRevision}
    (h : RestoredRows R now targetOrder currentOrder job c d row target rs) (hc : c.Coherent)
    (hsnapshot : job.snapshotId = none) (ht : job.targetChangeSequence = some t) :
    IsTargetOf target ((history (c.revisionsOf job.projectId)).take t.toNat) := by
  obtain ⟨hrow, -, -, -, htarget, -⟩ := h
  cases htarget with
  | snapshot hjob => rw [hsnapshot] at hjob; cases hjob
  | sequence _ ht' =>
    rw [ht] at ht'
    cases ht'
    exact isTargetOf_rankedRows hc hrow targetOrder t

/-- After a restore to a sequence the heads have the restored contents. -/
theorem RestoredRows.headContent {row : ProjectRow} {target : List ManifestItem}
    {rs : List ObjectRevision}
    (h : RestoredRows R now targetOrder currentOrder job c d row target rs) (hc : c.Coherent)
    (hd : d.Coherent) (hsnapshot : job.snapshotId = none) (ht : job.targetChangeSequence = some t)
    (k : ObjectKind × String) :
    d.headContent job.projectId k = c.restoredContent job.projectId t k := by
  have hh : IsHistory (history (c.revisionsOf job.projectId)) := (hc.data h.before).isHistory
  rw [headContent_eq hd h.after, h.revisions]
  exact content_after hh (isCurrentOf_headRows hc h.before currentOrder) h.items
    (h.isTargetOf hc hsnapshot ht) (hh.of_prefix (List.take_prefix _ _)) k

/-- A restore to the current sequence finds the head of every object as it is to be. -/
theorem RestoredRows.eq_nil_of_current {row : ProjectRow} {target : List ManifestItem}
    {rs : List ObjectRevision}
    (h : RestoredRows R now targetOrder currentOrder job c d row target rs) (hc : c.Coherent)
    (hsnapshot : job.snapshotId = none) (ht : job.targetChangeSequence = some row.changeSeq) :
    rs = [] := by
  have hx := hc.data h.before
  have hh : IsHistory (history (c.revisionsOf job.projectId)) := hx.isHistory
  have hcurrent := isCurrentOf_headRows hc h.before currentOrder
  have htarget := h.isTargetOf hc hsnapshot ht
  have hlength : (c.revisionsOf job.projectId).length = row.changeSeq.toNat := by
    have hsequence : row.changeSeq = (c.revisionsOf job.projectId).length := hx.sequence
    omega
  rw [List.take_of_length_le (by rw [length_history, hlength])] at htarget
  have hmissing : missingRows target (headRows .worker currentOrder job.projectId c) = [] := by
    refine List.filter_eq_nil_iff.mpr fun v hv => ?_
    rw [decide_eq_true_eq, not_not]
    exact List.mem_map.mpr ⟨manifestItemFromRow v,
      htarget.mem_iff.mpr (List.mem_map_of_mem (hcurrent.mem_iff.mp hv)), rfl⟩
  have hskip : (withDeletions target (headRows .worker currentOrder job.projectId c)).filter
      (needsRestore (headRows .worker currentOrder job.projectId c)) = [] := by
    rw [withDeletions_eq (hcurrent.nodup hh), hmissing, List.map_nil, List.append_nil]
    refine List.filter_eq_nil_iff.mpr fun item hitem => ?_
    obtain ⟨v, hv, rfl⟩ := List.mem_map.mp (htarget.mem_iff.mp hitem)
    have hexisting := hcurrent.existingRow_eq (manifestItemFromRow v)
    rw [key_manifestItemFromRow, mem_current_iff.mp hv] at hexisting
    rw [needsRestore, hexisting]
    simp [sameManifestState, manifestItemFromRow]
  have hitems := h.items
  rw [hskip] at hitems
  exact List.forall₂_nil_left_iff.mp hitems

/-- A restore to a sequence restores to that sequence. -/
theorem RestoredRows.isRestoredTo {row : ProjectRow} {target : List ManifestItem}
    {rs : List ObjectRevision}
    (h : RestoredRows R now targetOrder currentOrder job c d row target rs) (hc : c.Coherent)
    (hd : d.Coherent) (hsnapshot : job.snapshotId = none)
    (ht : job.targetChangeSequence = some t) : IsRestoredTo c d job.id job.projectId t where
  restored r hr := by
    rw [h.headContent hc hd hsnapshot ht, Db.restoredContent,
      latest_take_of_latestUpTo hc h.before hr]
    rfl
  created r hr hcreated := by
    obtain ⟨r', hr'⟩ := exists_latest ObjectRevision.key hr
    refine ⟨⟨true, none, none⟩, ?_, rfl⟩
    rw [h.headContent hc hd hsnapshot ht, Db.restoredContent,
      latest_take_of_created hc h.before hcreated, hr']
    rfl
  revisions := by
    rw [h.revisions]
    exact List.prefix_append _ _
  log := by
    have hlog : c.logOf job.projectId = logEntries (c.revisionsOf job.projectId) :=
      (hc.data h.before).log
    have hlog' : d.logOf job.projectId = logEntries (d.revisionsOf job.projectId) :=
      (hd.data h.after).log
    rw [hlog, hlog', h.revisions, logEntries, logEntries, List.zipIdx_append, List.map_append]
    exact List.prefix_append _ _
  project := by
    obtain ⟨job', hjob', hcounts⟩ := h.counts
    exact ⟨row, _, job', h.before, h.after, hjob', rfl, rfl, by rw [hcounts]⟩
  current hcurrent := by
    rw [h.before, Option.map_some] at hcurrent
    rw [← Option.some.inj hcurrent] at ht
    rw [h.revisions, h.eq_nil_of_current hc hsnapshot ht, List.append_nil]

/-- Restoring to the same sequence once more restores the same contents. -/
theorem RestoredRows.restoredContent_eq {row : ProjectRow} {target : List ManifestItem}
    {rs : List ObjectRevision}
    (h : RestoredRows R now targetOrder currentOrder job c d row target rs) (hc : c.Coherent)
    (hd : d.Coherent) (hsnapshot : job.snapshotId = none)
    (ht : job.targetChangeSequence = some t) (hle : t ≤ row.changeSeq)
    (k : ObjectKind × String) :
    d.restoredContent job.projectId t k = d.headContent job.projectId k := by
  have hcontent := h.headContent hc hd hsnapshot ht k
  have hsequence : row.changeSeq = (c.revisionsOf job.projectId).length :=
    (hc.data h.before).sequence
  have htake : (history (d.revisionsOf job.projectId)).take t.toNat =
      (history (c.revisionsOf job.projectId)).take t.toNat := by
    rw [← history_take, ← history_take, h.revisions, List.take_append_of_le_length (by omega)]
  have hlatest := (headContent_eq hd h.after k).symm.trans hcontent
  rw [hcontent]
  unfold Db.restoredContent at hlatest ⊢
  rw [htake]
  cases hl : latest SyncRecord.key k ((history (c.revisionsOf job.projectId)).take t.toNat) with
  | some v => rfl
  | none =>
    -- An object that came after the sequence is there afterwards when it was there before.
    rw [hl, Option.map_none, Option.none_or] at hlatest
    have hdeleted := congrArg (Option.map fun _ => (⟨true, none, none⟩ : ObjectContent)) hlatest
    rw [Option.map_map, Option.map_map] at hdeleted
    rw [Option.map_none, Option.none_or, Option.none_or]
    exact hdeleted

end Restored

/-- What a restore of a run did. -/
theorem RestoresTo.rows {host : Host} {e : SyncEvent} {job : RestoreJob} {t : ℤ}
    (h : RestoresTo e job t) (hsound : e.before.Sound)
    (hout : (service host).Outcome Db.Rely e) :
    ∃ targetOrder currentOrder row target rs, RestoredRows Db.Rely e.request.now targetOrder
      currentOrder job e.before e.after row target rs := by
  obtain ⟨targetOrder, currentOrder, jobId, leaseToken, hcall, hjob⟩ := h.executed
  exact ⟨targetOrder, currentOrder,
    (restoreEffect_of_outcome hsound hout hcall h.result).rows hjob⟩

/-- In every run, a restore of a project to a sequence that is not above the current one makes of it
what `IsRestoredTo` says; and when a later restore of the project to the same sequence finds the
revisions that it left, that restore leaves the content of every object as it is. -/
theorem restores_to_sequence {host : Host} {users : List UserRow}
    {w : World Db Lock PersistenceError Reply Request}
    (hw : (service host).Reachable (.initial users) w) {earlier later : List SyncEvent}
    {e : SyncEvent} (hsplit : w.history = earlier ++ e :: later) {job : RestoreJob} {t : ℤ}
    (he : RestoresTo e job t) :
    IsRestoredTo e.before e.after job.id job.projectId t ∧
      ∀ e' ∈ later, ∀ job', RestoresTo e' job' t → job'.projectId = job.projectId →
        e'.before.revisionsOf job.projectId = e.after.revisionsOf job.projectId →
          ∀ k, e'.after.headContent job.projectId k = e'.before.headContent job.projectId k := by
  have htr := hw.trail (relies_service host) (sound_initial users)
  rw [hsplit] at htr
  obtain ⟨-, -, hout, hbefore, hafter, hlater, -⟩ := htr.split
  obtain ⟨_, _, row, target, rs, hrows⟩ := he.rows hbefore hout
  have hrestored := hrows.isRestoredTo hbefore.coherent hafter.coherent he.snapshotId he.target
  refine ⟨hrestored, fun e' he' job' h' hp hrevisions k => ?_⟩
  obtain ⟨l₁, l₂, rfl⟩ := List.append_of_mem he'
  obtain ⟨-, -, hout', hbefore', hafter', -⟩ := hlater.split
  obtain ⟨_, _, row', target', rs', hrows'⟩ := h'.rows hbefore' hout'
  have hcontent' := hrows'.headContent hbefore'.coherent hafter'.coherent h'.snapshotId h'.target k
  have hagain := hrows.restoredContent_eq hbefore.coherent hafter.coherent he.snapshotId he.target
    (he.le row hrows.before) k
  have hsame := headContent_eq hbefore'.coherent hrows'.before k
  rw [hp] at hcontent' hsame
  rw [hcontent', Db.restoredContent, hrevisions, ← Db.restoredContent, hagain, hsame, hrevisions,
    headContent_eq hafter.coherent hrows.after]

/-- A restore of the sample run. -/
theorem exists_restoresTo {e : SyncEvent} {jobId leaseToken p : Uuid} {t : ℤ}
    (hcall : e.request.call = .executeRestoreWithLease .stored .stored jobId leaseToken)
    (hresult : e.result = .ok .done)
    (hjob : (leasedJob jobId leaseToken e.before).map
      (fun j => (j.projectId, j.snapshotId, j.targetChangeSequence)) = some (p, none, some t))
    (hle : (e.before.project p).all (t ≤ ·.changeSeq) = true) :
    ∃ job, RestoresTo e job t ∧ job.id = jobId ∧ job.projectId = p := by
  obtain ⟨job, hsome, hfields⟩ := Option.map_eq_some_iff.mp hjob
  simp only [Prod.mk.injEq] at hfields
  obtain ⟨rfl, hsnapshot, htarget⟩ := hfields
  refine ⟨job, ⟨⟨_, _, _, _, hcall, hsome⟩, hresult, hsnapshot, htarget, fun row hrow => ?_⟩,
    id_of_leasedJob hsome, rfl⟩
  rw [hrow] at hle
  exact of_decide_eq_true hle

/-- The sample run with two restores to the same sequence. -/
def twiceRestored : List Request :=
  sampleSetup ++ samplePushes ++ sampleRestore 3 7 2 ++ sampleRestore 4 9 2

set_option maxRecDepth 4000 in
/-- Both restores succeed, and the second one leaves every content as it is. -/
theorem twiceRestored_restores_to_sequence :
    IsRestoredTo (sampleEvent twiceRestored ⟨9, by decide⟩).before
        (sampleEvent twiceRestored ⟨9, by decide⟩).after 7 2 2 ∧
      ∀ k, (sampleEvent twiceRestored ⟨12, by decide⟩).after.headContent 2 k =
        (sampleEvent twiceRestored ⟨12, by decide⟩).before.headContent 2 k := by
  obtain ⟨job, hjob, hid, hp⟩ := exists_restoresTo
    (e := sampleEvent twiceRestored ⟨9, by decide⟩) (p := 2) (t := 2) rfl rfl
    (by decide +kernel) (by decide +kernel)
  obtain ⟨job', hjob', -, hp'⟩ := exists_restoresTo
    (e := sampleEvent twiceRestored ⟨12, by decide⟩) (p := 2) (t := 2) rfl rfl
    (by decide +kernel) (by decide +kernel)
  have hlater := @sampleEvent_mem_drop twiceRestored ⟨9, by decide⟩ ⟨12, by decide⟩ (by decide)
  obtain ⟨hrestored, hagain⟩ := restores_to_sequence (reachable_sampleWorld (by decide))
    (history_sampleWorld twiceRestored ⟨9, by decide⟩) hjob
  have hsame := hagain _ hlater job' hjob' (hp'.trans hp.symm) (by rw [hp]; decide +kernel)
  rw [hid, hp] at hrestored
  rw [hp] at hsame
  exact ⟨hrestored, hsame⟩

end TaskTipsCloud

import TaskTipsCloud.History
import TaskTipsCloud.Push

/-!
# Appending revisions

What the four statements that append a revision do to the tables. A coherent project stays coherent
when a revision that it accepts is appended, and the other projects do not change.
-/

namespace TaskTipsCloud

open Txn Versions

/-! ## Appending to a project -/

/-- The head of an object whose latest revision is `r`. -/
def ObjectRevision.head (r : ObjectRevision) : ObjectHead where
  projectId := r.projectId
  ownerUserId := r.ownerUserId
  kind := r.kind
  objectId := r.objectId
  revision := r.revision
  revisionId := r.id

/-- A project that takes its next sequence. -/
def ProjectRow.advance (now : Timestamp) (p : ProjectRow) : ProjectRow :=
  { p with changeSeq := p.changeSeq + 1, updatedAt := now }

/-- The advance of a project keeps its identifier. -/
theorem ProjectRow.id_advance (now : Timestamp) (p : ProjectRow) : (p.advance now).id = p.id := rfl

/-- The tables of a project with one more revision. -/
def ProjectData.append (now : Timestamp) (sequence : ℤ) (r : ObjectRevision) (x : ProjectData) :
    ProjectData where
  project := x.project.map (·.advance now)
  revisions := x.revisions ++ [r]
  heads := putHead r.head x.heads
  log := x.log ++ [r.entry sequence]

/-- The database with one more revision. -/
def Db.append (now : Timestamp) (sequence : ℤ) (r : ObjectRevision) (d : Db) : Db :=
  { d.updateProject r.projectId (·.advance now) with
    objectRevisions := d.objectRevisions ++ [r]
    objectHeads := putHead r.head d.objectHeads
    changeLog := d.changeLog ++ [r.entry sequence] }

/-- A revision that goes on the history of a project. -/
structure ProjectData.Accepts (row : ProjectRow) (x : ProjectData) (r : ObjectRevision) :
    Prop where
  projectId : r.projectId = row.id
  ownerUserId : r.ownerUserId = row.ownerUserId
  fits : Fits (history x.revisions) (r.syncRecord (r.entry (x.revisions.length + 1)))

/-- A coherent project stays coherent when a revision that it accepts is appended. -/
theorem ProjectData.Coherent.append {row : ProjectRow} {x : ProjectData} {r : ObjectRevision}
    (hx : x.Coherent row) (hr : x.Accepts row r) (now : Timestamp) :
    (x.append now (row.changeSeq + 1) r).Coherent (row.advance now) where
  project := by simp [ProjectData.append, hx.project]
  owned := by
    intro r' hr'
    rcases List.mem_append.mp hr' with hr' | hr'
    · exact hx.owned r' hr'
    · rw [List.mem_singleton.mp hr']
      exact ⟨hr.projectId, hr.ownerUserId⟩
  sequence := by
    simp [ProjectData.append, ProjectRow.advance, hx.sequence]
  log := by
    rw [ProjectData.append, logEntries_concat, hx.log, hx.sequence]
  isHistory := by
    rw [ProjectData.append, history_concat]
    exact hx.isHistory.concat hr.fits
  heads := by
    intro kind objectId
    have hhead : r.head =
        headOf (row.advance now) (r.syncRecord (r.entry (x.revisions.length + 1))) := by
      simp [ObjectRevision.head, headOf, ObjectRevision.id, ObjectRevision.syncRecord,
        ProjectRow.advance, hr.projectId, hr.ownerUserId]
    rw [ProjectData.append, history_concat, ProjectData.head, putHead]
    -- The revision is the head of its own object and of no other.
    by_cases hk : (r.kind, r.objectId) = (kind, objectId)
    · cases hk
      have hlatest : latest SyncRecord.key (r.kind, r.objectId) (history x.revisions ++
          [r.syncRecord (r.entry (x.revisions.length + 1))]) =
          some (r.syncRecord (r.entry (x.revisions.length + 1))) :=
        @latest_concat_self _ _ _ SyncRecord.key (history x.revisions)
          (r.syncRecord (r.entry (x.revisions.length + 1)))
      rw [hlatest, Option.map_some, ← hhead]
      refine find?_upsert (by simp [ObjectRevision.head]) (fun h hh => ?_) fun h hh hsame => ?_
      · obtain ⟨v, -, rfl⟩ := hx.eq_headOf hh
        simp [ObjectHead.sameObject, ObjectRevision.head, headOf, hr.projectId]
      · obtain ⟨v, -, rfl⟩ := hx.eq_headOf hh
        simp only [ObjectHead.sameObject, ObjectRevision.head, headOf, Bool.and_eq_true,
          beq_iff_eq] at hsame
        obtain ⟨⟨-, hkind⟩, hid⟩ := hsame
        simp [ObjectRevision.head, headOf, hr.projectId, hr.ownerUserId, hkind, hid]
    · have hk' : (r.syncRecord (r.entry (x.revisions.length + 1))).key ≠ (kind, objectId) := hk
      rw [latest_concat_of_ne hk', find?_upsert_of_not]
      · exact hx.heads kind objectId
      · simpa [ObjectRevision.head] using hk
      · intro h hsame
        simp only [ObjectHead.sameObject, ObjectRevision.head, Bool.and_eq_true,
          beq_iff_eq] at hsame
        simpa [hsame] using hk
      · exact fun h _ => rfl
  headKeys := by
    refine nodup_map_upsert hx.headKeys (fun h hh => ?_) fun h => rfl
    obtain ⟨v, -, rfl⟩ := hx.eq_headOf hh
    rw [Bool.eq_iff_iff]
    simp [ObjectHead.sameObject, ObjectRevision.head, headOf, hr.projectId, ObjectHead.key]

/-! ## Appending to the database -/

/-- The project that is updated. -/
theorem Db.project_updateProject {d : Db} {p : Uuid} {f : ProjectRow → ProjectRow}
    (hf : ∀ row, (f row).id = row.id) :
    (d.updateProject p f).project p = (d.project p).map f := by
  unfold Db.project Db.updateProject
  rw [find?_updateWhere fun row _ => by rw [hf]]
  cases hfind : d.projects.find? (·.id == p) with
  | none => rfl
  | some row =>
    have hid := List.find?_some hfind
    simp only [Option.map_some, hid, if_true]

/-- The projects that are not updated. -/
theorem Db.project_updateProject_of_ne {d : Db} {p q : Uuid} {f : ProjectRow → ProjectRow}
    (hf : ∀ row, (f row).id = row.id) (hq : p ≠ q) :
    (d.updateProject p f).project q = d.project q := by
  unfold Db.project Db.updateProject
  rw [find?_updateWhere fun row _ => by rw [hf]]
  cases hfind : d.projects.find? (·.id == q) with
  | none => rfl
  | some row =>
    have hid := List.find?_some hfind
    rw [beq_iff_eq] at hid
    simp [hid, hq.symm]

/-- Appending a revision appends it to its project. -/
theorem Db.data_append (d : Db) (now : Timestamp) (sequence : ℤ) (r : ObjectRevision) :
    (d.append now sequence r).data r.projectId =
      (d.data r.projectId).append now sequence r := by
  have hproject : (d.append now sequence r).project r.projectId =
      (d.project r.projectId).map (·.advance now) :=
    Db.project_updateProject fun _ => rfl
  have hheads : (d.append now sequence r).headsOf r.projectId =
      putHead r.head (d.headsOf r.projectId) := by
    refine filter_upsert (by simp [ObjectRevision.head]) (fun h hh => ?_) fun h _ => rfl
    simp only [ObjectHead.sameObject, ObjectRevision.head, Bool.and_eq_true, beq_iff_eq] at hh
    simp [hh]
  simp only [Db.data, ProjectData.append, hproject, hheads, ProjectData.mk.injEq, true_and]
  constructor
  · simp [Db.append, Db.revisionsOf]
  · simp [Db.append, Db.logOf, ObjectRevision.entry]

/-- Appending a revision leaves the other projects as they are. -/
theorem Db.data_append_of_ne {d : Db} {now : Timestamp} {sequence : ℤ} {r : ObjectRevision}
    {p : Uuid} (hp : r.projectId ≠ p) : (d.append now sequence r).data p = d.data p := by
  have hproject : (d.append now sequence r).project p = d.project p :=
    Db.project_updateProject_of_ne (fun _ => rfl) hp
  have hheads : (d.append now sequence r).headsOf p = d.headsOf p := by
    refine filter_upsert_of_not (by simpa [ObjectRevision.head] using hp) (fun h hh => ?_)
      fun h _ => rfl
    simp only [ObjectHead.sameObject, ObjectRevision.head, Bool.and_eq_true, beq_iff_eq] at hh
    simpa [hh] using hp
  simp only [Db.data, hproject, hheads, ProjectData.mk.injEq, true_and]
  constructor
  · simp [Db.append, Db.revisionsOf, hp]
  · simp [Db.append, Db.logOf, ObjectRevision.entry, hp]

/-! ## Coherent databases -/

/-- The rows of a project are coherent, or there is no project and no row. -/
def ProjectData.IsCoherent (x : ProjectData) : Prop :=
  x = ⟨none, [], [], []⟩ ∨ ∃ row, x.Coherent row

/-- Every project is coherent. -/
def Db.Coherent (d : Db) : Prop := ∀ p, (d.data p).IsCoherent

/-- A role sees a project that is there and whose owner it may see. -/
theorem visibleProject_eq_some_iff {role : DbRole} {p : Uuid} {d : Db} {row : ProjectRow} :
    visibleProject role p d = some row ↔ d.project p = some row ∧ role.sees row.ownerUserId := by
  simp [visibleProject, ProjectData.visible, Db.data, Option.filter_eq_some_iff]

/-- The identifier of a project that is found. -/
theorem Db.id_of_project {d : Db} {p : Uuid} {row : ProjectRow} (h : d.project p = some row) :
    row.id = p := by
  simpa using List.find?_some h

/-- The tables of a project that is there. -/
theorem Db.Coherent.data {d : Db} (hd : d.Coherent) {p : Uuid} {row : ProjectRow}
    (h : d.project p = some row) : (d.data p).Coherent row := by
  rcases hd p with hnone | ⟨row', hrow'⟩
  · have hproject := congrArg ProjectData.project hnone
    rw [Db.data, h] at hproject
    cases hproject
  · have hproject := hrow'.project
    rw [Db.data, h] at hproject
    cases hproject
    exact hrow'

/-- A role that sees a coherent project sees all of its rows. -/
theorem Db.Coherent.visible {d : Db} (hd : d.Coherent) {role : DbRole} {p : Uuid}
    {row : ProjectRow} (h : visibleProject role p d = some row) :
    (d.data p).visible role = d.data p := by
  obtain ⟨hrow, hrole⟩ := visibleProject_eq_some_iff.mp h
  exact (hd.data hrow).visible_eq hrole

/-- Appending a revision that its project accepts keeps a database coherent. -/
theorem Db.Coherent.append {d : Db} (hd : d.Coherent) {row : ProjectRow} {r : ObjectRevision}
    (hrow : d.project r.projectId = some row) (hr : (d.data r.projectId).Accepts row r)
    (now : Timestamp) : (d.append now (row.changeSeq + 1) r).Coherent := by
  intro p
  by_cases hp : r.projectId = p
  · subst hp
    rw [Db.data_append]
    exact .inr ⟨_, (hd.data hrow).append hr now⟩
  · rw [Db.data_append_of_ne hp]
    exact hd p

/-! ## Appending several revisions -/

/-- The next sequence of a project. -/
def Db.nextSequence (d : Db) (p : Uuid) : ℤ := (d.project p).elim 0 (·.changeSeq) + 1

/-- The database with one more revision, at the next sequence of its project. -/
def Db.appendNext (now : Timestamp) (d : Db) (r : ObjectRevision) : Db :=
  d.append now (d.nextSequence r.projectId) r

/-- The database with more revisions. -/
def Db.appendAll (now : Timestamp) (rs : List ObjectRevision) (d : Db) : Db :=
  rs.foldl (Db.appendNext now) d

/-- A project of the database accepts a revision. -/
def Db.Accepts (d : Db) (r : ObjectRevision) : Prop :=
  ∃ row, d.project r.projectId = some row ∧ (d.data r.projectId).Accepts row r

/-- A database accepts revisions one after the other. -/
inductive Db.AcceptsAll (now : Timestamp) : Db → List ObjectRevision → Prop
  | nil (d : Db) : AcceptsAll now d []
  | cons {d : Db} {r : ObjectRevision} {rs : List ObjectRevision} (hr : d.Accepts r)
      (hrs : AcceptsAll now (d.appendNext now r) rs) : AcceptsAll now d (r :: rs)

section AppendAll

variable {now : Timestamp} {d : Db} {r : ObjectRevision} {rs rs' : List ObjectRevision} {p : Uuid}

/-- Appending no revisions changes nothing. -/
@[simp] theorem Db.appendAll_nil : d.appendAll now [] = d := rfl

/-- The revisions are appended one after the other. -/
@[simp] theorem Db.appendAll_cons :
    d.appendAll now (r :: rs) = (d.appendNext now r).appendAll now rs := rfl

/-- Two appends are one append of both lists. -/
theorem Db.appendAll_append :
    d.appendAll now (rs ++ rs') = (d.appendAll now rs).appendAll now rs' :=
  List.foldl_append ..

/-- An accepted revision keeps the database coherent. -/
theorem Db.Accepts.coherent (hr : d.Accepts r) (hd : d.Coherent) :
    (d.appendNext now r).Coherent := by
  obtain ⟨row, hrow, haccepts⟩ := hr
  have hnext : d.nextSequence r.projectId = row.changeSeq + 1 := by
    simp [nextSequence, hrow]
  rw [appendNext, hnext]
  exact hd.append hrow haccepts now

/-- A coherent database stays coherent when it accepts what is appended. -/
theorem Db.AcceptsAll.coherent (h : d.AcceptsAll now rs) (hd : d.Coherent) :
    (d.appendAll now rs).Coherent := by
  induction h with
  | nil => exact hd
  | cons hr _ ih => exact ih (hr.coherent hd)

/-- Revisions that are accepted one after another are accepted together. -/
theorem Db.AcceptsAll.append (h : d.AcceptsAll now rs)
    (h' : (d.appendAll now rs).AcceptsAll now rs') : d.AcceptsAll now (rs ++ rs') := by
  induction h with
  | nil => exact h'
  | cons hr _ ih => exact .cons hr (ih h')

/-- The revisions of a project grow by the appended ones. -/
theorem Db.revisionsOf_appendAll (h : ∀ r ∈ rs, r.projectId = p) :
    (d.appendAll now rs).revisionsOf p = d.revisionsOf p ++ rs := by
  have hfilter : rs.filter (·.projectId == p) = rs :=
    List.filter_eq_self.mpr fun r hr => by simp [h r hr]
  have hrevisions : (d.appendAll now rs).objectRevisions = d.objectRevisions ++ rs := by
    clear h hfilter
    induction rs generalizing d with
    | nil => simp
    | cons r rs ih => rw [appendAll_cons, ih]; simp [appendNext, append]
  rw [revisionsOf, hrevisions, List.filter_append, hfilter]
  rfl

/-- Appending revisions changes four tables. -/
theorem Db.appendAll_eq : d.appendAll now rs = { d with
    projects := (d.appendAll now rs).projects
    objectRevisions := (d.appendAll now rs).objectRevisions
    objectHeads := (d.appendAll now rs).objectHeads
    changeLog := (d.appendAll now rs).changeLog } := by
  induction rs generalizing d with
  | nil => rfl
  | cons r rs ih => exact ih

/-- An appended revision advances the sequence of its project. -/
theorem Db.project_appendNext (h : r.projectId = p) :
    (d.appendNext now r).project p = (d.project p).map (·.advance now) := by
  subst h
  exact Db.project_updateProject (ProjectRow.id_advance now)

/-- A project takes a sequence for every revision that is appended to it. -/
theorem Db.project_appendAll (h : ∀ r ∈ rs, r.projectId = p) {row : ProjectRow}
    (hrow : d.project p = some row) : (d.appendAll now rs).project p = some
      { row with changeSeq := row.changeSeq + rs.length,
                 updatedAt := if rs = [] then row.updatedAt else now } := by
  induction rs generalizing d row with
  | nil => simp [hrow]
  | cons r rs ih =>
    have hproject : (d.appendNext now r).project p = some (row.advance now) := by
      rw [project_appendNext (h r List.mem_cons_self), hrow, Option.map_some]
    rw [appendAll_cons, ih (fun x hx => h x (List.mem_cons_of_mem _ hx)) hproject]
    simp [ProjectRow.advance]
    omega

/-- Other projects keep their data. -/
theorem Db.data_appendAll_of_ne (h : ∀ r ∈ rs, r.projectId ≠ p) :
    (d.appendAll now rs).data p = d.data p := by
  induction rs generalizing d with
  | nil => rfl
  | cons r rs ih =>
    rw [appendAll_cons, ih fun x hx => h x (List.mem_cons_of_mem _ hx)]
    exact Db.data_append_of_ne (h r List.mem_cons_self)

end AppendAll

/-! ## What a push appends -/

/-- The head revision of an object is the number of its latest record. -/
theorem headRevision_eq {d : Db} (hd : d.Coherent) {role : DbRole} {p : Uuid} {row : ProjectRow}
    (hrow : visibleProject role p d = some row) (kind : ObjectKind) (objectId : String) :
    headRevision role p kind objectId d =
      (latest SyncRecord.key (kind, objectId) (history (d.revisionsOf p))).map (·.revision) := by
  obtain ⟨hproject, hrole⟩ := visibleProject_eq_some_iff.mp hrow
  have hx := hd.data hproject
  have hhead := hx.heads kind objectId
  unfold headRevision
  rw [hhead]
  cases hl : latest SyncRecord.key (kind, objectId) (history (d.data p).revisions) with
  | none =>
    have hl' : latest SyncRecord.key (kind, objectId) (history (d.revisionsOf p)) = none := hl
    simp [hl']
  | some v =>
    have hl' : latest SyncRecord.key (kind, objectId) (history (d.revisionsOf p)) = some v := hl
    simp [hl', Option.filter, headOf, hrole]

/-- What follows the latest revision of an object. -/
theorem fits_of_latest {h : List SyncRecord} (hh : IsHistory h) {v : SyncRecord}
    (hseq : v.changeSequence = h.length + 1)
    (hbase : v.baseRevision = (latest SyncRecord.key v.key h).map (·.revision))
    (hrev : v.revision = v.baseRevision.getD 0 + 1) : Fits h v := by
  cases hl : latest SyncRecord.key v.key h with
  | none =>
    have hnone : versions SyncRecord.key v.key h = [] := by
      rw [latest, List.getLast?_eq_none_iff] at hl
      exact hl
    rw [hl] at hbase
    refine ⟨hseq, by simp [hrev, hbase, hnone], ?_⟩
    simp [hrev, hbase, previousRevision]
  | some w =>
    have hlen := hh.numbered.rev_latest hl
    have hone := hh.numbered.one_le (mem_of_latest hl)
    rw [hl] at hbase
    simp only [Option.map_some] at hbase
    rw [hbase] at hrev
    simp only [Option.getD_some] at hrev
    refine ⟨hseq, by rw [hrev, hlen], ?_⟩
    unfold previousRevision
    rw [hbase, if_pos (by omega)]
    congr 1
    omega

/-- A push whose base is the head revision of its object appends what its project accepts. -/
theorem accepts_itemRevision {d : Db} (hd : d.Coherent) {a : PushArgs} {row : ProjectRow}
    (hrow : visibleProject (.app a.userId) a.projectId d = some row)
    {revision : NewSyncRevision} (hbase : revision.baseRevision =
      headRevision (.app a.userId) a.projectId revision.kind revision.id d)
    (payloadId : Option Uuid) :
    d.Accepts (itemRevision a revision revision.baseRevision payloadId) := by
  obtain ⟨hproject, hrole⟩ := visibleProject_eq_some_iff.mp hrow
  have hid := Db.id_of_project hproject
  have hx := hd.data hproject
  rw [headRevision_eq hd hrow] at hbase
  refine ⟨row, hproject, hid.symm, ?_, ?_⟩
  · simp only [DbRole.sees, beq_iff_eq] at hrole
    exact hrole.symm
  · refine fits_of_latest hx.isHistory ?_ hbase rfl
    simp only [ObjectRevision.syncRecord, ObjectRevision.entry, length_history]
    rfl

/-! ## What a restore appends -/

/-- The number of revisions that an object of a project has. -/
def Db.revisionCount (d : Db) (p : Uuid) (key : ObjectKind × String) : ℤ :=
  (versions SyncRecord.key key (history (d.revisionsOf p))).length

/-- The rows that a restore has read as the current ones, some of which it has gone past. -/
def Db.Knows (d : Db) (p : Uuid) (current : List ManifestRow) : Prop :=
  ∀ row ∈ current, 1 ≤ row.revision ∧ row.revision ≤ d.revisionCount p row.key

/-- The revision of the head of the object of an item, or zero. -/
def actualRevision (current : List ManifestRow) (item : ManifestItem) : ℤ :=
  (existingRow current item).elim 0 (·.revision)

/-- An object has no fewer revisions later than before. -/
theorem Db.revisionCount_mono {d d' : Db} {p : Uuid} {key : ObjectKind × String}
    (h : d.revisionsOf p <+: d'.revisionsOf p) :
    d.revisionCount p key ≤ d'.revisionCount p key := by
  obtain ⟨rs, hrs⟩ := h
  have hpre : history (d.revisionsOf p) <+: history (d'.revisionsOf p) := by
    rw [← hrs, history, history, List.zipIdx_append, List.map_append]
    exact List.prefix_append _ _
  unfold revisionCount
  exact_mod_cast (hpre.sublist.filter _).length_le

/-- What is known of the revisions stays known when more are appended. -/
theorem Db.Knows.mono {d d' : Db} {p : Uuid} {current : List ManifestRow}
    (h : d.Knows p current) (hpre : d.revisionsOf p <+: d'.revisionsOf p) :
    d'.Knows p current :=
  fun row hrow => ⟨(h row hrow).1, (h row hrow).2.trans (Db.revisionCount_mono hpre)⟩

/-- The key of a row that an item finds. -/
theorem key_of_existingRow {current : List ManifestRow} {item : ManifestItem} {row : ManifestRow}
    (h : existingRow current item = some row) : row ∈ current ∧ row.key = (item.kind, item.id) := by
  have hkey := List.find?_some h
  simp only [Bool.and_eq_true, beq_iff_eq] at hkey
  exact ⟨List.mem_of_find?_eq_some h, by rw [SyncRecord.key, hkey.1, hkey.2]⟩

/-- The revision of an item is among those of its object. -/
theorem Db.Knows.actual {d : Db} {p : Uuid} {current : List ManifestRow}
    (h : d.Knows p current) (item : ManifestItem) : 0 ≤ actualRevision current item ∧
      actualRevision current item ≤ d.revisionCount p (item.kind, item.id) := by
  unfold actualRevision
  cases hrow : existingRow current item with
  | none =>
    refine ⟨le_refl _, ?_⟩
    simp [revisionCount]
  | some row =>
    obtain ⟨hmem, hkey⟩ := key_of_existingRow hrow
    obtain ⟨hone, hle⟩ := h row hmem
    rw [hkey] at hle
    exact ⟨by show 0 ≤ row.revision; omega, hle⟩

/-- A restore whose revision is not there yet appends what its project accepts: as the revisions of
the object are numbered without gaps, the new number is the next one. -/
theorem accepts_restoredRevision {d : Db} (hd : d.Coherent) {p : Uuid} {row : ProjectRow}
    (hproject : d.project p = some row) {current : List ManifestRow} (hknows : d.Knows p current)
    {now : Timestamp} {item : ManifestItem} {payloadId : Option Uuid}
    (hfresh : ∀ x ∈ d.revisionsOf p, x.id ≠ (restoredRevision now p row.ownerUserId item
      (actualRevision current item) payloadId).id) :
    d.Accepts (restoredRevision now p row.ownerUserId item (actualRevision current item)
      payloadId) := by
  have hid := Db.id_of_project hproject
  have hx := hd.data hproject
  have hh : IsHistory (history (d.revisionsOf p)) := hx.isHistory
  obtain ⟨hzero, hle⟩ := hknows.actual item
  generalize actualRevision current item = actual at hfresh hzero hle ⊢
  have hnext : actual = d.revisionCount p (item.kind, item.id) := by
    by_contra hne
    -- Otherwise the object has a revision with the new number.
    obtain ⟨v, hv, hkey, hrev⟩ := hh.numbered.exists_rev (k := (item.kind, item.id))
      (n := actual + 1) (by omega) (by unfold Db.revisionCount at hle hne; omega)
    obtain ⟨x, i, hx', rfl⟩ := mem_history.mp hv
    have hmem : x ∈ d.revisionsOf p := List.fst_mem_of_mem_zipIdx hx'
    refine hfresh x hmem ?_
    have howned := (hx.owned x hmem).1
    simp only [SyncRecord.key, ObjectRevision.syncRecord, Prod.mk.injEq] at hkey hrev
    simp [ObjectRevision.id, restoredRevision, howned, hid, hkey, hrev]
  refine ⟨row, hproject, hid.symm, rfl, ?_, ?_, ?_⟩
  · simp only [ObjectRevision.syncRecord, ObjectRevision.entry, length_history]
  · simp only [ObjectRevision.syncRecord, restoredRevision, hnext]
    rfl
  · exact (previousRevision_succ hzero).symm

end TaskTipsCloud

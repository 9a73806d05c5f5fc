import TaskTipsCloud.Restore
import TaskTipsCloud.Library.Versions

/-!
# The history of a project

The abstract view of what a project stores: the list of its records, oldest first, where the `i`-th
record has sequence `i`, the records of every object are numbered from one on, and each is based on
the one before. The tables of a project are coherent when its log and its heads follow from its
revisions in this way. Coherence is kept by appending a revision that fits, and under it the two
ways in which the code reads the state of a project agree: the join over the heads, and the latest
entry of each object in the log.
-/

namespace TaskTipsCloud

open Versions

/-- The object that a record is a revision of. -/
def SyncRecord.key (v : SyncRecord) : ObjectKind × String := (v.kind, v.id)

/-- The revision on which a revision is based. -/
def previousRevision (revision : ℤ) : Option ℤ :=
  if 1 < revision then some (revision - 1) else none

/-- The revision before a next one. -/
theorem previousRevision_succ {n : ℤ} (hn : 0 ≤ n) :
    previousRevision (n + 1) = if 0 < n then some n else none := by
  unfold previousRevision
  by_cases hpos : 0 < n
  · rw [if_pos hpos, if_pos (by omega), add_sub_cancel_right]
  · rw [if_neg hpos, if_neg (by omega)]

/-- The revision before one that is not the first. -/
theorem previousRevision_eq {n : ℤ} (hn : 1 ≤ n) :
    previousRevision n = if n = 1 then none else some (n - 1) := by
  unfold previousRevision
  by_cases h1 : n = 1
  · simp [h1]
  · rw [if_neg h1, if_pos (by omega)]

/-- What makes a list of records a history. -/
structure IsHistory (h : List SyncRecord) : Prop where
  /-- The sequences are the places in the list. -/
  sequenced : ∀ (i : ℕ) (v : SyncRecord), h[i]? = some v → v.changeSequence = i + 1
  /-- The revisions of every object are numbered from one on. -/
  numbered : Numbered SyncRecord.key SyncRecord.revision h
  /-- Every revision is based on the one before. -/
  based : ∀ v ∈ h, v.baseRevision = previousRevision v.revision

/-- A record that can be appended to a history. -/
structure Fits (h : List SyncRecord) (v : SyncRecord) : Prop where
  sequence : v.changeSequence = h.length + 1
  revision : v.revision = (versions SyncRecord.key v.key h).length + 1
  base : v.baseRevision = previousRevision v.revision

namespace IsHistory

variable {h : List SyncRecord} {v : SyncRecord}

/-- The empty history is one. -/
theorem nil : IsHistory [] := ⟨by simp, numbered_nil, by simp⟩

/-- A history goes on with the records that fit. -/
theorem concat (hh : IsHistory h) (hv : Fits h v) : IsHistory (h ++ [v]) where
  sequenced := by
    intro i w hw
    rcases Nat.lt_or_ge i h.length with hi | hi
    · rw [List.getElem?_append_left hi] at hw
      exact hh.sequenced i w hw
    · rw [List.getElem?_append_right hi, List.getElem?_singleton] at hw
      split at hw
      · cases hw
        rw [hv.sequence]
        omega
      · simp at hw
  numbered := numbered_concat_iff.mpr ⟨hh.numbered, hv.revision⟩
  based := by
    intro w hw
    rcases List.mem_append.mp hw with hw | hw
    · exact hh.based w hw
    · rw [List.mem_singleton.mp hw]
      exact hv.base

/-- A part of a history from its start is one. -/
theorem of_prefix {h' : List SyncRecord} (hh : IsHistory h) (hp : h' <+: h) : IsHistory h' where
  sequenced := by
    intro i v hv
    obtain ⟨rest, rfl⟩ := hp
    obtain ⟨hi, -⟩ := List.getElem?_eq_some_iff.mp hv
    exact hh.sequenced i v (by rw [List.getElem?_append_left hi, hv])
  numbered := hh.numbered.of_prefix hp
  based := fun v hv => hh.based v (hp.subset hv)

/-- The sequence of a record is its place. -/
theorem sequence_getElem (hh : IsHistory h) {i : ℕ} (hi : i < h.length) :
    h[i].changeSequence = i + 1 :=
  hh.sequenced i _ (List.getElem?_eq_getElem hi)

/-- Later records have higher sequences. -/
theorem pairwise_sequence (hh : IsHistory h) :
    h.Pairwise fun v w => v.changeSequence < w.changeSequence := by
  rw [List.pairwise_iff_getElem]
  intro i j hi hj hij
  rw [hh.sequence_getElem hi, hh.sequence_getElem hj]
  omega

/-- A history repeats no record. -/
theorem nodup (hh : IsHistory h) : h.Nodup :=
  hh.pairwise_sequence.imp fun hlt heq => by rw [heq] at hlt; exact absurd hlt (lt_irrefl _)

/-- The sequence of the last record is the length of the history. -/
theorem sequence_last (hh : IsHistory (h ++ [v])) : v.changeSequence = h.length + 1 :=
  hh.sequenced h.length v (by simp)

/-- The records up to a sequence are the first ones. -/
theorem filter_le (hh : IsHistory h) (n : ℤ) :
    h.filter (·.changeSequence ≤ n) = h.take n.toNat := by
  induction h using List.reverseRecOn with
  | nil => simp
  | append_singleton h v ih =>
    have hlast := hh.sequence_last
    rw [List.filter_append, ih (hh.of_prefix (List.prefix_append _ _)), List.take_append]
    by_cases hn : (h.length : ℤ) + 1 ≤ n
    · rw [List.take_of_length_le (l := [v]) (by simp; omega)]
      simp [hlast, hn]
    · have htake : n.toNat - h.length = 0 := by omega
      simp [hlast, hn, htake]

/-- The records after a sequence are the rest. -/
theorem filter_gt (hh : IsHistory h) (n : ℤ) :
    h.filter (n < ·.changeSequence) = h.drop n.toNat := by
  induction h using List.reverseRecOn with
  | nil => simp
  | append_singleton h v ih =>
    have hlast := hh.sequence_last
    rw [List.filter_append, ih (hh.of_prefix (List.prefix_append _ _)), List.drop_append]
    by_cases hn : (h.length : ℤ) + 1 ≤ n
    · rw [List.drop_of_length_le (l := [v]) (by simp; omega)]
      simp [hlast, hn]
    · have hdrop : n.toNat - h.length = 0 := by omega
      simp [hlast, hdrop]
      omega

/-- Sorting a history by sequence changes nothing. -/
theorem orderBySequence_filter (hh : IsHistory h) (p : SyncRecord → Bool) :
    orderBySequence (h.filter p) = h.filter p := by
  have hsorted : (h.filter p).Pairwise fun v w => v.changeSequence ≤ w.changeSequence :=
    (hh.pairwise_sequence.imp fun hlt => hlt.le).sublist List.filter_sublist
  exact hsorted.insertionSort_eq

/-- Of a history up to a sequence, the ranked records are the latest ones. -/
theorem rankedRecords_eq (hh : IsHistory h) (n : ℤ) :
    rankedRecords h n = current SyncRecord.key (h.take n.toNat) := by
  unfold rankedRecords
  simp only [hh.filter_le n]
  have hpre := hh.of_prefix (List.take_prefix n.toNat h)
  refine List.filter_congr fun v hv => ?_
  have hlatest := latest_iff_forall SyncRecord.key hpre.pairwise_sequence hv
  rw [Bool.eq_iff_iff, decide_eq_true_eq, hlatest]
  simp only [rowNumber, beq_iff_eq, Nat.add_eq_right, List.length_eq_zero_iff,
    List.filter_eq_nil_iff, Bool.and_eq_true, decide_eq_true_eq, not_and, SyncRecord.key,
    Prod.mk.injEq, not_lt]

end IsHistory

/-! ## The tables of a project -/

/-- The entry of a revision in the change log. -/
def ObjectRevision.entry (r : ObjectRevision) (sequence : ℤ) : ChangeLogEntry where
  projectId := r.projectId
  ownerUserId := r.ownerUserId
  sequence := sequence
  revisionId := r.id

/-- The change log of revisions that were appended in this order. -/
def logEntries (revisions : List ObjectRevision) : List ChangeLogEntry :=
  (revisions.zipIdx 1).map fun (r, i) => r.entry i

/-- The history of revisions that were appended in this order. -/
def history (revisions : List ObjectRevision) : List SyncRecord :=
  (revisions.zipIdx 1).map fun (r, i) => r.syncRecord (r.entry i)

/-- The head row of an object whose latest record is `v`. -/
def headOf (row : ProjectRow) (v : SyncRecord) : ObjectHead where
  projectId := row.id
  ownerUserId := row.ownerUserId
  kind := v.kind
  objectId := v.id
  revision := v.revision
  revisionId := ⟨row.id, v.kind, v.id, v.revision⟩

/-- The object of a head. -/
def ObjectHead.key (h : ObjectHead) : ObjectKind × String := (h.kind, h.objectId)

/-- The object of a revision. -/
def ObjectRevision.key (r : ObjectRevision) : ObjectKind × String := (r.kind, r.objectId)

/-- The tables of a project fit together: the log and the heads follow from the revisions. -/
structure ProjectData.Coherent (row : ProjectRow) (x : ProjectData) : Prop where
  project : x.project = some row
  owned : ∀ r ∈ x.revisions, r.projectId = row.id ∧ r.ownerUserId = row.ownerUserId
  sequence : row.changeSeq = x.revisions.length
  log : x.log = logEntries x.revisions
  isHistory : IsHistory (history x.revisions)
  heads : ∀ kind objectId, x.head kind objectId =
    (latest SyncRecord.key (kind, objectId) (history x.revisions)).map (headOf row)
  headKeys : (x.heads.map ObjectHead.key).Nodup

/-- No revisions have no history. -/
@[simp] theorem history_nil : history [] = [] := rfl

/-- No revisions have no log. -/
@[simp] theorem logEntries_nil : logEntries [] = [] := rfl

/-- A further revision adds its record to the history. -/
theorem history_concat (rs : List ObjectRevision) (r : ObjectRevision) :
    history (rs ++ [r]) = history rs ++ [r.syncRecord (r.entry (rs.length + 1))] := by
  simp [history, List.zipIdx_append, add_comm]

/-- A further revision adds its entry to the log. -/
theorem logEntries_concat (rs : List ObjectRevision) (r : ObjectRevision) :
    logEntries (rs ++ [r]) = logEntries rs ++ [r.entry (rs.length + 1)] := by
  simp [logEntries, List.zipIdx_append, add_comm]

/-- A history has a record for each revision. -/
@[simp] theorem length_history (rs : List ObjectRevision) : (history rs).length = rs.length := by
  simp [history]

/-- A record of a history is a revision with its entry. -/
theorem mem_history {rs : List ObjectRevision} {v : SyncRecord} :
    v ∈ history rs ↔ ∃ r i, (r, i) ∈ rs.zipIdx 1 ∧ v = r.syncRecord (r.entry i) := by
  simp only [history, List.mem_map, Prod.exists]
  exact ⟨fun ⟨r, i, h, hv⟩ => ⟨r, i, h, hv.symm⟩, fun ⟨r, i, h, hv⟩ => ⟨r, i, h, hv.symm⟩⟩

/-- A history has the objects and the numbers of its revisions. -/
theorem map_history_key (rs : List ObjectRevision) :
    (history rs).map (fun v => (v.key, v.revision)) = rs.map fun r => (r.key, r.revision) := by
  have hfst : (rs.zipIdx 1).map Prod.fst = rs := by simp
  calc (history rs).map (fun v => (v.key, v.revision))
      = ((rs.zipIdx 1).map Prod.fst).map fun r => (r.key, r.revision) := by
        rw [history, List.map_map, List.map_map]
        rfl
    _ = rs.map fun r => (r.key, r.revision) := by rw [hfst]

/-- The log names the revisions in their order. -/
theorem map_logEntries_revisionId (rs : List ObjectRevision) :
    (logEntries rs).map (·.revisionId) = rs.map (·.id) := by
  have hfst : (rs.zipIdx 1).map Prod.fst = rs := by simp
  calc (logEntries rs).map (·.revisionId)
      = ((rs.zipIdx 1).map Prod.fst).map (·.id) := by
        rw [logEntries, List.map_map, List.map_map]
        rfl
    _ = rs.map (·.id) := by rw [hfst]

/-- The sequences of the log are the numbers from one on. -/
theorem map_logEntries_sequence (rs : List ObjectRevision) : (logEntries rs).map (·.sequence) =
    (List.range' 1 rs.length).map fun n : ℕ => (n : ℤ) := by
  induction rs using List.reverseRecOn with
  | nil => rfl
  | append_singleton rs r ih =>
    rw [logEntries_concat, List.map_append, ih, List.length_append, List.length_singleton,
      List.range'_concat, List.map_append, List.map_singleton, List.map_singleton]
    congr 2
    show (rs.length : ℤ) + 1 = _
    omega

/-- The versions of an object in a history are its revisions. -/
theorem map_versions_history (rs : List ObjectRevision) (k : ObjectKind × String) :
    (versions SyncRecord.key k (history rs)).map (·.revision) =
      (rs.filter (·.key = k)).map (·.revision) := by
  induction rs using List.reverseRecOn with
  | nil => rfl
  | append_singleton rs r ih =>
    rw [history_concat, versions_append, List.map_append, ih, List.filter_append, List.map_append]
    congr 1
    by_cases hk : r.key = k
    · have hk' : (r.syncRecord (r.entry (rs.length + 1))).key = k := hk
      rw [versions, List.filter_singleton, List.filter_singleton]
      simp only [hk, hk', decide_true, cond_true]
      rfl
    · have hk' : (r.syncRecord (r.entry (rs.length + 1))).key ≠ k := hk
      simp [versions, hk, hk']

/-- Of two records of one object the one with the higher revision has the higher sequence. -/
theorem IsHistory.revision_lt_iff {h : List SyncRecord} (hh : IsHistory h) {v w : SyncRecord}
    (hv : v ∈ h) (hw : w ∈ h) (hk : v.key = w.key) :
    v.revision < w.revision ↔ v.changeSequence < w.changeSequence := by
  have hboth : h.Pairwise fun v w => v.key = w.key →
      v.revision < w.revision ∧ v.changeSequence < w.changeSequence :=
    hh.numbered.pairwise.imp₂ (fun _ _ hrev hseq hk => ⟨hrev hk, hseq⟩) hh.pairwise_sequence
  refine List.Pairwise.forall_of_forall_of_flip
    (R := fun v w => v.key = w.key →
      (v.revision < w.revision ↔ v.changeSequence < w.changeSequence))
    (fun _ _ _ => by simp) (hboth.imp fun hlt hk => ?_) (hboth.imp fun hlt hk => ?_) hv hw hk
  · exact iff_of_true (hlt hk).1 (hlt hk).2
  · exact iff_of_false (hlt hk.symm).1.not_gt (hlt hk.symm).2.not_gt

/-- In a history no two revisions have the same object and number. -/
theorem nodup_map_id {rs : List ObjectRevision} (h : IsHistory (history rs)) :
    (rs.map (·.id)).Nodup := by
  have hpairs : (rs.map fun r => (r.key, r.revision)).Nodup := by
    rw [← map_history_key, List.nodup_map_iff_inj_on h.nodup]
    intro v hv w hw heq
    simp only [Prod.mk.injEq] at heq
    exact h.numbered.eq_of_rev hv hw heq.1 heq.2
  refine List.Nodup.of_map (fun i : RevisionId => ((i.kind, i.objectId), i.revision)) ?_
  rwa [List.map_map]

/-- A head is found by the kind and the identifier of its object. -/
theorem ProjectData.head_eq_find? (x : ProjectData) (kind : ObjectKind) (objectId : String) :
    x.head kind objectId = x.heads.find? (·.key == (kind, objectId)) := by
  rfl

namespace ProjectData.Coherent

variable {row : ProjectRow} {x : ProjectData}

/-- Joining the log with the revisions gives the history. -/
theorem records_eq (hx : x.Coherent row) : x.records = history x.revisions := by
  have hids := nodup_map_id hx.isHistory
  rw [records, hx.log, logEntries, List.flatMap_map, history, List.map_eq_flatMap]
  refine List.flatMap_congr fun ⟨r, i⟩ hr => ?_
  have hfilter : x.revisions.filter (·.id == r.id) = [r] :=
    filter_key_eq hids (List.fst_mem_of_mem_zipIdx hr)
  show (x.revisions.filter (·.id == r.id)).map (·.syncRecord (r.entry i)) = _
  rw [hfilter]
  rfl

/-- Every head is that of the latest record of its object. -/
theorem eq_headOf (hx : x.Coherent row) {h : ObjectHead} (hh : h ∈ x.heads) :
    ∃ v, latest SyncRecord.key h.key (history x.revisions) = some v ∧ h = headOf row v := by
  have hfind : x.head h.kind h.objectId = some h := by
    rw [head_eq_find?]
    exact find?_key_eq hx.headKeys hh
  rw [hx.heads] at hfind
  obtain ⟨v, hv, heq⟩ := Option.map_eq_some_iff.mp hfind
  exact ⟨v, hv, heq.symm⟩

/-- Joining one head with its revision and its entry gives the latest record of its object. -/
theorem join_head (hx : x.Coherent row) {h : ObjectHead} (hh : h ∈ x.heads) :
    ∃ v, latest SyncRecord.key h.key (history x.revisions) = some v ∧
      ((x.revisions.filter (·.id == h.revisionId)).flatMap fun r =>
        (x.log.filter (·.revisionId == r.id)).map r.syncRecord) = [v] := by
  obtain ⟨v, hv, rfl⟩ := hx.eq_headOf hh
  refine ⟨v, hv, ?_⟩
  obtain ⟨r, i, hr, rfl⟩ := mem_history.mp (mem_of_latest hv)
  have hmem : r ∈ x.revisions := List.fst_mem_of_mem_zipIdx hr
  have hid : (headOf row (r.syncRecord (r.entry i))).revisionId = r.id := by
    simp [headOf, ObjectRevision.id, ObjectRevision.syncRecord, (hx.owned r hmem).1]
  have hids := nodup_map_id hx.isHistory
  have hrev : x.revisions.filter (·.id == r.id) = [r] := filter_key_eq hids hmem
  have hlog : x.log.filter (·.revisionId == r.id) = [r.entry i] := by
    rw [hx.log]
    refine filter_key_eq (g := (·.revisionId)) (x := r.entry i) ?_ ?_
    · rw [map_logEntries_revisionId]
      exact hids
    · exact List.mem_map.mpr ⟨(r, i), hr, rfl⟩
  rw [hid, hrev]
  simp [hlog]

/-- Joining the heads with their revisions and entries gives the latest records. -/
theorem mem_headRecords (hx : x.Coherent row) {v : SyncRecord} :
    v ∈ x.headRecords ↔ v ∈ current SyncRecord.key (history x.revisions) := by
  rw [mem_current_iff]
  simp only [headRecords, List.mem_flatMap (l := x.heads)]
  constructor
  · rintro ⟨h, hh, hv⟩
    obtain ⟨w, hw, hjoin⟩ := hx.join_head hh
    rw [hjoin, List.mem_singleton] at hv
    rw [hv, key_of_latest hw, hw]
  · intro hv
    have hhead := hx.heads v.kind v.id
    have hv' : latest SyncRecord.key (v.kind, v.id) (history x.revisions) = some v := hv
    rw [hv', Option.map_some] at hhead
    have hmem := List.mem_of_find?_eq_some hhead
    obtain ⟨w, hw, hjoin⟩ := hx.join_head hmem
    have hvw : w = v := Option.some.inj (hw.symm.trans hv')
    exact ⟨_, hmem, by rw [hjoin, hvw]; exact List.mem_singleton.mpr rfl⟩

/-- Each object has one head record. -/
theorem map_key_headRecords (hx : x.Coherent row) :
    x.headRecords.map (·.key) = x.heads.map (·.key) := by
  rw [headRecords, List.map_flatMap, List.map_eq_flatMap (l := x.heads)]
  refine List.flatMap_congr fun h hh => ?_
  obtain ⟨v, hv, hjoin⟩ := hx.join_head hh
  rw [hjoin, ← key_of_latest hv]
  rfl

/-- The two views of the state of a project have the same records. -/
theorem headRecords_perm (hx : x.Coherent row) :
    x.headRecords.Perm (current SyncRecord.key (history x.revisions)) := by
  have hnodup : x.headRecords.Nodup := by
    refine List.Nodup.of_map (·.key) ?_
    rw [hx.map_key_headRecords]
    exact hx.headKeys
  exact (List.perm_ext_iff_of_nodup hnodup (hx.isHistory.nodup.filter _)).mpr
    fun v => hx.mem_headRecords

/-- A role that sees the project sees all of its rows. -/
theorem visible_eq (hx : x.Coherent row) {role : DbRole} (hrole : role.sees row.ownerUserId) :
    x.visible role = x := by
  have hproject : x.project.filter (role.sees ·.ownerUserId) = x.project := by
    rw [hx.project]
    simp [hrole]
  have hrevisions : x.revisions.filter (role.sees ·.ownerUserId) = x.revisions :=
    List.filter_eq_self.mpr fun r hr => by rw [(hx.owned r hr).2, hrole]
  have hheads : x.heads.filter (role.sees ·.ownerUserId) = x.heads :=
    List.filter_eq_self.mpr fun h hh => by
      obtain ⟨v, -, rfl⟩ := hx.eq_headOf hh
      exact hrole
  have hlog : x.log.filter (role.sees ·.ownerUserId) = x.log := by
    refine List.filter_eq_self.mpr fun c hc => ?_
    rw [hx.log, logEntries, List.mem_map] at hc
    obtain ⟨⟨r, i⟩, hr, rfl⟩ := hc
    have howner := (hx.owned r (List.fst_mem_of_mem_zipIdx hr)).2
    simp [ObjectRevision.entry, howner, hrole]
  unfold visible
  rw [hproject, hrevisions, hheads, hlog]

end ProjectData.Coherent

end TaskTipsCloud

import TaskTipsCloud.Library.Serial
import TaskTipsCloud.RestoreRuns

/-!
# What a call does to snapshots

What a call that is executed alone does to the snapshots: it inserts a pending one with the heads
that it has read, or it records or marks the manifest of one.
-/

namespace TaskTipsCloud

open Txn

/-- A snapshot whose manifest is stored. -/
def SnapshotRow.ready (x : SnapshotRow) (bucket key : String) : SnapshotRow :=
  { x with manifestBucket := bucket, manifestKey := key, status := .ready }

/-- A snapshot with a recorded manifest. -/
def SnapshotRow.recorded (x : SnapshotRow) (a : RecordSnapshotArgs) : SnapshotRow :=
  { x with manifestBucket := a.manifestBucket, manifestKey := a.manifestKey,
           manifest := a.manifest, status := .ready }

/-! ## Statements -/

section

variable {d d' : Db} {host : Host} {now : Timestamp}

/-- A pending snapshot is added under a new identifier. -/
theorem run_insertPendingSnapshot {snapshotId p ownerUserId : Uuid} {generation sequence : ℤ}
    {manifest : Json} {u : Unit}
    (h : (insertPendingSnapshot host now snapshotId p ownerUserId generation sequence
      manifest).run d = (.ok u, d')) :
    d.snapshot snapshotId = none ∧ d' = d.withSnapshot
      (pendingRow host now snapshotId p ownerUserId generation sequence manifest) := by
  simp only [insertPendingSnapshot, bind_eq, acquire_bind, run_lock, run_mapConflict_ok_iff] at h
  obtain ⟨hrefused, hwrite⟩ := run_insertRow_ok_iff.mp h
  refine ⟨?_, hwrite⟩
  have hnew := constraint_of_firstViolation hrefused (c := (d.snapshot snapshotId).isNone)
    (e := .uniqueViolation) (List.mem_of_getElem? (i := 2) rfl)
  simpa using hnew

/-- The state of a project that is active. -/
theorem run_projectState {role : DbRole} {p : Uuid} {forUpdate : Bool} {r : ℤ × ℤ}
    (h : (projectState role p forUpdate).run d = (.ok r, d')) : d' = d ∧ ∃ row,
      visibleProject role p d = some row ∧ row.status = .active ∧
        r = (row.generation, row.changeSeq) := by
  have hread : ((orThrow .notFound (visibleProject role p d)).bind fun row =>
      (require (row.status == .active) .projectMaintenance).bind fun _ =>
        (.pure (row.generation, row.changeSeq) : Tx (ℤ × ℤ))).run d = (.ok r, d') := by
    cases forUpdate with
    | true =>
      obtain ⟨row, s, hrow, h⟩ := run_bind_ok_iff.mp h
      rw [run_selectForUpdate] at hrow
      cases hrow
      exact h
    | false => exact h
  simp only [run_bind_ok_iff, run_orThrow_ok_iff, run_require_ok_iff, run_pure_ok_iff,
    beq_iff_eq] at hread
  obtain ⟨row, _, ⟨hrow, rfl⟩, _, _, ⟨hactive, rfl⟩, rfl, rfl⟩ := hread
  exact ⟨rfl, row, hrow, hactive, rfl⟩

/-- What taking a snapshot does. -/
theorem run_snapshotManifest {order : ScanOrder} {userId p snapshotId : Uuid}
    {r : Except PersistenceError (ℤ × ℤ × Json)}
    (h : (snapshotManifest host now order userId p snapshotId).run d = (.ok r, d')) :
    ∃ row manifest, visibleProject (.app userId) p d = some row ∧
      manifest = snapshotManifestJson host snapshotId row.generation row.changeSeq
        (headRows (.app userId) order p d) ∧ d.snapshot snapshotId = none ∧
      r = .ok (row.generation, row.changeSeq, manifest) ∧ d' = d.withSnapshot
        (pendingRow host now snapshotId p userId row.generation row.changeSeq manifest) := by
  simp only [snapshotManifest, requireActiveProjectForUpdate, bind_eq, query_bind, run_read,
    run_bind_ok_iff, pure_eq, run_pure_ok_iff] at h
  obtain ⟨state, _, hstate, _, _, hinsert, rfl, rfl⟩ := h
  obtain ⟨rfl, row, hrow, -, rfl⟩ := run_projectState hstate
  obtain ⟨hnew, rfl⟩ := run_insertPendingSnapshot hinsert
  exact ⟨row, _, hrow, rfl, hnew, rfl, rfl⟩

/-- What preparing a restore does. -/
theorem run_createPreRestoreSnapshot {order : ScanOrder} {p jobId leaseToken snapshotId : Uuid}
    {r : Except PersistenceError (Uuid × Uuid × Json)}
    (h : (createPreRestoreSnapshot host now order p jobId leaseToken snapshotId).run d =
      (.ok r, d')) :
    ∃ job row manifest, leasedJob jobId leaseToken d = some job ∧ job.projectId = p ∧
      d.project p = some row ∧ manifest = snapshotManifestJson host snapshotId row.generation
        row.changeSeq (headRows .worker order p d) ∧ d.snapshot snapshotId = none ∧
      r = .ok (snapshotId, row.ownerUserId, manifest) ∧
      d' = (d.withSnapshot (pendingRow host now snapshotId p row.ownerUserId row.generation
        row.changeSeq manifest)).updateRestoreJob jobId (·.snapshotted snapshotId) := by
  simp only [createPreRestoreSnapshot, bind_eq, query_bind, run_read] at h
  cases hfound : leasedJobAndProject p jobId leaseToken d with
  | none =>
    rw [hfound] at h
    cases h
  | some found =>
    obtain ⟨job, row⟩ := found
    simp only [hfound, acquire_bind, run_lock, run_read, run_bind_ok_iff, run_selectForUpdate,
      run_orThrow_ok_iff, run_require_ok_iff, run_modify_ok_iff, pure_eq, run_pure_ok_iff,
      Prod.mk.injEq, Except.ok.injEq] at h
    obtain ⟨_, _, ⟨rfl, rfl⟩, _, _, ⟨hjob, rfl⟩, _, _, ⟨-, rfl⟩, _, _, hinsert, _, _, rfl, rfl,
      rfl⟩ := h
    cases hjob
    obtain ⟨hnew, rfl⟩ := run_insertPendingSnapshot hinsert
    simp only [leasedJobAndProject, Option.bind_eq_bind, Option.bind_eq_some_iff,
      Option.filter_eq_some_iff, Option.pure_def, Option.some.injEq, Prod.mk.injEq,
      beq_iff_eq] at hfound
    obtain ⟨_, ⟨hjob, hp⟩, _, hproject, rfl, rfl⟩ := hfound
    exact ⟨_, _, _, hjob, hp, (visibleProject_eq_some_iff.mp hproject).1, rfl, hnew, rfl, rfl⟩

/-- What recording a manifest does. -/
theorem run_recordSnapshot {a : RecordSnapshotArgs} {r : Except PersistenceError SnapshotRow}
    (h : (recordSnapshot a).run d = (.ok r, d')) : ∃ x, recordableSnapshot a d = some x ∧
      d'.snapshots = (d.updateSnapshot a.snapshotId (·.recorded a)).snapshots ∧
        d'.bootstrapManifests = d.bootstrapManifests := by
  simp only [recordSnapshot, ensureProjectVisible, bind_eq, query_bind, run_bind_ok_iff, run_read,
    run_require_ok_iff, run_selectForUpdate, run_orThrow_ok_iff, run_modify_ok_iff, pure_eq,
    run_pure_ok_iff, Prod.mk.injEq, Except.ok.injEq] at h
  obtain ⟨_, _, ⟨-, rfl⟩, _, _, ⟨rfl, rfl⟩, x, _, ⟨hx, rfl⟩, _, _, rfl, _, _, haudit, -, rfl⟩ := h
  obtain ⟨-, rfl⟩ := run_insertRow_ok_iff.mp haudit
  exact ⟨x, hx, rfl, rfl⟩

/-- What marking the snapshot of a job does: it is marked if it is pending and the worker holds the
lease. -/
theorem run_markSnapshotReadyForJob {jobId leaseToken snapshotId : Uuid} {bucket key : String}
    {r : Except PersistenceError Unit}
    (h : (markSnapshotReadyForJob jobId leaseToken snapshotId bucket key).run d = (.ok r, d')) :
    (pendingSnapshot snapshotId d = none ∨ leasedJob jobId leaseToken d = none) ∧ d' = d ∨
      ∃ x, pendingSnapshot snapshotId d = some x ∧
        d' = d.updateSnapshot snapshotId (·.ready bucket key) := by
  simp only [markSnapshotReadyForJob, bind_eq, run_bind_ok_iff, run_selectForUpdate,
    Prod.mk.injEq, Except.ok.injEq] at h
  obtain ⟨row, _, ⟨hrow, rfl⟩, h⟩ := h
  cases row with
  | none =>
    obtain ⟨-, rfl⟩ := run_pure_ok_iff.mp h
    refine .inl ⟨?_, rfl⟩
    cases hpending : pendingSnapshot snapshotId d with
    | none => exact .inl rfl
    | some x =>
      right
      have hfalse := Option.filter_eq_none_iff.mp hrow x hpending
      simpa using hfalse
  | some x =>
    simp only [run_bind_ok_iff, run_modify_ok_iff, pure_eq, run_pure_ok_iff] at h
    obtain ⟨_, _, rfl, -, rfl⟩ := h
    exact .inr ⟨x, (Option.filter_eq_some_iff.mp hrow).1, rfl⟩

end

end TaskTipsCloud

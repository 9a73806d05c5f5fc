import TaskTipsCloud.Retention

/-!
# Targets of restore jobs

A restore job names a sequence, or a snapshot that was ready when the job was enqueued. Snapshots
are changed under their locks and never once they are ready, so in every interleaving the snapshot
of a job is ready, and stays as it is.
-/

namespace TaskTipsCloud

open Txn

/-! ## What holds of every committed database -/

/-- What a restore job asks for is there: its user, and a ready snapshot of its project or a
sequence. -/
structure RestoreJob.HasTarget (d : Db) (j : RestoreJob) : Prop where
  user : d.users.any (·.id == j.requestedBy) = true
  snapshot : ∀ s, j.snapshotId = some s →
    ∃ x, d.snapshot s = some x ∧ x.projectId = j.projectId ∧ x.status = .ready
  sequence : j.snapshotId = none → j.targetChangeSequence.isSome = true

/-- What holds of every committed database. -/
structure Db.Targeted (drawn : Uuid → Uuid × String) (d : Db) : Prop where
  jobsSound : d.JobsSound
  backed : d.Backed drawn
  targets : ∀ j ∈ d.restoreJobs, j.HasTarget d

/-- What a session with the locks `H` that reads the database `d` knows of the snapshots of the
database `c` on which it commits. -/
structure Db.TargetRely (drawn : Uuid → Uuid × String) (H : Set Lock) (d c : Db) : Prop where
  jobs : Db.JobRely H d c
  backed : Db.BackedRely drawn H d c
  /-- A snapshot stays in its project, and one that is ready stays as it is. -/
  snapshot : ∀ s x, d.snapshot s = some x →
    ∃ y, c.snapshot s = some y ∧ y.projectId = x.projectId ∧ (x.status = .ready → y = x)
  /-- A snapshot becomes ready under its lock. -/
  unready : ∀ s, Lock.snapshot s ∈ H → (∀ x, d.snapshot s = some x → x.status ≠ .ready) →
    ∀ y, c.snapshot s = some y → y.status ≠ .ready

section

variable {drawn : Uuid → Uuid × String} {H H' : Set Lock} {d d' d'' : Db}

/-- Others may change nothing. -/
theorem Db.TargetRely.refl (hd : d.Targeted drawn) (H : Set Lock) :
    Db.TargetRely drawn H d d where
  jobs := .refl hd.jobsSound H
  backed := .refl hd.backed H
  snapshot _ x hx := ⟨x, hx, rfl, fun _ => rfl⟩
  unready _ _ h := h

/-- What others do under the same locks, in two parts. -/
theorem Db.TargetRely.trans (h : Db.TargetRely drawn H d d') (h' : Db.TargetRely drawn H d' d'') :
    Db.TargetRely drawn H d d'' where
  jobs := h.jobs.trans h'.jobs
  backed := h.backed.trans h'.backed
  snapshot s x hx := by
    obtain ⟨y, hy, hp, hready⟩ := h.snapshot s x hx
    obtain ⟨z, hz, hp', hready'⟩ := h'.snapshot s y hy
    refine ⟨z, hz, hp'.trans hp, fun hx => ?_⟩
    have hyx := hready hx
    rw [hready' (hyx ▸ hx), hyx]
  unready s hs hx := h'.unready s hs (h.unready s hs hx)

/-- What others may do under more locks they may do under fewer. -/
theorem Db.TargetRely.anti (hH : H ⊆ H') (h : Db.TargetRely drawn H' d d') :
    Db.TargetRely drawn H d d' where
  jobs := h.jobs.anti hH
  backed := h.backed.anti hH
  snapshot := h.snapshot
  unready s hs := h.unready s (hH hs)

end

/-! ## What a call does to the snapshots -/

/-- What a finished request with the locks `H` did to the snapshots. -/
inductive SnapshotChange (host : Host) (H : Set Lock) (e : SyncEvent) : Prop
  | kept (h : e.after.snapshots = e.before.snapshots)
  /-- A pending snapshot has the heads of its project. -/
  | inserted (x : SnapshotRow) (row : ProjectRow) (role : DbRole) (order : ScanOrder)
      (h : e.after.snapshots = e.before.snapshots ++ [x])
      (hlock : Lock.snapshot x.id ∈ H) (hstatus : x.status = .pending)
      (hrow : visibleProject role x.projectId e.before = some row)
      (hmanifest : x.manifest = snapshotManifestJson host x.id row.generation row.changeSeq
        (headRows role order x.projectId e.before))
  /-- A snapshot that is not ready is made ready, with the manifest that it has. -/
  | marked {s : Uuid} {f : SnapshotRow → SnapshotRow} (hlock : Lock.snapshot s ∈ H)
      (hunready : ∀ x, e.before.snapshot s = some x → x.status ≠ .ready)
      (h : e.after.snapshots = (e.before.updateSnapshot s f).snapshots)
      (hf : ∀ x, (f x).id = x.id ∧ (f x).projectId = x.projectId ∧ (f x).manifest = x.manifest)
  /-- A snapshot that is not ready is made ready, with a manifest that was verified. -/
  | recorded {a : RecordSnapshotArgs} {x : SnapshotRow}
      (hcall : e.request.call = .recordSnapshot a) (hlock : Lock.snapshot a.snapshotId ∈ H)
      (hx : e.before.snapshot a.snapshotId = some x) (hunready : x.status ≠ .ready)
      (hproject : x.projectId = a.projectId)
      (h : e.after.snapshots = (e.before.updateSnapshot a.snapshotId (·.recorded a)).snapshots)
  | expired {q : SnapshotRow → Bool} (hq : ∀ x, q x = true → x.status ≠ .ready)
      (h : e.after.snapshots = (e.before.updateSnapshots q fun x =>
        { x with status := .failed }).snapshots)

section

variable {drawn : Uuid → Uuid × String} {host : Host} {now : Timestamp} {c : Db} {H : Set Lock}
  {b : Db → Db} {t : ℤ}

/-- A snapshot that is pending under its lock is there at the commit, and not ready. -/
theorem unready_of_pending {d : Db} {s : Uuid} {x : SnapshotRow} (hd : Db.TargetRely drawn H d c)
    (hlock : Lock.snapshot s ∈ H) (hx : d.snapshot s = some x) (hpending : x.status = .pending) :
    ∃ y, c.snapshot s = some y ∧ y.projectId = x.projectId ∧ y.status ≠ .ready := by
  obtain ⟨y, hy, hp, -⟩ := hd.snapshot s x hx
  refine ⟨y, hy, hp, hd.unready s hlock (fun z hz => ?_) y hy⟩
  rw [hx] at hz
  cases hz
  rw [hpending]
  exact fun h => (by cases h)

/-- A request that does not write to the snapshots. -/
theorem snapshotChange_of_touches {e : SyncEvent} {T : List Table}
    (h : e.before.Touches T e.after) (hT : .snapshots ∉ T) : SnapshotChange host H e :=
  .kept (h.snapshots hT)

/-- Making a snapshot ready that is pending under its lock. -/
theorem snapshotChange_of_marked {call : Call} {r : Except PersistenceError Reply} {s : Uuid}
    {x : SnapshotRow} {d : Db} {f : SnapshotRow → SnapshotRow} (hd : Db.TargetRely drawn H d c)
    (hlock : Lock.snapshot s ∈ H) (hx : pendingSnapshot s d = some x)
    (hb : (b c).snapshots = (c.updateSnapshot s f).snapshots)
    (hf : ∀ x, (f x).id = x.id ∧ (f x).projectId = x.projectId ∧ (f x).manifest = x.manifest) :
    SnapshotChange host H ⟨⟨now, call⟩, r, c, b c, t⟩ := by
  obtain ⟨hfind, hpending⟩ := Option.filter_eq_some_iff.mp hx
  obtain ⟨y, hy, -, hunready⟩ := unready_of_pending hd hlock hfind (beq_iff_eq.mp hpending)
  refine .marked hlock (fun z hz => ?_) hb hf
  rw [show c.snapshot s = some z from hz] at hy
  cases hy
  exact hunready

/-- What a call that commits did to the snapshots. -/
theorem snapshotChange_of_runs {call : Call} {r : Except PersistenceError Reply}
    (hc : c.Targeted drawn)
    (h : Runs (Db.TargetRely drawn) c (call.body host now) ∅ id (.ok r) H b) :
    SnapshotChange host H ⟨⟨now, call⟩, r, c, b c, t⟩ := by
  have hrely : ∀ H d, Db.TargetRely drawn H d c → Db.Rely H d c := fun _ _ h => h.jobs.rely
  have hruns : Runs Db.Rely c (call.body host now) ∅ id (.ok r) H b := h.mono hrely
  have heffect : EventEffect host ⟨⟨now, call⟩, r, c, b c, t⟩ :=
    eventEffect_of_outcome hc.jobsSound.sound ⟨H, b, .inl ⟨hruns, rfl⟩⟩
  have htouches := heffect.touches
  cases call with
  | snapshotManifest order userId p snapshotId =>
    obtain ⟨_, hrun, -⟩ := runs_replying_iff.mp h
    obtain ⟨⟨generation, sequence⟩, H₁, b₁, hproject, hrun⟩ := runs_bind_ok_iff.mp hrun
    obtain ⟨rfl, rfl, d, row, hd, hrow, -, hstate⟩ := runs_requireActiveProjectForUpdate hproject
    cases hstate
    simp only [query_bind, bind_eq, runs_read_iff, runs_bind_ok_iff, pure_eq, runs_pure_iff,
      Except.ok.injEq] at hrun
    obtain ⟨d', hd', _, _, _, hinsert, -, rfl, rfl⟩ := hrun
    obtain ⟨rfl, rfl, -⟩ := runs_insertPendingSnapshot hinsert
    -- Both reads are under the lock of the project, so they saw the heads of the commit.
    have hdata := (hrely _ _ hd).data p (Set.mem_insert _ _)
    have hdata' := (hrely _ _ hd').data p (Set.mem_insert _ _)
    have hheads : headRows (.app userId) order p (id d') = headRows (.app userId) order p c := by
      unfold headRows
      rw [id, hdata']
    refine .inserted (pendingRow host now snapshotId p userId row.generation row.changeSeq _) row
      (.app userId) order rfl (Set.mem_insert _ _) rfl ?_
      (congrArg (snapshotManifestJson host snapshotId row.generation row.changeSeq) hheads)
    show visibleProject (.app userId) p c = some row
    rw [← hrow]
    unfold visibleProject
    rw [id, hdata]
  | createPreRestoreSnapshot order p jobId leaseToken snapshotId =>
    obtain ⟨_, hrun, -⟩ := runs_replying_iff.mp h
    obtain ⟨job, row, manifest, d, -, -, -, hrow, hmanifest, -, hlock, -, -, hafter⟩ :=
      runs_createPreRestoreSnapshot hrely hrun
    exact .inserted (pendingRow host now snapshotId p row.ownerUserId row.generation
      row.changeSeq manifest) row .worker order (congrArg Db.snapshots hafter) hlock rfl
      (visibleProject_eq_some_iff.mpr ⟨hrow, rfl⟩) hmanifest
  | recordSnapshot a =>
    obtain ⟨_, hrun, -⟩ := runs_replying_iff.mp h
    obtain ⟨_, H₁, b₁, hvisible, hrun⟩ := runs_bind_ok_iff.mp hrun
    obtain rfl : b₁ = id := by
      simp only [ensureProjectVisible, bind_eq, query_bind, runs_read_iff, runs_require_iff]
        at hvisible
      exact hvisible.choose_spec.2.2.2.symm
    obtain ⟨d, x, hd, hx, hrun⟩ := runs_lockRow hrun
    simp only [bind_eq, modify_bind, runs_write_iff, runs_bind_ok_iff, pure_eq,
      runs_pure_iff] at hrun
    obtain ⟨_, _, _, haudit, -, rfl, rfl⟩ := hrun
    obtain ⟨rfl, rfl, -⟩ := runs_insertRow haudit
    -- The pending row is still there at the commit.
    obtain ⟨hfind, hrecordable⟩ := Option.filter_eq_some_iff.mp hx
    simp only [Bool.and_eq_true, beq_iff_eq] at hrecordable
    obtain ⟨⟨⟨⟨⟨hp, -⟩, -⟩, -⟩, -⟩, hpending⟩ := hrecordable
    obtain ⟨y, hy, hyp, hunready⟩ := unready_of_pending hd (Set.mem_insert _ _) hfind hpending
    exact .recorded rfl (Set.mem_insert _ _) hy hunready (hyp.trans hp) rfl
  | markSnapshotReady snapshotId bucket key =>
    obtain ⟨_, hrun, -⟩ := runs_replying_iff.mp h
    obtain ⟨o, _, _, hselect, hrun⟩ := runs_bind_ok_iff.mp hrun
    obtain ⟨d, hd, ⟨-, ho, rfl, rfl⟩ | ⟨-, d', hd', ho, rfl, rfl⟩⟩ :=
      runs_selectForUpdate_iff.mp hselect
    · cases ho
      obtain ⟨-, -, rfl⟩ := runs_pure_iff.mp hrun
      exact .kept rfl
    · obtain rfl := Except.ok.inj ho
      -- Only a snapshot that is still pending is marked.
      cases hx : pendingSnapshot snapshotId (id d') with
      | none =>
        rw [hx] at hrun
        obtain ⟨-, -, rfl⟩ := runs_pure_iff.mp hrun
        exact .kept rfl
      | some x =>
        rw [hx] at hrun
        obtain ⟨-, rfl, rfl⟩ := runs_pure_iff.mp (runs_write_iff.mp hrun)
        exact snapshotChange_of_marked hd' (Set.mem_insert _ _) hx rfl fun _ => ⟨rfl, rfl, rfl⟩
  | markSnapshotReadyForJob jobId leaseToken snapshotId bucket key =>
    obtain ⟨_, hrun, -⟩ := runs_replying_iff.mp h
    obtain ⟨o, _, _, hselect, hrun⟩ := runs_bind_ok_iff.mp hrun
    obtain ⟨d, hd, ⟨-, ho, rfl, rfl⟩ | ⟨-, d', hd', ho, rfl, rfl⟩⟩ :=
      runs_selectForUpdate_iff.mp hselect
    · cases ho
      obtain ⟨-, -, rfl⟩ := runs_pure_iff.mp hrun
      exact .kept rfl
    · obtain rfl := Except.ok.inj ho
      cases hx : (pendingSnapshot snapshotId (id d')).filter fun _ =>
          (leasedJob jobId leaseToken (id d')).isSome with
      | none =>
        rw [hx] at hrun
        obtain ⟨-, -, rfl⟩ := runs_pure_iff.mp hrun
        exact .kept rfl
      | some x =>
        rw [hx] at hrun
        obtain ⟨-, rfl, rfl⟩ := runs_pure_iff.mp (runs_write_iff.mp hrun)
        exact snapshotChange_of_marked hd' (Set.mem_insert _ _)
          (Option.filter_eq_some_iff.mp hx).1 rfl fun _ => ⟨rfl, rfl, rfl⟩
  | expirePendingSnapshots olderThan =>
    obtain ⟨_, hrun, -⟩ := runs_replying_iff.mp h
    obtain ⟨-, -, rfl⟩ := runs_pure_iff.mp (runs_write_iff.mp hrun)
    -- A snapshot that is ready does not expire.
    refine .expired ?_ rfl
    intro x hx hready
    simp [hready] at hx
  | _ => exact snapshotChange_of_touches htouches (by simp [Call.tables])

/-! ## Ready snapshots stay as they are -/

/-- The snapshots that are updated keep their places. -/
theorem Db.snapshot_updateSnapshots (d : Db) {q : SnapshotRow → Bool}
    {f : SnapshotRow → SnapshotRow} (hf : ∀ x, (f x).id = x.id) (s : Uuid) :
    (d.updateSnapshots q f).snapshot s = (d.snapshot s).map fun x => if q x then f x else x := by
  unfold snapshot updateSnapshots
  exact find?_updateWhere fun x _ => by rw [hf]

section

variable {d d' : Db} {q : SnapshotRow → Bool} {f : SnapshotRow → SnapshotRow} {s : Uuid}
  (h : d'.snapshots = (d.updateSnapshots q f).snapshots)
  (hf : ∀ x, (f x).id = x.id ∧ (f x).projectId = x.projectId)
include h hf

/-- A snapshot after an update of some of them. -/
theorem snapshot_of_update :
    d'.snapshot s = (d.snapshot s).map fun x => if q x then f x else x := by
  have hfind : d'.snapshot s = (d.updateSnapshots q f).snapshot s := by
    unfold Db.snapshot
    rw [h]
  rw [hfind, d.snapshot_updateSnapshots fun x => (hf x).1]

/-- What stays of the snapshots when some that are not ready are updated. -/
theorem snapshot_stays (hq : ∀ s x, d.snapshot s = some x → q x = true → x.status ≠ .ready)
    {x : SnapshotRow} (hx : d.snapshot s = some x) :
    ∃ y, d'.snapshot s = some y ∧ y.projectId = x.projectId ∧ (x.status = .ready → y = x) := by
  rw [snapshot_of_update h hf, hx, Option.map_some]
  cases hqx : q x with
  | false => exact ⟨x, rfl, rfl, fun _ => rfl⟩
  | true => exact ⟨f x, rfl, (hf x).2, fun hready => absurd hready (hq s x hx hqx)⟩

/-- A snapshot that is not updated, or that the update does not make ready, is not made ready. -/
theorem unready_stays (hq : ∀ x, d.snapshot s = some x → q x = true → (f x).status ≠ .ready)
    (hs : ∀ x, d.snapshot s = some x → x.status ≠ .ready) :
    ∀ y, d'.snapshot s = some y → y.status ≠ .ready := by
  intro y hy
  rw [snapshot_of_update h hf, Option.map_eq_some_iff] at hy
  obtain ⟨x, hx, rfl⟩ := hy
  cases hqx : q x with
  | false => exact hs x hx
  | true => exact hq x hx hqx

end

variable {e : SyncEvent}

/-- The snapshot that a query for an identifier finds has it. -/
theorem Db.id_of_snapshot {d : Db} {s : Uuid} {x : SnapshotRow} (h : d.snapshot s = some x) :
    x.id = s := by
  have hid := List.find?_some h
  exact beq_iff_eq.mp hid

/-- A snapshot stays in its project, and one that is ready stays as it is. -/
theorem SnapshotChange.snapshot (h : SnapshotChange host H e) {s : Uuid} {x : SnapshotRow}
    (hx : e.before.snapshot s = some x) : ∃ y, e.after.snapshot s = some y ∧
      y.projectId = x.projectId ∧ (x.status = .ready → y = x) := by
  cases h with
  | kept h =>
    refine ⟨x, ?_, rfl, fun _ => rfl⟩
    rw [← hx, Db.snapshot, Db.snapshot, h]
  | inserted y row role order h =>
    refine ⟨x, ?_, rfl, fun _ => rfl⟩
    rw [Db.snapshot] at hx ⊢
    rw [h, List.find?_append, hx]
    rfl
  | marked hlock hunready h hf =>
    refine snapshot_stays h (fun x => ⟨(hf x).1, (hf x).2.1⟩) (fun s' x' hx' hq => ?_) hx
    have hs : s' = _ := (Db.id_of_snapshot hx').symm.trans (beq_iff_eq.mp hq)
    exact hunready x' (hs ▸ hx')
  | recorded hcall hlock hy hunready hproject h =>
    refine snapshot_stays h (fun x => ⟨rfl, rfl⟩) (fun s' x' hx' hq => ?_) hx
    rw [← beq_iff_eq.mp hq, Db.id_of_snapshot hx', hx'] at hy
    cases hy
    exact hunready
  | expired hq h => exact snapshot_stays h (fun x => ⟨rfl, rfl⟩) (fun _ x' _ => hq x') hx

/-- A snapshot becomes ready under its lock. -/
theorem SnapshotChange.unready (h : SnapshotChange host H e) {s : Uuid}
    (hlock : Lock.snapshot s ∉ H) (hs : ∀ x, e.before.snapshot s = some x → x.status ≠ .ready) :
    ∀ y, e.after.snapshot s = some y → y.status ≠ .ready := by
  cases h with
  | kept h =>
    have hfind : e.after.snapshot s = e.before.snapshot s := by
      unfold Db.snapshot
      rw [h]
    exact hfind ▸ hs
  | inserted x row role order h hlock' hstatus =>
    intro y hy
    rw [Db.snapshot, h, List.find?_append, Option.or_eq_some_iff] at hy
    rcases hy with hy | ⟨-, hy⟩
    · exact hs y hy
    · rw [List.mem_singleton.mp (List.mem_of_find?_eq_some hy), hstatus]
      exact fun h => (by cases h)
  | marked hlock' hunready h hf =>
    refine unready_stays h (fun x => ⟨(hf x).1, (hf x).2.1⟩) (fun x hx hq => ?_) hs
    have hs' : s = _ := (Db.id_of_snapshot hx).symm.trans (beq_iff_eq.mp hq)
    exact absurd (hs' ▸ hlock') hlock
  | recorded hcall hlock' hy hunready hproject h =>
    refine unready_stays h (fun x => ⟨rfl, rfl⟩) (fun x hx hq => ?_) hs
    have hs' : s = _ := (Db.id_of_snapshot hx).symm.trans (beq_iff_eq.mp hq)
    exact absurd (hs' ▸ hlock') hlock
  | expired hq h =>
    exact unready_stays h (fun x => ⟨rfl, rfl⟩) (fun _ _ _ h => by cases h) hs

/-! ## The targets of the jobs -/

/-- The target of a job stays there. -/
theorem RestoreJob.HasTarget.mono {d d' : Db} {j j' : RestoreJob} (h : j.HasTarget d)
    (husers : d'.users = d.users)
    (hsnapshot : ∀ s x, d.snapshot s = some x →
      ∃ y, d'.snapshot s = some y ∧ y.projectId = x.projectId ∧ (x.status = .ready → y = x))
    (hj : j'.requestedBy = j.requestedBy ∧ j'.snapshotId = j.snapshotId ∧
      j'.targetChangeSequence = j.targetChangeSequence ∧ j'.projectId = j.projectId) :
    j'.HasTarget d' where
  user := by
    rw [husers, hj.1]
    exact h.user
  snapshot s hs := by
    obtain ⟨x, hx, hp, hready⟩ := h.snapshot s (hj.2.1 ▸ hs)
    obtain ⟨y, hy, -, hyx⟩ := hsnapshot s x hx
    obtain rfl := hyx hready
    exact ⟨_, hy, hp.trans hj.2.2.2.symm, hready⟩
  sequence hnone := by
    rw [hj.2.2.1]
    exact h.sequence (hj.2.1 ▸ hnone)

/-- No change of a job changes its target. -/
theorem JobChange.target {job job' : RestoreJob} {x x' : Option (ProjectStatus × ℤ)}
    (h : JobChange e job job' x x') : job'.requestedBy = job.requestedBy ∧
      job'.snapshotId = job.snapshotId ∧
        job'.targetChangeSequence = job.targetChangeSequence ∧ job'.projectId = job.projectId := by
  cases h <;> exact ⟨rfl, rfl, rfl, rfl⟩

/-- What an enqueued job asks for is there. -/
theorem hasTarget_of_enqueueRestore {a : EnqueueRestoreArgs}
    {r : Except PersistenceError RestoreJob}
    (h : Runs (Db.TargetRely drawn) c (enqueueRestore now a) ∅ id (.ok r) H b) :
    (a.job now).HasTarget c := by
  unfold enqueueRestore at h
  simp only [bind_eq, query_bind, runs_bind_ok_iff, runs_require_iff, runs_read_iff] at h
  obtain ⟨_, _, _, ⟨hvalid, rfl, rfl⟩, st, K, b₁, hproject, _, -, _, _, _, ⟨-, rfl, rfl⟩, _, _, _,
    ⟨-, rfl, rfl⟩, d₁, hd₁, _, _, _, ⟨hbelongs, rfl, rfl⟩, _, K', b₂, hinsert, -⟩ := h
  obtain ⟨rfl, rfl, -⟩ := runs_requireActiveProjectForUpdate hproject
  simp only [insertRestoreJob, bind_eq, acquire_bind, runs_lock_iff] at hinsert
  obtain ⟨-, -, d₂, hd₂, hrefused⟩ := runs_insertRow hinsert
  have huser : d₂.users.any (·.id == a.userId) = true :=
    constraint_of_firstViolation hrefused (List.mem_of_getElem? (i := 6) rfl)
  refine ⟨?_, fun s hs => ?_, fun hnone => ?_⟩
  · rw [hd₂.jobs.users]
    exact huser
  · have hs : a.snapshotId = some s := hs
    have hthere : (a.snapshotId.all fun s => (d₁.snapshot s).any fun x =>
        x.projectId == a.projectId && x.status == .ready && x.ownerUserId == a.userId) = true := by
      by_contra hne
      simp [hne] at hbelongs
    rw [hs, Option.all_some, Option.any_eq_true] at hthere
    obtain ⟨x, hx, hcond⟩ := hthere
    simp only [Bool.and_eq_true, beq_iff_eq] at hcond
    obtain ⟨⟨hp, hready⟩, -⟩ := hcond
    obtain ⟨y, hy, -, hyx⟩ := hd₁.snapshot s x hx
    obtain rfl := hyx hready
    exact ⟨_, hy, hp, hready⟩
  · have hnone : a.snapshotId = none := hnone
    show a.targetChangeSequence.isSome = true
    have hvalid : validateRestoreTarget a.snapshotId a.targetChangeSequence = true := by
      by_contra hne
      simp [hne] at hvalid
    unfold validateRestoreTarget at hvalid
    rw [hnone] at hvalid
    cases ht : a.targetChangeSequence with
    | none => simp [ht] at hvalid
    | some t => rfl

/-- The jobs keep their targets. -/
theorem RestoreStep.targets {host : Host} (h : RestoreStep H e) (hjobsSound : e.before.JobsSound)
    (hsnapshot : SnapshotChange host H e) (husers : e.after.users = e.before.users)
    (hnew : ∀ a, e.request.call = .enqueueRestore a → (a.job e.request.now).HasTarget e.before)
    (hb : ∀ j ∈ e.before.restoreJobs, j.HasTarget e.before) :
    ∀ j ∈ e.after.restoreJobs, j.HasTarget e.after := by
  have hkeep : ∀ j ∈ e.before.restoreJobs, j.HasTarget e.after := fun j hj =>
    (hb j hj).mono husers (fun _ _ hx => hsnapshot.snapshot hx) ⟨rfl, rfl, rfl, rfl⟩
  cases h with
  | kept hjobs | created hjobs | disabled _ hjobs | reopened _ hjobs => exact hjobs ▸ hkeep
  | enqueued hcall hjobs =>
    rw [hjobs]
    intro j hj
    rcases List.mem_append.mp hj with hj | hj
    · exact hkeep j hj
    · rw [List.mem_singleton.mp hj]
      exact (hnew _ hcall).mono husers (fun _ _ hx => hsnapshot.snapshot hx) ⟨rfl, rfl, rfl, rfl⟩
  | changed hlock hjob hf hjobs hstanding hchange =>
    rw [hjobs]
    intro j hj
    rcases (hjobsSound.mem_updateRestoreJob hjob).mp hj with ⟨hj, -⟩ | rfl
    · exact hkeep j hj
    · exact (hb _ (Db.mem_of_restoreJob hjob)).mono husers (fun _ _ hx => hsnapshot.snapshot hx)
        (hf ▸ hchange).target

/-- What the calls rely on, they keep for each other. -/
theorem relies_targeted (host : Host) (drawn : Uuid → Uuid × String) :
    (drawingService host drawn).Relies (Db.Targeted drawn) (Db.TargetRely drawn) where
  refl H _ hd := .refl hd H
  trans := Db.TargetRely.trans
  anti := Db.TargetRely.anti
  commit {q c r H b} hq hc h := by
    have hchange : SnapshotChange host H ⟨q, r, c, b c, 0⟩ := snapshotChange_of_runs hc h
    have hstep : RestoreStep H ⟨q, r, c, b c, 0⟩ :=
      restoreStep_of_runs hc.jobsSound (h.mono fun _ _ h => h.jobs)
    obtain ⟨hjobsSound, hjobs⟩ :=
      (relies_jobs host).commit trivial hc.jobsSound (h.mono fun _ _ h => h.jobs)
    obtain ⟨hbacked, hrely⟩ :=
      (relies_backed host drawn).commit hq hc.backed (h.mono fun _ _ h => h.backed)
    have husers : (b c).users = c.users := (hjobs ∅ (Set.empty_disjoint H)).users
    have htargets := hstep.targets hc.jobsSound hchange husers (fun a hcall => ?_) hc.targets
    · refine ⟨⟨hjobsSound, hbacked, htargets⟩, fun K hK => ?_⟩
      exact
        { jobs := hjobs K hK
          backed := hrely K hK
          snapshot := fun _ _ hx => hchange.snapshot hx
          unready := fun s hs => hchange.unready (Set.disjoint_left.mp hK hs) }
    · obtain ⟨now, call⟩ := q
      obtain rfl : call = .enqueueRestore a := hcall
      obtain ⟨_, hrun, -⟩ := runs_replying_iff.mp h
      exact hasTarget_of_enqueueRestore hrun

/-- Without snapshots and jobs every target is there. -/
theorem targeted_initial (users : List UserRow) : (Db.initial users).Targeted drawn :=
  ⟨jobsSound_initial users, backed_initial users, fun _ hj => (by cases hj)⟩

end

end TaskTipsCloud

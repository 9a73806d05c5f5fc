import TaskTipsCloud.Events

/-!
# What a finished request did to the restore jobs

The operations of `RestoreJobs.lean` and the execution of a restore, among other sessions: each of
them changes one job, whose row it has locked, and moves the project of that job from one status to
another (`JobChange`). What any finished request did to the jobs, to the status and to the
generation of the projects is one of a few cases (`RestoreStep`).
-/

namespace TaskTipsCloud

open Txn

/-! ## The changes of a job -/

namespace RestoreJob

/-- A job that was cancelled while it was queued. -/
def dequeued (j : RestoreJob) (now : Timestamp) : RestoreJob :=
  { j with status := .cancelled, finishedAt := some now }

/-- A running job that its worker is asked to cancel. -/
def asked (j : RestoreJob) : RestoreJob := { j with cancelRequested := true }

/-- A job whose project cannot be restored. -/
def refused (j : RestoreJob) (now : Timestamp) : RestoreJob :=
  { j with status := .failed, errorCode := some "PROJECT_MAINTENANCE", finishedAt := some now }

/-- A job that a worker claimed. -/
def claimed (j : RestoreJob) (now : Timestamp) (generation : ℤ) (leaseToken : Uuid) : RestoreJob :=
  { j with status := .running, generationBefore := some (j.generationBefore.getD generation),
           leaseToken := some leaseToken, leaseExpiresAt := some (now + restoreLease),
           startedAt := some (j.startedAt.getD now) }

/-- A job whose lease was extended. -/
def renewed (j : RestoreJob) (now : Timestamp) : RestoreJob :=
  { j with leaseExpiresAt := some (now + restoreLease) }

/-- A job with the snapshot that precedes its restore. -/
def snapshotted (j : RestoreJob) (snapshotId : Uuid) : RestoreJob :=
  { j with preRestoreSnapshotId := some snapshotId }

/-- A running job that its worker cancelled. -/
def withdrawn (j : RestoreJob) (now : Timestamp) : RestoreJob :=
  { j with status := .cancelled, finishedAt := some now, leaseToken := none,
           leaseExpiresAt := none }

/-- A running job that failed for good. -/
def abandoned (j : RestoreJob) (now : Timestamp) (errorCode : String) : RestoreJob :=
  { j with status := .failed, errorCode := some errorCode, leaseToken := none,
           leaseExpiresAt := none, finishedAt := some now }

/-- A job whose restore was executed, with the new generation of its project. -/
def succeeded (j : RestoreJob) (now : Timestamp) (generation : ℤ) (counts : RestoredCounts) :
    RestoreJob :=
  { j with status := .succeeded, generationAfter := some generation,
           restoredObjects := counts.objects, restoredTombstones := counts.tombstones,
           leaseToken := none, leaseExpiresAt := none, finishedAt := some now }

/-- The worker with a lease token runs the job. -/
def HasLease (j : RestoreJob) (leaseToken : Uuid) : Prop :=
  j.status = .running ∧ j.leaseToken = some leaseToken

end RestoreJob

/-- The status and the generation of a project. -/
def Db.standing (d : Db) (projectId : Uuid) : Option (ProjectStatus × ℤ) :=
  (d.project projectId).map fun row => (row.status, row.generation)

/-- The status of a project after it left maintenance. -/
def ProjectStatus.reopened (status : ProjectStatus) : ProjectStatus :=
  if status = .maintenance then .active else status

/-- Whether a user is an active administrator. -/
def Db.isAdmin (d : Db) (userId : Uuid) : Bool :=
  (d.users.find? (·.id == userId)).any fun u => u.role == .systemAdmin && u.status == .active

/-- A restore of a project failed. -/
def Db.HasFailedRestore (d : Db) (projectId : Uuid) : Prop :=
  ∃ j ∈ d.restoreJobs, j.projectId = projectId ∧ j.status = .failed

/-- What a finished request did to a job, and to the standing of its project. -/
inductive JobChange (e : SyncEvent) (job : RestoreJob) :
    RestoreJob → Option (ProjectStatus × ℤ) → Option (ProjectStatus × ℤ) → Prop
  | dequeued {reason requestId : String} {x : Option (ProjectStatus × ℤ)}
      (hcall : e.request.call =
        .cancelRestore job.ownerUserId job.projectId job.id reason requestId)
      (hstatus : job.status = .queued) : JobChange e job (job.dequeued e.request.now) x x
  | asked {reason requestId : String} {x : Option (ProjectStatus × ℤ)}
      (hcall : e.request.call =
        .cancelRestore job.ownerUserId job.projectId job.id reason requestId)
      (hstatus : job.status = .running) : JobChange e job job.asked x x
  | refused {skipLocked : List Uuid} {leaseToken : Uuid} {x : Option (ProjectStatus × ℤ)}
      (hcall : e.request.call = .claimRestoreJob skipLocked leaseToken)
      (hclaimable : job.claimable e.request.now = true) :
      JobChange e job (job.refused e.request.now) x x
  | claimed {skipLocked : List Uuid} {leaseToken : Uuid} {status : ProjectStatus} {generation : ℤ}
      (hcall : e.request.call = .claimRestoreJob skipLocked leaseToken)
      (hclaimable : job.claimable e.request.now = true)
      (hstatus : status = .maintenance ∨ status = .active ∧ job.status = .queued)
      (hresult : e.result =
        .ok (.claimed (some (job.claimed e.request.now generation leaseToken)))) :
      JobChange e job (job.claimed e.request.now generation leaseToken)
        (some (status, generation)) (some (.maintenance, generation))
  | renewed {leaseToken : Uuid} {x : Option (ProjectStatus × ℤ)}
      (hcall : e.request.call = .renewRestoreLease job.id leaseToken)
      (hlease : job.HasLease leaseToken) : JobChange e job (job.renewed e.request.now) x x
  | snapshotted {order : ScanOrder} {leaseToken snapshotId : Uuid}
      {x : Option (ProjectStatus × ℤ)}
      (hcall : e.request.call =
        .createPreRestoreSnapshot order job.projectId job.id leaseToken snapshotId)
      (hlease : job.HasLease leaseToken) : JobChange e job (job.snapshotted snapshotId) x x
  | withdrawn {leaseToken : Uuid} {x : Option (ProjectStatus × ℤ)}
      (hcall : e.request.call = .cancelRestoreWithLease job.id leaseToken)
      (hlease : job.HasLease leaseToken) (hrequested : job.cancelRequested = true) :
      JobChange e job (job.withdrawn e.request.now) x
        (x.map fun (status, generation) => (status.reopened, generation))
  | abandoned {leaseToken : Uuid} {errorCode : String} {x : Option (ProjectStatus × ℤ)}
      (hcall : e.request.call = .failRestoreJobWithLease job.id leaseToken errorCode)
      (hlease : job.HasLease leaseToken) :
      JobChange e job (job.abandoned e.request.now errorCode) x x
  | retried {leaseToken : Uuid} {errorCode : String} {x : Option (ProjectStatus × ℤ)}
      (hcall : e.request.call = .retryRestoreJobWithLease job.id leaseToken errorCode)
      (hlease : job.HasLease leaseToken) :
      JobChange e job (job.retried e.request.now errorCode) x x
  | succeeded {targetOrder currentOrder : ScanOrder} {leaseToken : Uuid} {generation : ℤ}
      {counts : RestoredCounts}
      (hcall : e.request.call = .executeRestoreWithLease targetOrder currentOrder job.id leaseToken)
      (hlease : job.HasLease leaseToken) (hrequested : job.cancelRequested = false) :
      JobChange e job (job.succeeded e.request.now (generation + 1) counts)
        (some (.maintenance, generation)) (some (.active, generation + 1))

/-- No job keeps a project from another restore. -/
def Db.Idle (d : Db) (projectId : Uuid) : Prop :=
  ∀ j ∈ d.restoreJobs, j.projectId = projectId → j.isActive = false

/-- What a finished request with the locks `H` did to the restore jobs, and to the standing of the
projects. -/
inductive RestoreStep (H : Set Lock) (e : SyncEvent) : Prop
  | kept (hjobs : e.after.restoreJobs = e.before.restoreJobs)
      (hstanding : e.after.standing = e.before.standing)
  | created {p : Uuid} (hjobs : e.after.restoreJobs = e.before.restoreJobs)
      (hnone : e.before.standing p = none)
      (hstanding : e.after.standing = Function.update e.before.standing p (some (.active, 1)))
  | disabled {userId p : Uuid} (hcall : e.request.call = .disableProject userId p)
      (hjobs : e.after.restoreJobs = e.before.restoreJobs)
      (hstanding : e.after.standing = Function.update e.before.standing p
        ((e.before.standing p).map fun x => (.disabled, x.2)))
  | reopened {actorUserId p : Uuid} {reason requestId : String} {generation : ℤ}
      (hcall : e.request.call = .reopenFailedRestore actorUserId p reason requestId)
      (hjobs : e.after.restoreJobs = e.before.restoreJobs)
      (hbefore : e.before.standing p = some (.maintenance, generation))
      (hstanding : e.after.standing =
        Function.update e.before.standing p (some (.active, generation)))
      (hadmin : e.before.isAdmin actorUserId = true) (hfailed : e.before.HasFailedRestore p)
  | enqueued {a : EnqueueRestoreArgs} {generation : ℤ}
      (hcall : e.request.call = .enqueueRestore a)
      (hjobs : e.after.restoreJobs = e.before.restoreJobs ++ [a.job e.request.now])
      (hfresh : e.before.restoreJob a.jobId = none)
      (hlock : Lock.project a.projectId ∈ H) (hidle : e.before.Idle a.projectId)
      (hbefore : e.before.standing a.projectId = some (.active, generation))
      (hstanding : e.after.standing = e.before.standing)
  | changed {job job' : RestoreJob} {f : RestoreJob → RestoreJob} {x : Option (ProjectStatus × ℤ)}
      (hlock : ∀ skipLocked leaseToken, e.request.call = .claimRestoreJob skipLocked leaseToken →
        Lock.restoreJob job.id ∈ H)
      (hjob : e.before.restoreJob job.id = some job) (hf : f job = job')
      (hjobs : e.after.restoreJobs = (e.before.updateRestoreJob job.id f).restoreJobs)
      (hstanding : e.after.standing = Function.update e.before.standing job.projectId x)
      (hchange : JobChange e job job' (e.before.standing job.projectId) x)

/-! ## The standing of projects -/

section Standing

variable {d : Db} {p : Uuid}

/-- The standing of projects depends on their rows only. -/
theorem Db.standing_of_projects {d' : Db} (h : d'.projects = d.projects) :
    d'.standing = d.standing := by
  funext q
  unfold standing project
  rw [h]

/-- The standing of a project is that of its row. -/
theorem Db.standing_of_project {row : ProjectRow} (h : d.project p = some row) :
    d.standing p = some (row.status, row.generation) := by
  rw [standing, h]
  rfl

/-- A change of a project changes its standing only. -/
theorem Db.standing_updateProject {f : ProjectRow → ProjectRow}
    (hf : ∀ row, (f row).id = row.id) : (d.updateProject p f).standing =
      Function.update d.standing p
        ((d.project p).map fun row => ((f row).status, (f row).generation)) := by
  funext q
  unfold standing
  by_cases hq : q = p
  · subst hq
    rw [Function.update_self, Db.project_updateProject hf, Option.map_map]
    rfl
  · rw [Function.update_of_ne hq, Db.project_updateProject_of_ne hf (Ne.symm hq)]

/-- A change of the status of a project. -/
theorem Db.standing_setStatus {status : ProjectStatus} {now : Timestamp} :
    (d.updateProject p fun row => { row with status := status, updatedAt := now }).standing =
      Function.update d.standing p ((d.standing p).map fun x => (status, x.2)) := by
  rw [Db.standing_updateProject]
  · unfold Db.standing
    rw [Option.map_map]
    rfl
  · exact fun _ => rfl

/-- A revision that is appended leaves the standing of every project. -/
theorem Db.standing_appendAll {now : Timestamp} {rs : List ObjectRevision} :
    (d.appendAll now rs).standing = d.standing := by
  induction rs generalizing d with
  | nil => rfl
  | cons r rs ih =>
    rw [appendAll_cons, ih]
    have hprojects : (d.appendNext now r).standing =
        (d.updateProject r.projectId (·.advance now)).standing :=
      Db.standing_of_projects rfl
    rw [hprojects, Db.standing_updateProject (ProjectRow.id_advance now)]
    exact Function.update_eq_self _ _

/-- A new project. -/
theorem Db.standing_insertProject {row : ProjectRow} (hnone : d.project row.id = none) :
    ({ d with projects := d.projects ++ [row] } : Db).standing =
      Function.update d.standing row.id (some (row.status, row.generation)) := by
  funext q
  unfold Db.project at hnone
  by_cases hq : q = row.id
  · subst hq
    simp [Db.standing, Db.project, hnone]
  · rw [Function.update_of_ne hq]
    simp [Db.standing, Db.project, Ne.symm hq]

end Standing

/-! ## The operations among other sessions -/

section Operations

variable {R : Set Lock → Db → Db → Prop} {c : Db} {H : Set Lock} {b : Db → Db}
  {now : Timestamp}

/-- The worker sees every project. -/
theorem visibleProject_worker (p : Uuid) (d : Db) : visibleProject .worker p d = d.project p := by
  cases hrow : d.project p with
  | none => simp [visibleProject, ProjectData.visible, Db.data, hrow]
  | some row => exact visibleProject_eq_some_iff.mpr ⟨hrow, rfl⟩

/-- The project that a role sees, read under its lock. -/
theorem project_of_locked (hR : ∀ H d, R H d c → Db.Rely H d c) {K : Set Lock} {d : Db}
    {p : Uuid} {role : DbRole} {row : ProjectRow} (hd : R K d c) (hlock : Lock.project p ∈ K)
    (hrow : visibleProject role p d = some row) : c.project p = some row := by
  have hdata := (hR _ _ hd).data p hlock
  rw [visibleProject, hdata] at hrow
  exact (visibleProject_eq_some_iff.mp hrow).1

/-- A job that is leased is the one with its identifier, and its worker holds the lease. -/
theorem hasLease_of_leasedJob {d : Db} {jobId leaseToken : Uuid} {job : RestoreJob}
    (h : leasedJob jobId leaseToken d = some job) :
    job.id = jobId ∧ d.restoreJob job.id = some job ∧ job.HasLease leaseToken := by
  have hid := id_of_leasedJob h
  obtain ⟨hjob, hlease⟩ := Option.filter_eq_some_iff.mp h
  simp only [Bool.and_eq_true, beq_iff_eq] at hlease
  exact ⟨hid, hid ▸ hjob, hlease⟩

/-- A change of the job whose lease is held: the lease is lost, or it is held at the commit. -/
theorem runs_updateLeasedJob (hR : ∀ H d, R H d c → Db.Rely H d c) {jobId leaseToken : Uuid}
    {f : RestoreJob → RestoreJob} {r : Option RestoreJob} {K : Set Lock}
    (h : Runs R c (updateLeasedJob jobId leaseToken f) K id (.ok r) H b) :
    r = none ∧ b = id ∨ ∃ job, leasedJob jobId leaseToken c = some job ∧ r = some job ∧
      b = (·.updateRestoreJob jobId f) := by
  unfold updateLeasedJob at h
  simp only [bind_eq, runs_bind_ok_iff, runs_selectForUpdate_iff] at h
  obtain ⟨o, _, _, ⟨_, -, ⟨-, ho, rfl, rfl⟩ | ⟨-, d, hd, ho, rfl, rfl⟩⟩, h⟩ := h
  · cases ho
    obtain ⟨hr, -, rfl⟩ := runs_pure_iff.mp h
    exact .inl ⟨Except.ok.inj hr, rfl⟩
  · cases ho
    have hjob : leasedJob jobId leaseToken (id d) = leasedJob jobId leaseToken c := by
      unfold leasedJob
      rw [id, (hR _ _ hd).job _ (Set.mem_insert _ _)]
    rw [hjob] at h
    cases hleased : leasedJob jobId leaseToken c with
    | none =>
      rw [hleased] at h
      obtain ⟨hr, -, rfl⟩ := runs_pure_iff.mp h
      exact .inl ⟨Except.ok.inj hr, rfl⟩
    | some job =>
      rw [hleased] at h
      obtain ⟨hr, -, rfl⟩ := runs_pure_iff.mp (runs_write_iff.mp h)
      cases hr
      exact .inr ⟨job, rfl, rfl, rfl⟩

/-- What the enqueuing of a restore does. -/
theorem runs_enqueueRestore (hR : ∀ H d, R H d c → Db.Rely H d c) {a : EnqueueRestoreArgs}
    {r : Except PersistenceError RestoreJob}
    (h : Runs R c (enqueueRestore now a) ∅ id (.ok r) H b) :
    ∃ d K generation, R K d c ∧ Lock.project a.projectId ∈ K ∧ K ⊆ H ∧ d.Idle a.projectId ∧
      c.restoreJob a.jobId = none ∧ c.standing a.projectId = some (.active, generation) ∧
      (b c).restoreJobs = c.restoreJobs ++ [a.job now] ∧ (b c).projects = c.projects := by
  unfold enqueueRestore at h
  simp only [bind_eq, query_bind, runs_bind_ok_iff, runs_require_iff, runs_read_iff] at h
  obtain ⟨_, _, _, ⟨-, rfl, rfl⟩, st, K, b₁, hproject, _, -, _, _, _, ⟨-, rfl, rfl⟩, _, _, _,
    ⟨-, rfl, rfl⟩, _, -, _, _, _, ⟨-, rfl, rfl⟩, _, K', b₂, hinsert, _, H', b₃, haudit, h⟩ := h
  obtain ⟨rfl, rfl, d, row, hd, hrow, hactive, -⟩ := runs_requireActiveProjectForUpdate hproject
  have hproject := project_of_locked hR hd (Set.mem_insert _ _) hrow
  obtain ⟨-, rfl, rfl⟩ := runs_pure_iff.mp h
  obtain ⟨rfl, rfl, -⟩ := runs_insertRow haudit
  -- The constraints are checked under the locks of the project and of the new job.
  simp only [insertRestoreJob, bind_eq, acquire_bind, runs_lock_iff] at hinsert
  obtain ⟨rfl, rfl, d', hd', hrefused⟩ := runs_insertRow hinsert
  have hfresh : ((d'.restoreJob a.jobId).isNone) = true :=
    constraint_of_firstViolation hrefused (e := .uniqueViolation) (by simp [EnqueueRestoreArgs.job])
  have hidle : (d'.restoreJobs.all fun j => !(j.projectId == a.projectId && j.isActive)) = true :=
    constraint_of_firstViolation hrefused (e := .uniqueViolation) (by simp [EnqueueRestoreArgs.job])
  rw [(hR _ _ hd').job a.jobId (Set.mem_insert _ _), Option.isNone_iff_eq_none] at hfresh
  refine ⟨d', _, row.generation, hd', by simp, subset_rfl, fun j hj hp => ?_, hfresh, ?_, rfl, rfl⟩
  · simpa [hp] using List.all_eq_true.mp hidle j hj
  · rw [Db.standing_of_project hproject, hactive]

/-- What the disabling of a project does. -/
theorem runs_disableProject {userId p : Uuid} {r : Except PersistenceError ProjectRow}
    (h : Runs R c (disableProject now userId p) ∅ id (.ok r) H b) :
    (b c).restoreJobs = c.restoreJobs ∧ (b c).standing = Function.update c.standing p
      ((c.standing p).map fun x => (.disabled, x.2)) := by
  obtain ⟨d, row, hd, hrow, hrun⟩ := runs_lockRow h
  simp only [bind_eq, modify_bind, pure_eq, runs_write_iff, runs_pure_iff] at hrun
  obtain ⟨-, -, rfl⟩ := hrun
  exact ⟨rfl, Db.standing_setStatus⟩

/-- What the cancellation of a restore does. -/
theorem runs_cancelRestore (hR : ∀ H d, R H d c → Db.Rely H d c)
    {userId p restoreId : Uuid} {reason requestId : String}
    {r : Except PersistenceError RestoreJob}
    (h : Runs R c (cancelRestore now userId p restoreId reason requestId) ∅ id (.ok r) H b) :
    ∃ job f, ownedJob userId p restoreId c = some job ∧
      (b c).restoreJobs = (c.updateRestoreJob restoreId f).restoreJobs ∧
      (b c).projects = c.projects ∧
        (job.status = .queued ∧ f = (·.dequeued now) ∨
          job.status = .running ∧ f = RestoreJob.asked) := by
  obtain ⟨d, job, hd, hjob, hrun⟩ := runs_lockRow h
  have howned : ownedJob userId p restoreId c = some job := by
    rw [← hjob, id, ownedJob, ownedJob, (hR _ _ hd).job _ (Set.mem_insert _ _)]
  have hid := id_of_ownedJob howned
  simp only [bind_eq, runs_bind_ok_iff, runs_query_iff, runs_orThrow_iff, pure_eq,
    runs_pure_iff] at hrun
  obtain ⟨action, _, b₁, hcancel, _, _, _, haudit, _, _, _, ⟨_, -, -, rfl, rfl⟩, _, _, _,
    ⟨-, rfl, rfl⟩, -, -, rfl⟩ := hrun
  obtain ⟨rfl, rfl, -⟩ := runs_insertRow haudit
  refine ⟨job, ?_⟩
  cases hstatus : job.status with
  | queued =>
    simp only [cancelJob, hstatus, bind_eq, modify_bind, runs_write_iff, pure_eq, runs_pure_iff]
      at hcancel
    obtain ⟨-, -, rfl⟩ := hcancel
    exact ⟨(·.dequeued now), howned, by rw [← hid]; rfl, rfl, .inl ⟨rfl, rfl⟩⟩
  | running =>
    simp only [cancelJob, hstatus, bind_eq, modify_bind, runs_write_iff, pure_eq, runs_pure_iff]
      at hcancel
    obtain ⟨-, -, rfl⟩ := hcancel
    exact ⟨RestoreJob.asked, howned, by rw [← hid]; rfl, rfl, .inr ⟨rfl, rfl⟩⟩
  | succeeded | failed | cancelled =>
    simp only [cancelJob, hstatus] at hcancel
    cases hcancel

/-- A row that is read for update, and what is known of it at the commit. -/
theorem runs_locked {α : Type} {l : Lock} {row : Db → Option α} {r : Option α} {K K' : Set Lock}
    {b b' : Db → Db} (hrow : ∀ K d, l ∈ K → R K d c → row (b d) = row (b c))
    (h : Runs R c (selectForUpdate l row) K b (.ok r) K' b') :
    b' = b ∧ (r = none ∨ l ∈ K' ∧ r = row (b c)) := by
  obtain ⟨_, -, ⟨-, hr, -, rfl⟩ | ⟨-, d, hd, hr, rfl, rfl⟩⟩ := runs_selectForUpdate_iff.mp h
  · cases hr
    exact ⟨rfl, .inl rfl⟩
  · cases hr
    exact ⟨rfl, .inr ⟨Set.mem_insert _ _, hrow _ _ (Set.mem_insert _ _) hd⟩⟩

/-- The project of a job that is claimed: it enters maintenance or is there already, or else the
restore is refused. -/
theorem runs_enterMaintenance (hR : ∀ H d, R H d c → Db.Rely H d c) {job : RestoreJob}
    {r : Option ℤ} {K : Set Lock}
    (h : Runs R c (enterMaintenance now job) K id (.ok r) H b) :
    (∀ d, (b d).restoreJobs = d.restoreJobs) ∧ (r = none ∧ b = id ∨ ∃ status generation,
      r = some generation ∧ c.standing job.projectId = some (status, generation) ∧
      (status = .maintenance ∨ status = .active ∧ job.status = .queued) ∧
      (b c).standing =
        Function.update c.standing job.projectId (some (.maintenance, generation))) := by
  -- Once the project is locked, its row is the one of the commit.
  have hlocked : ∀ K d (q : ProjectRow → Bool), Lock.project job.projectId ∈ K → R K d c →
      (visibleProject .worker job.projectId (id d)).filter q =
        (visibleProject .worker job.projectId (id c)).filter q := by
    intro K d q hK hd
    rw [id, id, visibleProject, visibleProject, (hR _ _ hd).data _ hK]
  unfold enterMaintenance at h
  split at h
  · -- A queued job moves its project to maintenance.
    rename_i hqueued
    obtain ⟨o, _, _, hselect, h⟩ := runs_bind_ok_iff.mp h
    obtain ⟨rfl, hrow⟩ := runs_locked (fun K d hK hd => hlocked K d _ hK hd) hselect
    cases o with
    | none =>
      obtain ⟨hr, -, rfl⟩ := runs_pure_iff.mp h
      cases hr
      exact ⟨fun _ => rfl, .inl ⟨rfl, rfl⟩⟩
    | some row =>
      obtain ⟨hr, -, rfl⟩ := runs_pure_iff.mp (runs_write_iff.mp h)
      cases hr
      have hsome := (hrow.resolve_left (Option.some_ne_none _)).2.symm
      obtain ⟨hvisible, hstatus⟩ := Option.filter_eq_some_iff.mp hsome
      have hstanding := Db.standing_of_project (visibleProject_eq_some_iff.mp hvisible).1
      rw [id] at hstanding
      refine ⟨fun _ => rfl, .inr ⟨row.status, row.generation, rfl, hstanding, ?_, ?_⟩⟩
      · simp only [Bool.or_eq_true, beq_iff_eq] at hstatus hqueued
        exact hstatus.symm.imp_right fun hactive => ⟨hactive, hqueued⟩
      · rw [Function.comp_apply, id, Db.standing_setStatus, hstanding]
        rfl
  · -- The job of another worker is taken over: its project must be in maintenance.
    obtain ⟨o, _, _, hselect, h⟩ := runs_bind_ok_iff.mp h
    obtain ⟨rfl, hrow⟩ := runs_locked (fun K d hK hd => hlocked K d _ hK hd) hselect
    obtain ⟨hr, -, rfl⟩ := runs_pure_iff.mp h
    cases hr
    refine ⟨fun _ => rfl, ?_⟩
    cases o with
    | none => exact .inl ⟨rfl, rfl⟩
    | some row =>
      have hsome := (hrow.resolve_left (Option.some_ne_none _)).2.symm
      obtain ⟨hvisible, hstatus⟩ := Option.filter_eq_some_iff.mp hsome
      have hstanding := Db.standing_of_project (visibleProject_eq_some_iff.mp hvisible).1
      rw [beq_iff_eq] at hstatus
      rw [id, hstatus] at hstanding
      refine .inr ⟨.maintenance, row.generation, rfl, hstanding, .inl rfl, ?_⟩
      rw [id, ← hstanding, Function.update_eq_self]

/-- What the claim of a job does. -/
theorem runs_claimRestoreJob (hR : ∀ H d, R H d c → Db.Rely H d c) {skipLocked : List Uuid}
    {leaseToken : Uuid} {r : Except PersistenceError (Option RestoreJob)}
    (h : Runs R c (claimRestoreJob now skipLocked leaseToken) ∅ id (.ok r) H b) :
    b = id ∧ r = .ok none ∨ ∃ job f, Lock.restoreJob job.id ∈ H ∧ c.restoreJob job.id = some job ∧
      job.claimable now = true ∧ (b c).restoreJobs = (c.updateRestoreJob job.id f).restoreJobs ∧
      (f = (·.refused now) ∧ r = .error .projectMaintenance ∧ (b c).standing = c.standing ∨
        ∃ status generation, f = (·.claimed now generation leaseToken) ∧
        r = .ok (some (job.claimed now generation leaseToken)) ∧
        c.standing job.projectId = some (status, generation) ∧
        (status = .maintenance ∨ status = .active ∧ job.status = .queued) ∧
        (b c).standing =
          Function.update c.standing job.projectId (some (.maintenance, generation))) := by
  unfold claimRestoreJob at h
  simp only [bind_eq, query_bind, runs_read_iff] at h
  obtain ⟨d, -, h⟩ := h
  -- The job is looked for first and then read again under its lock.
  cases hnext : nextRestoreJob now skipLocked (id d) with
  | none =>
    rw [hnext] at h
    obtain ⟨hr, -, rfl⟩ := runs_pure_iff.mp h
    cases hr
    exact .inl ⟨rfl, rfl⟩
  | some found =>
    rw [hnext] at h
    obtain ⟨o, K, _, hselect, h⟩ := runs_bind_ok_iff.mp h
    obtain ⟨rfl, hrow⟩ := runs_locked (fun K d hK hd => by
      rw [id, id, (hR _ _ hd).job _ hK]) hselect
    cases o with
    | none =>
      obtain ⟨hr, -, rfl⟩ := runs_pure_iff.mp h
      cases hr
      exact .inl ⟨rfl, rfl⟩
    | some job =>
      obtain ⟨hlock, hsome⟩ := hrow.resolve_left (Option.some_ne_none _)
      obtain ⟨hjob, hclaimable⟩ := Option.filter_eq_some_iff.mp hsome.symm
      rw [id] at hjob
      have hid := Db.id_of_restoreJob hjob
      obtain ⟨entered, _, b₁, henter, h⟩ := runs_bind_ok_iff.mp h
      have hlock' := henter.subset (hid ▸ hlock)
      -- The project enters maintenance before the job is marked as running, or refuses it.
      obtain ⟨hjobs, ⟨rfl, rfl⟩ | ⟨status, generation, rfl, hstanding, hstatus, hentered⟩⟩ :=
        runs_enterMaintenance hR henter
      · obtain ⟨hr, rfl, rfl⟩ := runs_pure_iff.mp (runs_write_iff.mp h)
        cases hr
        exact .inr ⟨job, (·.refused now), hlock', hid ▸ hjob, hclaimable, rfl,
          .inl ⟨rfl, rfl, rfl⟩⟩
      · simp only [modify_bind, runs_write_iff, runs_read_iff, pure_eq, runs_pure_iff] at h
        obtain ⟨d', hd', hr, rfl, rfl⟩ := h
        have hfind : ∀ d : Db, (Db.updateRestoreJob (b₁ d) job.id
            (·.claimed now generation leaseToken)).restoreJob job.id =
              (d.restoreJob job.id).map (·.claimed now generation leaseToken) := by
          intro d
          rw [Db.restoreJob_updateRestoreJob]
          · rw [Db.restoreJob, Db.restoreJob, hjobs d]
          · exact fun _ => rfl
        refine .inr ⟨job, (·.claimed now generation leaseToken), hlock', hid ▸ hjob, hclaimable, ?_,
          .inr ⟨status, generation, rfl, ?_, hstanding, hstatus, hentered⟩⟩
        · show updateWhere _ _ (b₁ c).restoreJobs = _
          rw [hjobs]
          rfl
        · have hread := hfind d'
          have hfound : c.restoreJob job.id = some job := hid ▸ hjob
          rw [(hR _ _ hd').job _ hlock', hfound] at hread
          cases hr
          exact congrArg _ hread

/-- The row of a new snapshot. -/
def pendingRow (host : Host) (now : Timestamp) (snapshotId projectId ownerUserId : Uuid)
    (generation sequence : ℤ) (manifest : Json) : SnapshotRow where
  id := snapshotId
  projectId := projectId
  ownerUserId := ownerUserId
  generation := generation
  changeSequence := sequence
  manifestHash := host.sha256Hex manifest
  manifestBucket := "pending"
  manifestKey := manifestKey ownerUserId projectId snapshotId
  manifest := manifest
  status := .pending
  createdBy := ownerUserId
  createdAt := now

/-- The database with a new snapshot. -/
def Db.withSnapshot (x : SnapshotRow) (d : Db) : Db := { d with snapshots := d.snapshots ++ [x] }

/-- What the insertion of a snapshot does. -/
theorem runs_insertPendingSnapshot {host : Host} {snapshotId p ownerUserId : Uuid}
    {generation sequence : ℤ} {manifest : Json} {K : Set Lock} {b₀ : Db → Db}
    (h : Runs R c (insertPendingSnapshot host now snapshotId p ownerUserId generation sequence
      manifest) K b₀ (.ok ()) H b) :
    H = insert (.snapshot snapshotId) K ∧
      b = Db.withSnapshot (pendingRow host now snapshotId p ownerUserId generation sequence
        manifest) ∘ b₀ ∧ ∃ d, R H d c ∧ (b₀ d).snapshot snapshotId = none := by
  unfold insertPendingSnapshot at h
  rw [bind_eq, acquire_bind, runs_lock_iff, runs_mapConflict_ok_iff] at h
  obtain ⟨rfl, rfl, d, hd, hrefused⟩ := runs_insertRow h
  have hfresh : (((b₀ d).snapshot snapshotId).isNone) = true :=
    constraint_of_firstViolation hrefused (e := .uniqueViolation) (by simp)
  exact ⟨rfl, rfl, d, hd, Option.isNone_iff_eq_none.mp hfresh⟩

/-- What the creation of the snapshot that precedes a restore does. -/
theorem runs_createPreRestoreSnapshot (hR : ∀ H d, R H d c → Db.Rely H d c) {host : Host}
    {order : ScanOrder} {p jobId leaseToken snapshotId : Uuid}
    {r : Except PersistenceError (Uuid × Uuid × Json)}
    (h : Runs R c (createPreRestoreSnapshot host now order p jobId leaseToken snapshotId) ∅ id
      (.ok r) H b) :
    ∃ job row manifest d, leasedJob jobId leaseToken c = some job ∧ job.projectId = p ∧
      job.cancelRequested = false ∧ c.project p = some row ∧
      manifest = snapshotManifestJson host snapshotId row.generation row.changeSeq
        (headRows .worker order p c) ∧
      r = .ok (snapshotId, row.ownerUserId, manifest) ∧ Lock.snapshot snapshotId ∈ H ∧
      R H d c ∧ d.snapshot snapshotId = none ∧
      b c = (c.withSnapshot (pendingRow host now snapshotId p row.ownerUserId row.generation
        row.changeSeq manifest)).updateRestoreJob jobId (·.snapshotted snapshotId) := by
  unfold createPreRestoreSnapshot at h
  simp only [bind_eq, query_bind, runs_read_iff] at h
  obtain ⟨d₀, -, h⟩ := h
  cases hfound : leasedJobAndProject p jobId leaseToken (id d₀) with
  | none =>
    rw [hfound] at h
    cases h
  | some found =>
    rw [hfound] at h
    obtain ⟨d, ⟨job, row⟩, hd, hrow, hrun⟩ := runs_lockRow (runs_lock_iff.mp h)
    -- Both rows are read under their locks, so they are as they are at the commit.
    have hlock : Lock.project p ∈ (insert (Lock.restoreJob jobId) (insert (Lock.project p) ∅) :
        Set Lock) := Set.mem_insert_of_mem _ (Set.mem_insert _ _)
    have hfound : leasedJobAndProject p jobId leaseToken c = some (job, row) := by
      rw [← hrow, id, leasedJobAndProject, leasedJobAndProject, leasedJob, leasedJob,
        (hR _ _ hd).job _ (Set.mem_insert _ _), visibleProject, visibleProject,
        (hR _ _ hd).data _ hlock]
    unfold leasedJobAndProject at hfound
    simp only [Option.bind_eq_bind, Option.bind_eq_some_iff, Option.filter_eq_some_iff,
      Option.pure_def, Option.some.injEq, Prod.mk.injEq, beq_iff_eq] at hfound
    obtain ⟨_, ⟨hjob, hp⟩, _, hproject, rfl, rfl⟩ := hfound
    simp only [runs_bind_ok_iff, runs_require_iff, runs_read_iff, runs_modify_iff, pure_eq,
      runs_pure_iff, Except.ok.injEq] at hrun
    obtain ⟨_, _, _, ⟨hrequested, rfl, rfl⟩, d', hd', _, _, _, hinsert, _, _, _, ⟨-, rfl, rfl⟩, rfl,
      rfl, rfl⟩ := hrun
    obtain ⟨rfl, rfl, d'', hd'', hfresh⟩ := runs_insertPendingSnapshot hinsert
    have hheads : headRows .worker order p (id d') = headRows .worker order p c := by
      unfold headRows
      rw [id, (hR _ _ hd').data _ hlock]
    rw [hheads]
    refine ⟨_, _, _, d'', hjob, hp, ?_, (visibleProject_eq_some_iff.mp hproject).1, rfl, rfl,
      Set.mem_insert _ _, hd'', hfresh, rfl⟩
    by_contra hne
    simp [hne] at hrequested

/-- A project leaves maintenance, or it was not in maintenance some time before the commit. -/
theorem runs_leaveMaintenance (hR : ∀ H d, R H d c → Db.Rely H d c) {p : Uuid} {K : Set Lock}
    {b₀ : Db → Db} {r : Unit} (hb : ∀ d, (b₀ d).projects = d.projects)
    (h : Runs R c (leaveMaintenance now p) K b₀ (.ok r) H b) :
    (b c).restoreJobs = (b₀ c).restoreJobs ∧
      ((b c).standing = Function.update c.standing p ((c.standing p).map
        fun (status, generation) => (status.reopened, generation)) ∨
      (b c).standing = c.standing ∧ ∃ d, R K d c ∧
        ∀ generation, d.standing p ≠ some (.maintenance, generation)) := by
  have hstanding : ∀ d, (b₀ d).standing = d.standing := fun d => Db.standing_of_projects (hb d)
  have hproject : ∀ d q, visibleProject .worker q (b₀ d) = d.project q := fun d q => by
    rw [visibleProject_worker, Db.project, Db.project, hb d]
  obtain ⟨o, _, _, hselect, h⟩ := runs_bind_ok_iff.mp h
  obtain ⟨d, hd, ⟨hnone, ho, rfl, rfl⟩ | ⟨-, d', hd', ho, rfl, rfl⟩⟩ :=
    runs_selectForUpdate_iff.mp hselect
  · cases ho
    obtain ⟨-, -, rfl⟩ := runs_pure_iff.mp h
    -- The statement saw no row in maintenance and waited for no lock.
    refine ⟨rfl, .inr ⟨hstanding c, d, hd, fun generation hsome => ?_⟩⟩
    rw [Db.standing, Option.map_eq_some_iff] at hsome
    obtain ⟨row, hrow, heq⟩ := hsome
    rw [Prod.mk.injEq] at heq
    rw [hproject, hrow, Option.filter_some, heq.1] at hnone
    cases hnone
  · cases ho
    -- The row is locked now, so what the update finds is what the commit has.
    have hdata := congrArg ProjectData.project ((hR _ _ hd').data p (Set.mem_insert _ _))
    simp only [Db.data] at hdata
    rw [hproject, hdata] at h
    -- A project that is not in maintenance at the commit is left alone.
    have hleft : ∀ row : ProjectRow, c.project p = some row → row.status ≠ .maintenance →
        (c.standing p).map (fun (status, generation) => (status.reopened, generation)) =
          c.standing p := by
      intro row hrow hstatus
      rw [Db.standing_of_project hrow]
      exact congrArg (fun status => some (status, row.generation)) (if_neg hstatus)
    cases hrow : c.project p with
    | none =>
      rw [hrow] at h
      obtain ⟨-, -, rfl⟩ := runs_pure_iff.mp h
      refine ⟨rfl, .inl ?_⟩
      have hnone : c.standing p = none := by rw [Db.standing, hrow]; rfl
      rw [hstanding, hnone, Option.map_none, ← hnone, Function.update_eq_self]
    | some row =>
      rw [hrow] at h
      by_cases hstatus : row.status = .maintenance
      · have hfilter : (some row).filter (·.status == .maintenance) = some row := by
          rw [Option.filter_some, hstatus]
          rfl
        rw [hfilter] at h
        obtain ⟨-, -, rfl⟩ := runs_pure_iff.mp (runs_write_iff.mp h)
        refine ⟨rfl, .inl ?_⟩
        rw [Function.comp_apply, Db.standing_setStatus, hstanding, Db.standing_of_project hrow,
          hstatus]
        rfl
      · have hfilter : (some row).filter (·.status == .maintenance) = none := by
          rw [Option.filter_some, beq_eq_false_iff_ne.mpr hstatus]
          rfl
        rw [hfilter] at h
        obtain ⟨-, -, rfl⟩ := runs_pure_iff.mp h
        refine ⟨rfl, .inl ?_⟩
        rw [hleft row hrow hstatus, hstanding, Function.update_eq_self]

/-- What the cancellation of a running restore does. -/
theorem runs_cancelRestoreWithLease (hR : ∀ H d, R H d c → Db.Rely H d c)
    {jobId leaseToken : Uuid} {r : Except PersistenceError Unit}
    (h : Runs R c (cancelRestoreWithLease now jobId leaseToken) ∅ id (.ok r) H b) :
    ∃ job, leasedJob jobId leaseToken c = some job ∧ job.cancelRequested = true ∧
      (b c).restoreJobs = (c.updateRestoreJob jobId (·.withdrawn now)).restoreJobs ∧
      ((b c).standing = Function.update c.standing job.projectId ((c.standing job.projectId).map
        fun (status, generation) => (status.reopened, generation)) ∨
      (b c).standing = c.standing ∧ ∃ d, R {Lock.restoreJob jobId} d c ∧
        ∀ generation, d.standing job.projectId ≠ some (.maintenance, generation)) := by
  obtain ⟨d, job, hd, hjob, hrun⟩ := runs_lockRow h
  have hleased : leasedJob jobId leaseToken c = some job := by
    rw [← hjob, id, leasedJob, leasedJob, (hR _ _ hd).job _ (Set.mem_insert _ _)]
  simp only [bind_eq, runs_bind_ok_iff, runs_require_iff, runs_modify_iff, pure_eq,
    runs_pure_iff] at hrun
  obtain ⟨_, _, _, ⟨hrequested, rfl, rfl⟩, _, _, _, ⟨-, rfl, rfl⟩, _, _, _, hleave, _, _, _, haudit,
    -, -, rfl⟩ := hrun
  obtain ⟨rfl, rfl, -⟩ := runs_insertRow haudit
  obtain ⟨hjobs, hstanding⟩ := runs_leaveMaintenance hR (fun _ => by rfl) hleave
  refine ⟨job, hleased, ?_, hjobs, ?_⟩
  · by_contra hne
    simp [hne] at hrequested
  · rw [insert_empty_eq] at hstanding
    exact hstanding

/-- What the reopening of a project does, when the users stay as they are and failed jobs stay. -/
theorem runs_reopenFailedRestore (hR : ∀ H d, R H d c → Db.Rely H d c)
    (husers : ∀ H d, R H d c → c.users = d.users)
    (hfailed : ∀ H d, R H d c → ∀ j ∈ d.restoreJobs, j.status = .failed → j ∈ c.restoreJobs)
    {actorUserId p : Uuid} {reason requestId : String} {r : Except PersistenceError Unit}
    (h : Runs R c (reopenFailedRestore now actorUserId p reason requestId) ∅ id (.ok r) H b) :
    c.isAdmin actorUserId = true ∧ c.HasFailedRestore p ∧ r = .ok () ∧
      ∃ generation, c.standing p = some (.maintenance, generation) ∧
        (b c).restoreJobs = c.restoreJobs ∧
        (b c).standing = Function.update c.standing p (some (.active, generation)) := by
  obtain ⟨_, _, _, hadmin, h⟩ := runs_bind_ok_iff.mp h
  simp only [requireAdmin, bind_eq, query_bind, runs_read_iff, runs_require_iff] at hadmin
  obtain ⟨d₀, hd₀, hadmin, rfl, rfl⟩ := hadmin
  -- The users do not change, so who was an administrator at the check is one at the commit.
  have hisAdmin : c.isAdmin actorUserId = true := by
    unfold Db.isAdmin
    rw [husers _ _ hd₀]
    by_contra hne
    rw [id, if_neg hne] at hadmin
    cases hadmin
  obtain ⟨d, row, hd, hrow, hrun⟩ := runs_lockRow h
  have hproject := project_of_locked hR hd (Set.mem_insert _ _) hrow
  simp only [bind_eq, query_bind, runs_bind_ok_iff, runs_require_iff, runs_read_iff,
    runs_modify_iff, pure_eq, runs_pure_iff] at hrun
  obtain ⟨_, _, _, ⟨hstatus, rfl, rfl⟩, d₁, hd₁, _, _, _, ⟨hany, rfl, rfl⟩, _, _, _, ⟨-, rfl, rfl⟩,
    _, _, _, haudit, hr, -, rfl⟩ := hrun
  obtain ⟨rfl, rfl, -⟩ := runs_insertRow haudit
  -- The failed job that the check saw is still there, and still failed.
  have hhasFailed : c.HasFailedRestore p := by
    have hsome : d₁.restoreJobs.any (fun j => j.projectId == p && j.status == .failed) = true := by
      by_contra hne
      rw [id, if_neg hne] at hany
      cases hany
    obtain ⟨j, hj, hcounts⟩ := List.any_eq_true.mp hsome
    simp only [Bool.and_eq_true, beq_iff_eq] at hcounts
    exact ⟨j, hfailed _ _ hd₁ j hj hcounts.2, hcounts⟩
  have hmaintenance : row.status = .maintenance := by
    by_contra hne
    simp [hne] at hstatus
  have hstanding := Db.standing_of_project hproject
  rw [hmaintenance] at hstanding
  refine ⟨hisAdmin, hhasFailed, Except.ok.inj hr, row.generation, hstanding, rfl, ?_⟩
  have hset := @Db.standing_setStatus c p .active now
  rw [hstanding] at hset
  exact hset

end Operations

end TaskTipsCloud

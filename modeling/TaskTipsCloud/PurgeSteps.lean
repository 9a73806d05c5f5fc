import TaskTipsCloud.AccountPurges
import TaskTipsCloud.RestoreRuns

/-!
# What a call does to purges

Each call of the service of purges, executed alone, does one `PurgeStep`: it leaves the rows of the
projects up to their status, it queues the purge of a project, it removes rows for a purge, or it is
one of the other calls, which leaves the background jobs.
-/

namespace TaskTipsCloud

open Txn

/-! ## Projects -/

/-- The rows of the projects stay, up to their status, which may become `deleting`. -/
structure Db.Marks (d d' : Db) : Prop where
  resembles : ∀ p, (d'.data p).Resembles (d.data p)
  records : d'.idempotencyRecords = d.idempotencyRecords
  restoreJobs : d'.restoreJobs = d.restoreJobs
  status : ∀ p row', d'.project p = some row' → ∃ row, d.project p = some row ∧
    (row'.status = row.status ∨ row'.status = .deleting)

section

variable {d d' d'' : Db}

/-- Marks in two steps are marks. -/
theorem Db.Marks.trans (h : Db.Marks d d') (h' : Db.Marks d' d'') : Db.Marks d d'' where
  resembles p := (h'.resembles p).trans (h.resembles p)
  records := h'.records.trans h.records
  restoreJobs := h'.restoreJobs.trans h.restoreJobs
  status p row'' hrow'' := by
    obtain ⟨row', hrow', hstatus'⟩ := h'.status p row'' hrow''
    obtain ⟨row, hrow, hstatus⟩ := h.status p row' hrow'
    refine ⟨row, hrow, ?_⟩
    rcases hstatus' with hstatus' | hstatus'
    · rw [hstatus']
      exact hstatus
    · exact .inr hstatus'

/-- Other tables do not matter. -/
theorem Db.Marks.of_eq (hdata : ∀ p, d'.data p = d.data p)
    (hrecords : d'.idempotencyRecords = d.idempotencyRecords)
    (hjobs : d'.restoreJobs = d.restoreJobs) : Db.Marks d d' where
  resembles p := by
    rw [hdata]
    exact .rfl
  records := hrecords
  restoreJobs := hjobs
  status p row' hrow' := by
    have hproject : d'.project p = d.project p := congrArg ProjectData.project (hdata p)
    exact ⟨row', hproject.symm.trans hrow', .inl rfl⟩

/-- Some projects move into the state `deleting`. -/
theorem Db.marks_updateWhere {q : ProjectRow → Bool} {now : Timestamp} {projects : List ProjectRow}
    (h : projects = updateWhere q (fun p => { p with status := .deleting, updatedAt := now })
      d.projects) : Db.Marks d { d with projects := projects } := by
  subst h
  have hproject : ∀ p, List.find? (·.id == p) (updateWhere q
      (fun row => { row with status := .deleting, updatedAt := now }) d.projects) =
        (d.project p).map fun row =>
          if q row then { row with status := .deleting, updatedAt := now } else row :=
    fun p => find?_updateWhere fun _ _ => rfl
  refine ⟨fun p => ⟨?_, rfl, rfl, rfl⟩, rfl, rfl, fun p row' hrow' => ?_⟩
  · change Option.map ProjectRow.core (List.find? _ _) = _
    rw [hproject, Option.map_map]
    refine Option.map_congr fun row _ => ?_
    rw [Function.comp_apply]
    split <;> rfl
  · rw [Db.project, hproject] at hrow'
    obtain ⟨row, hrow, rfl⟩ := Option.map_eq_some_iff.mp hrow'
    refine ⟨row, hrow, ?_⟩
    split
    · exact .inr rfl
    · exact .inl rfl

end

/-! ## Jobs -/

/-- What a job keeps when its payload stays. -/
structure JobRow.Follows (j' j : JobRow) : Prop where
  kind : j'.kind = j.kind
  projectId : j'.projectId = j.projectId
  ownerUserId : j'.ownerUserId = j.ownerUserId
  payload : j'.payload = j.payload

/-- A job follows itself. -/
theorem JobRow.Follows.rfl {j : JobRow} : j.Follows j := ⟨.refl _, .refl _, .refl _, .refl _⟩

/-- Every job was there before, or it is new, and no job is lost. -/
structure PurgeDb.JobsFollow (d d' : PurgeDb) (new : JobRow → Prop) : Prop where
  follows : ∀ i j', d'.job i = some j' →
    (∃ j, d.job i = some j ∧ j'.Follows j) ∨ d.job i = none ∧ new j'
  kept : ∀ i j, d.job i = some j → ∃ j', d'.job i = some j'
  ids : (d.jobs.map (·.id)).Nodup → (d'.jobs.map (·.id)).Nodup

section

variable {d d' d'' : PurgeDb} {new : JobRow → Prop}

/-- An update of a job, as seen by its identifier. -/
theorem PurgeDb.job_updateJob {jobId : Uuid} {f : JobRow → JobRow} (hf : ∀ j, (f j).id = j.id)
    (i : Uuid) : (d.updateJob jobId f).job i =
      (d.job i).map fun j => if j.id == jobId then f j else j := by
  unfold updateJob job
  exact find?_updateWhere fun j _ => by rw [hf]

/-- An update of a job keeps the identifiers. -/
theorem PurgeDb.ids_updateJob {jobId : Uuid} {f : JobRow → JobRow} (hf : ∀ j, (f j).id = j.id) :
    (d.updateJob jobId f).jobs.map (·.id) = d.jobs.map (·.id) :=
  map_updateWhere fun j _ _ => hf j

/-- A job is found by its identifier. -/
theorem PurgeDb.id_of_job {i : Uuid} {j : JobRow} (h : d.job i = some j) : j.id = i := by
  simpa using List.find?_some h

/-- The jobs follow when they stay. -/
theorem PurgeDb.JobsFollow.of_eq (h : d'.jobs = d.jobs) : d.JobsFollow d' new := by
  have hjob : ∀ i, d'.job i = d.job i := fun i => by
    unfold PurgeDb.job
    rw [h]
  exact
    { follows := fun i j' hj' => .inl ⟨j', hjob i ▸ hj', .rfl⟩
      kept := fun i j hj => ⟨j, (hjob i).trans hj⟩
      ids := fun hids => by rwa [h] }

/-- A job changes, but for its payload. -/
theorem PurgeDb.JobsFollow.update {jobId : Uuid} {f : JobRow → JobRow}
    (h : d'.jobs = (d.updateJob jobId f).jobs) (hid : ∀ j, (f j).id = j.id)
    (hf : ∀ j, (f j).Follows j) : d.JobsFollow d' new := by
  have hjob : ∀ i, d'.job i = (d.job i).map fun j => if j.id == jobId then f j else j := fun i => by
    rw [← PurgeDb.job_updateJob hid]
    unfold PurgeDb.job
    rw [h]
  refine ⟨fun i j' hj' => ?_, fun i j hj => ?_, fun hids => ?_⟩
  · rw [hjob] at hj'
    obtain ⟨j, hj, rfl⟩ := Option.map_eq_some_iff.mp hj'
    refine .inl ⟨j, hj, ?_⟩
    split
    · exact hf j
    · exact .rfl
  · rw [hjob, hj]
    exact ⟨_, rfl⟩
  · rwa [h, PurgeDb.ids_updateJob hid]

/-- A job is inserted. -/
theorem PurgeDb.JobsFollow.insert {job : JobRow} (h : d'.jobs = d.jobs ++ [job])
    (hfresh : d.job job.id = none) (hnew : new job) : d.JobsFollow d' new := by
  have hjob : ∀ i, d'.job i = (d.job i).or ([job].find? (·.id == i)) := fun i => by
    unfold PurgeDb.job
    rw [h, List.find?_append]
  refine ⟨fun i j' hj' => ?_, fun i j hj => ?_, fun hids => ?_⟩
  · rw [hjob] at hj'
    cases hj : d.job i with
    | some j =>
      rw [hj, Option.some_or, Option.some.injEq] at hj'
      exact .inl ⟨j, rfl, hj' ▸ .rfl⟩
    | none =>
      rw [hj, Option.none_or] at hj'
      rw [List.mem_singleton.mp (List.mem_of_find?_eq_some hj')]
      exact .inr ⟨rfl, hnew⟩
  · rw [hjob, hj]
    exact ⟨j, rfl⟩
  · rw [h, List.map_append, List.map_singleton]
    refine List.nodup_append.mpr ⟨hids, List.nodup_singleton _, fun x hx y hy hxy => ?_⟩
    obtain ⟨j, hj, rfl⟩ := List.mem_map.mp hx
    rw [List.mem_singleton.mp hy] at hxy
    exact List.find?_eq_none.mp hfresh j hj (by simpa using hxy)

end

/-- A job whose lease a worker holds. -/
theorem job_of_leasedPurge {kind : JobKind} {now : Timestamp} {jobId leaseToken : Uuid}
    {d : PurgeDb} {job : JobRow} (h : leasedPurge kind now jobId leaseToken d = some job) :
    d.job jobId = some job ∧ job.kind = kind := by
  simp only [leasedPurge, runningPurge, Option.filter_eq_some_iff, Bool.and_eq_true,
    beq_iff_eq] at h
  exact ⟨h.1.1, h.1.2.1.1⟩

/-- The jobs when one of them gets a new payload. -/
theorem PurgeDb.job_of_payload {d d' : PurgeDb} {jobId : Uuid} {payload : Json}
    (hjobs : d'.jobs = (d.updateJob jobId fun j => { j with payload := payload }).jobs) (i : Uuid) :
    d'.job i = (d.job i).map fun j => if i = jobId then { j with payload := payload } else j := by
  have hjob : d'.job i = (d.updateJob jobId fun j => { j with payload := payload }).job i := by
    unfold PurgeDb.job
    rw [hjobs]
  rw [hjob, PurgeDb.job_updateJob]
  · refine Option.map_congr fun j hj => ?_
    rw [PurgeDb.id_of_job hj]
    exact if_congr beq_iff_eq rfl rfl
  · exact fun _ => rfl

/-- What a job was before one of the jobs got a new payload. -/
theorem PurgeDb.exists_job_of_payload {d d' : PurgeDb} {jobId i : Uuid} {payload : Json}
    {j' : JobRow}
    (hjobs : d'.jobs = (d.updateJob jobId fun j => { j with payload := payload }).jobs)
    (hj' : d'.job i = some j') : ∃ j, d.job i = some j ∧
      (i ≠ jobId ∧ j' = j ∨ i = jobId ∧ j' = { j with payload := payload }) := by
  rw [PurgeDb.job_of_payload hjobs] at hj'
  obtain ⟨j, hj, rfl⟩ := Option.map_eq_some_iff.mp hj'
  refine ⟨j, hj, ?_⟩
  by_cases hi : i = jobId
  · exact .inr ⟨hi, if_pos hi⟩
  · exact .inl ⟨hi, if_neg hi⟩

/-! ## Steps -/

/-- The payload of a project purge whose rows are gone. -/
def detachedProject (keys : List String) : Json :=
  .obj [("detached", .bool true), ("objectKeys", .arr (keys.map .str))]

/-- What a call did to the projects and to the background jobs. -/
inductive PurgeStep (host : Host) (e : PurgeEvent) : Prop
  | marked (hcall : ∀ call, e.request.call ≠ .sync call) (hsync : e.before.sync.Marks e.after.sync)
      (hjobs : e.before.JobsFollow e.after fun j =>
        j.kind = .accountPurge ∧ isDetached j.payload = false)
  | enqueued {userId p jobId : Uuid} {reason requestId : String} {row row' : ProjectRow}
      (hcall : e.request.call = .enqueueProjectPurge userId p jobId reason requestId)
      (hbefore : e.before.sync.project p = some row) (howner : row.ownerUserId = userId)
      (hsync : e.before.sync.Marks e.after.sync)
      (hafter : e.after.sync.project p = some row') (hstatus : row'.status = .deleting)
      (hjobs : e.before.JobsFollow e.after fun j => j.kind = .projectPurge ∧ j.projectId = some p ∧
        j.ownerUserId = userId ∧ isDetached j.payload = false)
  | projectRemoved {order : KeyOrder} {jobId leaseToken p : Uuid} {job : JobRow}
      {keys : List String} (hcall : e.request.call = .prepareProjectPurge order jobId leaseToken)
      (hjob : leasedPurge .projectPurge e.request.now jobId leaseToken e.before = some job)
      (hp : job.projectId = some p) (hattached : isDetached job.payload = false)
      (hsync : e.after.sync = e.before.sync.deleteProjects (· == p))
      (hjobs : e.after.jobs =
        (e.before.updateJob jobId fun j => { j with payload := detachedProject keys }).jobs)
  | accountRemoved {jobId leaseToken exportId : Uuid} {job : JobRow} {keys : List String}
      (hcall : e.request.call = .prepareAccountPurge jobId leaseToken)
      (hjob : leasedPurge .accountPurge e.request.now jobId leaseToken e.before = some job)
      (hattached : isDetached job.payload = false)
      (hresult : e.result = .ok (.keys keys))
      (hsync : ∃ devices, e.after.sync = { e.before.sync.deleteProjects
        (e.before.sync.ownsProject job.ownerUserId) with devices := devices })
      (hjobs : e.after.jobs =
        (e.before.updateJob jobId fun j =>
          { j with payload := detachedPayload exportId keys }).jobs)
  | sync {call : Call} {e' : SyncEvent} (hcall : e.request.call = .sync call)
      (hrequest : e'.request = ⟨e.request.now, call⟩) (hbefore : e'.before = e.before.sync)
      (hafter : e'.after = e.after.sync) (hresult : e.result = e'.result.map .sync)
      (hout : ∀ R : Set Lock → Db → Db → Prop, (∀ H, R H e'.before e'.before) →
        (service host).Outcome R e')
      (hjobs : e.after.jobs = e.before.jobs)

/-! ## Statements -/

section

variable {d d' : PurgeDb} {now : Timestamp}

/-- A transaction of the projects runs on their part of the state. -/
theorem run_onSync {α : Type} (x : Tx α) :
    (onSync x).run d = ((x.run d.sync).1, { d with sync := (x.run d.sync).2 }) := by
  unfold onSync
  refine run_zoom ?_ ?_ ?_ x d
  · exact fun _ _ => rfl
  · exact fun _ _ _ => rfl
  · exact fun _ => rfl

/-- It is carried out on that part. -/
theorem execute_onSync {α : Type} (x : Tx (Except PersistenceError α)) :
    (onSync x).execute d = ((x.execute d.sync).1, { d with sync := (x.execute d.sync).2 }) := by
  unfold onSync
  refine execute_zoom ?_ ?_ ?_ x d
  · exact fun _ _ => rfl
  · exact fun _ _ _ => rfl
  · exact fun _ => rfl

/-- An audit event changes no other table. -/
theorem run_auditPurge {actorUserId subjectUserId : Uuid} {action : String} {metadata : Json}
    {requestId : Option String}
    (h : (auditPurge actorUserId subjectUserId action metadata requestId).run d = (.ok (), d')) :
    ∃ event : AuditEvent, event.actorUserId = some actorUserId ∧ event.action = action ∧
      d' = { d with sync := { d.sync with auditEvents := d.sync.auditEvents ++ [event] } } := by
  rw [auditPurge, run_onSync, Prod.mk.injEq] at h
  obtain ⟨hok, rfl⟩ := h
  obtain ⟨-, hwrite⟩ := run_insertRow_ok_iff.mp (Prod.ext_iff.mpr ⟨hok, rfl⟩)
  exact ⟨_, rfl, rfl, congrArg (fun t => { d with sync := t }) hwrite⟩

/-- A job that is inserted is new. -/
theorem run_insertJob {job : JobRow} (h : (insertJob job).run d = (.ok (), d')) :
    d.job job.id = none ∧ d' = { d with jobs := d.jobs ++ [job] } := by
  simp only [insertJob, bind_eq, query_bind, run_read] at h
  split at h
  · cases h
  · rename_i hrefused
    refine ⟨?_, (run_modify_ok_iff.mp h).symm⟩
    have hnone := constraint_of_firstViolation hrefused (c := (d.job job.id).isNone)
      (e := .uniqueViolation) List.mem_cons_self
    simpa using hnone

/-- A claim changes the claimed job only. -/
theorem run_claimPurge {kind : JobKind} {skipLocked : List Uuid} {leaseToken : Uuid}
    {r : Except PersistenceError (Option JobRow)}
    (h : (claimPurge kind now skipLocked leaseToken).run d = (.ok r, d')) :
    (r = .ok none ∧ d' = d) ∨ ∃ job, nextPurge kind now skipLocked d = some job ∧
      r = .ok (some (job.claimed now leaseToken)) ∧
        d' = d.updateJob job.id (·.claimed now leaseToken) := by
  simp only [claimPurge, bind_eq, query_bind, run_read] at h
  cases hnext : nextPurge kind now skipLocked d with
  | none =>
    rw [hnext] at h
    obtain ⟨rfl, rfl⟩ := run_pure_ok_iff.mp h
    exact .inl ⟨rfl, rfl⟩
  | some job =>
    simp only [hnext, run_bind_ok_iff, run_modify_ok_iff, pure_eq, run_pure_ok_iff] at h
    obtain ⟨_, _, rfl, rfl, rfl⟩ := h
    exact .inr ⟨job, rfl, rfl, rfl⟩

/-- What the purge of a project does when it is queued. -/
theorem run_enqueueProjectPurge {userId projectId jobId : Uuid} {reason requestId : String}
    {r : Except PersistenceError JobRow}
    (h : (enqueueProjectPurge now userId projectId jobId reason requestId).run d = (.ok r, d')) :
    d.job jobId = none ∧ ∃ row events, d.sync.project projectId = some row ∧
      row.ownerUserId = userId ∧ d' = ⟨{ d.sync.updateProject projectId (fun p =>
          { p with status := .deleting, updatedAt := now }) with auditEvents := events },
        d.jobs ++ [JobRow.new jobId .projectPurge userId (some projectId)
          (.obj [("reason", .str reason), ("requestedBy", userId.toJson)]) now], d.exports⟩ := by
  simp only [enqueueProjectPurge, bind_eq, query_bind, run_read, run_bind_ok_iff,
    run_orThrow_ok_iff, run_require_ok_iff, run_modify_ok_iff, pure_eq, run_pure_ok_iff] at h
  obtain ⟨row, _, ⟨hrow, rfl⟩, _, _, ⟨-, rfl⟩, _, _, ⟨-, rfl⟩, _, _, rfl, _, _, hinsert, _, _,
    haudit, rfl, rfl⟩ := h
  obtain ⟨hnew, rfl⟩ := run_insertJob hinsert
  obtain ⟨event, -, -, rfl⟩ := run_auditPurge haudit
  obtain ⟨hproject, howner⟩ := visibleProject_eq_some_iff.mp hrow
  exact ⟨hnew, row, _, hproject, beq_iff_eq.mp howner, rfl⟩

/-- What the removal of a project does. -/
theorem run_prepareProjectPurge {order : KeyOrder} {jobId leaseToken : Uuid}
    {r : Except PersistenceError (List String)}
    (h : (prepareProjectPurge now order jobId leaseToken).run d = (.ok r, d')) :
    ∃ job p, leasedPurge .projectPurge now jobId leaseToken d = some job ∧
      job.projectId = some p ∧ (isDetached job.payload = true ∧ d' = d ∨
        isDetached job.payload = false ∧ ∃ keys, d' = { d.updateJob jobId (fun j =>
          { j with payload := detachedProject keys }) with
            sync := d.sync.deleteProjects (· == p) }) := by
  simp only [prepareProjectPurge, bind_eq, query_bind, run_read, run_bind_ok_iff,
    run_orThrow_ok_iff] at h
  obtain ⟨job, _, ⟨hjob, rfl⟩, p, _, ⟨hp, rfl⟩, h⟩ := h
  refine ⟨job, p, hjob, hp, ?_⟩
  cases hdetached : isDetached job.payload with
  | true =>
    simp only [hdetached, if_true, run_bind_ok_iff, run_orThrow_ok_iff, pure_eq,
      run_pure_ok_iff] at h
    obtain ⟨_, _, ⟨-, rfl⟩, -, rfl⟩ := h
    exact .inl ⟨rfl, rfl⟩
  | false =>
    simp only [hdetached, Bool.false_eq_true, if_false, run_read, run_bind_ok_iff,
      run_require_ok_iff, run_modify_ok_iff, pure_eq, run_pure_ok_iff] at h
    obtain ⟨_, _, ⟨-, rfl⟩, _, _, rfl, _, _, rfl, -, rfl⟩ := h
    exact .inr ⟨rfl, _, rfl⟩

/-- What the removal of an account does. -/
theorem run_prepareAccountPurge {jobId leaseToken : Uuid}
    {r : Except PersistenceError (List String)}
    (h : (prepareAccountPurge now jobId leaseToken).run d = (.ok r, d')) :
    ∃ job, leasedPurge .accountPurge now jobId leaseToken d = some job ∧
      (isDetached job.payload = true ∧ (∃ keys, objectKeys job.payload = some keys ∧ r = .ok keys) ∧
          d' = d ∨
        isDetached job.payload = false ∧ ∃ exportId keys devices, r = .ok keys ∧
          d' = { d.updateJob jobId
              (fun j => { j with payload := detachedPayload exportId keys }) with
            sync := { d.sync.deleteProjects (d.sync.ownsProject job.ownerUserId) with
              devices := devices } }) := by
  simp only [prepareAccountPurge, bind_eq, query_bind, run_read, run_bind_ok_iff,
    run_orThrow_ok_iff] at h
  obtain ⟨job, _, ⟨hjob, rfl⟩, h⟩ := h
  refine ⟨job, hjob, ?_⟩
  cases hdetached : isDetached job.payload with
  | true =>
    simp only [hdetached, if_true, run_bind_ok_iff, run_orThrow_ok_iff, pure_eq,
      run_pure_ok_iff] at h
    obtain ⟨keys, _, ⟨hkeys, rfl⟩, rfl, rfl⟩ := h
    exact .inl ⟨rfl, ⟨keys, hkeys, rfl⟩, rfl⟩
  | false =>
    simp only [hdetached, Bool.false_eq_true, if_false, run_read, run_bind_ok_iff,
      run_orThrow_ok_iff, run_require_ok_iff, run_modify_ok_iff, pure_eq, run_pure_ok_iff] at h
    obtain ⟨exportId, _, ⟨-, rfl⟩, _, _, ⟨-, rfl⟩, _, _, ⟨-, rfl⟩, _, _, rfl, _, _, rfl, rfl,
      rfl⟩ := h
    exact .inr ⟨rfl, exportId, _, _, rfl, rfl⟩

/-- A user may be purged by another one. -/
theorem run_purgeableUser {actorUserId subjectUserId : Uuid} {u : Unit}
    (h : (purgeableUser actorUserId subjectUserId).run d = (.ok u, d')) :
    d = d' ∧ actorUserId ≠ subjectUserId := by
  simp only [purgeableUser, bind_eq, query_bind, run_read, run_bind_ok_iff, run_orThrow_ok_iff,
    run_require_ok_iff, run_onSync, Prod.mk.injEq, bne_iff_ne] at h
  obtain ⟨_, _, ⟨hadmin, rfl⟩, _, _, ⟨hne, rfl⟩, _, _, ⟨-, rfl⟩, -, rfl⟩ := h
  simp only [requireAdmin, bind_eq, query_bind, run_read, run_require]
  exact ⟨trivial, hne⟩

/-- What a job does that changes neither its payload nor the projects. -/
def PurgeDb.Minor (d d' : PurgeDb) : Prop :=
  d.sync.Marks d'.sync ∧ ∀ new : JobRow → Prop, d.JobsFollow d' new

/-- Nothing is minor. -/
theorem PurgeDb.Minor.rfl : d.Minor d :=
  ⟨.of_eq (fun _ => .refl _) (.refl _) (.refl _), fun _ => .of_eq (.refl _)⟩

/-- A job changes, and the rows of the projects stay. -/
structure PurgeDb.Updates (d : PurgeDb) (jobId : Uuid) (f : JobRow → JobRow) (d' : PurgeDb) :
    Prop where
  sync : d.sync.Marks d'.sync
  jobs : d'.jobs = (d.updateJob jobId f).jobs

/-- An update of a job is minor. -/
theorem PurgeDb.Updates.minor {jobId : Uuid} {f : JobRow → JobRow} (h : d.Updates jobId f d')
    (hid : ∀ j, (f j).id = j.id) (hf : ∀ j, (f j).Follows j) : d.Minor d' :=
  ⟨h.sync, fun _ => .update h.jobs hid hf⟩

/-- A completed project purge succeeds under its lease. -/
theorem run_completeProjectPurge {jobId leaseToken : Uuid} {r : Except PersistenceError Unit}
    (h : (completeProjectPurge now jobId leaseToken).run d = (.ok r, d')) :
    ∃ job, leasedPurge .projectPurge now jobId leaseToken d = some job ∧
      d.Updates jobId (·.succeeded now) d' := by
  simp only [completeProjectPurge, bind_eq, query_bind, run_read, run_bind_ok_iff,
    run_orThrow_ok_iff, run_modify_ok_iff, pure_eq, run_pure_ok_iff] at h
  obtain ⟨job, _, ⟨hjob, rfl⟩, _, _, ⟨-, rfl⟩, _, _, rfl, _, _, haudit, -, rfl⟩ := h
  obtain ⟨event, -, -, rfl⟩ := run_auditPurge haudit
  exact ⟨job, hjob, .of_eq (fun _ => rfl) rfl rfl, rfl⟩

/-- A failed project purge is retried. -/
theorem run_failProjectPurge {jobId leaseToken : Uuid} {errorCode : String}
    {r : Except PersistenceError Unit}
    (h : (failProjectPurge now jobId leaseToken errorCode).run d = (.ok r, d')) :
    ∃ job, d.job jobId = some job ∧ job.status = .running ∧
      d.Updates jobId (·.retried now errorCode) d' := by
  simp only [failProjectPurge, bind_eq, query_bind, run_read, run_bind_ok_iff,
    run_require_ok_iff, run_modify_ok_iff, pure_eq, run_pure_ok_iff] at h
  obtain ⟨_, _, ⟨hsome, rfl⟩, _, _, rfl, -, rfl⟩ := h
  obtain ⟨job, hjob⟩ := Option.isSome_iff_exists.mp hsome
  obtain ⟨hfound, hrunning⟩ := Option.filter_eq_some_iff.mp hjob
  simp only [Bool.and_eq_true, beq_iff_eq] at hrunning
  exact ⟨job, hfound, hrunning.1, .of_eq (fun _ => rfl) rfl rfl, rfl⟩

/-- The phase is read under the lease. -/
theorem run_accountPurgePhase {jobId leaseToken : Uuid} {r : Except PersistenceError String}
    (h : (accountPurgePhase now jobId leaseToken).run d = (.ok r, d')) :
    ∃ job, leasedPurge .accountPurge now jobId leaseToken d = some job ∧
      (r = .ok (payloadPhase job.payload) ∧
          (payloadPhase job.payload = "export" ∨ payloadPhase job.payload = "purge") ∨
        r = .error .invalidPayload) ∧ d' = d := by
  simp only [accountPurgePhase, bind_eq, query_bind, run_read, run_bind_ok_iff,
    run_orThrow_ok_iff] at h
  obtain ⟨job, _, ⟨hjob, rfl⟩, h⟩ := h
  refine ⟨job, hjob, ?_⟩
  split at h
  · rename_i hphase
    obtain ⟨rfl, rfl⟩ := run_pure_ok_iff.mp h
    exact ⟨.inl ⟨rfl, by simpa using hphase⟩, rfl⟩
  · obtain ⟨rfl, rfl⟩ := run_pure_ok_iff.mp h
    exact ⟨.inr rfl, rfl⟩

/-- The lease is renewed under the lease. -/
theorem run_renewAccountPurgeLease {jobId leaseToken : Uuid} {r : Except PersistenceError Unit}
    (h : (renewAccountPurgeLease now jobId leaseToken).run d = (.ok r, d')) :
    ∃ job, leasedPurge .accountPurge now jobId leaseToken d = some job ∧
      d.Updates jobId (fun j => { j with leaseExpiresAt := some (now + purgeLease) }) d' := by
  simp only [renewAccountPurgeLease, bind_eq, query_bind, run_read, run_bind_ok_iff,
    run_require_ok_iff, run_modify_ok_iff, pure_eq, run_pure_ok_iff] at h
  obtain ⟨_, _, ⟨hsome, rfl⟩, _, _, rfl, -, rfl⟩ := h
  obtain ⟨job, hjob⟩ := Option.isSome_iff_exists.mp hsome
  exact ⟨job, hjob, .of_eq (fun _ => rfl) rfl rfl, rfl⟩

/-- A call completes a job, and its audit event names who asked for the job as far as the payload
of the job knows. -/
def PurgeDb.CompletesWith (d : PurgeDb) (now : Timestamp) (jobId leaseToken : Uuid)
    (action : String) (d' : PurgeDb) : Prop :=
  ∃ job event, leasedPurge .accountPurge now jobId leaseToken d = some job ∧
    event.actorUserId = some ((uuidMember job.payload "requestedBy").getD job.ownerUserId) ∧
    event.action = action ∧ d'.sync.auditEvents = d.sync.auditEvents ++ [event] ∧
    d.Updates jobId (·.succeeded now) d'

/-- A completed export succeeds and is audited. -/
theorem run_completeAccountExport {jobId leaseToken exportId : Uuid} {contentHash : String}
    {size : ℤ} {r : Except PersistenceError Unit}
    (h : (completeAccountExport now jobId leaseToken exportId contentHash size).run d =
      (.ok r, d')) : d.CompletesWith now jobId leaseToken "account.purge_export_ready" d' := by
  simp only [completeAccountExport, bind_eq, query_bind, run_read, run_bind_ok_iff,
    run_orThrow_ok_iff, run_modify_ok_iff, pure_eq, run_pure_ok_iff] at h
  obtain ⟨job, _, ⟨hjob, rfl⟩, _, _, rfl, _, _, rfl, _, _, haudit, -, rfl⟩ := h
  obtain ⟨event, hactor, haction, rfl⟩ := run_auditPurge haudit
  exact ⟨job, event, hjob, hactor, haction, rfl, .of_eq (fun _ => rfl) rfl rfl, rfl⟩

/-- A completed account purge succeeds and is audited. -/
theorem run_completeAccountPurge {jobId leaseToken : Uuid} {r : Except PersistenceError Unit}
    (h : (completeAccountPurge now jobId leaseToken).run d = (.ok r, d')) :
    d.CompletesWith now jobId leaseToken "account.purge_completed" d' := by
  simp only [completeAccountPurge, bind_eq, query_bind, run_read, run_bind_ok_iff,
    run_orThrow_ok_iff, run_modify_ok_iff, pure_eq, run_pure_ok_iff] at h
  obtain ⟨job, _, ⟨hjob, rfl⟩, _, _, ⟨-, rfl⟩, _, _, rfl, _, _, rfl, _, _, rfl, _, _, haudit, -,
    rfl⟩ := h
  obtain ⟨event, hactor, haction, rfl⟩ := run_auditPurge haudit
  exact ⟨job, event, hjob, hactor, haction, rfl, .of_eq (fun _ => rfl) rfl rfl, rfl⟩

/-- A failed account purge is retried. -/
theorem run_failAccountPurge {jobId leaseToken : Uuid} {errorCode : String}
    {r : Except PersistenceError Unit}
    (h : (failAccountPurge now jobId leaseToken errorCode).run d = (.ok r, d')) :
    ∃ job, runningPurge .accountPurge jobId leaseToken d = some job ∧
      d.Updates jobId (·.retried now errorCode) d' := by
  simp only [failAccountPurge, bind_eq, query_bind, run_read, run_bind_ok_iff,
    run_orThrow_ok_iff, run_modify_ok_iff] at h
  obtain ⟨job, _, ⟨hjob, rfl⟩, _, _, rfl, h⟩ := h
  refine ⟨job, hjob, ?_⟩
  split at h
  · simp only [run_bind_ok_iff, run_modify_ok_iff, pure_eq, run_pure_ok_iff] at h
    obtain ⟨_, _, rfl, -, rfl⟩ := h
    exact ⟨.of_eq (fun _ => rfl) rfl rfl, rfl⟩
  · obtain ⟨-, rfl⟩ := run_pure_ok_iff.mp h
    exact ⟨.of_eq (fun _ => rfl) rfl rfl, rfl⟩

/-- What a call inserts that queues an account purge. -/
def JobRow.IsNewAccountPurge (j : JobRow) : Prop :=
  j.kind = .accountPurge ∧ isDetached j.payload = false

/-- An account purge that an administrator has asked for. -/
structure JobRow.RequestedBy (j : JobRow) (actorUserId : Uuid) : Prop where
  kind : j.kind = .accountPurge
  /-- Nobody purges their own account. -/
  owner : j.ownerUserId ≠ actorUserId
  attached : isDetached j.payload = false
  requestedBy : uuidMember j.payload "requestedBy" = some actorUserId

/-- A call leaves the jobs, or it queues a new account purge for an administrator. -/
def PurgeDb.Queues (d : PurgeDb) (now : Timestamp) (actorUserId jobId : Uuid) (d' : PurgeDb) :
    Prop :=
  d'.jobs = d.jobs ∨ ∃ subjectUserId payload, d.job jobId = none ∧
    (JobRow.new jobId .accountPurge subjectUserId none payload now).RequestedBy actorUserId ∧
    d'.jobs = d.jobs ++ [JobRow.new jobId .accountPurge subjectUserId none payload now]

/-- The jobs follow when one is queued. -/
theorem PurgeDb.Queues.follow {actorUserId jobId : Uuid} (h : d.Queues now actorUserId jobId d') :
    d.JobsFollow d' JobRow.IsNewAccountPurge := by
  rcases h with hjobs | ⟨subjectUserId, payload, hnew, hrequested, hjobs⟩
  · exact .of_eq hjobs
  · exact .insert hjobs hnew ⟨hrequested.kind, hrequested.attached⟩

/-- The new job of an administrator who purges another account. -/
theorem requestedBy_new {actorUserId subjectUserId jobId exportId : Uuid} {phase reason : String}
    (hne : actorUserId ≠ subjectUserId) :
    (JobRow.new jobId .accountPurge subjectUserId none
      (.obj [("phase", .str phase), ("exportId", exportId.toJson),
        ("requestedBy", actorUserId.toJson), ("reason", .str reason)]) now).RequestedBy
          actorUserId := by
  refine ⟨rfl, hne.symm, ?_, ?_⟩
  · simp [JobRow.new, isDetached]
  · simp [JobRow.new, uuidMember, Uuid.toJson, Uuid.parse_text]

/-- A requested export is queued, or the pending one is answered. -/
theorem run_requestAccountPurgeExport {actorUserId subjectUserId jobId exportId : Uuid}
    {reason requestId : String} {r : Except PersistenceError AccountPurgeResponse}
    (h : (requestAccountPurgeExport now actorUserId subjectUserId jobId exportId reason
      requestId).run d = (.ok r, d')) :
    d.sync.Marks d'.sync ∧ d.Queues now actorUserId jobId d' := by
  simp only [requestAccountPurgeExport, bind_eq, query_bind, run_read, run_bind_ok_iff,
    run_require_ok_iff] at h
  obtain ⟨_, _, huser, h⟩ := h
  obtain ⟨rfl, hne⟩ := run_purgeableUser huser
  obtain ⟨_, _, ⟨-, rfl⟩, h⟩ := h
  cases hwanted : wantedExport now subjectUserId d with
  | some found =>
    simp only [hwanted, pure_eq, run_pure_ok_iff] at h
    obtain ⟨-, rfl⟩ := h
    exact ⟨.of_eq (fun _ => rfl) rfl rfl, .inl rfl⟩
  | none =>
    simp only [hwanted, run_read, run_bind_ok_iff, run_require_ok_iff, run_modify_ok_iff, pure_eq,
      run_pure_ok_iff] at h
    obtain ⟨_, _, hinsert, _, _, ⟨-, rfl⟩, _, _, rfl, _, _, haudit, -, rfl⟩ := h
    obtain ⟨hnew, rfl⟩ := run_insertJob hinsert
    obtain ⟨event, -, -, rfl⟩ := run_auditPurge haudit
    exact ⟨.of_eq (fun _ => rfl) rfl rfl, .inr ⟨_, _, hnew, requestedBy_new hne, rfl⟩⟩

/-- A confirmed purge is queued. -/
theorem run_confirmAccountPurge {actorUserId subjectUserId exportId jobId : Uuid}
    {reason requestId : String} {r : Except PersistenceError AccountPurgeResponse}
    (h : (confirmAccountPurge now actorUserId subjectUserId exportId jobId reason requestId).run d =
      (.ok r, d')) :
    d.sync.Marks d'.sync ∧ d.Queues now actorUserId jobId d' := by
  simp only [confirmAccountPurge, bind_eq, query_bind, run_read, run_bind_ok_iff,
    run_orThrow_ok_iff, run_require_ok_iff, run_modify_ok_iff, pure_eq, run_pure_ok_iff] at h
  obtain ⟨_, _, huser, _, _, ⟨-, rfl⟩, _, _, ⟨-, rfl⟩, _, _, ⟨-, rfl⟩, _, _, ⟨-, rfl⟩, _, _, rfl,
    _, _, rfl, _, _, rfl, _, _, hinsert, _, _, haudit, -, rfl⟩ := h
  obtain ⟨rfl, hne⟩ := run_purgeableUser huser
  obtain ⟨hnew, rfl⟩ := run_insertJob hinsert
  obtain ⟨event, -, -, rfl⟩ := run_auditPurge haudit
  exact ⟨.trans (Db.marks_updateWhere rfl) (.of_eq (fun _ => rfl) rfl rfl),
    .inr ⟨_, _, hnew, requestedBy_new hne, rfl⟩⟩

end

/-! ## Every call does one step -/

section

variable {α : Type} {host : Host} {e : PurgeEvent}

/-- A call to the synchronisation changes its tables. -/
theorem execute_sync (host : Host) (now : Timestamp) (call : Call) (d : PurgeDb) :
    (PurgeCall.body host now (.sync call)).execute d =
      (((call.body host now).execute d.sync).1.map .sync,
        { d with sync := ((call.body host now).execute d.sync).2 }) := by
  unfold PurgeCall.body purging
  rw [execute_bind_map, execute_onSync]

/-- A call whose body returned, or that did nothing. -/
theorem returned_or_unchanged {reply : α → PurgeReply} {x : PurgeTx (Except PersistenceError α)}
    (hresult : e.result = ((purging reply x).execute e.before).1)
    (hafter : e.after = ((purging reply x).execute e.before).2) :
    (∃ r d', x.run e.before = (.ok r, d') ∧ e.result = r.map reply ∧ e.after = d') ∨
      e.after = e.before := by
  rw [purging, execute_bind_map] at hresult hafter
  rcases hexecute : x.execute e.before with ⟨r, d'⟩
  rw [hexecute] at hresult hafter
  rcases execute_cases hexecute with hrun | ⟨rfl, -⟩
  · exact .inl ⟨r, d', hrun, hresult, hafter⟩
  · exact .inr hafter

/-- A request is a step when each of its successes is. -/
theorem purgeStep_of_execute {reply : α → PurgeReply} {x : PurgeTx (Except PersistenceError α)}
    (hcall : ∀ call, e.request.call ≠ .sync call)
    (hresult : e.result = ((purging reply x).execute e.before).1)
    (hafter : e.after = ((purging reply x).execute e.before).2)
    (hok : ∀ r d', x.run e.before = (.ok r, d') → e.result = r.map reply → e.after = d' →
      PurgeStep host e) : PurgeStep host e := by
  rcases returned_or_unchanged hresult hafter with ⟨r, d', hrun, hr, hd'⟩ | hsame
  · exact hok r d' hrun hr hd'
  · refine .marked hcall ?_ (.of_eq ?_)
    · rw [hsame]
      exact .of_eq (fun _ => rfl) rfl rfl
    · rw [hsame]

/-- A minor change is a step. -/
theorem PurgeDb.Minor.purgeStep {d' : PurgeDb} (h : e.before.Minor d') (hafter : e.after = d')
    (hcall : ∀ call, e.request.call ≠ .sync call) : PurgeStep host e := by
  subst hafter
  exact .marked hcall h.1 (h.2 _)

/-- An update of a job is a step. -/
theorem PurgeDb.Updates.purgeStep {jobId : Uuid} {f : JobRow → JobRow} {d' : PurgeDb}
    (h : e.before.Updates jobId f d') (hafter : e.after = d')
    (hcall : ∀ call, e.request.call ≠ .sync call) (hid : ∀ j, (f j).id = j.id)
    (hf : ∀ j, (f j).Follows j) : PurgeStep host e :=
  (h.minor hid hf).purgeStep hafter hcall

/-- A claim is a step. -/
theorem purgeStep_of_claim {kind : JobKind} {skipLocked : List Uuid} {leaseToken : Uuid}
    (hcall : ∀ call, e.request.call ≠ .sync call)
    (hresult : e.result =
      ((purging .claimed (claimPurge kind e.request.now skipLocked leaseToken)).execute e.before).1)
    (hafter : e.after =
      ((purging .claimed (claimPurge kind e.request.now skipLocked leaseToken)).execute
          e.before).2) :
    PurgeStep host e := by
  refine purgeStep_of_execute hcall hresult hafter fun r d' hrun _ hafter => ?_
  rcases run_claimPurge hrun with ⟨-, rfl⟩ | ⟨job, -, -, rfl⟩
  · exact PurgeDb.Minor.rfl.purgeStep hafter hcall
  · have hupdates : e.before.Updates job.id (·.claimed e.request.now leaseToken)
        (e.before.updateJob job.id (·.claimed e.request.now leaseToken)) :=
      ⟨.of_eq (fun _ => rfl) rfl rfl, rfl⟩
    exact hupdates.purgeStep hafter hcall (fun _ => rfl) fun _ => ⟨rfl, rfl, rfl, rfl⟩

/-- Every call that is executed alone does one step. -/
theorem purgeStep_alone (host : Host) (q : PurgeRequest) (d : PurgeDb) :
    PurgeStep host ((purgeService host).alone q d) := by
  obtain ⟨now, call⟩ := q
  generalize he : (purgeService host).alone ⟨now, call⟩ d = e
  have hrequest : e.request = ⟨now, call⟩ := by rw [← he]; rfl
  have hresult : e.result = ((call.body host now).execute e.before).1 := by rw [← he]; rfl
  have hafter : e.after = ((call.body host now).execute e.before).2 := by rw [← he]; rfl
  have hcall : (∀ call', call ≠ .sync call') → ∀ call', e.request.call ≠ .sync call' := by
    rw [hrequest]
    exact id
  obtain rfl : e.request.now = now := by rw [hrequest]
  cases call with
  | sync call =>
    rw [execute_sync] at hresult hafter
    refine .sync (congrArg PurgeRequest.call hrequest)
      (rfl : ((service host).alone ⟨e.request.now, call⟩ e.before.sync).request = _) rfl ?_ hresult
      ?_ ?_
    · rw [hafter]
      rfl
    · exact fun R hR => Service.outcome_alone hR _
    · rw [hafter]
  | enqueueProjectPurge userId p jobId reason requestId =>
    refine purgeStep_of_execute (hcall nofun) hresult hafter fun r d' hrun _ hafter => ?_
    obtain ⟨hnew, row, event, hrow, howner, rfl⟩ := run_enqueueProjectPurge hrun
    -- The project is there and its status is set.
    have hmarked : (e.before.sync.updateProject p fun p =>
        { p with status := .deleting, updatedAt := e.request.now }).project p =
          some { row with status := .deleting, updatedAt := e.request.now } := by
      rw [Db.project_updateProject, hrow]
      · rfl
      · exact fun _ => rfl
    refine .enqueued (congrArg PurgeRequest.call hrequest) hrow howner ?_
      (by rw [hafter]; exact hmarked) rfl ?_
    · rw [hafter]
      exact .trans (Db.marks_updateWhere rfl) (.of_eq (fun _ => rfl) rfl rfl)
    · rw [hafter]
      exact .insert rfl hnew ⟨rfl, rfl, rfl, rfl⟩
  | claimProjectPurgeJob => exact purgeStep_of_claim (hcall nofun) hresult hafter
  | claimAccountPurgeJob => exact purgeStep_of_claim (hcall nofun) hresult hafter
  | prepareProjectPurge order jobId leaseToken =>
    refine purgeStep_of_execute (hcall nofun) hresult hafter fun r d' hrun _ hafter => ?_
    -- The rows are deleted once; later calls answer the keys that the job has kept.
    obtain ⟨job, p, hjob, hp, ⟨-, rfl⟩ | ⟨hattached, keys, rfl⟩⟩ := run_prepareProjectPurge hrun
    · exact PurgeDb.Minor.rfl.purgeStep hafter (hcall nofun)
    · have hjobs : e.after.jobs =
          (e.before.updateJob jobId fun j => { j with payload := detachedProject keys }).jobs := by
        rw [hafter]
      exact .projectRemoved (congrArg PurgeRequest.call hrequest) hjob hp hattached
        (congrArg PurgeDb.sync hafter) hjobs
  | prepareAccountPurge jobId leaseToken =>
    refine purgeStep_of_execute (hcall nofun) hresult hafter fun r d' hrun hr hafter => ?_
    obtain ⟨job, hjob, ⟨-, -, rfl⟩ | ⟨hattached, exportId, keys, devices, rfl, rfl⟩⟩ :=
      run_prepareAccountPurge hrun
    · exact PurgeDb.Minor.rfl.purgeStep hafter (hcall nofun)
    · have hjobs : e.after.jobs = (e.before.updateJob jobId fun j =>
          { j with payload := detachedPayload exportId keys }).jobs := by
        rw [hafter]
      exact .accountRemoved (congrArg PurgeRequest.call hrequest) hjob hattached hr
        ⟨devices, congrArg PurgeDb.sync hafter⟩ hjobs
  | requestAccountPurgeExport =>
    refine purgeStep_of_execute (hcall nofun) hresult hafter fun r d' hrun _ hafter => ?_
    obtain ⟨hsync, hqueues⟩ := run_requestAccountPurgeExport hrun
    exact .marked (hcall nofun) (hafter ▸ hsync) (hafter ▸ hqueues.follow)
  | confirmAccountPurge =>
    refine purgeStep_of_execute (hcall nofun) hresult hafter fun r d' hrun _ hafter => ?_
    obtain ⟨hsync, hqueues⟩ := run_confirmAccountPurge hrun
    exact .marked (hcall nofun) (hafter ▸ hsync) (hafter ▸ hqueues.follow)
  | completeProjectPurge =>
    refine purgeStep_of_execute (hcall nofun) hresult hafter fun r d' hrun _ hafter => ?_
    obtain ⟨_, -, hupdates⟩ := run_completeProjectPurge hrun
    exact hupdates.purgeStep hafter (hcall nofun) (fun _ => rfl) fun _ => ⟨rfl, rfl, rfl, rfl⟩
  | failProjectPurge =>
    refine purgeStep_of_execute (hcall nofun) hresult hafter fun r d' hrun _ hafter => ?_
    obtain ⟨_, -, -, hupdates⟩ := run_failProjectPurge hrun
    exact hupdates.purgeStep hafter (hcall nofun) (fun _ => rfl) fun _ => ⟨rfl, rfl, rfl, rfl⟩
  | accountPurgePhase =>
    refine purgeStep_of_execute (hcall nofun) hresult hafter fun r d' hrun _ hafter => ?_
    obtain ⟨-, -, -, rfl⟩ := run_accountPurgePhase hrun
    exact PurgeDb.Minor.rfl.purgeStep hafter (hcall nofun)
  | renewAccountPurgeLease =>
    refine purgeStep_of_execute (hcall nofun) hresult hafter fun r d' hrun _ hafter => ?_
    obtain ⟨_, -, hupdates⟩ := run_renewAccountPurgeLease hrun
    exact hupdates.purgeStep hafter (hcall nofun) (fun _ => rfl) fun _ => ⟨rfl, rfl, rfl, rfl⟩
  | completeAccountExport =>
    refine purgeStep_of_execute (hcall nofun) hresult hafter fun r d' hrun _ hafter => ?_
    obtain ⟨_, _, -, -, -, -, hupdates⟩ := run_completeAccountExport hrun
    exact hupdates.purgeStep hafter (hcall nofun) (fun _ => rfl) fun _ => ⟨rfl, rfl, rfl, rfl⟩
  | completeAccountPurge =>
    refine purgeStep_of_execute (hcall nofun) hresult hafter fun r d' hrun _ hafter => ?_
    obtain ⟨_, _, -, -, -, -, hupdates⟩ := run_completeAccountPurge hrun
    exact hupdates.purgeStep hafter (hcall nofun) (fun _ => rfl) fun _ => ⟨rfl, rfl, rfl, rfl⟩
  | failAccountPurge =>
    refine purgeStep_of_execute (hcall nofun) hresult hafter fun r d' hrun _ hafter => ?_
    obtain ⟨_, -, hupdates⟩ := run_failAccountPurge hrun
    exact hupdates.purgeStep hafter (hcall nofun) (fun _ => rfl) fun _ => ⟨rfl, rfl, rfl, rfl⟩
  | expireAccountPurgeExports =>
    refine purgeStep_of_execute (hcall nofun) hresult hafter fun r d' hrun _ hafter => ?_
    -- The statement is always refused.
    rw [run_expireAccountPurgeExports] at hrun
    cases hrun

end

end TaskTipsCloud

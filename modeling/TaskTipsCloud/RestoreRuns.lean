import TaskTipsCloud.JobSteps

/-!
# Runs of restores

The restore jobs of every committed database have distinct identifiers, and at most one of a project
is queued or running. What the operations rely on for this (`Db.JobRely`) they keep for each other,
so every request that finishes in a run did one `RestoreStep`.
-/

namespace TaskTipsCloud

open Txn

/-- What holds of the restore jobs of every committed database. -/
structure Db.JobsSound (d : Db) : Prop where
  sound : d.Sound
  /-- Jobs have distinct identifiers. -/
  ids : (d.restoreJobs.map (·.id)).Nodup
  /-- At most one job of a project is queued or running. -/
  oneActive : ∀ j ∈ d.restoreJobs, ∀ j' ∈ d.restoreJobs, j.projectId = j'.projectId →
    j.isActive = true → j'.isActive = true → j = j'
  /-- A job is of a project that is there. -/
  owned : ∀ j ∈ d.restoreJobs, d.standing j.projectId ≠ none

/-- What a session with the locks `H` that reads the database `d` knows of the jobs and projects of
the database `c` on which it commits. -/
structure Db.JobRely (H : Set Lock) (d c : Db) : Prop where
  rely : Db.Rely H d c
  sound : d.JobsSound
  /-- A restore is enqueued under the lock of its project. -/
  idle : ∀ p, Lock.project p ∈ H → d.Idle p → c.Idle p
  /-- Only the worker that claims a job puts the project of the job into maintenance. -/
  calm : ∀ job, Lock.restoreJob job.id ∈ H → d.restoreJob job.id = some job →
    job.isActive = true → ∀ generation, c.standing job.projectId = some (.maintenance, generation) →
      ∃ generation', d.standing job.projectId = some (.maintenance, generation')
  users : c.users = d.users
  /-- A job that failed stays as it is. -/
  failed : ∀ j ∈ d.restoreJobs, j.status = .failed → j ∈ c.restoreJobs

/-- Others may change nothing. -/
theorem Db.JobRely.refl {d : Db} (hd : d.JobsSound) (H : Set Lock) : Db.JobRely H d d :=
  ⟨.refl hd.sound H, hd, fun _ _ => id, fun _ _ _ _ generation h => ⟨generation, h⟩, rfl,
    fun _ hj _ => hj⟩

/-- What others do under the same locks, in two parts. -/
theorem Db.JobRely.trans {H : Set Lock} {d d' d'' : Db} (h : Db.JobRely H d d')
    (h' : Db.JobRely H d' d'') : Db.JobRely H d d'' where
  rely := h.rely.trans h'.rely
  sound := h.sound
  idle p hp hidle := h'.idle p hp (h.idle p hp hidle)
  calm job hlock hjob hactive generation hstanding := by
    have hjob' : d'.restoreJob job.id = some job := (h.rely.job _ hlock).symm.trans hjob
    obtain ⟨generation', hstanding'⟩ := h'.calm job hlock hjob' hactive generation hstanding
    exact h.calm job hlock hjob hactive generation' hstanding'
  users := h'.users.trans h.users
  failed j hj hstatus := h'.failed j (h.failed j hj hstatus) hstatus

/-- What others may do under more locks they may do under fewer. -/
theorem Db.JobRely.anti {H H' : Set Lock} {d d' : Db} (hH : H ⊆ H') (h : Db.JobRely H' d d') :
    Db.JobRely H d d' where
  rely := h.rely.anti hH
  sound := h.sound
  idle p hp := h.idle p (hH hp)
  calm job hlock := h.calm job (hH hlock)
  users := h.users
  failed := h.failed

/-! ## Every request does one step -/

section

variable {host : Host} {c : Db} {H : Set Lock} {b : Db → Db} {now : Timestamp} {t : ℤ}

/-- A request that writes neither to the projects nor to the jobs. -/
theorem restoreStep_of_touches {e : SyncEvent} {T : List Table} (h : e.before.Touches T e.after)
    (hprojects : .projects ∉ T) (hjobs : .restoreJobs ∉ T) : RestoreStep H e :=
  .kept (h.restoreJobs hjobs) (Db.standing_of_projects (h.projects hprojects))

/-- A job with a lease is running. -/
theorem RestoreJob.HasLease.isActive {job : RestoreJob} {leaseToken : Uuid}
    (h : job.HasLease leaseToken) : job.isActive = true := by
  unfold RestoreJob.isActive
  rw [h.1]
  rfl

/-- A change of a job whose lease is held, in a project whose standing it leaves. -/
theorem restoreStep_of_leased {e : SyncEvent} {jobId leaseToken : Uuid} {job : RestoreJob}
    {f : RestoreJob → RestoreJob}
    (hcall : ∀ skipLocked leaseToken, e.request.call ≠ .claimRestoreJob skipLocked leaseToken)
    (hjob : leasedJob jobId leaseToken e.before = some job)
    (hjobs : e.after.restoreJobs = (e.before.updateRestoreJob jobId f).restoreJobs)
    (hprojects : e.after.projects = e.before.projects)
    (hchange : ∀ x, job.id = jobId → job.HasLease leaseToken → JobChange e job (f job) x x) :
    RestoreStep H e := by
  obtain ⟨rfl, hfind, hlease⟩ := hasLease_of_leasedJob hjob
  refine .changed (fun _ _ h => absurd h (hcall _ _)) hfind rfl hjobs ?_ (hchange _ rfl hlease)
  rw [Db.standing_of_projects hprojects, Function.update_eq_self]

/-- A project that left maintenance is not in maintenance. -/
theorem ProjectStatus.reopened_ne (status : ProjectStatus) : status.reopened ≠ .maintenance := by
  unfold reopened
  split
  · nofun
  · assumption

/-- Leaving maintenance changes no project that is not in maintenance. -/
theorem map_reopened {x : Option (ProjectStatus × ℤ)}
    (hx : ∀ generation, x ≠ some (.maintenance, generation)) :
    x.map (fun (status, generation) => (status.reopened, generation)) = x := by
  rcases x with _ | ⟨status, generation⟩
  · rfl
  · have hstatus : status ≠ .maintenance := by
      rintro rfl
      exact hx generation rfl
    exact congrArg (fun status => some (status, generation)) (if_neg hstatus)

/-- An executed push leaves the standing of every project. -/
theorem PushEffect.standing {a : PushArgs} {d d' : Db}
    {r : Except PersistenceError PushOutcome}
    (h : PushEffect host now a (d.withoutExpired now a) r d') : d'.standing = d.standing := by
  cases h with
  | failed herror hresponse => rfl
  | applied hrow hactive hgeneration hbootstrapped hitems hresponse =>
    rename_i row results rs response
    exact (Db.standing_appendAll : ((d.withoutExpired now a).appendAll now rs).standing = _)

/-- What a restore does to the jobs and the standing of its project. -/
theorem RestoreEffect.restoreStep {R : Set Lock → Db → Db → Prop} {e : SyncEvent}
    {targetOrder currentOrder : ScanOrder} {jobId leaseToken : Uuid}
    (hcall : e.request.call = .executeRestoreWithLease targetOrder currentOrder jobId leaseToken)
    (h : RestoreEffect R e.request.now targetOrder currentOrder jobId leaseToken e.before e.after) :
    RestoreStep H e := by
  generalize hafter : e.after = d' at h
  obtain ⟨hjob, hrequested, hrow, hstatus, htarget, hall, hitems⟩ := h
  rename_i job row target rs
  obtain ⟨rfl, hfind, hlease⟩ := hasLease_of_leasedJob hjob
  have hstanding := Db.standing_of_project hrow
  rw [hstatus] at hstanding
  generalize hcounts : List.foldl _ _ _ = counts at hafter
  refine .changed (f := (·.succeeded e.request.now (row.generation + 1) counts))
    (fun _ _ h => by rw [hcall] at h; cases h) hfind rfl ?_
    (x := some (.active, row.generation + 1)) ?_ ?_
  · rw [hafter, Db.appendAll_eq]
    rfl
  · have hproject : ((e.before.appendAll e.request.now rs).project job.projectId).isSome := by
      have hkept : (e.before.appendAll e.request.now rs).standing job.projectId =
          e.before.standing job.projectId := congrFun Db.standing_appendAll _
      rw [hstanding, Db.standing, Option.map_eq_some_iff] at hkept
      obtain ⟨row', hrow', -⟩ := hkept
      rw [hrow']
      rfl
    obtain ⟨row', hrow'⟩ := Option.isSome_iff_exists.mp hproject
    have hfinished : (Db.finished e.request.now job row.generation counts
        (e.before.appendAll e.request.now rs)).standing =
        ((e.before.appendAll e.request.now rs).updateProject job.projectId fun p =>
          { p with generation := row.generation + 1, status := .active,
                   updatedAt := e.request.now }).standing := Db.standing_of_projects rfl
    rw [hafter, hfinished, Db.standing_updateProject, hrow', Db.standing_appendAll]
    · rfl
    · exact fun _ => rfl
  · rw [hstanding]
    exact .succeeded hcall hlease hrequested

/-- What a call that commits did to the jobs and the projects. -/
theorem restoreStep_of_runs {call : Call} {r : Except PersistenceError Reply} (hc : c.JobsSound)
    (h : Runs Db.JobRely c (call.body host now) ∅ id (.ok r) H b) :
    RestoreStep H ⟨⟨now, call⟩, r, c, b c, t⟩ := by
  have hrely : ∀ H d, Db.JobRely H d c → Db.Rely H d c := fun _ _ h => h.rely
  have hruns : Runs Db.Rely c (call.body host now) ∅ id (.ok r) H b := h.mono hrely
  have heffect : EventEffect host ⟨⟨now, call⟩, r, c, b c, t⟩ :=
    eventEffect_of_outcome hc.sound ⟨H, b, .inl ⟨hruns, rfl⟩⟩
  have htouches := heffect.touches
  cases call with
  -- These calls touch neither the jobs nor the projects.
  | registerDevice | revokeDevice | registerPayload | collectPayload | pullPage
  | prepareBootstrapManifest | recordBootstrapManifest | bootstrapManifestPage
  | expireBootstrapManifests | purgeExpiredIdempotencyRecords | snapshotManifest | recordSnapshot
  | markSnapshotReady | expirePendingSnapshots | markSnapshotReadyForJob =>
    exact restoreStep_of_touches htouches (by simp [Call.tables]) (by simp [Call.tables])
  | createProject =>
    obtain ⟨_, hrun, -⟩ := runs_replying_iff.mp hruns
    obtain ⟨row, hnone, -, hgeneration, hstatus, hafter⟩ := runs_createProject hrun
    have hstanding := Db.standing_insertProject hnone
    rw [hstatus, hgeneration] at hstanding
    refine .created (p := row.id) ((congrArg Db.restoreJobs hafter).trans rfl) ?_
      ((congrArg Db.standing hafter).trans hstanding)
    rw [Db.standing, hnone]
    rfl
  | disableProject =>
    obtain ⟨_, hrun, -⟩ := runs_replying_iff.mp hruns
    obtain ⟨hjobs, hstanding⟩ := runs_disableProject hrun
    exact .disabled rfl hjobs hstanding
  | pushWithOutcome =>
    obtain ⟨_, hrun, -⟩ := runs_replying_iff.mp hruns
    refine .kept (htouches.restoreJobs (by simp [Call.tables])) ?_
    rcases runs_pushWithOutcome_ok hrun with hafter | ⟨-, hpushed⟩
    · exact (congrArg Db.standing hafter).trans rfl
    · exact hpushed.standing
  | enqueueRestore a =>
    obtain ⟨_, hrun, -⟩ := runs_replying_iff.mp h
    -- That no job was open was read under the lock of the project, so it is so at the commit.
    obtain ⟨d, K, generation, hd, hlock, hK, hidle, hfresh, hbefore, hjobs, hprojects⟩ :=
      runs_enqueueRestore hrely hrun
    exact .enqueued rfl hjobs hfresh (hK hlock) (hd.idle _ hlock hidle) hbefore
      (Db.standing_of_projects hprojects)
  | cancelRestore =>
    obtain ⟨_, hrun, -⟩ := runs_replying_iff.mp hruns
    obtain ⟨job, f, howned, hjobs, hprojects, hchange⟩ := runs_cancelRestore (fun _ _ h => h) hrun
    have hid := id_of_ownedJob howned
    obtain ⟨hfind, howner⟩ := Option.filter_eq_some_iff.mp howned
    simp only [Bool.and_eq_true, beq_iff_eq] at howner
    obtain ⟨rfl, rfl⟩ := howner
    subst hid
    refine .changed (fun _ _ h => by cases h) hfind rfl hjobs (x := c.standing job.projectId) ?_ ?_
    · exact (Db.standing_of_projects hprojects).trans (Function.update_eq_self _ _).symm
    · rcases hchange with ⟨hstatus, rfl⟩ | ⟨hstatus, rfl⟩
      · exact .dequeued rfl hstatus
      · exact .asked rfl hstatus
  | claimRestoreJob =>
    obtain ⟨_, hrun, hr⟩ := runs_replying_iff.mp hruns
    -- There was no job, or its project refused it, or it runs now and the project is in
    -- maintenance.
    rcases runs_claimRestoreJob (fun _ _ h => h) hrun with
      ⟨rfl, -⟩ | ⟨job, f, hlock, hfind, hclaimable, hjobs, ⟨rfl, -, hstanding⟩ |
        ⟨status, generation, rfl, rfl, hbefore, hstatus, hstanding⟩⟩
    · exact .kept rfl rfl
    · exact .changed (fun _ _ _ => hlock) hfind rfl hjobs
        (hstanding.trans (Function.update_eq_self _ _).symm)
        (.refused rfl hclaimable)
    · refine .changed (fun _ _ _ => hlock) hfind rfl hjobs hstanding ?_
      rw [hbefore]
      exact .claimed rfl hclaimable hstatus hr
  | renewRestoreLease jobId leaseToken =>
    obtain ⟨_, hrun, -⟩ := runs_replying_iff.mp hruns
    obtain ⟨o, _, b₁, hupdate, hend⟩ := runs_bind_ok_iff.mp hrun
    have hb : b₁ = b := by cases o <;> exact (runs_pure_iff.mp hend).2.2
    subst hb
    rcases runs_updateLeasedJob (fun _ _ h => h) hupdate with ⟨-, rfl⟩ | ⟨job, hjob, -, rfl⟩
    · exact .kept rfl rfl
    · refine restoreStep_of_leased (fun _ _ h => by cases h) hjob rfl rfl fun x hid hlease => ?_
      subst hid
      exact .renewed rfl hlease
  | createPreRestoreSnapshot =>
    obtain ⟨_, hrun, -⟩ := runs_replying_iff.mp hruns
    obtain ⟨job, row, manifest, d, hjob, rfl, -, -, -, -, -, -, -, hafter⟩ :=
      runs_createPreRestoreSnapshot (fun _ _ h => h) hrun
    refine restoreStep_of_leased (fun _ _ h => by cases h) hjob
      ((congrArg Db.restoreJobs hafter).trans rfl)
      ((congrArg Db.projects hafter).trans rfl) fun x hid hlease => ?_
    subst hid
    exact .snapshotted rfl hlease
  | executeRestoreWithLease =>
    obtain ⟨_, hrun, -⟩ := runs_replying_iff.mp hruns
    exact (runs_executeRestoreWithLease (fun _ _ h => h) hc.sound.coherent hrun).2.restoreStep rfl
  | cancelRestoreWithLease jobId leaseToken =>
    obtain ⟨_, hrun, -⟩ := runs_replying_iff.mp h
    obtain ⟨job, hjob, hrequested, hjobs, hstanding⟩ := runs_cancelRestoreWithLease hrely hrun
    obtain ⟨rfl, hfind, hlease⟩ := hasLease_of_leasedJob hjob
    refine .changed (fun _ _ h => by cases h) hfind rfl hjobs ?_ (.withdrawn rfl hlease hrequested)
    rcases hstanding with hstanding | ⟨hstanding, d, hd, hcalm⟩
    · exact hstanding
    · -- The project was not in maintenance, and it did not get there since.
      have hjob' : d.restoreJob job.id = some job := (hd.rely.job _ rfl).trans hfind
      have hout : ∀ generation, c.standing job.projectId ≠ some (.maintenance, generation) := by
        intro generation hmaintenance
        obtain ⟨generation', hseen⟩ :=
          hd.calm job rfl hjob' hlease.isActive generation hmaintenance
        exact hcalm generation' hseen
      refine hstanding.trans ((Function.update_eq_self job.projectId c.standing).symm.trans ?_)
      rw [map_reopened hout]
  | failRestoreJobWithLease jobId leaseToken errorCode =>
    obtain ⟨_, hrun, -⟩ := runs_replying_iff.mp hruns
    simp only [failRestoreJobWithLease, discard_eq, bind_eq, runs_bind_ok_iff, pure_eq,
      runs_pure_iff] at hrun
    obtain ⟨_, _, _, ⟨o, _, _, hupdate, -, -, rfl⟩, -, -, rfl⟩ := hrun
    rcases runs_updateLeasedJob (fun _ _ h => h) hupdate with ⟨-, rfl⟩ | ⟨job, hjob, -, rfl⟩
    · exact .kept rfl rfl
    · refine restoreStep_of_leased (fun _ _ h => by cases h) hjob rfl rfl fun x hid hlease => ?_
      subst hid
      exact .abandoned rfl hlease
  | retryRestoreJobWithLease jobId leaseToken errorCode =>
    obtain ⟨_, hrun, -⟩ := runs_replying_iff.mp hruns
    obtain ⟨o, _, b₁, hupdate, hend⟩ := runs_bind_ok_iff.mp hrun
    have hb : b₁ = b := by cases o <;> exact (runs_pure_iff.mp hend).2.2
    subst hb
    rcases runs_updateLeasedJob (fun _ _ h => h) hupdate with ⟨-, rfl⟩ | ⟨job, hjob, -, rfl⟩
    · exact .kept rfl rfl
    · refine restoreStep_of_leased (fun _ _ h => by cases h) hjob rfl rfl fun x hid hlease => ?_
      subst hid
      exact .retried rfl hlease
  | reopenFailedRestore =>
    obtain ⟨_, hrun, -⟩ := runs_replying_iff.mp h
    obtain ⟨hadmin, hfailed, -, generation, hbefore, hjobs, hstanding⟩ :=
      runs_reopenFailedRestore hrely (fun _ _ h => h.users) (fun _ _ h => h.failed) hrun
    exact .reopened rfl hjobs hbefore hstanding hadmin hfailed

/-! ## The jobs stay sound -/

/-- What no change of a job changes. -/
theorem JobChange.same {e : SyncEvent} {job job' : RestoreJob} {x x' : Option (ProjectStatus × ℤ)}
    (h : JobChange e job job' x x') : job'.id = job.id ∧ job'.projectId = job.projectId := by
  cases h <;> exact ⟨rfl, rfl⟩

/-- Only a job that is queued or running changes. -/
theorem JobChange.isActive {e : SyncEvent} {job job' : RestoreJob}
    {x x' : Option (ProjectStatus × ℤ)} (h : JobChange e job job' x x') : job.isActive = true := by
  cases h with
  | dequeued _ hstatus | asked _ hstatus =>
    unfold RestoreJob.isActive
    rw [hstatus]
    rfl
  | refused _ hclaimable | claimed _ hclaimable _ _ =>
    simp only [RestoreJob.claimable, Bool.or_eq_true, Bool.and_eq_true] at hclaimable
    exact Bool.or_eq_true_iff.mpr (hclaimable.imp And.left And.left)
  | renewed _ hlease | snapshotted _ hlease | withdrawn _ hlease _ | abandoned _ hlease
  | retried _ hlease | succeeded _ hlease _ => exact hlease.isActive

/-- A job that is found is in the table. -/
theorem Db.mem_of_restoreJob {d : Db} {jobId : Uuid} {job : RestoreJob}
    (h : d.restoreJob jobId = some job) : job ∈ d.restoreJobs :=
  List.mem_of_find?_eq_some h

/-- The jobs after one of them has changed. -/
theorem Db.JobsSound.mem_updateRestoreJob {d : Db} (hd : d.JobsSound) {job j : RestoreJob}
    {f : RestoreJob → RestoreJob} (hjob : d.restoreJob job.id = some job) :
    j ∈ (d.updateRestoreJob job.id f).restoreJobs ↔
      j ∈ d.restoreJobs ∧ j.id ≠ job.id ∨ j = f job := by
  have hmem := Db.mem_of_restoreJob hjob
  have huniq : ∀ j ∈ d.restoreJobs, j.id = job.id → j = job := fun j hj hid =>
    List.inj_on_of_nodup_map hd.ids hj hmem hid
  unfold updateRestoreJob updateWhere
  rw [List.mem_map]
  constructor
  · rintro ⟨j₀, hj₀, rfl⟩
    by_cases hid : j₀.id = job.id
    · right
      rw [huniq j₀ hj₀ hid]
      simp
    · left
      simpa [hid] using hj₀
  · rintro (⟨hj, hid⟩ | rfl)
    · exact ⟨j, hj, by simp [hid]⟩
    · exact ⟨job, hmem, by simp⟩

/-- The identifiers after a job has changed. -/
theorem Db.JobsSound.ids_updateRestoreJob {d : Db} (hd : d.JobsSound) {job : RestoreJob}
    {f : RestoreJob → RestoreJob} (hjob : d.restoreJob job.id = some job)
    (hf : (f job).id = job.id) :
    (d.updateRestoreJob job.id f).restoreJobs.map (·.id) = d.restoreJobs.map (·.id) := by
  refine map_updateWhere fun j hj hid => ?_
  have hsame : j = job :=
    List.inj_on_of_nodup_map hd.ids hj (Db.mem_of_restoreJob hjob) (by simpa using hid)
  rw [hsame, hf]

/-- A project that is there stays there. -/
theorem JobChange.standing_ne_none {e : SyncEvent} {job job' : RestoreJob}
    {x x' : Option (ProjectStatus × ℤ)} (h : JobChange e job job' x x') (hx : x ≠ none) :
    x' ≠ none := by
  cases h with
  | claimed | succeeded => exact Option.some_ne_none _
  | withdrawn => exact fun hnone => hx (Option.map_eq_none_iff.mp hnone)
  | _ => exact hx

/-- No request removes a project. -/
theorem RestoreStep.standing_ne_none {e : SyncEvent} (h : RestoreStep H e) {p : Uuid}
    (hp : e.before.standing p ≠ none) : e.after.standing p ≠ none := by
  have hupdate : ∀ {q : Uuid} {x : Option (ProjectStatus × ℤ)},
      e.after.standing = Function.update e.before.standing q x → (p = q → x ≠ none) →
        e.after.standing p ≠ none := by
    intro q x hstanding hx
    rw [hstanding]
    by_cases hq : p = q
    · subst hq
      rw [Function.update_self]
      exact hx rfl
    · rwa [Function.update_of_ne hq]
  cases h with
  | kept _ hstanding | enqueued _ _ _ _ _ _ hstanding =>
    rw [hstanding]
    exact hp
  | created _ _ hstanding => exact hupdate hstanding fun _ => Option.some_ne_none _
  | reopened _ _ _ hstanding => exact hupdate hstanding fun _ => Option.some_ne_none _
  | disabled _ _ hstanding =>
    refine hupdate hstanding fun hq hnone => ?_
    rw [Option.map_eq_none_iff, ← hq] at hnone
    exact hp hnone
  | changed _ _ _ _ hstanding hchange =>
    exact hupdate hstanding fun hq => hchange.standing_ne_none (hq ▸ hp)

/-- The jobs stay sound. -/
theorem RestoreStep.jobsSound {e : SyncEvent} (h : RestoreStep H e) (hb : e.before.JobsSound)
    (hsound : e.after.Sound) : e.after.JobsSound := by
  have hkeeps : ∀ {p : Uuid}, e.before.standing p ≠ none → e.after.standing p ≠ none :=
    h.standing_ne_none
  have hsame : e.after.restoreJobs = e.before.restoreJobs → e.after.JobsSound := fun hjobs =>
    ⟨hsound, by rw [hjobs]; exact hb.ids, by rw [hjobs]; exact hb.oneActive, fun j hj =>
      hkeeps (hb.owned j (hjobs ▸ hj))⟩
  cases h with
  | kept hjobs | created hjobs | disabled _ hjobs | reopened _ hjobs => exact hsame hjobs
  | enqueued hcall hjobs hfresh hlock hidle hbefore hstanding =>
    rename_i a generation
    have hnew : ∀ j ∈ e.before.restoreJobs, j.id ≠ a.jobId := by
      intro j hj hid
      have hnone := List.find?_eq_none.mp hfresh j hj
      simp [hid] at hnone
    refine ⟨hsound, ?_, ?_, ?_⟩
    · rw [hjobs, List.map_append, List.nodup_append]
      refine ⟨hb.ids, List.nodup_singleton _, fun i hi i' hi' => ?_⟩
      obtain ⟨j, hj, rfl⟩ := List.mem_map.mp hi
      rw [List.map_singleton, List.mem_singleton] at hi'
      rw [hi']
      exact hnew j hj
    · intro j hj j' hj' hp hactive hactive'
      rw [hjobs] at hj hj'
      -- The project of the new job had no active one.
      have hnot : ∀ j ∈ e.before.restoreJobs, j.isActive = true → j.projectId ≠ a.projectId :=
        fun j hj hactive hp => by
          rw [hidle j hj hp] at hactive
          cases hactive
      rcases List.mem_append.mp hj with hj | hj <;> rcases List.mem_append.mp hj' with hj' | hj'
      · exact hb.oneActive j hj j' hj' hp hactive hactive'
      · rw [List.mem_singleton.mp hj'] at hp
        exact absurd hp (hnot j hj hactive)
      · rw [List.mem_singleton.mp hj] at hp
        exact absurd hp.symm (hnot j' hj' hactive')
      · rw [List.mem_singleton.mp hj, List.mem_singleton.mp hj']
    · intro j hj
      rw [hstanding]
      rw [hjobs] at hj
      rcases List.mem_append.mp hj with hj | hj
      · exact hb.owned j hj
      · rw [List.mem_singleton.mp hj]
        exact fun hnone => Option.some_ne_none _ (hbefore.symm.trans hnone)
  | changed hlock hjob hf hjobs hstanding hchange =>
    rename_i job job' f x
    obtain ⟨hid, hp⟩ := hchange.same
    have hmem := Db.mem_of_restoreJob hjob
    refine ⟨hsound, ?_, ?_, ?_⟩
    · rw [hjobs, hb.ids_updateRestoreJob hjob (by rw [hf, hid])]
      exact hb.ids
    · -- An active job beside the one that changed would be of another project.
      have hother : ∀ j ∈ e.before.restoreJobs, j.id ≠ job.id → j.isActive = true →
          j.projectId ≠ job.projectId := fun j hj hne hactive hproject =>
        hne (congrArg _ (hb.oneActive j hj job hmem hproject hactive hchange.isActive))
      intro j hj j' hj' hproject hactive hactive'
      rw [hjobs, hb.mem_updateRestoreJob hjob, hf] at hj hj'
      rcases hj with ⟨hj, hne⟩ | rfl <;> rcases hj' with ⟨hj', hne'⟩ | rfl
      · exact hb.oneActive j hj j' hj' hproject hactive hactive'
      · exact absurd (hproject.trans hp) (hother j hj hne hactive)
      · exact absurd (hproject.symm.trans hp) (hother j' hj' hne' hactive')
      · rfl
    · intro j hj
      rw [hjobs, hb.mem_updateRestoreJob hjob, hf] at hj
      rcases hj with ⟨hj, -⟩ | rfl
      · exact hkeeps (hb.owned j hj)
      · rw [hp]
        exact hkeeps (hb.owned job hmem)

/-- What happens to a job is nothing, or a change. -/
theorem RestoreStep.restoreJob {e : SyncEvent} (h : RestoreStep H e) (hb : e.before.JobsSound)
    {jobId : Uuid} {job : RestoreJob} (hjob : e.before.restoreJob jobId = some job) :
    e.after.restoreJob jobId = some job ∨ ∃ job', e.after.restoreJob jobId = some job' ∧
      JobChange e job job' (e.before.standing job.projectId) (e.after.standing job.projectId) := by
  have hkept : e.after.restoreJobs = e.before.restoreJobs → e.after.restoreJob jobId = some job :=
    fun hjobs => by rw [Db.restoreJob, hjobs]; exact hjob
  cases h with
  | kept hjobs | created hjobs | disabled _ hjobs | reopened _ hjobs => exact .inl (hkept hjobs)
  | enqueued _ hjobs =>
    left
    unfold Db.restoreJob at hjob ⊢
    rw [hjobs, List.find?_append, hjob]
    rfl
  | changed hlock hjob' hf hjobs hstanding hchange =>
    rename_i job₁ job' f x
    have hid := Db.id_of_restoreJob hjob
    have hids : (e.after.restoreJobs.map (·.id)).Nodup := by
      rw [hjobs, hb.ids_updateRestoreJob hjob' (by rw [hf, hchange.same.1])]
      exact hb.ids
    have hmem : ∀ j, j ∈ e.after.restoreJobs ↔
        j ∈ e.before.restoreJobs ∧ j.id ≠ job₁.id ∨ j = job' := fun j => by
      rw [hjobs, hb.mem_updateRestoreJob hjob', hf]
    by_cases hne : job.id = job₁.id
    · -- The job is the one that changes.
      obtain rfl : job = job₁ := by
        rw [← hne, hid, hjob] at hjob'
        exact Option.some.inj hjob'
      have hfound := find?_key_eq hids ((hmem job').mpr (.inr rfl))
      rw [hchange.same.1, hid] at hfound
      exact .inr ⟨job', hfound, by rw [hstanding, Function.update_self]; exact hchange⟩
    · have hfound := find?_key_eq hids ((hmem job).mpr (.inl ⟨Db.mem_of_restoreJob hjob, hne⟩))
      rw [hid] at hfound
      exact .inl hfound

/-! ## What the operations keep for each other -/

/-- Under the lock of a project no restore of it is enqueued by another session. -/
theorem RestoreStep.idle {e : SyncEvent} (h : RestoreStep H e) (hb : e.before.JobsSound) {p : Uuid}
    (hp : Lock.project p ∉ H) (hidle : e.before.Idle p) : e.after.Idle p := by
  cases h with
  | kept hjobs | created hjobs | disabled _ hjobs | reopened _ hjobs =>
    unfold Db.Idle
    rw [hjobs]
    exact hidle
  | enqueued hcall hjobs hfresh hlock _ hbefore hstanding =>
    rename_i a generation
    intro j hj hproject
    rw [hjobs] at hj
    rcases List.mem_append.mp hj with hj | hj
    · exact hidle j hj hproject
    · rw [List.mem_singleton.mp hj] at hproject
      exact absurd (hproject ▸ hlock) hp
  | changed hlock hjob hf hjobs hstanding hchange =>
    rename_i job job' f x
    have hactive := hchange.isActive
    have hne : job.projectId ≠ p := fun hproject => by
      rw [hidle job (Db.mem_of_restoreJob hjob) hproject] at hactive
      cases hactive
    intro j hj hproject
    rw [hjobs, hb.mem_updateRestoreJob hjob, hf] at hj
    rcases hj with ⟨hj, -⟩ | rfl
    · exact hidle j hj hproject
    · exact absurd (hchange.same.2.symm.trans hproject) hne

/-- Under the lock of a job that is queued or running, its project is not put into maintenance by
another session. -/
theorem RestoreStep.calm {e : SyncEvent} (h : RestoreStep H e) (hb : e.before.JobsSound)
    {job : RestoreJob} (hlock : Lock.restoreJob job.id ∉ H)
    (hjob : e.before.restoreJob job.id = some job) (hactive : job.isActive = true) {generation : ℤ}
    (hafter : e.after.standing job.projectId = some (.maintenance, generation)) :
    ∃ generation', e.before.standing job.projectId = some (.maintenance, generation') := by
  have hupdate : ∀ {p : Uuid} {x : Option (ProjectStatus × ℤ)},
      e.after.standing = Function.update e.before.standing p x →
      (job.projectId = p → x = some (.maintenance, generation) →
        ∃ generation', e.before.standing p = some (.maintenance, generation')) →
      ∃ generation', e.before.standing job.projectId = some (.maintenance, generation') := by
    intro p x hstanding hx
    rw [hstanding] at hafter
    by_cases hp : job.projectId = p
    · rw [hp, Function.update_self] at hafter
      rw [hp]
      exact hx hp hafter
    · rw [Function.update_of_ne hp] at hafter
      exact ⟨generation, hafter⟩
  cases h with
  | kept hjobs hstanding | enqueued _ _ _ _ _ _ hstanding =>
    rw [hstanding] at hafter
    exact ⟨generation, hafter⟩
  | created hjobs hnone hstanding => exact hupdate hstanding fun _ hx => by cases hx
  | disabled hcall hjobs hstanding =>
    refine hupdate hstanding fun _ hx => ?_
    obtain ⟨_, -, heq⟩ := Option.map_eq_some_iff.mp hx
    cases heq
  | reopened hcall hjobs hbefore hstanding => exact hupdate hstanding fun _ hx => by cases hx
  | changed hclaim hjob' hf hjobs hstanding hchange =>
    rename_i job₁ job' f x
    refine hupdate hstanding fun hp hx => ?_
    -- The job that changed is the one that is locked, as both are active.
    have hsame : job = job₁ := hb.oneActive job (Db.mem_of_restoreJob hjob) job₁
      (Db.mem_of_restoreJob hjob') hp hactive hchange.isActive
    subst hsame
    generalize hbefore : e.before.standing job.projectId = y at hchange
    cases hchange with
    | claimed hcall hclaimable hstatus hresult => exact absurd (hclaim _ _ hcall) hlock
    | withdrawn hcall hlease hrequested =>
      obtain ⟨⟨status, g⟩, -, heq⟩ := Option.map_eq_some_iff.mp hx
      exact absurd (congrArg Prod.fst heq) status.reopened_ne
    | succeeded hcall hlease hrequested => cases hx
    | _ => exact ⟨generation, hx⟩

/-- A job that failed stays as it is. -/
theorem RestoreStep.failed {e : SyncEvent} (h : RestoreStep H e) (hb : e.before.JobsSound)
    {j : RestoreJob} (hj : j ∈ e.before.restoreJobs) (hstatus : j.status = .failed) :
    j ∈ e.after.restoreJobs := by
  cases h with
  | kept hjobs | created hjobs | disabled _ hjobs | reopened _ hjobs =>
    rw [hjobs]
    exact hj
  | enqueued _ hjobs =>
    rw [hjobs]
    exact List.mem_append_left _ hj
  | changed hlock hjob hf hjobs hstanding hchange =>
    rename_i job job' f x
    rw [hjobs, hb.mem_updateRestoreJob hjob]
    refine .inl ⟨hj, fun hid => ?_⟩
    -- The job that changed is active, and this one is not.
    obtain rfl : j = job := List.inj_on_of_nodup_map hb.ids hj (Db.mem_of_restoreJob hjob) hid
    have hactive := hchange.isActive
    unfold RestoreJob.isActive at hactive
    rw [hstatus] at hactive
    cases hactive

/-- What the calls rely on, they keep for each other. -/
theorem relies_jobs (host : Host) : (service host).Relies Db.JobsSound Db.JobRely where
  refl H _ hd := .refl hd H
  trans := Db.JobRely.trans
  anti := Db.JobRely.anti
  commit {q c r H b} _ hc h := by
    have hruns : Runs Db.Rely c (q.call.body host q.now) ∅ id (.ok r) H b :=
      h.mono fun _ _ h => h.rely
    have hsound := Call.sound hc.sound hruns
    have hstep := restoreStep_of_runs (t := 0) hc h
    refine ⟨hstep.jobsSound hc hsound, fun K hK => ?_⟩
    have hfree : ∀ l ∈ K, l ∉ H := fun l hl => Set.disjoint_left.mp hK hl
    have heffect : EventEffect host ⟨⟨q.now, q.call⟩, r, c, b c, 0⟩ :=
      eventEffect_of_outcome hc.sound ⟨H, b, .inl ⟨hruns, rfl⟩⟩
    have husers : (b c).users = c.users :=
      heffect.touches.users (by cases q.call <;> simp [Call.tables])
    exact ⟨(Call.moves hruns).rely hc.sound hK, hc, fun p hp => hstep.idle hc (hfree _ hp),
      fun job hlock hjob hactive generation => hstep.calm hc (hfree _ hlock) hjob hactive, husers,
      fun _ hj hstatus => hstep.failed hc hj hstatus⟩

/-- What a finished request did to the jobs and the projects. -/
theorem restoreStep_of_outcome {e : SyncEvent} (hb : e.before.JobsSound)
    (h : (service host).Outcome Db.JobRely e) : ∃ H, RestoreStep H e := by
  obtain ⟨H, b, ⟨hruns, hafter⟩ | ⟨_, -, -, hafter⟩⟩ := h
  · obtain ⟨⟨now, call⟩, result, before, after, clock⟩ := e
    simp only at hruns hafter hb
    subst hafter
    exact ⟨H, restoreStep_of_runs hb hruns⟩
  · exact ⟨H, .kept (by rw [hafter]) (by rw [hafter])⟩

/-- What a reopening did: it succeeded, or it left the database as it was. -/
theorem reopened_of_outcome {e : SyncEvent} (h : (service host).Outcome Db.JobRely e)
    {actorUserId p : Uuid} {reason requestId : String}
    (hcall : e.request.call = .reopenFailedRestore actorUserId p reason requestId) :
    (e.result.isOk = true ∧ ∃ generation, e.after.restoreJobs = e.before.restoreJobs ∧
      e.after.standing = Function.update e.before.standing p (some (.active, generation))) ∨
    (e.result.isOk = false ∧ e.after = e.before) := by
  obtain ⟨H, b, ⟨hruns, hafter⟩ | ⟨x, -, herror, hafter⟩⟩ := h
  · change Runs _ _ (e.request.call.body host e.request.now) ∅ id _ H b at hruns
    rw [hcall] at hruns
    obtain ⟨r, hrun, hr⟩ := runs_replying_iff.mp hruns
    obtain ⟨-, -, rfl, generation, -, hjobs, hstanding⟩ := runs_reopenFailedRestore
      (fun _ _ h => h.rely) (fun _ _ h => h.users) (fun _ _ h => h.failed) hrun
    rw [hafter, hr]
    exact .inl ⟨rfl, generation, hjobs, hstanding⟩
  · exact .inr ⟨by rw [herror]; rfl, hafter⟩

/-- What the renewal of a lease did: it succeeded, or it left the database as it was. -/
theorem renewed_of_outcome {e : SyncEvent} (h : (service host).Outcome Db.JobRely e)
    {jobId leaseToken : Uuid} (hcall : e.request.call = .renewRestoreLease jobId leaseToken) :
    (e.result.isOk = true ∧ e.after = e.before.updateRestoreJob jobId (·.renewed e.request.now)) ∨
      (e.result.isOk = false ∧ e.after = e.before) := by
  obtain ⟨H, b, ⟨hruns, hafter⟩ | ⟨x, -, herror, hafter⟩⟩ := h
  · change Runs _ _ (e.request.call.body host e.request.now) ∅ id _ H b at hruns
    rw [hcall] at hruns
    obtain ⟨r, hrun, hr⟩ := runs_replying_iff.mp hruns
    obtain ⟨o, _, _, hupdate, hend⟩ := runs_bind_ok_iff.mp hrun
    rw [hafter, hr]
    rcases runs_updateLeasedJob (fun _ _ h => h.rely) hupdate with
      ⟨rfl, rfl⟩ | ⟨job, -, rfl, rfl⟩
    · -- Without the lease the renewal is answered with a conflict.
      obtain ⟨hconflict, -, rfl⟩ := runs_pure_iff.mp hend
      cases hconflict
      exact .inr ⟨rfl, rfl⟩
    · obtain ⟨hdone, -, rfl⟩ := runs_pure_iff.mp hend
      cases hdone
      exact .inl ⟨rfl, rfl⟩
  · exact .inr ⟨by rw [herror]; rfl, hafter⟩

/-- Without jobs the jobs are sound. -/
theorem jobsSound_initial (users : List UserRow) : (Db.initial users).JobsSound :=
  ⟨sound_initial users, List.nodup_nil, fun _ hj => (nomatch hj), fun _ hj => (nomatch hj)⟩

/-- The trail of the service, with the jobs. -/
theorem reachable_jobs {users : List UserRow} {w : World Db Lock PersistenceError Reply Request}
    (hw : (service host).Reachable (.initial users) w) :
    (service host).Trail Db.JobsSound Db.JobRely (.initial users) w.history w.committed w.clock :=
  hw.trail (relies_jobs host) (jobsSound_initial users)

end

end TaskTipsCloud

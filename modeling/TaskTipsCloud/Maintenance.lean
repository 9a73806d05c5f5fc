import TaskTipsCloud.RestoreRuns

/-!
# Maintenance

A project in maintenance should have a restore that can still end, or that failed and can be
reopened; and while a restore runs, the project should not be active. Both hold in every run that
leaves out the steps named here, and each of these steps breaks one of them.
-/

namespace TaskTipsCloud

open Txn

/-! ## A way out of maintenance -/

/-- A job that a worker can end, or whose project an administrator can reopen. -/
def RestoreJob.OffersExit (j : RestoreJob) : Prop :=
  j.status = .queued ∨ j.status = .running ∨ j.status = .failed

/-- Every project in maintenance has a job that offers a way out. -/
def Db.NoOrphans (d : Db) : Prop :=
  ∀ p generation, d.standing p = some (.maintenance, generation) →
    ∃ j ∈ d.restoreJobs, j.projectId = p ∧ j.OffersExit

/-- The cancellation of a queued job whose project is in maintenance and has no failed job. The job
is cancelled: a call that is lost, or that looked for the job before it was queued again, leaves the
job as it is. -/
def CancelsLastExit (e : SyncEvent) : Prop :=
  ∃ userId p restoreId reason requestId job generation,
    e.request.call = .cancelRestore userId p restoreId reason requestId ∧
      ownedJob userId p restoreId e.before = some job ∧ job.status = .queued ∧
      e.after.restoreJob restoreId ≠ some job ∧
      e.before.standing p = some (.maintenance, generation) ∧
      ∀ j ∈ e.before.restoreJobs, j.projectId = p → j.status ≠ .failed

section

variable {host : Host} {H : Set Lock} {e : SyncEvent}

/-- The standing of a project after a request that updates one. -/
theorem standing_of_update {p q : Uuid} {x y : Option (ProjectStatus × ℤ)}
    (hstanding : e.after.standing = Function.update e.before.standing q x)
    (hafter : e.after.standing p = y) : p = q ∧ x = y ∨ p ≠ q ∧ e.before.standing p = y := by
  rw [hstanding] at hafter
  by_cases hq : p = q
  · subst hq
    rw [Function.update_self] at hafter
    exact .inl ⟨rfl, hafter⟩
  · rw [Function.update_of_ne hq] at hafter
    exact .inr ⟨hq, hafter⟩

/-- A job that changes still offers a way out, or it was cancelled in the queue, or its project is
not in maintenance. -/
theorem JobChange.offersExit {job job' : RestoreJob} {x x' : Option (ProjectStatus × ℤ)}
    (h : JobChange e job job' x x') : job'.OffersExit ∨
      (∃ reason requestId, e.request.call =
          .cancelRestore job.ownerUserId job.projectId job.id reason requestId ∧
        job.status = .queued ∧ x' = x) ∨
      ∀ generation, x' ≠ some (.maintenance, generation) := by
  cases h with
  | dequeued hcall hstatus => exact .inr (.inl ⟨_, _, hcall, hstatus, rfl⟩)
  | asked _ hstatus => exact .inl (.inr (.inl hstatus))
  | refused | abandoned => exact .inl (.inr (.inr rfl))
  | claimed => exact .inl (.inr (.inl rfl))
  | renewed _ hlease | snapshotted _ hlease => exact .inl (.inr (.inl hlease.1))
  | withdrawn =>
    refine .inr (.inr fun generation hx => ?_)
    obtain ⟨⟨status, g⟩, -, heq⟩ := Option.map_eq_some_iff.mp hx
    exact absurd (congrArg Prod.fst heq) status.reopened_ne
  | retried =>
    left
    unfold RestoreJob.retried RestoreJob.OffersExit
    dsimp only
    split
    · exact .inl rfl
    · exact .inr (.inr rfl)
  | succeeded => exact .inr (.inr nofun)

/-- A job that is cancelled in the queue is not as it was. -/
theorem JobChange.ne_of_queued {job job' : RestoreJob} {x x' : Option (ProjectStatus × ℤ)}
    (h : JobChange e job job' x x') (hqueued : job.status = .queued) {reason requestId : String}
    (hcall : e.request.call =
      .cancelRestore job.ownerUserId job.projectId job.id reason requestId) : job' ≠ job := by
  intro hsame
  cases h with
  | dequeued =>
    have hstatus := congrArg RestoreJob.status hsame
    rw [hqueued] at hstatus
    cases hstatus
  | asked _ hrunning =>
    rw [hqueued] at hrunning
    cases hrunning
  | _ => simp_all

/-- A request that does not cancel the last way out leaves one. -/
theorem RestoreStep.noOrphans (h : RestoreStep H e) (hb : e.before.JobsSound)
    (hcancel : ¬ CancelsLastExit e) (hout : e.before.NoOrphans) : e.after.NoOrphans := by
  intro p generation hafter
  cases h with
  | kept hjobs hstanding =>
    rw [hjobs]
    exact hout p generation (by rw [← hstanding, hafter])
  | enqueued hcall hjobs hfresh hlock hidle hbefore hstanding =>
    rw [hstanding] at hafter
    obtain ⟨j, hj, hp, hexit⟩ := hout p generation hafter
    exact ⟨j, by rw [hjobs]; exact List.mem_append_left _ hj, hp, hexit⟩
  | created hjobs hnone hstanding =>
    rcases standing_of_update hstanding hafter with ⟨-, hx⟩ | ⟨-, hbefore⟩
    · cases hx
    · rw [hjobs]
      exact hout p generation hbefore
  | disabled hcall hjobs hstanding =>
    rcases standing_of_update hstanding hafter with ⟨-, hx⟩ | ⟨-, hbefore⟩
    · obtain ⟨_, -, heq⟩ := Option.map_eq_some_iff.mp hx
      cases heq
    · rw [hjobs]
      exact hout p generation hbefore
  | reopened hcall hjobs hmaintenance hstanding =>
    rcases standing_of_update hstanding hafter with ⟨-, hx⟩ | ⟨-, hbefore⟩
    · cases hx
    · rw [hjobs]
      exact hout p generation hbefore
  | changed hlock hjob hf hjobs hstanding hchange =>
    rename_i job job' f x
    have hmem : ∀ j, j ∈ e.after.restoreJobs ↔
        j ∈ e.before.restoreJobs ∧ j.id ≠ job.id ∨ j = job' := fun j => by
      rw [hjobs, hb.mem_updateRestoreJob hjob, hf]
    rcases standing_of_update hstanding hafter with ⟨rfl, rfl⟩ | ⟨hne, hbefore⟩
    · -- The changed job still offers an exit, or was cancelled while it was queued, or its project
      -- left.
      rcases hchange.offersExit with hexit | ⟨reason, requestId, hcall, hqueued, hx⟩ | hx
      · exact ⟨job', (hmem job').mpr (.inr rfl), hchange.same.2, hexit⟩
      · -- This is not the last way out, so another job of the project has failed.
        have hfailed : ∃ j ∈ e.before.restoreJobs, j.projectId = job.projectId ∧
            j.status = .failed := by
          by_contra hnone
          push Not at hnone
          refine hcancel ⟨_, _, _, _, _, job, generation, hcall, ?_, hqueued, fun hsame => ?_,
            hx.symm, hnone⟩
          · unfold ownedJob
            rw [hjob]
            simp
          · rcases (hmem job).mp (Db.mem_of_restoreJob hsame) with ⟨-, hne⟩ | rfl
            · exact hne rfl
            · exact hchange.ne_of_queued hqueued hcall rfl
        obtain ⟨j, hj, hp, hstatus⟩ := hfailed
        refine ⟨j, (hmem j).mpr (.inl ⟨hj, fun hid => ?_⟩), hp, .inr (.inr hstatus)⟩
        have hsame : j = job :=
          List.inj_on_of_nodup_map hb.ids hj (Db.mem_of_restoreJob hjob) hid
        rw [hsame, hqueued] at hstatus
        cases hstatus
      · exact absurd rfl (hx generation)
    · obtain ⟨j, hj, hp, hexit⟩ := hout p generation hbefore
      refine ⟨j, (hmem j).mpr (.inl ⟨hj, fun hid => hne ?_⟩), hp, hexit⟩
      have hsame : j = job :=
        List.inj_on_of_nodup_map hb.ids hj (Db.mem_of_restoreJob hjob) hid
      rw [← hp, hsame]

/-- In a run that never cancels the last way out, every project in maintenance has one. -/
theorem no_orphans {users : List UserRow} {w : World Db Lock PersistenceError Reply Request}
    (hw : (service host).Reachable (.initial users) w)
    (hcancel : ∀ e ∈ w.history, ¬ CancelsLastExit e) : w.committed.NoOrphans := by
  refine (reachable_jobs hw).invariant
    (J := fun h s => (∀ e ∈ h, ¬ CancelsLastExit e) → s.NoOrphans) ?_ ?_ hcancel
  · intro _ p generation hp
    cases hp
  · intro h e _ _ _ hout hb _ ih hsteps
    obtain ⟨H, hstep⟩ := restoreStep_of_outcome hb hout
    refine hstep.noOrphans hb (hsteps e (by simp)) (ih fun e' he' => ?_)
    exact hsteps e' (List.mem_append_left _ he')

/-- A restore that is retried and then cancelled while it is queued again. -/
def retriedAndCancelled : List Request :=
  sampleSetup ++ [⟨1, .enqueueRestore ⟨1, 2, none, some 0, "undo", "r", 7⟩⟩,
    ⟨2, .claimRestoreJob [] 8⟩, ⟨3, .retryRestoreJobWithLease 7 8 "TEMPORARY"⟩,
    ⟨4, .cancelRestore 1 2 7 "no" "r"⟩]

/-- The cancelled restore leaves its project in maintenance with no way out. -/
theorem retriedAndCancelled_orphaned :
    ∃ w, (service sampleHost).Reachable sampleStart w ∧ ¬ w.committed.NoOrphans := by
  refine ⟨sampleWorld retriedAndCancelled, reachable_sampleWorld (by decide), fun hout => ?_⟩
  have hstanding : (sampleWorld retriedAndCancelled).committed.standing 2 =
      some (.maintenance, 1) := by decide +kernel
  have hjobs : ∀ j ∈ (sampleWorld retriedAndCancelled).committed.restoreJobs,
      j.status = .cancelled := by decide +kernel
  obtain ⟨j, hj, -, hexit⟩ := hout 2 1 hstanding
  rw [RestoreJob.OffersExit, hjobs j hj] at hexit
  rcases hexit with h | h | h <;> cases h

/-- A restore that fails. -/
def failedRestore : List Request :=
  sampleSetup ++ [⟨1, .enqueueRestore ⟨1, 2, none, some 0, "undo", "r", 7⟩⟩,
    ⟨2, .claimRestoreJob [] 8⟩, ⟨3, .failRestoreJobWithLease 7 8 "BROKEN"⟩]

/-- A restore that failed is a way out of maintenance. -/
theorem failedRestore_no_orphans : (sampleWorld failedRestore).committed.NoOrphans :=
  no_orphans (reachable_sampleWorld (by decide)) (by
    rintro e he ⟨_, _, _, _, _, _, _, hcall, -⟩
    have hmem := List.mem_map_of_mem (f := Request.call) (request_mem_of_sampleWorld he)
    rw [hcall] at hmem
    simp [failedRestore, sampleSetup] at hmem)

/-! ## Protection of a running restore -/

/-- The worker of a running job still has its lease at a time. -/
def RestoreJob.IsHeld (j : RestoreJob) (t : Timestamp) : Prop :=
  j.status = .running ∧ ∃ expiresAt, j.leaseExpiresAt = some expiresAt ∧ t ≤ expiresAt

/-- No project with a restore that runs under a valid lease is active. -/
def Db.Protected (d : Db) (t : Timestamp) : Prop :=
  ∀ j ∈ d.restoreJobs, j.IsHeld t →
    ∀ generation, d.standing j.projectId ≠ some (.active, generation)

/-- A request that makes an active project have a restore that runs under a valid lease: an
administrator reopens a project in maintenance that has a failed restore and one that runs, or a
worker renews the lease of a restore whose project was reopened. -/
inductive Exposes (e : SyncEvent) : Prop
  | reopens {actorUserId p : Uuid} {reason requestId : String} {generation : ℤ} {j : RestoreJob}
      (hcall : e.request.call = .reopenFailedRestore actorUserId p reason requestId)
      (hadmin : e.before.isAdmin actorUserId = true)
      (hmaintenance : e.before.standing p = some (.maintenance, generation))
      (hfailed : e.before.HasFailedRestore p)
      (hj : j ∈ e.before.restoreJobs) (hp : j.projectId = p) (hheld : j.IsHeld e.clock)
  | renews {jobId leaseToken : Uuid} {j : RestoreJob} {generation : ℤ}
      (hcall : e.request.call = .renewRestoreLease jobId leaseToken)
      (hj : leasedJob jobId leaseToken e.before = some j)
      (hactive : e.before.standing j.projectId = some (.active, generation))
      (hclock : e.clock ≤ e.request.now + restoreLease)

/-- A lease that is held later was held before. -/
theorem RestoreJob.IsHeld.anti {j : RestoreJob} {t t' : Timestamp} (h : j.IsHeld t') (ht : t ≤ t') :
    j.IsHeld t := by
  obtain ⟨hstatus, expiresAt, hexpires, hle⟩ := h
  exact ⟨hstatus, expiresAt, hexpires, ht.trans hle⟩

/-- A held job is active. -/
theorem RestoreJob.IsHeld.isActive {j : RestoreJob} {t : Timestamp} (h : j.IsHeld t) :
    j.isActive = true := by
  unfold RestoreJob.isActive
  rw [h.1]
  rfl

/-- A job that runs after it changed was running before under the same lease in a project of the
same standing, or its project is in maintenance, or its lease was renewed. -/
theorem JobChange.held {job job' : RestoreJob} {x x' : Option (ProjectStatus × ℤ)} {t : Timestamp}
    (h : JobChange e job job' x x') (hheld : job'.IsHeld t) :
    job.IsHeld t ∧ x' = x ∨ (∃ generation, x' = some (.maintenance, generation)) ∨
      ∃ leaseToken, e.request.call = .renewRestoreLease job.id leaseToken ∧
        job.HasLease leaseToken ∧ x' = x ∧ t ≤ e.request.now + restoreLease := by
  cases h with
  | dequeued | refused | withdrawn | abandoned | succeeded => cases hheld.1
  | asked _ hstatus => exact .inl ⟨⟨hstatus, hheld.2⟩, rfl⟩
  | claimed => exact .inr (.inl ⟨_, rfl⟩)
  | renewed hcall hlease =>
    obtain ⟨-, _, hexpires, hle⟩ := hheld
    obtain rfl := Option.some.inj hexpires
    exact .inr (.inr ⟨_, hcall, hlease, rfl, hle⟩)
  | snapshotted _ hlease => exact .inl ⟨⟨hlease.1, hheld.2⟩, rfl⟩
  | retried =>
    have hstatus := hheld.1
    unfold RestoreJob.retried at hstatus
    dsimp only at hstatus
    split at hstatus <;> cases hstatus

/-- A step that exposes no restore keeps every running restore protected. -/
theorem RestoreStep.protected {t : Timestamp} (h : RestoreStep H e) (hb : e.before.JobsSound)
    (hexposes : ¬ Exposes e) (ht : e.clock ≤ t) (hprotected : e.before.Protected t) :
    e.after.Protected t := by
  intro j hj hheld generation hafter
  cases h with
  | kept hjobs hstanding =>
    rw [hjobs] at hj
    exact hprotected j hj hheld generation (by rw [← hstanding, hafter])
  | enqueued hcall hjobs hfresh hlock hidle hbefore hstanding =>
    rw [hjobs] at hj
    rw [hstanding] at hafter
    rcases List.mem_append.mp hj with hj | hj
    · exact hprotected j hj hheld generation hafter
    · -- The new job is queued: nobody holds it.
      rw [List.mem_singleton.mp hj] at hheld
      cases hheld.1
  | created hjobs hnone hstanding =>
    rw [hjobs] at hj
    rcases standing_of_update hstanding hafter with ⟨hp, -⟩ | ⟨-, hbefore⟩
    · -- A project that was not there has no jobs.
      exact hb.owned j hj (hp ▸ hnone)
    · exact hprotected j hj hheld generation hbefore
  | disabled hcall hjobs hstanding =>
    rw [hjobs] at hj
    rcases standing_of_update hstanding hafter with ⟨-, hx⟩ | ⟨-, hbefore⟩
    · obtain ⟨_, -, heq⟩ := Option.map_eq_some_iff.mp hx
      cases heq
    · exact hprotected j hj hheld generation hbefore
  | reopened hcall hjobs hmaintenance hstanding hadmin hfailed =>
    rw [hjobs] at hj
    rcases standing_of_update hstanding hafter with ⟨hp, -⟩ | ⟨-, hbefore⟩
    · exact hexposes (.reopens hcall hadmin hmaintenance hfailed hj hp (hheld.anti ht))
    · exact hprotected j hj hheld generation hbefore
  | changed hlock hjob hf hjobs hstanding hchange =>
    rename_i job job' f x
    have hmem := Db.mem_of_restoreJob hjob
    rw [hjobs, hb.mem_updateRestoreJob hjob, hf] at hj
    rcases hj with ⟨hj, hne⟩ | rfl
    · -- Another running job is of another project.
      rcases standing_of_update hstanding hafter with ⟨hp, -⟩ | ⟨-, hbefore⟩
      · exact hne (congrArg _ (hb.oneActive j hj job hmem hp hheld.isActive hchange.isActive))
      · exact hprotected j hj hheld generation hbefore
    · rw [hchange.same.2] at hafter
      rcases standing_of_update hstanding hafter with ⟨-, rfl⟩ | ⟨hne, -⟩
      · -- The job was held before, or its project is in maintenance now, or its lease was renewed.
        rcases hchange.held hheld with
          ⟨hheld, hx⟩ | ⟨_, hx⟩ | ⟨leaseToken, hcall, hlease, hx, hle⟩
        · exact hprotected job hmem hheld generation hx.symm
        · cases hx
        · refine hexposes (.renews hcall ?_ hx.symm (ht.trans hle))
          unfold leasedJob
          rw [hjob, Option.filter_some, hlease.1, hlease.2]
          simp
      · exact hne rfl

/-- A request that would expose a restore, and that failed, left the database as it was. -/
theorem Exposes.unchanged (h : Exposes e) (hout : (service host).Outcome Db.JobRely e)
    (hfailed : e.result.isOk = false) : e.after = e.before := by
  cases h with
  | reopens hcall =>
    rcases reopened_of_outcome hout hcall with ⟨hok, -⟩ | ⟨-, hafter⟩
    · cases hok.symm.trans hfailed
    · exact hafter
  | renews hcall =>
    rcases renewed_of_outcome hout hcall with ⟨hok, -⟩ | ⟨-, hafter⟩
    · cases hok.symm.trans hfailed
    · exact hafter

/-- A request that exposes a restore, and that succeeded, leaves it without protection. -/
theorem Exposes.not_protected (h : Exposes e) (hb : e.before.JobsSound)
    (hout : (service host).Outcome Db.JobRely e) (hok : e.result.isOk = true) :
    ¬ e.after.Protected e.clock := by
  intro hprotected
  cases h with
  | reopens hcall hadmin hmaintenance hfailed hj hp hheld =>
    rename_i j
    rcases reopened_of_outcome hout hcall with ⟨-, generation, hjobs, hstanding⟩ | ⟨hnot, -⟩
    · refine hprotected j (hjobs ▸ hj) hheld generation ?_
      rw [hstanding, hp, Function.update_self]
    · cases hok.symm.trans hnot
  | renews hcall hj hactive hclock =>
    rename_i jobId leaseToken j generation
    rcases renewed_of_outcome hout hcall with ⟨-, hafter⟩ | ⟨hnot, -⟩
    · obtain ⟨rfl, hfind, hlease⟩ := hasLease_of_leasedJob hj
      refine hprotected (j.renewed e.request.now) ?_ ⟨hlease.1, _, rfl, hclock⟩ generation ?_
      · rw [hafter, hb.mem_updateRestoreJob hfind]
        exact .inr rfl
      · rw [hafter]
        exact hactive
    · cases hok.symm.trans hnot

/-- Along a trail that exposes no restore every running restore is protected. -/
theorem protected_of_trail {users : List UserRow} {s : Db} {h : List SyncEvent} {t : ℤ}
    (htr : (service host).Trail Db.JobsSound Db.JobRely (.initial users) h s t)
    (hexposes : ∀ e ∈ h, e.result.isOk = true → ¬ Exposes e) : s.Protected t := by
  refine htr.invariant (J := fun h s => (∀ e ∈ h, e.result.isOk = true → ¬ Exposes e) →
    ∀ t, (∀ e ∈ h, e.clock ≤ t) → s.Protected t) ?_ ?_ hexposes t htr.clock_le
  · intro _ _ _ j hj
    cases hj
  · intro h e _ _ _ hout hb _ ih hsteps t ht
    have hbefore : e.before.Protected t :=
      ih (fun e' he' => hsteps e' (List.mem_append_left _ he')) t fun e' he' =>
        ht e' (List.mem_append_left _ he')
    by_cases hexposes : Exposes e
    · -- It failed, so it changed nothing.
      rw [hexposes.unchanged hout
        (Bool.eq_false_iff.mpr fun hok => hsteps e (by simp) hok hexposes)]
      exact hbefore
    · obtain ⟨H, hstep⟩ := restoreStep_of_outcome hb hout
      exact hstep.protected hb hexposes (ht e (by simp)) hbefore

/-- A push that was executed, and not answered from a stored response. -/
def AcceptsPush (p : Uuid) (e : SyncEvent) : Prop :=
  ∃ a response, e.request.call = .pushWithOutcome a ∧ a.projectId = p ∧
    e.result = .ok (.pushed ⟨response, false⟩)

/-- A push is executed while its project is active. -/
theorem AcceptsPush.active {p : Uuid} (hpush : AcceptsPush p e)
    (hout : (service host).Outcome Db.Rely e) :
    ∃ generation, e.before.standing p = some (.active, generation) := by
  obtain ⟨a, response, hcall, rfl, hresult⟩ := hpush
  obtain ⟨H, b, ⟨hruns, hafter⟩ | ⟨_, -, herror, -⟩⟩ := hout
  · change Runs _ _ (e.request.call.body host e.request.now) ∅ id _ H b at hruns
    rw [hcall, hresult] at hruns
    obtain ⟨r, hrun, hr⟩ := runs_replying_iff.mp hruns
    cases r with
    | error => cases hr
    | ok outcome =>
      cases hr
      obtain ⟨d, -, hexecute⟩ := runs_pushWithOutcome hrun
      split at hexecute
      · -- A stored response is marked as replayed.
        unfold replayPush at hexecute
        split at hexecute
        · split at hexecute <;> cases (runs_pure_iff.mp hexecute).1
        · cases hexecute
      · have heffect : PushEffect host e.request.now a (e.before.withoutExpired e.request.now a)
            (.ok ⟨response, false⟩) (b e.before) :=
          runs_executePush (fun _ => rfl) (fun _ _ => rfl) hexecute
        generalize b e.before = d' at heffect
        cases heffect with
        | @applied row _ _ _ hrow hactive =>
          have hproject : e.before.project a.projectId = some row :=
            (visibleProject_eq_some_iff.mp hrow).1
          exact ⟨row.generation, by rw [Db.standing_of_project hproject, hactive]⟩
  · rw [hresult] at herror
    cases herror

/-- What maintenance promises for a run: no finished request leaves a project active that has a
restore under a valid lease, nor is it so now, and no push is executed while such a restore runs. -/
structure RestoresProtected (w : World Db Lock PersistenceError Reply Request) : Prop where
  left : ∀ e ∈ w.history, e.after.Protected e.clock
  now : w.committed.Protected w.clock
  pushes : ∀ e ∈ w.history, ∀ p, AcceptsPush p e →
    ∀ j ∈ e.before.restoreJobs, j.projectId = p → ¬ j.IsHeld e.clock

/-- In a run, restores are protected if and only if no request that succeeds exposes one. -/
theorem restores_protected_iff {users : List UserRow}
    {w : World Db Lock PersistenceError Reply Request}
    (hw : (service host).Reachable (.initial users) w) :
    RestoresProtected w ↔ ∀ e ∈ w.history, e.result.isOk = true → ¬ Exposes e := by
  have htr := reachable_jobs hw
  constructor
  · intro h e he hok hexposes
    obtain ⟨h₁, h₂, hsplit⟩ := List.append_of_mem he
    have hleft := h.left e he
    rw [hsplit] at htr
    obtain ⟨-, -, hout, hb, -⟩ := htr.split
    exact hexposes.not_protected hb hout hok hleft
  · intro hexposes
    refine ⟨fun e he => ?_, protected_of_trail htr hexposes, fun e he p hpush j hj hp hheld => ?_⟩
    · obtain ⟨h₁, h₂, hsplit⟩ := List.append_of_mem he
      rw [hsplit] at htr hexposes
      obtain ⟨htr₁, htime, hout, hb, ha, -⟩ := htr.split
      refine protected_of_trail (.snoc e htr₁ trivial htime hout hb ha) fun e' he' => hexposes e' ?_
      rw [List.mem_append, List.mem_singleton] at he'
      rcases he' with he' | rfl
      · exact List.mem_append_left _ he'
      · simp
    · obtain ⟨h₁, h₂, hsplit⟩ := List.append_of_mem he
      rw [hsplit] at htr hexposes
      obtain ⟨htr₁, -, hout, -⟩ := htr.split
      have hprotected := protected_of_trail htr₁ fun e' he' =>
        hexposes e' (List.mem_append_left _ he')
      obtain ⟨generation, hactive⟩ := hpush.active (.mono _ (fun _ _ hR => hR.rely) hout)
      exact hprotected j hj hheld generation (hp ▸ hactive)

/-- The accounts of the sample user and of an administrator. -/
def administeredStart : Db := .initial [⟨1, .user, .active⟩, ⟨9, .systemAdmin, .active⟩]

/-- A project whose first restore failed is reopened while its second one runs. -/
def reopenedWhileRunning : List Request :=
  failedRestore ++ [⟨4, .reopenFailedRestore 9 2 "checked" "r"⟩,
    ⟨5, .enqueueRestore ⟨1, 2, none, some 0, "undo", "r", 10⟩⟩, ⟨6, .claimRestoreJob [] 11⟩,
    ⟨7, .reopenFailedRestore 9 2 "again" "r"⟩]

/-- The second restore runs under a valid lease while its project is active. -/
theorem reopenedWhileRunning_exposed :
    ∃ w, (service sampleHost).Reachable administeredStart w ∧ ¬ RestoresProtected w := by
  let w := (service sampleHost).serve reopenedWhileRunning (Service.quiet administeredStart 0)
  refine ⟨w, Service.reachable_serve ⟨0, .refl⟩ (fun _ => rfl) _ (fun _ _ => trivial)
    (by decide), fun h => ?_⟩
  have hjob : w.committed.restoreJob 10 =
      some { (w.committed.restoreJob 10).get (by decide +kernel) with
        status := .running, leaseExpiresAt := some (6 + restoreLease), projectId := 2 } := by
    decide +kernel
  have hstanding : w.committed.standing 2 = some (.active, 1) := by decide +kernel
  refine h.now _ (Db.mem_of_restoreJob hjob) ⟨rfl, _, rfl, ?_⟩ 1 hstanding
  decide +kernel

/-- A restore that runs under a valid lease is protected. -/
theorem runningRestore_protected : RestoresProtected (sampleWorld (sampleSetup ++
    [⟨1, .enqueueRestore ⟨1, 2, none, some 0, "undo", "r", 7⟩⟩, ⟨2, .claimRestoreJob [] 8⟩])) := by
  refine (restores_protected_iff (reachable_sampleWorld (by decide))).mpr fun e he _ hexposes => ?_
  have hmem := List.mem_map_of_mem (f := Request.call) (request_mem_of_sampleWorld he)
  cases hexposes with
  | reopens hcall =>
    rw [hcall] at hmem
    simp [sampleSetup] at hmem
  | renews hcall =>
    rw [hcall] at hmem
    simp [sampleSetup] at hmem

end

end TaskTipsCloud

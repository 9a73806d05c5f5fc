import TaskTipsCloud.PurgeSteps

/-!
# What a call does to a background job

Each call of the service of purges, executed alone, leaves the background jobs, inserts one, or
changes one in a way that its status allows (`PurgeJobChange`).
-/

namespace TaskTipsCloud

open Txn

/-- The call that claims a job of a kind. -/
def JobKind.claimCall : JobKind → List Uuid → Uuid → PurgeCall
  | .projectPurge => .claimProjectPurgeJob
  | .accountPurge => .claimAccountPurgeJob

/-- An administrator asks for the export or the purge of an account, which would get this job. -/
def AsksForPurge (e : PurgeEvent) (jobId actorUserId : Uuid) : Prop :=
  ∃ subjectUserId exportId reason requestId,
    e.request.call =
        .requestAccountPurgeExport actorUserId subjectUserId jobId exportId reason requestId ∨
      e.request.call =
        .confirmAccountPurge actorUserId subjectUserId exportId jobId reason requestId

/-- What a call did to a background job. -/
inductive PurgeJobChange (e : PurgeEvent) (job : JobRow) : JobRow → Prop
  | claimed {kind : JobKind} {skipLocked : List Uuid} {leaseToken : Uuid}
      (hcall : e.request.call = kind.claimCall skipLocked leaseToken)
      (hnext : nextPurge kind e.request.now skipLocked e.before = some job)
      (hresult : e.result = .ok (.claimed (some (job.claimed e.request.now leaseToken)))) :
      PurgeJobChange e job (job.claimed e.request.now leaseToken)
  | renewed {leaseToken : Uuid} (hcall : e.request.call = .renewAccountPurgeLease job.id leaseToken)
      (hrunning : job.status = .running) :
      PurgeJobChange e job { job with leaseExpiresAt := some (e.request.now + purgeLease) }
  | retried {leaseToken : Uuid} {errorCode : String}
      (hcall : e.request.call = .failProjectPurge job.id leaseToken errorCode ∨
        e.request.call = .failAccountPurge job.id leaseToken errorCode)
      (hrunning : job.status = .running) :
      PurgeJobChange e job (job.retried e.request.now errorCode)
  | succeeded (hcall : ∀ kind skipLocked leaseToken,
        e.request.call ≠ JobKind.claimCall kind skipLocked leaseToken)
      (hrunning : job.status = .running) : PurgeJobChange e job (job.succeeded e.request.now)
  | detached {payload : Json} (hcall : ∀ kind skipLocked leaseToken,
        e.request.call ≠ JobKind.claimCall kind skipLocked leaseToken)
      (hrunning : job.status = .running) (hattached : isDetached job.payload = false)
      (hdetached : isDetached payload = true)
      (hpayload : job.kind = .accountPurge → ∃ exportId keys,
        payload = detachedPayload exportId keys) :
      PurgeJobChange e job { job with payload := payload }

/-- What a call did to the background jobs. -/
inductive PurgeJobsStep (e : PurgeEvent) : Prop
  | kept (hjobs : e.after.jobs = e.before.jobs)
  | inserted {job : JobRow} (hnew : e.before.job job.id = none) (hstatus : job.status = .queued)
      (hattempts : job.attempts = 0)
      (horigin : job.kind = .projectPurge ∧
        (∀ jobId actorUserId, ¬ AsksForPurge e jobId actorUserId) ∨
        ∃ actorUserId, AsksForPurge e job.id actorUserId ∧ job.RequestedBy actorUserId)
      (hjobs : e.after.jobs = e.before.jobs ++ [job])
  | changed {job job' : JobRow} {f : JobRow → JobRow} (hjob : e.before.job job.id = some job)
      (hf : f job = job') (hid : ∀ j, (f j).id = j.id)
      (hjobs : e.after.jobs = (e.before.updateJob job.id f).jobs)
      (hchange : PurgeJobChange e job job')

section

variable {α : Type} {host : Host} {e : PurgeEvent}

/-! ## Every call does one step -/

/-- A worker that holds a lease runs the job. -/
theorem status_of_leasedPurge {kind : JobKind} {now : Timestamp} {jobId leaseToken : Uuid}
    {d : PurgeDb} {job : JobRow} (h : leasedPurge kind now jobId leaseToken d = some job) :
    job.status = .running := by
  simp only [leasedPurge, runningPurge, Option.filter_eq_some_iff, Bool.and_eq_true,
    beq_iff_eq] at h
  exact h.1.2.1.2

/-- The next job to claim is due, and it is queued or its worker lost it. -/
theorem claimable_of_nextPurge {kind : JobKind} {now : Timestamp} {skipLocked : List Uuid}
    {d : PurgeDb} {job : JobRow} (h : nextPurge kind now skipLocked d = some job) :
    job ∈ d.jobs ∧ job.kind = kind ∧ (job.status = .queued ∨ job.status = .running) := by
  have hmem := (List.mem_insertionSort _).mp (List.mem_of_mem_head? h)
  rw [List.mem_filter, Bool.and_eq_true] at hmem
  obtain ⟨hmem, hclaimable, -⟩ := hmem
  simp only [JobRow.claimable, Bool.and_eq_true, Bool.or_eq_true, beq_iff_eq] at hclaimable
  exact ⟨hmem, hclaimable.1.1, hclaimable.2.imp id And.left⟩

/-- What a claim does. -/
theorem execute_claimPurge {kind : JobKind} {now : Timestamp} {skipLocked : List Uuid}
    {leaseToken : Uuid} {d : PurgeDb} : (claimPurge kind now skipLocked leaseToken).execute d =
      match nextPurge kind now skipLocked d with
      | none => (.ok none, d)
      | some job => (.ok (some (job.claimed now leaseToken)),
          d.updateJob job.id (·.claimed now leaseToken)) := by
  simp only [claimPurge, Txn.execute, bind_eq, query_bind, run_read]
  cases nextPurge kind now skipLocked d <;> rfl

/-- What a call that claims a job does. -/
theorem claim_alone {kind : JobKind} {skipLocked : List Uuid} {leaseToken : Uuid}
    {q : PurgeRequest} {d : PurgeDb} (he : e = (purgeService host).alone q d)
    (hcall : e.request.call = kind.claimCall skipLocked leaseToken) :
    (e.result, e.after) = match nextPurge kind e.request.now skipLocked e.before with
      | none => (.ok (.claimed none), e.before)
      | some job => (.ok (.claimed (some (job.claimed e.request.now leaseToken))),
          e.before.updateJob job.id (·.claimed e.request.now leaseToken)) := by
  have hboth : (e.result, e.after) =
      (purging .claimed (claimPurge kind e.request.now skipLocked leaseToken)).execute
        e.before := by
    have hbody : (e.result, e.after) =
        (e.request.call.body host e.request.now).execute e.before := by
      rw [he]
      rfl
    rw [hbody, hcall]
    cases kind <;> rfl
  rw [hboth, purging, execute_bind_map, execute_claimPurge]
  cases nextPurge kind e.request.now skipLocked e.before <;> rfl

/-- A call that claimed a job found it. -/
theorem next_of_claimed {kind : JobKind} {skipLocked : List Uuid} {leaseToken : Uuid}
    {q : PurgeRequest} {d : PurgeDb} {claimed : JobRow} (he : e = (purgeService host).alone q d)
    (hcall : e.request.call = kind.claimCall skipLocked leaseToken)
    (hresult : e.result = .ok (.claimed (some claimed))) :
    ∃ job, nextPurge kind e.request.now skipLocked e.before = some job ∧
      claimed = job.claimed e.request.now leaseToken ∧
        e.after = e.before.updateJob job.id (·.claimed e.request.now leaseToken) := by
  have hboth := claim_alone he hcall
  cases hnext : nextPurge kind e.request.now skipLocked e.before with
  | none =>
    rw [hnext, Prod.mk.injEq, hresult] at hboth
    cases hboth.1
  | some job =>
    rw [hnext, Prod.mk.injEq, hresult] at hboth
    cases hboth.1
    exact ⟨job, rfl, rfl, hboth.2⟩

/-- A call that did nothing left the jobs. -/
theorem purgeJobsStep_of_execute {reply : α → PurgeReply}
    {x : PurgeTx (Except PersistenceError α)}
    (hresult : e.result = ((purging reply x).execute e.before).1)
    (hafter : e.after = ((purging reply x).execute e.before).2)
    (hok : ∀ r d', x.run e.before = (.ok r, d') → e.result = r.map reply → e.after = d' →
      PurgeJobsStep e) : PurgeJobsStep e := by
  rcases returned_or_unchanged hresult hafter with ⟨r, d', hrun, hr, hd'⟩ | hsame
  · exact hok r d' hrun hr hd'
  · exact .kept (congrArg PurgeDb.jobs hsame)

/-- A change of a job that was found by its identifier. -/
theorem PurgeDb.Updates.jobsStep {jobId : Uuid} {job : JobRow} {f : JobRow → JobRow} {d' : PurgeDb}
    (h : e.before.Updates jobId f d') (hafter : e.after = d') (hjob : e.before.job jobId = some job)
    (hid : ∀ j, (f j).id = j.id) (hchange : job.id = jobId → PurgeJobChange e job (f job)) :
    PurgeJobsStep e := by
  obtain rfl := PurgeDb.id_of_job hjob
  exact .changed hjob rfl hid (hafter ▸ h.jobs) (hchange rfl)

/-- A claim changes the job that it found. -/
theorem jobsStep_of_claim {kind : JobKind} {skipLocked : List Uuid} {leaseToken : Uuid}
    (hids : (e.before.jobs.map (·.id)).Nodup)
    (hcall : e.request.call = kind.claimCall skipLocked leaseToken)
    (hresult : e.result =
      ((purging .claimed (claimPurge kind e.request.now skipLocked leaseToken)).execute e.before).1)
    (hafter : e.after =
      ((purging .claimed (claimPurge kind e.request.now skipLocked leaseToken)).execute
          e.before).2) :
    PurgeJobsStep e := by
  refine purgeJobsStep_of_execute hresult hafter fun r d' hrun hr hafter => ?_
  rcases run_claimPurge hrun with ⟨-, rfl⟩ | ⟨job, hnext, rfl, rfl⟩
  · exact .kept (congrArg PurgeDb.jobs hafter)
  · have hjob : e.before.job job.id = some job :=
      find?_key_eq hids (claimable_of_nextPurge hnext).1
    exact .changed (f := (·.claimed e.request.now leaseToken)) hjob rfl (fun _ => rfl)
      (congrArg PurgeDb.jobs hafter) (.claimed hcall hnext hr)

/-- A new account purge is inserted for the administrator who asked. -/
theorem PurgeDb.Queues.jobsStep {actorUserId jobId : Uuid} {d' : PurgeDb}
    (h : e.before.Queues e.request.now actorUserId jobId d') (hafter : e.after = d')
    (hasks : AsksForPurge e jobId actorUserId) : PurgeJobsStep e := by
  rcases h with hjobs | ⟨subjectUserId, payload, hnew, hrequested, hjobs⟩
  · exact .kept (hafter ▸ hjobs)
  · exact @PurgeJobsStep.inserted e
      (.new jobId .accountPurge subjectUserId none payload e.request.now) hnew rfl rfl
        (.inr ⟨actorUserId, hasks, hrequested⟩) (hafter ▸ hjobs)

/-- Every call that is executed alone does one step. -/
theorem purgeJobsStep_alone (host : Host) (q : PurgeRequest) {d : PurgeDb}
    (hids : (d.jobs.map (·.id)).Nodup) : PurgeJobsStep ((purgeService host).alone q d) := by
  obtain ⟨now, call⟩ := q
  generalize he : (purgeService host).alone ⟨now, call⟩ d = e
  have hrequest : e.request = ⟨now, call⟩ := by rw [← he]; rfl
  have hresult : e.result = ((call.body host now).execute e.before).1 := by rw [← he]; rfl
  have hafter : e.after = ((call.body host now).execute e.before).2 := by rw [← he]; rfl
  replace hids : (e.before.jobs.map (·.id)).Nodup := by rw [← he]; exact hids
  have hcall : e.request.call = call := by rw [hrequest]
  have hnot : (∀ kind skipLocked leaseToken, call ≠ JobKind.claimCall kind skipLocked leaseToken) →
      ∀ kind skipLocked leaseToken, e.request.call ≠ JobKind.claimCall kind skipLocked leaseToken :=
    hcall ▸ id
  obtain rfl : e.request.now = now := by rw [hrequest]
  cases call with
  | sync call =>
    rw [execute_sync] at hafter
    exact .kept ((congrArg PurgeDb.jobs hafter).trans rfl)
  | enqueueProjectPurge userId p jobId reason requestId =>
    refine purgeJobsStep_of_execute hresult hafter fun r d' hrun _ hafter => ?_
    obtain ⟨hnew, row, event, -, -, rfl⟩ := run_enqueueProjectPurge hrun
    -- The purge of a project is asked for by its owner and needs no administrator.
    refine @PurgeJobsStep.inserted e (.new jobId .projectPurge userId (some p)
      (.obj [("reason", .str reason), ("requestedBy", userId.toJson)]) e.request.now)
      hnew rfl rfl (.inl ⟨rfl, ?_⟩) (congrArg PurgeDb.jobs hafter)
    rintro _ _ ⟨_, _, _, _, hasks | hasks⟩ <;> exact nomatch hcall.symm.trans hasks
  | claimProjectPurgeJob skipLocked leaseToken =>
    exact @jobsStep_of_claim e .projectPurge _ _ hids hcall hresult hafter
  | claimAccountPurgeJob skipLocked leaseToken =>
    exact @jobsStep_of_claim e .accountPurge _ _ hids hcall hresult hafter
  | prepareProjectPurge order jobId leaseToken =>
    refine purgeJobsStep_of_execute hresult hafter fun r d' hrun _ hafter => ?_
    -- A job whose rows are gone already is answered from its payload.
    obtain ⟨job, p, hjob, hp, ⟨-, rfl⟩ | ⟨hattached, keys, rfl⟩⟩ := run_prepareProjectPurge hrun
    · exact .kept (congrArg PurgeDb.jobs hafter)
    · obtain ⟨hfound, hkind⟩ := job_of_leasedPurge hjob
      obtain rfl := PurgeDb.id_of_job hfound
      refine .changed (f := fun j => { j with payload := detachedProject keys }) hfound rfl
        (fun _ => rfl) ((congrArg PurgeDb.jobs hafter).trans rfl)
        (.detached (hnot ?_) (status_of_leasedPurge hjob) hattached rfl fun haccount => ?_)
      · rintro (_ | _) <;> nofun
      · cases hkind.symm.trans haccount
  | completeProjectPurge jobId leaseToken =>
    refine purgeJobsStep_of_execute hresult hafter fun r d' hrun _ hafter => ?_
    obtain ⟨job, hjob, hupdates⟩ := run_completeProjectPurge hrun
    refine hupdates.jobsStep hafter (job_of_leasedPurge hjob).1 (fun _ => rfl) fun _ =>
      .succeeded (hnot ?_) (status_of_leasedPurge hjob)
    rintro (_ | _) <;> nofun
  | failProjectPurge jobId leaseToken errorCode =>
    refine purgeJobsStep_of_execute hresult hafter fun r d' hrun _ hafter => ?_
    obtain ⟨job, hjob, hrunning, hupdates⟩ := run_failProjectPurge hrun
    refine hupdates.jobsStep hafter hjob (fun _ => rfl) fun hid => ?_
    subst hid
    exact .retried (.inl hcall) hrunning
  | requestAccountPurgeExport actorUserId subjectUserId jobId exportId reason requestId =>
    refine purgeJobsStep_of_execute hresult hafter fun r d' hrun _ hafter => ?_
    exact (run_requestAccountPurgeExport hrun).2.jobsStep hafter
      ⟨subjectUserId, exportId, reason, requestId, .inl hcall⟩
  | confirmAccountPurge actorUserId subjectUserId exportId jobId reason requestId =>
    refine purgeJobsStep_of_execute hresult hafter fun r d' hrun _ hafter => ?_
    exact (run_confirmAccountPurge hrun).2.jobsStep hafter
      ⟨subjectUserId, exportId, reason, requestId, .inr hcall⟩
  | accountPurgePhase =>
    refine purgeJobsStep_of_execute hresult hafter fun r d' hrun _ hafter => ?_
    obtain ⟨-, -, -, rfl⟩ := run_accountPurgePhase hrun
    exact .kept (congrArg PurgeDb.jobs hafter)
  | renewAccountPurgeLease jobId leaseToken =>
    refine purgeJobsStep_of_execute hresult hafter fun r d' hrun _ hafter => ?_
    obtain ⟨job, hjob, hupdates⟩ := run_renewAccountPurgeLease hrun
    refine hupdates.jobsStep hafter (job_of_leasedPurge hjob).1 (fun _ => rfl) fun hid => ?_
    exact .renewed (hid ▸ hcall) (status_of_leasedPurge hjob)
  | completeAccountExport jobId leaseToken exportId contentHash size =>
    refine purgeJobsStep_of_execute hresult hafter fun r d' hrun _ hafter => ?_
    obtain ⟨job, event, hjob, -, -, -, hupdates⟩ := run_completeAccountExport hrun
    refine hupdates.jobsStep hafter (job_of_leasedPurge hjob).1 (fun _ => rfl) fun _ =>
      .succeeded (hnot ?_) (status_of_leasedPurge hjob)
    rintro (_ | _) <;> nofun
  | prepareAccountPurge jobId leaseToken =>
    refine purgeJobsStep_of_execute hresult hafter fun r d' hrun _ hafter => ?_
    obtain ⟨job, hjob, ⟨-, -, rfl⟩ | ⟨hattached, exportId, keys, devices, rfl, rfl⟩⟩ :=
      run_prepareAccountPurge hrun
    · exact .kept (congrArg PurgeDb.jobs hafter)
    · obtain ⟨hfound, hkind⟩ := job_of_leasedPurge hjob
      obtain rfl := PurgeDb.id_of_job hfound
      refine .changed (f := fun j => { j with payload := detachedPayload exportId keys }) hfound rfl
        (fun _ => rfl) ((congrArg PurgeDb.jobs hafter).trans rfl)
        (.detached (hnot ?_) (status_of_leasedPurge hjob) hattached rfl fun _ => ⟨_, _, rfl⟩)
      rintro (_ | _) <;> nofun
  | completeAccountPurge jobId leaseToken =>
    refine purgeJobsStep_of_execute hresult hafter fun r d' hrun _ hafter => ?_
    obtain ⟨job, event, hjob, -, -, -, hupdates⟩ := run_completeAccountPurge hrun
    refine hupdates.jobsStep hafter (job_of_leasedPurge hjob).1 (fun _ => rfl) fun _ =>
      .succeeded (hnot ?_) (status_of_leasedPurge hjob)
    rintro (_ | _) <;> nofun
  | failAccountPurge jobId leaseToken errorCode =>
    refine purgeJobsStep_of_execute hresult hafter fun r d' hrun _ hafter => ?_
    obtain ⟨job, hjob, hupdates⟩ := run_failAccountPurge hrun
    obtain ⟨hfound, hrunning⟩ := Option.filter_eq_some_iff.mp hjob
    simp only [Bool.and_eq_true, beq_iff_eq] at hrunning
    refine hupdates.jobsStep hafter hfound (fun _ => rfl) fun hid => ?_
    subst hid
    exact .retried (.inr hcall) hrunning.1.2
  | expireAccountPurgeExports =>
    refine purgeJobsStep_of_execute hresult hafter fun r d' hrun _ hafter => ?_
    -- The statement is always refused.
    rw [run_expireAccountPurgeExports] at hrun
    cases hrun

/-! ## One job -/

/-- A job stays, or one call changes it. -/
theorem PurgeJobsStep.job (h : PurgeJobsStep e) {i : Uuid} {j : JobRow}
    (hj : e.before.job i = some j) :
    ∃ j', e.after.job i = some j' ∧ (j' = j ∨ PurgeJobChange e j j') := by
  cases h with
  | kept hjobs =>
    refine ⟨j, ?_, .inl rfl⟩
    rw [PurgeDb.job, hjobs]
    exact hj
  | inserted hnew hstatus hattempts horigin hjobs =>
    refine ⟨j, ?_, .inl rfl⟩
    rw [PurgeDb.job, hjobs, List.find?_append,
      show e.before.jobs.find? (·.id == i) = some j from hj, Option.some_or]
  | changed hjob hf hid hjobs hchange =>
    rename_i job job' f
    have hafter : e.after.job i = some (if j.id == job.id then f j else j) := by
      have hupdated := @PurgeDb.job_updateJob e.before job.id f hid i
      rw [hj] at hupdated
      rw [PurgeDb.job, hjobs]
      exact hupdated
    refine ⟨_, hafter, ?_⟩
    by_cases hsame : j.id = job.id
    · obtain rfl := PurgeDb.id_of_job hj
      rw [hsame] at hj
      cases hj.symm.trans hjob
      rw [if_pos (beq_self_eq_true _), hf]
      exact .inr hchange
    · rw [if_neg fun h => hsame (beq_iff_eq.mp h)]
      exact .inl rfl

/-- The identifiers of the jobs stay distinct. -/
theorem PurgeJobsStep.ids (hstep : PurgeJobsStep e) (hids : (e.before.jobs.map (·.id)).Nodup) :
    (e.after.jobs.map (·.id)).Nodup := by
  cases hstep with
  | kept hjobs => rwa [hjobs]
  | inserted hnew hstatus hattempts horigin hjobs =>
    rw [hjobs, List.map_append, List.map_singleton]
    refine List.nodup_append.mpr ⟨hids, List.nodup_singleton _, fun x hx y hy hxy => ?_⟩
    obtain ⟨j, hj, rfl⟩ := List.mem_map.mp hx
    rw [List.mem_singleton.mp hy] at hxy
    exact List.find?_eq_none.mp hnew j hj (by simpa using hxy)
  | changed hjob hf hid hjobs hchange =>
    rw [hjobs, PurgeDb.ids_updateJob hid]
    exact hids

/-- A job that was not there is new. -/
theorem PurgeJobsStep.new (h : PurgeJobsStep e) {i : Uuid} {j : JobRow}
    (hnone : e.before.job i = none) (hj : e.after.job i = some j) :
    j.id = i ∧ j.status = .queued ∧ j.attempts = 0 ∧
      (j.kind = .projectPurge ∧ (∀ jobId actorUserId, ¬ AsksForPurge e jobId actorUserId) ∨
        ∃ actorUserId, AsksForPurge e i actorUserId ∧ j.RequestedBy actorUserId) := by
  cases h with
  | kept hjobs =>
    rw [PurgeDb.job, hjobs] at hj
    exact nomatch hnone.symm.trans hj
  | inserted hnew hstatus hattempts horigin hjobs =>
    rename_i job
    rw [PurgeDb.job, hjobs, List.find?_append,
      show e.before.jobs.find? (·.id == i) = none from hnone, Option.none_or] at hj
    have hid : j.id = i := by simpa using List.find?_some hj
    obtain rfl := List.mem_singleton.mp (List.mem_of_find?_eq_some hj)
    subst hid
    exact ⟨rfl, hstatus, hattempts, horigin⟩
  | changed hjob hf hid hjobs hchange =>
    rename_i job job' f
    have hupdated := @PurgeDb.job_updateJob e.before job.id f hid i
    rw [hnone] at hupdated
    rw [PurgeDb.job, hjobs] at hj
    exact nomatch hupdated.symm.trans hj

end

end TaskTipsCloud

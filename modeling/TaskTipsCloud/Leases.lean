import TaskTipsCloud.RestoreRuns

/-!
# Leases of restore jobs

A worker holds a job while the lease token that it drew is the one of the job. Whoever holds an
older one can no longer change the job or its project. Each job succeeds at most once, and the
generation of a project counts the jobs of it that succeeded.
-/

namespace TaskTipsCloud

open Txn

/-- The job and the lease token that a call of a worker names. -/
def Call.lease : Call → Option (Uuid × Uuid)
  | .renewRestoreLease jobId leaseToken | .createPreRestoreSnapshot _ _ jobId leaseToken _
  | .markSnapshotReadyForJob jobId leaseToken _ _ _
  | .executeRestoreWithLease _ _ jobId leaseToken | .cancelRestoreWithLease jobId leaseToken
  | .failRestoreJobWithLease jobId leaseToken _
  | .retryRestoreJobWithLease jobId leaseToken _ => some (jobId, leaseToken)
  | _ => none

/-! ## Old leases -/

section

variable {host : Host} {H : Set Lock} {e : SyncEvent}

/-- A call of a worker changes more than a snapshot only while the worker holds the job. -/
theorem leased_or_touches {jobId leaseToken : Uuid}
    (hlease : e.request.call.lease = some (jobId, leaseToken)) (hb : e.before.JobsSound)
    (hout : (service host).Outcome Db.JobRely e) :
    (∃ job, leasedJob jobId leaseToken e.before = some job) ∨
      e.before.Touches [.snapshots] e.after := by
  obtain ⟨H, b, ⟨hruns, hafter⟩ | ⟨_, -, -, hafter⟩⟩ := hout
  · have hruns : Runs Db.Rely e.before (e.request.call.body host e.request.now) ∅ id (.ok e.result)
        H b := hruns.mono fun _ _ h => h.rely
    rw [hafter]
    generalize e.request.call = call at hlease hruns
    have hupdated : ∀ {f : RestoreJob → RestoreJob} {r : Option RestoreJob} {K : Set Lock},
        Runs Db.Rely e.before (updateLeasedJob jobId leaseToken f) ∅ id (.ok r) K b →
        (∃ job, leasedJob jobId leaseToken e.before = some job) ∨
          e.before.Touches [.snapshots] (b e.before) := by
      intro f r K h
      -- The update finds the job under its lease, or it finds nothing and changes nothing.
      rcases runs_updateLeasedJob (fun _ _ h => h) h with ⟨-, rfl⟩ | ⟨job, hjob, -, -⟩
      · exact .inr .rfl
      · exact .inl ⟨job, hjob⟩
    cases call with
    | renewRestoreLease =>
      cases hlease
      obtain ⟨_, hrun, -⟩ := runs_replying_iff.mp hruns
      obtain ⟨o, _, b₁, hupdate, hend⟩ := runs_bind_ok_iff.mp hrun
      have hb : b₁ = b := by cases o <;> exact (runs_pure_iff.mp hend).2.2
      subst hb
      exact hupdated hupdate
    | createPreRestoreSnapshot =>
      cases hlease
      obtain ⟨_, hrun, -⟩ := runs_replying_iff.mp hruns
      obtain ⟨job, row, manifest, d, hjob, -⟩ := runs_createPreRestoreSnapshot (fun _ _ h => h) hrun
      exact .inl ⟨job, hjob⟩
    -- This call asks for the lease too, but changes nothing but the snapshot.
    | markSnapshotReadyForJob => exact .inr (Call.quiet rfl hruns).2
    | executeRestoreWithLease =>
      cases hlease
      obtain ⟨_, hrun, -⟩ := runs_replying_iff.mp hruns
      have heffect := (runs_executeRestoreWithLease (fun _ _ h => h) hb.sound.coherent hrun).2
      generalize b e.before = d' at heffect
      obtain ⟨hjob, -⟩ := heffect
      exact .inl ⟨_, hjob⟩
    | cancelRestoreWithLease =>
      cases hlease
      obtain ⟨_, hrun, -⟩ := runs_replying_iff.mp hruns
      obtain ⟨job, hjob, -⟩ := runs_cancelRestoreWithLease (fun _ _ h => h) hrun
      exact .inl ⟨job, hjob⟩
    | failRestoreJobWithLease =>
      cases hlease
      obtain ⟨_, hrun, -⟩ := runs_replying_iff.mp hruns
      simp only [failRestoreJobWithLease, discard_eq, bind_eq, runs_bind_ok_iff, pure_eq,
        runs_pure_iff] at hrun
      obtain ⟨_, _, _, ⟨o, _, _, hupdate, -, -, rfl⟩, -, -, rfl⟩ := hrun
      exact hupdated hupdate
    | retryRestoreJobWithLease =>
      cases hlease
      obtain ⟨_, hrun, -⟩ := runs_replying_iff.mp hruns
      obtain ⟨o, _, b₁, hupdate, hend⟩ := runs_bind_ok_iff.mp hrun
      have hb : b₁ = b := by cases o <;> exact (runs_pure_iff.mp hend).2.2
      subst hb
      exact hupdated hupdate
    | _ => cases hlease
  · exact .inr (hafter ▸ .rfl)

/-- The lease token of a claim that found a job. -/
def claimToken (e : SyncEvent) : Option Uuid :=
  match e.request.call, e.result with
  | .claimRestoreJob _ leaseToken, .ok (.claimed (some _)) => some leaseToken
  | _, _ => none

/-- The token of a job changes only when a worker claims the job. -/
theorem JobChange.leaseToken {job job' : RestoreJob} {x x' : Option (ProjectStatus × ℤ)}
    (h : JobChange e job job' x x') : job'.leaseToken = job.leaseToken ∨ job'.leaseToken = none ∨
      ∃ leaseToken, claimToken e = some leaseToken ∧ job'.leaseToken = some leaseToken := by
  cases h with
  | claimed hcall _ _ hresult =>
    refine .inr (.inr ⟨_, ?_, rfl⟩)
    unfold claimToken
    rw [hcall, hresult]
  | withdrawn | abandoned | retried | succeeded => exact .inr (.inl rfl)
  | _ => exact .inl rfl

/-- A worker claimed a job with a lease token. -/
def Claims (jobId leaseToken : Uuid) (e : SyncEvent) : Prop :=
  ∃ skipLocked job, e.request.call = .claimRestoreJob skipLocked leaseToken ∧
    e.result = .ok (.claimed (some job)) ∧ job.id = jobId

/-- What a claim did to the job that it found. -/
theorem Claims.job {jobId leaseToken : Uuid} (h : Claims jobId leaseToken e)
    (hout : (service host).Outcome Db.JobRely e) :
    ∃ job generation, e.before.restoreJob jobId = some job ∧
      job.claimable e.request.now = true ∧
        e.after.restoreJob jobId = some (job.claimed e.request.now generation leaseToken) := by
  obtain ⟨skipLocked, claimed, hcall, hresult, rfl⟩ := h
  obtain ⟨H, b, ⟨hruns, hafter⟩ | ⟨_, -, herror, -⟩⟩ := hout
  · change Runs _ _ (e.request.call.body host e.request.now) ∅ id _ H b at hruns
    rw [hcall, hresult] at hruns
    obtain ⟨r, hrun, hr⟩ := runs_replying_iff.mp hruns
    rcases runs_claimRestoreJob (fun _ _ h => h.rely) hrun with ⟨-, rfl⟩ |
      ⟨job, f, -, hfind, hclaimable, hjobs, ⟨-, rfl, -⟩ | ⟨status, generation, rfl, rfl, -⟩⟩
    · cases hr
    · cases hr
    · cases hr
      refine ⟨job, generation, hfind, hclaimable, ?_⟩
      have hupdated := @Db.restoreJob_updateRestoreJob e.before job.id
        (·.claimed e.request.now generation leaseToken) fun _ => rfl
      rw [hfind] at hupdated
      rw [hafter]
      unfold Db.restoreJob at hupdated ⊢
      rw [hjobs]
      exact hupdated
  · rw [hresult] at herror
    cases herror

/-- A job that is claimed has the token of the claim. -/
theorem Claims.leaseToken {jobId leaseToken : Uuid} (h : Claims jobId leaseToken e)
    (hout : (service host).Outcome Db.JobRely e) :
    ∃ job, e.after.restoreJob jobId = some job ∧ job.leaseToken = some leaseToken := by
  obtain ⟨job, generation, -, -, hafter⟩ := h.job hout
  exact ⟨_, hafter, rfl⟩

/-- A job loses an old token for good: no later claim draws it again. -/
theorem not_leased_of_trail {s₀ s : Db} {h : List SyncEvent} {t : ℤ}
    (htr : (service host).Trail Db.JobsSound Db.JobRely s₀ h s t) {jobId old : Uuid}
    (hold : ∀ e ∈ h, claimToken e ≠ some old)
    (hstart : ∃ job, s₀.restoreJob jobId = some job ∧ job.leaseToken ≠ some old) :
    ∃ job, s.restoreJob jobId = some job ∧ job.leaseToken ≠ some old := by
  refine htr.invariant (J := fun h s => (∀ e ∈ h, claimToken e ≠ some old) →
    ∃ job, s.restoreJob jobId = some job ∧ job.leaseToken ≠ some old) (fun _ => hstart) ?_ hold
  intro h e _ _ _ hout hb _ ih hold
  obtain ⟨job, hjob, hne⟩ := ih fun e' he' => hold e' (List.mem_append_left _ he')
  obtain ⟨H, hstep⟩ := restoreStep_of_outcome hb hout
  rcases hstep.restoreJob hb hjob with hkept | ⟨job', hjob', hchange⟩
  · exact ⟨job, hkept, hne⟩
  · refine ⟨job', hjob', ?_⟩
    rcases hchange.leaseToken with hsame | hnone | ⟨leaseToken, hclaim, htoken⟩
    · rwa [hsame]
    · rw [hnone]
      exact nofun
    · rw [htoken, ← hclaim]
      exact hold e (by simp)

/-- A call with an old token changes at most a snapshot. -/
theorem touches_of_old {jobId old : Uuid} {job : RestoreJob}
    (hlease : e.request.call.lease = some (jobId, old)) (hb : e.before.JobsSound)
    (hout : (service host).Outcome Db.JobRely e) (hjob : e.before.restoreJob jobId = some job)
    (hne : job.leaseToken ≠ some old) : e.before.Touches [.snapshots] e.after := by
  rcases leased_or_touches hlease hb hout with ⟨job', hjob'⟩ | htouches
  · obtain ⟨rfl, hfind, hhas⟩ := hasLease_of_leasedJob hjob'
    rw [hfind] at hjob
    cases hjob
    exact absurd hhas.2 hne
  · exact htouches

/-! ## One success a job -/

/-- A restore that was executed. -/
def Executes (jobId : Uuid) (e : SyncEvent) : Prop :=
  (∃ targetOrder currentOrder leaseToken, e.request.call =
    .executeRestoreWithLease targetOrder currentOrder jobId leaseToken) ∧ e.result = .ok .done

/-- A job that is executed was running, and has succeeded. -/
theorem Executes.job {jobId : Uuid} (h : Executes jobId e) (hb : e.before.JobsSound)
    (hout : (service host).Outcome Db.JobRely e) :
    (∃ job, e.before.restoreJob jobId = some job ∧ job.status = .running) ∧
      ∃ job, e.after.restoreJob jobId = some job ∧ job.status = .succeeded := by
  obtain ⟨⟨targetOrder, currentOrder, leaseToken, hcall⟩, hresult⟩ := h
  have heffect := restoreEffect_of_outcome hb.sound (.mono _ (fun _ _ hR => hR.rely) hout) hcall
    hresult
  generalize hafter : e.after = d' at heffect
  obtain ⟨hjob, -⟩ := heffect
  rename_i job row target rs hrow hstatus htarget hall hitems
  obtain ⟨rfl, hfind, hlease⟩ := hasLease_of_leasedJob hjob
  refine ⟨⟨job, hfind, hlease.1⟩, ?_⟩
  generalize List.foldl _ _ _ = counts
  have hjobs : ((e.before.appendAll e.request.now rs).finished e.request.now job row.generation
      counts).restoreJobs = (e.before.updateRestoreJob job.id
        (·.succeeded e.request.now (row.generation + 1) counts)).restoreJobs := by
    rw [Db.appendAll_eq]
    rfl
  have hupdated := @Db.restoreJob_updateRestoreJob e.before job.id
    (·.succeeded e.request.now (row.generation + 1) counts) fun _ => rfl
  rw [hfind] at hupdated
  refine ⟨job.succeeded e.request.now (row.generation + 1) counts, ?_, rfl⟩
  unfold Db.restoreJob at hupdated ⊢
  rw [hjobs]
  exact hupdated

/-- A job that has ended stays as it is. -/
theorem ended_of_trail {s₀ s : Db} {h : List SyncEvent} {t : ℤ}
    (htr : (service host).Trail Db.JobsSound Db.JobRely s₀ h s t) {jobId : Uuid}
    {job : RestoreJob} (hjob : s₀.restoreJob jobId = some job) (hended : job.isActive = false) :
    s.restoreJob jobId = some job := by
  refine htr.invariant (J := fun _ s => s.restoreJob jobId = some job) hjob ?_
  intro h e _ _ _ hout hb _ ih
  obtain ⟨H, hstep⟩ := restoreStep_of_outcome hb hout
  rcases hstep.restoreJob hb ih with hkept | ⟨job', -, hchange⟩
  · exact hkept
  · cases hended.symm.trans hchange.isActive

/-! ## Counting the restores -/

/-- How many restores of a project have succeeded. -/
def Db.succeededJobs (d : Db) (p : Uuid) : ℕ :=
  d.restoreJobs.countP fun j => j.projectId == p && j.status == .succeeded

/-- What the jobs say of the generation of their projects. -/
structure Db.JobsCounted (d : Db) : Prop where
  /-- The generation of a project counts its restores. -/
  counted : ∀ p status generation, d.standing p = some (status, generation) →
    generation = 1 + d.succeededJobs p
  /-- A job that was claimed knows a generation. -/
  begun : ∀ j ∈ d.restoreJobs, j.status = .running → j.generationBefore ≠ none
  /-- It is the one of its project until the job ends. -/
  current : ∀ j ∈ d.restoreJobs, j.isActive = true → ∀ generation,
    j.generationBefore = some generation →
      ∃ status, d.standing j.projectId = some (status, generation)
  /-- A job that succeeded gave its project the next one. -/
  next : ∀ j ∈ d.restoreJobs, j.status = .succeeded → ∃ generation,
    j.generationBefore = some generation ∧ j.generationAfter = some (generation + 1)

/-- A change of a job counts a success or none. -/
theorem Db.JobsSound.succeededJobs_update {d : Db} (hd : d.JobsSound) {job : RestoreJob}
    {f : RestoreJob → RestoreJob} (hjob : d.restoreJob job.id = some job)
    (hp : (f job).projectId = job.projectId) (hactive : job.isActive = true) (q : Uuid) :
    (d.updateRestoreJob job.id f).succeededJobs q = d.succeededJobs q +
      if job.projectId = q ∧ (f job).status = .succeeded then 1 else 0 := by
  obtain ⟨l₁, l₂, hsplit, hupdate⟩ :=
    exists_updateWhere_key (f := f) hd.ids (Db.mem_of_restoreJob hjob)
  have hstatus : job.status ≠ .succeeded := fun hstatus => by
    rw [RestoreJob.isActive, hstatus] at hactive
    cases hactive
  unfold succeededJobs updateRestoreJob
  dsimp only
  rw [hupdate, hsplit, List.countP_append, List.countP_append, List.countP_cons, List.countP_cons,
    hp, beq_eq_false_iff_ne.mpr hstatus, Bool.and_false]
  simp only [Bool.and_eq_true, beq_iff_eq, Bool.false_eq_true, if_false]
  omega

/-- A change of a job keeps the generation that it knows, or the job learns the one of its
project. -/
theorem JobChange.generationBefore {job job' : RestoreJob} {x x' : Option (ProjectStatus × ℤ)}
    (h : JobChange e job job' x x') : job'.generationBefore = job.generationBefore ∨
      ∃ status generation, x = some (status, generation) ∧
        job'.generationBefore = some (job.generationBefore.getD generation) := by
  cases h with
  | claimed => exact .inr ⟨_, _, rfl, rfl⟩
  | _ => exact .inl rfl

/-- A change of a job is a success, which gives its project the next generation, or it keeps the
generation of the project. -/
theorem JobChange.generation {job job' : RestoreJob} {x x' : Option (ProjectStatus × ℤ)}
    (h : JobChange e job job' x x') :
    (job'.status ≠ .succeeded ∧ x'.map Prod.snd = x.map Prod.snd) ∨
      (job.status = .running ∧ job'.status = .succeeded ∧
        job'.generationBefore = job.generationBefore ∧ ∃ status status' generation,
          x = some (status, generation) ∧ x' = some (status', generation + 1) ∧
            job'.generationAfter = some (generation + 1)) := by
  cases h with
  | succeeded _ hlease => exact .inr ⟨hlease.1, rfl, rfl, _, _, _, rfl, rfl, rfl⟩
  | asked _ hstatus => exact .inl ⟨by rw [RestoreJob.asked, hstatus]; nofun, rfl⟩
  | renewed _ hlease => exact .inl ⟨by rw [RestoreJob.renewed, hlease.1]; nofun, rfl⟩
  | snapshotted _ hlease => exact .inl ⟨by rw [RestoreJob.snapshotted, hlease.1]; nofun, rfl⟩
  | withdrawn => exact .inl ⟨nofun, by rw [Option.map_map]; rfl⟩
  | retried =>
    refine .inl ⟨?_, rfl⟩
    unfold RestoreJob.retried
    dsimp only
    split <;> nofun
  | _ => exact .inl ⟨nofun, rfl⟩

/-- A job that runs after a change ran before it, or was claimed. -/
theorem JobChange.begun {job job' : RestoreJob} {x x' : Option (ProjectStatus × ℤ)}
    (h : JobChange e job job' x x') (hstatus : job'.status = .running)
    (hbegun : job.status = .running → job.generationBefore ≠ none) :
    job'.generationBefore ≠ none := by
  cases h with
  | dequeued | refused | withdrawn | abandoned | succeeded => cases hstatus
  | asked _ hrunning => exact hbegun hrunning
  | claimed => exact Option.some_ne_none _
  | renewed _ hlease | snapshotted _ hlease => exact hbegun hlease.1
  | retried _ hlease => exact hbegun hlease.1

/-- Requests that leave the jobs, and the generation of every project that has one. -/
theorem Db.JobsCounted.of_standing {d d' : Db} (hd : d.JobsCounted) (hs : d.JobsSound)
    (hjobs : d'.restoreJobs = d.restoreJobs)
    (hstanding : ∀ p, (d'.standing p).map Prod.snd = (d.standing p).map Prod.snd ∨
      d.standing p = none ∧ d'.standing p = some (.active, 1)) : d'.JobsCounted := by
  have hcount : ∀ p, d'.succeededJobs p = d.succeededJobs p := fun p => by
    unfold Db.succeededJobs
    rw [hjobs]
  refine ⟨fun p status generation hp => ?_, hjobs ▸ hd.begun, fun j hj hactive generation hg => ?_,
    hjobs ▸ hd.next⟩
  · rw [hcount]
    rcases hstanding p with hsame | ⟨hnone, hnew⟩
    · rw [hp, Option.map_some, eq_comm, Option.map_eq_some_iff] at hsame
      obtain ⟨⟨status', g⟩, hbefore, rfl⟩ := hsame
      exact hd.counted p status' g hbefore
    · -- A new project has no job yet.
      rw [hnew] at hp
      cases hp
      have hzero : d.succeededJobs p = 0 := by
        refine List.countP_eq_zero.mpr fun j hj => ?_
        have hne : j.projectId ≠ p := fun heq => hs.owned j hj (heq ▸ hnone)
        simp [hne]
      rw [hzero]
      rfl
  · rw [hjobs] at hj
    obtain ⟨status, hbefore⟩ := hd.current j hj hactive generation hg
    rcases hstanding j.projectId with hsame | ⟨hnone, -⟩
    · rw [hbefore, Option.map_some, Option.map_eq_some_iff] at hsame
      obtain ⟨⟨status', g⟩, hafter, rfl⟩ := hsame
      exact ⟨status', hafter⟩
    · exact absurd hnone (hs.owned j hj)

/-- The generation that a job knows while it is queued or running is the one of its project. -/
theorem Db.JobsCounted.generation_eq {d : Db} (hd : d.JobsCounted) {job : RestoreJob}
    (hmem : job ∈ d.restoreJobs) (hactive : job.isActive = true) {status : ProjectStatus}
    {g generation : ℤ} (hstanding : d.standing job.projectId = some (status, generation))
    (hg : job.generationBefore = some g) : g = generation := by
  obtain ⟨status', hcurrent⟩ := hd.current job hmem hactive g hg
  rw [hstanding] at hcurrent
  cases hcurrent
  rfl

/-- A change of a job keeps the count. -/
theorem Db.JobsCounted.changed {job job' : RestoreJob} {f : RestoreJob → RestoreJob}
    {x : Option (ProjectStatus × ℤ)} (hcount : e.before.JobsCounted) (hb : e.before.JobsSound)
    (hjob : e.before.restoreJob job.id = some job) (hf : f job = job')
    (hjobs : e.after.restoreJobs = (e.before.updateRestoreJob job.id f).restoreJobs)
    (hstanding : e.after.standing = Function.update e.before.standing job.projectId x)
    (hchange : JobChange e job job' (e.before.standing job.projectId) x) :
    e.after.JobsCounted := by
  have hmem := Db.mem_of_restoreJob hjob
  have hafter : ∀ j, j ∈ e.after.restoreJobs ↔
      j ∈ e.before.restoreJobs ∧ j.id ≠ job.id ∨ j = job' := fun j => by
    rw [hjobs, hb.mem_updateRestoreJob hjob, hf]
  have hsucceeded : ∀ q, e.after.succeededJobs q = e.before.succeededJobs q +
      if job.projectId = q ∧ job'.status = .succeeded then 1 else 0 := fun q => by
    rw [← hf, ← hb.succeededJobs_update hjob (by rw [hf, hchange.same.2]) hchange.isActive]
    unfold Db.succeededJobs
    rw [hjobs]
  have hsame : e.after.standing job.projectId = x := by rw [hstanding, Function.update_self]
  have hother : ∀ q, q ≠ job.projectId → e.after.standing q = e.before.standing q :=
    fun q hq => by rw [hstanding, Function.update_of_ne hq]
  -- What is counted, what a job that began knows, that it is the current one, and what comes next.
  refine ⟨fun q status generation hq => ?_, fun j hj hstatus => ?_,
    fun j hj hactive generation hg => ?_, fun j hj hstatus => ?_⟩
  · rw [hsucceeded q]
    by_cases hp : q = job.projectId
    · subst hp
      rw [hsame] at hq
      rcases hchange.generation with ⟨hne, hx⟩ | ⟨-, hstatus, -, _, _, g, hbefore, hx, -⟩
      · rw [hq, Option.map_some, eq_comm, Option.map_eq_some_iff] at hx
        obtain ⟨⟨status', g⟩, hbefore, rfl⟩ := hx
        rw [if_neg fun h => hne h.2, Nat.add_zero]
        exact hcount.counted _ status' g hbefore
      · rw [hq] at hx
        cases hx
        -- A restore that succeeds moves the generation and is counted.
        have hcounted := hcount.counted _ _ g hbefore
        rw [if_pos ⟨rfl, hstatus⟩]
        push_cast
        omega
    · rw [hother q hp] at hq
      rw [if_neg fun h => hp h.1.symm, Nat.add_zero]
      exact hcount.counted q status generation hq
  · rcases (hafter j).mp hj with ⟨hj, -⟩ | rfl
    · exact hcount.begun j hj hstatus
    · exact hchange.begun hstatus (hcount.begun job hmem)
  · rcases (hafter j).mp hj with ⟨hj, hne⟩ | rfl
    · -- Another active job is of another project.
      have hp : j.projectId ≠ job.projectId := fun hp =>
        hne (congrArg _ (hb.oneActive j hj job hmem hp hactive hchange.isActive))
      rw [hother _ hp]
      exact hcount.current j hj hactive generation hg
    · rw [hchange.same.2, hsame]
      have hnot : j.status ≠ .succeeded := fun hstatus => by
        rw [RestoreJob.isActive, hstatus] at hactive
        cases hactive
      rcases hchange.generation with ⟨-, hx⟩ | ⟨-, hstatus, -⟩
      · -- The project still has the generation that the job knows.
        have hbefore : ∃ status, e.before.standing job.projectId = some (status, generation) := by
          rcases hchange.generationBefore with hkept | ⟨status, g, hbefore, hlearnt⟩
          · rw [hkept] at hg
            exact hcount.current job hmem hchange.isActive generation hg
          · rw [hlearnt] at hg
            refine ⟨status, ?_⟩
            cases hknown : job.generationBefore with
            | none =>
              rw [hknown] at hg
              cases hg
              exact hbefore
            | some g₀ =>
              rw [hknown] at hg
              cases hg
              rw [hcount.generation_eq hmem hchange.isActive hbefore hknown]
              exact hbefore
        obtain ⟨status, hbefore⟩ := hbefore
        rw [hbefore, Option.map_some, Option.map_eq_some_iff] at hx
        obtain ⟨⟨status', g⟩, hx, rfl⟩ := hx
        exact ⟨status', hx⟩
      · exact absurd hstatus hnot
  · rcases (hafter j).mp hj with ⟨hj, -⟩ | rfl
    · exact hcount.next j hj hstatus
    · rcases hchange.generation with ⟨hne, -⟩ | ⟨hrunning, -, hkept, _, _, g, hbefore, -, hnext⟩
      · exact absurd hstatus hne
      · obtain ⟨g₀, hknown⟩ := Option.ne_none_iff_exists'.mp (hcount.begun job hmem hrunning)
        have hg := hcount.generation_eq hmem hchange.isActive hbefore hknown
        exact ⟨g, by rw [hkept, hknown, hg], hnext⟩

/-- Every request keeps the count. -/
theorem RestoreStep.jobsCounted (h : RestoreStep H e) (hb : e.before.JobsSound)
    (hcount : e.before.JobsCounted) : e.after.JobsCounted := by
  -- A step that leaves the jobs and all generations leaves the count.
  have hupdate : ∀ {p : Uuid} {x : Option (ProjectStatus × ℤ)},
      e.after.restoreJobs = e.before.restoreJobs →
      e.after.standing = Function.update e.before.standing p x →
      (x.map Prod.snd = (e.before.standing p).map Prod.snd ∨
        e.before.standing p = none ∧ x = some (.active, 1)) → e.after.JobsCounted := by
    intro p x hjobs hstanding hx
    refine hcount.of_standing hb hjobs fun q => ?_
    rw [hstanding]
    by_cases hq : q = p
    · subst hq
      rw [Function.update_self]
      exact hx
    · rw [Function.update_of_ne hq]
      exact .inl rfl
  cases h with
  | kept hjobs hstanding => exact hcount.of_standing hb hjobs fun p => .inl (by rw [hstanding])
  | created hjobs hnone hstanding => exact hupdate hjobs hstanding (.inr ⟨hnone, rfl⟩)
  | disabled hcall hjobs hstanding =>
    refine hupdate hjobs hstanding (.inl ?_)
    rw [Option.map_map]
    rfl
  | reopened hcall hjobs hbefore hstanding =>
    refine hupdate hjobs hstanding (.inl ?_)
    rw [hbefore]
    rfl
  | enqueued hcall hjobs hfresh hlock hidle hbefore hstanding =>
    rename_i a generation
    refine ⟨fun p status g hp => ?_, fun j hj => ?_, fun j hj => ?_, fun j hj => ?_⟩
    · rw [hstanding] at hp
      have hzero : [a.job e.request.now].countP
          (fun j => j.projectId == p && j.status == .succeeded) = 0 := by
        simp [EnqueueRestoreArgs.job]
      rw [hcount.counted p status g hp, Db.succeededJobs, Db.succeededJobs, hjobs,
        List.countP_append, hzero, Nat.add_zero]
    all_goals
      rw [hjobs] at hj
      rcases List.mem_append.mp hj with hj | hj
    · exact hcount.begun j hj
    · rw [List.mem_singleton.mp hj]
      exact fun h => by cases h
    · rw [hstanding]
      exact hcount.current j hj
    · rw [List.mem_singleton.mp hj]
      exact fun _ _ h => by cases h
    · exact hcount.next j hj
    · rw [List.mem_singleton.mp hj]
      exact fun h => by cases h
  | changed hlock hjob hf hjobs hstanding hchange =>
    exact hcount.changed hb hjob hf hjobs hstanding hchange

/-- Along a trail the jobs are counted. -/
theorem jobsCounted_of_trail {users : List UserRow} {s : Db} {h : List SyncEvent} {t : ℤ}
    (htr : (service host).Trail Db.JobsSound Db.JobRely (.initial users) h s t) :
    s.JobsCounted := by
  refine htr.invariant (J := fun _ s => s.JobsCounted) ?_ ?_
  · refine ⟨fun p status generation hp => ?_, fun j hj => ?_, fun j hj => ?_, fun j hj => ?_⟩
    · cases hp
    all_goals exact absurd hj List.not_mem_nil
  · intro _ e _ _ _ hout hb _ ih
    obtain ⟨H, hstep⟩ := restoreStep_of_outcome hb hout
    exact hstep.jobsCounted hb ih

/-! ## The fence -/

/-- What leases ensure of the restores of a run. -/
structure RestoresFenced (h : List SyncEvent) (d : Db) : Prop where
  /-- A job succeeds at most once. -/
  once : ∀ jobId h₁ e₁ h₂ e₂ h₃, h = h₁ ++ e₁ :: (h₂ ++ e₂ :: h₃) → Executes jobId e₁ →
    ¬ Executes jobId e₂
  /-- The generation of a project is the initial one and one more for each job that succeeded. -/
  counted : ∀ p status generation, d.standing p = some (status, generation) →
    generation = 1 + d.succeededJobs p
  /-- A job that succeeded raised the generation by one. -/
  next : ∀ j ∈ d.restoreJobs, j.status = .succeeded → ∃ generation,
    j.generationBefore = some generation ∧ j.generationAfter = some (generation + 1)
  /-- Once a job is claimed again, the holder of an older lease changes neither the job nor any
  project, its heads or its log. -/
  stale : ∀ jobId old new h₁ e₁ h₂ e₂ h₃ e₃ h₄,
    h = h₁ ++ e₁ :: (h₂ ++ e₂ :: (h₃ ++ e₃ :: h₄)) → Claims jobId old e₁ → Claims jobId new e₂ →
      e₃.request.call.lease = some (jobId, old) →
        e₃.after.restoreJob jobId = e₃.before.restoreJob jobId ∧
          ∀ p, e₃.after.data p = e₃.before.data p

/-- The token of a claim. -/
theorem Claims.claimToken {jobId leaseToken : Uuid} (h : Claims jobId leaseToken e) :
    claimToken e = some leaseToken := by
  obtain ⟨skipLocked, job, hcall, hresult, -⟩ := h
  unfold TaskTipsCloud.claimToken
  rw [hcall, hresult]

/-- In every run in which the claims draw distinct lease tokens, leases fence the restores. -/
theorem restores_fenced {users : List UserRow} {w : World Db Lock PersistenceError Reply Request}
    (hw : (service host).Reachable (.initial users) w)
    (htokens : (w.history.filterMap claimToken).Nodup) :
    RestoresFenced w.history w.committed := by
  have htr := reachable_jobs hw
  have hcounted := jobsCounted_of_trail htr
  refine ⟨fun jobId h₁ e₁ h₂ e₂ h₃ hsplit hfirst hsecond => ?_, hcounted.counted, hcounted.next,
    fun jobId old new h₁ e₁ h₂ e₂ h₃ e₃ h₄ hsplit hfirst hsecond hlease => ?_⟩
  · rw [hsplit] at htr
    obtain ⟨-, -, hout₁, hb₁, -, htr₁, -⟩ := htr.split
    obtain ⟨htr₂, -, hout₂, hb₂, -⟩ := htr₁.split
    obtain ⟨-, job, hjob, hstatus⟩ := hfirst.job hb₁ hout₁
    obtain ⟨⟨job', hjob', hrunning⟩, -⟩ := hsecond.job hb₂ hout₂
    rw [ended_of_trail htr₂ hjob (by rw [RestoreJob.isActive, hstatus]; rfl)] at hjob'
    cases hjob'
    rw [hstatus] at hrunning
    cases hrunning
  · rw [hsplit] at htr htokens
    obtain ⟨-, -, -, -, -, htr₁, -⟩ := htr.split
    obtain ⟨-, -, hout₂, -, -, htr₂, -⟩ := htr₁.split
    obtain ⟨htr₃, -, hout₃, hb₃, -⟩ := htr₂.split
    -- No claim after the first one draws its token again.
    rw [List.filterMap_append, List.filterMap_cons_some hfirst.claimToken, List.nodup_append,
      List.nodup_cons] at htokens
    have hnot : ∀ e ∈ h₂ ++ e₂ :: (h₃ ++ e₃ :: h₄), claimToken e ≠ some old := fun e he heq =>
      htokens.2.1.1 (List.mem_filterMap.mpr ⟨e, he, heq⟩)
    obtain ⟨job, hjob, htoken⟩ := hsecond.leaseToken hout₂
    have hne : job.leaseToken ≠ some old := by
      rw [htoken, ← hsecond.claimToken]
      exact hnot e₂ (by simp)
    obtain ⟨job', hjob', hne'⟩ := not_leased_of_trail htr₃
      (fun e he => hnot e (by simp [he])) ⟨job, hjob, hne⟩
    have htouches := touches_of_old hlease hb₃ hout₃ hjob' hne'
    exact ⟨(congrArg (Db.restoreJob · jobId) htouches).trans rfl,
      fun p => (congrArg (Db.data · p) htouches).trans rfl⟩

/-- A worker that lost its lease tries to restore, and the one that has the new lease restores. -/
def expiredLease : List Request :=
  sampleSetup ++ [⟨1, .enqueueRestore ⟨1, 2, none, some 0, "undo", "r", 7⟩⟩,
    ⟨2, .claimRestoreJob [] 8⟩, ⟨3 + restoreLease, .claimRestoreJob [] 12⟩,
    ⟨3 + restoreLease, .executeRestoreWithLease .stored .stored 7 8⟩,
    ⟨3 + restoreLease, .executeRestoreWithLease .stored .stored 7 12⟩]

/-- The restores of that run are fenced. -/
theorem expiredLease_restores_fenced :
    RestoresFenced (sampleWorld expiredLease).history (sampleWorld expiredLease).committed :=
  restores_fenced (reachable_sampleWorld (by decide)) (by
    have htokens : (sampleWorld expiredLease).history.filterMap claimToken = [8, 12] := by rfl
    rw [htokens]
    decide)

end

end TaskTipsCloud

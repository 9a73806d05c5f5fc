import TaskTipsCloud.Leases
import TaskTipsCloud.Resumption

/-!
# How often a job is claimed

A claim of a purge counts as an attempt, and only an attempt that fails is compared with the limit.
A claim of a restore job counts nothing, and each attempt that fails is counted. So the limits hold
as long as no worker takes over a job whose lease another one has lost.
-/

namespace TaskTipsCloud

open Txn

/-! ## What the limits promise -/

/-- The claims of a run respect a limit. -/
structure AttemptsBounded {ε : Type} (claimed : ε → Option Uuid) (LeavesFailed : ε → Uuid → Prop)
    (limit : ℕ) (h : List ε) : Prop where
  /-- No job is claimed more often. -/
  bounded : ∀ jobId, (h.filterMap claimed).count jobId ≤ limit
  /-- No job is claimed after it has failed. -/
  final : ∀ h₁ e h₂ jobId, h = h₁ ++ e :: h₂ → claimed e = some jobId → ∀ e' ∈ h₁,
    ¬ LeavesFailed e' jobId

/-- The restore job that a call gave to a worker. -/
def claimedRestore (e : SyncEvent) : Option Uuid :=
  match e.request.call, e.result with
  | .claimRestoreJob _ _, .ok (.claimed (some job)) => some job.id
  | _, _ => none

/-- A call left a restore job failed. -/
def LeavesRestoreFailed (e : SyncEvent) (jobId : Uuid) : Prop :=
  ∃ job, e.after.restoreJob jobId = some job ∧ job.status = .failed

/-- A call gave a restore job to a worker that another worker had. -/
def TakesOverRestore (e : SyncEvent) : Prop :=
  ∃ jobId job, claimedRestore e = some jobId ∧ e.before.restoreJob jobId = some job ∧
    job.status = .running

/-- The purge that a call gave to a worker. -/
def claimedPurge (e : PurgeEvent) : Option Uuid :=
  match e.request.call, e.result with
  | .claimProjectPurgeJob _ _, .ok (.claimed (some job))
  | .claimAccountPurgeJob _ _, .ok (.claimed (some job)) => some job.id
  | _, _ => none

/-- A call left a purge failed. -/
def LeavesPurgeFailed (e : PurgeEvent) (jobId : Uuid) : Prop :=
  ∃ job, e.after.job jobId = some job ∧ job.status = .failed

/-- A claim finds a purge that another worker has in the fifth attempt or a later one. -/
def TakesOverExhausted (e : PurgeEvent) : Prop :=
  ∃ kind skipLocked leaseToken job, e.request.call = JobKind.claimCall kind skipLocked leaseToken ∧
    nextPurge kind e.request.now skipLocked e.before = some job ∧ job.status = .running ∧
      5 ≤ job.attempts

/-! ## Restore jobs -/

section

variable {host : Host} {e : SyncEvent} {jobId : Uuid} {n : ℕ}

/-- The claims of a run, with one more call. -/
theorem count_claimed {ε : Type} {claimed : ε → Option Uuid} {h : List ε} {e : ε} (jobId : Uuid) :
    ((h ++ [e]).filterMap claimed).count jobId =
      (h.filterMap claimed).count jobId + if claimed e = some jobId then 1 else 0 := by
  rw [List.filterMap_append, List.count_append]
  cases hclaimed : claimed e with
  | none => simp [hclaimed]
  | some i =>
    by_cases hi : i = jobId
    · simp [hclaimed, hi]
    · simp [hclaimed, hi]

/-- A restore that is recorded as claimed was claimed under a lease token. -/
theorem claims_of_claimedRestore (h : claimedRestore e = some jobId) :
    ∃ leaseToken, Claims jobId leaseToken e := by
  unfold claimedRestore at h
  split at h
  · rename_i skipLocked leaseToken job hcall hresult
    exact ⟨leaseToken, skipLocked, job, hcall, hresult, Option.some.inj h⟩
  · cases h

/-- A job that was claimed a number of times, while no worker has taken it over. -/
structure RestoreJob.ClaimedTimes (j : RestoreJob) (n : ℕ) : Prop where
  bounded : n ≤ 3
  attempts : j.isActive = true → j.attempts < 3
  counted : j.isActive = true → (n : ℤ) ≤ j.attempts + if j.status = .running then 1 else 0

/-- A job that has ended is claimed no more. -/
theorem RestoreJob.ClaimedTimes.ended {j j' : RestoreJob} (h : j.ClaimedTimes n)
    (hended : j'.isActive = false) : j'.ClaimedTimes n :=
  ⟨h.bounded, fun hactive => (nomatch hended.symm.trans hactive),
    fun hactive => (nomatch hended.symm.trans hactive)⟩

/-- A claim of a queued job leaves room for the attempts that are left. -/
theorem RestoreJob.ClaimedTimes.claimed {j : RestoreJob} {now : Timestamp} {generation : ℤ}
    {leaseToken : Uuid} (h : j.ClaimedTimes n) (hstatus : j.status = .queued) :
    (j.claimed now generation leaseToken).ClaimedTimes (n + 1) := by
  have hactive : j.isActive = true := by rw [isActive, hstatus]; rfl
  have hattempts := h.attempts hactive
  have hcounted := h.counted hactive
  have hne : RestoreStatus.queued ≠ .running := by decide
  rw [hstatus, if_neg hne] at hcounted
  refine ⟨by omega, fun _ => hattempts, fun _ => ?_⟩
  change ((n + 1 : ℕ) : ℤ) ≤ j.attempts + 1
  push_cast
  omega

/-- A failed attempt is counted. -/
theorem RestoreJob.ClaimedTimes.retried {j : RestoreJob} {now : Timestamp} {errorCode : String}
    (h : j.ClaimedTimes n) (hstatus : j.status = .running) :
    (j.retried now errorCode).ClaimedTimes n := by
  have hactive : j.isActive = true := by rw [isActive, hstatus]; rfl
  have hcounted := h.counted hactive
  rw [hstatus, if_pos rfl] at hcounted
  by_cases hlimit : j.attempts + 1 < 3
  · have hqueued : (j.retried now errorCode).status = .queued := if_pos hlimit
    have hne : RestoreStatus.queued ≠ .running := by decide
    refine ⟨h.bounded, fun _ => hlimit, fun _ => ?_⟩
    rw [hqueued, if_neg hne, add_zero]
    exact hcounted
  · refine h.ended ?_
    have hfailed : (j.retried now errorCode).status = .failed := if_neg hlimit
    rw [isActive, hfailed]
    rfl

/-- Whatever changes a job without claiming it. -/
theorem JobChange.claimedTimes {job job' : RestoreJob} {x x' : Option (ProjectStatus × ℤ)}
    (hchange : JobChange e job job' x x') (hclaimed : claimedRestore e ≠ some job.id)
    (h : job.ClaimedTimes n) : job'.ClaimedTimes n := by
  cases hchange with
  | dequeued | refused | withdrawn | abandoned | succeeded => exact h.ended rfl
  | asked | renewed | snapshotted => exact ⟨h.bounded, h.attempts, h.counted⟩
  | claimed hcall hclaimable hstatus hresult =>
    refine absurd ?_ hclaimed
    unfold claimedRestore
    rw [hcall, hresult]
    rfl
  | retried hcall hlease => exact h.retried hlease.1

/-- A job that was not there is new. -/
theorem RestoreStep.new {H : Set Lock} {job : RestoreJob} (hstep : RestoreStep H e)
    (hb : e.before.JobsSound) (hnone : e.before.restoreJob jobId = none)
    (hjob : e.after.restoreJob jobId = some job) :
    job.status = .queued ∧ job.attempts = 0 := by
  cases hstep with
  | kept hjobs | created hjobs | disabled _ hjobs | reopened _ hjobs =>
    rw [Db.restoreJob, hjobs] at hjob
    cases hnone.symm.trans hjob
  | enqueued hcall hjobs =>
    rw [Db.restoreJob, hjobs, List.find?_append,
      show e.before.restoreJobs.find? (·.id == jobId) = none from hnone, Option.none_or] at hjob
    obtain rfl := List.mem_singleton.mp (List.mem_of_find?_eq_some hjob)
    exact ⟨rfl, rfl⟩
  | changed hlock hjob' hf hjobs hstanding hchange =>
    rename_i job₁ job' f x
    have hid := Db.id_of_restoreJob hjob
    have hmem := Db.mem_of_restoreJob hjob
    rw [hjobs, hb.mem_updateRestoreJob hjob', hf] at hmem
    rcases hmem with ⟨hmem, -⟩ | rfl
    · exact absurd hid (by simpa using List.find?_eq_none.mp hnone job hmem)
    · rw [← hid, hchange.same.1, hjob'] at hnone
      cases hnone

/-- The claims of the restore jobs at the end of a run. -/
def RestoresClaimed (h : List SyncEvent) (d : Db) : Prop :=
  ∀ jobId, (d.restoreJob jobId = none → (h.filterMap claimedRestore).count jobId = 0) ∧
    ∀ job, d.restoreJob jobId = some job →
      job.ClaimedTimes ((h.filterMap claimedRestore).count jobId)

/-- A call that takes no job over keeps the count. -/
theorem RestoresClaimed.step {h : List SyncEvent} (hinv : RestoresClaimed h e.before)
    (hb : e.before.JobsSound) (hout : (service host).Outcome Db.JobRely e)
    (hkeeps : ¬ TakesOverRestore e) : RestoresClaimed (h ++ [e]) e.after := by
  obtain ⟨H, hstep⟩ := restoreStep_of_outcome hb hout
  intro jobId
  obtain ⟨hzero, htimes⟩ := hinv jobId
  rw [count_claimed]
  by_cases hclaimed : claimedRestore e = some jobId
  · -- The claim found a job that was queued.
    obtain ⟨leaseToken, hclaims⟩ := claims_of_claimedRestore hclaimed
    obtain ⟨job, generation, hjob, hclaimable, hjob'⟩ := hclaims.job hout
    have hstatus : job.status = .queued := by
      simp only [RestoreJob.claimable, Bool.or_eq_true, Bool.and_eq_true, beq_iff_eq] at hclaimable
      rcases hclaimable with ⟨hstatus, -⟩ | ⟨hstatus, -⟩
      · exact hstatus
      · exact absurd ⟨jobId, job, hclaimed, hjob, hstatus⟩ hkeeps
    rw [if_pos hclaimed]
    refine ⟨fun hnone => (by cases hnone.symm.trans hjob'), fun job' hafter => ?_⟩
    cases hafter.symm.trans hjob'
    exact (htimes job hjob).claimed hstatus
  · rw [if_neg hclaimed, add_zero]
    -- No claim of this job: it is new, or it is as before, or its change counts no attempt.
    cases hjob : e.before.restoreJob jobId with
    | none =>
      refine ⟨fun _ => hzero hjob, fun job' hjob' => ?_⟩
      obtain ⟨hstatus, hattempts⟩ := hstep.new hb hjob hjob'
      rw [hzero hjob]
      refine ⟨by decide, fun _ => by rw [hattempts]; decide, fun _ => ?_⟩
      rw [hattempts, hstatus]
      decide
    | some job =>
      have hid := Db.id_of_restoreJob hjob
      rcases hstep.restoreJob hb hjob with hkept | ⟨job', hjob', hchange⟩
      · refine ⟨fun hnone => (by cases hnone.symm.trans hkept), fun job' hjob' => ?_⟩
        cases hjob'.symm.trans hkept
        exact htimes job hjob
      · refine ⟨fun hnone => (by cases hnone.symm.trans hjob'), fun job'' hjob'' => ?_⟩
        cases hjob''.symm.trans hjob'
        exact hchange.claimedTimes (hid.symm ▸ hclaimed) (htimes job hjob)

/-- In every run in which no restore job is taken over, the claims of restore jobs respect their
limit. -/
theorem restores_bounded {users : List UserRow} {w : World Db Lock PersistenceError Reply Request}
    (hw : (service host).Reachable (.initial users) w)
    (hkeeps : ∀ e ∈ w.history, ¬ TakesOverRestore e) :
    AttemptsBounded claimedRestore LeavesRestoreFailed 3 w.history := by
  have htr := reachable_jobs hw
  refine ⟨fun jobId => ?_, fun h₁ e h₂ jobId hsplit hclaimed e' he' hfailed => ?_⟩
  · have hinv : RestoresClaimed w.history w.committed := by
      refine htr.invariant (J := fun h s => (∀ e ∈ h, ¬ TakesOverRestore e) → RestoresClaimed h s)
        (fun _ jobId => ⟨fun _ => rfl, fun job hjob => (nomatch hjob)⟩) ?_ hkeeps
      intro h e _ _ _ hout hb _ ih hkeeps
      exact (ih fun e' he' => hkeeps e' (List.mem_append_left _ he')).step hb hout
        (hkeeps e (by simp))
    obtain ⟨hzero, htimes⟩ := hinv jobId
    cases hjob : w.committed.restoreJob jobId with
    | none => rw [hzero hjob]; decide
    | some job => exact (htimes job hjob).bounded
  · rw [hsplit] at htr
    obtain ⟨htr₁, -, hout, -⟩ := htr.split
    obtain ⟨g₁, g₂, rfl⟩ := List.append_of_mem he'
    obtain ⟨-, -, -, -, -, htr₂, -⟩ := htr₁.split
    obtain ⟨job, hjob, hstatus⟩ := hfailed
    obtain ⟨leaseToken, hclaims⟩ := claims_of_claimedRestore hclaimed
    obtain ⟨job', generation, hjob', hclaimable, -⟩ := hclaims.job hout
    rw [ended_of_trail htr₂ hjob (by rw [RestoreJob.isActive, hstatus]; rfl)] at hjob'
    cases hjob'
    rw [RestoreJob.claimable, hstatus] at hclaimable
    cases hclaimable

end

/-! ## Purges -/

section

variable {host : Host} {h : List PurgeEvent} {e : PurgeEvent} {q : PurgeRequest} {d : PurgeDb}

/-- A purge that is recorded as claimed was answered by its claim. -/
theorem claim_of_claimedPurge {jobId : Uuid} (h : claimedPurge e = some jobId) :
    ∃ kind skipLocked leaseToken job,
      e.request.call = JobKind.claimCall kind skipLocked leaseToken ∧
      e.result = .ok (.claimed (some job)) ∧ job.id = jobId := by
  unfold claimedPurge at h
  split at h
  · rename_i skipLocked leaseToken job hcall hresult
    exact ⟨.projectPurge, skipLocked, leaseToken, job, hcall, hresult, Option.some.inj h⟩
  · rename_i skipLocked leaseToken job hcall hresult
    exact ⟨.accountPurge, skipLocked, leaseToken, job, hcall, hresult, Option.some.inj h⟩
  · cases h

/-- A claim that is answered with a job is recorded as its claim. -/
theorem claimedPurge_of_claim {kind : JobKind} {skipLocked : List Uuid} {leaseToken : Uuid}
    {job : JobRow} (hcall : e.request.call = kind.claimCall skipLocked leaseToken)
    (hresult : e.result = .ok (.claimed (some job))) : claimedPurge e = some job.id := by
  unfold claimedPurge
  rw [hcall, hresult]
  cases kind <;> rfl

/-- A call that claimed a purge found it. -/
theorem next_of_claimedPurge {jobId : Uuid} (hclaimed : claimedPurge e = some jobId)
    (he : e = (purgeService host).alone q d) :
    ∃ kind skipLocked leaseToken job,
      e.request.call = JobKind.claimCall kind skipLocked leaseToken ∧
      nextPurge kind e.request.now skipLocked e.before = some job ∧ job.id = jobId ∧
        e.after = e.before.updateJob job.id (·.claimed e.request.now leaseToken) := by
  obtain ⟨kind, skipLocked, leaseToken, _, hcall, hresult, hid⟩ := claim_of_claimedPurge hclaimed
  obtain ⟨job, hnext, rfl, hafter⟩ := next_of_claimed he hcall hresult
  exact ⟨kind, skipLocked, leaseToken, job, hcall, hnext, hid, hafter⟩

/-- The attempts of every purge are its claims, and a purge that waits has attempts left. -/
structure PurgesClaimed (h : List PurgeEvent) (d : PurgeDb) : Prop where
  ids : (d.jobs.map (·.id)).Nodup
  unclaimed : ∀ jobId, d.job jobId = none → (h.filterMap claimedPurge).count jobId = 0
  counted : ∀ jobId job, d.job jobId = some job →
    job.attempts = (h.filterMap claimedPurge).count jobId
  waiting : ∀ jobId job, d.job jobId = some job → job.status = .queued → job.attempts < 5

/-- A change of a purge that claims none keeps its attempts. -/
theorem PurgeJobChange.attempts {job job' : JobRow} (hchange : PurgeJobChange e job job')
    (hclaimed : claimedPurge e ≠ some job.id) : job'.attempts = job.attempts ∧
      (job'.status = .queued → job'.attempts < 5) := by
  cases hchange with
  | claimed hcall hnext hresult => exact absurd (claimedPurge_of_claim hcall hresult) hclaimed
  | renewed hcall hrunning | detached hcall hrunning =>
    exact ⟨rfl, fun hqueued => (nomatch hrunning.symm.trans hqueued)⟩
  | succeeded => exact ⟨rfl, nofun⟩
  | retried hcall hrunning =>
    refine ⟨rfl, fun hqueued => ?_⟩
    by_contra hlimit
    cases (if_neg hlimit).symm.trans hqueued

/-- Whatever is called keeps the count. -/
theorem PurgesClaimed.alone (hinv : PurgesClaimed h d) (he : e = (purgeService host).alone q d) :
    PurgesClaimed (h ++ [e]) e.after := by
  have hd : e.before = d := by rw [he]; rfl
  have hstep : PurgeJobsStep e := he ▸ purgeJobsStep_alone host q hinv.ids
  subst hd
  -- A claim takes a job that is there.
  have hnone : ∀ jobId, e.before.job jobId = none → claimedPurge e ≠ some jobId := by
    rintro jobId hbefore hclaimed
    obtain ⟨_, _, _, job, -, hnext, rfl, -⟩ := next_of_claimedPurge hclaimed he
    rw [show e.before.job job.id = some job from
      find?_key_eq hinv.ids (claimable_of_nextPurge hnext).1] at hbefore
    cases hbefore
  have hcase : ∀ jobId job', e.after.job jobId = some job' →
      job'.attempts = ((h ++ [e]).filterMap claimedPurge).count jobId ∧
        (job'.status = .queued → job'.attempts < 5) := by
    intro jobId job' hjob'
    rw [count_claimed]
    cases hjob : e.before.job jobId with
    | none =>
      obtain ⟨-, -, hattempts, -⟩ := hstep.new hjob hjob'
      rw [if_neg (hnone jobId hjob), hinv.unclaimed jobId hjob, hattempts]
      exact ⟨rfl, fun _ => by decide⟩
    | some job =>
      have hcounted := hinv.counted jobId job hjob
      -- The claim of a job counts one attempt, in the job and in the history.
      by_cases hclaimed : claimedPurge e = some jobId
      · obtain ⟨_, _, leaseToken, found, -, hnext, rfl, hafter⟩ := next_of_claimedPurge hclaimed he
        have hfound : e.before.job found.id = some found :=
          find?_key_eq hinv.ids (claimable_of_nextPurge hnext).1
        cases hjob.symm.trans hfound
        have hupdated := @PurgeDb.job_updateJob e.before job.id
          (·.claimed e.request.now leaseToken) (fun _ => rfl) job.id
        rw [hjob, Option.map_some, if_pos (beq_self_eq_true _), ← hafter, hjob'] at hupdated
        cases hupdated
        rw [if_pos hclaimed]
        refine ⟨?_, nofun⟩
        push_cast
        exact congrArg (· + 1) hcounted
      · rw [if_neg hclaimed, add_zero]
        obtain ⟨job'', hjob'', rfl | hchange⟩ := hstep.job hjob
        · cases hjob'.symm.trans hjob''
          exact ⟨hcounted, hinv.waiting jobId job' hjob⟩
        · cases hjob'.symm.trans hjob''
          have hid := PurgeDb.id_of_job hjob
          obtain ⟨hattempts, hwaiting⟩ := hchange.attempts (hid.symm ▸ hclaimed)
          exact ⟨hattempts.trans hcounted, hwaiting⟩
  refine ⟨hstep.ids hinv.ids, fun jobId hafter => ?_, fun jobId job' hjob' => (hcase _ _ hjob').1,
    fun jobId job' hjob' => (hcase _ _ hjob').2⟩
  cases hjob : e.before.job jobId with
  | none =>
    rw [count_claimed, if_neg (hnone jobId hjob), add_zero]
    exact hinv.unclaimed jobId hjob
  | some job =>
    obtain ⟨job', hjob', -⟩ := hstep.job hjob
    cases hafter.symm.trans hjob'

/-- In every serial run the claims are counted by the attempts. -/
theorem purgesClaimed {users : List UserRow} {t₀ t : ℤ}
    (hrun : (purgeService host).Serial (.initial users) t₀ h d t) : PurgesClaimed h d := by
  refine hrun.invariant (J := fun h d _ => PurgesClaimed h d) ?_ ?_
  · exact ⟨List.nodup_nil, fun _ _ => rfl, fun i j hj => (nomatch hj), fun i j hj => (nomatch hj)⟩
  · exact fun h d t q _ _ _ hinv => hinv.alone rfl

/-- A purge that has failed changes no more. -/
theorem PurgeJobChange.status_ne_failed {job job' : JobRow} (hchange : PurgeJobChange e job job') :
    job.status ≠ .failed := by
  cases hchange with
  | claimed hcall hnext hresult =>
    obtain ⟨-, -, hstatus | hstatus⟩ := claimable_of_nextPurge hnext <;> rw [hstatus] <;> nofun
  | renewed hcall hrunning | retried hcall hrunning | succeeded hcall hrunning
  | detached hcall hrunning =>
    rw [hrunning]
    nofun

/-- A purge that has failed stays so. -/
theorem failed_of_serial {s₀ : PurgeDb} {t₀ t : ℤ} {jobId : Uuid}
    (hrun : (purgeService host).Serial s₀ t₀ h d t) (hids : (s₀.jobs.map (·.id)).Nodup)
    (hfailed : ∃ job, s₀.job jobId = some job ∧ job.status = .failed) :
    ∃ job, d.job jobId = some job ∧ job.status = .failed := by
  refine (hrun.invariant (J := fun _ d _ => (d.jobs.map (·.id)).Nodup ∧
    ∃ job, d.job jobId = some job ∧ job.status = .failed) ⟨hids, hfailed⟩ ?_).2
  intro h d t q _ _ _ ⟨hids, job, hjob, hstatus⟩
  have hstep := purgeJobsStep_alone host q hids
  refine ⟨hstep.ids hids, ?_⟩
  obtain ⟨job', hjob', rfl | hchange⟩ := hstep.job hjob
  · exact ⟨job', hjob', hstatus⟩
  · exact absurd hstatus hchange.status_ne_failed

/-- The claims of purges respect their limit if and only if no claim finds a purge that another
worker has in the fifth attempt or a later one. -/
theorem purges_bounded_iff {users : List UserRow} {t₀ t : ℤ}
    (hrun : (purgeService host).Serial (.initial users) t₀ h d t) :
    AttemptsBounded claimedPurge LeavesPurgeFailed 5 h ↔ ∀ e ∈ h, ¬ TakesOverExhausted e := by
  constructor
  · -- A claim that takes over such a purge would be the sixth one of its job.
    rintro ⟨hbounded, -⟩ e he ⟨kind, skipLocked, leaseToken, job, hcall, hnext, -, hattempts⟩
    obtain ⟨h₁, h₂, rfl⟩ := List.append_of_mem he
    obtain ⟨t₁, hrun₁, halone, -⟩ := hrun.split
    have hinv := purgesClaimed hrun₁
    have hjob : e.before.job job.id = some job :=
      find?_key_eq hinv.ids (claimable_of_nextPurge hnext).1
    have hboth := claim_alone halone hcall
    rw [hnext, Prod.mk.injEq] at hboth
    have hclaimed : claimedPurge e = some job.id := (claimedPurge_of_claim hcall hboth.1).trans rfl
    have hcounted := hinv.counted _ _ hjob
    have hmore := hbounded job.id
    rw [List.filterMap_append, List.filterMap_cons_some hclaimed, List.count_append,
      List.count_cons_self] at hmore
    omega
  · -- A job waits with fewer than five attempts, so only a takeover can pass the limit.
    intro hkeeps
    refine ⟨fun jobId => ?_, fun h₁ e h₂ jobId hsplit hclaimed e' he' hfailed => ?_⟩
    · refine hrun.invariant (J := fun h _ _ => (∀ e ∈ h, ¬ TakesOverExhausted e) →
        (h.filterMap claimedPurge).count jobId ≤ 5) (fun _ => Nat.zero_le 5) ?_ hkeeps
      intro h d t q hrun _ _ ih hkeeps
      have hbefore := ih fun e' he' => hkeeps e' (List.mem_append_left _ he')
      have hinv := purgesClaimed hrun
      rw [count_claimed]
      split
      · rename_i hclaimed
        obtain ⟨kind, skipLocked, leaseToken, job, hcall, hnext, rfl, -⟩ :=
          next_of_claimedPurge hclaimed rfl
        obtain ⟨hmem, -, hstatus⟩ := claimable_of_nextPurge hnext
        have hjob : d.job job.id = some job := find?_key_eq hinv.ids hmem
        have hattempts : job.attempts < 5 := by
          rcases hstatus with hqueued | hrunning
          · exact hinv.waiting _ _ hjob hqueued
          · by_contra hlimit
            exact hkeeps _ (by simp)
              ⟨kind, skipLocked, leaseToken, job, hcall, hnext, hrunning, not_lt.mp hlimit⟩
        have hcounted := hinv.counted _ _ hjob
        omega
      · exact hbefore
    · subst hsplit
      obtain ⟨t₁, hrun₁, halone, -⟩ := hrun.split
      obtain ⟨g₁, g₂, rfl⟩ := List.append_of_mem he'
      obtain ⟨t₂, hrun₂, halone', -, -, hrun₃⟩ := hrun₁.split
      have hinv₂ := purgesClaimed hrun₂
      have hids := (halone' ▸ purgeJobsStep_alone host e'.request hinv₂.ids : PurgeJobsStep e').ids
        hinv₂.ids
      -- A job that has failed is failed for good, and a claim finds none such.
      obtain ⟨job, hjob, hstatus⟩ := failed_of_serial hrun₃ hids hfailed
      obtain ⟨_, _, _, job', -, hnext, rfl, -⟩ := next_of_claimedPurge hclaimed halone
      obtain ⟨hmem, -, hclaimable⟩ := claimable_of_nextPurge hnext
      have hjob' : e.before.job job'.id = some job' := find?_key_eq (purgesClaimed hrun₁).ids hmem
      cases hjob.symm.trans hjob'
      rw [hstatus] at hclaimable
      rcases hclaimable with hqueued | hrunning
      · cases hqueued
      · cases hrunning

end

/-! ## Every run -/

/-- In every run in which no restore job is taken over, the claims of restore jobs respect their
limit; and the claims of purges respect theirs if and only if no claim finds a purge that another
worker has in the fifth attempt or a later one. -/
theorem attempts_bounded {host : Host} {users users' : List UserRow}
    {w : World Db Lock PersistenceError Reply Request} {h : List PurgeEvent} {d : PurgeDb}
    {t₀ t : ℤ}
    (hw : (service host).Reachable (.initial users) w)
    (hrun : (purgeService host).Serial (.initial users') t₀ h d t) :
    ((∀ e ∈ w.history, ¬ TakesOverRestore e) →
      AttemptsBounded claimedRestore LeavesRestoreFailed 3 w.history) ∧
    (AttemptsBounded claimedPurge LeavesPurgeFailed 5 h ↔ ∀ e ∈ h, ¬ TakesOverExhausted e) :=
  ⟨restores_bounded hw, purges_bounded_iff hrun⟩

/-- A restore that fails three times. -/
def failingRestore : List Request :=
  sampleSetup ++ [⟨1, .enqueueRestore ⟨1, 2, none, some 0, "undo", "r", 7⟩⟩] ++
    (List.range 4).flatMap fun n => [⟨seconds (100 * n) + 2, .claimRestoreJob [] 8⟩,
      ⟨seconds (100 * n) + 3, .retryRestoreJobWithLease 7 8 "TEMPORARY"⟩]

/-- The claims of the failing restore and of a purge respect their limits. -/
theorem failingRestore_bounded :
    AttemptsBounded claimedRestore LeavesRestoreFailed 3 (sampleWorld failingRestore).history ∧
      AttemptsBounded claimedPurge LeavesPurgeFailed 5 (samplePurges purgedProject) := by
  obtain ⟨d, t, hrun⟩ := @serial_samplePurges purgedProject (by decide)
  have hbounded := attempts_bounded (@reachable_sampleWorld failingRestore (by decide)) hrun
  refine ⟨hbounded.1 ?_, hbounded.2.mpr ?_⟩
  · rintro e he ⟨jobId, job, hclaimed, hjob, hrunning⟩
    have hqueued : (sampleWorld failingRestore).history.all fun e =>
        ((claimedRestore e).bind e.before.restoreJob).all (·.status != .running) := by
      decide +kernel
    have hnot := List.all_eq_true.mp hqueued e he
    rw [hclaimed, Option.bind_some, hjob, Option.all_some, hrunning] at hnot
    cases hnot
  · rintro e he ⟨kind, skipLocked, leaseToken, job, -, hnext, -, hattempts⟩
    have hfew : (samplePurges purgedProject).all fun e =>
        e.before.jobs.all fun j => j.attempts < 5 := by decide +kernel
    have hless := List.all_eq_true.mp (List.all_eq_true.mp hfew e he) job
      (claimable_of_nextPurge hnext).1
    exact absurd hattempts (not_le.mpr (of_decide_eq_true hless))

/-- The workers of a purge lose their leases, one after the other. -/
def stalledPurge : List PurgeRequest :=
  purgeRequested ++ (List.range 6).map fun n =>
    ⟨2 + n * (purgeLease + 1), .claimProjectPurgeJob [] (10 + n)⟩

/-- The workers of a restore lose their leases, one after the other. -/
def stalledRestore : List Request :=
  sampleSetup ++ [⟨1, .enqueueRestore ⟨1, 2, none, some 0, "undo", "r", 7⟩⟩] ++
    (List.range 4).map fun n => ⟨2 + n * (restoreLease + 1), .claimRestoreJob [] (10 + n)⟩

/-- A purge is claimed six times, and a restore job four times. -/
theorem stalledWorkers_unbounded :
    (∃ d t, (purgeService sampleHost).Serial samplePurgeStart 0 (samplePurges stalledPurge) d t) ∧
      ¬ AttemptsBounded claimedPurge LeavesPurgeFailed 5 (samplePurges stalledPurge) ∧
        (service sampleHost).Reachable sampleStart (sampleWorld stalledRestore) ∧
          ¬ AttemptsBounded claimedRestore LeavesRestoreFailed 3
            (sampleWorld stalledRestore).history := by
  refine ⟨serial_samplePurges (by decide), fun h => ?_, reachable_sampleWorld (by decide),
    fun h => ?_⟩
  · have hmore : ((samplePurges stalledPurge).filterMap claimedPurge).count 7 = 6 := by
      decide +kernel
    exact absurd (h.bounded 7) (by rw [hmore]; decide)
  · have hmore : ((sampleWorld stalledRestore).history.filterMap claimedRestore).count 7 = 4 := by
      decide +kernel
    exact absurd (h.bounded 7) (by rw [hmore]; decide)

end TaskTipsCloud

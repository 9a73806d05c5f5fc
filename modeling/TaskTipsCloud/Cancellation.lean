import TaskTipsCloud.Leases

/-!
# Cancellations of restores

A restore whose cancellation has returned never succeeds, and no worker that claims it changes the
objects or the generation of a project. The request of the cancellation stays on the job over
retries, lost leases and new claims, and it is read under the lock of the job by the transaction
that restores.
-/

namespace TaskTipsCloud

open Txn

section

variable {host : Host} {H : Set Lock} {e : SyncEvent}

/-- A job that does not restore: it has not succeeded, and if it is still queued or running, then
its cancellation was requested. -/
structure RestoreJob.IsCancelled (j : RestoreJob) : Prop where
  /-- It has not succeeded. -/
  status : j.status ≠ .succeeded
  /-- Whoever claims it finds the request. -/
  requested : j.isActive = true → j.cancelRequested = true

/-- A job that ended without a success does not restore. -/
theorem RestoreJob.IsCancelled.of_ended {j : RestoreJob}
    (h : j.status = .failed ∨ j.status = .cancelled) : j.IsCancelled := by
  refine ⟨?_, fun hactive => ?_⟩
  · rcases h with h | h <;> rw [h] <;> exact nofun
  · unfold isActive at hactive
    rcases h with h | h <;> rw [h] at hactive <;> cases hactive

/-- No change of a job that is cancelled makes it restore. -/
theorem JobChange.isCancelled {job job' : RestoreJob} {x x' : Option (ProjectStatus × ℤ)}
    (h : JobChange e job job' x x') (hjob : job.IsCancelled) : job'.IsCancelled := by
  have hrequested := hjob.requested h.isActive
  cases h with
  | dequeued | withdrawn => exact .of_ended (.inr rfl)
  | refused | abandoned => exact .of_ended (.inl rfl)
  | asked hcall hstatus => exact ⟨hjob.status, fun _ => rfl⟩
  | claimed hcall hclaimable hstatus hresult => exact ⟨nofun, fun _ => hrequested⟩
  | renewed hcall hlease | snapshotted hcall hlease =>
    exact ⟨hjob.status, fun _ => hrequested⟩
  | retried hcall hlease =>
    refine ⟨?_, fun _ => hrequested⟩
    unfold RestoreJob.retried
    split <;> exact nofun
  | succeeded hcall hlease hnot =>
    -- The worker that restores has read that no cancellation was requested.
    rw [hrequested] at hnot
    cases hnot

/-- A job that is cancelled stays so. -/
theorem isCancelled_of_trail {s₀ s : Db} {h : List SyncEvent} {t : ℤ}
    (htr : (service host).Trail Db.JobsSound Db.JobRely s₀ h s t) {jobId : Uuid}
    (hstart : ∃ job, s₀.restoreJob jobId = some job ∧ job.IsCancelled) :
    ∃ job, s.restoreJob jobId = some job ∧ job.IsCancelled := by
  refine htr.invariant (J := fun _ s => ∃ job, s.restoreJob jobId = some job ∧ job.IsCancelled)
    hstart ?_
  intro h e _ _ _ hout hb _ ⟨job, hjob, hcancelled⟩
  obtain ⟨H, hstep⟩ := restoreStep_of_outcome hb hout
  rcases hstep.restoreJob hb hjob with hkept | ⟨job', hjob', hchange⟩
  · exact ⟨job, hkept, hcancelled⟩
  · exact ⟨job', hjob', hchange.isCancelled hcancelled⟩

/-- A cancellation that returned. -/
def Cancels (jobId : Uuid) (e : SyncEvent) : Prop :=
  (∃ userId projectId reason requestId,
    e.request.call = .cancelRestore userId projectId jobId reason requestId) ∧
      ∃ job, e.result = .ok (.restoreJob job)

/-- After its cancellation returned, a job is cancelled. -/
theorem Cancels.isCancelled {jobId : Uuid} (h : Cancels jobId e)
    (hout : (service host).Outcome Db.JobRely e) :
    ∃ job, e.after.restoreJob jobId = some job ∧ job.IsCancelled := by
  obtain ⟨⟨userId, projectId, reason, requestId, hcall⟩, _, hresult⟩ := h
  obtain ⟨H, b, ⟨hruns, hafter⟩ | ⟨_, -, herror, -⟩⟩ := hout
  · change Runs _ _ (e.request.call.body host e.request.now) ∅ id _ H b at hruns
    rw [hcall] at hruns
    obtain ⟨_, hrun, -⟩ := runs_replying_iff.mp hruns
    obtain ⟨job, f, howned, hjobs, -, hchange⟩ := runs_cancelRestore (fun _ _ h => h.rely) hrun
    obtain ⟨hfind, -⟩ := Option.filter_eq_some_iff.mp howned
    have hid : ∀ j, (f j).id = j.id := by
      rcases hchange with ⟨-, rfl⟩ | ⟨-, rfl⟩ <;> exact fun _ => rfl
    have hupdated := @Db.restoreJob_updateRestoreJob e.before jobId _ hid
    rw [hfind] at hupdated
    refine ⟨f job, ?_, ?_⟩
    · rw [hafter]
      unfold Db.restoreJob at hupdated ⊢
      rw [hjobs]
      exact hupdated
    · rcases hchange with ⟨-, rfl⟩ | ⟨hstatus, rfl⟩
      · exact .of_ended (.inr rfl)
      · refine ⟨?_, fun _ => rfl⟩
        change job.status ≠ .succeeded
        rw [hstatus]
        exact nofun
  · rw [hresult] at herror
    cases herror

/-- A call of a worker for a job: it claimed the job, or it names it with a lease token. -/
def WorksOn (jobId : Uuid) (e : SyncEvent) : Prop :=
  ∃ leaseToken, Claims jobId leaseToken e ∨ e.request.call.lease = some (jobId, leaseToken)

/-- The workers of a job that is cancelled change no objects and no generation. -/
theorem WorksOn.resembles {jobId : Uuid} (h : WorksOn jobId e) (hb : e.before.JobsSound)
    (hout : (service host).Outcome Db.JobRely e)
    (hjob : ∃ job, e.before.restoreJob jobId = some job ∧ job.IsCancelled) (p : Uuid) :
    (e.after.data p).Resembles (e.before.data p) := by
  obtain ⟨leaseToken, h⟩ := h
  have hnot : ∀ {call : Call}, e.request.call = call → call.lease = none →
      (∀ skipLocked leaseToken, call ≠ .claimRestoreJob skipLocked leaseToken) → False := by
    rintro call hcall hnone hclaim
    rcases h with ⟨skipLocked, _, hclaimed, -⟩ | hlease
    · exact hclaim skipLocked leaseToken (hcall.symm.trans hclaimed)
    · rw [hcall, hnone] at hlease
      cases hlease
  have heffect := eventEffect_of_outcome hb.sound (.mono _ (fun _ _ hR => hR.rely) hout)
  cases heffect with
  | unchanged hafter => exact hafter ▸ .rfl
  | quiet hquiet hafter htouches => exact hafter.resembles p
  | created hcall | collected hcall | purged hcall | replayed hcall | pushed hcall
  | completed hcall => exact (hnot hcall rfl nofun).elim
  | restored hcall hresult hafter =>
    -- The lease names the job, and the restore has read that no cancellation was requested.
    rcases h with ⟨skipLocked, _, hclaimed, -⟩ | hlease
    · exact nomatch hclaimed.symm.trans hcall
    · rw [hcall] at hlease
      cases hlease
      generalize e.after = d' at hafter
      obtain ⟨hleased, hrequested⟩ := hafter
      obtain ⟨-, hfind, hhas⟩ := hasLease_of_leasedJob hleased
      obtain ⟨job', hjob', hcancelled⟩ := hjob
      obtain rfl := id_of_leasedJob hleased
      rw [hfind] at hjob'
      cases hjob'
      rw [hcancelled.requested hhas.isActive] at hrequested
      cases hrequested

/-- What a cancellation ensures of the run that follows it. -/
structure CancellationFinal (jobId : Uuid) (h : List SyncEvent) (d : Db) : Prop where
  /-- The job has not succeeded. -/
  notSucceeded : ∃ job, d.restoreJob jobId = some job ∧ job.status ≠ .succeeded
  /-- Its workers change no head, append no revision and leave every generation. -/
  harmless : ∀ e ∈ h, WorksOn jobId e → ∀ p, (e.after.data p).Resembles (e.before.data p)

/-- In every run, a cancellation that returned is final. -/
theorem cancellation_final {users : List UserRow}
    {w : World Db Lock PersistenceError Reply Request}
    (hw : (service host).Reachable (.initial users) w) {jobId : Uuid} {h₁ h₂ : List SyncEvent}
    (hsplit : w.history = h₁ ++ e :: h₂) (he : Cancels jobId e) :
    CancellationFinal jobId h₂ w.committed := by
  have htr := reachable_jobs hw
  rw [hsplit] at htr
  obtain ⟨-, -, hout, -, -, htr₂, -⟩ := htr.split
  have hstart := he.isCancelled hout
  obtain ⟨job, hjob, hcancelled⟩ := isCancelled_of_trail htr₂ hstart
  refine ⟨⟨job, hjob, hcancelled.status⟩, fun e' he' hworks p => ?_⟩
  obtain ⟨h₃, h₄, rfl⟩ := List.append_of_mem he'
  obtain ⟨htr₃, -, hout', hb', -⟩ := htr₂.split
  exact hworks.resembles hb' hout' (isCancelled_of_trail htr₃ hstart) p

end

/-- A running restore is cancelled, retried and claimed again, and its worker tries to restore. -/
def cancelledWhileRunning : List Request :=
  sampleSetup ++ [⟨1, .enqueueRestore ⟨1, 2, none, some 0, "undo", "r", 7⟩⟩,
    ⟨2, .claimRestoreJob [] 8⟩, ⟨3, .cancelRestore 1 2 7 "no" "r"⟩,
    ⟨4, .retryRestoreJobWithLease 7 8 "TEMPORARY"⟩, ⟨seconds 100, .claimRestoreJob [] 9⟩,
    ⟨seconds 101, .executeRestoreWithLease .stored .stored 7 9⟩,
    ⟨seconds 102, .cancelRestoreWithLease 7 9⟩]

/-- The cancellation of that run is final. -/
theorem cancelledWhileRunning_cancellation_final :
    CancellationFinal 7 ((sampleWorld cancelledWhileRunning).history.drop 8)
      (sampleWorld cancelledWhileRunning).committed :=
  cancellation_final (reachable_sampleWorld (by decide))
    (history_sampleWorld cancelledWhileRunning ⟨7, by decide⟩)
    ⟨⟨1, 2, "no", "r", rfl⟩, _, rfl⟩

end TaskTipsCloud

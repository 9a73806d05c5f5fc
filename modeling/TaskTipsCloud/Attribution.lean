import TaskTipsCloud.PurgeJobs
import TaskTipsCloud.Resumption

/-!
# Who an account purge is attributed to

The audit events that the worker writes for an account purge should name the administrator who asked
for it. The payload of the job carries that name, until the rows of the account are removed: the
payload that is written then lacks it, and the event of the completed purge names the owner.
-/

namespace TaskTipsCloud

open Txn

/-! ## What attribution promises -/

/-- An administrator asked for an account purge, and got this job. -/
def RequestsPurge (e : PurgeEvent) (jobId actorUserId : Uuid) : Prop :=
  AsksForPurge e jobId actorUserId ∧ e.before.job jobId = none ∧ e.after.job jobId ≠ none

/-- A call that ended a job of an account purge. -/
def EndsAccountPurge (e : PurgeEvent) (jobId : Uuid) : Prop :=
  (∃ leaseToken, e.request.call = .completeAccountPurge jobId leaseToken ∨
    ∃ exportId contentHash size, e.request.call =
      .completeAccountExport jobId leaseToken exportId contentHash size) ∧ e.result = .ok .done

/-- The audit event that a call wrote. -/
def WritesAudit (e : PurgeEvent) (event : AuditEvent) : Prop :=
  e.after.sync.auditEvents = e.before.sync.auditEvents ++ [event]

/-- Every audit event of an export that is ready, or of a completed purge, names the administrator
who asked for that job. -/
def PurgesAttributed (h : List PurgeEvent) : Prop :=
  ∀ h₁ e h₂ jobId, h = h₁ ++ e :: h₂ → EndsAccountPurge e jobId →
    ∃ event, WritesAudit e event ∧
      (event.action = "account.purge_export_ready" ∨ event.action = "account.purge_completed") ∧
      ∃ e₀ ∈ h₁, ∃ actorUserId, RequestsPurge e₀ jobId actorUserId ∧
        event.actorUserId = some actorUserId

/-- A purge or an export that is completed for a job whose payload was rewritten when the rows of
the account were removed. -/
def EndsDetached (e : PurgeEvent) : Prop :=
  ∃ jobId job, EndsAccountPurge e jobId ∧ e.before.job jobId = some job ∧
    isDetached job.payload = true

/-! ## The payloads over a run -/

/-- What holds of the account purges between the calls of a run: the administrator who got a job is
not its owner, and the payload names the administrator as long as the rows of the account are
there. -/
structure AttributionInv (h : List PurgeEvent) (d : PurgeDb) : Prop where
  ids : (d.jobs.map (·.id)).Nodup
  requested : ∀ i j, d.job i = some j → j.kind = .accountPurge →
    ∃ e ∈ h, ∃ actorUserId, RequestsPurge e i actorUserId
  named : ∀ e ∈ h, ∀ i actorUserId, RequestsPurge e i actorUserId →
    ∃ j, d.job i = some j ∧ j.ownerUserId ≠ actorUserId ∧
      (isDetached j.payload = false → uuidMember j.payload "requestedBy" = some actorUserId)
  detached : ∀ i j, d.job i = some j → j.kind = .accountPurge → isDetached j.payload = true →
    ∃ exportId keys, j.payload = detachedPayload exportId keys

section

variable {host : Host} {h : List PurgeEvent} {e : PurgeEvent}

/-- The payload of a job whose rows are gone names nobody. -/
theorem requestedBy_detachedPayload {exportId : Uuid} {keys : List String} :
    uuidMember (detachedPayload exportId keys) "requestedBy" = none := by
  simp [uuidMember, detachedPayload]

/-- A change of a job keeps its kind and its owner, and its payload, unless it detaches the job. -/
theorem PurgeJobChange.payload {job job' : JobRow} (hchange : PurgeJobChange e job job') :
    job'.kind = job.kind ∧ job'.ownerUserId = job.ownerUserId ∧ (job'.payload = job.payload ∨
      isDetached job'.payload = true ∧ (job.kind = .accountPurge → ∃ exportId keys,
        job'.payload = detachedPayload exportId keys)) := by
  cases hchange with
  | detached hcall hrunning hattached hdetached hpayload =>
    exact ⟨rfl, rfl, .inr ⟨hdetached, hpayload⟩⟩
  | _ => exact ⟨rfl, rfl, .inl rfl⟩

/-- Whatever is called, the jobs keep what attribution needs. -/
theorem AttributionInv.alone {d : PurgeDb} {q : PurgeRequest} (hinv : AttributionInv h d)
    (he : e = (purgeService host).alone q d) : AttributionInv (h ++ [e]) e.after := by
  have hd : e.before = d := by rw [he]; rfl
  have hstep : PurgeJobsStep e := he ▸ purgeJobsStep_alone host q hinv.ids
  subst hd
  -- In the order of the fields: the ids, who requested a job, whom it names, what a detached one
  -- holds.
  refine ⟨hstep.ids hinv.ids, fun i j' hj' hkind => ?_, fun e' he' i actorUserId hrequests => ?_,
    fun i j' hj' hkind hdetached => ?_⟩
  · cases hj : e.before.job i with
    | none =>
      obtain ⟨-, -, -, ⟨hproject, -⟩ | ⟨actorUserId, hasks, hrequested⟩⟩ := hstep.new hj hj'
      · cases hproject.symm.trans hkind
      · refine ⟨e, by simp, actorUserId, hasks, hj, ?_⟩
        rw [hj']
        exact Option.some_ne_none _
    | some j =>
      obtain ⟨j'', hj'', hchange⟩ := hstep.job hj
      obtain rfl := Option.some.inj (hj'.symm.trans hj'')
      have hsame : j'.kind = j.kind := by
        rcases hchange with rfl | hchange
        · rfl
        · exact hchange.payload.1
      -- A job that was there keeps its kind, and so the call that requested it.
      obtain ⟨e₀, he₀, actorUserId, hrequests⟩ := hinv.requested i j hj (hsame ▸ hkind)
      exact ⟨e₀, List.mem_append_left _ he₀, actorUserId, hrequests⟩
  · rcases List.mem_append.mp he' with he' | he'
    · -- A change of a job keeps its owner; its payload is kept or the job is detached.
      obtain ⟨j, hj, howner, hnamed⟩ := hinv.named e' he' i actorUserId hrequests
      obtain ⟨j', hj', rfl | hchange⟩ := hstep.job hj
      · exact ⟨j', hj', howner, hnamed⟩
      · obtain ⟨-, howner', hpayload | ⟨hdetached, -⟩⟩ := hchange.payload
        · exact ⟨j', hj', howner' ▸ howner, by rw [hpayload]; exact hnamed⟩
        · refine ⟨j', hj', howner' ▸ howner, fun hattached => ?_⟩
          rw [hdetached] at hattached
          cases hattached
    · -- The call inserted the job for the administrator that it names.
      obtain rfl := List.mem_singleton.mp he'
      obtain ⟨hasks, hnone, hsome⟩ := hrequests
      obtain ⟨j', hj'⟩ := Option.ne_none_iff_exists'.mp hsome
      obtain ⟨-, -, -, ⟨-, hnot⟩ | ⟨actor', hasks', hrequested⟩⟩ := hstep.new hnone hj'
      · exact absurd hasks (hnot i actorUserId)
      · obtain ⟨subject, exportId, reason, requestId, hcall⟩ := hasks
        obtain ⟨subject', exportId', reason', requestId', hcall'⟩ := hasks'
        have hactor : actor' = actorUserId := by
          rcases hcall with hcall | hcall <;> rcases hcall' with hcall' | hcall' <;>
            cases hcall.symm.trans hcall' <;> rfl
        subst hactor
        exact ⟨j', hj', hrequested.owner, fun _ => hrequested.requestedBy⟩
  · cases hj : e.before.job i with
    | none =>
      obtain ⟨-, -, -, ⟨hproject, -⟩ | ⟨actorUserId, hasks, hrequested⟩⟩ := hstep.new hj hj'
      · cases hproject.symm.trans hkind
      · cases hrequested.attached.symm.trans hdetached
    | some j =>
      obtain ⟨j'', hj'', hchange⟩ := hstep.job hj
      obtain rfl := Option.some.inj (hj'.symm.trans hj'')
      rcases hchange with rfl | hchange
      · exact hinv.detached i j' hj hkind hdetached
      · obtain ⟨hkind', -, hpayload | ⟨-, hpayload⟩⟩ := hchange.payload
        · rw [hpayload] at hdetached ⊢
          exact hinv.detached i j hj (hkind' ▸ hkind) hdetached
        · exact hpayload (hkind' ▸ hkind)

/-- The invariant holds in every serial run. -/
theorem attributionInv {users : List UserRow} {t₀ t : ℤ} {d : PurgeDb}
    (hrun : (purgeService host).Serial (.initial users) t₀ h d t) : AttributionInv h d := by
  refine hrun.invariant (J := fun h d _ => AttributionInv h d) ?_ ?_
  · exact ⟨List.nodup_nil, fun i j hj => (nomatch hj), fun e he => (nomatch he),
      fun i j hj => (nomatch hj)⟩
  · exact fun h d t q _ _ _ hinv => hinv.alone rfl

/-- What a call does that ended a job of an account purge. -/
theorem EndsAccountPurge.completes {q : PurgeRequest} {d : PurgeDb} {jobId : Uuid}
    (hends : EndsAccountPurge e jobId) (he : e = (purgeService host).alone q d) :
    ∃ leaseToken action,
      (action = "account.purge_export_ready" ∨ action = "account.purge_completed") ∧
        e.before.CompletesWith e.request.now jobId leaseToken action e.after := by
  obtain ⟨⟨leaseToken, hcall⟩, hresult⟩ := hends
  have hexecute : e.result = ((e.request.call.body host e.request.now).execute e.before).1 ∧
      e.after = ((e.request.call.body host e.request.now).execute e.before).2 := by
    rw [he]
    exact ⟨rfl, rfl⟩
  have hreturned : ∀ {action : String} {x : PurgeTx (Except PersistenceError Unit)},
      e.result = ((purging (fun _ => .done) x).execute e.before).1 →
      e.after = ((purging (fun _ => .done) x).execute e.before).2 →
      (∀ r d', x.run e.before = (.ok r, d') →
        e.before.CompletesWith e.request.now jobId leaseToken action d') →
      e.before.CompletesWith e.request.now jobId leaseToken action e.after := by
    intro action x hr hd hruns
    rw [purging, execute_bind_map] at hr hd
    rcases hx : x.execute e.before with ⟨r, d'⟩
    rw [hx] at hr hd
    rcases execute_cases hx with hrun | ⟨-, x, s, -, rfl⟩
    · rw [hd]
      exact hruns r d' hrun
    · rw [hresult] at hr
      cases hr
  rcases hcall with hcall | ⟨exportId, contentHash, size, hcall⟩
  · rw [hcall] at hexecute
    exact ⟨leaseToken, _, .inr rfl, hreturned hexecute.1 hexecute.2 fun _ _ hrun =>
      run_completeAccountPurge hrun⟩
  · rw [hcall] at hexecute
    exact ⟨leaseToken, _, .inl rfl, hreturned hexecute.1 hexecute.2 fun _ _ hrun =>
      run_completeAccountExport hrun⟩

/-- In every serial run, every audit event of an account purge names the administrator who asked for
the job, if and only if no job is completed whose payload was rewritten when the rows of the account
were removed. -/
theorem purgesAttributed_iff {users : List UserRow} {t₀ t : ℤ} {d : PurgeDb}
    (hrun : (purgeService host).Serial (.initial users) t₀ h d t) :
    PurgesAttributed h ↔ ∀ e ∈ h, ¬ EndsDetached e := by
  constructor
  · rintro hattributed e he ⟨jobId, job, hends, hjob, hdetached⟩
    obtain ⟨h₁, h₂, rfl⟩ := List.append_of_mem he
    obtain ⟨t₁, hrun₁, halone, -⟩ := hrun.split
    have hinv := attributionInv hrun₁
    obtain ⟨leaseToken, action, -, job', event', hleased, hactor', -, hwrites', -⟩ :=
      hends.completes halone
    obtain ⟨hfound, hkind⟩ := job_of_leasedPurge hleased
    cases hjob.symm.trans hfound
    obtain ⟨event, hwrites, -, e₀, he₀, actorUserId, hrequests, hactor⟩ :=
      hattributed h₁ e h₂ jobId rfl hends
    -- The payload names nobody, so the event names the owner.
    obtain ⟨exportId, keys, hpayload⟩ := hinv.detached jobId job hjob hkind hdetached
    rw [hpayload, requestedBy_detachedPayload, Option.getD_none] at hactor'
    have hsame : event = event' :=
      List.singleton_inj.mp (List.append_cancel_left (hwrites.symm.trans hwrites'))
    obtain ⟨j, hj, howner, -⟩ := hinv.named e₀ he₀ jobId actorUserId hrequests
    cases hjob.symm.trans hj
    rw [hsame, hactor'] at hactor
    exact howner (Option.some.inj hactor)
  · intro hattached h₁ e h₂ jobId hsplit hends
    subst hsplit
    obtain ⟨t₁, hrun₁, halone, -⟩ := hrun.split
    have hinv := attributionInv hrun₁
    obtain ⟨leaseToken, action, haction, job, event, hleased, hactor, hnamed, hwrites, -⟩ :=
      hends.completes halone
    obtain ⟨hjob, hkind⟩ := job_of_leasedPurge hleased
    obtain ⟨e₀, he₀, actorUserId, hrequests⟩ := hinv.requested jobId job hjob hkind
    obtain ⟨j, hj, -, hrequestedBy⟩ := hinv.named e₀ he₀ jobId actorUserId hrequests
    cases hjob.symm.trans hj
    have hnot : isDetached job.payload = false := by
      by_contra hdetached
      exact hattached e (by simp) ⟨jobId, job, hends, hjob, eq_true_of_ne_false hdetached⟩
    rw [hrequestedBy hnot, Option.getD_some] at hactor
    exact ⟨event, hwrites, hnamed ▸ haction, e₀, he₀, actorUserId, hrequests, hactor⟩

end

/-! ## Two runs -/

/-- An account is exported, and the purge is confirmed and claimed. -/
def confirmedAccount : List PurgeRequest :=
  [⟨0, .requestAccountPurgeExport 9 1 5 6 "left" "r"⟩, ⟨1, .claimAccountPurgeJob [] 8⟩,
    ⟨2, .completeAccountExport 5 8 6 sampleDigest 12⟩, ⟨3, .confirmAccountPurge 9 1 6 7 "left" "r"⟩,
    ⟨4, .claimAccountPurgeJob [] 10⟩]

/-- The export of that run is attributed to the administrator. -/
theorem confirmedAccount_attributed : PurgesAttributed (samplePurges confirmedAccount) := by
  obtain ⟨d, t, hrun⟩ := @serial_samplePurges confirmedAccount (by decide)
  refine (purgesAttributed_iff hrun).mpr fun e he => ?_
  rintro ⟨jobId, job, ⟨⟨leaseToken, hcall⟩, hresult⟩, hjob, hdetached⟩
  have hnone : (samplePurges confirmedAccount).all fun e =>
      e.before.jobs.all fun j => !isDetached j.payload := by decide +kernel
  have hattached := List.all_eq_true.mp (List.all_eq_true.mp hnone e he) job
    (List.mem_of_find?_eq_some hjob)
  rw [hdetached] at hattached
  cases hattached

/-- The completed purge of the other run is attributed to the owner of the account. -/
theorem purgedAccount_misattributed :
    (∃ d t, (purgeService sampleHost).Serial samplePurgeStart 0 (samplePurges purgedAccount) d t) ∧
      ¬ PurgesAttributed (samplePurges purgedAccount) := by
  obtain ⟨d, t, hrun⟩ := @serial_samplePurges purgedAccount (by decide)
  refine ⟨⟨d, t, hrun⟩, fun hattributed => ?_⟩
  obtain ⟨e, he, hcall, hresult, job, hjob, hdetached⟩ : ∃ e ∈ samplePurges purgedAccount,
      e.request.call = .completeAccountPurge 7 10 ∧ e.result = .ok .done ∧
        ∃ job, e.before.job 7 = some job ∧ isDetached job.payload = true :=
    ⟨_, List.mem_of_getElem? (i := 6) rfl, rfl, rfl, _, rfl, rfl⟩
  exact (purgesAttributed_iff hrun).mp hattributed e he
    ⟨7, job, ⟨⟨10, .inl hcall⟩, hresult⟩, hjob, hdetached⟩

end TaskTipsCloud

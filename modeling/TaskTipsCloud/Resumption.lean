import TaskTipsCloud.Deletion
import TaskTipsCloud.PurgeJobs

/-!
# Resuming the purge of an account

Once the rows of an account are gone, the job of its purge holds the keys of the objects that are
still to be deleted, and an attempt that fails should be resumed by the next one. The payload that
holds the keys has no phase, though, so every later attempt ends before it gets to them.
-/

namespace TaskTipsCloud

open Txn

/-! ## Payloads of detached jobs -/

section

variable {exportId : Uuid} {keys : List String}

/-- The payload that the preparation writes is that of a detached job. -/
theorem isDetached_detachedPayload : isDetached (detachedPayload exportId keys) = true := rfl

/-- It has no phase. -/
theorem payloadPhase_detachedPayload : payloadPhase (detachedPayload exportId keys) = "" := rfl

/-- The keys are read back as they were written. -/
theorem objectKeys_detachedPayload : objectKeys (detachedPayload exportId keys) = some keys := by
  have hmapM : ∀ keys : List String, (keys.map Json.str).mapM Json.str? = some keys := by
    intro keys
    induction keys with
    | nil => rfl
    | cons key keys ih => simp [ih]
  exact hmapM keys

end

/-! ## What resumption promises -/

/-- A call that returned the keys of a purge. -/
def PreparesAccount (e : PurgeEvent) (jobId : Uuid) (keys : List String) : Prop :=
  ∃ leaseToken, e.request.call = .prepareAccountPurge jobId leaseToken ∧
    e.result = .ok (.keys keys)

/-- A call that gave a job to a worker with a lease token. -/
def ClaimsAccount (e : PurgeEvent) (jobId leaseToken : Uuid) : Prop :=
  ∃ skipLocked job, e.request.call = .claimAccountPurgeJob skipLocked leaseToken ∧
    e.result = .ok (.claimed (some job)) ∧ job.id = jobId

/-- An attempt whose deletions of objects succeed completes, with these keys. -/
structure AttemptCompletes (now : Timestamp) (jobId leaseToken : Uuid) (keys : List String)
    (d : PurgeDb) : Prop where
  phase : ((accountPurgePhase now jobId leaseToken).execute d).1 = .ok "purge"
  keys : ((prepareAccountPurge now jobId leaseToken).execute d).1 = .ok keys
  completes : ((completeAccountPurge now jobId leaseToken).execute
    ((prepareAccountPurge now jobId leaseToken).execute d).2).1 = .ok ()

/-- Whenever an account purge is claimed after its rows are gone, the attempt can complete. -/
def PurgeResumes (h : List PurgeEvent) : Prop :=
  ∀ h₁ e h₂ jobId keys, h = h₁ ++ e :: h₂ → PreparesAccount e jobId keys →
    ∀ e' ∈ h₂, ∀ leaseToken, ClaimsAccount e' jobId leaseToken →
      AttemptCompletes e'.request.now jobId leaseToken keys e'.after

/-- A claim of a job whose rows are gone already. -/
def ReclaimsDetached (e : PurgeEvent) : Prop :=
  ∃ skipLocked leaseToken job, e.request.call = .claimAccountPurgeJob skipLocked leaseToken ∧
    nextPurge .accountPurge e.request.now skipLocked e.before = some job ∧
      isDetached job.payload = true

/-- It is decided from the call, the answer and the payload of the job. -/
instance (e : PurgeEvent) : Decidable (ReclaimsDetached e) :=
  decidable_of_iff (∃ job ∈ (match e.request.call with
      | .claimAccountPurgeJob skipLocked _ =>
        nextPurge .accountPurge e.request.now skipLocked e.before
      | _ => none).toList, isDetached job.payload = true) <| by
    unfold ReclaimsDetached
    constructor
    · rintro ⟨job, hjob, hdetached⟩
      split at hjob
      · rename_i hcall
        exact ⟨_, _, job, hcall, by simpa using hjob, hdetached⟩
      · cases hjob
    · rintro ⟨skipLocked, leaseToken, job, hcall, hnext, hdetached⟩
      refine ⟨job, ?_, hdetached⟩
      rw [hcall]
      simpa using hnext

/-! ## The payloads over a run -/

/-- An account purge whose rows are gone. -/
def JobRow.HoldsKeys (j : JobRow) (keys : List String) : Prop :=
  j.kind = .accountPurge ∧ ∃ exportId, j.payload = detachedPayload exportId keys

/-- What holds of account purges between the calls of a run. -/
structure ResumptionInv (h : List PurgeEvent) (d : PurgeDb) : Prop where
  ids : (d.jobs.map (·.id)).Nodup
  prepared : ∀ e ∈ h, ∀ i keys, PreparesAccount e i keys → ∃ j, d.job i = some j ∧ j.HoldsKeys keys
  detached : ∀ i j, d.job i = some j → j.kind = .accountPurge → isDetached j.payload = true →
    ∃ e ∈ h, ∃ keys, PreparesAccount e i keys

section

variable {host : Host} {h : List PurgeEvent} {e : PurgeEvent}

/-- A job that goes on holds the same keys. -/
theorem JobRow.HoldsKeys.follows {j j' : JobRow} {keys : List String} (h : j.HoldsKeys keys)
    (hj : j'.Follows j) : j'.HoldsKeys keys :=
  ⟨hj.kind.trans h.1, h.2.imp fun _ hpayload => hj.payload.trans hpayload⟩

/-- What a call does that returns the keys of a purge. -/
theorem preparesAccount_alone {now : Timestamp} {jobId leaseToken : Uuid} {keys : List String}
    {d : PurgeDb}
    (he : e = (purgeService host).alone ⟨now, .prepareAccountPurge jobId leaseToken⟩ d)
    (hresult : e.result = .ok (.keys keys)) :
    ∃ job, leasedPurge .accountPurge now jobId leaseToken d = some job ∧
      (isDetached job.payload = true ∧ objectKeys job.payload = some keys ∧ e.after = d ∨
        isDetached job.payload = false ∧ ∃ exportId, e.after.jobs =
          (d.updateJob jobId fun j =>
            { j with payload := detachedPayload exportId keys }).jobs) := by
  rcases hexecute : (prepareAccountPurge now jobId leaseToken).execute d with ⟨r, d'⟩
  have hboth : (e.result, e.after) = (r.map .keys, d') := by
    rw [he]
    change (purging .keys (prepareAccountPurge now jobId leaseToken)).execute d = _
    rw [purging, execute_bind_map, hexecute]
  obtain ⟨hr, rfl⟩ := Prod.mk.inj hboth
  rw [hresult] at hr
  rcases execute_cases hexecute with hrun | ⟨-, x, -, -, rfl⟩
  · obtain ⟨job, hjob, ⟨hdetached, ⟨keys', hkeys, rfl⟩, hafter⟩ |
      ⟨hattached, exportId, keys', devices, rfl, hafter⟩⟩ := run_prepareAccountPurge hrun
    · cases hr
      exact ⟨job, hjob, .inl ⟨hdetached, hkeys, hafter⟩⟩
    · cases hr
      refine ⟨job, hjob, .inr ⟨hattached, exportId, ?_⟩⟩
      rw [hafter]
  · cases hr

/-- A job that holds keys holds them on, whatever is called. -/
theorem PurgeStep.holdsKeys (hstep : PurgeStep host e) {i : Uuid} {j : JobRow} {keys : List String}
    (hj : e.before.job i = some j) (hkeys : j.HoldsKeys keys) :
    ∃ j', e.after.job i = some j' ∧ j'.HoldsKeys keys := by
  have hfollow : ∀ {new : JobRow → Prop}, e.before.JobsFollow e.after new →
      ∃ j', e.after.job i = some j' ∧ j'.HoldsKeys keys := fun hjobs => by
    obtain ⟨j', hj'⟩ := hjobs.kept i j hj
    rcases hjobs.follows i j' hj' with ⟨j₀, hj₀, hfollows⟩ | ⟨hnone, -⟩
    · cases hj.symm.trans hj₀
      exact ⟨j', hj', hkeys.follows hfollows⟩
    · rw [hj] at hnone
      cases hnone
  have hother : ∀ {jobId : Uuid} {payload : Json}, i ≠ jobId →
      e.after.jobs = (e.before.updateJob jobId fun j => { j with payload := payload }).jobs →
        ∃ j', e.after.job i = some j' ∧ j'.HoldsKeys keys := fun hi hjobs => by
    refine ⟨j, ?_, hkeys⟩
    rw [PurgeDb.job_of_payload hjobs, hj, Option.map_some, if_neg hi]
  cases hstep with
  | marked hcall hsync hjobs => exact hfollow hjobs
  | enqueued hcall hbefore howner hsync hafter hstatus hjobs => exact hfollow hjobs
  | projectRemoved hcall hjob hp hattached hsync hjobs =>
    refine hother (fun hi => ?_) hjobs
    obtain ⟨hfound, hkind⟩ := job_of_leasedPurge hjob
    cases hj.symm.trans (hi ▸ hfound)
    cases hkeys.1.symm.trans hkind
  | accountRemoved hcall hjob hattached hresult hsync hjobs =>
    refine hother (fun hi => ?_) hjobs
    cases hj.symm.trans (hi ▸ (job_of_leasedPurge hjob).1)
    obtain ⟨-, exportId, hpayload⟩ := hkeys
    rw [hpayload] at hattached
    cases hattached
  | sync hcall hrequest hbefore hafter hresult hout hjobs =>
    exact @hfollow (fun _ => False) (.of_eq hjobs)

/-- A step keeps the identifiers of the jobs distinct. -/
theorem PurgeStep.ids (hstep : PurgeStep host e) (h : (e.before.jobs.map (·.id)).Nodup) :
    (e.after.jobs.map (·.id)).Nodup := by
  cases hstep with
  | marked hcall hsync hjobs => exact hjobs.ids h
  | enqueued hcall hbefore howner hsync hafter hstatus hjobs => exact hjobs.ids h
  | projectRemoved hcall hjob hp hattached hsync hjobs
  | accountRemoved hcall hjob hattached hresult hsync hjobs =>
    rw [hjobs, PurgeDb.ids_updateJob]
    · exact h
    · exact fun _ => rfl
  | sync hcall hrequest hbefore hafter hresult hout hjobs => rwa [hjobs]

/-- A job of an account whose rows are gone is the work of a call. -/
theorem PurgeStep.detached (hstep : PurgeStep host e) {i : Uuid} {j' : JobRow}
    (hj' : e.after.job i = some j') (hkind : j'.kind = .accountPurge)
    (hdetached : isDetached j'.payload = true) :
    (∃ j, e.before.job i = some j ∧ j.kind = .accountPurge ∧ isDetached j.payload = true) ∨
      ∃ keys, PreparesAccount e i keys := by
  have hfollow : ∀ {new : JobRow → Prop}, e.before.JobsFollow e.after new → ¬ new j' →
      ∃ j, e.before.job i = some j ∧ j.kind = .accountPurge ∧ isDetached j.payload = true :=
    fun hjobs hnew => by
      rcases hjobs.follows i j' hj' with ⟨j, hj, hfollows⟩ | ⟨-, hnew'⟩
      · exact ⟨j, hj, hfollows.kind ▸ hkind, hfollows.payload ▸ hdetached⟩
      · exact absurd hnew' hnew
  cases hstep with
  | marked hcall hsync hjobs =>
    refine .inl (hfollow hjobs fun hnew => ?_)
    rw [hdetached] at hnew
    cases hnew.2
  | enqueued hcall hbefore howner hsync hafter hstatus hjobs =>
    refine .inl (hfollow hjobs fun hnew => ?_)
    rw [hkind] at hnew
    cases hnew.1
  | projectRemoved hcall hjob hp hattached hsync hjobs =>
    obtain ⟨j, hj, ⟨-, rfl⟩ | ⟨rfl, rfl⟩⟩ := PurgeDb.exists_job_of_payload hjobs hj'
    · exact .inl ⟨j', hj, hkind, hdetached⟩
    · obtain ⟨hfound, hproject⟩ := job_of_leasedPurge hjob
      cases hj.symm.trans hfound
      cases hproject.symm.trans hkind
  | accountRemoved hcall hjob hattached hresult hsync hjobs =>
    obtain ⟨j, hj, ⟨-, rfl⟩ | ⟨rfl, rfl⟩⟩ := PurgeDb.exists_job_of_payload hjobs hj'
    · exact .inl ⟨j', hj, hkind, hdetached⟩
    · exact .inr ⟨_, _, hcall, hresult⟩
  | sync hcall hrequest hbefore hafter hresult hout hjobs =>
    exact .inl (@hfollow (fun _ => False) (.of_eq hjobs) id)

/-- The keys that a call returned are on the job. -/
theorem ResumptionInv.holdsKeys {d : PurgeDb} {q : PurgeRequest} (hinv : ResumptionInv h d)
    (he : e = (purgeService host).alone q d) {i : Uuid} {keys : List String}
    (hprepares : PreparesAccount e i keys) : ∃ j, e.after.job i = some j ∧ j.HoldsKeys keys := by
  obtain ⟨leaseToken, hcall, hresult⟩ := hprepares
  obtain ⟨now, call⟩ := q
  have hrequest : call = .prepareAccountPurge i leaseToken := by rw [he] at hcall; exact hcall
  subst hrequest
  obtain ⟨job, hjob, ⟨hdetached, hkeys, hafter⟩ | ⟨hattached, exportId, hafter⟩⟩ :=
    preparesAccount_alone he hresult
  · -- The keys were on the job before.
    obtain ⟨hfound, hkind⟩ := job_of_leasedPurge hjob
    obtain ⟨e₀, he₀, keys₀, hprepares⟩ := hinv.detached i job hfound hkind hdetached
    obtain ⟨j, hj, -, exportId, hpayload⟩ := hinv.prepared e₀ he₀ i keys₀ hprepares
    cases hfound.symm.trans hj
    rw [hpayload, objectKeys_detachedPayload] at hkeys
    cases hkeys
    exact ⟨job, by rw [hafter]; exact hfound, hkind, exportId, hpayload⟩
  · obtain ⟨hfound, hkind⟩ := job_of_leasedPurge hjob
    refine ⟨{ job with payload := detachedPayload exportId keys }, ?_, hkind, exportId, rfl⟩
    rw [PurgeDb.job_of_payload hafter, hfound, Option.map_some, if_pos rfl]

/-- The jobs hold the keys that calls returned, whatever is called. -/
theorem ResumptionInv.alone {d : PurgeDb} {q : PurgeRequest} (hinv : ResumptionInv h d)
    (he : e = (purgeService host).alone q d) : ResumptionInv (h ++ [e]) e.after := by
  have hd : e.before = d := by rw [he]; rfl
  have hstep : PurgeStep host e := he ▸ purgeStep_alone host q d
  refine ⟨hstep.ids (hd ▸ hinv.ids), fun e' he' i keys hprepares => ?_,
    fun i j' hj' hkind hdetached => ?_⟩
  · rcases List.mem_append.mp he' with he' | he'
    · obtain ⟨j, hj, hkeys⟩ := hinv.prepared e' he' i keys hprepares
      exact hstep.holdsKeys (hd ▸ hj) hkeys
    · rw [List.mem_singleton.mp he'] at hprepares
      exact hinv.holdsKeys he hprepares
  · rcases hstep.detached hj' hkind hdetached with ⟨j, hj, hkind, hdetached⟩ | ⟨keys, hprepares⟩
    · obtain ⟨e', he', keys, hprepares⟩ := hinv.detached i j (hd ▸ hj) hkind hdetached
      exact ⟨e', List.mem_append_left _ he', keys, hprepares⟩
    · exact ⟨e, List.mem_append_right _ (List.mem_singleton_self e), keys, hprepares⟩

/-- The invariant holds in every serial run. -/
theorem resumptionInv {users : List UserRow} {t₀ t : ℤ} {d : PurgeDb}
    (hrun : (purgeService host).Serial (.initial users) t₀ h d t) : ResumptionInv h d := by
  refine hrun.invariant (J := fun h d _ => ResumptionInv h d) ?_ ?_
  · exact ⟨List.nodup_nil, fun e he => (nomatch he), fun i j hj => (nomatch hj)⟩
  · exact fun h d t q _ _ _ hinv => hinv.alone rfl

/-! ## Claims -/

/-- A call that gave a job to a worker found it. -/
theorem ClaimsAccount.next {q : PurgeRequest} {d : PurgeDb} {jobId leaseToken : Uuid}
    (hclaims : ClaimsAccount e jobId leaseToken) (he : e = (purgeService host).alone q d) :
    ∃ skipLocked job, e.request.call = .claimAccountPurgeJob skipLocked leaseToken ∧
      nextPurge .accountPurge e.request.now skipLocked e.before = some job ∧ job.id = jobId := by
  obtain ⟨skipLocked, _, hcall, hresult, hid⟩ := hclaims
  obtain ⟨job, hnext, rfl, -⟩ := @next_of_claimed host e .accountPurge _ _ _ _ _ he hcall hresult
  exact ⟨skipLocked, job, hcall, hnext, hid⟩

/-- A worker that has claimed a job has its lease. -/
theorem leasedPurge_of_claimed {kind : JobKind} {now : Timestamp} {leaseToken : Uuid} {d : PurgeDb}
    {job : JobRow} (hids : (d.jobs.map (·.id)).Nodup) (hmem : job ∈ d.jobs)
    (hkind : job.kind = kind) :
    leasedPurge kind now job.id leaseToken (d.updateJob job.id (·.claimed now leaseToken)) =
      some (job.claimed now leaseToken) := by
  have hfound : (d.updateJob job.id (·.claimed now leaseToken)).job job.id =
      some (job.claimed now leaseToken) := by
    rw [PurgeDb.job_updateJob]
    · have hjob : d.job job.id = some job := find?_key_eq hids hmem
      rw [hjob, Option.map_some, if_pos (beq_self_eq_true _)]
    · exact fun _ => rfl
  have hlease : now < now + purgeLease := Int.lt_add_of_pos_right now (by decide)
  rw [leasedPurge, runningPurge, hfound]
  simp [JobRow.claimed, hkind, hlease]

/-- A job whose rows are gone has no phase. -/
theorem accountPurgePhase_detached {now : Timestamp} {jobId leaseToken : Uuid} {d : PurgeDb}
    {job : JobRow} {keys : List String}
    (hjob : leasedPurge .accountPurge now jobId leaseToken d = some job)
    (hkeys : job.HoldsKeys keys) :
    ((accountPurgePhase now jobId leaseToken).execute d).1 = .error .invalidPayload := by
  obtain ⟨-, exportId, hpayload⟩ := hkeys
  simp only [accountPurgePhase, Txn.execute, bind_eq, query_bind, run_read, hjob, orThrow,
    pure_bind, hpayload, payloadPhase_detachedPayload]
  rfl

/-- The keys of a job whose rows are gone are returned again. -/
theorem prepareAccountPurge_detached {now : Timestamp} {jobId leaseToken : Uuid} {d : PurgeDb}
    {job : JobRow} {keys : List String}
    (hjob : leasedPurge .accountPurge now jobId leaseToken d = some job)
    (hkeys : job.HoldsKeys keys) :
    (prepareAccountPurge now jobId leaseToken).execute d = (.ok keys, d) := by
  obtain ⟨-, exportId, hpayload⟩ := hkeys
  simp only [prepareAccountPurge, Txn.execute, bind_eq, query_bind, run_read, hjob, orThrow,
    pure_bind, hpayload, isDetached_detachedPayload, if_true, objectKeys_detachedPayload]
  rfl

/-- An attempt that claims a job whose rows are gone gets no phase, and would get the keys. -/
theorem phase_of_reclaimed {users : List UserRow} {t₀ t : ℤ} {d : PurgeDb} {h₁ h₂ : List PurgeEvent}
    (hrun : (purgeService host).Serial (.initial users) t₀ (h₁ ++ e :: h₂) d t)
    {skipLocked : List Uuid} {leaseToken : Uuid} {job : JobRow}
    (hcall : e.request.call = .claimAccountPurgeJob skipLocked leaseToken)
    (hnext : nextPurge .accountPurge e.request.now skipLocked e.before = some job)
    (hdetached : isDetached job.payload = true) : ClaimsAccount e job.id leaseToken ∧
      ∃ e₀ ∈ h₁, ∃ keys, PreparesAccount e₀ job.id keys ∧
        ((accountPurgePhase e.request.now job.id leaseToken).execute e.after).1 =
            .error .invalidPayload ∧
          ((prepareAccountPurge e.request.now job.id leaseToken).execute e.after).1 = .ok keys := by
  obtain ⟨t₁, hrun₁, halone, -⟩ := hrun.split
  have hinv := resumptionInv hrun₁
  obtain ⟨hmem, hkind, -⟩ := claimable_of_nextPurge hnext
  have hfound : e.before.job job.id = some job := find?_key_eq hinv.ids hmem
  obtain ⟨e₀, he₀, keys, hprepares⟩ := hinv.detached _ _ hfound hkind hdetached
  obtain ⟨j, hj, hkeys⟩ := hinv.prepared e₀ he₀ _ _ hprepares
  cases hfound.symm.trans hj
  have hboth := @claim_alone host e .accountPurge _ _ _ _ halone hcall
  rw [hnext, Prod.mk.injEq] at hboth
  obtain ⟨hresult, hafter⟩ := hboth
  have hlease := @leasedPurge_of_claimed _ e.request.now leaseToken _ _ hinv.ids hmem hkind
  have hkeys' : (job.claimed e.request.now leaseToken).HoldsKeys keys := hkeys
  rw [hafter]
  exact ⟨⟨skipLocked, _, hcall, hresult, rfl⟩, e₀, he₀, keys, hprepares,
    accountPurgePhase_detached hlease hkeys',
    congrArg Prod.fst (prepareAccountPurge_detached hlease hkeys')⟩

/-- A claim of a job whose rows are gone ends in an error. -/
theorem not_purgeResumes_of_reclaims {users : List UserRow} {t₀ t : ℤ} {d : PurgeDb}
    (hrun : (purgeService host).Serial (.initial users) t₀ h d t) (he : e ∈ h)
    (hreclaims : ReclaimsDetached e) : ¬ PurgeResumes h := by
  intro hresumes
  obtain ⟨skipLocked, leaseToken, job, hcall, hnext, hdetached⟩ := hreclaims
  obtain ⟨h₁, h₂, rfl⟩ := List.append_of_mem he
  obtain ⟨hclaims, e₀, he₀, keys, hprepares, hphase, -⟩ :=
    phase_of_reclaimed hrun hcall hnext hdetached
  obtain ⟨g₁, g₂, rfl⟩ := List.append_of_mem he₀
  have hcompletes := hresumes g₁ e₀ (g₂ ++ e :: h₂) job.id keys (by simp) hprepares e (by simp)
    leaseToken hclaims
  rw [hcompletes.phase] at hphase
  cases hphase

/-- In every serial run, every attempt that claims an account purge whose rows are gone can
complete, if and only if none is claimed. -/
theorem purgeResumes_iff {users : List UserRow} {t₀ t : ℤ} {d : PurgeDb}
    (hrun : (purgeService host).Serial (.initial users) t₀ h d t) :
    PurgeResumes h ↔ ∀ e ∈ h, ¬ ReclaimsDetached e := by
  constructor
  · exact fun hresumes e he hreclaims => not_purgeResumes_of_reclaims hrun he hreclaims hresumes
  · intro hreclaims h₁ e₀ h₂ jobId keys hsplit hprepares e he leaseToken hclaims
    subst hsplit
    obtain ⟨g₁, g₂, rfl⟩ := List.append_of_mem he
    have hrun' : (purgeService host).Serial (.initial users) t₀
        ((h₁ ++ e₀ :: g₁) ++ e :: g₂) d t := by simpa using hrun
    obtain ⟨t₁, hrun₁, halone, -⟩ := hrun'.split
    have hinv := resumptionInv hrun₁
    obtain ⟨skipLocked, job, hcall, hnext, rfl⟩ := hclaims.next halone
    have hfound : e.before.job job.id = some job :=
      find?_key_eq hinv.ids (claimable_of_nextPurge hnext).1
    obtain ⟨j, hj, -, exportId, hpayload⟩ := hinv.prepared e₀ (by simp) _ _ hprepares
    cases hfound.symm.trans hj
    refine absurd ⟨skipLocked, leaseToken, job, hcall, hnext, ?_⟩ (hreclaims e (by simp))
    rw [hpayload]
    exact isDetached_detachedPayload

/-- Once a call has returned the keys of a purge, no attempt gets a phase. -/
theorem not_phase_of_prepared {users : List UserRow} {t₀ t : ℤ} {d : PurgeDb}
    {h₁ h₂ : List PurgeEvent} {jobId : Uuid} {keys : List String}
    (hrun : (purgeService host).Serial (.initial users) t₀ (h₁ ++ e :: h₂) d t)
    (hprepares : PreparesAccount e jobId keys) {e' : PurgeEvent} (he' : e' ∈ h₂) {leaseToken : Uuid}
    (hcall : e'.request.call = .accountPurgePhase jobId leaseToken) (phase : String) :
    e'.result ≠ .ok (.phase phase) := by
  obtain ⟨g₁, g₂, rfl⟩ := List.append_of_mem he'
  have hrun' :
      (purgeService host).Serial (.initial users) t₀ ((h₁ ++ e :: g₁) ++ e' :: g₂) d t := by
    simpa using hrun
  obtain ⟨t₁, hrun₁, halone, -⟩ := hrun'.split
  obtain ⟨j, hj, hkeys⟩ := (resumptionInv hrun₁).prepared e (by simp) _ _ hprepares
  have hresult : e'.result =
      (((accountPurgePhase e'.request.now jobId leaseToken).execute e'.before).1).map .phase := by
    have hresult := congrArg Event.result halone
    change _ = ((e'.request.call.body host e'.request.now).execute e'.before).1 at hresult
    rw [hresult, hcall, PurgeCall.body, purging, execute_bind_map]
  rw [hresult]
  cases hleased : leasedPurge .accountPurge e'.request.now jobId leaseToken e'.before with
  | none =>
    simp only [accountPurgePhase, Txn.execute, bind_eq, query_bind, run_read, hleased, orThrow,
      throw_bind, run_throw, settle]
    exact fun h => by cases h
  | some job =>
    cases hj.symm.trans (job_of_leasedPurge hleased).1
    rw [accountPurgePhase_detached hleased hkeys]
    exact fun h => by cases h

end

/-! ## Two runs -/

/-- An account is exported, its purge is confirmed, and an attempt takes its rows away. -/
def detachedAccount : List PurgeRequest :=
  [⟨0, .requestAccountPurgeExport 9 1 5 6 "left" "r"⟩, ⟨1, .claimAccountPurgeJob [] 8⟩,
    ⟨2, .completeAccountExport 5 8 6 sampleDigest 12⟩, ⟨3, .confirmAccountPurge 9 1 6 7 "left" "r"⟩,
    ⟨4, .claimAccountPurgeJob [] 10⟩, ⟨5, .prepareAccountPurge 7 10⟩]

/-- The attempt completes. -/
def purgedAccount : List PurgeRequest := detachedAccount ++ [⟨6, .completeAccountPurge 7 10⟩]

/-- The deletion of an object fails, and the next attempt asks for the phase. -/
def strandedAccount : List PurgeRequest :=
  detachedAccount ++ [⟨6, .failAccountPurge 7 10 "OBJECT_STORE"⟩,
    ⟨6 + seconds 60, .claimAccountPurgeJob [] 11⟩, ⟨6 + seconds 60, .accountPurgePhase 7 11⟩]

/-- In the first run no attempt has to be resumed. -/
theorem purgedAccount_resumes : PurgeResumes (samplePurges purgedAccount) := by
  obtain ⟨d, t, hrun⟩ := @serial_samplePurges purgedAccount (by decide)
  exact (purgeResumes_iff hrun).mpr (by decide +kernel)

/-- In the second run the account stays behind without its rows. -/
theorem strandedAccount_stranded :
    (∃ d t, (purgeService sampleHost).Serial samplePurgeStart 0
      (samplePurges strandedAccount) d t) ∧
    (samplePurges strandedAccount).getLast?.map (·.result) = some (.error .invalidPayload) ∧
      ¬ PurgeResumes (samplePurges strandedAccount) := by
  obtain ⟨d, t, hrun⟩ := @serial_samplePurges strandedAccount (by decide)
  have hreclaims : ∃ e ∈ samplePurges strandedAccount, ReclaimsDetached e := by decide +kernel
  obtain ⟨e, he, hreclaims⟩ := hreclaims
  exact ⟨⟨d, t, hrun⟩, rfl, not_purgeResumes_of_reclaims hrun he hreclaims⟩

end TaskTipsCloud

import TaskTipsCloud.Coherence

/-!
# What a finished request did

The requests that finish in a run are told apart by their effect on the database (`EventEffect`),
and by their effect on the rows of one project (`ProjectStep`).
-/

namespace TaskTipsCloud

open Txn Versions

/-- What a finished request did to the database. -/
inductive EventEffect (host : Host) (e : SyncEvent) : Prop
  | unchanged (h : e.after = e.before)
  | quiet (hquiet : e.request.call.isQuiet = true) {H : Set Lock}
      (h : Db.Quiet H e.before e.after)
      (htouches : e.before.Touches e.request.call.tables e.after)
  | created {userId projectId : Uuid} {name : String} {row : ProjectRow}
      (hcall : e.request.call = .createProject userId projectId name)
      (hnone : e.before.project row.id = none) (hseq : row.changeSeq = 0)
      (hgeneration : row.generation = 1)
      (h : e.after = { e.before with projects := e.before.projects ++ [row] })
  | collected {projectId : Uuid} {contentHash : String} {olderThan : Timestamp}
      (hcall : e.request.call = .collectPayload projectId contentHash olderThan)
      (h : e.after = { e.before with payloads := e.after.payloads })
  | purged {inBatch : IdempotencyRecord → Bool}
      (hcall : e.request.call = .purgeExpiredIdempotencyRecords inBatch)
      (h : e.after = e.before.purged e.request.now inBatch)
  | replayed {a : PushArgs} (hcall : e.request.call = .pushWithOutcome a)
      (h : e.after = e.before.withoutExpired e.request.now a)
  | pushed {a : PushArgs} {r : Except PersistenceError PushOutcome}
      (hcall : e.request.call = .pushWithOutcome a) (hresult : e.result = r.map .pushed)
      (hnew : (e.before.withoutExpired e.request.now a).recordsFor a = [])
      (h : PushEffect host e.request.now a (e.before.withoutExpired e.request.now a) r e.after)
  | completed {a : BootstrapPageArgs} {page : BootstrapPage}
      (hcall : e.request.call = .bootstrapManifestPage a)
      (hresult : e.result = .ok (.bootstrapPage page)) (hlast : page.hasMore = false)
      (h : e.after = e.before.withCompletion (a.completion e.request.now page))
  | restored {targetOrder currentOrder : ScanOrder} {jobId leaseToken : Uuid}
      (hcall : e.request.call = .executeRestoreWithLease targetOrder currentOrder jobId leaseToken)
      (hresult : e.result = .ok .done)
      (h : RestoreEffect Db.Rely e.request.now targetOrder currentOrder jobId leaseToken e.before
        e.after)

/-- Every finished request had one of the effects. -/
theorem eventEffect_of_outcome {host : Host} {e : SyncEvent} (hsound : e.before.Sound)
    (h : (service host).Outcome Db.Rely e) : EventEffect host e := by
  obtain ⟨H, b, ⟨hruns, hafter⟩ | ⟨_, -, -, hafter⟩⟩ := h
  · obtain ⟨⟨now, call⟩, result, before, after, clock⟩ := e
    simp only at hruns hafter hsound
    subst hafter
    by_cases hquiet : call.isQuiet = true
    · exact .quiet hquiet (Call.quiet hquiet hruns).1 (Call.quiet hquiet hruns).2
    · cases call with
      | createProject userId projectId name =>
        obtain ⟨r, hcreate, -⟩ := runs_replying_iff.mp hruns
        obtain ⟨row, hnone, hseq, hgeneration, -, heq⟩ := runs_createProject hcreate
        exact .created rfl hnone hseq hgeneration heq
      | collectPayload =>
        obtain ⟨r, hcollect, -⟩ := runs_replying_iff.mp hruns
        exact .collected rfl (runs_collectPayload hcollect)
      | purgeExpiredIdempotencyRecords =>
        obtain ⟨r, hpurge, -⟩ := runs_replying_iff.mp hruns
        exact .purged rfl (runs_purgeExpiredIdempotencyRecords hpurge)
      | pushWithOutcome a =>
        obtain ⟨r, hpush, hr⟩ := runs_replying_iff.mp hruns
        rcases runs_pushWithOutcome_ok hpush with heq | ⟨hnew, heffect⟩
        · exact .replayed rfl heq
        · exact .pushed rfl hr hnew heffect
      | bootstrapManifestPage a =>
        obtain ⟨r, hpage, hr⟩ := runs_replying_iff.mp hruns
        obtain ⟨page, rfl, ⟨-, heq⟩ | ⟨hlast, heq⟩⟩ := runs_bootstrapManifestPage hpage
        · exact .unchanged heq
        · exact .completed rfl hr hlast heq
      | executeRestoreWithLease =>
        obtain ⟨r, hrestore, hr⟩ := runs_replying_iff.mp hruns
        obtain ⟨rfl, heffect⟩ :=
          runs_executeRestoreWithLease (fun _ _ hR => hR) hsound.coherent hrestore
        exact .restored rfl hr heffect
      | _ => simp [Call.isQuiet] at hquiet
  · exact .unchanged hafter

/-- A finished restore had its effect. -/
theorem restoreEffect_of_outcome {host : Host} {e : SyncEvent} (hsound : e.before.Sound)
    (h : (service host).Outcome Db.Rely e) {targetOrder currentOrder : ScanOrder}
    {jobId leaseToken : Uuid} {r : Reply} (hcall : e.request.call =
      .executeRestoreWithLease targetOrder currentOrder jobId leaseToken)
    (hresult : e.result = .ok r) :
    RestoreEffect Db.Rely e.request.now targetOrder currentOrder jobId leaseToken e.before
      e.after := by
  obtain ⟨H, b, ⟨hruns, hafter⟩ | ⟨_, -, herror, -⟩⟩ := h
  · rw [hafter]
    change Runs _ _ (e.request.call.body host e.request.now) ∅ id _ H b at hruns
    rw [hcall] at hruns
    obtain ⟨r, hrestore, -⟩ := runs_replying_iff.mp hruns
    exact (runs_executeRestoreWithLease (fun _ _ hR => hR) hsound.coherent hrestore).2
  · rw [herror] at hresult
    cases hresult

/-- A finished request wrote to the tables of its call. -/
theorem EventEffect.touches {host : Host} {e : SyncEvent} (h : EventEffect host e) :
    e.before.Touches e.request.call.tables e.after := by
  cases h with
  | unchanged h =>
    rw [h]
    exact .rfl
  | quiet hquiet h htouches => exact htouches
  | created hcall hnone hseq hgeneration h =>
    rw [hcall, h]
    rfl
  | collected hcall h =>
    rw [hcall, h]
    rfl
  | purged hcall h | replayed hcall h =>
    rw [hcall, h]
    rfl
  | pushed hcall hresult hnew h =>
    rw [hcall]
    generalize e.after = d' at h
    cases h with
    | failed => rfl
    | applied =>
      rw [Db.appendAll_eq]
      rfl
  | completed hcall hresult hlast h =>
    rw [hcall, h]
    rfl
  | restored hcall hresult h =>
    rw [hcall]
    generalize e.after = d' at h
    obtain ⟨⟩ := h
    rw [Db.appendAll_eq]
    rfl

/-! ## One project -/

/-- A project that took some sequences. -/
def ProjectRow.advanced (p : ProjectRow) (now : Timestamp) (rs : List ObjectRevision) :
    ProjectRow :=
  { p with changeSeq := p.changeSeq + rs.length, updatedAt := if rs = [] then p.updatedAt else now }

/-- What a finished request did to the rows of a project. -/
inductive ProjectStep (e : SyncEvent) (p : Uuid) : Prop
  | kept (h : (e.after.data p).Resembles (e.before.data p))
  | created {row : ProjectRow} (hbefore : e.before.project p = none) (hp : row.id = p)
      (hgeneration : row.generation = 1)
      (hafter : e.after.data p = { e.before.data p with project := some row })
  | pushed {a : PushArgs} {row : ProjectRow} {rs : List ObjectRevision}
      (hcall : e.request.call = .pushWithOutcome a) (hp : a.projectId = p)
      (hrow : e.before.project p = some row) (hactive : row.status = .active)
      (hgeneration : a.expectedGeneration = row.generation)
      (hbootstrapped : bootstrapped a row.generation e.before)
      (hdevice : ∀ r ∈ rs, r.deviceId = a.deviceId)
      (hrevisions : e.after.revisionsOf p = e.before.revisionsOf p ++ rs)
      (hafter : e.after.project p = some (row.advanced e.request.now rs))
  | restored {targetOrder currentOrder : ScanOrder} {jobId leaseToken : Uuid} {job : RestoreJob}
      {row : ProjectRow} {rs : List ObjectRevision}
      (hcall : e.request.call = .executeRestoreWithLease targetOrder currentOrder jobId leaseToken)
      (hjob : leasedJob jobId leaseToken e.before = some job) (hp : job.projectId = p)
      (hrow : e.before.project p = some row) (hstatus : row.status = .maintenance)
      (hrevisions : e.after.revisionsOf p = e.before.revisionsOf p ++ rs)
      (hafter : e.after.project p = some { row.advanced e.request.now rs with
        generation := row.generation + 1, status := .active, updatedAt := e.request.now })

/-- The items of a push append revisions of its device. -/
theorem ItemEffects.deviceId {now : Timestamp} {a : PushArgs} {d : Db}
    {revisions : List NewSyncRevision} {results : List PushItemResult} {rs : List ObjectRevision}
    (h : ItemEffects now a d revisions results rs) : ∀ r ∈ rs, r.deviceId = a.deviceId := by
  induction h with
  | nil => simp
  | cons h hs ih =>
    intro r hr
    rcases List.mem_append.mp hr with hr | hr
    · cases h with
      | skipped h => cases hr
      | applied payloadId hrow hbase =>
        rw [List.mem_singleton.mp hr]
        rfl
    · exact ih r hr

/-- What an executed push did to a project. -/
theorem PushEffect.projectStep {host : Host} {e : SyncEvent} {a : PushArgs}
    {r : Except PersistenceError PushOutcome} (hcall : e.request.call = .pushWithOutcome a)
    (h : PushEffect host e.request.now a (e.before.withoutExpired e.request.now a) r e.after)
    (p : Uuid) : ProjectStep e p := by
  generalize hafter : e.after = d' at h
  cases h with
  | failed herror hresponse =>
    refine .kept ?_
    rw [hafter]
    exact .rfl
  | applied hrow hactive hgeneration hbootstrapped hitems hresponse =>
    rename_i row results rs response
    have hdata : e.after.data p =
        ((e.before.withoutExpired e.request.now a).appendAll e.request.now rs).data p := by
      rw [hafter]
      rfl
    by_cases hp : a.projectId = p
    · have hrs : ∀ r ∈ rs, r.projectId = p := fun r hr => by rw [hitems.projectId r hr, hp]
      have hrow' : e.before.project p = some row := hp ▸ (visibleProject_eq_some_iff.mp hrow).1
      refine .pushed hcall hp hrow' hactive hgeneration hbootstrapped hitems.deviceId ?_ ?_
      · exact (congrArg ProjectData.revisions hdata).trans (Db.revisionsOf_appendAll hrs)
      · exact (congrArg ProjectData.project hdata).trans (Db.project_appendAll hrs hrow')
    · refine .kept ?_
      rw [hdata, Db.data_appendAll_of_ne fun r hr => by rwa [hitems.projectId r hr]]
      exact .rfl

/-- The restored items are of the project. -/
theorem projectId_of_restored {now : Timestamp} {p ownerUserId : Uuid} {current : List ManifestRow}
    {items : List ManifestItem} {rs : List ObjectRevision}
    (h : List.Forall₂ (IsRestored now p ownerUserId current) items rs) :
    ∀ r ∈ rs, r.projectId = p := by
  induction h with
  | nil => simp
  | cons hr _ ih =>
    obtain ⟨payloadId, rfl⟩ := hr
    exact List.forall_mem_cons.mpr ⟨rfl, ih⟩

/-- What a restore did to a project. -/
theorem RestoreEffect.projectStep {R : Set Lock → Db → Db → Prop} {e : SyncEvent}
    {targetOrder currentOrder : ScanOrder} {jobId leaseToken : Uuid}
    (hcall : e.request.call = .executeRestoreWithLease targetOrder currentOrder jobId leaseToken)
    (h : RestoreEffect R e.request.now targetOrder currentOrder jobId leaseToken e.before e.after)
    (p : Uuid) : ProjectStep e p := by
  generalize hafter : e.after = d' at h
  obtain ⟨hjob, hrequested, hrow, hstatus, htarget, hall, hitems⟩ := h
  rename_i job row target rs
  have hrs := projectId_of_restored hitems
  by_cases hp : job.projectId = p
  · subst hp
    have hdata := congrArg (Db.data · job.projectId) hafter
    simp only [Db.data_finished, Db.project_appendAll hrs hrow, Option.map_some] at hdata
    refine .restored hcall hjob rfl hrow hstatus ?_ (congrArg ProjectData.project hdata)
    exact (congrArg ProjectData.revisions hdata).trans (Db.revisionsOf_appendAll hrs)
  · refine .kept ?_
    rw [hafter, Db.data_finished_of_ne hp, Db.data_appendAll_of_ne fun r hr => by rwa [hrs r hr]]
    exact .rfl

/-- What a finished request did to a project. -/
theorem EventEffect.projectStep {host : Host} {e : SyncEvent} (h : EventEffect host e) (p : Uuid) :
    ProjectStep e p := by
  cases h with
  | unchanged h => exact .kept (h ▸ .rfl)
  | quiet hquiet h htouches => exact .kept (h.resembles p)
  | created hcall hnone hseq hgeneration h =>
    rename_i row
    by_cases hp : row.id = p
    · subst hp
      refine .created hnone rfl hgeneration ?_
      unfold Db.project at hnone
      rw [h]
      simp [Db.data, Db.project, Db.revisionsOf, Db.headsOf, Db.logOf, hnone]
    · have hmoves : Db.Moves {.project row.id} e.before
          { e.before with projects := e.before.projects ++ [row] } := moves_insertProject rfl
      refine .kept ?_
      rw [h, hmoves.data p (by simpa using Ne.symm hp)]
      exact .rfl
  | collected hcall h | purged hcall h | replayed hcall h =>
    refine .kept ?_
    rw [h]
    exact .rfl
  | pushed hcall hresult hnew h => exact h.projectStep hcall p
  | completed hcall hresult hlast h =>
    refine .kept ?_
    rw [h]
    exact .rfl
  | restored hcall hresult h => exact h.projectStep hcall p

/-- A step of a project that is there keeps its row, its owner and its identifier. -/
theorem ProjectStep.owner {e : SyncEvent} {p : Uuid} (h : ProjectStep e p) {row : ProjectRow}
    (hrow : e.before.project p = some row) :
    ∃ row', e.after.project p = some row' ∧ row'.ownerUserId = row.ownerUserId := by
  cases h with
  | kept h =>
    have hcore : (e.after.project p).map ProjectRow.core = (e.before.project p).map _ := h.project
    rw [hrow, Option.map_some, Option.map_eq_some_iff] at hcore
    obtain ⟨row', hrow', hcore⟩ := hcore
    exact ⟨row', hrow', congrArg (·.2.1) hcore⟩
  | created hbefore => rw [hbefore] at hrow; cases hrow
  | pushed hcall hp hrow' hactive hgeneration hbootstrapped hdevice hrevisions hafter =>
    cases hrow.symm.trans hrow'
    exact ⟨_, hafter, rfl⟩
  | restored hcall hjob hp hrow' hstatus hrevisions hafter =>
    cases hrow.symm.trans hrow'
    exact ⟨_, hafter, rfl⟩

end TaskTipsCloud

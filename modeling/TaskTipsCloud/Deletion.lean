import TaskTipsCloud.PurgeSteps

/-!
# Deletion of projects

A project that is being deleted should stay so until a purge has removed its row. Every call keeps
this, but for one: the owner may disable a project that is being deleted, and its purge then never
finds it in the state `deleting` again.
-/

namespace TaskTipsCloud

open Txn

/-! ## Sound databases -/

section

variable {d d' : Db} {q : Uuid → Bool} {p : Uuid}

/-- The restore jobs of a database stay sound when projects change their status. -/
theorem Db.Marks.jobsSound (h : Db.Marks d d') (hd : d.JobsSound) : d'.JobsSound where
  sound := ⟨fun p => (h.resembles p).isCoherent (hd.sound.coherent p), fun a => by
    unfold Db.recordsFor
    rw [h.records]
    exact hd.sound.records a⟩
  ids := by
    rw [h.restoreJobs]
    exact hd.ids
  oneActive := by
    rw [h.restoreJobs]
    exact hd.oneActive
  owned j hj hnone := by
    rw [h.restoreJobs] at hj
    refine hd.owned j hj ?_
    have hcore := (h.resembles j.projectId).project
    change Option.map _ (d'.project j.projectId) = Option.map _ (d.project j.projectId) at hcore
    rw [Db.standing, Option.map_eq_none_iff] at hnone ⊢
    rw [hnone, Option.map_none] at hcore
    exact Option.map_eq_none_iff.mp hcore.symm

/-- The rows of the projects when some of them are deleted. -/
theorem Db.data_deleteProjects : (d.deleteProjects q).data p =
    if q p then ⟨none, [], [], []⟩ else d.data p := by
  have hproject : (d.deleteProjects q).project p = if q p then none else d.project p :=
    find?_key_delete
  have hrevisions : (d.deleteProjects q).revisionsOf p = if q p then [] else d.revisionsOf p :=
    filter_key_delete
  have hheads : (d.deleteProjects q).headsOf p = if q p then [] else d.headsOf p :=
    filter_key_delete
  have hlog : (d.deleteProjects q).logOf p = if q p then [] else d.logOf p :=
    filter_key_delete
  unfold Db.data
  rw [hproject, hrevisions, hheads, hlog]
  split <;> rfl

/-- A deleted project is not found, and the others are. -/
theorem Db.project_deleteProjects : (d.deleteProjects q).project p =
    if q p then none else d.project p := by
  have h := congrArg ProjectData.project (Db.data_deleteProjects (d := d) (q := q) (p := p))
  rw [apply_ite ProjectData.project] at h
  exact h

/-- The restore jobs of a database stay sound when projects are deleted. -/
theorem Db.jobsSound_deleteProjects (hd : d.JobsSound) : (d.deleteProjects q).JobsSound where
  sound :=
    { coherent := fun p => by
        rw [Db.data_deleteProjects]
        split
        · exact .inl rfl
        · exact hd.sound.coherent p
      records := fun a => (List.filter_sublist.filter _).length_le.trans (hd.sound.records a) }
  ids := hd.ids.sublist (List.filter_sublist.map _)
  oneActive j hj j' hj' := hd.oneActive j (List.mem_filter.mp hj).1 j' (List.mem_filter.mp hj').1
  owned j hj := by
    obtain ⟨hj, hq⟩ := List.mem_filter.mp hj
    rw [Db.standing, Db.project_deleteProjects, if_neg (by simpa using hq)]
    exact hd.owned j hj

end

/-! ## What a call does to a project -/

/-- The status of a project. -/
def PurgeDb.projectStatus (d : PurgeDb) (p : Uuid) : Option ProjectStatus :=
  (d.sync.project p).map (·.status)

/-- The identifier of the project that a call creates. -/
def createdProject (e : PurgeEvent) : Option Uuid :=
  match e.request.call with
  | .sync (.createProject _ projectId _) => some projectId
  | _ => none

/-- The owner disables a project that is being deleted. -/
def DisablesDeleting (e : PurgeEvent) : Prop :=
  ∃ userId p row, e.request.call = .sync (.disableProject userId p) ∧
    visibleProject (.app userId) p e.before.sync = some row ∧ row.status = .deleting

/-- Whether a call removes the rows of what is purged. -/
def PurgeCall.isPrepare : PurgeCall → Bool
  | .prepareProjectPurge .. | .prepareAccountPurge .. => true
  | _ => false

/-- A purge removed the row of a project. -/
structure PurgesProject (e : PurgeEvent) (p : Uuid) : Prop where
  call : e.request.call.isPrepare = true
  before : e.before.sync.project p ≠ none
  after : e.after.sync.project p = none

/-- What a call did to the row of a project. -/
inductive ProjectFate (e : PurgeEvent) (p : Uuid) : Prop
  | absent (hbefore : e.before.sync.project p = none) (hafter : e.after.sync.project p = none)
  | created (hcreated : createdProject e = some p) (hbefore : e.before.sync.project p = none)
  | stays {row row' : ProjectRow} (hbefore : e.before.sync.project p = some row)
      (hafter : e.after.sync.project p = some row') (howner : row'.ownerUserId = row.ownerUserId)
      (hstatus : row.status = .deleting → row'.status = .deleting ∨ DisablesDeleting e)
  | removed (hpurges : PurgesProject e p)

section

variable {host : Host} {e : PurgeEvent} {p : Uuid}

/-- What a call to the synchronisation leaves there. -/
theorem sync_alone {now : Timestamp} {call : Call} {d : PurgeDb} :
    ((purgeService host).alone ⟨now, .sync call⟩ d).after.sync =
      ((call.body host now).execute d.sync).2 :=
  congrArg (fun x => x.2.sync) (execute_sync host now call d)

/-- What disabling a project does. -/
theorem sync_disableProject {now : Timestamp} {userId : Uuid} {d : PurgeDb} :
    ((purgeService host).alone ⟨now, .sync (.disableProject userId p)⟩ d).after.sync =
      if (visibleProject (.app userId) p d.sync).isSome then
        d.sync.updateProject p fun row => { row with status := .disabled, updatedAt := now }
      else d.sync := by
  rw [sync_alone, Call.body, replying, execute_bind_map, Txn.execute, disableProject, bind_eq,
    run_bind, run_selectForUpdate]
  cases visibleProject (.app userId) p d.sync <;> rfl

/-- The creation of a project leaves the others. -/
theorem project_createProject {now : Timestamp} {userId : Uuid} {name : String} {d : PurgeDb}
    {q : Uuid} (hq : q ≠ p) :
    ((purgeService host).alone ⟨now, .sync (.createProject userId p name)⟩ d).after.sync.project q =
      d.sync.project q := by
  rw [sync_alone, Call.body, replying, execute_bind_map]
  rcases hexecute : (createProject now userId p name).execute d.sync with ⟨r, d'⟩
  change d'.project q = _
  rcases execute_cases hexecute with hrun | ⟨rfl, -⟩
  · simp only [createProject, bind_eq, acquire_bind, run_lock, run_bind_ok_iff, pure_eq,
      run_pure_ok_iff] at hrun
    obtain ⟨_, _, hinsert, -, rfl⟩ := hrun
    obtain ⟨-, rfl⟩ := run_insertRow_ok_iff.mp hinsert
    refine (List.find?_append ..).trans ?_
    rw [List.find?_singleton, if_neg (by simpa using Ne.symm hq), Option.or_none]
    rfl
  · rfl

/-- A change of a job keeps a project in the state `deleting`. -/
theorem JobChange.deleting {e : SyncEvent} {job job' : RestoreJob}
    {x y : Option (ProjectStatus × ℤ)}
    {generation : ℤ} (h : JobChange e job job' x y) (hx : x = some (.deleting, generation)) :
    y = some (.deleting, generation) := by
  cases h with
  | claimed hcall hclaimable hstatus hresult =>
    cases hx
    rcases hstatus with hstatus | ⟨hstatus, -⟩ <;> cases hstatus
  | withdrawn hcall hlease hrequested =>
    rw [hx]
    rfl
  | succeeded hcall hlease hrequested => cases hx
  | _ => exact hx

/-- A call keeps a project in the state `deleting`, unless it disables it. -/
theorem RestoreStep.deleting {H : Set Lock} {e : SyncEvent} (h : RestoreStep H e) {generation : ℤ}
    (hbefore : e.before.standing p = some (.deleting, generation)) :
    e.after.standing p = some (.deleting, generation) ∨
      ∃ userId, e.request.call = .disableProject userId p := by
  have hother : ∀ {q : Uuid} {x : Option (ProjectStatus × ℤ)}, p ≠ q →
      e.after.standing = Function.update e.before.standing q x →
        e.after.standing p = some (.deleting, generation) := fun hq hstanding => by
    rw [hstanding, Function.update_of_ne hq, hbefore]
  cases h with
  | kept hjobs hstanding => exact .inl (hstanding ▸ hbefore)
  | created hjobs hnone hstanding =>
    refine .inl (hother (fun hp => ?_) hstanding)
    rw [hp, hnone] at hbefore
    cases hbefore
  | disabled hcall hjobs hstanding =>
    rename_i userId q
    by_cases hp : p = q
    · exact .inr ⟨userId, hp ▸ hcall⟩
    · exact .inl (hother hp hstanding)
  | reopened hcall hjobs hmaintenance hstanding =>
    refine .inl (hother (fun hp => ?_) hstanding)
    rw [hp, hmaintenance] at hbefore
    cases hbefore
  | enqueued hcall hjobs hfresh hlock hidle hactive hstanding => exact .inl (hstanding ▸ hbefore)
  | changed hlock hjob hf hjobs hstanding hchange =>
    rename_i job job' f x
    by_cases hp : p = job.projectId
    · subst hp
      refine .inl ?_
      rw [hstanding, Function.update_self]
      exact hchange.deleting hbefore
    · exact .inl (hother hp hstanding)

/-- A project appears only when it is created. -/
theorem EventEffect.project_eq_none {e : SyncEvent} (h : EventEffect host e)
    (hcall : ∀ userId q name, e.request.call ≠ .createProject userId q name)
    (hbefore : e.before.project p = none) : e.after.project p = none := by
  have hother : ∀ {d : Db} {rs : List ObjectRevision} {q : Uuid} {row : ProjectRow},
      d.project p = none → d.project q = some row → (∀ r ∈ rs, r.projectId = q) →
        (d.appendAll e.request.now rs).project p = none := fun {d rs q row} hnone hrow hrs => by
    have hq : q ≠ p := fun hq => by rw [hq, hnone] at hrow; cases hrow
    have hdata : (d.appendAll e.request.now rs).data p = d.data p :=
      Db.data_appendAll_of_ne fun r hr => (hrs r hr).symm ▸ hq
    exact (congrArg ProjectData.project hdata).trans hnone
  cases h with
  | unchanged h => rwa [h]
  | quiet hquiet h htouches =>
    have hcore : (e.after.project p).map ProjectRow.core = (e.before.project p).map _ :=
      (h.resembles p).project
    rw [hbefore, Option.map_none] at hcore
    exact Option.map_eq_none_iff.mp hcore
  | created h => exact absurd h (hcall _ _ _)
  | collected _ h | purged _ h | replayed _ h | completed _ _ _ h =>
    rw [h]
    exact hbefore
  | pushed hpush hresult hnew h =>
    generalize e.after = d' at h
    cases h with
    | failed => exact hbefore
    | applied hrow hactive hgeneration hbootstrapped hitems hresponse =>
      exact hother hbefore (visibleProject_eq_some_iff.mp hrow).1 hitems.projectId
  | restored hrestore hresult h =>
    generalize e.after = d' at h
    obtain ⟨hjob, hrequested, hrow, hstatus, htarget, hall, hitems⟩ := h
    rename_i job row target rs
    have hq : job.projectId ≠ p := fun hq => by rw [hq, hbefore] at hrow; cases hrow
    exact (congrArg ProjectData.project (Db.data_finished_of_ne hq)).trans
      (hother hbefore hrow (projectId_of_restored hitems))

/-- What a call to the synchronisation does to a project. -/
theorem projectFate_sync {now : Timestamp} {call : Call} {d : PurgeDb} {e' : SyncEvent}
    (he : e = (purgeService host).alone ⟨now, .sync call⟩ d) (hd : d.sync.JobsSound)
    (hrequest : e'.request = ⟨now, call⟩) (hbefore : e'.before = e.before.sync)
    (hafter : e'.after = e.after.sync)
    (hout : ∀ R : Set Lock → Db → Db → Prop, (∀ H, R H e'.before e'.before) →
      (service host).Outcome R e') : ProjectFate e p := by
  have hdb : e.before = d := by rw [he]; rfl
  have hcall : e.request.call = .sync e'.request.call := by rw [he, hrequest]; rfl
  have hb : e'.before.JobsSound := by rw [hbefore, hdb]; exact hd
  obtain ⟨H, hstep⟩ := restoreStep_of_outcome hb (hout _ (.refl hb))
  have heffect := eventEffect_of_outcome hb.sound (hout _ (.refl hb.sound))
  -- A project that was not there is created by its own call only; another one stays with its owner.
  cases hrow : e.before.sync.project p with
  | none =>
    by_cases hnone : e.after.sync.project p = none
    · exact .absent hrow hnone
    · refine .created ?_ hrow
      by_contra hcreated
      refine hnone ?_
      rw [← hafter]
      by_cases hcreate : ∃ userId q name, call = .createProject userId q name
      · obtain ⟨userId, q, name, rfl⟩ := hcreate
        have hq : p ≠ q := fun hq => hcreated (by rw [createdProject, hcall, hrequest, hq])
        rw [hafter, he, project_createProject hq, ← hdb]
        exact hrow
      · refine heffect.project_eq_none (fun userId q name h => hcreate ⟨userId, q, name, ?_⟩)
          (hbefore ▸ hrow)
        rwa [hrequest] at h
  | some row =>
    obtain ⟨row', hrow', howner⟩ := (heffect.projectStep p).owner (hbefore ▸ hrow)
    rw [hafter] at hrow'
    refine .stays hrow hrow' howner fun hstatus => ?_
    -- A project that is being deleted stays so, unless its owner disables it.
    have hstanding : e'.before.standing p = some (.deleting, row.generation) := by
      rw [hbefore, Db.standing_of_project hrow, hstatus]
    rcases hstep.deleting hstanding with hkept | ⟨userId, hdisable⟩
    · rw [hafter, Db.standing_of_project hrow', Option.some.injEq, Prod.mk.injEq] at hkept
      exact .inl hkept.1
    · -- A project that the caller does not see is not disabled.
      cases hvisible : visibleProject (.app userId) p e.before.sync with
      | some row₁ =>
        have hrow₁ := (visibleProject_eq_some_iff.mp hvisible).1
        rw [hrow, Option.some.injEq] at hrow₁
        exact .inr ⟨userId, p, row₁, hcall.trans (congrArg _ hdisable), hvisible, hrow₁ ▸ hstatus⟩
      | none =>
        rw [hrequest] at hdisable
        cases hdisable
        rw [he, sync_disableProject, ← hdb, hvisible, Option.isSome_none,
          if_neg Bool.false_ne_true, hrow] at hrow'
        exact .inl (Option.some.inj hrow' ▸ hstatus)

/-- What marking projects does to a project. -/
theorem Db.Marks.fate (h : e.before.sync.Marks e.after.sync) : ProjectFate e p := by
  have hcore : (e.after.sync.project p).map ProjectRow.core =
      (e.before.sync.project p).map ProjectRow.core := (h.resembles p).project
  cases hrow' : e.after.sync.project p with
  | none =>
    rw [hrow', Option.map_none, eq_comm, Option.map_eq_none_iff] at hcore
    exact .absent hcore hrow'
  | some row' =>
    obtain ⟨row, hrow, hstatus⟩ := h.status p row' hrow'
    rw [hrow, hrow', Option.map_some, Option.map_some, Option.some.injEq] at hcore
    refine .stays hrow hrow' (congrArg (·.2.1) hcore) fun hdeleting => .inl ?_
    rcases hstatus with hstatus | hstatus
    · rw [hstatus, hdeleting]
    · exact hstatus

/-- What removing projects does to a project. -/
theorem projectFate_deleteProjects {q : Uuid → Bool} (hcall : e.request.call.isPrepare = true)
    (h : e.after.sync.project p = (e.before.sync.deleteProjects q).project p) :
    ProjectFate e p := by
  rw [Db.project_deleteProjects] at h
  cases hrow : e.before.sync.project p with
  | none =>
    rw [hrow, ite_self] at h
    exact .absent hrow h
  | some row =>
    split at h
    · exact .removed ⟨hcall, by rw [hrow]; nofun, h⟩
    · exact .stays hrow (h.trans hrow) rfl .inl

/-- Every call does one of these to a project. -/
theorem projectFate_alone {q : PurgeRequest} {d : PurgeDb}
    (he : e = (purgeService host).alone q d) (hd : d.sync.JobsSound) : ProjectFate e p := by
  have hstep : PurgeStep host e := he ▸ purgeStep_alone host q d
  obtain ⟨now, call⟩ := q
  cases hstep with
  | marked hcall hsync hjobs => exact hsync.fate
  | enqueued hcall hbefore howner hsync hafter hstatus hjobs => exact hsync.fate
  | projectRemoved hcall hjob hp hattached hsync hjobs =>
    exact projectFate_deleteProjects (by rw [hcall]; rfl) (by rw [hsync])
  | accountRemoved hcall hjob hattached hresult hsync hjobs =>
    obtain ⟨devices, hsync⟩ := hsync
    exact projectFate_deleteProjects (by rw [hcall]; rfl) (by rw [hsync]; rfl)
  | sync hcall hrequest hbefore hafter hresult hout hjobs =>
    have hnow : e.request = ⟨now, call⟩ := by rw [he]; rfl
    rw [hnow] at hcall hrequest
    cases hcall
    exact projectFate_sync he hd hrequest hbefore hafter hout

/-- Every call leaves the restore jobs sound. -/
theorem jobsSound_alone {q : PurgeRequest} {d : PurgeDb}
    (he : e = (purgeService host).alone q d) (hd : d.sync.JobsSound) : e.after.sync.JobsSound := by
  have hb : e.before.sync.JobsSound := by rw [he]; exact hd
  have hstep : PurgeStep host e := he ▸ purgeStep_alone host q d
  cases hstep with
  | marked hcall hsync hjobs => exact hsync.jobsSound hb
  | enqueued hcall hbefore howner hsync hafter hstatus hjobs => exact hsync.jobsSound hb
  | projectRemoved hcall hjob hp hattached hsync hjobs =>
    rw [hsync]
    exact Db.jobsSound_deleteProjects hb
  | accountRemoved hcall hjob hattached hresult hsync hjobs =>
    obtain ⟨devices, hsync⟩ := hsync
    rename_i job keys
    have hmarks : (e.before.sync.deleteProjects (e.before.sync.ownsProject job.ownerUserId)).Marks
        e.after.sync := by
      rw [hsync]
      exact .of_eq (fun _ => rfl) rfl rfl
    exact hmarks.jobsSound (Db.jobsSound_deleteProjects hb)
  | sync hcall hrequest hbefore hafter hresult hout hjobs =>
    rw [← hbefore] at hb
    rw [← hafter]
    exact (relies_jobs host).inv_of_outcome trivial hb (hout _ (.refl hb))

end

/-! ## What deletion promises -/

/-- A job whose project waits for it. -/
structure JobRow.AwaitedBy (j : JobRow) (row : ProjectRow) : Prop where
  status : row.status = .deleting
  owner : row.ownerUserId = j.ownerUserId
  attached : isDetached j.payload = false

/-- What holds between the calls of a run in which no project that is being deleted is disabled. -/
structure DeletionInv (h : List PurgeEvent) (d : PurgeDb) : Prop where
  sound : d.sync.JobsSound
  drawn : ∀ p, d.sync.project p ≠ none → p ∈ h.filterMap createdProject
  purges : ∀ i j, d.job i = some j → j.kind = .projectPurge → ∃ p, j.projectId = some p ∧
    p ∈ h.filterMap createdProject ∧ ∀ row, d.sync.project p = some row → j.AwaitedBy row

section

variable {host : Host} {h : List PurgeEvent} {e : PurgeEvent}

/-- A project stays awaited by the job when the job goes on. -/
theorem JobRow.AwaitedBy.follows {j j' : JobRow} {row : ProjectRow} (h : j.AwaitedBy row)
    (hj : j'.Follows j) : j'.AwaitedBy row :=
  ⟨h.status, h.owner.trans hj.ownerUserId.symm, by rw [hj.payload]; exact h.attached⟩

/-- A project that waits for its purge waits on, as long as it is there. -/
theorem ProjectFate.awaits {p : Uuid} (hfate : ProjectFate e p) {j : JobRow}
    (hdisable : ¬ DisablesDeleting e) (hp : createdProject e ≠ some p)
    (hj : ∀ row, e.before.sync.project p = some row → j.AwaitedBy row) {row' : ProjectRow}
    (hrow' : e.after.sync.project p = some row') : j.AwaitedBy row' := by
  cases hfate with
  | absent hbefore hafter => rw [hafter] at hrow'; cases hrow'
  | created hcreated hbefore => exact absurd hcreated hp
  | stays hbefore hafter howner hstatus =>
    cases hafter.symm.trans hrow'
    obtain ⟨hdeleting, howned, hattached⟩ := hj _ hbefore
    exact ⟨(hstatus hdeleting).resolve_right hdisable, howner.trans howned, hattached⟩
  | removed hpurges => rw [hpurges.after] at hrow'; cases hrow'

/-- A call that draws a new identifier creates no project that was created before. -/
theorem createdProject_ne (hfresh : ((h ++ [e]).filterMap createdProject).Nodup) {p : Uuid}
    (hp : p ∈ h.filterMap createdProject) : createdProject e ≠ some p := by
  intro he
  rw [List.filterMap_append, List.nodup_append] at hfresh
  refine hfresh.2.2 p hp p ?_ rfl
  rw [List.mem_filterMap]
  exact ⟨e, List.mem_singleton_self e, he⟩

/-- A project that was created stays so. -/
theorem mem_created_append {p : Uuid} (hp : p ∈ h.filterMap createdProject) :
    p ∈ (h ++ [e]).filterMap createdProject := by
  rw [List.filterMap_append]
  exact List.mem_append_left _ hp

/-- The jobs of a project that is being deleted wait for it, whatever is called. -/
theorem DeletionInv.alone {q : PurgeRequest} {d : PurgeDb} (hinv : DeletionInv h d)
    (he : e = (purgeService host).alone q d) (hdisable : ¬ DisablesDeleting e)
    (hfresh : ((h ++ [e]).filterMap createdProject).Nodup) : DeletionInv (h ++ [e]) e.after := by
  have hd : e.before = d := by rw [he]; rfl
  rw [← hd] at hinv
  -- What a call can do to a project, and what its step does to the jobs.
  have hfate : ∀ p, ProjectFate e p := fun p => projectFate_alone he (hd ▸ hinv.sound)
  refine ⟨jobsSound_alone he (hd ▸ hinv.sound), fun p hp => ?_, fun i j' hj' hkind => ?_⟩
  · cases hfate p with
    | absent hbefore hafter => exact absurd hafter hp
    | created hcreated hbefore =>
      exact List.mem_filterMap.mpr
        ⟨e, List.mem_append_right _ (List.mem_singleton_self e), hcreated⟩
    | stays hbefore hafter howner hstatus =>
      exact mem_created_append (hinv.drawn p (by rw [hbefore]; nofun))
    | removed hpurges => exact absurd hpurges.after hp
  -- A job that was there before.
  have hkept : ∀ j, e.before.job i = some j → j'.Follows j → ∃ p, j'.projectId = some p ∧
      p ∈ (h ++ [e]).filterMap createdProject ∧
        ∀ row, e.after.sync.project p = some row → j'.AwaitedBy row := fun j hj hfollows => by
    obtain ⟨p, hp, hdrawn, hawaits⟩ := hinv.purges i j hj (hfollows.kind ▸ hkind)
    refine ⟨p, hfollows.projectId.trans hp, mem_created_append hdrawn, fun row hrow => ?_⟩
    have hafter := (hfate p).awaits hdisable (createdProject_ne hfresh hdrawn) hawaits hrow
    exact hafter.follows hfollows
  have hfollow : ∀ {new : JobRow → Prop}, e.before.JobsFollow e.after new → ¬ new j' →
      ∃ j, e.before.job i = some j ∧ j'.Follows j := fun hjobs hnew => by
    rcases hjobs.follows i j' hj' with hold | ⟨-, hnew'⟩
    · exact hold
    · exact absurd hnew' hnew
  have hstep : PurgeStep host e := he ▸ purgeStep_alone host q d
  cases hstep with
  | marked hcall hsync hjobs =>
    obtain ⟨j, hj, hfollows⟩ := hfollow hjobs fun hnew => by rw [hkind] at hnew; cases hnew.1
    exact hkept j hj hfollows
  | enqueued hcall hbefore howner hsync hafter hstatus hjobs =>
    rename_i userId p jobId reason requestId row row'
    rcases hjobs.follows i j' hj' with ⟨j, hj, hfollows⟩ | ⟨-, -, hp, howner', hattached⟩
    · exact hkept j hj hfollows
    · -- The new job: its project is being deleted now.
      refine ⟨p, hp, mem_created_append (hinv.drawn p (by rw [hbefore]; nofun)), fun r hr => ?_⟩
      cases hafter.symm.trans hr
      refine ⟨hstatus, ?_, hattached⟩
      cases hfate p with
      | absent hnone => rw [hnone] at hbefore; cases hbefore
      | created _ hnone => rw [hnone] at hbefore; cases hbefore
      | stays hbefore' hafter' hkeeps =>
        cases hbefore.symm.trans hbefore'
        cases hafter.symm.trans hafter'
        rw [hkeeps, howner, howner']
      | removed hpurges => rw [hpurges.after] at hafter; cases hafter
  | projectRemoved hcall hjob hp hattached hsync hjobs =>
    rename_i order jobId leaseToken p job keys
    obtain ⟨j, hj, ⟨-, rfl⟩ | ⟨rfl, rfl⟩⟩ := PurgeDb.exists_job_of_payload hjobs hj'
    · exact hkept j' hj .rfl
    · -- The project of the job itself is gone.
      obtain rfl : j = job := Option.some.inj (hj.symm.trans (job_of_leasedPurge hjob).1)
      obtain ⟨p', hp', hdrawn, -⟩ := hinv.purges i j hj hkind
      obtain rfl : p = p' := Option.some.inj (hp.symm.trans hp')
      refine ⟨p, hp, mem_created_append hdrawn, fun row hrow => ?_⟩
      rw [hsync, Db.project_deleteProjects, if_pos (beq_self_eq_true p)] at hrow
      cases hrow
  | accountRemoved hcall hjob hattached hresult hsync hjobs =>
    obtain ⟨j, hj, ⟨-, rfl⟩ | ⟨rfl, rfl⟩⟩ := PurgeDb.exists_job_of_payload hjobs hj'
    · exact hkept j' hj .rfl
    · obtain ⟨hfound, haccount⟩ := job_of_leasedPurge hjob
      cases hj.symm.trans hfound
      -- A purge of an account is no purge of a project.
      cases haccount.symm.trans hkind
  | sync hcall hrequest hbefore hafter hresult hout hjobs =>
    obtain ⟨j, hj, hfollows⟩ := @hfollow (fun _ => False) (.of_eq hjobs) id
    exact hkept j hj hfollows

/-- A project that is being deleted stays so until a purge has removed its row. -/
theorem DeletionInv.run {h₁ h₂ : List PurgeEvent} {s₁ s₂ : PurgeDb} {t₁ t₂ : ℤ}
    (hinv : DeletionInv h₁ s₁) (hrun : (purgeService host).Serial s₁ t₁ h₂ s₂ t₂)
    (hdisable : ∀ e ∈ h₂, ¬ DisablesDeleting e)
    (hfresh : ((h₁ ++ h₂).filterMap createdProject).Nodup) :
    DeletionInv (h₁ ++ h₂) s₂ ∧ ∀ p, s₁.projectStatus p = some .deleting →
      s₂.projectStatus p = some .deleting ∨
        s₂.sync.project p = none ∧ ∃ e ∈ h₂, PurgesProject e p := by
  refine hrun.invariant (J := fun h s _ => (∀ e ∈ h, ¬ DisablesDeleting e) →
    ((h₁ ++ h).filterMap createdProject).Nodup → DeletionInv (h₁ ++ h) s ∧
      ∀ p, s₁.projectStatus p = some .deleting → s.projectStatus p = some .deleting ∨
        s.sync.project p = none ∧ ∃ e ∈ h, PurgesProject e p) ?_ ?_ hdisable hfresh
  · exact fun _ _ => ⟨by rwa [List.append_nil], fun p hp => .inl hp⟩
  · intro h s t q _ _ _ ih hdisable hfresh
    rw [← List.append_assoc] at hfresh ⊢
    obtain ⟨hinv', hstays⟩ := ih (fun e he => hdisable e (List.mem_append_left _ he)) (by
      rw [List.filterMap_append] at hfresh
      exact hfresh.sublist (List.sublist_append_left ..))
    have hlast := hdisable _ (List.mem_append_right _ (List.mem_singleton_self _))
    refine ⟨hinv'.alone rfl hlast hfresh, fun p hp => ?_⟩
    generalize he : (purgeService host).alone q s = e at hlast hfresh
    have hs : e.before = s := by rw [← he]; rfl
    have hfate : ProjectFate e p := projectFate_alone he.symm hinv'.sound
    have hdrawn : p ∈ (h₁ ++ h).filterMap createdProject := by
      rw [List.filterMap_append]
      refine List.mem_append_left _ (hinv.drawn p fun hnone => ?_)
      rw [PurgeDb.projectStatus, hnone] at hp
      cases hp
    rcases hstays p hp with hdeleting | ⟨hnone, e', he', hpurges⟩
    · rw [← hs] at hdeleting
      cases hfate with
      | absent hbefore hafter => rw [PurgeDb.projectStatus, hbefore] at hdeleting; cases hdeleting
      | created hcreated => exact absurd hcreated (createdProject_ne hfresh hdrawn)
      | stays hbefore hafter howner hstatus =>
        rw [PurgeDb.projectStatus, hbefore] at hdeleting
        refine .inl ?_
        rw [PurgeDb.projectStatus, hafter, Option.map_some,
          (hstatus (Option.some.inj hdeleting)).resolve_right hlast]
      | removed hpurges =>
        exact .inr ⟨hpurges.after, e, List.mem_append_right _ (List.mem_singleton_self e), hpurges⟩
    · refine .inr ⟨?_, e', List.mem_append_left _ he', hpurges⟩
      rw [← hs] at hnone
      cases hfate with
      | absent hbefore hafter => exact hafter
      | created hcreated => exact absurd hcreated (createdProject_ne hfresh hdrawn)
      | stays hbefore => rw [hbefore] at hnone; cases hnone
      | removed hpurges => exact hpurges.after

/-- In a run that disables no project that is being deleted, the jobs of such projects wait. -/
theorem deletionInv {users : List UserRow} {t₀ t : ℤ} {d : PurgeDb}
    (hrun : (purgeService host).Serial (.initial users) t₀ h d t)
    (hdisable : ∀ e ∈ h, ¬ DisablesDeleting e) (hfresh : (h.filterMap createdProject).Nodup) :
    DeletionInv h d := by
  have hinit : DeletionInv [] (PurgeDb.initial users) :=
    ⟨jobsSound_initial users, fun p hp => absurd rfl hp, fun i j hj => nomatch hj⟩
  exact (hinit.run hrun hdisable hfresh).1

/-- A purge whose project waits for it removes the project. -/
theorem prepareProjectPurge_alone {now : Timestamp} {order : KeyOrder} {jobId leaseToken p : Uuid}
    {d : PurgeDb} {job : JobRow} {row : ProjectRow}
    (hjob : leasedPurge .projectPurge now jobId leaseToken d = some job)
    (hp : job.projectId = some p) (hrow : d.sync.project p = some row)
    (hawaits : job.AwaitedBy row)
    (he : e = (purgeService host).alone ⟨now, .prepareProjectPurge order jobId leaseToken⟩ d) :
    ∃ keys, e.result = .ok (.keys keys) ∧ e.after.sync.project p = none := by
  have hdeleting : ((d.sync.project p).filter (·.ownerUserId == job.ownerUserId)).any
      (·.status == .deleting) = true := by
    simp [hrow, hawaits.owner, hawaits.status]
  have hrun : ∃ keys d', (prepareProjectPurge now order jobId leaseToken).execute d =
      (.ok keys, d') ∧ d'.sync = d.sync.deleteProjects (· == p) := by
    simp only [Txn.execute, prepareProjectPurge, bind_eq, query_bind, modify_bind, run_read, hjob,
      orThrow, pure_bind, hp, hawaits.attached, Bool.false_eq_true, if_false, hdeleting, require,
      if_true, run_write, pure_eq, run_pure, settle]
    exact ⟨_, _, rfl, rfl⟩
  obtain ⟨keys, d', hexecute, hsync⟩ := hrun
  subst he
  refine ⟨keys, ?_, ?_⟩
  · change ((purging .keys (prepareProjectPurge now order jobId leaseToken)).execute d).1 = _
    rw [purging, execute_bind_map, hexecute]
    rfl
  · change ((purging .keys (prepareProjectPurge now order jobId leaseToken)).execute
      d).2.sync.project p = none
    rw [purging, execute_bind_map, hexecute, hsync, Db.project_deleteProjects,
      if_pos (beq_self_eq_true p)]

/-- Deletion is irreversible and reaches its end. -/
structure DeletionHolds (h : List PurgeEvent) : Prop where
  /-- Over every stretch of the run, a project that is being deleted stays so until a purge has
  removed its row. -/
  stays : ∀ h₁ h₂ h₃ e e' p, h = h₁ ++ h₂ ++ h₃ → h₂.head? = some e → h₂.getLast? = some e' →
    e.before.projectStatus p = some .deleting → e'.after.projectStatus p = some .deleting ∨
      e'.after.sync.project p = none ∧ ∃ e'' ∈ h₂, PurgesProject e'' p
  /-- The purge of a project that is there does not fail under a valid lease. -/
  ends : ∀ e ∈ h, ∀ order jobId leaseToken job p,
    e.request.call = .prepareProjectPurge order jobId leaseToken →
      leasedPurge .projectPurge e.request.now jobId leaseToken e.before = some job →
        job.projectId = some p → e.before.sync.project p ≠ none →
          ∃ keys, e.result = .ok (.keys keys) ∧ e.after.sync.project p = none

/-- Disabling a project that is being deleted takes it out of this state. -/
theorem not_deletionHolds_of_disables (he : e ∈ h) (hserial : ∃ q d,
    e = (purgeService host).alone q d) (hdisable : DisablesDeleting e) : ¬ DeletionHolds h := by
  intro hholds
  obtain ⟨h₁, h₃, rfl⟩ := List.append_of_mem he
  obtain ⟨q, d, halone⟩ := hserial
  obtain ⟨userId, p, row, hcall, hvisible, hstatus⟩ := hdisable
  have hrow := (visibleProject_eq_some_iff.mp hvisible).1
  have hafter : e.after.projectStatus p = some .disabled := by
    obtain ⟨now, call⟩ := q
    subst halone
    cases hcall
    change visibleProject (.app userId) p d.sync = some row at hvisible
    change d.sync.project p = some row at hrow
    rw [PurgeDb.projectStatus, sync_disableProject, hvisible, Option.isSome_some, if_pos rfl,
      Db.project_updateProject, hrow]
    · rfl
    · exact fun _ => rfl
  have hbefore : e.before.projectStatus p = some .deleting := by
    rw [PurgeDb.projectStatus, hrow, Option.map_some, hstatus]
  rcases hholds.stays h₁ [e] h₃ e e p (by simp) rfl rfl hbefore with hdeleting | ⟨hnone, -⟩
  · rw [hafter] at hdeleting
    cases hdeleting
  · rw [PurgeDb.projectStatus, hnone] at hafter
    cases hafter

/-- In every serial run whose projects have distinct identifiers, deletion is irreversible and
reaches its end, if and only if no project is disabled that is being deleted. -/
theorem deletionHolds_iff {users : List UserRow} {t₀ t : ℤ} {d : PurgeDb}
    (hrun : (purgeService host).Serial (.initial users) t₀ h d t)
    (hfresh : (h.filterMap createdProject).Nodup) :
    DeletionHolds h ↔ ∀ e ∈ h, ¬ DisablesDeleting e := by
  constructor
  · intro hholds e he hdisable
    obtain ⟨h₁, h₂, rfl⟩ := List.append_of_mem he
    obtain ⟨-, -, halone, -⟩ := hrun.split
    exact not_deletionHolds_of_disables he ⟨_, _, halone⟩ hdisable hholds
  · intro hdisable
    -- Both halves follow from the invariant of the run up to their states.
    refine ⟨fun h₁ h₂ h₃ e e' p hsplit hhead hlast hbefore => ?_,
      fun e he order jobId leaseToken job p hcall hjob hp hproject => ?_⟩
    · subst hsplit
      obtain ⟨s₂, t₂, hrun₁₂, -⟩ := hrun.parts
      obtain ⟨s₁, t₁, hrun₁, hrun₂⟩ := hrun₁₂.parts
      have hfresh₁₂ : ((h₁ ++ h₂).filterMap createdProject).Nodup := by
        rw [List.filterMap_append] at hfresh
        exact hfresh.sublist (List.sublist_append_left ..)
      have hfresh₁ : (h₁.filterMap createdProject).Nodup := by
        rw [List.filterMap_append] at hfresh₁₂
        exact hfresh₁₂.sublist (List.sublist_append_left ..)
      have hinv : DeletionInv h₁ s₁ :=
        deletionInv hrun₁ (fun e he => hdisable e (by simp [he])) hfresh₁
      have hstays := (hinv.run hrun₂ (fun e he => hdisable e (by simp [he])) hfresh₁₂).2 p
      rw [hrun₂.head_before hhead] at hbefore
      rw [hrun₂.last_after hlast]
      exact hstays hbefore
    · obtain ⟨h₁, h₂, rfl⟩ := List.append_of_mem he
      obtain ⟨t₁, hrun₁, halone, -⟩ := hrun.split
      have hfresh₁ : (h₁.filterMap createdProject).Nodup := by
        rw [List.filterMap_append] at hfresh
        exact hfresh.sublist (List.sublist_append_left ..)
      have hinv : DeletionInv h₁ e.before :=
        deletionInv hrun₁ (fun e he => hdisable e (by simp [he])) hfresh₁
      obtain ⟨row, hrow⟩ := Option.ne_none_iff_exists'.mp hproject
      obtain ⟨hfound, hkind⟩ := job_of_leasedPurge hjob
      obtain ⟨p', hp', -, hawaits⟩ := hinv.purges jobId job hfound hkind
      obtain rfl : p = p' := Option.some.inj (hp.symm.trans hp')
      have hrequest : e.request =
          ⟨e.request.now, .prepareProjectPurge order jobId leaseToken⟩ := by rw [← hcall]
      exact prepareProjectPurge_alone hjob hp hrow (hawaits row hrow)
        (halone.trans (congrArg (fun q => (purgeService host).alone q e.before) hrequest))

end

/-! ## Two runs -/

/-- A project whose purge is queued. -/
def purgeRequested : List PurgeRequest :=
  [⟨0, .sync (.createProject 1 2 "tasks")⟩, ⟨1, .enqueueProjectPurge 1 2 7 "done" "r"⟩]

/-- The worker purges the project. -/
def purgedProject : List PurgeRequest :=
  purgeRequested ++ [⟨2, .claimProjectPurgeJob [] 8⟩, ⟨3, .prepareProjectPurge .stored 7 8⟩,
    ⟨4, .completeProjectPurge 7 8⟩]

/-- The owner disables the project before the worker claims the purge. -/
def disabledProject : List PurgeRequest :=
  purgeRequested ++ [⟨2, .sync (.disableProject 1 2)⟩, ⟨3, .claimProjectPurgeJob [] 8⟩,
    ⟨4, .prepareProjectPurge .stored 7 8⟩]

/-- The database of the sample runs before their first request. -/
def samplePurgeStart : PurgeDb := .initial [⟨1, .user, .active⟩, ⟨9, .systemAdmin, .active⟩]

/-- What a sample run does. -/
def samplePurges (requests : List PurgeRequest) : List PurgeEvent :=
  (purgeService sampleHost).serveAlone requests samplePurgeStart

/-- The sample calls make a serial run. -/
theorem serial_samplePurges {requests : List PurgeRequest}
    (h : (0 :: requests.map (·.now)).Pairwise (· ≤ ·)) :
    ∃ d t, (purgeService sampleHost).Serial samplePurgeStart 0 (samplePurges requests) d t :=
  Service.serial_serveAlone requests .nil (fun _ _ => trivial) h

/-- Without a call that disables a project, none is disabled. -/
theorem not_disables_samplePurges {requests : List PurgeRequest}
    (h : ∀ q ∈ requests, ∀ userId p, q.call ≠ .sync (.disableProject userId p)) :
    ∀ e ∈ samplePurges requests, ¬ DisablesDeleting e := by
  rintro e he ⟨userId, p, -, hcall, -⟩
  refine h e.request ?_ userId p hcall
  have hmem := List.mem_map_of_mem (f := (·.request)) he
  unfold samplePurges at hmem
  rwa [Service.requests_serveAlone] at hmem

/-- The purge of the first run removes the project. -/
theorem purgedProject_holds : DeletionHolds (samplePurges purgedProject) := by
  obtain ⟨d, t, hrun⟩ := @serial_samplePurges purgedProject (by decide)
  refine (deletionHolds_iff hrun (by decide +kernel)).mpr (not_disables_samplePurges ?_)
  intro q hq userId p hcall
  have hmem := List.mem_map_of_mem (f := PurgeRequest.call) hq
  rw [hcall] at hmem
  simp [purgedProject, purgeRequested] at hmem

/-- The purge of the second run fails for the state of its project. -/
theorem disabledProject_stranded :
    (∃ d t, (purgeService sampleHost).Serial samplePurgeStart 0
      (samplePurges disabledProject) d t) ∧
    ((samplePurges disabledProject).filterMap createdProject).Nodup ∧
      (samplePurges disabledProject).getLast?.map (·.result) = some (.error .conflict) ∧
        ¬ DeletionHolds (samplePurges disabledProject) := by
  have hsplit : ∃ h₁ e h₂, samplePurges disabledProject = h₁ ++ e :: h₂ ∧
      (∃ q d, e = (purgeService sampleHost).alone q d) ∧ DisablesDeleting e :=
    ⟨[_, _], _, [_, _], rfl, ⟨_, _, rfl⟩, 1, 2, _, rfl, rfl, rfl⟩
  obtain ⟨h₁, e, h₂, hh, halone, hdisables⟩ := hsplit
  refine ⟨serial_samplePurges (by decide), by decide +kernel, rfl, ?_⟩
  exact not_deletionHolds_of_disables (hh ▸ by simp) halone hdisables

end TaskTipsCloud

import TaskTipsCloud.PurgeSteps
import TaskTipsCloud.PurgeTables

/-!
# What the purges delete

The statements of a purge are never refused. They delete what the model of the purge deletes at
once, no row of the project or the account is left, every other row stays, and the keys of all
objects are on the job before the rows are gone.
-/

namespace TaskTipsCloud

open Txn

variable {db : SchemaRows} {p userId : Uuid} {email : String}

/-- The project of a row and its owner, as the row names them. -/
def projectOf : ∀ t, SchemaTable.Row t → Option (Uuid × Uuid)
  | .bootstrapCompletions, b => some (b.projectId, b.ownerUserId)
  | .idempotencyRecords, r => some (r.projectId, r.ownerUserId)
  | .syncAttempts, a => some (a.projectId, a.ownerUserId)
  | .restoreJobs, j => some (j.projectId, j.ownerUserId)
  | .snapshots, s => some (s.projectId, s.ownerUserId)
  | .bootstrapManifests, m => some (m.projectId, m.ownerUserId)
  | .changeLog, e => some (e.projectId, e.ownerUserId)
  | .objectHeads, h => some (h.projectId, h.ownerUserId)
  | .objectRevisions, r => some (r.projectId, r.ownerUserId)
  | .payloads, p => some (p.projectId, p.ownerUserId)
  | .projects, p => some (p.id, p.ownerUserId)
  | _, _ => none

/-- Every row of a project names the owner of the project. -/
theorem SchemaSound.project (hdb : SchemaSound db) {c : SchemaTable} {x : SchemaTable.Row c}
    (hx : x ∈ db c) {p o : Uuid} (hp : projectOf c x = some (p, o)) :
    ∃ row ∈ db .projects, row.id = p ∧ row.ownerUserId = o := by
  have hkey {f : SchemaTable.Row c → Uuid × Uuid} (hk : refersToProject f ∈ foreignKeys c)
      (hf : f x = (p, o)) : ∃ row ∈ db .projects, row.id = p ∧ row.ownerUserId = o := by
    obtain ⟨row, hrow, heq⟩ := ForeignKey.found_iff.mp
      (ForeignKey.holds_iff.mp (hdb.consistent c _ hk) x hx) (p, o) (congrArg some hf)
    exact ⟨row, hrow, Prod.ext_iff.mp heq⟩
  cases c
  case projects =>
    obtain ⟨rfl, rfl⟩ := Prod.ext_iff.mp (Option.some.inj hp)
    exact ⟨x, hx, rfl, rfl⟩
  case payloads | bootstrapManifests => exact hkey (.head _) (Option.some.inj hp)
  case objectHeads | changeLog => exact hkey (.head _) (Option.some.inj hp)
  case snapshots | bootstrapCompletions | restoreJobs =>
    exact hkey (.tail _ (.head _)) (Option.some.inj hp)
  case objectRevisions | idempotencyRecords | syncAttempts =>
    exact hkey (.tail _ (.tail _ (.head _))) (Option.some.inj hp)
  all_goals cases hp

/-- A project has one owner. -/
theorem SchemaSound.owner_eq (hdb : SchemaSound db) {c c' : SchemaTable} {x : SchemaTable.Row c}
    {y : SchemaTable.Row c'} (hx : x ∈ db c) (hy : y ∈ db c') {p o o' : Uuid}
    (hxp : projectOf c x = some (p, o)) (hyp : projectOf c' y = some (p, o')) : o = o' := by
  obtain ⟨row, hrow, hid, rfl⟩ := hdb.project hx hxp
  obtain ⟨row', hrow', hid', rfl⟩ := hdb.project hy hyp
  rw [List.inj_on_of_nodup_map hdb.projectIds hrow hrow' (hid.trans hid'.symm)]

/-- A project of a row is owned by the owner of the row. -/
theorem SchemaSound.ownsProject (hdb : SchemaSound db) {c : SchemaTable} {x : SchemaTable.Row c}
    (hx : x ∈ db c) {p o : Uuid} (hp : projectOf c x = some (p, o)) :
    (purgeDb db).sync.ownsProject userId p = (o == userId) := by
  obtain ⟨row, hrow, rfl, rfl⟩ := hdb.project hx hp
  have hfind : (purgeDb db).sync.project row.id = some row :=
    find?_key_eq hdb.projectIds hrow
  unfold Db.ownsProject Db.hasProject
  rw [hfind]
  rfl

/-- A row of a project refers to rows of the project. -/
theorem agrees_ofProject : db.Agrees foreignKeys (ofProject p) projectStatements := by
  intro c hc k hk hparent x hx y hy hrefs hq
  cases c <;> simp only [foreignKeys, List.mem_cons, List.not_mem_nil, or_false] at hk <;>
    repeat' (rcases hk with rfl | hk)
  all_goals first | exact absurd hparent (by decide) | skip
  case auditEvents.inr.inl => cases hc _ (.tail _ (.head _))
  all_goals
    simp only [refersToProject, refersToRevision, refersToPayload, refersToSnapshot, refersTo,
      ofProject, Option.map_eq_some_iff, Option.some.injEq, Prod.mk.injEq, beq_iff_eq] at hrefs hq ⊢
    grind

/-- A row of an account refers to rows of the account. -/
theorem SchemaSound.agrees_ofAccount (hdb : SchemaSound db) :
    db.Agrees foreignKeys (ofAccount userId email) accountStatements := by
  -- Keys that name a project and no owner: the project has one owner.
  have hsame {c c' : SchemaTable} {x : SchemaTable.Row c} {y : SchemaTable.Row c'} {p o o' : Uuid}
      (hx : x ∈ db c) (hy : y ∈ db c') (hxp : projectOf c x = some (p, o))
      (hyp : projectOf c' y = some (p, o')) (hq : (o' == userId) = true) :
      (o == userId) = true := by
    rw [hdb.owner_eq hx hy hxp hyp]
    exact hq
  have hrevision {c : SchemaTable} {x : SchemaTable.Row c} {y : ObjectRevision} {r : RevisionId}
      {p o : Uuid} (hx : x ∈ db c) (hy : y ∈ db .objectRevisions)
      (hxp : projectOf c x = some (p, o)) (hrefs : some (r, p) = some (y.id, y.projectId))
      (hq : (y.ownerUserId == userId) = true) : (o == userId) = true := by
    obtain ⟨-, rfl⟩ := Prod.ext_iff.mp (Option.some.inj hrefs)
    exact hsame hx hy hxp rfl hq
  have hoptional {c c' : SchemaTable} {x : SchemaTable.Row c} {y : SchemaTable.Row c'}
      {i : Option Uuid} {j p p' o o' : Uuid} (hx : x ∈ db c) (hy : y ∈ db c')
      (hxp : projectOf c x = some (p, o)) (hyp : projectOf c' y = some (p', o'))
      (hrefs : i.map (fun i => (i, p)) = some (j, p')) (hq : (o' == userId) = true) :
      (o == userId) = true := by
    obtain ⟨_, -, h⟩ := Option.map_eq_some_iff.mp hrefs
    obtain ⟨-, rfl⟩ := Prod.ext_iff.mp h
    exact hsame hx hy hxp hyp hq
  intro c hc k hk hparent x hx y hy hrefs hq
  cases c <;> simp only [foreignKeys, List.mem_cons, List.not_mem_nil, or_false] at hk <;>
    repeat' (rcases hk with rfl | hk)
  all_goals first | exact absurd hparent (by decide) | skip
  case auditEvents.inr.inl => cases hc _ (.tail _ (.head _))
  case objectHeads.inr | changeLog.inr => exact hrevision hx hy rfl hrefs hq
  case objectRevisions.inr.inl => exact hoptional hx (hy : y ∈ db .payloads) rfl rfl hrefs hq
  case restoreJobs.inl => exact hoptional hx (hy : y ∈ db .snapshots) rfl rfl hrefs hq
  case restoreJobs.inr.inr.inr =>
    exact hoptional hx (hy : y ∈ db .snapshots) rfl rfl hrefs hq
  all_goals
    simp only [refersToProject, refersToDevice, refersTo, ofAccount, Option.map_eq_some_iff,
      Option.some.injEq, Prod.mk.injEq, beq_iff_eq] at hrefs hq ⊢
    grind

/-! ## What the statements do -/

/-- The statements are not refused when they are ordered and agree with the tables before them. -/
theorem purgeTables_eq_some {q : ∀ t, SchemaTable.Row t → Bool} {ts emptied : List SchemaTable}
    (hdb : SchemaSound db) (hordered : Ordered foreignKeys emptied ts)
    (hmay : ∀ t ∈ ts, t ∈ accountStatements) (hfirm : ∀ t ∈ emptied, foreignKeys.IsFirm t)
    (hemptied : db.Emptied q emptied) (hagrees : db.Agrees foreignKeys q ts) :
    purgeTables q ts db = some (db.emptied foreignKeys q ts) ∧
      (db.emptied foreignKeys q ts).Consistent foreignKeys := by
  obtain ⟨hrun, hconsistent⟩ := deleteAll_of_ordered clearing_foreignKeys hordered hfirm
    hdb.consistent hemptied hagrees
  refine ⟨?_, hconsistent⟩
  have hneeds : mayRun purgeGrants .worker (ts.flatMap fun t => [(t, .select), (t, .delete)]) =
      true := by
    rw [mayRun_iff]
    intro need hneed
    obtain ⟨t, ht, hneed⟩ := List.mem_flatMap.mp hneed
    exact mayRun_iff.mp mayRun_statements need (List.mem_flatMap.mpr ⟨t, hmay t ht, hneed⟩)
  rw [purgeTables, if_pos hneeds, hrun]

/-- The rows of a table other than the audit events, after the statements. -/
theorem emptied_rows {q : ∀ t, SchemaTable.Row t → Bool} {ts : List SchemaTable} {c : SchemaTable}
    (h : c ≠ .auditEvents) : db.emptied foreignKeys q ts c =
      if c ∈ ts then (db c).filter (!q c ·) else db c :=
  emptied_of_forall fun k hk _ => isFirm_of_ne h k hk

/-- The audit events stay when no table that they refer to is emptied. -/
theorem emptied_audit_of_not_mem {q : ∀ t, SchemaTable.Row t → Bool} {ts : List SchemaTable}
    (hp : .projects ∉ ts) (ha : .auditEvents ∉ ts) :
    db.emptied foreignKeys q ts .auditEvents = db .auditEvents := by
  have hcleared : ∀ k ∈ foreignKeys .auditEvents, k.parent ≠ .projects → k.cleared.isNone := by
    decide
  refine (emptied_of_forall fun k hk hparent => ?_).trans (if_neg ha)
  exact Option.isNone_iff_eq_none.mp (hcleared k hk fun h => hp (h ▸ hparent))

/-- The audit events keep their rows, and the projects that are still there. -/
theorem emptied_auditEvents {q : ∀ t, SchemaTable.Row t → Bool} {before after : List SchemaTable}
    (hp : .projects ∉ before ++ after) (ha : .auditEvents ∉ before ++ after) :
    db.emptied foreignKeys q (before ++ .projects :: after) .auditEvents =
      (db .auditEvents).map fun e =>
        if e.projectId.all fun i => ((db .projects).filter (!q .projects ·)).any (·.id == i) then e
        else { e with projectId := none } := by
  rw [List.mem_append, not_or] at hp ha
  have hbefore : (db.emptied foreignKeys q before) .projects = db .projects := by
    rw [emptied_rows (by decide), if_neg hp.1]
  have hwithout : ((db.emptied foreignKeys q before).without q .projects) .projects =
      (db .projects).filter (!q .projects ·) := by
    rw [← hbefore]
    rfl
  rw [emptied_append, Tables.emptied, List.foldl_cons, ← Tables.emptied,
    emptied_audit_of_not_mem hp.2 ha.2]
  have hrows : ((db.emptied foreignKeys q before).without q .projects) .auditEvents =
      db .auditEvents := emptied_audit_of_not_mem hp.1 ha.1
  unfold Tables.deleting
  rw [hrows]
  refine List.map_congr_left fun e _ => ?_
  show (if ForeignKey.found _ _ e then e else _) = _
  unfold ForeignKey.found
  dsimp only
  rw [hwithout]

/-- An audit event keeps its project if and only if the project is still there. -/
theorem SchemaSound.auditEvent (hdb : SchemaSound db) {gone : Uuid → Bool} {e : AuditEvent}
    (he : e ∈ db .auditEvents) :
    (if e.projectId.all fun i => ((db .projects).filter (!gone ·.id)).any (·.id == i) then e
      else { e with projectId := none }) =
      { e with projectId := e.projectId.filter (!gone ·) } := by
  have hkey := ForeignKey.found_iff.mp (ForeignKey.holds_iff.mp
    (hdb.consistent .auditEvents _ (.tail _ (.head _))) e he)
  cases hproject : e.projectId with
  | none =>
    rw [Option.all_none, if_pos rfl, Option.filter_none, ← hproject]
  | some i =>
    obtain ⟨row, hrow, hid⟩ := hkey i hproject
    replace hid : row.id = i := hid
    subst hid
    have hany : ((db .projects).filter (!gone ·.id)).any (·.id == row.id) = !gone row.id := by
      rw [Bool.eq_iff_iff, List.any_eq_true]
      constructor
      · rintro ⟨row', hrow', hid⟩
        rw [← beq_iff_eq.mp hid]
        exact (List.mem_filter.mp hrow').2
      · exact fun h => ⟨row, List.mem_filter.mpr ⟨hrow, h⟩, beq_self_eq_true _⟩
    rw [Option.all_some, hany, Option.filter_some]
    cases gone row.id with
    | true => rfl
    | false =>
      show e = { e with projectId := some row.id }
      rw [← hproject]

/-- The statements delete what the model deletes at once: the rows of some projects, and for an
account the devices. -/
theorem SchemaSound.sync_emptied (hdb : SchemaSound db) {q : ∀ t, SchemaTable.Row t → Bool}
    {gone : Uuid → Bool} (hq : ∀ c, ∀ x ∈ db c, ∀ p o, projectOf c x = some (p, o) →
      q c x = gone p) {after : List SchemaTable}
    (hafter : ∀ t ∈ after, t ∈ [.refreshTokens, .devices, .invitations]) :
    (purgeDb (db.emptied foreignKeys q (projectStatements ++ after))).sync =
      { (purgeDb db).sync.deleteProjects gone with
        devices := if .devices ∈ after then (db .devices).filter (!q .devices ·)
          else db .devices } := by
  -- A table of a project loses the rows of the projects that go.
  have hrows (c : SchemaTable) (hc : c ∈ projectStatements) (h : c ≠ .auditEvents)
      {project : SchemaTable.Row c → Uuid}
      (hproject : ∀ x, ∃ o, projectOf c x = some (project x, o)) :
      db.emptied foreignKeys q (projectStatements ++ after) c =
        (db c).filter fun x => !gone (project x) := by
    rw [emptied_rows h, if_pos (List.mem_append_left _ hc)]
    refine List.filter_congr fun x hx => ?_
    obtain ⟨o, ho⟩ := hproject x
    rw [hq c x hx _ o ho]
  have hother (c : SchemaTable) (h : c ≠ .auditEvents) (hc : c ∉ projectStatements) :
      db.emptied foreignKeys q (projectStatements ++ after) c =
        if c ∈ after then (db c).filter (!q c ·) else db c := by
    rw [emptied_rows h]
    simp only [List.mem_append, hc, false_or]
  have husers : .users ∉ after := fun h => absurd (hafter _ h) (by decide)
  have hprojects : (db .projects).filter (!q .projects ·) =
      (db .projects).filter (!gone ·.id) :=
    List.filter_congr fun x hx => by rw [hq .projects x hx x.id x.ownerUserId rfl]
  -- The events stay: their reference to a project that goes is set to null.
  have haudit : db.emptied foreignKeys q (projectStatements ++ after) .auditEvents =
      (db .auditEvents).map fun e => { e with projectId := e.projectId.filter (!gone ·) } := by
    have hnot (t : SchemaTable) (ht : t ∉ [.refreshTokens, .devices, .invitations])
        (hlast : t ∉ projectStatements.dropLast) : t ∉ projectStatements.dropLast ++ after :=
      fun h => (List.mem_append.mp h).elim hlast fun h => ht (hafter _ h)
    refine (@emptied_auditEvents db q projectStatements.dropLast after
      (hnot _ (by decide) (by decide)) (hnot _ (by decide) (by decide))).trans ?_
    refine List.map_congr_left fun e he => ?_
    rw [hprojects]
    exact hdb.auditEvent he
  unfold purgeDb Db.deleteProjects
  dsimp only
  rw [hrows .bootstrapCompletions (by decide) (by decide) fun x => ⟨_, rfl⟩,
    hrows .idempotencyRecords (by decide) (by decide) fun x => ⟨_, rfl⟩,
    hrows .restoreJobs (by decide) (by decide) fun x => ⟨_, rfl⟩,
    hrows .snapshots (by decide) (by decide) fun x => ⟨_, rfl⟩,
    hrows .bootstrapManifests (by decide) (by decide) fun x => ⟨_, rfl⟩,
    hrows .changeLog (by decide) (by decide) fun x => ⟨_, rfl⟩,
    hrows .objectHeads (by decide) (by decide) fun x => ⟨_, rfl⟩,
    hrows .objectRevisions (by decide) (by decide) fun x => ⟨_, rfl⟩,
    hrows .payloads (by decide) (by decide) fun x => ⟨_, rfl⟩,
    hrows .projects (by decide) (by decide) fun x => ⟨_, rfl⟩, haudit,
    hother .users (by decide) (by decide), hother .devices (by decide) (by decide),
    if_neg husers]

/-- What a purge leaves: of each table the rows that it does not select, and all audit events,
without the references to projects that are gone. -/
structure Purges (q : ∀ t, SchemaTable.Row t → Bool) (gone : Uuid → Bool) (db db' : SchemaRows) :
    Prop where
  sound : SchemaSound db'
  rows : ∀ t, t ≠ .auditEvents → db' t = (db t).filter (!q t ·)
  auditEvents : db' .auditEvents =
    (db .auditEvents).map fun e => { e with projectId := e.projectId.filter (!gone ·) }

/-- The tables are purged when the rows are those of the model. -/
theorem purges_of_sync {q : ∀ t, SchemaTable.Row t → Bool} {gone : Uuid → Bool} {db' : SchemaRows}
    (hsound : SchemaSound db') (hrows : ∀ t, t ≠ .auditEvents → db' t = (db t).filter (!q t ·))
    (hsync : (purgeDb db').sync.auditEvents =
      ((purgeDb db).sync.deleteProjects gone).auditEvents) : Purges q gone db db' :=
  ⟨hsound, hrows, hsync⟩

/-- The keys of the objects of some projects are among some keys. -/
structure ListsKeys (gone : Uuid → Bool) (db : SchemaRows) (keys : List String) : Prop where
  payloads : ∀ x ∈ db .payloads, gone x.projectId = true → x.objectKey ∈ keys
  snapshots : ∀ s ∈ db .snapshots, gone s.projectId = true → s.manifestKey ∈ keys
  manifests : ∀ m ∈ db .bootstrapManifests, gone m.projectId = true → m.manifestKey ∈ keys

/-- The keys of the objects of the projects list all of them. -/
theorem listsKeys_objectKeysOf (gone : Uuid → Bool) :
    ListsKeys gone db ((purgeDb db).sync.objectKeysOf gone) := by
  have hmem {k : String} (h : k ∈ (((db .payloads).filter (gone ·.projectId)).map (·.objectKey) ++
      ((db .snapshots).filter (gone ·.projectId)).map (·.manifestKey) ++
        ((db .bootstrapManifests).filter (gone ·.projectId)).map (·.manifestKey))) :
      k ∈ (purgeDb db).sync.objectKeysOf gone := List.mem_dedup.mpr h
  refine ⟨fun x hx hp => hmem ?_, fun s hs hp => hmem ?_, fun m hm hp => hmem ?_⟩
  · exact List.mem_append_left _ (List.mem_append_left _
      (List.mem_map_of_mem (List.mem_filter.mpr ⟨hx, hp⟩)))
  · exact List.mem_append_left _ (List.mem_append_right _
      (List.mem_map_of_mem (List.mem_filter.mpr ⟨hs, hp⟩)))
  · exact List.mem_append_right _ (List.mem_map_of_mem (List.mem_filter.mpr ⟨hm, hp⟩))

/-- A longer list of keys lists them too. -/
theorem ListsKeys.mono {gone : Uuid → Bool} {keys keys' : List String}
    (h : ListsKeys gone db keys) (hsub : ∀ k ∈ keys, k ∈ keys') : ListsKeys gone db keys' :=
  ⟨fun x hx hp => hsub _ (h.payloads x hx hp), fun s hs hp => hsub _ (h.snapshots s hs hp),
    fun m hm hp => hsub _ (h.manifests m hm hp)⟩

/-- The tables stay sound when some are emptied. -/
theorem SchemaSound.emptied (hdb : SchemaSound db) {q : ∀ t, SchemaTable.Row t → Bool}
    {ts : List SchemaTable} (h : (db.emptied foreignKeys q ts).Consistent foreignKeys) :
    SchemaSound (db.emptied foreignKeys q ts) where
  consistent := h
  projectIds := by
    rw [emptied_rows (by decide)]
    split
    · exact hdb.projectIds.sublist (List.filter_sublist.map _)
    · exact hdb.projectIds

/-- A table that the statements do not name has no row that they select. -/
theorem emptied_eq_filter {q : ∀ t, SchemaTable.Row t → Bool} {ts : List SchemaTable}
    {t : SchemaTable} (ht : t ≠ .auditEvents) (h : t ∉ ts → ∀ x ∈ db t, q t x = false) :
    db.emptied foreignKeys q ts t = (db t).filter (!q t ·) := by
  rw [emptied_rows ht]
  split
  · rfl
  · next hmem =>
    refine (List.filter_eq_self.mpr fun x hx => ?_).symm
    rw [h hmem x hx]
    rfl

/-- The statements of a purge, when the rows of projects that they select are those of some
projects. -/
theorem SchemaSound.purges (hdb : SchemaSound db) {q : ∀ t, SchemaTable.Row t → Bool}
    {gone : Uuid → Bool} {ts after emptied : List SchemaTable}
    (hts : ts = projectStatements ++ after)
    (hafter : ∀ t ∈ after, t ∈ [.refreshTokens, .devices, .invitations])
    (hordered : Ordered foreignKeys emptied ts) (hfirm : ∀ t ∈ emptied, foreignKeys.IsFirm t)
    (hemptied : db.Emptied q emptied) (hagrees : db.Agrees foreignKeys q ts)
    (hselects : ∀ c, ∀ x ∈ db c, ∀ p o, projectOf c x = some (p, o) → q c x = gone p)
    (hnone : ∀ t, t ∉ ts → ∀ x ∈ db t, q t x = false) :
    ∃ db', purgeTables q ts db = some db' ∧ Purges q gone db db' ∧
      (purgeDb db').sync = { (purgeDb db).sync.deleteProjects gone with
        devices := if .devices ∈ after then (db .devices).filter (!q .devices ·)
          else db .devices } := by
  subst hts
  have hmay : ∀ t ∈ projectStatements ++ after, t ∈ accountStatements := fun t ht =>
    List.mem_append.mpr ((List.mem_append.mp ht).imp id (hafter t))
  obtain ⟨hrun, hconsistent⟩ := purgeTables_eq_some hdb hordered hmay hfirm hemptied hagrees
  have hsync := hdb.sync_emptied hselects hafter
  have haudit := congrArg Db.auditEvents hsync
  exact ⟨_, hrun, purges_of_sync (hdb.emptied hconsistent)
    (fun t ht => emptied_eq_filter ht (hnone t)) haudit, hsync⟩

/-- The statements of a project purge delete its rows, as the model does. -/
theorem SchemaSound.purges_project (hdb : SchemaSound db) :
    ∃ db', purgeTables (ofProject p) projectStatements db = some db' ∧
      Purges (ofProject p) (· == p) db db' ∧
      (purgeDb db').sync = (purgeDb db).sync.deleteProjects (· == p) := by
  have hselects : ∀ c, ∀ x ∈ db c, ∀ i o, projectOf c x = some (i, o) →
      ofProject p c x = (i == p) := by
    intro c x _ i o h
    cases c <;> cases h <;> rfl
  have hnone : ∀ t, t ∉ projectStatements → ∀ x ∈ db t, ofProject p t x = false := by
    intro t ht x _
    cases t <;> first | rfl | exact absurd (by decide) ht
  exact hdb.purges (List.append_nil _).symm (fun t ht => (by cases ht)) ordered_projectStatements
    (fun t ht => (by cases ht)) (fun t ht => (by cases ht)) agrees_ofProject hselects hnone

/-- No nonce of an administrator refers to the devices of the account. -/
theorem SchemaSound.purges_account (hdb : SchemaSound db)
    (hnonces : ∀ n ∈ db .adminReauthNonces, n.userId ≠ userId) :
    ∃ db', purgeTables (ofAccount userId email) accountStatements db = some db' ∧
      Purges (ofAccount userId email) ((purgeDb db).sync.ownsProject userId) db db' ∧
      (purgeDb db').sync = { (purgeDb db).sync.deleteProjects ((purgeDb db).sync.ownsProject userId)
        with devices := (db .devices).filter (·.ownerUserId != userId) } := by
  have hselects : ∀ c, ∀ x ∈ db c, ∀ i o, projectOf c x = some (i, o) →
      ofAccount userId email c x = (purgeDb db).sync.ownsProject userId i := by
    intro c x hx i o h
    rw [hdb.ownsProject hx h]
    cases c <;> cases h <;> rfl
  have hempty : ∀ n ∈ db .adminReauthNonces,
      ofAccount userId email .adminReauthNonces n = false := fun n hn =>
    beq_eq_false_iff_ne.mpr (hnonces n hn)
  have hnone : ∀ t, t ∉ accountStatements → ∀ x ∈ db t, ofAccount userId email t x = false := by
    intro t ht x hx
    cases t
    case adminReauthNonces => exact hempty x hx
    all_goals first | rfl | exact absurd (by decide) ht
  exact hdb.purges rfl (fun t ht => ht) ordered_accountStatements
    (fun t ht => isFirm_of_ne (by rw [List.mem_singleton.mp ht]; decide))
    (fun t ht => List.mem_singleton.mp ht ▸ hempty) hdb.agrees_ofAccount hselects hnone

/-- What `prepare_project_purge` answers the first time, and what it leaves. -/
theorem execute_prepareProjectPurge {d : PurgeDb} {now : Timestamp} {jobId leaseToken : Uuid}
    {job : JobRow} (hjob : leasedPurge .projectPurge now jobId leaseToken d = some job)
    (hproject : job.projectId = some p) (hfirst : isDetached job.payload = false)
    {row : ProjectRow} (hrow : d.sync.project p = some row)
    (howner : row.ownerUserId = job.ownerUserId) (hstatus : row.status = .deleting)
    (order : KeyOrder) : ∃ keys d',
      (prepareProjectPurge now order jobId leaseToken).execute d = (.ok keys, d') ∧
        d'.sync = d.sync.deleteProjects (· == p) ∧
          ∀ k, k ∈ keys ↔ k ∈ d.sync.objectKeysOf (· == p) := by
  have hdeleting : ((d.sync.project p).filter (·.ownerUserId == job.ownerUserId)).any
      (·.status == .deleting) = true := by
    rw [hrow, Option.filter_some, howner, beq_self_eq_true, if_pos rfl, Option.any_some, hstatus]
    rfl
  let keys := order.arrange (d.sync.objectKeysOf (· == p))
  have hrun : (prepareProjectPurge now order jobId leaseToken).run d = (.ok (.ok keys),
      { d with sync := d.sync.deleteProjects (· == p) }.updateJob jobId fun j =>
        { j with payload := detachedProject keys }) := by
    unfold prepareProjectPurge
    simp only [bind_eq, run_bind, run_query, hjob, hproject, orThrow, run_pure, hfirst,
      Bool.false_eq_true, if_false, hdeleting, require, if_true, run_modify, pure_eq]
    rfl
  exact ⟨keys, _, congrArg (settle d) hrun, rfl, fun k => (order.perm _).mem_iff⟩

/-- What `prepare_account_purge` answers the first time, and what it leaves. -/
theorem execute_prepareAccountPurge {d : PurgeDb} {now : Timestamp} {jobId leaseToken : Uuid}
    {job : JobRow} (hjob : leasedPurge .accountPurge now jobId leaseToken d = some job)
    (hfirst : isDetached job.payload = false) {exportId : Uuid}
    (hexport : uuidMember job.payload "exportId" = some exportId) {user : UserRow}
    (huser : d.user job.ownerUserId = some user) (hstatus : user.status = .deleting) :
    ∃ keys d', (prepareAccountPurge now jobId leaseToken).execute d = (.ok keys, d') ∧
      d'.sync = { d.sync.deleteProjects (d.sync.ownsProject job.ownerUserId) with
        devices := d.sync.devices.filter (·.ownerUserId != job.ownerUserId) } ∧
      ∀ k, k ∈ keys ↔ k ∈ d.sync.objectKeysOf (d.sync.ownsProject job.ownerUserId) ∨
        k ∈ (d.accountExport exportId).toList.map (·.objectKey) := by
  let keys := (d.sync.objectKeysOf (d.sync.ownsProject job.ownerUserId) ++
    (d.accountExport exportId).toList.map (·.objectKey)).dedup.insertionSort (· ≤ ·)
  have hrun : (prepareAccountPurge now jobId leaseToken).run d = (.ok (.ok keys),
      { d with sync := { d.sync.deleteProjects (d.sync.ownsProject job.ownerUserId) with
        devices := d.sync.devices.filter (·.ownerUserId != job.ownerUserId) } }.updateJob jobId
          fun j => { j with payload := detachedPayload exportId keys }) := by
    unfold prepareAccountPurge
    simp only [bind_eq, run_bind, run_query, hjob, orThrow, run_pure, hfirst, hexport, huser,
      Bool.false_eq_true, if_false, hstatus, require, beq_self_eq_true, if_true, run_modify,
      pure_eq]
    rfl
  refine ⟨keys, _, congrArg (settle d) hrun, rfl, fun k => ?_⟩
  rw [(List.perm_insertionSort _ _).mem_iff, List.mem_dedup, List.mem_append]

/-- `prepare_project_purge` under a lease of a project that is being deleted: the statements are not
refused, no row of the project is left in their tables, all others are as before, and the keys of
all its objects are returned. -/
theorem project_purge_complete (hdb : SchemaSound db) {now : Timestamp} {jobId leaseToken : Uuid}
    {job : JobRow} (hjob : leasedPurge .projectPurge now jobId leaseToken (purgeDb db) = some job)
    (hproject : job.projectId = some p) (hfirst : isDetached job.payload = false)
    {row : ProjectRow} (hrow : (purgeDb db).sync.project p = some row)
    (howner : row.ownerUserId = job.ownerUserId) (hstatus : row.status = .deleting)
    (order : KeyOrder) :
    ∃ db' keys d', purgeTables (ofProject p) projectStatements db = some db' ∧
      Purges (ofProject p) (· == p) db db' ∧
      (prepareProjectPurge now order jobId leaseToken).execute (purgeDb db) = (.ok keys, d') ∧
      d'.sync = (purgeDb db').sync ∧ ListsKeys (· == p) db keys := by
  obtain ⟨db', hrun, hpurges, hsync⟩ := hdb.purges_project
  obtain ⟨keys, d', hexecute, hd', hkeys⟩ :=
    execute_prepareProjectPurge hjob hproject hfirst hrow howner hstatus order
  refine ⟨db', keys, d', hrun, hpurges, hexecute, hd'.trans hsync.symm, ?_⟩
  exact (listsKeys_objectKeysOf _).mono fun k hk => (hkeys k).mpr hk

/-- `prepare_account_purge` under a lease of an account that is being deleted, which has no nonce of
an administrator: the statements are not refused, no row of the account and no invitation for its
address is left, all others are as before, and the keys of all its objects are returned. -/
theorem account_purge_complete (hdb : SchemaSound db) {now : Timestamp} {jobId leaseToken : Uuid}
    {job : JobRow} (hjob : leasedPurge .accountPurge now jobId leaseToken (purgeDb db) = some job)
    (hfirst : isDetached job.payload = false) {exportId : Uuid}
    (hexport : uuidMember job.payload "exportId" = some exportId) {u : AccountRow}
    (hu : (db .users).find? (·.id == job.ownerUserId) = some u) (hstatus : u.status = .deleting)
    (hnonces : ∀ n ∈ db .adminReauthNonces, n.userId ≠ job.ownerUserId) :
    ∃ db' keys d', purgeTables (ofAccount job.ownerUserId u.emailNormalized) accountStatements db =
        some db' ∧
      Purges (ofAccount job.ownerUserId u.emailNormalized)
        ((purgeDb db).sync.ownsProject job.ownerUserId) db db' ∧
      (prepareAccountPurge now jobId leaseToken).execute (purgeDb db) = (.ok keys, d') ∧
      d'.sync = (purgeDb db').sync ∧
      ListsKeys ((purgeDb db).sync.ownsProject job.ownerUserId) db keys ∧
      ∀ e, (purgeDb db).accountExport exportId = some e → e.objectKey ∈ keys := by
  obtain ⟨db', hrun, hpurges, hsync⟩ := hdb.purges_account hnonces
  have huser : (purgeDb db).user job.ownerUserId = some u.toUserRow := by
    unfold PurgeDb.user
    refine List.find?_map.trans ?_
    show ((db .users).find? (·.id == job.ownerUserId)).map _ = _
    rw [hu]
    rfl
  obtain ⟨keys, d', hexecute, hd', hkeys⟩ :=
    execute_prepareAccountPurge hjob hfirst hexport huser hstatus
  refine ⟨db', keys, d', hrun, hpurges, hexecute, hd'.trans hsync.symm, ?_, fun e he => ?_⟩
  · exact (listsKeys_objectKeysOf _).mono fun k hk => (hkeys k).mpr (.inl hk)
  · refine (hkeys _).mpr (.inr ?_)
    rw [he]
    exact List.mem_singleton_self _

/-! ## A purge of each kind -/

/-- An account that is being deleted. -/
def leavingAccount : AccountRow := ⟨⟨1, .user, .deleting⟩, "ann@example.org", "Ann", ""⟩

/-- The claimed purge of the account. -/
def leavingJob : JobRow :=
  (JobRow.new 14 .accountPurge 1 none (.obj [("exportId", Uuid.toJson 15)]) 0).claimed 0 13

/-- The account with a project that is being deleted too, and the project of another account. -/
def purgedTables : SchemaRows
  | .users => [leavingAccount, ⟨⟨2, .user, .active⟩, "bob@example.org", "Bob", ""⟩]
  | .devices => [⟨3, 1, none, none, none⟩, ⟨4, 2, none, none, none⟩]
  | .projects => [⟨5, 1, "Notes", 2, .deleting, 1, 0, 0⟩, ⟨6, 2, "Tasks", 1, .active, 0, 0, 0⟩]
  | .payloads => [⟨7, 5, 1, sampleDigest, "bucket", "payload", 0, "text/plain", 0⟩,
      ⟨8, 6, 2, sampleDigest, "bucket", "other", 0, "text/plain", 0⟩]
  | .objectRevisions =>
    [⟨5, 1, .todo, "a", 1, none, some 1, some 7, some sampleDigest, false, 0, 3⟩]
  | .objectHeads => [⟨5, 1, .todo, "a", 1, ⟨5, .todo, "a", 1⟩⟩]
  | .changeLog => [⟨5, 1, 1, ⟨5, .todo, "a", 1⟩⟩]
  | .snapshots => [⟨9, 5, 1, 1, 1, "11", "bucket", "manifest", .null, .ready, 1, 0⟩]
  | .bootstrapCompletions => [⟨5, 1, 3, 1, 1, 0⟩]
  | .syncAttempts => [⟨1, 5, some 3⟩]
  | .auditEvents => [⟨some 1, none, some 5, "snapshot.created", .null, none⟩,
      ⟨some 2, none, some 6, "snapshot.created", .null, none⟩]
  | .refreshTokens => [⟨1, 3, [], 10, 100, none, none⟩]
  | .invitations => [⟨11, "ann@example.org", "Ann", [1], 100, some 0, none⟩]
  | .jobs =>
    [(JobRow.new 12 .projectPurge 1 (some 5) (.obj []) 0).claimed 0 13,
      leavingJob]
  | .accountPurgeExports => [⟨15, 1, 14, "export", none, none, .ready, 0, 100, none⟩]
  | .restoreJobs | .bootstrapManifests | .idempotencyRecords | .adminReauthNonces => []

/-- The sample tables are sound. -/
theorem schemaSound_purgedTables : SchemaSound purgedTables := ⟨by decide, by decide⟩

/-- A project of the sample tables is purged. -/
theorem project_five_purged : ∃ db' keys d',
    purgeTables (ofProject 5) projectStatements purgedTables = some db' ∧
      Purges (ofProject 5) (· == 5) purgedTables db' ∧
      (prepareProjectPurge 10 .stored 12 13).execute (purgeDb purgedTables) = (.ok keys, d') ∧
      d'.sync = (purgeDb db').sync ∧ ListsKeys (· == 5) purgedTables keys :=
  project_purge_complete schemaSound_purgedTables rfl rfl rfl rfl rfl rfl .stored

/-- An account of the sample tables is purged. -/
theorem leavingAccount_purged : ∃ db' keys d',
    purgeTables (ofAccount leavingJob.ownerUserId leavingAccount.emailNormalized) accountStatements
        purgedTables = some db' ∧
      Purges (ofAccount leavingJob.ownerUserId leavingAccount.emailNormalized)
        ((purgeDb purgedTables).sync.ownsProject leavingJob.ownerUserId) purgedTables db' ∧
      (prepareAccountPurge 10 14 13).execute (purgeDb purgedTables) = (.ok keys, d') ∧
      d'.sync = (purgeDb db').sync ∧
      ListsKeys ((purgeDb purgedTables).sync.ownsProject leavingJob.ownerUserId) purgedTables keys ∧
      ∀ e, (purgeDb purgedTables).accountExport 15 = some e → e.objectKey ∈ keys := by
  have hexport : uuidMember leavingJob.payload "exportId" = some 15 := by
    simp [leavingJob, JobRow.new, JobRow.claimed, uuidMember, Uuid.toJson, Uuid.parse_text]
  exact account_purge_complete schemaSound_purgedTables rfl rfl hexport rfl rfl
    fun _ h => (by cases h)

end TaskTipsCloud

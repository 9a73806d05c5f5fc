import TaskTipsCloud.Manifests

/-!
# Runs of the creators of manifests beside the cleanup

The cleanup deletes only keys that one of its expiries has returned. The snapshots and the manifests
of these keys are no longer needed, and nothing makes them needed again.
-/

namespace TaskTipsCloud

open Program

/-! ## What the calls of a process rest on -/

/-- Whether an operation of the cleanup is one of an expiry, and deletes only what an expiry has
returned; or the third stage has ended well. -/
def StorageOp.Justified (before : List StorageCall) (op : StorageOp) : Prop :=
  (∃ limit keys, ⟨.expireAccountPurgeExports limit, .ok keys⟩ ∈ before) ∨
    op.isExpiry = true ∧ ∀ key, op = .deleteKey key → ∃ keys, key ∈ keys ∧
      ((∃ olderThan, ⟨.expirePendingSnapshots olderThan, .ok keys⟩ ∈ before) ∨
        ∃ limit, ⟨.expireBootstrapManifests limit, .ok keys⟩ ∈ before)

/-- A call of the cleanup beside the creators of manifests. -/
def StorageCall.beside (c : StorageCall) : ManifestCall := ⟨.cleanup c.op, c.reply⟩

/-- The bootstrap manifest that an operation records. -/
def ManifestOp.recordedId : ManifestOp → Option Uuid
  | .recordBootstrapManifest _ _ manifest _ _ => some manifest.id
  | _ => none

/-- What the calls of a process before it say of its next call. A process that bootstraps has drawn
an identifier. -/
def ManifestOp.Justified (drawn : Option Uuid) (before : List ManifestCall) : ManifestOp → Prop
  | .recordSnapshot a =>
    a.manifestKey = ObjectStore.manifestKey a.userId a.projectId a.snapshotId
  | .markSnapshotReadyForJob jobId leaseToken snapshotId _ key =>
    ∃ order projectId snapshotId' ownerUserId manifest,
      ⟨.createPreRestoreSnapshot order projectId jobId leaseToken snapshotId',
        .ok (snapshotId, ownerUserId, manifest)⟩ ∈ before ∧
      key = ObjectStore.manifestKey ownerUserId projectId snapshotId
  | .recordBootstrapManifest userId projectId manifest _ key =>
    key = ObjectStore.bootstrapManifestKey userId projectId manifest.id ∧
      (∃ order manifestId, drawn = some manifestId ∧
        ⟨.prepareBootstrapManifest order userId projectId manifestId, .ok manifest⟩ ∈ before) ∧
      ∀ c ∈ before, c.op.recordedId = none
  | .cleanup op => ∃ calls : List StorageCall, before = calls.map StorageCall.beside ∧
      op.Justified calls
  | _ => True

/-- An operation that rests on nothing. -/
def ManifestOp.isFree : ManifestOp → Bool
  | .recordSnapshot _ | .markSnapshotReadyForJob .. | .recordBootstrapManifest .. | .cleanup _ =>
    false
  | _ => true

/-- A free operation needs no justification. -/
theorem ManifestOp.justified_of_isFree {drawn : Option Uuid} {before : List ManifestCall}
    {op : ManifestOp} (hop : op.isFree = true) : op.Justified drawn before := by
  cases op <;> trivial

/-! ## Programs that store -/

section

variable {P : List ManifestCall → ManifestOp → Prop} {before : List ManifestCall} {h : ManifestHost}

/-- The verified write makes free operations only. -/
theorem respects_putVerified (hP : ∀ calls op, op.isFree = true → P calls op)
    {key expectedHash : String} {bytes : Json} :
    Respects P before (ObjectStore.putVerified h key expectedHash bytes) := by
  have hfree : ∀ {op : ManifestOp}, op.isFree = true → ∀ {calls},
      Respects P calls (perform op : ManifestProgram op.Reply) :=
    fun hop _ => respects_perform (hP _ _ hop)
  unfold ObjectStore.putVerified
  simp only [bind_eq, pure_eq]
  split
  · trivial
  refine (hfree rfl).andThen fun _ head _ => ?_
  rcases (head : Option (ℕ × Option String)) with _ | ⟨size, mediaType⟩
  · dsimp only
    split
    · trivial
    refine (hfree rfl).andThen fun _ _ _ => (hfree rfl).andThen fun _ head _ => ?_
    rcases (head : Option (ℕ × Option String)) with _ | ⟨size, mediaType⟩
    · trivial
    · exact (hfree rfl).andThen fun _ _ _ => trivial
  · dsimp only
    split
    · trivial
    · exact (hfree rfl).andThen fun _ _ _ => trivial

/-- What is stored is stored under the key. -/
theorem key_of_putVerified {key expectedHash : String} {bytes : Json} {calls : List ManifestCall}
    {stored : ManifestInfo}
    (hends : Ends (ObjectStore.putVerified h key expectedHash bytes) calls (.ok stored)) :
    stored.key = key := by
  unfold ObjectStore.putVerified at hends
  simp only [bind_eq, pure_eq] at hends
  split at hends
  · cases (ends_fail_iff.mp hends).2
  obtain ⟨_, head, _, -, hends, -⟩ := ends_andThen_ok_iff.mp hends
  rcases (head : Option (ℕ × Option String)) with _ | ⟨size, mediaType⟩
  · dsimp only at hends
    split at hends
    · cases (ends_fail_iff.mp hends).2
    obtain ⟨_, _, _, -, hends, -⟩ := ends_andThen_ok_iff.mp hends
    obtain ⟨_, head, _, -, hends, -⟩ := ends_andThen_ok_iff.mp hends
    rcases (head : Option (ℕ × Option String)) with _ | ⟨size, mediaType⟩
    · cases (ends_fail_iff.mp hends).2
    · obtain ⟨_, _, _, -, hends, -⟩ := ends_andThen_ok_iff.mp hends
      cases (ends_done_iff.mp hends).2
      rfl
  · dsimp only at hends
    split at hends
    · cases (ends_fail_iff.mp hends).2
    obtain ⟨_, _, _, -, hends, -⟩ := ends_andThen_ok_iff.mp hends
    cases (ends_done_iff.mp hends).2
    rfl

/-- Storing a manifest records none. -/
theorem recordedId_of_putVerified {key expectedHash : String} {bytes : Json}
    {calls : List ManifestCall} {r : Except StorageError ManifestInfo}
    (hends : Ends (ObjectStore.putVerified h key expectedHash bytes) calls r) :
    ∀ c ∈ calls, c.op.recordedId = none := by
  have hfree : ∀ (calls : List ManifestCall) (op : ManifestOp), op.isFree = true →
      op.recordedId = none := fun _ op hop => by cases op <;> first | rfl | cases hop
  have hrespects : Respects (fun _ op => op.recordedId = none) []
      (ObjectStore.putVerified h key expectedHash bytes) := respects_putVerified hfree
  exact hrespects.forall_mem hends

end

/-! ## Creators -/

section

variable {drawn : Option Uuid} {before : List ManifestCall} {h : ManifestHost}

/-- A free operation respects the justification. -/
theorem respects_free {op : ManifestOp} (hop : op.isFree = true) :
    Respects (ManifestOp.Justified drawn) before (perform op : ManifestProgram op.Reply) :=
  respects_perform (ManifestOp.justified_of_isFree hop)

/-- So does an operation that leaves the manifests. -/
theorem respects_elsewhere {c : Call} {hc : c.leavesManifests = true} :
    Respects (ManifestOp.Justified drawn) before (elsewhere c hc) := respects_free rfl

/-- So does the creation of a snapshot. -/
theorem respects_createSnapshot {order : ScanOrder} {userId projectId snapshotId : Uuid} :
    Respects (ManifestOp.Justified drawn) before
      (createSnapshot h order userId projectId snapshotId) := by
  refine (respects_free rfl).andThen fun _ taken _ => ?_
  obtain ⟨generation, sequence, manifest⟩ := (taken : ℤ × ℤ × Json)
  refine (respects_putVerified fun _ _ => ManifestOp.justified_of_isFree).andThen
    fun _ stored hstored => ?_
  exact Respects.andThen (respects_perform (key_of_putVerified hstored)) fun _ _ _ => trivial

/-- So does the preparation of the bytes of a manifest. -/
theorem respects_bootstrapBytes {projectId : Uuid} {manifest : BootstrapManifest} :
    Respects (ManifestOp.Justified drawn) before (bootstrapBytes h projectId manifest) := by
  unfold bootstrapBytes
  split <;> trivial

/-- It makes no calls. -/
theorem calls_of_bootstrapBytes {projectId : Uuid} {manifest : BootstrapManifest}
    {calls : List ManifestCall} {r : Except StorageError Json}
    (hends : Ends (bootstrapBytes h projectId manifest) calls r) : calls = [] := by
  unfold bootstrapBytes at hends
  split at hends
  · exact (ends_done_iff.mp hends).1
  · exact (ends_fail_iff.mp hends).1

/-- The first page of a bootstrap records its manifest after it has written it. -/
theorem respects_bootstrapFirstPage {order : ScanOrder}
    {userId deviceId projectId manifestId : Uuid}
    {limit : ℤ} :
    Respects (ManifestOp.Justified (some manifestId)) []
      (bootstrapFirstPage h order userId deviceId projectId manifestId limit) := by
  refine (respects_free rfl).andThen fun calls manifest hprepared => ?_
  obtain rfl := ends_perform_iff.mp hprepared
  refine Respects.andThen respects_bootstrapBytes fun calls bytes hbytes => ?_
  obtain rfl := calls_of_bootstrapBytes hbytes
  rw [List.append_nil, List.nil_append]
  refine (respects_putVerified fun _ _ => ManifestOp.justified_of_isFree).andThen
    fun calls stored hstored => ?_
  have hkey := key_of_putVerified hstored
  have hrecords := recordedId_of_putVerified hstored
  refine Respects.andThen (respects_perform ?_) fun _ _ _ => ?_
  · refine ⟨hkey, ⟨order, manifestId, rfl, ?_⟩, ?_⟩
    · rw [List.singleton_append]
      exact List.mem_cons_self
    exact List.forall_mem_append.mpr ⟨List.forall_mem_singleton.mpr rfl, hrecords⟩
  · exact Respects.andThen respects_elsewhere fun _ _ _ => trivial

/-- A retry respects the justification. -/
theorem respects_retryAfter {job : RestoreJob} {leaseToken : Uuid} {errorCode : String}
    {error : StorageError} :
    Respects (ManifestOp.Justified drawn) before (retryAfter job leaseToken errorCode error) :=
  respects_elsewhere.andThen fun _ _ _ => trivial

/-- So does the end of a cancelled job. -/
theorem respects_cancelRunning {job : RestoreJob} {leaseToken : Uuid} :
    Respects (ManifestOp.Justified drawn) before (cancelRunning job leaseToken) :=
  respects_elsewhere.andThen fun _ _ _ => trivial

/-- So does the execution of a job. -/
theorem respects_executeJob {draw : RestoreDraw} {job : RestoreJob} {leaseToken : Uuid} :
    Respects (ManifestOp.Justified drawn) before (executeJob draw job leaseToken) := by
  refine respects_elsewhere.andThen fun _ _ _ => respects_elsewhere.attempt.andThen fun _ r _ => ?_
  split
  · trivial
  · exact respects_cancelRunning
  · exact respects_retryAfter

/-- So does a restore with its snapshot, once that is prepared. -/
theorem respects_restoreWithSnapshot {draw : RestoreDraw} {job : RestoreJob}
    {leaseToken snapshotId snapshotId' ownerUserId : Uuid} {manifest : Json} {order : ScanOrder}
    (hprepared : ⟨.createPreRestoreSnapshot order job.projectId job.id leaseToken snapshotId',
      .ok (snapshotId, ownerUserId, manifest)⟩ ∈ before) :
    Respects (ManifestOp.Justified drawn) before
      (restoreWithSnapshot h draw job leaseToken snapshotId ownerUserId manifest) := by
  refine respects_elsewhere.andThen fun _ _ _ => ?_
  refine (respects_putVerified fun _ _ => ManifestOp.justified_of_isFree).attempt.andThen
    fun _ r hstored => ?_
  split
  · exact respects_retryAfter
  · obtain ⟨r', hstored, hr⟩ := ends_attempt_iff.mp hstored
    obtain rfl := Except.ok.inj hr
    refine Respects.andThen (respects_perform ?_) fun _ _ _ => respects_executeJob
    exact ⟨order, job.projectId, snapshotId', ownerUserId, manifest,
      List.mem_append_left _ (List.mem_append_left _ hprepared), key_of_putVerified hstored⟩

/-- So does the processing of a job. -/
theorem respects_processRestoreJob {draw : RestoreDraw} {job : RestoreJob} :
    Respects (ManifestOp.Justified drawn) before (processRestoreJob h draw job) := by
  unfold processRestoreJob
  split
  · trivial
  refine (respects_free rfl).attempt.andThen fun _ r hprepared => ?_
  obtain ⟨r', hprepared, hr⟩ := ends_attempt_iff.mp hprepared
  obtain rfl := Except.ok.inj hr
  obtain rfl := ends_perform_iff.mp hprepared
  split
  · exact respects_restoreWithSnapshot (List.mem_append_right _ List.mem_cons_self)
  · exact respects_cancelRunning
  · exact respects_retryAfter

/-- So does that of several. -/
theorem respects_processRestoreJobs {draws : List RestoreDraw} :
    Respects (ManifestOp.Justified drawn) before (processRestoreJobs h draws) := by
  induction draws generalizing before with
  | nil => trivial
  | cons draw draws ih =>
    refine Respects.andThen (respects_elsewhere.andThen fun _ reply _ => ?_) fun _ job _ => ?_
    · split <;> trivial
    · split
      · trivial
      · exact respects_processRestoreJob.andThen fun _ _ _ => ih

end

/-! ## The cleanup -/

section

variable {before : List StorageCall}

/-- After a third stage that has ended well, any operation may be called. -/
theorem respects_collectGarbage {pages : ℕ} {cutoff : Timestamp}
    (h : ∃ limit keys, ⟨.expireAccountPurgeExports limit, .ok keys⟩ ∈ before) :
    Respects (fun b o => o.Justified b) before (collectGarbage pages cutoff) := by
  obtain ⟨limit, keys, hmem⟩ := h
  exact respects_of_forall fun calls op => .inl ⟨limit, keys, List.mem_append_left _ hmem⟩

/-- The cleanup deletes what was listed before. -/
theorem respects_cleanupOrphans {pages : ℕ} {start : Timestamp} :
    Respects (fun b o => StorageOp.Justified b o) [] (cleanupOrphans pages start) := by
  have hexpiry : ∀ {op : StorageOp} {before : List StorageCall}, op.isExpiry = true →
      (∀ key, op ≠ .deleteKey key) → Respects (fun b o => StorageOp.Justified b o) before
        (perform op : StorageProgram op.Reply) :=
    fun hop hkey => respects_perform (.inr ⟨hop, fun key heq => absurd heq (hkey key)⟩)
  have hdelete : ∀ {before : List StorageCall} {keys : List String},
      ((∃ olderThan, ⟨.expirePendingSnapshots olderThan, .ok keys⟩ ∈ before) ∨
        (∃ limit, ⟨.expireBootstrapManifests limit, .ok keys⟩ ∈ before) ∨
        ∃ limit, ⟨.expireAccountPurgeExports limit, .ok keys⟩ ∈ before) →
      Respects (fun b o => StorageOp.Justified b o) before
        (forEach ObjectStore.deleteKey keys) := by
    intro before keys h
    refine Respects.forEach fun key hkey calls => respects_perform ?_
    rcases h with ⟨olderThan, hmem⟩ | ⟨limit, hmem⟩ | ⟨limit, hmem⟩
    · refine .inr ⟨rfl, fun key' heq => ⟨keys, ?_, .inl ⟨olderThan, List.mem_append_left _ hmem⟩⟩⟩
      cases heq
      exact hkey
    · refine .inr ⟨rfl, fun key' heq => ⟨keys, ?_, .inr ⟨limit, List.mem_append_left _ hmem⟩⟩⟩
      cases heq
      exact hkey
    · exact .inl ⟨limit, keys, List.mem_append_left _ hmem⟩
  refine Respects.andThen (Respects.andThen (hexpiry rfl nofun) fun calls keys hends => ?_)
    fun _ _ _ => ?_
  · obtain rfl := ends_perform_iff.mp hends
    exact hdelete (.inl ⟨_, List.mem_append_right _ List.mem_cons_self⟩)
  refine Respects.andThen (Respects.andThen (hexpiry rfl nofun) fun calls keys hends => ?_)
    fun _ _ _ => ?_
  · obtain rfl := ends_perform_iff.mp hends
    exact hdelete (.inr (.inl ⟨_, List.mem_append_right _ List.mem_cons_self⟩))
  refine Respects.andThen (Respects.andThen (hexpiry rfl nofun) fun calls keys hends => ?_)
    fun _ _ hends => ?_
  · obtain rfl := ends_perform_iff.mp hends
    exact hdelete (.inr (.inr ⟨_, List.mem_append_right _ List.mem_cons_self⟩))
  · obtain ⟨calls₁, keys, calls₂, hexpired, -, rfl⟩ := ends_andThen_ok_iff.mp hends
    obtain rfl := ends_perform_iff.mp hexpired
    exact respects_collectGarbage ⟨_, keys, List.mem_append_right _ List.mem_cons_self⟩

/-- So does the cleanup as one of the processes. -/
theorem respects_cleanupPass {drawn : Option Uuid} {pages : ℕ} {start : Timestamp} :
    Respects (ManifestOp.Justified drawn) [] (cleanupPass pages start) := by
  let back (op : StorageOp) (r : Except StorageError op.Reply) :
    Except StorageError (ManifestOp.cleanup op).Reply := r
  exact Respects.lift ManifestOp.cleanup back (fun _ _ => rfl) (fun calls _ h => ⟨calls, rfl, h⟩)
    respects_cleanupOrphans

end

/-- Each process makes only calls that its earlier calls justify. -/
theorem respects_program (h : ManifestHost) (x : ManifestProcess) :
    Respects (ManifestOp.Justified x.manifestId) [] (x.program h) := by
  cases x with
  | cleanup pages start => exact respects_cleanupPass
  | snapshot order userId projectId snapshotId => exact respects_createSnapshot
  | bootstrap order userId deviceId projectId manifestId limit =>
    exact respects_bootstrapFirstPage
  | restores draws => exact respects_processRestoreJobs
  | elsewhere c => exact respects_elsewhere.andThen fun _ _ _ => trivial

/-! ## What the operations change -/

/-- What identifies a snapshot and its object. -/
def SnapshotRow.identity (x : SnapshotRow) : Uuid × Uuid × Uuid × String :=
  (x.id, x.projectId, x.ownerUserId, x.manifestKey)

/-- The rows have identifiers of their own, and the keys that the object store builds. -/
structure Db.HoldsManifests (d : Db) : Prop where
  snapshotIds : (d.snapshots.map (·.id)).Nodup
  snapshotKeys : ∀ x ∈ d.snapshots,
    x.manifestKey = (ObjectStore.BuiltKey.manifest x.ownerUserId x.projectId x.id).text
  manifestIds : (d.bootstrapManifests.map (·.id)).Nodup
  manifestKeys : ∀ m ∈ d.bootstrapManifests,
    m.manifestKey = (ObjectStore.BuiltKey.bootstrap m.ownerUserId m.projectId m.id).text

/-- What an operation does to the rows. -/
inductive ManifestChange (op : ManifestOp) (d d' : Db) : Prop
  | kept (hs : d'.snapshots = d.snapshots) (hm : d'.bootstrapManifests = d.bootstrapManifests)
  | pending {x : SnapshotRow} (hpending : x.status = .pending)
    (hnew : ∀ y ∈ d.snapshots, y.id ≠ x.id)
    (hkey : x.manifestKey = (ObjectStore.BuiltKey.manifest x.ownerUserId x.projectId x.id).text)
    (hs : d'.snapshots = d.snapshots ++ [x]) (hm : d'.bootstrapManifests = d.bootstrapManifests)
  | settled {p : SnapshotRow → Bool} {f : SnapshotRow → SnapshotRow}
    (hp : ∀ x ∈ d.snapshots, p x = true →
      x.status = .pending ∧ (f x).identity = x.identity ∧ (f x).status ≠ .pending)
    (hs : d'.snapshots = updateWhere p f d.snapshots)
    (hm : d'.bootstrapManifests = d.bootstrapManifests)
  | recorded {m : BootstrapManifestRow} (hop : op.recordedId = some m.id)
    (hnew : ∀ y ∈ d.bootstrapManifests, y.id ≠ m.id)
    (hkey : m.manifestKey = (ObjectStore.BuiltKey.bootstrap m.ownerUserId m.projectId m.id).text)
    (hs : d'.snapshots = d.snapshots) (hm : d'.bootstrapManifests = d.bootstrapManifests ++ [m])
  | expired {q : BootstrapManifestRow → Bool} (hs : d'.snapshots = d.snapshots)
    (hm : d'.bootstrapManifests = d.bootstrapManifests.filter q)

/-- The arguments of an operation are those of the rows that it changes. -/
def ManifestOp.Fits (d : Db) : ManifestOp → Prop
  | .recordSnapshot a =>
    a.manifestKey = ObjectStore.manifestKey a.userId a.projectId a.snapshotId
  | .markSnapshotReadyForJob _ _ snapshotId _ key =>
    ∀ x ∈ d.snapshots, x.id = snapshotId → x.manifestKey = key
  | .recordBootstrapManifest userId projectId manifest _ key =>
    key = ObjectStore.bootstrapManifestKey userId projectId manifest.id
  | .cleanup op => op.isExpiry = true
  | _ => True

section

variable {host : Host} {now : Timestamp} {d d' : Db}

/-- A snapshot is found by its identifier. -/
theorem mem_of_snapshot {id : Uuid} {x : SnapshotRow} (h : d.snapshot id = some x) :
    x ∈ d.snapshots ∧ x.id = id := by
  have hid := List.find?_some h
  exact ⟨List.mem_of_find?_eq_some h, eq_of_beq hid⟩

/-- A snapshot is the only one with its identifier. -/
theorem Db.HoldsManifests.eq_of_id (hd : d.HoldsManifests) {x y : SnapshotRow}
    (hx : x ∈ d.snapshots) (hy : y ∈ d.snapshots) (h : x.id = y.id) : x = y :=
  List.inj_on_of_nodup_map hd.snapshotIds hx hy h

/-- A change of the pending snapshot with an identifier settles it. -/
theorem change_of_updateSnapshot {op : ManifestOp} {x : SnapshotRow}
    {f : SnapshotRow → SnapshotRow} (hd : d.HoldsManifests) (hx : x ∈ d.snapshots)
    (hpending : x.status = .pending) (hidentity : (f x).identity = x.identity)
    (hf : (f x).status ≠ .pending)
    (hs : d'.snapshots = (d.updateSnapshot x.id f).snapshots)
    (hm : d'.bootstrapManifests = d.bootstrapManifests) : ManifestChange op d d' := by
  refine .settled (p := (·.id == x.id)) (f := f) (fun y hy hid => ?_) hs hm
  obtain rfl := hd.eq_of_id hy hx (eq_of_beq hid)
  exact ⟨hpending, hidentity, hf⟩

/-- A pending snapshot is added, and the bootstrap manifests stay. -/
theorem change_of_insertPendingSnapshot {op : ManifestOp} {snapshotId p ownerUserId : Uuid}
    {generation sequence : ℤ} {manifest : Json} (hnew : d.snapshot snapshotId = none)
    (hs : d'.snapshots = d.snapshots ++
      [pendingRow host now snapshotId p ownerUserId generation sequence manifest])
    (hm : d'.bootstrapManifests = d.bootstrapManifests) : ManifestChange op d d' := by
  refine .pending rfl (fun y hy => ?_) rfl hs hm
  have hne := List.find?_eq_none.mp hnew y hy
  exact fun hid => hne (beq_iff_eq.mpr hid)

/-- The preparation of a manifest changes nothing and answers one with the given identifier. -/
theorem run_prepareBootstrapManifest {order : ScanOrder} {userId p manifestId : Uuid}
    {r : Except PersistenceError BootstrapManifest}
    (h : (prepareBootstrapManifest host order userId p manifestId).run d = (.ok r, d')) :
    d' = d ∧ ∃ manifest, r = .ok manifest ∧ manifest.id = manifestId := by
  simp only [prepareBootstrapManifest, requireActiveProjectForUpdate, Txn.bind_eq, Txn.query_bind,
    Txn.run_bind_ok_iff, Txn.run_read, Txn.run_orThrow_ok_iff, Txn.pure_eq,
    Txn.run_pure_ok_iff] at h
  obtain ⟨_, _, hstate, _, _, ⟨-, rfl⟩, rfl, rfl⟩ := h
  obtain ⟨rfl, -⟩ := run_projectState hstate
  exact ⟨rfl, _, rfl, rfl⟩

/-- The record of a manifest adds a row with a new identifier. -/
theorem run_recordBootstrapManifest {userId p : Uuid} {manifest : BootstrapManifest}
    {bucket key : String} {r : Except PersistenceError Unit}
    (h : (recordBootstrapManifest now userId p manifest bucket key).run d = (.ok r, d')) :
    (∀ y ∈ d.bootstrapManifests, y.id ≠ manifest.id) ∧ d'.snapshots = d.snapshots ∧
      ∃ m : BootstrapManifestRow, m.id = manifest.id ∧ m.ownerUserId = userId ∧ m.projectId = p ∧
        m.manifestKey = key ∧ d'.bootstrapManifests = d.bootstrapManifests ++ [m] := by
  simp only [recordBootstrapManifest, Txn.bind_eq, Txn.acquire_bind, Txn.run_lock,
    Txn.run_bind_ok_iff, run_mapConflict_ok_iff, Txn.pure_eq, Txn.run_pure_ok_iff] at h
  obtain ⟨_, _, hinsert, -, rfl⟩ := h
  obtain ⟨hrefused, rfl⟩ := run_insertRow_ok_iff.mp hinsert
  have hnew := constraint_of_firstViolation hrefused
    (c := d.bootstrapManifests.all (·.id != manifest.id)) (e := .uniqueViolation)
    (List.mem_of_getElem? (i := 2) rfl)
  refine ⟨fun y hy => ?_, rfl, _, rfl, rfl, rfl, rfl, rfl⟩
  simpa using List.all_eq_true.mp hnew y hy

/-- A transaction of a creator changes the rows in one of the ways. -/
theorem change_of_body {op : ManifestOp} {x : Tx (Except PersistenceError op.Reply)}
    (hbody : op.body host now = some x) {r : Except PersistenceError op.Reply}
    (hrun : x.run d = (.ok r, d')) (hd : d.HoldsManifests) (hfits : op.Fits d) :
    ManifestChange op d d' := by
  cases op with
  | snapshotManifest order userId projectId snapshotId =>
    obtain rfl := Option.some.inj hbody
    obtain ⟨row, manifest, -, -, hnew, -, rfl⟩ := run_snapshotManifest hrun
    exact change_of_insertPendingSnapshot hnew rfl rfl
  | recordSnapshot a =>
    obtain rfl := Option.some.inj hbody
    obtain ⟨x, hx, hs, hm⟩ := run_recordSnapshot hrun
    obtain ⟨hfind, hmatches⟩ := Option.filter_eq_some_iff.mp hx
    obtain ⟨hmem, hid⟩ := mem_of_snapshot hfind
    simp only [Bool.and_eq_true, beq_iff_eq] at hmatches
    obtain ⟨⟨⟨⟨⟨hproject, howner⟩, -⟩, -⟩, -⟩, hpending⟩ := hmatches
    rw [← hid] at hs
    refine change_of_updateSnapshot hd hmem hpending ?_ (by nofun) hs hm
    -- The key is derived from the owner, the project and the id of the row.
    have hkey : a.manifestKey = x.manifestKey := by
      rw [hd.snapshotKeys x hmem, hproject, howner, hid]
      exact hfits
    rw [SnapshotRow.identity, SnapshotRow.identity, ← hkey]
    rfl
  | createPreRestoreSnapshot order projectId jobId leaseToken snapshotId =>
    obtain rfl := Option.some.inj hbody
    obtain ⟨job, row, manifest, -, -, -, -, hnew, -, rfl⟩ := run_createPreRestoreSnapshot hrun
    exact change_of_insertPendingSnapshot hnew rfl rfl
  | markSnapshotReadyForJob jobId leaseToken snapshotId bucket key =>
    obtain rfl := Option.some.inj hbody
    rcases run_markSnapshotReadyForJob hrun with ⟨-, rfl⟩ | ⟨x, hx, rfl⟩
    · exact .kept rfl rfl
    · obtain ⟨hfind, hpending⟩ := Option.filter_eq_some_iff.mp hx
      obtain ⟨hmem, rfl⟩ := mem_of_snapshot hfind
      refine change_of_updateSnapshot hd hmem (eq_of_beq hpending) ?_ (by nofun) rfl rfl
      rw [SnapshotRow.identity, SnapshotRow.identity, hfits x hmem rfl]
      rfl
  | prepareBootstrapManifest order userId projectId manifestId =>
    obtain rfl := Option.some.inj hbody
    obtain ⟨rfl, -⟩ := run_prepareBootstrapManifest hrun
    exact .kept rfl rfl
  | recordBootstrapManifest userId projectId manifest bucket key =>
    obtain rfl := Option.some.inj hbody
    obtain ⟨hnew, hs, m, hid, howner, hproject, hkey, hm⟩ := run_recordBootstrapManifest hrun
    refine .recorded (m := m) (congrArg some hid.symm) (hid ▸ hnew) ?_ hs hm
    rw [hkey, howner, hproject, hid]
    exact hfits
  | _ => cases hbody

/-- An expiry changes the rows in one of the ways. -/
theorem ExpiryStep.change {op : StorageOp} {reply : Except StorageError op.Reply} {s s' : Storage}
    (h : ExpiryStep now op s reply s') (hop : op.isExpiry = true) (hd : s.db.sync.HoldsManifests) :
    ManifestChange (.cleanup op) s.db.sync s'.db.sync := by
  cases h with
  | fault => exact .kept rfl rfl
  | expirePendingSnapshots =>
    refine .settled (fun x _ hx => ?_) rfl rfl
    obtain ⟨hpending, -⟩ := Bool.and_eq_true_iff.mp hx
    exact ⟨eq_of_beq hpending, rfl, by nofun⟩
  | expireBootstrapManifests _ hexec hkeys =>
    obtain ⟨chosen, -, -, hleft⟩ := deletesExpired_manifestLines hd.manifestIds
    rw [hexec] at hleft
    exact .expired rfl hleft
  | expireAccountPurgeExports scan =>
    rw [(expireAccountPurgeExports_fails (.expireAccountPurgeExports scan s)).choose_spec.2]
    exact .kept rfl rfl
  | deleteKey => exact .kept rfl rfl
  | deleteKeyLost => exact .kept rfl rfl
  | other hother =>
    rw [hop] at hother
    cases hother

/-- An operation changes the rows in one of the ways. -/
theorem ManifestEffect.change {op : ManifestOp} {reply : Except StorageError op.Reply}
    {s s' : Storage} (h : ManifestEffect host now op s reply s') (hd : s.db.sync.HoldsManifests)
    (hfits : op.Fits s.db.sync) : ManifestChange op s.db.sync s'.db.sync := by
  cases h with
  | @transaction _ x hbody =>
    rcases hexec : x.execute s.db.sync with ⟨r, d'⟩
    rcases Txn.execute_cases hexec with hrun | ⟨rfl, -⟩
    · exact change_of_body hbody hrun hd hfits
    · exact .kept rfl rfl
  | elsewhere c reply hs hm => exact .kept hs hm
  | headKey | verifyKeyHash | putObject | referencedPayloadKeys | listObjects => exact .kept rfl rfl
  | expiry hop h => exact h.change hop hd
  | other hop hscan reply hs hm => exact .kept hs hm

/-! ## What the answers tell -/

/-- The snapshots of some keys have failed. -/
def AreFailed (keys : List String) (d : Db) : Prop :=
  ∀ key ∈ keys, ∃ x ∈ d.snapshots, x.manifestKey = key ∧ x.status = .failed

/-- The bootstrap manifests of some keys have been there, and are gone. -/
def AreGone (keys : List String) (d d' : Db) : Prop :=
  ∀ key ∈ keys, ∃ m ∈ d.bootstrapManifests, m.manifestKey = key ∧
    ∀ m' ∈ d'.bootstrapManifests, m'.id ≠ m.id

/-- What the answer of an operation tells of the rows before and after it. -/
def ManifestOp.Tells (d d' : Db) : (op : ManifestOp) → Except StorageError op.Reply → Prop
  | .createPreRestoreSnapshot _ projectId _ _ _, .ok (snapshotId, ownerUserId, _) =>
    ∃ x ∈ d'.snapshots, x.id = snapshotId ∧ x.projectId = projectId ∧ x.ownerUserId = ownerUserId
  | .prepareBootstrapManifest _ _ _ manifestId, .ok manifest => manifest.id = manifestId
  | .cleanup (.expirePendingSnapshots _), .ok keys => AreFailed keys d'
  | .cleanup (.expireBootstrapManifests _), .ok keys => AreGone keys d d'
  | .cleanup (.expireAccountPurgeExports _), .ok _ => False
  | _, _ => True

/-- An error tells nothing. -/
theorem tells_of_error {op : ManifestOp} (error : StorageError) : op.Tells d d' (.error error) := by
  cases op with
  | cleanup op => cases op <;> trivial
  | _ => trivial

/-- An operation tells what its transaction answers. -/
theorem tells_of_body {op : ManifestOp} {x : Tx (Except PersistenceError op.Reply)}
    (hbody : op.body host now = some x) {r : Except PersistenceError op.Reply}
    (hrun : x.run d = (.ok r, d')) : op.Tells d d' (storageReply r) := by
  cases op with
  | createPreRestoreSnapshot order projectId jobId leaseToken snapshotId =>
    obtain rfl := Option.some.inj hbody
    obtain ⟨job, row, manifest, -, rfl, -, -, -, rfl, rfl⟩ := run_createPreRestoreSnapshot hrun
    exact ⟨_, List.mem_append_right _ List.mem_cons_self, rfl, rfl, rfl⟩
  | prepareBootstrapManifest order userId projectId manifestId =>
    obtain rfl := Option.some.inj hbody
    obtain ⟨rfl, manifest, rfl, hid⟩ := run_prepareBootstrapManifest hrun
    exact hid
  | cleanup op => cases hbody
  | _ => trivial

/-- A step of the expiry tells what it answers. -/
theorem ExpiryStep.tells {op : StorageOp} {reply : Except StorageError op.Reply} {s s' : Storage}
    (h : ExpiryStep now op s reply s') (hop : op.isExpiry = true) (hd : s.db.sync.HoldsManifests) :
    (ManifestOp.cleanup op).Tells s.db.sync s'.db.sync reply := by
  cases h with
  | fault op error => exact tells_of_error error
  | @expirePendingSnapshots olderThan keys _ hkeys =>
    intro key hkey
    obtain ⟨x, hx, rfl⟩ := List.mem_map.mp (hkeys.mem_iff.mp hkey)
    obtain ⟨hmem, hstale⟩ := List.mem_filter.mp hx
    refine ⟨{ x with status := .failed }, ?_, rfl, rfl⟩
    refine List.mem_map.mpr ⟨x, hmem, ?_⟩
    dsimp only
    rw [if_pos hstale]
  | @expireBootstrapManifests limit scan values manifests keys _ hexec hkeys =>
    intro key hkey
    obtain ⟨chosen, hchosen, ⟨values', hvalues, hperm⟩, hleft⟩ :=
      deletesExpired_manifestLines hd.manifestIds
    rw [hexec] at hvalues hleft
    cases hvalues
    have htexts : Sql.Value.text key ∈ chosen.map fun m => Sql.Value.text m.manifestKey :=
      hperm.mem_iff.mp (hkeys ▸ List.mem_map_of_mem hkey)
    obtain ⟨m, hm, htext⟩ := List.mem_map.mp htexts
    have hmem := (List.mem_filter.mp (hchosen.mem hm)).1
    refine ⟨m, hmem, Sql.Value.text.inj htext, fun m' hm' hid => ?_⟩
    have hm'' : m' ∈ s.db.sync.bootstrapManifests.filter fun m => m ∉ chosen := hleft ▸ hm'
    obtain ⟨hmem', hne⟩ := List.mem_filter.mp hm''
    obtain rfl := List.inj_on_of_nodup_map hd.manifestIds hmem' hmem hid
    exact of_decide_eq_true hne hm
  | @expireAccountPurgeExports limit scan =>
    rw [Txn.execute, run_expireAccountPurgeExports now scan limit s.db]
    exact tells_of_error _
  | deleteKey | deleteKeyLost => trivial
  | other hother =>
    rw [hop] at hother
    cases hother

/-- The answer of an operation tells of the rows. -/
theorem ManifestEffect.tells {op : ManifestOp} {reply : Except StorageError op.Reply}
    {s s' : Storage} (h : ManifestEffect host now op s reply s') (hd : s.db.sync.HoldsManifests) :
    op.Tells s.db.sync s'.db.sync reply := by
  cases h with
  | @transaction _ x hbody =>
    rcases hexec : x.execute s.db.sync with ⟨r, d'⟩
    rcases Txn.execute_cases hexec with hrun | ⟨rfl, e, _, -, rfl⟩
    · exact tells_of_body hbody hrun
    · exact tells_of_error _
  | expiry hop h => exact h.tells hop hd
  | @other op hop =>
    cases op with
    | expirePendingSnapshots | expireBootstrapManifests | expireAccountPurgeExports => cases hop
    | _ => trivial
  | _ => trivial

/-! ## What stays -/

section

variable {op : ManifestOp}

/-- A snapshot stays, and keeps its status once it is no longer pending. -/
theorem ManifestChange.exists_snapshot (h : ManifestChange op d d') {x : SnapshotRow}
    (hx : x ∈ d.snapshots) : ∃ y ∈ d'.snapshots, y.identity = x.identity ∧
      (x.status ≠ .pending → y.status = x.status) := by
  cases h with
  | kept hs | recorded _ _ _ hs | expired hs =>
    rw [hs]
    exact ⟨x, hx, rfl, fun _ => rfl⟩
  | pending _ _ _ hs =>
    rw [hs]
    exact ⟨x, List.mem_append_left _ hx, rfl, fun _ => rfl⟩
  | @settled p f hp hs =>
    rw [hs]
    refine ⟨if p x then f x else x, List.mem_map_of_mem hx, ?_⟩
    by_cases hpx : p x = true
    · obtain ⟨hpending, hidentity, -⟩ := hp x hx hpx
      rw [if_pos hpx]
      exact ⟨hidentity, fun hne => absurd hpending hne⟩
    · rw [if_neg hpx]
      exact ⟨rfl, fun _ => rfl⟩

/-- A bootstrap manifest was there before, or it is recorded. -/
theorem ManifestChange.mem_manifests (h : ManifestChange op d d') {m : BootstrapManifestRow}
    (hm : m ∈ d'.bootstrapManifests) :
    m ∈ d.bootstrapManifests ∨ op.recordedId = some m.id := by
  cases h with
  | kept _ heq | pending _ _ _ _ heq | settled _ _ heq => exact .inl (heq ▸ hm)
  | recorded hop _ _ _ heq =>
    rw [heq] at hm
    rcases List.mem_append.mp hm with hm | hm
    · exact .inl hm
    · rw [List.mem_singleton.mp hm]
      exact .inr hop
  | expired _ heq =>
    rw [heq] at hm
    exact .inl (List.mem_filter.mp hm).1

/-- The rows keep identifiers of their own and the keys that the object store builds. -/
theorem ManifestChange.holds (h : ManifestChange op d d') (hd : d.HoldsManifests) :
    d'.HoldsManifests := by
  cases h with
  | kept hs hm => exact ⟨hs ▸ hd.1, hs ▸ hd.2, hm ▸ hd.3, hm ▸ hd.4⟩
  | @pending x _ hnew hkey hs hm =>
    refine ⟨hs ▸ nodup_map_concat hd.1 hnew, fun y hy => ?_, hm ▸ hd.3, hm ▸ hd.4⟩
    rw [hs] at hy
    rcases List.mem_append.mp hy with hy | hy
    · exact hd.2 y hy
    · rw [List.mem_singleton.mp hy]
      exact hkey
  | @settled p f hp hs hm =>
    -- A change of the status keeps the identity of a row.
    have hids : d'.snapshots.map (·.id) = d.snapshots.map (·.id) := by
      rw [hs]
      exact map_updateWhere fun x hx hpx => congrArg Prod.fst (hp x hx hpx).2.1
    refine ⟨hids ▸ hd.1, fun y hy => ?_, hm ▸ hd.3, hm ▸ hd.4⟩
    rw [hs] at hy
    obtain ⟨x, hx, rfl⟩ := List.mem_map.mp hy
    by_cases hpx : p x = true
    · rw [if_pos hpx]
      have hidentity := (hp x hx hpx).2.1
      simp only [SnapshotRow.identity, Prod.mk.injEq] at hidentity
      obtain ⟨hid, hproject, howner, hkey⟩ := hidentity
      rw [hkey, hid, hproject, howner]
      exact hd.2 x hx
    · rw [if_neg hpx]
      exact hd.2 x hx
  | @recorded m _ hnew hkey hs hm =>
    refine ⟨hs ▸ hd.1, hs ▸ hd.2, hm ▸ nodup_map_concat hd.3 hnew, fun y hy => ?_⟩
    rw [hm] at hy
    rcases List.mem_append.mp hy with hy | hy
    · exact hd.4 y hy
    · rw [List.mem_singleton.mp hy]
      exact hkey
  | expired hs hm =>
    refine ⟨hs ▸ hd.1, hs ▸ hd.2, ?_, fun m hmem => ?_⟩
    · rw [hm]
      exact hd.3.sublist (List.filter_sublist.map _)
    · rw [hm] at hmem
      exact hd.4 m (List.mem_filter.mp hmem).1

end

end

/-! ## One step -/

section

variable {host : Host} {op : ManifestOp} {reply : Except StorageError op.Reply}
  {s s' : ManifestState}

/-- A step changes the manifests as its operation does. -/
theorem ManifestStep.change (h : ManifestStep host op s reply s') (hd : s.db.HoldsManifests)
    (hfits : op.Fits s.db) : ManifestChange op s.db s'.db := by
  cases h with
  | answered _ h => exact h.change hd hfits
  | lost _ h => exact h.change hd hfits
  | failed => exact .kept rfl rfl

/-- A step tells what it answers. -/
theorem ManifestStep.tells (h : ManifestStep host op s reply s') (hd : s.db.HoldsManifests) :
    op.Tells s.db s'.db reply := by
  cases h with
  | answered _ h => exact h.tells hd
  | lost _ _ error => exact tells_of_error error
  | failed _ _ error => exact tells_of_error error

end

/-! ## Every run -/

/-- What an answer in a run goes on to tell of the rows, when some manifests have been there. -/
def ManifestOp.Told (known : Uuid → Prop) (d : Db) :
    (op : ManifestOp) → Except StorageError op.Reply → Prop
  | .createPreRestoreSnapshot _ projectId _ _ _, .ok (snapshotId, ownerUserId, _) =>
    ∃ x ∈ d.snapshots, x.id = snapshotId ∧ x.projectId = projectId ∧ x.ownerUserId = ownerUserId
  | .prepareBootstrapManifest _ _ _ manifestId, .ok manifest => manifest.id = manifestId
  | .cleanup (.expirePendingSnapshots _), .ok keys => AreFailed keys d
  | .cleanup (.expireBootstrapManifests _), .ok keys =>
    ∀ key, List.Mem key keys → ∃ ownerUserId projectId id,
      key = (ObjectStore.BuiltKey.bootstrap ownerUserId projectId id).text ∧ known id ∧
        ∀ m ∈ d.bootstrapManifests, m.id ≠ id
  | .cleanup (.expireAccountPurgeExports _), .ok _ => False
  | _, _ => True

section

variable {known known' : Uuid → Prop} {d d' : Db} {op op' : ManifestOp}
  {reply : Except StorageError op.Reply}

/-- What was told holds when the known manifests are in the database. -/
theorem ManifestOp.Tells.told (h : op.Tells d d' reply) (hd : d.HoldsManifests)
    (hknown : ∀ m ∈ d.bootstrapManifests, known m.id) : op.Told known d' reply := by
  cases op with
  | createPreRestoreSnapshot => cases reply with
    | ok => exact h
    | error => trivial
  | prepareBootstrapManifest => cases reply with
    | ok => exact h
    | error => trivial
  | cleanup op => cases op with
    | expirePendingSnapshots => cases reply with
      | ok => exact h
      | error => trivial
    | expireBootstrapManifests => cases reply with
      | ok =>
        intro key hkey
        obtain ⟨m, hm, rfl, hgone⟩ := h key hkey
        exact ⟨_, _, _, hd.manifestKeys m hm, hknown m hm, hgone⟩
      | error => trivial
    | expireAccountPurgeExports => cases reply with
      | ok => exact h
      | error => trivial
    | _ => trivial
  | _ => trivial

/-- What an answer tells stays true, unless a manifest is recorded again. -/
theorem ManifestOp.Told.step (h : op.Told known d reply) (hchange : ManifestChange op' d d')
    (hnew : ∀ id, op'.recordedId = some id → ¬ known id) (hmono : ∀ id, known id → known' id) :
    op.Told known' d' reply := by
  cases op with
  | createPreRestoreSnapshot => cases reply with
    | ok =>
      obtain ⟨x, hx, hid, hproject, howner⟩ := h
      obtain ⟨y, hy, hidentity, -⟩ := hchange.exists_snapshot hx
      simp only [SnapshotRow.identity, Prod.mk.injEq] at hidentity
      exact ⟨y, hy, hidentity.1.trans hid, hidentity.2.1.trans hproject,
        hidentity.2.2.1.trans howner⟩
    | error => trivial
  | prepareBootstrapManifest => cases reply with
    | ok => exact h
    | error => trivial
  | cleanup op => cases op with
    | expirePendingSnapshots => cases reply with
      | ok =>
        intro key hkey
        obtain ⟨x, hx, rfl, hfailed⟩ := h key hkey
        obtain ⟨y, hy, hidentity, hstatus⟩ := hchange.exists_snapshot hx
        simp only [SnapshotRow.identity, Prod.mk.injEq] at hidentity
        refine ⟨y, hy, hidentity.2.2.2, ?_⟩
        rw [hstatus (by rw [hfailed]; nofun), hfailed]
      | error => trivial
    | expireBootstrapManifests => cases reply with
      | ok =>
        intro key hkey
        obtain ⟨ownerUserId, projectId, id, rfl, hid, hgone⟩ := h key hkey
        refine ⟨_, _, _, rfl, hmono id hid, fun m hm => ?_⟩
        -- A manifest that is gone comes back only when it is recorded again.
        rcases hchange.mem_manifests hm with hm | hrecorded
        · exact hgone m hm
        · rintro rfl
          exact hnew _ hrecorded hid
      | error => trivial
    | expireAccountPurgeExports => cases reply with
      | ok => exact h
      | error => trivial
    | _ => trivial
  | _ => trivial

end

/-- The status of the snapshot with an identifier. -/
def Db.snapshotStatus (d : Db) (id : Uuid) : Option SnapshotStatus := (d.snapshot id).map (·.status)

/-- A snapshot that is ready or has failed stays so. -/
def StaysSettled (d d' : Db) : Prop :=
  ∀ id status, status ≠ .pending → d.snapshotStatus id = some status →
    d'.snapshotStatus id = some status

/-- What is settled stays so over two changes. -/
theorem StaysSettled.trans {d d' d'' : Db} (h : StaysSettled d d') (h' : StaysSettled d' d'') :
    StaysSettled d d'' :=
  fun id status hne hid => h' id status hne (h id status hne hid)

/-- What is settled stays so over a change of the manifests. -/
theorem ManifestChange.staysSettled {op : ManifestOp} {d d' : Db} (h : ManifestChange op d d')
    (hd : d.HoldsManifests) : StaysSettled d d' := by
  intro id status hne hstatus
  obtain ⟨x, hx, rfl⟩ := Option.map_eq_some_iff.mp hstatus
  obtain ⟨hmem, rfl⟩ := mem_of_snapshot hx
  obtain ⟨y, hy, hidentity, hkept⟩ := h.exists_snapshot hmem
  have hid : y.id = x.id := congrArg Prod.fst hidentity
  have hfind : d'.snapshot x.id = some y := by
    rw [← hid]
    exact find?_key_eq (h.holds hd).snapshotIds hy
  rw [Db.snapshotStatus, hfind, Option.map_some, hkept hne]

section

variable {ι : Type} [DecidableEq ι] {h : ManifestHost} {p : ι → ManifestProcess}
  {s t u : ManifestState}

/-- The bootstraps draw different identifiers, and none that is in use. -/
structure FreshManifests (p : ι → ManifestProcess) (d : Db) : Prop where
  distinct : ∀ i j id, (p i).manifestId = some id → (p j).manifestId = some id → i = j
  unused : ∀ i id, (p i).manifestId = some id → ∀ m ∈ d.bootstrapManifests, m.id ≠ id

/-- The bootstrap manifests that were there at first or that a process has recorded. -/
def KnownManifest (p : ι → ManifestProcess) (d₀ : Db) (run : List (ι × ManifestCall)) (id : Uuid) :
    Prop :=
  (∃ m ∈ d₀.bootstrapManifests, m.id = id) ∨
    ∃ c ∈ run, c.2.op.recordedId = some id ∧ (p c.1).manifestId = some id

/-- What holds after every run. -/
structure ManifestInvariant (p : ι → ManifestProcess) (d₀ : Db) (run : List (ι × ManifestCall))
    (t : ManifestState) : Prop where
  holds : t.db.HoldsManifests
  known : ∀ m ∈ t.db.bootstrapManifests, KnownManifest p d₀ run m.id
  told : ∀ c ∈ run, c.2.op.Told (KnownManifest p d₀ run) t.db c.2.reply

omit [DecidableEq ι] in
/-- A manifest that is known stays so. -/
theorem KnownManifest.append {d₀ : Db} {run : List (ι × ManifestCall)} {id : Uuid}
    (hid : KnownManifest p d₀ run id) (c : ι × ManifestCall) :
    KnownManifest p d₀ (run ++ [c]) id := by
  rcases hid with hid | ⟨c', hc', hrecorded⟩
  · exact .inl hid
  · exact .inr ⟨c', List.mem_append_left _ hc', hrecorded⟩

/-- The next call of a process has the arguments of the rows that it changes. -/
theorem ManifestInvariant.fits {d₀ : Db} {run : List (ι × ManifestCall)} {i : ι} {op : ManifestOp}
    (ht : ManifestInvariant p d₀ run t) (hop : op.Justified (p i).manifestId (callsOf i run)) :
    op.Fits t.db := by
  cases op with
  | recordSnapshot a => exact hop
  | recordBootstrapManifest userId projectId manifest bucket key => exact hop.1
  | markSnapshotReadyForJob jobId leaseToken snapshotId bucket key =>
    obtain ⟨order, projectId, snapshotId', ownerUserId, manifest, hmem, rfl⟩ := hop
    obtain ⟨x, hx, rfl, rfl, rfl⟩ := ht.told _ (mem_of_mem_callsOf hmem)
    intro y hy hid
    obtain rfl := ht.holds.eq_of_id hy hx hid
    exact ht.holds.snapshotKeys y hy
  | cleanup op =>
    obtain ⟨calls, hcalls, ⟨limit, keys, hmem⟩ | ⟨hexpiry, -⟩⟩ := hop
    · have hthird := List.mem_map_of_mem (f := StorageCall.beside) hmem
      rw [← hcalls] at hthird
      exact (ht.told _ (mem_of_mem_callsOf hthird)).elim
    · exact hexpiry
  | _ => trivial

/-- A process records no manifest that is known. -/
theorem ManifestInvariant.not_known {d₀ : Db} {run : List (ι × ManifestCall)} {i : ι}
    {op : ManifestOp} (ht : ManifestInvariant p d₀ run t) (hfresh : FreshManifests p d₀)
    (hop : op.Justified (p i).manifestId (callsOf i run)) {id : Uuid}
    (hid : op.recordedId = some id) :
    (p i).manifestId = some id ∧ ¬ KnownManifest p d₀ run id := by
  cases op with
  | recordBootstrapManifest userId projectId manifest bucket key =>
    obtain rfl := Option.some.inj hid
    obtain ⟨-, ⟨order, manifestId, hdrawn, hprepared⟩, hfirst⟩ := hop
    have hmanifest : manifest.id = manifestId := ht.told _ (mem_of_mem_callsOf hprepared)
    rw [← hmanifest] at hdrawn
    refine ⟨hdrawn, ?_⟩
    rintro (⟨m, hm, hmid⟩ | ⟨⟨j, c⟩, hc, hrecorded, hj⟩)
    · exact hfresh.unused i _ hdrawn m hm hmid
    · obtain rfl := hfresh.distinct j i _ hj hdrawn
      rw [hfirst c (mem_callsOf hc)] at hrecorded
      cases hrecorded
  | _ => cases hid

/-- What one call keeps, and what it does to the snapshots. -/
theorem ManifestInvariant.step {d₀ : Db} {run : List (ι × ManifestCall)} {i : ι} {c : ManifestCall}
    (hfresh : FreshManifests p d₀) (ht : ManifestInvariant p d₀ run t)
    (hop : c.op.Justified (p i).manifestId (callsOf i run))
    (hstep : ManifestStep h.host c.op t c.reply u) :
    ManifestInvariant p d₀ (run ++ [(i, c)]) u ∧ StaysSettled t.db u.db := by
  have hchange := hstep.change ht.holds (ht.fits hop)
  have hmono : ∀ id, KnownManifest p d₀ run id → KnownManifest p d₀ (run ++ [(i, c)]) id :=
    fun id hid => hid.append (i, c)
  refine ⟨⟨hchange.holds ht.holds, fun m hm => ?_, fun c' hc' => ?_⟩,
    hchange.staysSettled ht.holds⟩
  · rcases hchange.mem_manifests hm with hm | hrecorded
    · exact hmono _ (ht.known m hm)
    · exact .inr ⟨(i, c), List.mem_append_right _ List.mem_cons_self, hrecorded,
        (ht.not_known hfresh hop hrecorded).1⟩
  · rcases List.mem_append.mp hc' with hc' | hc'
    · exact (ht.told c' hc').step hchange (fun id hid => (ht.not_known hfresh hop hid).2) hmono
    · obtain rfl := List.mem_singleton.mp hc'
      exact (hstep.tells ht.holds).told ht.holds fun m hm => hmono _ (ht.known m hm)

/-- The invariant holds after every run. -/
theorem invariant_of_run (hs : s.db.HoldsManifests) (hfresh : FreshManifests p s.db)
    {run : List (ι × ManifestCall)}
    (hrun : Interleaves (ManifestStep h.host) (fun i => (p i).program h) s run t) :
    ManifestInvariant p s.db run t :=
  hrun.invariant (fun i => respects_program h (p i))
    ⟨hs, fun m hm => .inl ⟨m, hm, rfl⟩, fun _ hc => absurd hc List.not_mem_nil⟩
    fun _ _ _ _ _ ht hop hstep => (ht.step hfresh hop hstep).1

/-- Along every part of a run snapshots stay settled. -/
theorem staysSettled_along (hs : s.db.HoldsManifests) (hfresh : FreshManifests p s.db)
    {before after : List (ι × ManifestCall)} {v : ManifestState}
    (hrun : Interleaves (ManifestStep h.host) (fun i => (p i).program h) s (before ++ after) v)
    (ht : Performs (ManifestStep h.host) s (before.map Prod.snd) t)
    (hu : Performs (ManifestStep h.host) t (after.map Prod.snd) u) : StaysSettled t.db u.db :=
  (hrun.along (R := fun t u => StaysSettled t.db u.db) (fun i => respects_program h (p i))
    (fun _ _ _ _ h => h) StaysSettled.trans (fun _ _ _ _ _ ht hop hstep => ht.step hfresh hop hstep)
    (invariant_of_run hs hfresh (hrun.of_append ht)) hu).2

/-! ## What the cleanup spares -/

/-- The snapshot of a key, if there is one, has failed, and so has the manifest of the key expired
at a time. -/
structure Unneeded (key : String) (now : Timestamp) (d : Db) : Prop where
  snapshots : ∀ x ∈ d.snapshots, x.manifestKey = key → x.status = .failed
  manifests : ∀ m ∈ d.bootstrapManifests, m.manifestKey = key → m.expiresAt ≤ now

/-- The objects of failed snapshots are not needed. -/
theorem unneeded_of_areFailed {d : Db} {keys : List String} {key : String} {now : Timestamp}
    (hd : d.HoldsManifests) (hkeys : AreFailed keys d) (hkey : key ∈ keys) :
    Unneeded key now d := by
  obtain ⟨x, hx, rfl, hfailed⟩ := hkeys key hkey
  refine ⟨fun y hy heq => ?_, fun m hm heq => ?_⟩
  · rw [hd.snapshotKeys y hy, hd.snapshotKeys x hx] at heq
    have hbuilt := ObjectStore.BuiltKey.text_injective heq
    simp only [ObjectStore.BuiltKey.manifest.injEq] at hbuilt
    obtain rfl := hd.eq_of_id hy hx hbuilt.2.2
    exact hfailed
  · rw [hd.manifestKeys m hm, hd.snapshotKeys x hx] at heq
    cases ObjectStore.BuiltKey.text_injective heq

/-- The object of a manifest that is gone is not needed. -/
theorem unneeded_of_gone {d : Db} {ownerUserId projectId id : Uuid} {now : Timestamp}
    (hd : d.HoldsManifests) (hgone : ∀ m ∈ d.bootstrapManifests, m.id ≠ id) :
    Unneeded (ObjectStore.BuiltKey.bootstrap ownerUserId projectId id).text now d := by
  refine ⟨fun x hx heq => ?_, fun m hm heq => ?_⟩
  · rw [hd.snapshotKeys x hx] at heq
    cases ObjectStore.BuiltKey.text_injective heq
  · rw [hd.manifestKeys m hm] at heq
    have hbuilt := ObjectStore.BuiltKey.text_injective heq
    simp only [ObjectStore.BuiltKey.bootstrap.injEq] at hbuilt
    exact absurd hbuilt.2.2 (hgone m hm)

omit [DecidableEq ι] in
/-- After a key has been deleted, and when it is deleted, it is not needed. -/
theorem ManifestInvariant.unneeded {d₀ : Db} {run : List (ι × ManifestCall)}
    (ht : ManifestInvariant p d₀ run t) {i : ι} {before : List ManifestCall} {key : String}
    (hop : (ManifestOp.cleanup (.deleteKey key)).Justified (p i).manifestId before)
    (hbefore : ∀ c ∈ before, (i, c) ∈ run) (now : Timestamp) : Unneeded key now t.db := by
  obtain ⟨calls, rfl, hop⟩ := hop
  have htold : ∀ c ∈ calls, (StorageCall.beside c).op.Told (KnownManifest p d₀ run) t.db
      (StorageCall.beside c).reply :=
    fun c hc => ht.told _ (hbefore _ (List.mem_map_of_mem hc))
  rcases hop with ⟨limit, keys, hmem⟩ | ⟨-, hkey⟩
  · exact (htold _ hmem).elim
  obtain ⟨keys, hkey, ⟨olderThan, hmem⟩ | ⟨limit, hmem⟩⟩ := hkey key rfl
  · exact unneeded_of_areFailed ht.holds (htold _ hmem) hkey
  · obtain ⟨ownerUserId, projectId, id, rfl, -, hgone⟩ := htold _ hmem key hkey
    exact unneeded_of_gone ht.holds hgone

/-- A step takes a snapshot from pending to ready or failed. -/
def Settles (id : Uuid) (d d' : Db) : Prop :=
  d.snapshotStatus id = some .pending ∧
    ∃ status, status ≠ .pending ∧ d'.snapshotStatus id = some status

/-- What holds of the runs of the processes from a state. -/
structure ManifestsProtected (h : ManifestHost) (p : ι → ManifestProcess) (s : ManifestState) :
    Prop where
  /-- When the cleanup deletes a key, and in every later state, the snapshot of the key has failed,
  and its bootstrap manifest has expired by then. -/
  spared : ∀ {before after : List (ι × ManifestCall)} {i : ι} {key : String}
    {reply : Except StorageError Unit} {t u : ManifestState},
    Interleaves (ManifestStep h.host) (fun i => (p i).program h) s
        (before ++ (i, ⟨.cleanup (.deleteKey key), reply⟩) :: after) u →
      Performs (ManifestStep h.host) s (before.map Prod.snd) t →
        Unneeded key t.now t.db ∧ Unneeded key t.now u.db
  /-- A snapshot that is ready stays ready, and one that has failed never becomes ready. -/
  settled : ∀ {before after : List (ι × ManifestCall)} {t u : ManifestState},
    Interleaves (ManifestStep h.host) (fun i => (p i).program h) s (before ++ after) u →
      Performs (ManifestStep h.host) s (before.map Prod.snd) t →
        Performs (ManifestStep h.host) t (after.map Prod.snd) u → StaysSettled t.db u.db
  /-- At most one step takes a snapshot from pending to ready or failed. -/
  once : ∀ {before between : List (ι × ManifestCall)} {c c' : ι × ManifestCall}
    {t t' u u' : ManifestState} {id : Uuid},
    Interleaves (ManifestStep h.host) (fun i => (p i).program h) s
        (before ++ c :: (between ++ [c'])) u' →
      Performs (ManifestStep h.host) s (before.map Prod.snd) t →
        ManifestStep h.host c.2.op t c.2.reply t' →
          Performs (ManifestStep h.host) t' (between.map Prod.snd) u →
            ManifestStep h.host c'.2.op u c'.2.reply u' →
              Settles id t.db t'.db → ¬ Settles id u.db u'.db

/-- In every run of cleanup passes, creations of snapshots and of bootstrap manifests, restores and
other transactions, from a state whose rows have the keys that the object store builds, the cleanup
deletes no object that is needed, and a snapshot becomes ready or fails at most once. -/
theorem manifests_protected (h : ManifestHost) (p : ι → ManifestProcess) (s : ManifestState)
    (hs : s.db.HoldsManifests) (hfresh : FreshManifests p s.db) : ManifestsProtected h p s where
  spared := by
    intro before after i key reply t u hrun ht
    obtain ⟨y, hy⟩ := hrun.after i
    rw [callsOf_append, callsOf, callsOf, List.filterMap_cons, if_pos rfl] at hy
    have hop := (respects_program h (p i)).of_after hy
    have hbefore : ∀ c ∈ [] ++ callsOf i before, (i, c) ∈ before :=
      fun c hc => mem_of_mem_callsOf hc
    exact ⟨(invariant_of_run hs hfresh (hrun.of_append ht)).unneeded hop hbefore _,
      (invariant_of_run hs hfresh hrun).unneeded hop
        (fun c hc => List.mem_append_left _ (hbefore c hc)) _⟩
  settled hrun ht hu := staysSettled_along hs hfresh hrun ht hu
  once := by
    intro before between c c' t t' u u' id hrun ht hc hbetween hc' hfirst hsecond
    obtain ⟨-, status, hne, hstatus⟩ := hfirst
    rw [List.append_cons, ← List.append_assoc] at hrun
    have ht' : Performs (ManifestStep h.host) s ((before ++ [c]).map Prod.snd) t' := by
      rw [List.map_append]
      exact performs_append_iff.mpr ⟨t, ht, .cons hc .nil⟩
    have hu : Performs (ManifestStep h.host) s ((before ++ [c] ++ between).map Prod.snd) u := by
      rw [List.map_append]
      exact performs_append_iff.mpr ⟨t', ht', hbetween⟩
    have hsettled := staysSettled_along hs hfresh (hrun.of_append hu) ht' hbetween
    have hpending := hsecond.1
    rw [hsettled id status hne hstatus] at hpending
    exact hne (Option.some.inj hpending)

end

/-! ## A late upload -/

/-- A host whose manifests have one byte. -/
def sampleManifestHost : ManifestHost := ⟨sampleHost, fun _ => 1, "tasktips"⟩

/-- The sample project. -/
def sampleProject : Storage where
  db := ⟨((createProject 0 1 2 "tasks").execute sampleStart).2, [], []⟩
  objects _ := none

/-- A snapshot, a bootstrap, and a pass two days later. -/
def sampleProcesses : Option Bool → ManifestProcess
  | some false => .snapshot .stored 1 2 5
  | some true => .cleanup 1 (2 * orphanAge)
  | none => .bootstrap .stored 1 3 2 4 100

/-- The database with the pending snapshot. -/
def samplePending : Db :=
  ((snapshotManifest sampleHost 0 .stored 1 2 5).execute sampleProject.db.sync).2

/-- In some run the pass deletes the key of the snapshot before its manifest is uploaded, and in all
runs what is needed is spared. -/
theorem manifests_sample :
    (∃ run t, Interleaves (ManifestStep sampleHost)
        (fun i => (sampleProcesses i).program sampleManifestHost) ⟨0, sampleProject⟩ run t ∧
      (some true, ⟨.cleanup (.deleteKey (manifestKey 1 2 5)), .ok ()⟩) ∈ run) ∧
      ManifestsProtected sampleManifestHost sampleProcesses ⟨0, sampleProject⟩ := by
  refine ⟨⟨[(some false, ⟨.snapshotManifest .stored 1 2 5,
      storageReply ((snapshotManifest sampleHost
        0 .stored 1 2 5).execute sampleProject.db.sync).1⟩),
      (some true, ⟨.cleanup (.expirePendingSnapshots (2 * orphanAge - orphanAge)),
        .ok [manifestKey 1 2 5]⟩),
      (some true, ⟨.cleanup (.deleteKey (manifestKey 1 2 5)), .ok ()⟩)], ?_⟩,
    manifests_protected sampleManifestHost sampleProcesses ⟨0, sampleProject⟩
      ⟨List.nodup_nil, nofun, List.nodup_nil, nofun⟩ ⟨?_, ?_⟩⟩
  · have hkeys : stalePendingKeys (2 * orphanAge - orphanAge) samplePending =
        [manifestKey 1 2 5] := by decide +kernel
    have htaken : ManifestStep sampleHost (.snapshotManifest .stored 1 2 5) ⟨0, sampleProject⟩
        (storageReply ((snapshotManifest sampleHost 0 .stored 1 2 5).execute
          sampleProject.db.sync).1)
        ⟨0, { sampleProject with db.sync := samplePending }⟩ :=
      .answered le_rfl (.transaction rfl _)
    obtain ⟨s', hexpired⟩ : ∃ s', ManifestStep sampleHost
        (.cleanup (.expirePendingSnapshots (2 * orphanAge - orphanAge)))
        ⟨0, { sampleProject with db.sync := samplePending }⟩ (.ok [manifestKey 1 2 5]) s' :=
      ⟨⟨2 * orphanAge, _⟩, .answered (by decide) (.expiry rfl
        (.expirePendingSnapshots _ (List.Perm.of_eq hkeys.symm)))⟩
    refine ⟨_, ⟨.cons htaken (.cons hexpired (.cons (.answered le_rfl
      (.expiry rfl (.deleteKey _ _))) .nil)), fun i => ?_⟩, ?_⟩
    · match i with
      | some false => exact ⟨_, .call .start⟩
      | some true => exact ⟨_, .call (.call .start)⟩
      | none => exact ⟨_, .start⟩
    · exact List.mem_cons_of_mem _ (List.mem_cons_of_mem _ List.mem_cons_self)
  · intro i j id hi hj
    match i, j with
    | none, none => rfl
    | some false, _ | some true, _ => cases hi
    | none, some false | none, some true => cases hj
  · intro i id _ m hm
    cases hm

end TaskTipsCloud

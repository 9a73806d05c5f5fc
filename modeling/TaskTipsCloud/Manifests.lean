import TaskTipsCloud.CleanupRuns
import TaskTipsCloud.ObjectKeys

/-!
# Manifests

How manifests come to be stored: `put_manifest` and `put_bootstrap_manifest` of
`crates/object-store/src/lib.rs`, the routes `create_snapshot` and `bootstrap` of
`crates/api/src/routes.rs`, and `process_restore_jobs` of `crates/worker/src/main.rs`, as programs
over transactions and requests to the object store. The passes of the cleanup are programs beside
them.
-/

namespace TaskTipsCloud

open Program

/-! ## Operations -/

/-- Whether a call writes neither to the table of snapshots nor to that of bootstrap manifests. -/
def Call.leavesManifests (c : Call) : Bool :=
  decide (.snapshots ∉ c.tables ∧ .bootstrapManifests ∉ c.tables)

/-- A call that leaves both tables. -/
abbrev ElsewhereCall := {c : Call // c.leavesManifests = true}

/-- What the creators of manifests and the cleanup call. -/
inductive ManifestOp where
  | snapshotManifest (order : ScanOrder) (userId projectId snapshotId : Uuid)
  | recordSnapshot (a : RecordSnapshotArgs)
  | createPreRestoreSnapshot (order : ScanOrder) (projectId jobId leaseToken snapshotId : Uuid)
  | markSnapshotReadyForJob (jobId leaseToken snapshotId : Uuid) (bucket key : String)
  | prepareBootstrapManifest (order : ScanOrder) (userId projectId manifestId : Uuid)
  | recordBootstrapManifest (userId projectId : Uuid) (manifest : BootstrapManifest)
      (bucket key : String)
  /-- Any other transaction. -/
  | elsewhere (c : ElsewhereCall)
  | headKey (key : String)
  | verifyKeyHash (key expectedHash : String) (size : ℕ)
  | putObject (key mediaType : String) (bytes : Json)
  | cleanup (op : StorageOp)

/-- What an operation returns. -/
def ManifestOp.Reply : ManifestOp → Type
  | .snapshotManifest .. => ℤ × ℤ × Json
  | .recordSnapshot _ => SnapshotRow
  | .createPreRestoreSnapshot .. => Uuid × Uuid × Json
  | .prepareBootstrapManifest .. => BootstrapManifest
  | .elsewhere _ => TaskTipsCloud.Reply
  | .headKey _ => Option (ℕ × Option String)
  | .cleanup op => op.Reply
  | _ => Unit

/-- A program that creates manifests or cleans up. -/
abbrev ManifestProgram := Program ManifestOp ManifestOp.Reply StorageError

/-- A call of such a program. -/
abbrev ManifestCall := Called ManifestOp ManifestOp.Reply StorageError

/-- The library functions of a host, the length of the bytes of a manifest, and the bucket. -/
structure ManifestHost where
  host : Host
  byteLength : Json → ℕ
  bucket : String

/-! ## The object store -/

/-- What is known of a stored manifest. -/
structure ManifestInfo where
  bucket : String
  key : String
  contentHash : String
  size : ℕ
  mediaType : String

namespace ObjectStore

variable (h : ManifestHost)

/-- Stores bytes under a key and verifies what is stored, or verifies what is there. -/
def putVerified (key expectedHash : String) (bytes : Json) : ManifestProgram ManifestInfo := do
  let info (size : ℕ) (mediaType : Option String) : ManifestInfo :=
    { bucket := h.bucket, key := key, contentHash := expectedHash, size := size
      mediaType := mediaType.getD "application/json" }
  if h.host.sha256Hex bytes ≠ expectedHash then .fail (.objectStore .hashMismatch)
  else
    match ← perform (ManifestOp.headKey key) with
    | some ((size, mediaType) : ℕ × Option String) =>
      if size ≠ h.byteLength bytes then .fail (.objectStore .backend)
      else
        let _ ← perform (ManifestOp.verifyKeyHash key expectedHash size)
        return info size mediaType
    | none =>
      if 2 ^ 63 ≤ h.byteLength bytes then .fail (.objectStore .backend)
      else
        let _ ← perform (ManifestOp.putObject key "application/json" bytes)
        match ← perform (ManifestOp.headKey key) with
        | some ((size, mediaType) : ℕ × Option String) =>
          let _ ← perform (ManifestOp.verifyKeyHash key expectedHash size)
          return info size mediaType
        | none => .fail (.objectStore .backend)

/-- `put_manifest`. -/
def putManifest (ownerUserId projectId snapshotId : Uuid) (expectedHash : String) (bytes : Json) :
    ManifestProgram ManifestInfo :=
  putVerified h (manifestKey ownerUserId projectId snapshotId) expectedHash bytes

/-- `put_bootstrap_manifest`. -/
def putBootstrapManifest (ownerUserId projectId manifestId : Uuid) (expectedHash : String)
    (bytes : Json) : ManifestProgram ManifestInfo :=
  putVerified h (bootstrapManifestKey ownerUserId projectId manifestId) expectedHash bytes

end ObjectStore

/-! ## The routes -/

/-- Another transaction. -/
def elsewhere (c : Call) (h : c.leavesManifests = true) : ManifestProgram Reply :=
  perform (ManifestOp.elsewhere ⟨c, h⟩)

section

variable (h : ManifestHost)

/-- `create_snapshot`. -/
def createSnapshot (order : ScanOrder) (userId projectId snapshotId : Uuid) :
    ManifestProgram Unit := do
  let (generation, sequence, manifest) ←
    perform (ManifestOp.snapshotManifest order userId projectId snapshotId)
  let hash := h.host.sha256Hex manifest
  let stored ← ObjectStore.putManifest h userId projectId snapshotId hash manifest
  let _ ← perform (ManifestOp.recordSnapshot
    { userId := userId, projectId := projectId, snapshotId := snapshotId, generation := generation
      changeSequence := sequence, manifestHash := hash, manifestBucket := stored.bucket
      manifestKey := stored.key, manifest := manifest })

/-- The bytes of a bootstrap manifest. -/
def bootstrapBytes (projectId : Uuid) (manifest : BootstrapManifest) : ManifestProgram Json :=
  match bootstrapManifestJson h.host manifest.id projectId manifest.generation
    manifest.snapshotSequence manifest.records with
  | some bytes => .done bytes
  | none => .fail .internal

/-- `bootstrap`, for a request without a page token. -/
def bootstrapFirstPage (order : ScanOrder) (userId deviceId projectId manifestId : Uuid)
    (limit : ℤ) :
    ManifestProgram Unit := do
  let manifest ← perform (ManifestOp.prepareBootstrapManifest order userId projectId manifestId)
  let manifest : BootstrapManifest := manifest
  let bytes ← bootstrapBytes h projectId manifest
  let stored ← ObjectStore.putBootstrapManifest h userId projectId manifest.id manifest.hash bytes
  let _ ← perform (ManifestOp.recordBootstrapManifest userId projectId manifest stored.bucket
    stored.key)
  let _ ←
    elsewhere (.bootstrapManifestPage ⟨userId, deviceId, projectId, manifest.id, 0, limit⟩) rfl

/-! ## Restores -/

/-- What is drawn for one round of the restore jobs. -/
structure RestoreDraw where
  skipLocked : List Uuid
  leaseToken : Uuid
  order : ScanOrder
  snapshotId : Uuid
  targetOrder : ScanOrder
  currentOrder : ScanOrder

/-- `claim_restore_job`. -/
def claimNextRestore (draw : RestoreDraw) : ManifestProgram (Option RestoreJob) := do
  match ← elsewhere (.claimRestoreJob draw.skipLocked draw.leaseToken) rfl with
  | .claimed job => return job
  | _ => .fail .internal

/-- Queues a job again, and ends with the error. -/
def retryAfter (job : RestoreJob) (leaseToken : Uuid) (errorCode : String) (error : StorageError) :
    ManifestProgram Unit := do
  let _ ← elsewhere (.retryRestoreJobWithLease job.id leaseToken errorCode) rfl
  .fail error

/-- Cancels a job. -/
def cancelRunning (job : RestoreJob) (leaseToken : Uuid) : ManifestProgram Unit := do
  let _ ← elsewhere (.cancelRestoreWithLease job.id leaseToken) rfl

/-- Executes a job whose snapshot is ready. -/
def executeJob (draw : RestoreDraw) (job : RestoreJob) (leaseToken : Uuid) :
    ManifestProgram Unit := do
  let _ ← elsewhere (.renewRestoreLease job.id leaseToken) rfl
  match ← attempt (elsewhere (.executeRestoreWithLease draw.targetOrder draw.currentOrder job.id
    leaseToken) rfl) with
  | .ok _ => return ()
  | .error (.persistence .restoreCancelled) => cancelRunning job leaseToken
  | .error error => retryAfter job leaseToken "RESTORE_FAILED" error

/-- Stores the manifest of the snapshot before a restore, and executes the job. -/
def restoreWithSnapshot (draw : RestoreDraw) (job : RestoreJob)
    (leaseToken snapshotId ownerUserId : Uuid) (manifest : Json) : ManifestProgram Unit := do
  let hash := h.host.sha256Hex manifest
  let _ ← elsewhere (.renewRestoreLease job.id leaseToken) rfl
  match ←
      attempt (ObjectStore.putManifest h ownerUserId job.projectId snapshotId hash manifest) with
  | .error error => retryAfter job leaseToken "PRE_RESTORE_MANIFEST_FAILED" error
  | .ok stored =>
    let _ ← perform (ManifestOp.markSnapshotReadyForJob job.id leaseToken snapshotId stored.bucket
      stored.key)
    executeJob draw job leaseToken

/-- One round for a claimed job. -/
def processRestoreJob (draw : RestoreDraw) (job : RestoreJob) : ManifestProgram Unit :=
  match job.leaseToken with
  | none => .fail .internal
  | some leaseToken => do
    match ← attempt (perform (ManifestOp.createPreRestoreSnapshot draw.order job.projectId job.id
      leaseToken draw.snapshotId)) with
    | .ok ((snapshotId, ownerUserId, manifest) : Uuid × Uuid × Json) =>
      restoreWithSnapshot h draw job leaseToken snapshotId ownerUserId manifest
    | .error (.persistence .restoreCancelled) => cancelRunning job leaseToken
    | .error error => retryAfter job leaseToken "PRE_RESTORE_SNAPSHOT_FAILED" error

/-- The rounds of `process_restore_jobs`, as many as there are draws. -/
def processRestoreJobs : List RestoreDraw → ManifestProgram Unit
  | [] => return ()
  | draw :: draws => do
    match ← claimNextRestore draw with
    | none => return ()
    | some job =>
      processRestoreJob h draw job
      processRestoreJobs draws

/-! ## Processes -/

/-- A pass of the cleanup beside the creators of manifests. -/
def cleanupPass (pages : ℕ) (start : Timestamp) : ManifestProgram Unit :=
  (cleanupOrphans pages start).lift ManifestOp.cleanup (fun _ r => r) id

/-- What a process does. -/
inductive ManifestProcess where
  | cleanup (pages : ℕ) (start : Timestamp)
  | snapshot (order : ScanOrder) (userId projectId snapshotId : Uuid)
  | bootstrap (order : ScanOrder) (userId deviceId projectId manifestId : Uuid) (limit : ℤ)
  | restores (draws : List RestoreDraw)
  | elsewhere (c : ElsewhereCall)

/-- The program of a process. -/
def ManifestProcess.program : ManifestProcess → ManifestProgram Unit
  | .cleanup pages start => cleanupPass pages start
  | .snapshot order userId projectId snapshotId =>
    createSnapshot h order userId projectId snapshotId
  | .bootstrap order userId deviceId projectId manifestId limit =>
    bootstrapFirstPage h order userId deviceId projectId manifestId limit
  | .restores draws => processRestoreJobs h draws
  | .elsewhere c => do let _ ← TaskTipsCloud.elsewhere c.1 c.2

/-- The identifier that a bootstrap draws for its manifest. -/
def ManifestProcess.manifestId : ManifestProcess → Option Uuid
  | .bootstrap _ _ _ _ manifestId _ => some manifestId
  | _ => none

end

/-! ## What the operations do -/

/-- The transaction of an operation, if it is written out. -/
def ManifestOp.body (host : Host) (now : Timestamp) :
    (op : ManifestOp) → Option (Tx (Except PersistenceError op.Reply))
  | .snapshotManifest order userId projectId snapshotId =>
    some (TaskTipsCloud.snapshotManifest host now order userId projectId snapshotId)
  | .recordSnapshot a => some (TaskTipsCloud.recordSnapshot a)
  | .createPreRestoreSnapshot order projectId jobId leaseToken snapshotId =>
    some (TaskTipsCloud.createPreRestoreSnapshot host now order projectId jobId
      leaseToken snapshotId)
  | .markSnapshotReadyForJob jobId leaseToken snapshotId bucket key =>
    some (TaskTipsCloud.markSnapshotReadyForJob jobId leaseToken snapshotId bucket key)
  | .prepareBootstrapManifest order userId projectId manifestId =>
    some (TaskTipsCloud.prepareBootstrapManifest host order userId projectId manifestId)
  | .recordBootstrapManifest userId projectId manifest bucket key =>
    some (TaskTipsCloud.recordBootstrapManifest now userId projectId manifest bucket key)
  | _ => none

/-- The keys that the catalog refers to. -/
def referencedKeys (now : Timestamp) (d : Db) : List String :=
  d.payloads.map (·.objectKey) ++
    ((d.snapshots.filter fun x => x.status == .pending || x.status == .ready).map (·.manifestKey) ++
      (d.bootstrapManifests.filter fun m => decide (now < m.expiresAt)).map (·.manifestKey))

/-- Whether an operation lists what there is, or stores a payload. -/
def StorageOp.isScan : StorageOp → Bool
  | .referencedPayloadKeys | .listObjects _ | .putPayloadFile .. => true
  | _ => false

/-- What an operation does at a time when it is carried out. None of the programs stores a
payload. -/
inductive ManifestEffect (host : Host) (now : Timestamp) :
    Behaviour ManifestOp ManifestOp.Reply StorageError Storage
  | transaction {op : ManifestOp} {x : Tx (Except PersistenceError op.Reply)}
      (hbody : op.body host now = some x) (s : Storage) :
    ManifestEffect host now op s (storageReply (x.execute s.db.sync).1)
      { s with db.sync := (x.execute s.db.sync).2 }
  | elsewhere (c : ElsewhereCall) (reply : Except StorageError Reply) {s s' : Storage}
      (hsnapshots : s'.db.sync.snapshots = s.db.sync.snapshots)
      (hmanifests : s'.db.sync.bootstrapManifests = s.db.sync.bootstrapManifests)
      (hobjects : s'.objects = s.objects) : ManifestEffect host now (.elsewhere c) s reply s'
  | headKey {key : String} {head : Option (ℕ × Option String)} {s : Storage}
      (hhead : head.isSome = (s.objects key).isSome) :
    ManifestEffect host now (.headKey key) s (.ok head) s
  | verifyKeyHash (key expectedHash : String) (size : ℕ) (s : Storage) :
    ManifestEffect host now (.verifyKeyHash key expectedHash size) s (.ok ()) s
  | putObject (key mediaType : String) (bytes : Json) (s : Storage) :
    ManifestEffect host now (.putObject key mediaType bytes) s (.ok ())
      { s with objects := Function.update s.objects key (some now) }
  | expiry {op : StorageOp} (hop : op.isExpiry = true) {reply : Except StorageError op.Reply}
      {s s' : Storage} (h : ExpiryStep now op s reply s') :
    ManifestEffect host now (.cleanup op) s reply s'
  | referencedPayloadKeys {keys : List String} (s : Storage)
      (hkeys : keys.Perm (referencedKeys now s.db.sync)) :
    ManifestEffect host now (.cleanup .referencedPayloadKeys) s (.ok keys) s
  | listObjects (continuationToken : Option String) {page : ObjectPage} {s : Storage}
      (hpage : ∀ o ∈ page.contents, ∀ key ∈ o.key, ∃ written, s.objects key = some written ∧
        ∀ secs ∈ o.lastModified, seconds secs ≤ written ∧ written < seconds (secs + 1)) :
    ManifestEffect host now (.cleanup (.listObjects continuationToken)) s (.ok page) s
  | other {op : StorageOp} (hop : op.isExpiry = false) (hscan : op.isScan = false)
      (reply : Except StorageError op.Reply) {s s' : Storage}
      (hsnapshots : s'.db.sync.snapshots = s.db.sync.snapshots)
      (hmanifests : s'.db.sync.bootstrapManifests = s.db.sync.bootstrapManifests)
      (hobjects : s'.objects = s.objects) : ManifestEffect host now (.cleanup op) s reply s'

/-- The database and the bucket at a time. -/
structure ManifestState where
  now : Timestamp
  storage : Storage

/-- The rows of the database. -/
abbrev ManifestState.db (s : ManifestState) : Db := s.storage.db.sync

/-- An operation takes place at a time that is no earlier than that of the last one. Its answer may
be lost, and it may fail. -/
inductive ManifestStep (host : Host) :
    Behaviour ManifestOp ManifestOp.Reply StorageError ManifestState
  | answered {op : ManifestOp} {s : ManifestState} {now : Timestamp} (hnow : s.now ≤ now)
      {reply : Except StorageError op.Reply} {storage : Storage}
      (h : ManifestEffect host now op s.storage reply storage) :
    ManifestStep host op s reply ⟨now, storage⟩
  | lost {op : ManifestOp} {s : ManifestState} {now : Timestamp} (hnow : s.now ≤ now)
      {reply : Except StorageError op.Reply} {storage : Storage}
      (h : ManifestEffect host now op s.storage reply storage) (error : StorageError) :
    ManifestStep host op s (.error error) ⟨now, storage⟩
  | failed (op : ManifestOp) {s : ManifestState} {now : Timestamp} (hnow : s.now ≤ now)
      (error : StorageError) : ManifestStep host op s (.error error) ⟨now, s.storage⟩

end TaskTipsCloud

import TaskTipsCloud.Catalog

/-!
# The service

The calls that the API and the worker make to the persistence layer, each with its arguments and the
time at which its transaction starts. What the database draws for a call, such as a new identifier
or the order of a scan, is an argument too.
-/

namespace TaskTipsCloud

open Txn

/-- A call to the persistence layer. -/
inductive Call where
  | createProject (userId projectId : Uuid) (name : String)
  | disableProject (userId projectId : Uuid)
  | registerDevice (userId deviceId : Uuid)
  | revokeDevice (userId deviceId : Uuid) (requestId : String)
  | registerPayload (userId projectId payloadId : Uuid) (payload : StoredPayload)
  | collectPayload (projectId : Uuid) (contentHash : String) (olderThan : Timestamp)
  | pushWithOutcome (a : PushArgs)
  | pullPage (a : PullArgs)
  | prepareBootstrapManifest (order : ScanOrder) (userId projectId manifestId : Uuid)
  | recordBootstrapManifest (userId projectId : Uuid) (manifest : BootstrapManifest)
      (bucket key : String)
  | bootstrapManifestPage (a : BootstrapPageArgs)
  | expireBootstrapManifests (inBatch : BootstrapManifestRow → Bool)
  | purgeExpiredIdempotencyRecords (inBatch : IdempotencyRecord → Bool)
  | snapshotManifest (order : ScanOrder) (userId projectId snapshotId : Uuid)
  | recordSnapshot (a : RecordSnapshotArgs)
  | markSnapshotReady (snapshotId : Uuid) (bucket key : String)
  | expirePendingSnapshots (olderThan : Timestamp)
  | enqueueRestore (a : EnqueueRestoreArgs)
  | cancelRestore (userId projectId restoreId : Uuid) (reason requestId : String)
  | claimRestoreJob (skipLocked : List Uuid) (leaseToken : Uuid)
  | renewRestoreLease (jobId leaseToken : Uuid)
  | createPreRestoreSnapshot (order : ScanOrder) (projectId jobId leaseToken snapshotId : Uuid)
  | markSnapshotReadyForJob (jobId leaseToken snapshotId : Uuid) (bucket key : String)
  | executeRestoreWithLease (targetOrder currentOrder : ScanOrder) (jobId leaseToken : Uuid)
  | cancelRestoreWithLease (jobId leaseToken : Uuid)
  | failRestoreJobWithLease (jobId leaseToken : Uuid) (errorCode : String)
  | retryRestoreJobWithLease (jobId leaseToken : Uuid) (errorCode : String)
  | reopenFailedRestore (actorUserId projectId : Uuid) (reason requestId : String)

/-- What a call returns. -/
inductive Reply where
  | done
  | project (row : ProjectRow)
  | pushed (outcome : PushOutcome)
  | pullPage (page : PullPage)
  | bootstrapManifest (manifest : BootstrapManifest)
  | bootstrapPage (page : BootstrapPage)
  | snapshotManifest (generation changeSequence : ℤ) (manifest : Json)
  | snapshot (row : SnapshotRow)
  | restoreJob (job : RestoreJob)
  | claimed (job : Option RestoreJob)
  | preRestoreSnapshot (snapshotId ownerUserId : Uuid) (manifest : Json)
  | requeued (again : Bool)

/-- A transaction whose value is returned as a reply. -/
def replying {α : Type} (reply : α → Reply) (x : Tx (Except PersistenceError α)) :
    Tx (Except PersistenceError Reply) :=
  x.bind fun r => .pure (r.map reply)

/-- The transaction of a call. -/
def Call.body (host : Host) (now : Timestamp) : Call → Tx (Except PersistenceError Reply)
  | .createProject userId projectId name =>
    replying .project (TaskTipsCloud.createProject now userId projectId name)
  | .disableProject userId projectId =>
    replying .project (TaskTipsCloud.disableProject now userId projectId)
  | .registerDevice userId deviceId =>
    replying (fun _ => .done) (TaskTipsCloud.registerDevice userId deviceId)
  | .revokeDevice userId deviceId requestId =>
    replying (fun _ => .done) (TaskTipsCloud.revokeDevice now userId deviceId requestId)
  | .registerPayload userId projectId payloadId payload =>
    replying (fun _ => .done)
      (TaskTipsCloud.registerPayload now userId projectId payloadId payload)
  | .collectPayload projectId contentHash olderThan =>
    replying (fun _ => .done) (TaskTipsCloud.collectPayload projectId contentHash olderThan)
  | .pushWithOutcome a => replying .pushed (TaskTipsCloud.pushWithOutcome host now a)
  | .pullPage a => replying .pullPage (TaskTipsCloud.pullPage now a)
  | .prepareBootstrapManifest order userId projectId manifestId =>
    replying .bootstrapManifest
      (TaskTipsCloud.prepareBootstrapManifest host order userId projectId manifestId)
  | .recordBootstrapManifest userId projectId manifest bucket key =>
    replying (fun _ => .done)
      (TaskTipsCloud.recordBootstrapManifest now userId projectId manifest bucket key)
  | .bootstrapManifestPage a =>
    replying .bootstrapPage (TaskTipsCloud.bootstrapManifestPage now a)
  | .expireBootstrapManifests inBatch =>
    replying (fun _ => .done) (TaskTipsCloud.expireBootstrapManifests now inBatch)
  | .purgeExpiredIdempotencyRecords inBatch =>
    replying (fun _ => .done) (TaskTipsCloud.purgeExpiredIdempotencyRecords now inBatch)
  | .snapshotManifest order userId projectId snapshotId =>
    replying (fun (generation, sequence, manifest) =>
        .snapshotManifest generation sequence manifest)
      (TaskTipsCloud.snapshotManifest host now order userId projectId snapshotId)
  | .recordSnapshot a => replying .snapshot (TaskTipsCloud.recordSnapshot a)
  | .markSnapshotReady snapshotId bucket key =>
    replying (fun _ => .done) (TaskTipsCloud.markSnapshotReady snapshotId bucket key)
  | .expirePendingSnapshots olderThan =>
    replying (fun _ => .done) (TaskTipsCloud.expirePendingSnapshots olderThan)
  | .enqueueRestore a => replying .restoreJob (TaskTipsCloud.enqueueRestore now a)
  | .cancelRestore userId projectId restoreId reason requestId =>
    replying .restoreJob
      (TaskTipsCloud.cancelRestore now userId projectId restoreId reason requestId)
  | .claimRestoreJob skipLocked leaseToken =>
    replying .claimed (TaskTipsCloud.claimRestoreJob now skipLocked leaseToken)
  | .renewRestoreLease jobId leaseToken =>
    replying (fun _ => .done) (TaskTipsCloud.renewRestoreLease now jobId leaseToken)
  | .createPreRestoreSnapshot order projectId jobId leaseToken snapshotId =>
    replying (fun (snapshotId, ownerUserId, manifest) =>
        .preRestoreSnapshot snapshotId ownerUserId manifest)
      (TaskTipsCloud.createPreRestoreSnapshot host now order projectId jobId leaseToken snapshotId)
  | .markSnapshotReadyForJob jobId leaseToken snapshotId bucket key =>
    replying (fun _ => .done)
      (TaskTipsCloud.markSnapshotReadyForJob jobId leaseToken snapshotId bucket key)
  | .executeRestoreWithLease targetOrder currentOrder jobId leaseToken =>
    replying (fun _ => .done)
      (TaskTipsCloud.executeRestoreWithLease now targetOrder currentOrder jobId leaseToken)
  | .cancelRestoreWithLease jobId leaseToken =>
    replying (fun _ => .done) (TaskTipsCloud.cancelRestoreWithLease now jobId leaseToken)
  | .failRestoreJobWithLease jobId leaseToken errorCode =>
    replying (fun _ => .done) (TaskTipsCloud.failRestoreJobWithLease now jobId leaseToken errorCode)
  | .retryRestoreJobWithLease jobId leaseToken errorCode =>
    replying .requeued (TaskTipsCloud.retryRestoreJobWithLease now jobId leaseToken errorCode)
  | .reopenFailedRestore actorUserId projectId reason requestId =>
    replying (fun _ => .done)
      (TaskTipsCloud.reopenFailedRestore now actorUserId projectId reason requestId)

/-- A call with the time at which its transaction starts. -/
structure Request where
  now : Timestamp
  call : Call

/-- The service: every call may be made at any time. -/
def service (host : Host) : Service Db Lock PersistenceError Reply Request where
  body q := q.call.body host q.now
  time q := q.now
  Allowed _ := True

/-- A request that finished. -/
abbrev SyncEvent := Event Db PersistenceError Reply Request

/-! ## A sample run -/

/-- The digest of every value that the sample run hashes. -/
def sampleDigest : String := "e3b0c44298fc1c149afbf4c8996fb92427ae41e4649b934ca495991b7852b855"

/-- A host that knows the one digest and the one instant of the sample run. -/
def sampleHost : Host where
  sha256Hex _ := sampleDigest
  rfc3339 t := if t.unixNanos = 0 then some "1970-01-01T00:00:00Z" else none
  isRfc3339 text := text == "1970-01-01T00:00:00Z"
  serdeText _ := "1970-01-01 00:00:00.0 +00:00:00"
  displayText _ := "1970-01-01 0:00:00.0 +00:00:00"

/-- An item of a push: a todo or its tombstone. -/
def sampleItem (id : String) (base : Option ℤ) (tombstone : Bool) : NewSyncRevision where
  kind := .todo
  id := id
  schemaVersion := if tombstone then none else some 1
  baseRevision := base
  contentHash := if tombstone then none else some sampleDigest
  changedAt := ⟨0, 0⟩
  tombstone := tombstone

/-- A push of the sample device at a generation. -/
def samplePush (generation : ℤ) (key : String) (items : List NewSyncRevision) : Call :=
  .pushWithOutcome ⟨1, 3, 2, generation, key, key, items⟩

/-- The sample project, with a payload and a device that completed its bootstrap. -/
def sampleSetup : List Request :=
  [⟨0, .createProject 1 2 "tasks"⟩, ⟨0, .registerDevice 1 3⟩,
    ⟨0, .registerPayload 1 2 5 ⟨sampleDigest, "payloads", "todo", 12, "text/markdown"⟩⟩,
    ⟨0, .recordBootstrapManifest 1 2 ⟨4, 1, 0, [], sampleDigest⟩ "manifests" "4"⟩,
    ⟨0, .bootstrapManifestPage ⟨1, 3, 2, 4, 0, 100⟩⟩]

/-- Two objects of which one is changed in the same push, and the other is deleted later. -/
def samplePushes : List Request :=
  [⟨1, samplePush 1 "a" [sampleItem "x" none false, sampleItem "y" none false,
      sampleItem "x" (some 1) false]⟩,
    ⟨2, samplePush 1 "b" [sampleItem "y" (some 1) true]⟩]

/-- A restore of the sample project to a sequence. -/
def sampleRestore (now : Timestamp) (jobId : Uuid) (t : ℤ) : List Request :=
  [⟨now, .enqueueRestore ⟨1, 2, none, some t, "undo", "r", jobId⟩⟩,
    ⟨now, .claimRestoreJob [] 8⟩, ⟨now, .executeRestoreWithLease .stored .stored jobId 8⟩]

/-- The database of the sample run before its first request. -/
def sampleStart : Db := .initial [⟨1, .user, .active⟩]

/-- The world after some requests, served one after the other. -/
def sampleWorld (requests : List Request) : World Db Lock PersistenceError Reply Request :=
  (service sampleHost).serve requests (Service.quiet sampleStart 0)

/-- The sample run is one of the service. -/
theorem reachable_sampleWorld {requests : List Request}
    (h : (0 :: requests.map (·.now)).Pairwise (· ≤ ·)) :
    (service sampleHost).Reachable sampleStart (sampleWorld requests) :=
  Service.reachable_serve ⟨0, .refl⟩ (fun _ => rfl) requests (fun _ _ => trivial) h

/-- The sample run has an event for each request. -/
theorem history_length_sampleWorld (requests : List Request) :
    (sampleWorld requests).history.length = requests.length := by
  unfold sampleWorld
  rw [Service.history_length_serve]
  exact Nat.zero_add _

/-- What finished in a sample run are its requests. -/
theorem request_mem_of_sampleWorld {requests : List Request} {e : SyncEvent}
    (he : e ∈ (sampleWorld requests).history) : e.request ∈ requests := by
  have hmem := List.mem_map_of_mem (f := (·.request)) he
  unfold sampleWorld at hmem
  rw [Service.requests_serve] at hmem
  exact hmem

/-- What one of the requests did. -/
def sampleEvent (requests : List Request) (i : Fin requests.length) : SyncEvent :=
  (sampleWorld requests).history.get (i.cast (history_length_sampleWorld requests).symm)

/-- The run around one of the requests. -/
theorem history_sampleWorld (requests : List Request) (i : Fin requests.length) :
    (sampleWorld requests).history = (sampleWorld requests).history.take i ++
      sampleEvent requests i :: (sampleWorld requests).history.drop (i + 1) := by
  have hi : (i : ℕ) < (sampleWorld requests).history.length := by
    rw [history_length_sampleWorld]
    exact i.isLt
  show _ = _ ++ (sampleWorld requests).history[(i : ℕ)] :: _
  rw [List.getElem_cons_drop, List.take_append_drop]

/-- An earlier event is among the first ones. -/
theorem sampleEvent_mem_take {requests : List Request} {i j : Fin requests.length} (h : i < j) :
    sampleEvent requests i ∈ (sampleWorld requests).history.take j :=
  List.mem_take_iff_getElem.mpr ⟨i, by
    rw [history_length_sampleWorld, lt_min_iff]
    exact ⟨h, i.isLt⟩, rfl⟩

/-- A later event is among the last ones. -/
theorem sampleEvent_mem_drop {requests : List Request} {i j : Fin requests.length} (h : i < j) :
    sampleEvent requests j ∈ (sampleWorld requests).history.drop (i + 1) := by
  have hj : sampleEvent requests j ∈ (sampleWorld requests).history.drop j := by
    have hsplit := congrArg (List.drop j) (history_sampleWorld requests j)
    rw [List.drop_left' (by
      rw [List.length_take, history_length_sampleWorld]; exact min_eq_left j.isLt.le)] at hsplit
    rw [hsplit]
    exact List.mem_cons_self
  have hle : (i : ℕ) + 1 ≤ j := h
  obtain ⟨n, hn⟩ := Nat.exists_eq_add_of_le hle
  rw [hn, ← List.drop_drop] at hj
  exact List.mem_of_mem_drop hj

end TaskTipsCloud

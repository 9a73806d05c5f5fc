import TaskTipsCloud.Exports

/-!
# Runs of exports

What the workers that attempt one export do to its object, in whatever order their operations come.
The archives of two attempts are the same when the temporary files of the payloads have the same
metadata. Otherwise they differ, and the later attempt fails on what the earlier one has stored.
-/

namespace TaskTipsCloud

namespace Exports

open Program

/-! ## What the operations do -/

/-- A result of the persistence layer as the reply to a call. -/
def exportReply {α : Type} : Except PersistenceError α → Except ExportError α
  | .ok a => .ok a
  | .error error => .error (.persistence error)

/-- A transaction on the database. -/
def transact {α : Type} (x : PurgeTx (Except PersistenceError α)) (w : ExportWorld) :
    Except ExportError α × ExportWorld :=
  (exportReply (x.execute w.db).1, { w with db := (x.execute w.db).2 })

/-- A download of some bytes. -/
def downloadOf (bytes : List UInt8) : PayloadDownload := ⟨some bytes.length, bytes⟩

/-- What an operation answers and does at a time. A file that is written has the metadata
`stamp`. -/
def serve (host : ExportHost) (now : Timestamp) (stamp : FileStamp) :
    (op : ExportOp) → ExportWorld → Except ExportError op.Reply × ExportWorld
  | .accountPurgePhase jobId leaseToken, w => transact (accountPurgePhase now jobId leaseToken) w
  | .prepareAccountExport jobId leaseToken, w =>
    (exportReply (prepareAccountExport host now jobId leaseToken w), w)
  | .renewAccountPurgeLease jobId leaseToken, w =>
    transact (renewAccountPurgeLease now jobId leaseToken) w
  | .completeAccountExport jobId leaseToken exportId contentHash size, w =>
    transact (completeAccountExport now jobId leaseToken exportId contentHash size) w
  | .prepareAccountPurge jobId leaseToken, w =>
    transact (prepareAccountPurge now jobId leaseToken) w
  | .completeAccountPurge jobId leaseToken, w =>
    transact (completeAccountPurge now jobId leaseToken) w
  | .failAccountPurge jobId leaseToken errorCode, w =>
    transact (failAccountPurge now jobId leaseToken errorCode) w
  | .getObject key, w => ((w.objects key).elim (.error .noSuchKey) fun o => .ok (downloadOf o), w)
  | .headObject key, w => (.ok ((w.objects key).map (·.length)), w)
  | .putObject key bytes, w =>
    (.ok (), { w with objects := Function.update w.objects key (some bytes) })
  | .deleteObject key, w => (.ok (), { w with objects := Function.update w.objects key none })
  | .createPrivateFile .., w => (.ok stamp, w)
  | .createDirAll _, w | .writeArchive .., w | .removeDirAll _, w => (.ok (), w)

/-- The operations as the workers see them. Before an operation is carried out, others may have
changed everything but the object of `key`. It may fail, and it may be carried out without an
answer. -/
inductive ExportStep (host : ExportHost) (key : String) :
    Behaviour ExportOp ExportOp.Reply ExportError ExportWorld
  | answered {op : ExportOp} {s t : ExportWorld} (hmeanwhile : t.objects key = s.objects key)
      (now : Timestamp) (stamp : FileStamp) :
    ExportStep host key op s (serve host now stamp op t).1 (serve host now stamp op t).2
  | lost {op : ExportOp} {s t : ExportWorld} (hmeanwhile : t.objects key = s.objects key)
      (now : Timestamp) (stamp : FileStamp) (error : ExportError) :
    ExportStep host key op s (.error error) (serve host now stamp op t).2
  | failed {op : ExportOp} {s t : ExportWorld} (hmeanwhile : t.objects key = s.objects key)
      (error : ExportError) : ExportStep host key op s (.error error) t

/-! ## What an export consists of -/

/-- The keys of the tables tell the rows of an account apart. -/
structure AccountRows.Keyed (rows : AccountRows) : Prop where
  projects : (rows.projects.map (·.id.toNat)).Nodup
  devices : (rows.devices.map (·.id.toNat)).Nodup
  payloads : (rows.payloads.map AccountRows.payloadOrder).Nodup
  revisions : (rows.revisions.map AccountRows.revisionOrder).Nodup
  changeLog : (rows.changeLog.map AccountRows.changeOrder).Nodup
  snapshots : (rows.snapshots.map AccountRows.snapshotOrder).Nodup

/-- An account holds the same rows, in whatever order they are stored. -/
structure AccountRows.Same (rows others : AccountRows) : Prop where
  projects : rows.projects.Perm others.projects
  devices : rows.devices.Perm others.devices
  payloads : rows.payloads.Perm others.payloads
  revisions : rows.revisions.Perm others.revisions
  changeLog : rows.changeLog.Perm others.changeLog
  snapshots : rows.snapshots.Perm others.snapshots

section

variable {host : ExportHost} {now now' : Timestamp} {jobId leaseToken leaseToken' : Uuid}
  {w w' : ExportWorld} {found found' : AccountExportData}

/-- The same rows have the same manifest. -/
theorem AccountRows.Keyed.manifest_congr {rows others : AccountRows} (hkeyed : rows.Keyed)
    (hsame : rows.Same others) (userId : Uuid) :
    rows.manifest host userId = others.manifest host userId := by
  simp only [AccountRows.manifest, jsonbAgg, orderBy_congr hkeyed.projects hsame.projects,
    orderBy_congr hkeyed.devices hsame.devices, orderBy_congr hkeyed.payloads hsame.payloads,
    orderBy_congr hkeyed.revisions hsame.revisions, orderBy_congr hkeyed.changeLog hsame.changeLog,
    orderBy_congr hkeyed.snapshots hsame.snapshots]

/-- Where an export comes from. -/
theorem prepareAccountExport_ok (h : prepareAccountExport host now jobId leaseToken w = .ok found) :
    ∃ job row, w.db.job jobId = some job ∧ uuidMember job.payload "exportId" = some found.exportId ∧
      w.db.accountExport found.exportId = some row ∧
      found = { exportId := found.exportId, ownerUserId := job.ownerUserId,
                objectKey := row.objectKey,
                manifest :=
                  host.jsonBytes ((w.rowsOf job.ownerUserId).manifest host job.ownerUserId),
                payloads := (orderBy AccountRows.payloadOrder
                  (w.rowsOf job.ownerUserId).payloads).map fun p =>
                    ⟨p.objectKey, "payloads/" ++ p.projectId.text ++ "/" ++ p.contentHash⟩ } := by
  rw [prepareAccountExport] at h
  cases hjob : leasedPurge .accountPurge now jobId leaseToken w.db with
  | none =>
    rw [hjob] at h
    cases h
  | some job =>
    rw [hjob] at h
    cases hid : uuidMember job.payload "exportId" with
    | none =>
      simp only [Option.elim_some, bind, Except.bind, hid, Option.elim_none] at h
      cases h
    | some exportId =>
      simp only [Option.elim_some, bind, Except.bind, hid] at h
      cases hrow : (w.db.accountExport exportId).filter fun e =>
          e.userId == job.ownerUserId && e.status == .pending && decide (now < e.expiresAt) with
      | none =>
        rw [hrow] at h
        cases h
      | some row =>
        rw [hrow] at h
        cases h
        have hleased := (Option.filter_eq_some_iff.mp hjob).1
        exact ⟨job, row, (Option.filter_eq_some_iff.mp hleased).1, hid,
          (Option.filter_eq_some_iff.mp hrow).1, rfl⟩

/-- Two attempts find the same data when the job, the key of the export and the rows of the account
are the same. -/
theorem prepareAccountExport_congr
    (h : prepareAccountExport host now jobId leaseToken w = .ok found)
    (h' : prepareAccountExport host now' jobId leaseToken' w' = .ok found')
    (hjob : ∀ job job', w.db.job jobId = some job → w'.db.job jobId = some job' →
      job'.ownerUserId = job.ownerUserId ∧ job'.payload = job.payload)
    (hkey : ∀ exportId row row', w.db.accountExport exportId = some row →
      w'.db.accountExport exportId = some row' → row'.objectKey = row.objectKey)
    (hkeyed : (w.rowsOf found.ownerUserId).Keyed)
    (hsame : (w.rowsOf found.ownerUserId).Same (w'.rowsOf found.ownerUserId)) : found' = found := by
  obtain ⟨job, row, hjob₁, hid, hrow, hfound⟩ := prepareAccountExport_ok h
  obtain ⟨job', row', hjob₁', hid', hrow', hfound'⟩ := prepareAccountExport_ok h'
  obtain ⟨howner, hpayload⟩ := hjob job job' hjob₁ hjob₁'
  have hexport : found'.exportId = found.exportId := by
    rw [hpayload, hid] at hid'
    exact (Option.some.inj hid').symm
  rw [hexport] at hrow' hfound'
  have howner₁ : found.ownerUserId = job.ownerUserId := by rw [hfound]
  rw [howner₁] at hkeyed hsame
  rw [howner, hkey _ row row' hrow hrow', ← hkeyed.manifest_congr hsame,
    ← orderBy_congr hkeyed.payloads hsame.payloads, ← hfound] at hfound'
  exact hfound'

end

/-! ## What the attempts of one export have in common -/

/-- What the calls read is the same every time: the job exports, it exports the same data, and the
objects of the payloads have the same bytes. -/
structure Unchanged (data : AccountExportData) (payloads : String → List UInt8)
    (calls : List ExportCall) : Prop where
  samePhase : ∀ jobId leaseToken phase, ⟨.accountPurgePhase jobId leaseToken, .ok phase⟩ ∈ calls →
    phase = "export"
  sameData : ∀ jobId leaseToken found, ⟨.prepareAccountExport jobId leaseToken, .ok found⟩ ∈ calls →
    found = data
  samePayload : ∀ payload ∈ data.payloads, ∀ download,
    ⟨.getObject payload.objectKey, .ok download⟩ ∈ calls →
      download = downloadOf (payloads payload.objectKey)

/-- Every temporary file of a payload gets the metadata that its number stands for. -/
def SameStamps (stamps : ℕ → FileStamp) (calls : List ExportCall) : Prop :=
  ∀ exportId index bytes stamp, ⟨.createPrivateFile exportId index bytes, .ok stamp⟩ ∈ calls →
    stamp = stamps index

/-- The files of an export with the numbers from `index` on. -/
def exportFiles (payloads : String → List UInt8) (stamps : ℕ → FileStamp) :
    ℕ → List AccountExportPayload → List TarEntry
  | _, [] => []
  | index, payload :: rest =>
    ⟨payload.archivePath, stamps index, payloads payload.objectKey⟩ ::
      exportFiles payloads stamps (index + 1) rest

/-- How many bytes some payloads have. -/
def payloadBytes (payloads : String → List UInt8) (rest : List AccountExportPayload) : ℕ :=
  (rest.map fun payload => (payloads payload.objectKey).length).sum

/-- The archive of an export. -/
def exportArchive (host : ExportHost) (data : AccountExportData) (payloads : String → List UInt8)
    (stamps : ℕ → FileStamp) : List UInt8 :=
  buildExportArchive host data.manifest (exportFiles payloads stamps 0 data.payloads)

/-- The archive of an export leaves room for its files. -/
def Fits (host : ExportHost) (data : AccountExportData) (payloads : String → List UInt8)
    (stamps : ℕ → FileStamp) : Prop :=
  data.manifest.length + payloadBytes payloads data.payloads +
      (exportArchive host data payloads stamps).length ≤ host.maxTempBytes ∧
    (exportArchive host data payloads stamps).length < 2 ^ 63

/-- What the calls see of the object of `key`: there is nothing, or one archive from the moment on
at which it is stored. -/
structure StoresOnly (key : String) (archive : List UInt8) (calls : List ExportCall) : Prop where
  body : ∀ download, ⟨.getObject key, .ok download⟩ ∈ calls → download = downloadOf archive
  size : ∀ size, ⟨.headObject key, .ok (some size)⟩ ∈ calls → size = archive.length
  there : calls.Pairwise fun c c' => c.op = .putObject key archive → ¬ c.Failed →
    c' ≠ ⟨.headObject key, .ok none⟩

section

variable {host : ExportHost} {jobId leaseToken : Uuid} {data : AccountExportData}
  {payloads : String → List UInt8} {stamps : ℕ → FileStamp} {calls calls' : List ExportCall}

/-- Some of the calls see the same data and payloads. -/
theorem Unchanged.mono (h : Unchanged data payloads calls') (hsub : calls ⊆ calls') :
    Unchanged data payloads calls :=
  ⟨fun _ _ _ hmem => h.samePhase _ _ _ (hsub hmem), fun _ _ _ hmem => h.sameData _ _ _ (hsub hmem),
    fun _ hp _ hmem => h.samePayload _ hp _ (hsub hmem)⟩

/-- Some of the calls get the same metadata. -/
theorem SameStamps.mono (h : SameStamps stamps calls') (hsub : calls ⊆ calls') :
    SameStamps stamps calls := fun _ _ _ _ hmem => h _ _ _ _ (hsub hmem)

/-- Some of the calls see the object in the same way. -/
theorem StoresOnly.sublist {key : String} {archive : List UInt8}
    (h : StoresOnly key archive calls') (hsub : calls.Sublist calls') :
    StoresOnly key archive calls :=
  ⟨fun _ hmem => h.body _ (hsub.subset hmem), fun _ hmem => h.size _ (hsub.subset hmem),
    h.there.sublist hsub⟩

/-! ## One attempt -/

/-- A value is there, or the export ends with the error. -/
theorem ends_orFail_iff {α : Type} {e : ExportError} {o : Option α} {r : Except ExportError α} :
    Ends (orFail e o) calls r ↔ calls = [] ∧ r = o.elim (.error e) .ok := by
  cases o with
  | none => exact ends_fail_iff
  | some a => exact ends_done_iff

/-- What a program has checked holds after it. -/
theorem of_ends_check {p : Bool} {e : ExportError} (h : Ends (check p e) calls (.ok ())) :
    p = true := by
  cases p with
  | true => rfl
  | false => cases (ends_fail_iff.mp h).2

/-- The file of a payload that was downloaded. -/
theorem downloadPayload_ok {exportId : Uuid} {index total : ℕ} {payload : AccountExportPayload}
    {v : TarEntry × ℕ} (hpayload : payload ∈ data.payloads)
    (h : Ends (downloadPayload host jobId leaseToken exportId index total payload) calls (.ok v))
    (hunchanged : Unchanged data payloads calls) (hstamps : SameStamps stamps calls) :
    v = (⟨payload.archivePath, stamps index, payloads payload.objectKey⟩,
      total + (payloads payload.objectKey).length) := by
  simp only [downloadPayload, bind_eq, ends_andThen_ok_iff] at h
  obtain ⟨_, -, _, -, ⟨_, download, _, hget, ⟨_, size, _, hsize, ⟨_, -, _, -, ⟨_, -, _, -,
    ⟨_, stamp, _, hfile, hdone, rfl⟩, rfl⟩, rfl⟩, rfl⟩, rfl⟩, rfl⟩ := h
  obtain rfl := ends_perform_iff.mp hget
  obtain rfl := ends_perform_iff.mp hfile
  obtain ⟨rfl, hlength⟩ := ends_orFail_iff.mp hsize
  obtain ⟨-, hv⟩ := ends_done_iff.mp hdone
  obtain rfl := hunchanged.samePayload payload hpayload download
    (List.mem_append_right _ List.mem_cons_self)
  obtain rfl := hstamps exportId index _ stamp (List.mem_append_right _ (List.mem_append_right _
    (List.mem_append_right _ (List.mem_append_right _ (List.mem_append_right _
      List.mem_cons_self)))))
  cases hlength
  cases hv
  rfl

/-- The files that were downloaded. -/
theorem downloadPayloads_ok {exportId : Uuid} {index total : ℕ} {rest : List AccountExportPayload}
    {v : List TarEntry × ℕ} (hrest : ∀ payload ∈ rest, payload ∈ data.payloads)
    (h : Ends (downloadPayloads host jobId leaseToken exportId index total rest) calls (.ok v))
    (hunchanged : Unchanged data payloads calls) (hstamps : SameStamps stamps calls) :
    v = (exportFiles payloads stamps index rest, total + payloadBytes payloads rest) := by
  induction rest generalizing index total calls v with
  | nil =>
    obtain ⟨-, hv⟩ := ends_done_iff.mp h
    cases hv
    rfl
  | cons payload rest ih =>
    simp only [downloadPayloads, bind_eq, ends_andThen_ok_iff] at h
    obtain ⟨calls₁, w, _, hfirst, ⟨calls₂, w', _, hothers, hdone, rfl⟩, rfl⟩ := h
    obtain rfl := downloadPayload_ok (hrest payload List.mem_cons_self) hfirst
      (hunchanged.mono (List.subset_append_left _ _)) (hstamps.mono (List.subset_append_left _ _))
    have hsub : ∀ rest, calls₂ ⊆ calls₁ ++ (calls₂ ++ rest) := fun rest =>
      List.Subset.trans (List.subset_append_left _ _) (List.subset_append_right _ _)
    obtain rfl := ih (fun p hp => hrest p (List.mem_cons_of_mem _ hp)) hothers
      (hunchanged.mono (hsub _)) (hstamps.mono (hsub _))
    obtain ⟨-, hv⟩ := ends_done_iff.mp hdone
    cases hv
    simp only [exportFiles, payloadBytes, List.map_cons, List.sum_cons, Nat.add_assoc]

/-- A payload is downloaded when every request is answered and there is room for it. -/
theorem downloadPayload_answered {exportId : Uuid} {index total : ℕ}
    {payload : AccountExportPayload} {r : Except ExportError (TarEntry × ℕ)}
    (hpayload : payload ∈ data.payloads)
    (h : Ends (downloadPayload host jobId leaseToken exportId index total payload) calls r)
    (hcalls : ∀ c ∈ calls, ¬ c.Failed) (hunchanged : Unchanged data payloads calls)
    (hroom : total + (payloads payload.objectKey).length ≤ host.maxTempBytes) :
    ∃ v, r = .ok v := by
  obtain ⟨_, _, rfl, h₁⟩ := ends_perform_andThen h hcalls
  have hcalls₁ := fun c hc => hcalls c (List.mem_cons_of_mem _ hc)
  obtain ⟨download, _, rfl, h₂⟩ := ends_perform_andThen h₁ hcalls₁
  have hcalls₂ := fun c hc => hcalls₁ c (List.mem_cons_of_mem _ hc)
  obtain rfl := hunchanged.samePayload payload hpayload download
    (List.mem_cons_of_mem _ List.mem_cons_self)
  have hlt := host.maxTempBytes_lt
  have hover : decide (total + (payloads payload.objectKey).length < 2 ^ 64) = true := by
    rw [decide_eq_true_eq]
    omega
  have hsize : (downloadOf (payloads payload.objectKey)).contentLength.filter (0 ≤ ·) =
      some ((payloads payload.objectKey).length : ℤ) := rfl
  simp only [hsize, bind_eq, orFail, done_andThen, Int.toNat_natCast, hover, decide_eq_true hroom,
    check, if_true] at h₂
  obtain ⟨stamp, _, rfl, h₃⟩ := ends_perform_andThen h₂ hcalls₂
  exact ⟨_, (ends_done_iff.mp h₃).2⟩

/-- The payloads are downloaded when every request is answered and there is room for them. -/
theorem downloadPayloads_answered {exportId : Uuid} {index total : ℕ}
    {rest : List AccountExportPayload} {r : Except ExportError (List TarEntry × ℕ)}
    (hrest : ∀ payload ∈ rest, payload ∈ data.payloads)
    (h : Ends (downloadPayloads host jobId leaseToken exportId index total rest) calls r)
    (hcalls : ∀ c ∈ calls, ¬ c.Failed) (hunchanged : Unchanged data payloads calls)
    (hstamps : SameStamps stamps calls)
    (hroom : total + payloadBytes payloads rest ≤ host.maxTempBytes) : ∃ v, r = .ok v := by
  induction rest generalizing index total calls r with
  | nil => exact ⟨_, (ends_done_iff.mp h).2⟩
  | cons payload rest ih =>
    rw [payloadBytes, List.map_cons, List.sum_cons, ← Nat.add_assoc] at hroom
    have hfits := (Nat.le_add_right _ _).trans hroom
    have hpayload := hrest payload List.mem_cons_self
    rcases ends_andThen_iff.mp h with ⟨calls₁, _, others, hfirst, hothers, rfl⟩ | ⟨e, he, rfl⟩
    swap
    · obtain ⟨_, hv⟩ := downloadPayload_answered hpayload he hcalls hunchanged hfits
      cases hv
    have hleft := List.subset_append_left calls₁ others
    obtain rfl := downloadPayload_ok hpayload hfirst (hunchanged.mono hleft) (hstamps.mono hleft)
    have hright := List.subset_append_right calls₁ others
    rcases ends_andThen_iff.mp hothers with ⟨calls₂, w, calls₃, -, hdone, rfl⟩ | ⟨e, he, rfl⟩
    · exact ⟨_, (ends_done_iff.mp hdone).2⟩
    · obtain ⟨_, hv⟩ := ih (fun p hp => hrest p (List.mem_cons_of_mem _ hp)) he
        (fun c hc => hcalls c (hright hc)) (hunchanged.mono hright) (hstamps.mono hright) hroom
      cases hv

/-- What is stored has the size and the digest of what an attempt sends. -/
theorem verifyKeyHash_answered {key : String} {archive : List UInt8} {r : Except ExportError Unit}
    (h : Ends (verifyKeyHash host key (host.sha256 archive) archive.length) calls r)
    (hcalls : ∀ c ∈ calls, ¬ c.Failed)
    (hbody : ∀ download, ⟨.getObject key, .ok download⟩ ∈ calls → download = downloadOf archive) :
    r = .ok () := by
  obtain ⟨download, _, rfl, h₁⟩ := ends_perform_andThen h hcalls
  obtain rfl := hbody download List.mem_cons_self
  simp only [downloadOf, beq_self_eq_true, Bool.and_self, check, if_true] at h₁
  exact (ends_done_iff.mp h₁).2

/-- An attempt that sends the archive that the others send stores it, or finds it. -/
theorem putExportFile_answered {archive : List UInt8} {r : Except ExportError Unit}
    (h : Ends (putExportFile host data.ownerUserId data.exportId (host.sha256 archive) archive)
      calls r)
    (hcalls : ∀ c ∈ calls, ¬ c.Failed)
    (hstored : StoresOnly (exportKey data.ownerUserId data.exportId) archive calls)
    (hlength : archive.length < 2 ^ 63) : r = .ok () := by
  obtain ⟨existing, _, rfl, h₁⟩ := ends_perform_andThen h hcalls
  have hcalls₁ := fun c hc => hcalls c (List.mem_cons_of_mem _ hc)
  cases existing with
  | some existing =>
    obtain rfl := hstored.size existing List.mem_cons_self
    simp only [beq_self_eq_true, check, if_true, bind_eq, done_andThen] at h₁
    exact verifyKeyHash_answered h₁ hcalls₁ fun _ hmem =>
      hstored.body _ (List.mem_cons_of_mem _ hmem)
  | none =>
    simp only [decide_eq_true hlength, check, if_true, bind_eq, done_andThen] at h₁
    obtain ⟨_, _, rfl, h₂⟩ := ends_perform_andThen h₁ hcalls₁
    have hcalls₂ := fun c hc => hcalls₁ c (List.mem_cons_of_mem _ hc)
    obtain ⟨stored, _, rfl, h₃⟩ := ends_perform_andThen h₂ hcalls₂
    have hcalls₃ := fun c hc => hcalls₂ c (List.mem_cons_of_mem _ hc)
    -- The archive is there once it has been sent.
    have hthere := (List.pairwise_cons.mp (List.pairwise_cons.mp hstored.there).2).1 _
      List.mem_cons_self rfl (hcalls₁ _ List.mem_cons_self)
    cases stored with
    | none => exact absurd rfl hthere
    | some stored =>
      obtain rfl := hstored.size stored (List.mem_cons_of_mem _ (List.mem_cons_of_mem _
        List.mem_cons_self))
      simp only [orFail, beq_self_eq_true, if_true, done_andThen] at h₃
      exact verifyKeyHash_answered h₃ hcalls₃ fun _ hmem => hstored.body _
        (List.mem_cons_of_mem _ (List.mem_cons_of_mem _ (List.mem_cons_of_mem _ hmem)))

/-- An attempt that finds an archive is refused, unless its own has the same size and digest. -/
theorem putExportFile_accepted {stored bytes : List UInt8}
    (h : Ends (putExportFile host data.ownerUserId data.exportId (host.sha256 bytes) bytes) calls
      (.ok ()))
    (hthere : ⟨.headObject (exportKey data.ownerUserId data.exportId), .ok none⟩ ∉ calls)
    (hstored : StoresOnly (exportKey data.ownerUserId data.exportId) stored calls) :
    bytes.length = stored.length ∧ host.sha256 bytes = host.sha256 stored := by
  obtain ⟨_, existing, _, hhead, h₁, rfl⟩ := ends_andThen_ok_iff.mp h
  obtain rfl := ends_perform_iff.mp hhead
  cases existing with
  | none => exact absurd List.mem_cons_self hthere
  | some existing =>
    obtain rfl := hstored.size existing List.mem_cons_self
    obtain ⟨_, _, _, hsize, h₂, rfl⟩ := ends_andThen_ok_iff.mp h₁
    have hlength := beq_iff_eq.mp (of_ends_check hsize)
    obtain ⟨_, download, _, hget, hcheck, rfl⟩ := ends_andThen_ok_iff.mp h₂
    obtain rfl := ends_perform_iff.mp hget
    obtain rfl := hstored.body download (List.mem_append_right _ (List.mem_append_right _
      List.mem_cons_self))
    have hdigest := of_ends_check hcheck
    rw [Bool.and_eq_true, beq_iff_eq, beq_iff_eq] at hdigest
    exact ⟨hlength.symm, hdigest.2.symm⟩

/-- An attempt that packs the same archive as the others completes the export. -/
theorem exportAccount_answered {r : Except ExportError Unit}
    (h : Ends (exportAccount host jobId leaseToken data) calls r)
    (hcalls : ∀ c ∈ calls, ¬ c.Failed) (hunchanged : Unchanged data payloads calls)
    (hstamps : SameStamps stamps calls)
    (hstored : StoresOnly (exportKey data.ownerUserId data.exportId)
      (exportArchive host data payloads stamps) calls) (hfits : Fits host data payloads stamps) :
    r = .ok () ∧ ⟨.completeAccountExport jobId leaseToken data.exportId
      (host.sha256 (exportArchive host data payloads stamps))
      (exportArchive host data payloads stamps).length, .ok ()⟩ ∈ calls := by
  obtain ⟨hcap, hlength⟩ := hfits
  have hroom := (Nat.le_add_right _ _).trans hcap
  rcases ends_andThen_iff.mp h with ⟨calls₁, _, rest, hfirst, h₁, rfl⟩ | ⟨e, he, rfl⟩
  swap
  · obtain ⟨_, hv⟩ := downloadPayloads_answered (fun _ => id) he hcalls hunchanged hstamps hroom
    cases hv
  have hleft := List.subset_append_left calls₁ rest
  obtain rfl := downloadPayloads_ok (fun _ => id) hfirst (hunchanged.mono hleft)
    (hstamps.mono hleft)
  obtain ⟨_, rest, rfl, h₂⟩ := ends_perform_andThen h₁ fun c hc =>
    hcalls c (List.mem_append_right _ hc)
  have hcalls₂ := fun c hc => hcalls c (List.mem_append_right _ (List.mem_cons_of_mem _ hc))
  have hstored₂ := hstored.sublist ((List.sublist_cons_self _ rest).trans
    (List.sublist_append_right calls₁ _))
  rw [exportArchive] at hcap
  simp only [bind_eq, decide_eq_true hcap, check, if_true, done_andThen] at h₂
  rcases ends_andThen_iff.mp h₂ with ⟨calls₂, _, last, hput, hlast, rfl⟩ | ⟨e, he, rfl⟩
  swap
  · cases putExportFile_answered he hcalls₂ hstored₂ hlength
  obtain rfl := ends_perform_iff.mp hlast
  cases r with
  | error e => exact absurd ⟨e, rfl⟩ (hcalls₂ _ (List.mem_append_right _ List.mem_cons_self))
  | ok a => exact ⟨rfl, List.mem_append_right _ (List.mem_cons_of_mem _ (List.mem_append_right _
      List.mem_cons_self))⟩

/-- An attempt whose requests are all answered completes the export. -/
theorem process_answered {r : Except ExportError Unit}
    (h : Ends (processAccountPurgeJob host jobId leaseToken) calls r)
    (hcalls : ∀ c ∈ calls, ¬ c.Failed) (hunchanged : Unchanged data payloads calls)
    (hstamps : SameStamps stamps calls)
    (hstored : StoresOnly (exportKey data.ownerUserId data.exportId)
      (exportArchive host data payloads stamps) calls) (hfits : Fits host data payloads stamps) :
    r = .ok () ∧ ⟨.completeAccountExport jobId leaseToken data.exportId
      (host.sha256 (exportArchive host data payloads stamps))
      (exportArchive host data payloads stamps).length, .ok ()⟩ ∈ calls := by
  obtain ⟨phase, _, rfl, h₁⟩ := ends_perform_andThen h hcalls
  have hcalls₁ := fun c hc => hcalls c (List.mem_cons_of_mem _ hc)
  obtain rfl := hunchanged.samePhase _ _ phase List.mem_cons_self
  obtain ⟨found, _, rfl, h₂⟩ := ends_perform_andThen h₁ hcalls₁
  have hcalls₂ := fun c hc => hcalls₁ c (List.mem_cons_of_mem _ hc)
  obtain rfl := hunchanged.sameData _ _ found (List.mem_cons_of_mem _ List.mem_cons_self)
  obtain ⟨made, rest, rfl, h₃⟩ := ends_perform_andThen h₂ hcalls₂
  have hcalls₃ := fun c hc => hcalls₂ c (List.mem_cons_of_mem _ hc)
  obtain ⟨calls₁, r₁, calls₂, hexport, hremove, rfl⟩ := ends_handle_iff.mp h₃
  have hsub := (((List.sublist_append_left calls₁ calls₂).cons
    ⟨.createDirAll found.exportId, .ok made⟩).cons
      ⟨.prepareAccountExport jobId leaseToken, .ok found⟩).cons
        ⟨.accountPurgePhase jobId leaseToken, .ok "export"⟩
  obtain ⟨rfl, hcompleted⟩ := exportAccount_answered hexport
    (fun c hc => hcalls₃ c (List.mem_append_left _ hc)) (hunchanged.mono hsub.subset)
    (hstamps.mono hsub.subset) (hstored.sublist hsub) hfits
  refine ⟨?_, hsub.subset hcompleted⟩
  obtain ⟨_, _, _, -, hend, -⟩ := ends_handle_iff.mp hremove
  exact (ends_done_iff.mp hend).2

/-! ## What an attempt calls -/

/-- What an attempt may call: it packs and stores one archive and deletes nothing, and it gives up
only after a request that failed. -/
def Allowed (host : ExportHost) (data : AccountExportData) (payloads : String → List UInt8)
    (stamps : ℕ → FileStamp) (before : List ExportCall) : ExportOp → Prop
  | .putObject key bytes =>
    key = exportKey data.ownerUserId data.exportId ∧
      bytes = exportArchive host data payloads stamps ∧ Fits host data payloads stamps
  | .writeArchive _ bytes => bytes = exportArchive host data payloads stamps
  | .deleteObject _ => False
  | .failAccountPurge .. =>
    StoresOnly (exportKey data.ownerUserId data.exportId) (exportArchive host data payloads stamps)
      before → Fits host data payloads stamps → ∃ c ∈ before, c.Failed
  | _ => True

/-- A call that is allowed if the calls before it have read what all attempts read. -/
def Conforms (host : ExportHost) (data : AccountExportData) (payloads : String → List UInt8)
    (stamps : ℕ → FileStamp) (before : List ExportCall) (op : ExportOp) : Prop :=
  Unchanged data payloads before → SameStamps stamps before →
    Allowed host data payloads stamps before op

variable {before : List ExportCall} {α : Type}

/-- After calls that have read something else, anything conforms. -/
theorem respects_of_not (h : ¬ (Unchanged data payloads before ∧ SameStamps stamps before))
    (x : ExportProgram α) : Respects (Conforms host data payloads stamps) before x := by
  induction x generalizing before with
  | done a => trivial
  | fail e => trivial
  | call op next ih =>
    refine ⟨fun hunchanged hstamps => absurd ⟨hunchanged, hstamps⟩ h, fun reply => ih reply ?_⟩
    rintro ⟨hunchanged, hstamps⟩
    exact h ⟨hunchanged.mono (List.subset_append_left _ _),
      hstamps.mono (List.subset_append_left _ _)⟩

/-- A check makes no call. -/
theorem respects_check {P : List ExportCall → ExportOp → Prop} {p : Bool} {e : ExportError} :
    Respects P before (check p e) := by cases p <;> trivial

/-- Neither does the reading of an optional value. -/
theorem respects_orFail {P : List ExportCall → ExportOp → Prop} {e : ExportError} {o : Option α} :
    Respects P before (orFail e o) := by cases o <;> trivial

/-- The download of a payload conforms to the export. -/
theorem respects_downloadPayload {exportId : Uuid} {index total : ℕ}
    {payload : AccountExportPayload} : Respects (Conforms host data payloads stamps) before
      (downloadPayload host jobId leaseToken exportId index total payload) := by
  refine (respects_perform fun _ _ => trivial).andThen fun _ _ _ => ?_
  refine (respects_perform fun _ _ => trivial).andThen fun _ _ _ => ?_
  refine respects_orFail.andThen fun _ _ _ => ?_
  refine respects_check.andThen fun _ _ _ => ?_
  refine respects_check.andThen fun _ _ _ => ?_
  exact (respects_perform fun _ _ => trivial).andThen fun _ _ _ => trivial

/-- So do the downloads of all payloads. -/
theorem respects_downloadPayloads {exportId : Uuid} {index total : ℕ}
    {rest : List AccountExportPayload} : Respects (Conforms host data payloads stamps) before
      (downloadPayloads host jobId leaseToken exportId index total rest) := by
  induction rest generalizing index total before with
  | nil => trivial
  | cons payload rest ih =>
    exact respects_downloadPayload.andThen fun _ _ _ => ih.andThen fun _ _ _ => trivial

/-- So does the check of the stored object. -/
theorem respects_verifyKeyHash {key expectedHash : String} {size : ℕ} :
    Respects (Conforms host data payloads stamps) before
      (verifyKeyHash host key expectedHash size) :=
  (respects_perform fun _ _ => trivial).andThen fun _ _ _ => respects_check

/-- So does the storing of the archive, when it fits the space for temporary files. -/
theorem respects_putExportFile {expectedHash : String}
    (hroom : data.manifest.length + payloadBytes payloads data.payloads +
      (exportArchive host data payloads stamps).length ≤ host.maxTempBytes) :
    Respects (Conforms host data payloads stamps) before (putExportFile host data.ownerUserId
      data.exportId expectedHash (exportArchive host data payloads stamps)) := by
  refine (respects_perform fun _ _ => trivial).andThen fun _ existing _ => ?_
  cases existing with
  | some existing => exact respects_check.andThen fun _ _ _ => respects_verifyKeyHash
  | none =>
    refine respects_check.andThen fun _ _ hcheck => ?_
    have hfits : Fits host data payloads stamps := ⟨hroom, of_decide_eq_true (of_ends_check hcheck)⟩
    refine (respects_perform fun _ _ => ⟨rfl, rfl, hfits⟩).andThen fun _ _ _ => ?_
    refine (respects_perform fun _ _ => trivial).andThen fun _ _ _ => ?_
    refine respects_orFail.andThen fun _ _ _ => ?_
    exact respects_check.andThen fun _ _ _ => respects_verifyKeyHash

/-- So does the whole export. -/
theorem respects_exportAccount : Respects (Conforms host data payloads stamps) before
    (exportAccount host jobId leaseToken data) := by
  refine respects_downloadPayloads.andThen fun calls v hv => ?_
  by_cases h : Unchanged data payloads (before ++ calls) ∧ SameStamps stamps (before ++ calls)
  swap
  · exact respects_of_not h _
  obtain rfl := downloadPayloads_ok (fun _ => id) hv (h.1.mono (List.subset_append_right _ _))
    (h.2.mono (List.subset_append_right _ _))
  refine (respects_perform fun _ _ => rfl).andThen fun _ _ _ => ?_
  refine respects_check.andThen fun _ _ hcheck => ?_
  refine (respects_putExportFile (of_decide_eq_true (of_ends_check hcheck))).andThen fun _ _ _ => ?_
  exact respects_perform fun _ _ => trivial

/-- So does the job of the purge. -/
theorem respects_processAccountPurgeJob : Respects (Conforms host data payloads stamps) before
    (processAccountPurgeJob host jobId leaseToken) := by
  refine (respects_perform fun _ _ => trivial).andThen fun _ (phase : String) hphase => ?_
  obtain rfl := ends_perform_iff.mp hphase
  by_cases hexport : phase = "export"
  swap
  · refine respects_of_not (fun h => hexport ?_) _
    exact h.1.samePhase _ _ phase (List.mem_append_right _ List.mem_cons_self)
  rw [if_pos hexport]
  refine (respects_perform fun _ _ => trivial).andThen
    fun _ (found : AccountExportData) hfound => ?_
  obtain rfl := ends_perform_iff.mp hfound
  by_cases hdata : found = data
  swap
  · refine respects_of_not (fun h => hdata ?_) _
    exact h.1.sameData _ _ found (List.mem_append_right _ List.mem_cons_self)
  rw [hdata]
  refine (respects_perform fun _ _ => trivial).andThen fun _ _ _ => ?_
  refine respects_exportAccount.handle fun _ _ _ => ?_
  exact (respects_perform fun _ _ => trivial).handle fun _ _ _ => respects_ofExcept _

/-- Every call of an attempt is allowed. -/
theorem respects_purgeAttempt : Respects (Conforms host data payloads stamps) []
    (purgeAttempt host jobId leaseToken) := by
  refine respects_processAccountPurgeJob.attempt.andThen fun calls r hr => ?_
  obtain ⟨r, hprocess, hr⟩ := ends_attempt_iff.mp hr
  cases hr
  cases r with
  | ok a => trivial
  | error e =>
    change Respects _ _ ((Persistence.failAccountPurge _ _ _).andThen fun _ => .fail e)
    refine (respects_perform fun hunchanged hstamps hstored hfits => ?_).andThen
      fun _ _ _ => trivial
    -- A job whose requests were all answered has not failed.
    by_contra hnone
    have hcalls : ∀ c ∈ calls, ¬ c.Failed := fun c hc hfailed => hnone ⟨c, hc, hfailed⟩
    cases (process_answered hprocess hcalls hunchanged hstamps hstored hfits).1

end

/-! ## The object -/

section

variable {host : ExportHost} {key : String} {archive : List UInt8} {s s' : ExportWorld}
  {calls : List ExportCall}

/-- What answers an operation. -/
theorem ExportStep.answer {op : ExportOp} {a : op.Reply} (h : ExportStep host key op s (.ok a) s') :
    ∃ t now stamp, t.objects key = s.objects key ∧ serve host now stamp op t = (.ok a, s') := by
  generalize hreply : Except.ok a = reply at h
  cases h with
  | answered hmeanwhile now stamp => exact ⟨_, now, stamp, hmeanwhile, rfl⟩
  | lost hmeanwhile => cases hreply
  | failed hmeanwhile => cases hreply

/-- A download is what is stored. -/
theorem ExportStep.download {download : PayloadDownload}
    (h : ExportStep host key (.getObject key) s (.ok download) s') :
    ∃ bytes, s.objects key = some bytes ∧ download = downloadOf bytes := by
  obtain ⟨t, now, stamp, hmeanwhile, hserve⟩ := h.answer
  have hreply := congrArg Prod.fst hserve
  rw [← hmeanwhile]
  cases hobject : t.objects key with
  | none => simp only [serve, hobject, Option.elim_none, reduceCtorEq] at hreply
  | some bytes =>
    simp only [serve, hobject, Option.elim_some] at hreply
    exact ⟨bytes, rfl, (Except.ok.inj hreply).symm⟩

/-- The size of what is stored. -/
theorem ExportStep.head {size : Option ℕ}
    (h : ExportStep host key (.headObject key) s (.ok size) s') :
    size = (s.objects key).map (·.length) := by
  obtain ⟨t, now, stamp, hmeanwhile, hserve⟩ := h.answer
  cases hserve
  rw [hmeanwhile]

/-- What has been sent is stored. -/
theorem ExportStep.put {bytes : List UInt8} {u : Unit}
    (h : ExportStep host key (.putObject key bytes) s (.ok u) s') :
    s'.objects key = some bytes := by
  obtain ⟨t, now, stamp, hmeanwhile, hserve⟩ := h.answer
  cases hserve
  exact Function.update_self ..

/-- Only sending and deleting the object change it. -/
theorem objects_serve {now : Timestamp} {stamp : FileStamp} {op : ExportOp}
    (hput : ∀ bytes, op = .putObject key bytes → bytes = archive)
    (hdelete : op ≠ .deleteObject key) :
    (serve host now stamp op s).2.objects key = s.objects key ∨
      (serve host now stamp op s).2.objects key = some archive := by
  cases op with
  | putObject k bytes =>
    by_cases hk : key = k
    · subst hk
      obtain rfl := hput bytes rfl
      exact .inr (Function.update_self ..)
    · exact .inl (Function.update_of_ne hk ..)
  | deleteObject k =>
    have hk : key ≠ k := fun h => hdelete (h ▸ rfl)
    exact .inl (Function.update_of_ne hk ..)
  | _ => exact .inl rfl

/-- An operation that sends nothing else leaves the object or the archive. -/
theorem ExportStep.objects {op : ExportOp} {reply : Except ExportError op.Reply}
    (h : ExportStep host key op s reply s')
    (hput : ∀ bytes, op = .putObject key bytes → bytes = archive)
    (hdelete : op ≠ .deleteObject key) :
    s'.objects key = s.objects key ∨ s'.objects key = some archive := by
  cases h with
  | answered hmeanwhile now stamp => exact hmeanwhile ▸ objects_serve hput hdelete
  | lost hmeanwhile now stamp => exact hmeanwhile ▸ objects_serve hput hdelete
  | failed hmeanwhile => exact .inl hmeanwhile

/-- What calls see of an object for which only one archive is sent. -/
theorem storesOnly_of_performs (h : Performs (ExportStep host key) s calls s')
    (hput : ∀ c ∈ calls, ∀ bytes, c.op = .putObject key bytes → bytes = archive)
    (hdelete : ∀ c ∈ calls, c.op ≠ .deleteObject key)
    (hs : s.objects key = none ∨ s.objects key = some archive) :
    StoresOnly key archive calls ∧
      (s.objects key = some archive → ⟨.headObject key, .ok none⟩ ∉ calls) := by
  -- By induction on the calls; the object is absent or the archive before each of them.
  induction h with
  | nil => exact ⟨⟨nofun, nofun, .nil⟩, nofun⟩
  | @cons op reply calls s s₁ s' hstep _ ih =>
    have hobject := hstep.objects (hput _ List.mem_cons_self) (hdelete _ List.mem_cons_self)
    have hs₁ : s₁.objects key = none ∨ s₁.objects key = some archive := by
      rcases hobject with hsame | hsome
      · rw [hsame]
        exact hs
      · exact .inr hsome
    obtain ⟨hrest, hthere⟩ := ih (fun c hc => hput c (List.mem_cons_of_mem _ hc))
      (fun c hc => hdelete c (List.mem_cons_of_mem _ hc)) hs₁
    refine ⟨⟨fun download hmem => ?_, fun size hmem => ?_, List.pairwise_cons.mpr
      ⟨fun c hc hop hok heq => ?_, hrest.there⟩⟩, fun hsome hmem => ?_⟩
    · rcases List.mem_cons.mp hmem with heq | hmem
      · cases heq
        obtain ⟨bytes, hbytes, rfl⟩ := hstep.download
        rcases hs with hnone | hsome
        · rw [hnone] at hbytes
          cases hbytes
        · rw [hsome] at hbytes
          cases hbytes
          rfl
      · exact hrest.body download hmem
    · rcases List.mem_cons.mp hmem with heq | hmem
      · cases heq
        have hsize := hstep.head
        rcases hs with hnone | hsome
        · rw [hnone] at hsize
          cases hsize
        · rw [hsome] at hsize
          cases hsize
          rfl
      · exact hrest.size size hmem
    · obtain rfl : op = .putObject key archive := hop
      cases reply with
      | error e => exact hok ⟨e, rfl⟩
      | ok u => exact hthere hstep.put (heq ▸ hc)
    · rcases List.mem_cons.mp hmem with heq | hmem
      · cases heq
        have hsize := hstep.head
        rw [hsome] at hsize
        cases hsize
      · refine hthere ?_ hmem
        rcases hobject with hsame | hstored
        · rw [hsame, hsome]
        · exact hstored

end

/-! ## Runs -/

section

variable {ι : Type} [DecidableEq ι] {host : ExportHost} {jobId : Uuid} {leaseToken : ι → Uuid}
  {data : AccountExportData} {payloads : String → List UInt8} {stamps : ℕ → FileStamp}
  {s s' : ExportWorld} {run : List (ι × ExportCall)}

/-- The attempts of a run converge: one that is made to its end without a failed request completes
the export, and one gives up only after a request that failed. -/
structure Converges (host : ExportHost) (jobId : Uuid) (leaseToken : ι → Uuid)
    (run : List (ι × ExportCall)) : Prop where
  completes : ∀ i r, (∀ c ∈ callsOf i run, ¬ c.Failed) →
    Ends (purgeAttempt host jobId (leaseToken i)) (callsOf i run) r →
      r = .ok () ∧ ∃ exportId contentHash size,
        ⟨.completeAccountExport jobId (leaseToken i) exportId contentHash size, .ok ()⟩ ∈
          callsOf i run
  givesUp : ∀ i before errorCode reply after, callsOf i run =
    before ++ ⟨.failAccountPurge jobId (leaseToken i) errorCode, reply⟩ :: after →
      ∃ c ∈ before, c.Failed

/-- Every call in a run is allowed by the calls of its attempt before it. -/
theorem allowed_of_run {key : String} (hrun : Interleaves (ExportStep host key)
      (fun i => purgeAttempt host jobId (leaseToken i)) s run s')
    (hunchanged : Unchanged data payloads (run.map Prod.snd))
    (hstamps : SameStamps stamps (run.map Prod.snd)) {i : ι} {before after : List ExportCall}
    {c : ExportCall} (hcalls : callsOf i run = before ++ c :: after) :
    Allowed host data payloads stamps before c.op := by
  obtain ⟨y, hy⟩ := hrun.after i
  rw [hcalls] at hy
  have hsub := (sublist_of_callsOf hcalls).subset
  exact respects_purgeAttempt.of_after hy (hunchanged.mono hsub) (hstamps.mono hsub)

/-- What all attempts of a run see of the object of their export. -/
theorem storesOnly_of_run (hrun : Interleaves
      (ExportStep host (exportKey data.ownerUserId data.exportId))
      (fun i => purgeAttempt host jobId (leaseToken i)) s run s')
    (hnew : s.objects (exportKey data.ownerUserId data.exportId) = none)
    (hunchanged : Unchanged data payloads (run.map Prod.snd))
    (hstamps : SameStamps stamps (run.map Prod.snd)) :
    StoresOnly (exportKey data.ownerUserId data.exportId)
      (exportArchive host data payloads stamps) (run.map Prod.snd) := by
  have hallowed : ∀ c ∈ run.map Prod.snd,
      ∃ before, Allowed host data payloads stamps before c.op := by
    intro c hc
    obtain ⟨⟨i, c⟩, hmem, rfl⟩ := List.mem_map.mp hc
    obtain ⟨before, after, hcalls⟩ := List.append_of_mem (mem_callsOf hmem)
    exact ⟨before, allowed_of_run hrun hunchanged hstamps hcalls⟩
  refine (storesOnly_of_performs hrun.performs (fun c hc bytes hop => ?_) (fun c hc hop => ?_)
    (.inl hnew)).1
  · obtain ⟨before, h⟩ := hallowed c hc
    rw [hop] at h
    exact h.2.1
  · obtain ⟨before, h⟩ := hallowed c hc
    rw [hop] at h
    exact h

/-- In every run of attempts of one export, in which one of them sends an archive and all of them
find the same data and the same payloads, the attempts converge if the temporary files of the
payloads have the same metadata in all of them. -/
theorem exports_converge (host : ExportHost) (jobId : Uuid) (leaseToken : ι → Uuid)
    (data : AccountExportData) (payloads : String → List UInt8) (stamps : ℕ → FileStamp)
    (s s' : ExportWorld) (run : List (ι × ExportCall))
    (hrun : Interleaves (ExportStep host (exportKey data.ownerUserId data.exportId))
      (fun i => purgeAttempt host jobId (leaseToken i)) s run s')
    (hnew : s.objects (exportKey data.ownerUserId data.exportId) = none)
    (hsent : ∃ key bytes reply, ⟨.putObject key bytes, reply⟩ ∈ run.map Prod.snd)
    (hunchanged : Unchanged data payloads (run.map Prod.snd))
    (hstamps : SameStamps stamps (run.map Prod.snd)) : Converges host jobId leaseToken run := by
  have hstored := storesOnly_of_run hrun hnew hunchanged hstamps
  -- The attempt that has sent the archive has seen that there is room for it.
  have hfits : Fits host data payloads stamps := by
    obtain ⟨key, bytes, reply, hmem⟩ := hsent
    obtain ⟨⟨i, c⟩, hmem, rfl⟩ := List.mem_map.mp hmem
    obtain ⟨before, after, hcalls⟩ := List.append_of_mem (mem_callsOf hmem)
    exact (allowed_of_run hrun hunchanged hstamps hcalls).2.2
  refine ⟨fun i r hcalls hends => ?_, fun i before errorCode reply after hcalls => ?_⟩
  · rcases ends_andThen_iff.mp hends with ⟨calls₁, a, calls₂, hprocess, hrest, heq⟩ | ⟨e, he, -⟩
    · obtain ⟨r₁, hprocess, ha⟩ := ends_attempt_iff.mp hprocess
      cases ha
      have hsub := sublist_of_callsOf heq
      rw [heq] at hcalls
      obtain ⟨rfl, hcompleted⟩ := process_answered hprocess
        (fun c hc => hcalls c (List.mem_append_left _ hc)) (hunchanged.mono hsub.subset)
        (hstamps.mono hsub.subset) (hstored.sublist hsub) hfits
      rw [heq]
      exact ⟨(ends_done_iff.mp hrest).2, _, _, _, List.mem_append_left _ hcompleted⟩
    · obtain ⟨_, -, he⟩ := ends_attempt_iff.mp he
      cases he
  · exact allowed_of_run hrun hunchanged hstamps hcalls
      (hstored.sublist (sublist_of_callsOf hcalls)) hfits

end

/-! ## Two attempts -/

/-- A host with short digests and archives. -/
def sampleExportHost : ExportHost where
  sha256 bytes := String.ofList (bytes.map fun b => Char.ofNat b.toNat)
  jsonBytes _ := [123, 125]
  jsonTime _ := "2000-01-01T00:00:00+00:00"
  tar files := files.flatMap fun f =>
    [f.stamp.modified, f.stamp.mode, f.stamp.uid, f.stamp.gid].map UInt8.ofNat ++ f.bytes
  zstd bytes := bytes
  maxTempBytes := 2 * 1024 * 1024 * 1024
  maxTempBytes_lt := by decide

/-- The job of an export, leased by the worker with a token. -/
def sampleJob (leaseToken : Uuid) : JobRow :=
  (JobRow.new 1 .accountPurge 2 none
    (.obj [("phase", .str "export"), ("exportId", (3 : Uuid).toJson)]) 0).claimed 0 leaseToken

/-- The export of this job. -/
def sampleExport : AccountExport where
  id := 3
  userId := 2
  jobId := 1
  objectKey := exportKey 2 3
  contentHash := none
  sizeBytes := none
  status := .pending
  createdAt := 0
  expiresAt := seconds 1000
  completedAt := none

/-- The SHA-256 digest of the only payload of the account. -/
def sampleContentHash : String :=
  "ca358758f6d27e6cf45272937977a748fd88391db679ceda7dc7bf1f005ee879"

/-- The only payload of the account. -/
def samplePayload : PayloadRow where
  id := 4
  projectId := 5
  ownerUserId := 2
  contentHash := sampleContentHash
  bucket := "bucket"
  objectKey := "payload"
  sizeBytes := 1
  mediaType := "text/plain"
  createdAt := 0

/-- What the worker with a token finds when it starts. -/
def sampleWorld (leaseToken : Uuid) (objects : String → Option (List UInt8)) : ExportWorld where
  db := ⟨{ Db.initial [⟨2, .user, .active⟩] with payloads := [samplePayload] },
    [sampleJob leaseToken], [sampleExport]⟩
  devices := []
  changeLog := []
  objects := objects

/-- The data of this export. -/
def sampleData : AccountExportData where
  exportId := 3
  ownerUserId := 2
  objectKey := exportKey 2 3
  manifest := [123, 125]
  payloads :=
    [⟨"payload", "payloads/00000000-0000-0000-0000-000000000005/" ++ sampleContentHash⟩]

/-- The objects before the first attempt. -/
def sampleObjects : String → Option (List UInt8) :=
  Function.update (fun _ => none) "payload" (some [7])

/-- The metadata of a file that was changed at a time. -/
def sampleStamp (modified : ℕ) : FileStamp := ⟨modified, 0o600, 1000, 1000⟩

/-- The archive of an attempt that writes its file at a time. -/
def sampleArchive (modified : ℕ) : List UInt8 :=
  exportArchive sampleExportHost sampleData (fun _ => [7]) fun _ => sampleStamp modified

/-- What an attempt calls until it has packed its archive. -/
def callsUntilPacked (leaseToken : Uuid) (modified : ℕ) : List ExportCall :=
  [⟨.accountPurgePhase 1 leaseToken, .ok "export"⟩,
    ⟨.prepareAccountExport 1 leaseToken, .ok sampleData⟩, ⟨.createDirAll 3, .ok ()⟩,
    ⟨.renewAccountPurgeLease 1 leaseToken, .ok ()⟩, ⟨.getObject "payload", .ok (downloadOf [7])⟩,
    ⟨.createPrivateFile 3 0 [7], .ok (sampleStamp modified)⟩,
    ⟨.writeArchive 3 (sampleArchive modified), .ok ()⟩]

/-- An attempt that stores its archive and then does not reach the database. -/
def callsOfFirst : List ExportCall :=
  callsUntilPacked 1 1 ++
    [⟨.headObject (exportKey 2 3), .ok none⟩,
      ⟨.putObject (exportKey 2 3) (sampleArchive 1), .ok ()⟩,
      ⟨.headObject (exportKey 2 3), .ok (some (sampleArchive 1).length)⟩,
      ⟨.getObject (exportKey 2 3), .ok (downloadOf (sampleArchive 1))⟩,
      ⟨.completeAccountExport 1 1 3 (sampleExportHost.sha256 (sampleArchive 1))
        (sampleArchive 1).length, .error .unavailable⟩,
      ⟨.removeDirAll 3, .ok ()⟩, ⟨.failAccountPurge 1 1 "ACCOUNT_PURGE_FAILED", .ok ()⟩]

/-- A later attempt that finds its own archive. -/
def callsOfSame : List ExportCall :=
  callsUntilPacked 2 1 ++
    [⟨.headObject (exportKey 2 3), .ok (some (sampleArchive 1).length)⟩,
      ⟨.getObject (exportKey 2 3), .ok (downloadOf (sampleArchive 1))⟩,
      ⟨.completeAccountExport 1 2 3 (sampleExportHost.sha256 (sampleArchive 1))
        (sampleArchive 1).length, .ok ()⟩, ⟨.removeDirAll 3, .ok ()⟩]

/-- A later attempt that finds another archive. -/
def callsOfOther : List ExportCall :=
  callsUntilPacked 2 2 ++
    [⟨.headObject (exportKey 2 3), .ok (some (sampleArchive 1).length)⟩,
      ⟨.getObject (exportKey 2 3), .ok (downloadOf (sampleArchive 1))⟩, ⟨.removeDirAll 3, .ok ()⟩,
      ⟨.failAccountPurge 1 2 "ACCOUNT_PURGE_FAILED", .ok ()⟩]

/-- Answers at the time 1, except that the first attempt cannot complete its export. -/
def sampleServe (modified : ℕ) : (op : ExportOp) → ExportWorld →
    Except ExportError op.Reply × ExportWorld
  | .completeAccountExport _ 1 .., w => (.error .unavailable, w)
  | op, w => serve sampleExportHost 1 (sampleStamp modified) op w

/-- What all these attempts read. -/
theorem unchanged_sample : Unchanged sampleData (fun _ => [7])
    (callsOfFirst ++ (callsOfSame ++ callsOfOther)) := by
  refine ⟨fun jobId leaseToken phase h => ?_, fun jobId leaseToken found h => ?_,
    fun payload hpayload download h => ?_⟩
  · simp only [callsOfFirst, callsOfSame, callsOfOther, callsUntilPacked, List.mem_append,
      List.mem_cons, Called.mk.injEq, reduceCtorEq, false_and, or_false,
      ExportOp.accountPurgePhase.injEq, List.not_mem_nil] at h
    rcases h with ⟨⟨rfl, rfl⟩, h⟩ | ⟨⟨rfl, rfl⟩, h⟩ | ⟨⟨rfl, rfl⟩, h⟩ <;>
      exact Except.ok.inj (eq_of_heq h)
  · simp only [callsOfFirst, callsOfSame, callsOfOther, callsUntilPacked, List.mem_append,
      List.mem_cons, Called.mk.injEq, reduceCtorEq, false_and, or_false, false_or,
      ExportOp.prepareAccountExport.injEq, List.not_mem_nil] at h
    rcases h with ⟨⟨rfl, rfl⟩, h⟩ | ⟨⟨rfl, rfl⟩, h⟩ | ⟨⟨rfl, rfl⟩, h⟩ <;>
      exact Except.ok.inj (eq_of_heq h)
  · obtain rfl := List.mem_singleton.mp hpayload
    have hkey : "payload" ≠ exportKey 2 3 := by decide
    simp only [callsOfFirst, callsOfSame, callsOfOther, callsUntilPacked, List.mem_append,
      List.mem_cons, Called.mk.injEq, reduceCtorEq, false_and, or_false, false_or,
      ExportOp.getObject.injEq, hkey, true_and, List.not_mem_nil] at h
    rcases h with h | h | h <;> exact Except.ok.inj (eq_of_heq h)

/-- The files of the first two attempts have the same metadata. -/
theorem sameStamps_sample : SameStamps (fun _ => sampleStamp 1) (callsOfFirst ++ callsOfSame) := by
  intro exportId index bytes stamp h
  simp only [callsOfFirst, callsOfSame, callsUntilPacked, List.mem_append, List.mem_cons,
    Called.mk.injEq, reduceCtorEq, false_and, or_false, false_or, List.not_mem_nil,
    ExportOp.createPrivateFile.injEq] at h
  rcases h with ⟨⟨rfl, rfl, rfl⟩, h⟩ | ⟨⟨rfl, rfl, rfl⟩, h⟩ <;> exact Except.ok.inj (eq_of_heq h)

/-- The answers are what the operations do. -/
theorem exportStep_sampleServe (modified : ℕ) (op : ExportOp) (s : ExportWorld) :
    ExportStep sampleExportHost (exportKey 2 3) op s (sampleServe modified op s).1
      (sampleServe modified op s).2 := by
  unfold sampleServe
  split
  · exact .failed rfl _
  · exact .answered rfl 1 (sampleStamp modified)

/-- Between two operations, others may have changed everything but the object. -/
theorem performs_meanwhile {host : ExportHost} {key : String} {c : ExportCall}
    {calls : List ExportCall} {s t s' : ExportWorld} (h : t.objects key = s.objects key)
    (hcalls : Performs (ExportStep host key) t (c :: calls) s') :
    Performs (ExportStep host key) s (c :: calls) s' := by
  cases hcalls with
  | cons hstep hrest =>
    refine .cons ?_ hrest
    cases hstep with
    | answered hmeanwhile now stamp => exact .answered (hmeanwhile.trans h) now stamp
    | lost hmeanwhile now stamp => exact .lost (hmeanwhile.trans h) now stamp _
    | failed hmeanwhile => exact .failed (hmeanwhile.trans h) _

/-- What the second attempt finds. -/
def secondWorld : ExportWorld :=
  sampleWorld 2 (Function.update sampleObjects (exportKey 2 3) (some (sampleArchive 1)))

/-- The first attempt, and after it a second one that writes its file at a time. -/
theorem interleaves_sample (modified : ℕ) {c : ExportCall} {calls : List ExportCall}
    (hsecond : (purgeAttempt sampleExportHost 1 2).record (sampleServe modified) secondWorld =
      c :: calls) :
    ∃ s', Interleaves (ExportStep sampleExportHost (exportKey 2 3))
      (fun leaseToken : Uuid => purgeAttempt sampleExportHost 1 leaseToken)
      (sampleWorld 1 sampleObjects) (callsOfFirst.map (1, ·) ++ (c :: calls).map (2, ·)) s' := by
  have hfirst : (purgeAttempt sampleExportHost 1 1).record (sampleServe 1)
      (sampleWorld 1 sampleObjects) = callsOfFirst := rfl
  have hperforms₁ := performs_record (exportStep_sampleServe 1) (purgeAttempt sampleExportHost 1 1)
    (sampleWorld 1 sampleObjects)
  have hperforms₂ := performs_record (exportStep_sampleServe modified)
    (purgeAttempt sampleExportHost 1 2) secondWorld
  have hends₁ := ends_record (sampleServe 1) (purgeAttempt sampleExportHost 1 1)
    (sampleWorld 1 sampleObjects)
  have hends₂ := ends_record (sampleServe modified) (purgeAttempt sampleExportHost 1 2)
    secondWorld
  rw [hfirst] at hperforms₁ hends₁
  rw [hsecond] at hperforms₂ hends₂
  have hmeanwhile : secondWorld.objects (exportKey 2 3) =
      ((purgeAttempt sampleExportHost 1 1).run (sampleServe 1)
        (sampleWorld 1 sampleObjects)).2.objects (exportKey 2 3) := rfl
  exact ⟨_, interleaves_of_two (by decide) hperforms₁ (performs_meanwhile hmeanwhile hperforms₂)
    ⟨_, hends₁⟩ ⟨_, hends₂⟩⟩

/-- The calls of two attempts, one after the other. -/
theorem map_snd_two {i j : Uuid} {calls calls' : List ExportCall} :
    (calls.map (i, ·) ++ calls'.map (j, ·)).map Prod.snd = calls ++ calls' := by
  rw [List.map_append, List.map_map, List.map_map]
  exact congrArg₂ _ (List.map_id _) (List.map_id _)

/-- An attempt that did not reach the database, and a later one whose file has the same metadata. -/
theorem exports_converge_sample : Converges sampleExportHost 1 (fun leaseToken : Uuid => leaseToken)
    (callsOfFirst.map (1, ·) ++ callsOfSame.map (2, ·)) := by
  have hsecond : (purgeAttempt sampleExportHost 1 2).record (sampleServe 1) secondWorld =
      callsOfSame := rfl
  obtain ⟨s', hrun⟩ := interleaves_sample 1 hsecond
  refine exports_converge sampleExportHost 1 _ sampleData (fun _ => [7]) (fun _ => sampleStamp 1)
    _ s'
    _ hrun (by decide) ⟨exportKey 2 3, sampleArchive 1, .ok (), ?_⟩ ?_ ?_
  · rw [map_snd_two]
    exact List.mem_append_left _ (List.mem_append_right _ (List.mem_cons_of_mem _
      List.mem_cons_self))
  · rw [map_snd_two]
    refine unchanged_sample.mono fun c hc => ?_
    rcases List.mem_append.mp hc with hc | hc
    · exact List.mem_append_left _ hc
    · exact List.mem_append_right _ (List.mem_append_left _ hc)
  · rw [map_snd_two]
    exact sameStamps_sample

/-- A later attempt whose file was changed at another time gives up after requests that were all
answered: it finds the archive of the first attempt, with another digest. -/
theorem exports_diverge : ∃ s s' run,
    Interleaves (ExportStep sampleExportHost (exportKey 2 3))
        (fun leaseToken : Uuid => purgeAttempt sampleExportHost 1 leaseToken) s run s' ∧
      s.objects (exportKey 2 3) = none ∧
      (∃ key bytes, ⟨.putObject key bytes, .ok ()⟩ ∈ run.map Prod.snd) ∧
      Unchanged sampleData (fun _ => [7]) (run.map Prod.snd) ∧
      ¬ Converges sampleExportHost 1 (fun leaseToken : Uuid => leaseToken) run := by
  have hsecond : (purgeAttempt sampleExportHost 1 2).record (sampleServe 2) secondWorld =
      callsOfOther := rfl
  obtain ⟨s', hrun⟩ := interleaves_sample 2 hsecond
  refine ⟨_, s', _, hrun, by decide, ⟨exportKey 2 3, sampleArchive 1, ?_⟩, ?_, fun h => ?_⟩
  · rw [map_snd_two]
    exact List.mem_append_left _ (List.mem_append_right _ (List.mem_cons_of_mem _
      List.mem_cons_self))
  · rw [map_snd_two]
    refine unchanged_sample.mono fun c hc => ?_
    rcases List.mem_append.mp hc with hc | hc
    · exact List.mem_append_left _ hc
    · exact List.mem_append_right _ (List.mem_append_right _ hc)
  · have hcalls : callsOf (2 : Uuid) (callsOfFirst.map ((1 : Uuid), ·) ++ callsOfOther.map (2, ·)) =
        callsOfOther := by
      rw [callsOf_append, callsOf_map_of_ne (by decide), callsOf_map_self, List.nil_append]
    obtain ⟨c, hc, e, he⟩ := h.givesUp 2 (callsOfOther.take 10) "ACCOUNT_PURGE_FAILED" (.ok ()) []
      (hcalls.trans rfl)
    have hanswered : (callsOfOther.take 10).all fun c => c.reply.isOk := rfl
    have hok := List.all_eq_true.mp hanswered c hc
    rw [he] at hok
    cases hok

end Exports

end TaskTipsCloud

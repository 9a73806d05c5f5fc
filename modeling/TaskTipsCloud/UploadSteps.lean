import TaskTipsCloud.Events
import TaskTipsCloud.SnapshotSteps
import TaskTipsCloud.Uploads

/-!
# Steps of uploads

What an upload does to the bucket and to the catalog, whatever becomes of its requests, and how a
push answers an item that names a payload.
-/

namespace TaskTipsCloud

open Txn

/-! ## The object store -/

section

variable {w w' : StoreWorld} {fate : Fate} {key finalKey temporaryKey : ObjectKey}

/-- A request that is answered was carried out. -/
theorem run_storeRequest_ok {write : ObjectStore → ObjectStore}
    (h : (storeRequest fate write).run w = (.ok (), w')) :
    w' = { w with objects := write w.objects } := by
  cases fate <;> cases h
  rfl

/-- A request is carried out or not. -/
theorem run_storeRequest_cases (fate : Fate) (write : ObjectStore → ObjectStore) (w : StoreWorld) :
    ((storeRequest fate write).run w).2 = w ∨
      ((storeRequest fate write).run w).2 = { w with objects := write w.objects } := by
  cases fate
  · exact .inr rfl
  · exact .inl rfl
  · exact .inr rfl

/-- The answer of the store leaves it. -/
theorem run_storeAnswer_snd {α : Type} (read : ObjectStore → α) :
    ((storeAnswer fate read).run w).2 = w := by
  unfold storeAnswer
  split <;> rfl

/-- An answer that arrives is what the store has. -/
theorem run_storeAnswer_ok {α : Type} {read : ObjectStore → α} {a : α}
    (h : (storeAnswer fate read).run w = (.ok a, w')) : w' = w ∧ read w.objects = a := by
  unfold storeAnswer at h
  split at h <;> cases h
  exact ⟨rfl, rfl⟩

/-- Checking an object changes nothing. -/
theorem run_verifyKeyHash_snd {s3 : ObjectHost} {expectedHash : String} {expectedSize : ℕ} :
    ((verifyKeyHash s3 fate key expectedHash expectedSize).run w).2 = w := by
  unfold verifyKeyHash
  rw [bind_eq, run_bind]
  have hsnd : ((storeAnswer fate (· key)).run w).2 = w := run_storeAnswer_snd _
  rcases hanswer : (storeAnswer fate (· key)).run w with ⟨_ | output, w₁⟩ <;> rw [hanswer] at hsnd
  · exact hsnd
  · obtain rfl : w₁ = w := hsnd
    cases output with
    | none => rfl
    | some output =>
      simp only [bind_eq, run_bind, run_orThrow, Option.elim_some, run_require]

/-- An object that passes the check has the digest and the size. -/
theorem run_verifyKeyHash_ok {s3 : ObjectHost} {expectedHash : String} {expectedSize : ℕ}
    (h : (verifyKeyHash s3 fate key expectedHash expectedSize).run w = (.ok (), w')) :
    w' = w ∧ ∃ o, w.objects key = some o ∧ o.bytes.length = expectedSize ∧
      s3.sha256 o.bytes = expectedHash := by
  simp only [verifyKeyHash, bind_eq, run_bind_ok_iff, run_orThrow_ok_iff, run_require_ok_iff,
    Bool.and_eq_true, beq_iff_eq] at h
  obtain ⟨_, _, hanswer, output, _, ⟨rfl, rfl⟩, ⟨hsize, hdigest⟩, rfl⟩ := h
  obtain ⟨rfl, houtput⟩ := run_storeAnswer_ok hanswer
  exact ⟨rfl, output, houtput, hsize, hdigest⟩

end

/-- What an upload did to the bucket: at the keys of payloads, it put its bytes where no object
was. -/
structure PutsPayload (finalKey : ObjectKey) (object : StoredObject) (w w' : StoreWorld) :
    Prop where
  db : w'.db = w.db
  others : ∀ owner p hash, .payload owner p hash ≠ finalKey →
    w'.objects (.payload owner p hash) = w.objects (.payload owner p hash)
  final : w'.objects finalKey = w.objects finalKey ∨
    w.objects finalKey = none ∧ w'.objects finalKey = some object

section

variable {s3 : ObjectHost} {fates : UploadFates} {owner p uploadId : Uuid}
  {hash mediaType : String} {bytes : List UInt8} {w w' : StoreWorld}

/-- The payloads stay when a temporary object changes. -/
theorem update_upload (objects : ObjectStore) (o : Option StoredObject) (owner' p' : Uuid) :
    Function.update objects (.upload owner p uploadId) o (.payload owner' p' hash) =
      objects (.payload owner' p' hash) := by
  have hne : ObjectKey.payload owner' p' hash ≠ .upload owner p uploadId := nofun
  exact Function.update_of_ne hne o objects

/-- A temporary object does not change which payload was stored. -/
theorem PutsPayload.temporary {object : StoredObject} (o : Option StoredObject)
    (h : PutsPayload (.payload owner p hash) object w w') :
    PutsPayload (.payload owner p hash) object w
      { w' with objects := Function.update w'.objects (.upload owner p uploadId) o } where
  db := h.db
  others _ _ _ hne := by
    dsimp only
    rw [update_upload]
    exact h.others _ _ _ hne
  final := by
    dsimp only
    rw [update_upload]
    exact h.final

/-- A request for the temporary object leaves the payloads. -/
theorem PutsPayload.run_storeRequest {object : StoredObject} {fate : Fate}
    {o : Option StoredObject} (h : PutsPayload (.payload owner p hash) object w w') :
    PutsPayload (.payload owner p hash) object w
      ((storeRequest fate (Function.update · (.upload owner p uploadId) o)).run w').2 := by
  rcases run_storeRequest_cases fate (Function.update · (.upload owner p uploadId) o) w'
      with h' | h'
  · rw [h']
    exact h
  · rw [h']
    exact h.temporary o

/-- Copying the temporary object puts it where no object was. -/
theorem putsPayload_copyObject {fate : Fate} (h : PutsPayload (.payload owner p hash)
      ⟨bytes, some mediaType⟩ w w') (hnone : w.objects (.payload owner p hash) = none)
    (htemporary : w'.objects (.upload owner p uploadId) = some ⟨bytes, some mediaType⟩) :
    PutsPayload (.payload owner p hash) ⟨bytes, some mediaType⟩ w
      ((copyObject fate (.payload owner p hash) (.upload owner p uploadId) mediaType).run w').2 :=
      by
  have hrun :
      (copyObject fate (.payload owner p hash) (.upload owner p uploadId) mediaType).run w' =
      (storeRequest fate (Function.update · (.payload owner p hash)
        (some ⟨bytes, some mediaType⟩))).run w' := by
    simp only [copyObject, bind_eq, query_bind, run_read, htemporary]
    rfl
  rw [hrun]
  rcases run_storeRequest_cases fate (Function.update · (.payload owner p hash)
    (some ⟨bytes, some mediaType⟩)) w' with h' | h'
  · rw [h']
    exact h
  · rw [h']
    exact
      { db := h.db
        others := fun _ _ _ hne => (Function.update_of_ne hne _ _).trans (h.others _ _ _ hne)
        final := .inr ⟨hnone, Function.update_self _ _ _⟩ }

/-- Storing a payload file, whatever becomes of its requests. -/
theorem putsPayload_storePayloadFile (hnone : w.objects (.payload owner p hash) = none) :
    PutsPayload (.payload owner p hash) ⟨bytes, some mediaType⟩ w
      ((storePayloadFile s3 fates (.payload owner p hash) (.upload owner p uploadId) hash mediaType
        bytes).run w).2 := by
  have hrefl : PutsPayload (.payload owner p hash) ⟨bytes, some mediaType⟩ w w :=
    ⟨rfl, fun _ _ _ _ => rfl, .inl rfl⟩
  unfold storePayloadFile
  refine run_bind_snd hrefl.run_storeRequest fun _ w₁ hput h₁ => ?_
  have htemporary : w₁.objects (.upload owner p uploadId) = some ⟨bytes, some mediaType⟩ := by
    rw [run_storeRequest_ok hput]
    exact Function.update_self _ _ _
  refine run_bind_snd ?_ fun copied w₂ _ h₂ => run_bind_snd ?_ fun _ w₃ _ h₃ => ?_
  · rw [run_attempt]
    exact putsPayload_copyObject h₁ hnone htemporary
  · rw [run_attempt]
    exact h₂.run_storeRequest
  · -- What follows only reads.
    refine run_bind_snd (by rw [run_require]; exact h₃) fun _ w₄ _ h₄ => ?_
    refine run_bind_snd (by rw [headKey, run_storeAnswer_snd]; exact h₄) fun _ w₅ _ h₅ => ?_
    refine run_bind_snd (by rw [run_orThrow]; exact h₅) fun _ w₆ _ h₆ => ?_
    refine run_bind_snd (by rw [run_require]; exact h₆) fun _ w₇ _ h₇ => ?_
    exact run_bind_snd (by rw [run_verifyKeyHash_snd]; exact h₇) fun _ _ _ h₈ => h₈

/-- What is returned for a payload: its object is there and has the digest. -/
structure ReturnsPayload (s3 : ObjectHost) (finalKey : ObjectKey) (hash mediaType : String)
    (w : StoreWorld) (info : PayloadInfo) (o : StoredObject) : Prop where
  object : w.objects finalKey = some o
  digest : s3.sha256 o.bytes = hash
  contentHash : info.contentHash = hash
  size : info.size = o.bytes.length
  mediaType : info.mediaType = o.mediaType.getD mediaType

/-- The answer about an object is its length and its type. -/
theorem run_headKey_ok {fate : Fate} {key : ObjectKey} {found : Option (ℕ × Option String)}
    (h : (headKey fate key).run w = (.ok found, w')) :
    w' = w ∧ found = (w.objects key).map fun o => (o.bytes.length, o.mediaType) := by
  obtain ⟨rfl, hfound⟩ := run_storeAnswer_ok h
  exact ⟨rfl, hfound.symm⟩

/-- A payload that was stored is returned as it is stored. -/
theorem run_storePayloadFile_ok {finalKey temporaryKey : ObjectKey} {info : PayloadInfo}
    (h : (storePayloadFile s3 fates finalKey temporaryKey hash mediaType bytes).run w =
      (.ok info, w')) : ∃ o, ReturnsPayload s3 finalKey hash mediaType w' info o := by
  simp only [storePayloadFile, bind_eq, pure_eq, run_bind_ok_iff, run_require_ok_iff,
    run_orThrow_ok_iff, run_pure_ok_iff] at h
  obtain ⟨_, w₁, -, _, w₂, -, _, w₃, -, _, _, ⟨-, rfl⟩, _, _, hhead, stored, _,
    ⟨hstored, rfl⟩, _, _, ⟨-, rfl⟩, _, _, hverify, rfl, rfl⟩ := h
  obtain ⟨rfl, rfl⟩ := run_headKey_ok hhead
  obtain ⟨rfl, o, ho, hsize, hdigest⟩ := run_verifyKeyHash_ok hverify
  rw [ho, Option.map_some, Option.some.injEq] at hstored
  subst hstored
  exact ⟨o, ho, hdigest, rfl, rfl, rfl⟩

/-- Putting a payload file, whatever becomes of its requests. -/
theorem putsPayload_putPayloadFile : PutsPayload (.payload owner p hash) ⟨bytes, some mediaType⟩ w
    ((putPayloadFile s3 fates owner p uploadId hash mediaType bytes).run w).2 := by
  have hrefl : PutsPayload (.payload owner p hash) ⟨bytes, some mediaType⟩ w w :=
    ⟨rfl, fun _ _ _ _ => rfl, .inl rfl⟩
  unfold putPayloadFile
  refine run_bind_snd (by rw [headKey, run_storeAnswer_snd]; exact hrefl)
    fun found w₁ hhead h₁ => ?_
  obtain ⟨rfl, rfl⟩ := run_headKey_ok hhead
  cases ho : w₁.objects (.payload owner p hash) with
  | some o => exact run_bind_snd (by rw [run_verifyKeyHash_snd]; exact hrefl) fun _ _ _ h₂ => h₂
  | none => exact putsPayload_storePayloadFile ho

/-- The upload of a payload stores it or leaves the store. -/
theorem putsPayload_of_run {r : Except UploadError PayloadInfo}
    (h : (putPayloadFile s3 fates owner p uploadId hash mediaType bytes).run w = (r, w')) :
    PutsPayload (.payload owner p hash) ⟨bytes, some mediaType⟩ w w' := by
  rw [show w' = _ from (congrArg Prod.snd h).symm]
  exact putsPayload_putPayloadFile

/-- A payload that was put is returned as it is stored. -/
theorem run_putPayloadFile_ok {info : PayloadInfo}
    (h : (putPayloadFile s3 fates owner p uploadId hash mediaType bytes).run w = (.ok info, w')) :
    ∃ o, ReturnsPayload s3 (.payload owner p hash) hash mediaType w' info o := by
  obtain ⟨found, w₁, hhead, h⟩ := run_bind_ok_iff.mp h
  obtain ⟨rfl, rfl⟩ := run_headKey_ok hhead
  cases ho : w₁.objects (.payload owner p hash) with
  | none =>
    rw [ho] at h
    exact run_storePayloadFile_ok h
  | some o =>
    rw [ho] at h
    simp only [Option.map_some, bind_eq, pure_eq, run_bind_ok_iff, run_pure_ok_iff] at h
    obtain ⟨_, _, hverify, rfl, rfl⟩ := h
    obtain ⟨rfl, o', ho', hsize, hdigest⟩ := run_verifyKeyHash_ok hverify
    cases ho.symm.trans ho'
    exact ⟨o, ho, hdigest, rfl, rfl, rfl⟩

end

/-! ## The catalog -/

/-- The row that an upload registers. -/
def payloadRow (now : Timestamp) (userId projectId payloadId : Uuid) (payload : StoredPayload) :
    PayloadRow where
  id := payloadId
  projectId := projectId
  ownerUserId := userId
  contentHash := payload.contentHash
  bucket := payload.bucket
  objectKey := payload.objectKey
  sizeBytes := payload.size
  mediaType := payload.mediaType
  createdAt := now

/-- The project and the digest of a payload. -/
def PayloadRow.key (x : PayloadRow) : Uuid × String := (x.projectId, x.contentHash)

/-- The payload of a project with a digest. -/
def Db.payloadOf (d : Db) (p : Uuid) (hash : String) : Option PayloadRow := d.payload .worker p hash

section

variable {d d' : Db} {p : Uuid} {hash : String} {x : PayloadRow} {now : Timestamp}
  {host : Host}

/-- A payload is found by its key. -/
theorem Db.payloadOf_eq_find? : d.payloadOf p hash = d.payloads.find? (·.key == (p, hash)) := by
  unfold Db.payloadOf Db.payload
  change Option.filter (fun _ => true) (d.payloads.find? (·.key == (p, hash))) = _
  cases d.payloads.find? (·.key == (p, hash)) <;> rfl

/-- A payload that is found is in the catalog. -/
theorem Db.mem_of_payloadOf (h : d.payloadOf p hash = some x) :
    x ∈ d.payloads ∧ x.projectId = p ∧ x.contentHash = hash := by
  rw [Db.payloadOf_eq_find?] at h
  have hkey := List.find?_some h
  rw [beq_iff_eq, PayloadRow.key, Prod.mk.injEq] at hkey
  exact ⟨List.mem_of_find?_eq_some h, hkey⟩

/-- What a registration does: the payload is there already, or its row is added. -/
theorem execute_registerPayload {userId payloadId : Uuid} {payload : StoredPayload}
    {r : Except PersistenceError Unit}
    (h : (registerPayload now userId p payloadId payload).execute d = (r, d')) :
    (d' = d ∧ (r = .ok () → (d.payloadOf p payload.contentHash).isSome ∧
      (visibleProject (.app userId) p d).isSome)) ∨
      d.payloadOf p payload.contentHash = none ∧ r = .ok () ∧
        (visibleProject (.app userId) p d).isSome ∧
        d' = { d with payloads := d.payloads ++ [payloadRow now userId p payloadId payload] } := by
  rcases execute_cases h with hrun | ⟨rfl, e, _, -, rfl⟩
  · simp only [registerPayload, bind_eq, acquire_bind, run_lock, run_bind_ok_iff,
      run_selectForUpdate, run_orThrow_ok_iff, run_require_ok_iff, run_query, Prod.mk.injEq,
      Except.ok.injEq] at hrun
    obtain ⟨_, _, ⟨rfl, rfl⟩, row, _, ⟨hrow, rfl⟩, _, _, ⟨-, rfl⟩, _, _, ⟨rfl, rfl⟩, hrun⟩ := hrun
    split at hrun
    · rename_i hany
      obtain ⟨rfl, rfl⟩ := run_pure_ok_iff.mp hrun
      refine .inl ⟨rfl, fun _ => ⟨?_, by rw [hrow]; rfl⟩⟩
      rw [Db.payloadOf_eq_find?, List.find?_isSome]
      simpa [PayloadRow.key] using hany
    · rename_i hany
      simp only [run_bind_ok_iff, pure_eq, run_pure_ok_iff] at hrun
      obtain ⟨_, _, hinsert, rfl, rfl⟩ := hrun
      obtain ⟨-, rfl⟩ := run_insertRow_ok_iff.mp hinsert
      refine .inr ⟨?_, rfl, by rw [hrow]; rfl, rfl⟩
      rw [Db.payloadOf_eq_find?, List.find?_eq_none]
      simpa [PayloadRow.key] using hany
  · exact .inl ⟨rfl, nofun⟩

/-- A collection of payloads removes rows only. -/
theorem execute_collectPayload {olderThan : Timestamp} {r : Except PersistenceError Unit}
    (h : (collectPayload p hash olderThan).execute d = (r, d')) :
    d'.payloads.Sublist d.payloads := by
  rcases execute_cases h with hrun | ⟨rfl, -⟩
  · simp only [collectPayload, bind_eq, acquire_bind, query_bind, run_lock, run_read] at hrun
    split at hrun
    · cases hrun
      exact .refl _
    · rw [run_bind, run_selectForUpdate] at hrun
      dsimp only at hrun
      split at hrun
      · cases hrun
        exact .refl _
      · cases hrun
        exact List.filter_sublist
  · exact .refl _

/-- What a call did to the payloads. -/
inductive PayloadsStep (q : Request) (d d' : Db) : Prop
  | removed (h : d'.payloads.Sublist d.payloads)
  | added {userId projectId payloadId : Uuid} {payload : StoredPayload} {x : PayloadRow}
      (hcall : q.call = .registerPayload userId projectId payloadId payload)
      (hnew : d.payloadOf x.projectId x.contentHash = none)
      (hproject : (visibleProject (.app x.ownerUserId) x.projectId d).isSome)
      (h : d'.payloads = d.payloads ++ [x])

/-- A database whose payloads are of the owners of their projects, one for each digest. -/
structure Db.Catalogued (d : Db) : Prop where
  sound : d.Sound
  owned : ∀ x ∈ d.payloads,
    ∃ row, d.project x.projectId = some row ∧ row.ownerUserId = x.ownerUserId
  unique : (d.payloads.map PayloadRow.key).Nodup

/-- The empty catalog is one. -/
theorem Db.catalogued_initial (users : List UserRow) : (Db.initial users).Catalogued :=
  ⟨sound_initial users, fun _ hx => absurd hx List.not_mem_nil, .nil⟩

/-- What a call that is served alone did to the payloads. -/
theorem payloadsStep_alone (host : Host) (hd : d.Sound) (q : Request) :
    PayloadsStep q d ((service host).alone q d).after := by
  have heffect : EventEffect host ((service host).alone q d) :=
    eventEffect_of_outcome hd (Service.outcome_alone (fun H => .refl hd H) q)
  obtain ⟨now, call⟩ := q
  cases call with
  | registerPayload userId projectId payloadId payload =>
    have hafter : ((service host).alone ⟨now, .registerPayload userId projectId payloadId payload⟩
        d).after = ((registerPayload now userId projectId payloadId payload).execute d).2 :=
      congrArg Prod.snd (execute_bind_map _ d)
    rw [hafter]
    rcases hregister : (registerPayload now userId projectId payloadId payload).execute d with
      ⟨r, d'⟩
    rcases execute_registerPayload hregister with ⟨rfl, -⟩ | ⟨hnew, -, hproject, rfl⟩
    · exact .removed (.refl _)
    · exact .added rfl hnew hproject rfl
  | collectPayload projectId contentHash olderThan =>
    have hafter : ((service host).alone ⟨now, .collectPayload projectId contentHash olderThan⟩
        d).after = ((collectPayload projectId contentHash olderThan).execute d).2 :=
      congrArg Prod.snd (execute_bind_map _ d)
    rw [hafter]
    exact .removed (execute_collectPayload rfl)
  | _ =>
    refine .removed ?_
    rw [heffect.touches.payloads (by simp [Service.alone, Call.tables])]
    exact .refl _

/-- Every call that is served alone keeps a database catalogued. -/
theorem Db.Catalogued.alone (hd : d.Catalogued) (q : Request) :
    ((service host).alone q d).after.Catalogued := by
  have hout : (service host).Outcome Db.Rely ((service host).alone q d) :=
    Service.outcome_alone (fun H => .refl hd.sound H) q
  have hkept : ∀ {p row}, d.project p = some row →
      ∃ row', ((service host).alone q d).after.project p = some row' ∧
        row'.ownerUserId = row.ownerUserId :=
    fun hrow => ((eventEffect_of_outcome hd.sound hout).projectStep _).owner hrow
  have howned : ∀ x ∈ d.payloads, ∃ row,
      ((service host).alone q d).after.project x.projectId = some row ∧
        row.ownerUserId = x.ownerUserId := by
    intro x hx
    obtain ⟨row, hrow, howner⟩ := hd.owned x hx
    obtain ⟨row', hrow', howner'⟩ := hkept hrow
    exact ⟨row', hrow', howner'.trans howner⟩
  have hsound := (relies_service host).inv_of_outcome trivial hd.sound hout
  rcases payloadsStep_alone host hd.sound q with h | ⟨hcall, hnew, hproject, h⟩
  · exact ⟨hsound, fun x hx => howned x (h.subset hx), hd.unique.sublist (h.map _)⟩
  · refine ⟨hsound, fun y hy => ?_, ?_⟩
    · rw [h] at hy
      rcases List.mem_append.mp hy with hy | hy
      · exact howned y hy
      · obtain rfl := List.mem_singleton.mp hy
        obtain ⟨row, hrow⟩ := Option.isSome_iff_exists.mp hproject
        obtain ⟨hrow, howner⟩ := visibleProject_eq_some_iff.mp hrow
        obtain ⟨row', hrow', howner'⟩ := hkept hrow
        exact ⟨row', hrow', howner'.trans (beq_iff_eq.mp howner)⟩
    · rw [h]
      refine nodup_map_concat hd.unique fun y hy heq => ?_
      rw [Db.payloadOf_eq_find?, List.find?_eq_none] at hnew
      exact hnew y hy (beq_iff_eq.mpr heq)

/-- A payload of a project that a user owns is the user's. -/
theorem Db.Catalogued.payload_app (hd : d.Catalogued) {userId : Uuid}
    (hproject : (visibleProject (.app userId) p d).isSome) :
    d.payload (.app userId) p hash = d.payloadOf p hash := by
  obtain ⟨row, hrow⟩ := Option.isSome_iff_exists.mp hproject
  obtain ⟨hrow, howner⟩ := visibleProject_eq_some_iff.mp hrow
  cases hx : d.payloadOf p hash with
  | none =>
    rw [Db.payloadOf_eq_find?] at hx
    unfold Db.payload
    rw [show (d.payloads.find? fun x => x.projectId == p && x.contentHash == hash) = none from hx]
    rfl
  | some x =>
    obtain ⟨hmem, rfl, -⟩ := Db.mem_of_payloadOf hx
    obtain ⟨row', hrow', howner'⟩ := hd.owned x hmem
    cases hrow.symm.trans hrow'
    rw [Db.payloadOf_eq_find?] at hx
    unfold Db.payload
    rw [show
        (d.payloads.find? fun y => y.projectId == x.projectId && y.contentHash == hash) = some x
      from hx]
    exact Option.filter_some_pos (howner' ▸ howner)

/-- A payload that stays catalogued keeps its row. -/
theorem Db.Catalogued.payloadOf_alone (hd : d.Catalogued) (q : Request)
    (hx : d.payloadOf p hash = some x)
    (hkept : (((service host).alone q d).after.payloadOf p hash).isSome) :
    ((service host).alone q d).after.payloadOf p hash = some x := by
  obtain ⟨y, hy⟩ := Option.isSome_iff_exists.mp hkept
  rw [hy, Option.some.injEq]
  rcases payloadsStep_alone host hd.sound q with h | ⟨hcall, hnew, hproject, h⟩
  · obtain ⟨hmem, hkey⟩ := Db.mem_of_payloadOf hy
    obtain ⟨hmem', hkey'⟩ := Db.mem_of_payloadOf hx
    refine List.inj_on_of_nodup_map hd.unique (h.subset hmem) hmem' ?_
    exact Prod.ext (hkey.1.trans hkey'.1.symm) (hkey.2.trans hkey'.2.symm)
  · rw [Db.payloadOf_eq_find?] at hx hy
    rw [h, List.find?_append, hx] at hy
    exact (Option.some.inj hy).symm

end

/-! ## The route -/

section

variable {host : Host} {s3 : ObjectHost} {now : Timestamp} {u : UploadRequest}
  {w w' : StoreWorld}

/-- A transaction runs on the database of the world. -/
theorem run_onDatabase {α : Type} (x : Tx (Except PersistenceError α)) (w : StoreWorld) :
    (onDatabase x).run w =
      ((x.execute w.db).1.mapError .persistence, { w with db := (x.execute w.db).2 }) := by
  unfold onDatabase
  simp only [bind_eq, query_bind, run_read, modify_bind, run_write]
  cases (x.execute w.db).1 <;> rfl

/-- It succeeds when the transaction does. -/
theorem run_onDatabase_ok {α : Type} {x : Tx (Except PersistenceError α)} {a : α}
    (h : (onDatabase x).run w = (.ok a, w')) :
    ∃ d, x.execute w.db = (.ok a, d) ∧ w' = { w with db := d } := by
  rw [run_onDatabase, Prod.mk.injEq] at h
  obtain ⟨hresult, rfl⟩ := h
  rcases hx : x.execute w.db with ⟨_ | b, d⟩
  · rw [hx] at hresult
    cases hresult
  · rw [hx] at hresult
    cases hresult
    exact ⟨d, rfl, rfl⟩

/-- Looking at a project changes nothing. -/
theorem execute_validateSyncProject (userId p : Uuid) (d : Db) :
    ((validateSyncProject userId p).execute d).2 = d := by
  rcases h : (validateSyncProject userId p).execute d with ⟨r, d'⟩
  rcases execute_cases h with hrun | ⟨rfl, -⟩
  · obtain ⟨_, _, hstate, hend⟩ := run_bind_ok_iff.mp hrun
    obtain ⟨rfl, -⟩ := run_projectState hstate
    exact (run_pure_ok_iff.mp hend).2.symm
  · rfl

/-- The key of the object of an upload. -/
def UploadRequest.key (u : UploadRequest) : ObjectKey := .payload u.userId u.projectId u.contentHash

/-- What an upload hands over to the catalog. -/
def PayloadInfo.stored (info : PayloadInfo) : StoredPayload where
  contentHash := info.contentHash
  bucket := info.bucket
  objectKey := info.key.text
  size := info.size
  mediaType := info.mediaType

/-- The registration that an upload ends with. -/
def UploadRequest.registration (u : UploadRequest) (now : Timestamp) (info : PayloadInfo) :
    Tx (Except PersistenceError Unit) :=
  registerPayload now u.userId u.projectId u.payloadId info.stored

/-- What an upload did, however it ended: it put its object where none was, and registered the row
that the object store returned. -/
inductive UploadStep (s3 : ObjectHost) (now : Timestamp) (u : UploadRequest) (w w' : StoreWorld) :
    Prop
  | refused (h : w' = w)
  | put {m : String} (hmedia : u.mediaType = some m) (hdigest : s3.sha256 u.bytes = u.contentHash)
      (hputs : PutsPayload u.key ⟨u.bytes, some m⟩ w w')
  | registered {m : String} {w₁ : StoreWorld} {info : PayloadInfo} {o : StoredObject}
      (hmedia : u.mediaType = some m) (hdigest : s3.sha256 u.bytes = u.contentHash)
      (hputs : PutsPayload u.key ⟨u.bytes, some m⟩ w w₁)
      (hreturns : ReturnsPayload s3 u.key u.contentHash m w₁ info o)
      (h : w' = { w₁ with db := ((u.registration now info).execute w₁.db).2 })

/-- What an upload did, however it ended. -/
theorem uploadStep_putPayload : UploadStep s3 now u w ((putPayload s3 now u).run w).2 := by
  unfold putPayload
  refine run_bind_snd (by rw [run_require]; exact .refused rfl) fun _ w₁ h₁ _ => ?_
  obtain ⟨-, rfl⟩ := run_require_ok_iff.mp h₁
  refine run_bind_snd (by rw [run_orThrow]; exact .refused rfl) fun _ w₂ h₂ _ => ?_
  obtain ⟨-, rfl⟩ := run_orThrow_ok_iff.mp h₂
  refine run_bind_snd (by rw [run_orThrow]; exact .refused rfl) fun m w₃ h₃ _ => ?_
  obtain ⟨hmedia, rfl⟩ := run_orThrow_ok_iff.mp h₃
  have hvalidated : ((onDatabase (validateSyncProject u.userId u.projectId)).run w).2 = w := by
    rw [run_onDatabase, execute_validateSyncProject]
  refine run_bind_snd (by rw [hvalidated]; exact .refused rfl) fun _ w₄ h₄ _ => ?_
  obtain rfl : w₄ = w := (congrArg Prod.snd h₄).symm.trans hvalidated
  refine run_bind_snd (by rw [run_require]; exact .refused rfl) fun _ w₅ h₅ _ => ?_
  obtain ⟨-, rfl⟩ := run_require_ok_iff.mp h₅
  refine run_bind_snd (by rw [run_require]; exact .refused rfl) fun _ w₆ h₆ _ => ?_
  obtain ⟨hdigest, rfl⟩ := run_require_ok_iff.mp h₆
  rw [beq_iff_eq] at hdigest
  refine run_bind_snd (.put hmedia hdigest putsPayload_putPayloadFile) fun info w₇ h₇ _ => ?_
  obtain ⟨o, hreturns⟩ := run_putPayloadFile_ok h₇
  rw [run_onDatabase]
  exact .registered hmedia hdigest (putsPayload_of_run h₇) hreturns rfl

/-- An upload that succeeded found an active project, and its payload is registered. -/
theorem run_putPayload_ok (h : (putPayload s3 now u).run w = (.ok (), w')) :
    ∃ m w₁ info o d, u.mediaType = some m ∧ s3.sha256 u.bytes = u.contentHash ∧
      PutsPayload u.key ⟨u.bytes, some m⟩ w w₁ ∧
      ReturnsPayload s3 u.key u.contentHash m w₁ info o ∧
      (u.registration now info).execute w₁.db = (.ok (), d) ∧ w' = { w₁ with db := d } := by
  simp only [putPayload, bind_eq, run_bind_ok_iff, run_require_ok_iff, run_orThrow_ok_iff,
    beq_iff_eq] at h
  obtain ⟨_, _, ⟨-, rfl⟩, _, _, ⟨-, rfl⟩, m, _, ⟨hmedia, rfl⟩, _, w₄, hvalidate, _, _,
    ⟨-, rfl⟩, _, _, ⟨hdigest, rfl⟩, info, w₇, hput, hregister⟩ := h
  obtain ⟨d, hd, rfl⟩ := run_onDatabase_ok hvalidate
  obtain rfl : d = w.db :=
    (congrArg Prod.snd hd).symm.trans (execute_validateSyncProject u.userId u.projectId w.db)
  obtain ⟨o, hreturns⟩ := run_putPayloadFile_ok hput
  obtain ⟨d', hd', rfl⟩ := run_onDatabase_ok hregister
  exact ⟨m, w₇, info, o, d', hmedia, hdigest, putsPayload_of_run hput, hreturns, hd', rfl⟩

end

/-! ## The items of a push -/

/-- Whether the item was rejected. -/
def PushItemResult.isRejected : PushItemResult → Bool
  | .rejected .. => true
  | _ => false

/-- Whether the item was based on another revision than that of the head. -/
def PushItemResult.isConflict : PushItemResult → Bool
  | .conflict .. => true
  | _ => false

/-- How an item that names a payload is answered, unless it is in conflict: as the check of the
payload decides. -/
def AnswersItem (a : PushArgs) (d : Db) (revision : NewSyncRevision) (result : PushItemResult) :
    Prop :=
  ∀ hash, revision.tombstone = false → revision.contentHash = some hash →
    result.isConflict = false →
      (result.isRejected = false ↔
        ∃ x, checkPayload revision (d.payload (.app a.userId) a.projectId hash) = .ok x)

section

variable {d d' : Db} {now : Timestamp} {a : PushArgs} {revision : NewSyncRevision}

/-- Appending a revision leaves the payloads. -/
theorem run_appendRevision_payloads {role : DbRole} {r : ObjectRevision} {sequence : ℤ}
    (h : (appendRevision role now r).run d = (.ok sequence, d')) : d'.payloads = d.payloads := by
  simp only [appendRevision, bind_eq, run_bind_ok_iff, pure_eq, run_pure_ok_iff] at h
  obtain ⟨_, _, hnext, _, _, hinsert, _, _, hhead, _, _, hlog, -, rfl⟩ := h
  simp only [nextChangeSequence, bind_eq, query_bind, run_read, run_bind_ok_iff,
    run_orThrow_ok_iff, pure_eq, run_pure_ok_iff, run_modify_ok_iff] at hnext
  obtain ⟨_, _, ⟨-, rfl⟩, _, _, rfl, -, rfl⟩ := hnext
  simp only [insertRevision, bind_eq, run_bind_ok_iff, pure_eq, run_pure_ok_iff] at hinsert
  obtain ⟨_, _, hkeep, _, _, hrow, -, rfl⟩ := hinsert
  have hkept : ∀ {o : Option Uuid} {u : Unit} {d d' : Db},
      (keepPayloadRow o).run d = (.ok u, d') → d' = d := by
    intro o u d d' h
    cases o <;> cases h <;> rfl
  obtain rfl := hkept hkeep
  obtain ⟨-, rfl⟩ := run_insertRow_ok_iff.mp hrow
  obtain rfl := run_modify_ok_iff.mp hhead
  obtain ⟨-, rfl⟩ := run_insertRow_ok_iff.mp hlog
  rfl

/-- A payload that does not fit is a reason to reject. -/
theorem isRejected_of_checkPayload {o : Option PayloadRow} {rejected : PushItemResult}
    (h : checkPayload revision o = .error rejected) : rejected.isRejected = true := by
  unfold checkPayload at h
  split at h
  · cases h
    rfl
  · dsimp only at h
    split at h
    · cases h
      rfl
    · split at h
      · cases h
        rfl
      · cases h

/-- An item that is not in conflict is answered as its payload decides. -/
theorem run_pushItem {result : PushItemResult}
    (h : (pushItem now a revision).run d = (.ok result, d')) :
    d'.payloads = d.payloads ∧ AnswersItem a d revision result := by
  simp only [pushItem, bind_eq, query_bind, run_read] at h
  split at h
  · -- In conflict: the payload is not looked at.
    obtain ⟨rfl, rfl⟩ := run_pure_ok_iff.mp h
    exact ⟨rfl, fun _ _ _ h => by cases h⟩
  · obtain ⟨payload, d₁, hpayload, h⟩ := run_bind_ok_iff.mp h
    -- The payload that was read decides, and reading it changes nothing.
    have hitem : d₁ = d ∧ (revision.tombstone = false → ∀ hash, revision.contentHash = some hash →
        payload =
          (checkPayload revision (d.payload (.app a.userId) a.projectId hash)).map some) := by
      unfold itemPayload at hpayload
      split at hpayload
      · rename_i htombstone
        obtain ⟨-, rfl⟩ := run_pure_ok_iff.mp hpayload
        exact ⟨rfl, fun hnot => by rw [hnot] at htombstone; cases htombstone⟩
      · split at hpayload
        · rename_i hnone
          obtain ⟨-, rfl⟩ := run_pure_ok_iff.mp hpayload
          exact ⟨rfl, fun _ _ hsome => by cases hnone.symm.trans hsome⟩
        · rename_i hash hsome
          simp only [bind_eq, query_bind, run_read, pure_eq, run_pure_ok_iff] at hpayload
          obtain ⟨rfl, rfl⟩ := hpayload
          refine ⟨rfl, fun _ hash' hsome' => ?_⟩
          cases hsome.symm.trans hsome'
          rfl
    obtain ⟨rfl, hitem⟩ := hitem
    cases payload with
    | error rejected =>
      obtain ⟨rfl, rfl⟩ := run_pure_ok_iff.mp h
      refine ⟨rfl, fun hash htombstone hhash hconflict => ?_⟩
      have hcheck := hitem htombstone hash hhash
      cases hanswer : checkPayload revision (d₁.payload (.app a.userId) a.projectId hash) with
      | ok x =>
        rw [hanswer] at hcheck
        cases hcheck
      | error answer =>
        rw [hanswer] at hcheck
        cases hcheck
        rw [isRejected_of_checkPayload hanswer]
        exact ⟨fun h => (by cases h), fun h => (by obtain ⟨_, hok⟩ := h; cases hok)⟩
    | ok payloadId =>
      obtain ⟨sequence, d₂, happend, hend⟩ := run_bind_ok_iff.mp h
      obtain ⟨rfl, rfl⟩ := run_pure_ok_iff.mp hend
      refine ⟨run_appendRevision_payloads happend, fun hash htombstone hhash _ => ?_⟩
      have hcheck := hitem htombstone hash hhash
      cases hanswer : checkPayload revision (d₁.payload (.app a.userId) a.projectId hash) with
      | ok x => exact ⟨fun _ => ⟨x, rfl⟩, fun _ => rfl⟩
      | error answer =>
        rw [hanswer] at hcheck
        cases hcheck

/-- The items of a push are answered one after the other. -/
theorem run_pushItems {revisions : List NewSyncRevision} {results : List PushItemResult}
    (h : (pushItems now a revisions).run d = (.ok results, d')) :
    List.Forall₂ (AnswersItem a d) revisions results := by
  induction revisions generalizing d d' results with
  | nil =>
    obtain ⟨rfl, -⟩ := run_pure_ok_iff.mp h
    exact .nil
  | cons revision revisions ih =>
    simp only [pushItems, bind_eq, run_bind_ok_iff, pure_eq, run_pure_ok_iff] at h
    obtain ⟨result, d₁, hitem, results, d₂, hitems, rfl, -⟩ := h
    obtain ⟨hpayloads, hanswers⟩ := run_pushItem hitem
    refine .cons hanswers ((ih hitems).imp fun revision' result' h hash => ?_)
    have hsame : d₁.payload (.app a.userId) a.projectId hash =
        d.payload (.app a.userId) a.projectId hash := by
      unfold Db.payload
      rw [hpayloads]
    rw [← hsame]
    exact h hash

/-- A push that is executed answers its items. -/
theorem execute_pushWithOutcome {host : Host} {response : Json}
    (h : (pushWithOutcome host now a).execute d = (.ok ⟨response, false⟩, d')) :
    (visibleProject (.app a.userId) a.projectId d).isSome ∧
      ∃ generation results, pushResponseJson host generation results = some response ∧
        List.Forall₂ (AnswersItem a d) a.revisions results := by
  rcases execute_cases h with hrun | ⟨-, e, _, -, he⟩
  · simp only [pushWithOutcome, deleteExpiredRecords, bind_eq, acquire_bind, run_lock, modify_bind,
      run_write, query_bind, run_read] at hrun
    split at hrun
    · -- The answers of records are marked as such.
      unfold replayPush at hrun
      split at hrun
      · split at hrun
        · cases hrun
        · cases hrun
      · cases hrun
    · -- The push is executed; all its exits but the last one answer an error.
      obtain ⟨state, d₁, hstate, hrun⟩ := run_bind_ok_iff.mp hrun
      rw [run_attempt, Prod.mk.injEq, Except.ok.injEq] at hstate
      have hactive : (requireActiveProjectForUpdate (.app a.userId) a.projectId).run
          (d.withoutExpired now a) = (state, d₁) := Prod.ext hstate.1 hstate.2
      cases state with
      | error error =>
        obtain ⟨stored, _, -, hrun⟩ := run_bind_ok_iff.mp hrun
        split at hrun <;> cases hrun
      | ok state =>
        obtain ⟨rfl, row, hrow, -, rfl⟩ := run_projectState hactive
        dsimp only at hrun
        split at hrun
        · obtain ⟨_, _, -, hend⟩ := run_bind_ok_iff.mp hrun
          cases hend
        · simp only [bind_eq, query_bind, run_read] at hrun
          split at hrun
          · obtain ⟨_, _, -, hend⟩ := run_bind_ok_iff.mp hrun
            cases hend
          · simp only [applyPush, bind_eq, run_bind_ok_iff, run_orThrow_ok_iff, pure_eq,
              run_pure_ok_iff, Except.ok.injEq, PushOutcome.mk.injEq] at hrun
            obtain ⟨results, _, hitems, response', _, ⟨hresponse, rfl⟩, _, _, -, _, _, -,
              ⟨rfl, -⟩, -⟩ := hrun
            have hanswers := run_pushItems hitems
            exact ⟨Option.isSome_iff_exists.mpr ⟨row, hrow⟩, row.generation, results, hresponse,
              hanswers⟩
  · cases he

end

end TaskTipsCloud

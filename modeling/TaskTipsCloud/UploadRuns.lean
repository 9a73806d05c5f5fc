import TaskTipsCloud.UploadSteps

/-!
# Upload, then push

The catalog keeps one row for a digest in a project, and the object store one object. A push checks
the media type in that row, which is the one that was declared first: an upload of the same bytes
with another media type succeeds, and leaves both the object and the row as they are.
-/

namespace TaskTipsCloud

open Txn

/-! ## What every call keeps -/

/-- Bytes with a digest were uploaded, of this length. -/
def Uploaded (s3 : ObjectHost) (h : List StoreEvent) (hash : String) (n : ℕ) : Prop :=
  ∃ e ∈ h, ∃ u, e.request.call = .putPayload u ∧ s3.sha256 u.bytes = hash ∧ u.bytes.length = n

/-- What holds after every call: what is stored and what is catalogued was uploaded. -/
structure StoreSound (s3 : ObjectHost) (h : List StoreEvent) (w : StoreWorld) : Prop where
  catalogued : w.db.Catalogued
  rows : ∀ x ∈ w.db.payloads, ∃ n : ℕ, x.sizeBytes = n ∧ Uploaded s3 h x.contentHash n
  objects : ∀ owner p hash o, w.objects (.payload owner p hash) = some o →
    Uploaded s3 h hash o.bytes.length

/-- What a call did to the database: nothing, or what one call of the persistence layer does. -/
inductive DbStep (host : Host) (d d' : Db) : Prop
  | kept (h : d' = d)
  | served (q : Request) (h : d' = ((service host).alone q d).after)

section

variable {host : Host} {s3 : ObjectHost} {h : List StoreEvent} {w : StoreWorld} {q : StoreRequest}

/-- A body that is caught is not rolled back. -/
theorem execute_attempt {S L E α : Type} (x : Txn S L E α) (s : S) :
    x.attempt.execute s = x.run s := by
  unfold execute
  rw [run_attempt]
  rfl

/-- A request that is alone answers what its body does. -/
theorem result_alone :
    ((storeService host s3).alone q w).result = ((q.call.body host s3 q.now).run w).1 :=
  congrArg Prod.fst (execute_attempt _ w)

/-- A request that is alone leaves what its body does. -/
theorem after_alone :
    ((storeService host s3).alone q w).after = ((q.call.body host s3 q.now).run w).2 :=
  congrArg Prod.snd (execute_attempt _ w)

/-- A value that is replaced changes no state. -/
theorem run_bind_pure_snd {S L E α β : Type} (x : Txn S L E α) (f : α → β) (s : S) :
    ((x.bind fun a => .pure (f a)).run s).2 = (x.run s).2 := by
  rw [run_bind]
  rcases x.run s with ⟨_ | a, s'⟩ <;> rfl

/-- A sequence that ends with a value succeeds with its first program. -/
theorem run_bind_pure_ok {S L E α β : Type} {x : Txn S L E α} {f : α → β} {s : S} {b : β}
    (h : ((x.bind fun a => .pure (f a)).run s).1 = .ok b) :
    ∃ a, x.run s = (.ok a, (x.run s).2) ∧ f a = b := by
  rw [run_bind] at h
  rcases hx : x.run s with ⟨_ | a, s'⟩
  · rw [hx] at h
    cases h
  · rw [hx] at h
    cases h
    exact ⟨a, rfl, rfl⟩

/-- What a call did. -/
theorem after_alone_cases (host : Host) (s3 : ObjectHost) (q : StoreRequest) (w : StoreWorld) :
    (∃ u, q.call = .putPayload u ∧
      UploadStep s3 q.now u w ((storeService host s3).alone q w).after) ∨
    (∃ key, q.call = .deleteObject key ∧ ((storeService host s3).alone q w).after =
      { w with objects := Function.update w.objects key none }) ∨
    ∃ call, q.call = .sync call ∧ ((storeService host s3).alone q w).after =
      { w with db := ((service host).alone ⟨q.now, call⟩ w.db).after } := by
  rw [after_alone]
  obtain ⟨now, call⟩ := q
  cases call with
  | putPayload u =>
    refine .inl ⟨u, rfl, ?_⟩
    dsimp only [StoreCall.body]
    rw [run_bind_pure_snd]
    exact uploadStep_putPayload
  | deleteObject key => exact .inr (.inl ⟨key, rfl, rfl⟩)
  | sync call =>
    refine .inr (.inr ⟨call, rfl, ?_⟩)
    dsimp only [StoreCall.body]
    rw [run_bind_pure_snd, run_onDatabase]
    rfl

/-- A registration is a call of the persistence layer. -/
theorem dbStep_registration {now : Timestamp} {u : UploadRequest} {info : PayloadInfo} {d : Db} :
    DbStep host d ((u.registration now info).execute d).2 :=
  .served ⟨now, .registerPayload u.userId u.projectId u.payloadId info.stored⟩
    (congrArg Prod.snd (execute_bind_map _ d)).symm

/-- What a call did to the database. -/
theorem dbStep_alone (host : Host) (s3 : ObjectHost) (q : StoreRequest) (w : StoreWorld) :
    DbStep host w.db ((storeService host s3).alone q w).after.db := by
  rcases after_alone_cases host s3 q w with ⟨u, -, hstep⟩ | ⟨key, -, heq⟩ | ⟨call, -, heq⟩
  · cases hstep with
    | refused heq => exact .kept (congrArg StoreWorld.db heq)
    | put hmedia hdigest hputs => exact .kept hputs.db
    | registered hmedia hdigest hputs hreturns heq =>
      rw [heq, ← hputs.db]
      exact dbStep_registration
  · exact .kept (by rw [heq])
  · exact .served _ (congrArg StoreWorld.db heq)

/-- A step of the database keeps the catalog. -/
theorem DbStep.catalogued {d d' : Db} (h : DbStep host d d') (hd : d.Catalogued) :
    d'.Catalogued := by
  cases h with
  | kept h => rwa [h]
  | served q h =>
    rw [h]
    exact hd.alone q

/-- What was uploaded stays so. -/
theorem Uploaded.concat {hash : String} {n : ℕ} (hn : Uploaded s3 h hash n) (e : StoreEvent) :
    Uploaded s3 (h ++ [e]) hash n := by
  obtain ⟨e', he', hu⟩ := hn
  exact ⟨e', List.mem_append_left _ he', hu⟩

/-- What an upload puts was uploaded. -/
theorem PutsPayload.uploaded {u : UploadRequest} {m : String} {w' : StoreWorld}
    (hputs : PutsPayload u.key ⟨u.bytes, some m⟩ w w') (hw : ∀ owner p hash o,
      w.objects (.payload owner p hash) = some o → Uploaded s3 h hash o.bytes.length)
    (hu : Uploaded s3 h u.contentHash u.bytes.length) (owner p : Uuid) (hash : String)
    (o : StoredObject) (ho : w'.objects (.payload owner p hash) = some o) :
    Uploaded s3 h hash o.bytes.length := by
  by_cases hkey : ObjectKey.payload owner p hash = u.key
  · rw [hkey] at ho
    rcases hputs.final with hsame | ⟨-, hput⟩
    · rw [hsame, ← hkey] at ho
      exact hw owner p hash o ho
    · rw [hput, Option.some.injEq] at ho
      subst ho
      rw [UploadRequest.key, ObjectKey.payload.injEq] at hkey
      rw [hkey.2.2]
      exact hu
  · rw [hputs.others owner p hash hkey] at ho
    exact hw owner p hash o ho

/-- What an upload registers was uploaded. -/
theorem rows_registration {now : Timestamp} {u : UploadRequest} {info : PayloadInfo} {d : Db}
    {n : ℕ}
    (hd : ∀ x ∈ d.payloads, ∃ n : ℕ, x.sizeBytes = n ∧ Uploaded s3 h x.contentHash n)
    (hsize : info.size = n) (hn : Uploaded s3 h info.contentHash n) :
    ∀ x ∈ ((u.registration now info).execute d).2.payloads,
      ∃ n : ℕ, x.sizeBytes = n ∧ Uploaded s3 h x.contentHash n := by
  rcases hregister : (u.registration now info).execute d with ⟨r, d'⟩
  rcases execute_registerPayload hregister with ⟨rfl, -⟩ | ⟨-, -, -, rfl⟩
  · exact hd
  · intro x hx
    rcases List.mem_append.mp hx with hx | hx
    · exact hd x hx
    · rw [List.mem_singleton.mp hx]
      exact ⟨n, congrArg Nat.cast hsize, hn⟩

/-- Every call keeps that what is stored and catalogued was uploaded. -/
theorem StoreSound.alone (hw : StoreSound s3 h w) (hq : (storeService host s3).Allowed q) :
    StoreSound s3 (h ++ [(storeService host s3).alone q w])
    ((storeService host s3).alone q w).after := by
  have hdb := (dbStep_alone host s3 q w).catalogued hw.catalogued
  have hrows : ∀ x ∈ w.db.payloads, ∃ n : ℕ, x.sizeBytes = n ∧
      Uploaded s3 (h ++ [(storeService host s3).alone q w]) x.contentHash n := by
    intro x hx
    obtain ⟨n, hsize, hn⟩ := hw.rows x hx
    exact ⟨n, hsize, hn.concat _⟩
  have hobjects : ∀ owner p hash o, w.objects (.payload owner p hash) = some o →
      Uploaded s3 (h ++ [(storeService host s3).alone q w]) hash o.bytes.length :=
    fun owner p hash o ho => (hw.objects owner p hash o ho).concat _
  have hnew : ∀ u, q.call = .putPayload u → s3.sha256 u.bytes = u.contentHash →
      Uploaded s3 (h ++ [(storeService host s3).alone q w]) u.contentHash u.bytes.length :=
    fun u hu hdigest => ⟨_, List.mem_append_right _ List.mem_cons_self, u, hu, hdigest, rfl⟩
  -- An upload stores and registers, an object is deleted, or a call works on the database alone.
  rcases after_alone_cases host s3 q w with ⟨u, hcall, hstep⟩ | ⟨key, -, heq⟩ | ⟨call, hcall, heq⟩
  · cases hstep with
    | refused heq => exact ⟨hdb, by rw [heq]; exact hrows, by rw [heq]; exact hobjects⟩
    | put hmedia hdigest hputs =>
      exact ⟨hdb, by rw [hputs.db]; exact hrows,
        hputs.uploaded hobjects (hnew u hcall hdigest)⟩
    | registered hmedia hdigest hputs hreturns heq =>
      have hput := hputs.uploaded hobjects (hnew u hcall hdigest)
      refine ⟨hdb, ?_, by rw [heq]; exact hput⟩
      rw [heq]
      refine rows_registration (by rw [hputs.db]; exact hrows) hreturns.size ?_
      rw [hreturns.contentHash]
      exact hput _ _ _ _ hreturns.object
  · refine ⟨hdb, by rw [heq]; exact hrows, fun owner p hash o ho => ?_⟩
    rw [heq] at ho
    dsimp only at ho
    by_cases hkey : ObjectKey.payload owner p hash = key
    · rw [hkey, Function.update_self] at ho
      cases ho
    · rw [Function.update_of_ne hkey] at ho
      exact hobjects owner p hash o ho
  · refine ⟨hdb, ?_, by rw [heq]; exact hobjects⟩
    rw [heq]
    rcases payloadsStep_alone host hw.catalogued.sound ⟨q.now, call⟩ with hsub |
      ⟨hregister, -, -, -⟩
    · exact fun x hx => hrows x (hsub.subset hx)
    · -- Payloads are registered by uploads only, so no other call adds a row.
      change q.call.isRegistration = false at hq
      rw [hcall, show call = _ from hregister] at hq
      cases hq

/-- What is stored and catalogued in a run was uploaded. -/
theorem storeSound_of_serial {users : List UserRow} {t₀ t : ℤ} (hrun : (storeService host s3).Serial
    ⟨.initial users, fun _ => none⟩ t₀ h w t) : StoreSound s3 h w :=
  hrun.invariant (J := fun h w _ => StoreSound s3 h w)
    ⟨Db.catalogued_initial users, fun _ hx => absurd hx List.not_mem_nil, fun _ _ _ _ => nofun⟩
    fun _ _ _ _ _ hq _ hw => hw.alone hq

end

/-! ## Upload, then push -/

/-- The media type under which the bytes of an upload are known: that of the row of their digest, if
there is one, then that of the object, and else the one that the upload declares. -/
def StoreWorld.declaredType (w : StoreWorld) (u : UploadRequest) (m : String) : String :=
  match w.db.payloadOf u.projectId u.contentHash with
  | some row => row.mediaType
  | none =>
    match w.objects u.key with
    | some o => o.mediaType.getD m
    | none => m

/-- The event `e` is an upload that succeeded, with the media type `m`, its payload stayed in the
catalog, and the event `e'` is a push of the user to the project that was executed. No other bytes
of the run have the digest of the payload. -/
structure PushedAfterUpload (host : Host) (s3 : ObjectHost) (u : UploadRequest) (m : String)
    (a : PushArgs) (response : Json) (e e' : StoreEvent) (users : List UserRow) (t₀ : ℤ)
    (h₁ h₂ h₃ : List StoreEvent) (w : StoreWorld) (t : ℤ) : Prop where
  run : (storeService host s3).Serial ⟨.initial users, fun _ => none⟩ t₀
    (h₁ ++ e :: (h₂ ++ e' :: h₃)) w t
  upload : e.request.call = .putPayload u
  media : u.mediaType = some m
  created : e.result = .ok .created
  kept : ∀ x ∈ h₂, (x.after.db.payloadOf u.projectId u.contentHash).isSome
  digest : ∀ x ∈ h₁ ++ e :: (h₂ ++ e' :: h₃), ∀ u', x.request.call = .putPayload u' →
    s3.sha256 u'.bytes = s3.sha256 u.bytes → u'.bytes = u.bytes
  push : e'.request.call = .sync (.pushWithOutcome a)
  user : a.userId = u.userId
  project : a.projectId = u.projectId
  executed : e'.result = .ok (.sync (.pushed ⟨response, false⟩))

/-- An item that names the payload of an upload, and whose kind admits its media type and size. -/
structure NamesUpload (u : UploadRequest) (m : String) (revision : NewSyncRevision) : Prop where
  upsert : revision.tombstone = false
  hash : revision.contentHash = some u.contentHash
  admits : validMediaType revision.kind m = true
  fits : (u.bytes.length : ℤ) ≤ revision.kind.maxPayloadBytes

section

variable {host : Host} {s3 : ObjectHost} {u : UploadRequest} {m : String} {w w' : StoreWorld}

/-- After an upload that succeeded, its payload is catalogued with the media type under which its
bytes are known. -/
theorem payloadOf_of_created {q : StoreRequest} (hcall : q.call = .putPayload u)
    (hmedia : u.mediaType = some m) (h : ((storeService host s3).alone q w).result = .ok .created) :
    s3.sha256 u.bytes = u.contentHash ∧
      ∃ x,
        ((storeService host s3).alone q w).after.db.payloadOf u.projectId u.contentHash = some x ∧
        x.mediaType = w.declaredType u m := by
  rw [result_alone] at h
  rw [after_alone, hcall] at *
  obtain ⟨_, hput, -⟩ := run_bind_pure_ok h
  dsimp only [StoreCall.body]
  rw [run_bind_pure_snd]
  obtain ⟨m', w₁, info, o, d, hmedia', hdigest, hputs, hreturns, hregister, heq⟩ :=
    run_putPayload_ok hput
  cases hmedia.symm.trans hmedia'
  refine ⟨hdigest, ?_⟩
  rw [heq]
  have hhash : info.stored.contentHash = u.contentHash := hreturns.contentHash
  -- The row was there already, and its media type is kept; or it is inserted with that of the
  -- object.
  rcases execute_registerPayload hregister with ⟨rfl, hsome⟩ | ⟨hnew, -, -, rfl⟩
  · obtain ⟨x, hx⟩ := Option.isSome_iff_exists.mp (hsome rfl).1
    rw [hhash] at hx
    refine ⟨x, hx, ?_⟩
    unfold StoreWorld.declaredType
    rw [hputs.db] at hx
    rw [hx]
  · rw [hhash] at hnew
    refine ⟨payloadRow q.now u.userId u.projectId u.payloadId info.stored, ?_, ?_⟩
    · rw [Db.payloadOf_eq_find?] at hnew ⊢
      rw [List.find?_append, hnew]
      simp [PayloadRow.key, payloadRow, hhash]
    · unfold StoreWorld.declaredType
      rw [hputs.db] at hnew
      rw [hnew]
      change info.mediaType = _
      rw [hreturns.mediaType]
      -- The object was there before, with the media type of its first upload, or this upload put
      -- it.
      rcases hputs.final with hsame | ⟨hnone, hput⟩
      · rw [← hsame, hreturns.object]
      · rw [hnone]
        have ho := hput.symm.trans hreturns.object
        cases ho
        rfl

/-- A payload that stays in the catalog keeps its row. -/
theorem payloadOf_of_kept {h : List StoreEvent} {p : Uuid} {hash : String} {x : PayloadRow}
    {t₀ t : ℤ}
    (hrun : (storeService host s3).Serial w t₀ h w' t) (hw : w.db.Catalogued)
    (hx : w.db.payloadOf p hash = some x)
    (hkept : ∀ y ∈ h, (y.after.db.payloadOf p hash).isSome) : w'.db.payloadOf p hash = some x := by
  have hboth := hrun.invariant (J := fun h w' _ =>
    (∀ y ∈ h, (y.after.db.payloadOf p hash).isSome) →
      w'.db.Catalogued ∧ w'.db.payloadOf p hash = some x) (fun _ => ⟨hw, hx⟩)
    fun h s _ q _ _ _ ih hkept => by
      obtain ⟨hs, hx⟩ := ih fun y hy => hkept y (List.mem_append_left _ hy)
      have hsome := hkept _ (List.mem_append_right _ List.mem_cons_self)
      have hstep := dbStep_alone host s3 q s
      refine ⟨hstep.catalogued hs, ?_⟩
      cases hstep with
      | kept heq => rw [heq]; exact hx
      | served q' heq =>
        rw [heq] at hsome ⊢
        exact hs.payloadOf_alone q' hx hsome
  exact (hboth hkept).2

/-- The check of a payload that fits decides by its media type. -/
theorem checkPayload_of_fits {revision : NewSyncRevision} {x : PayloadRow} {n : ℕ}
    (hsize : x.sizeBytes = n) (hfits : (n : ℤ) ≤ revision.kind.maxPayloadBytes) :
    (∃ i, checkPayload revision (some x) = .ok i) ↔
      validMediaType revision.kind x.mediaType = true := by
  have hvalid : 0 ≤ x.sizeBytes ∧ x.sizeBytes ≤ revision.kind.maxPayloadBytes := by
    rw [hsize]
    exact ⟨Int.natCast_nonneg n, hfits⟩
  unfold checkPayload
  dsimp only
  rw [if_neg (not_not.mpr hvalid)]
  cases validMediaType revision.kind x.mediaType <;> simp

/-- A call that replies with the outcome of a push made the push. -/
theorem execute_of_replying {x : Tx (Except PersistenceError PushOutcome)} {outcome : PushOutcome}
    {d d' : Db} (h : (replying .pushed x).execute d = (.ok (.pushed outcome), d')) :
    x.execute d = (.ok outcome, d') := by
  have hmap := (execute_bind_map (f := Reply.pushed) x d).symm.trans h
  rcases hx : x.execute d with ⟨_ | outcome', d''⟩
  · rw [hx] at hmap
    cases hmap
  · rw [hx] at hmap
    cases hmap
    rfl

/-- After an upload, an item that names its payload is accepted if and only if its kind admits the
media type under which the bytes were known. -/
theorem accepted_iff_declaredType {a : PushArgs} {response : Json} {e e' : StoreEvent}
    {users : List UserRow} {t₀ t : ℤ} {h₁ h₂ h₃ : List StoreEvent}
    (h : PushedAfterUpload host s3 u m a response e e' users t₀ h₁ h₂ h₃ w t) :
    ∃ generation results, pushResponseJson host generation results = some response ∧
      List.Forall₂ (fun revision result => NamesUpload u m revision → result.isConflict = false →
        (result.isRejected = false ↔
          validMediaType revision.kind (e.before.declaredType u m) = true))
            a.revisions results := by
  obtain ⟨t₁, hrun₁, he, ht₁, hq, hrun₂⟩ := h.run.split
  obtain ⟨t₂, hrun₃, he', -, -, -⟩ := hrun₂.split
  have hupto : (storeService host s3).Serial ⟨.initial users, fun _ => none⟩ t₀ (h₁ ++ [e])
      e.after e.request.now := by
    have hsnoc := hrun₁.snoc e.request hq ht₁
    rwa [← he] at hsnoc
  have hwhole : (storeService host s3).Serial ⟨.initial users, fun _ => none⟩ t₀
      ((h₁ ++ e :: h₂) ++ e' :: h₃) w t := by
    rw [List.append_assoc]
    exact h.run
  obtain ⟨t₃, hbefore, -⟩ := hwhole.split
  have hsound := storeSound_of_serial hbefore
  -- The row that the upload left is the one that the push finds.
  have hcreated := h.created
  rw [he] at hcreated
  obtain ⟨hdigest, x, hx, htype⟩ := payloadOf_of_created h.upload h.media hcreated
  rw [← he] at hx
  have hfound := payloadOf_of_kept hrun₃ (storeSound_of_serial hupto).catalogued hx h.kept
  have hpush := h.executed
  rw [he', result_alone, h.push] at hpush
  obtain ⟨reply, hsync, hreply⟩ := run_bind_pure_ok hpush
  cases hreply
  obtain ⟨d, hexecute, -⟩ := run_onDatabase_ok hsync
  obtain ⟨hproject, generation, results, hresponse, hanswers⟩ :=
    execute_pushWithOutcome (execute_of_replying hexecute)
  refine ⟨generation, results, hresponse,
    hanswers.imp fun revision result hanswer hnames hconflict => ?_⟩
  rw [hanswer _ hnames.upsert hnames.hash hconflict, hsound.catalogued.payload_app hproject,
    h.project, hfound, ← htype]
  obtain ⟨hmem, -, hhash⟩ := Db.mem_of_payloadOf hfound
  obtain ⟨n, hsize, y, hy, u', hu', hdigest', hn⟩ := hsound.rows x hmem
  have hbytes : u'.bytes = u.bytes := by
    refine h.digest y ?_ u' hu' (hdigest'.trans (hhash.trans hdigest.symm))
    rw [← List.cons_append, ← List.append_assoc]
    exact List.mem_append_left _ hy
  rw [hbytes] at hn
  subst hn
  exact checkPayload_of_fits hsize hnames.fits

end

/-! ## A run -/

/-- An object store that knows the digest of the empty payload. -/
def sampleStore : ObjectHost where
  sha256 _ := sampleDigest
  bucket := "payloads"

/-- An upload of the empty payload. -/
def sampleUpload (mediaType : String) (payloadId : Uuid) : UploadRequest where
  userId := 1
  projectId := 2
  contentHash := sampleDigest
  contentLength := some 0
  contentType := some mediaType
  bytes := []
  uploadId := payloadId
  payloadId := payloadId
  fates := ⟨.answered, .answered, .answered, .answered, .answered, .answered⟩

/-- A push of a todo with the empty payload. -/
def sampleTodoPush : PushArgs := ⟨1, 3, 2, 1, "a", "a", [sampleItem "x" none false]⟩

/-- The sample project, with a device that completed its bootstrap. -/
def uploadSetup : List StoreRequest :=
  [⟨0, .sync (.createProject 1 2 "tasks")⟩, ⟨0, .sync (.registerDevice 1 3)⟩,
    ⟨0, .sync (.recordBootstrapManifest 1 2 ⟨4, 1, 0, [], sampleDigest⟩ "manifests" "4")⟩,
    ⟨0, .sync (.bootstrapManifestPage ⟨1, 3, 2, 4, 0, 100⟩)⟩]

/-- The setup, then earlier uploads, then an upload as Markdown and the push. -/
def uploadRequests (earlier : List StoreRequest) : List StoreRequest :=
  uploadSetup ++ earlier ++ [⟨0, .putPayload (sampleUpload "text/markdown" 6)⟩,
    ⟨0, .sync (.pushWithOutcome sampleTodoPush)⟩]

/-- The sample run with earlier uploads. -/
def uploadRun (earlier : List StoreRequest) : List StoreEvent :=
  (storeService sampleHost sampleStore).serveAlone (uploadRequests earlier)
    ⟨.initial [⟨1, .user, .active⟩], fun _ => none⟩

/-- Whether a call uploaded a payload. -/
def StoreEvent.isCreated (e : StoreEvent) : Bool :=
  match e.result with
  | .ok .created => true
  | _ => false

/-- The response of a push that was executed. -/
def StoreEvent.response (e : StoreEvent) : Option Json :=
  match e.result with
  | .ok (.sync (.pushed ⟨response, false⟩)) => some response
  | _ => none

/-- The states of the items in the response of a push. -/
def itemStatuses (response : Json) : Option (List (Option String)) :=
  ((response.get? "results").bind (·.arr?)).map (·.map fun r => (r.get? "status").bind (·.str?))

/-- The state of an item as its result is written. -/
def PushItemResult.status : PushItemResult → String
  | .applied .. => "applied"
  | .conflict .. => "conflict"
  | .rejected .. => "rejected"

/-- The status of a result is written. -/
theorem status_toJson {host : Host} {result : PushItemResult} {item : Json}
    (h : result.toJson host = some item) :
    (item.get? "status").bind (·.str?) = some result.status := by
  cases result with
  | applied kind id revision changeSequence changedAt =>
    simp only [PushItemResult.toJson, Option.pure_def, Option.bind_eq_bind,
      Option.bind_eq_some_iff] at h
    obtain ⟨text, -, h⟩ := h
    cases h
    simp [PushItemResult.status]
  | conflict kind id expected actual =>
    cases h
    simp [PushItemResult.status]
  | rejected kind id code message details =>
    cases details <;> (cases h; simp [PushItemResult.status])

/-- The response of a push has the states of its results. -/
theorem itemStatuses_pushResponseJson {host : Host} {generation : ℤ} {results : List PushItemResult}
    {response : Json} (h : pushResponseJson host generation results = some response) :
    itemStatuses response = some (results.map fun r => some r.status) := by
  unfold pushResponseJson at h
  simp only [Option.pure_def, Option.bind_eq_bind, Option.bind_eq_some_iff] at h
  obtain ⟨items, hitems, h⟩ := h
  cases h
  have hstatuses : items.map (fun r => (r.get? "status").bind (·.str?)) =
      results.map fun r => some r.status := by
    induction results generalizing items with
    | nil =>
      cases hitems
      rfl
    | cons result results ih =>
      simp only [List.mapM_cons, Option.pure_def, Option.bind_eq_bind,
        Option.bind_eq_some_iff] at hitems
      obtain ⟨item, hitem, rest, hrest, h⟩ := hitems
      cases h
      rw [List.map_cons, List.map_cons, status_toJson hitem, ih rest hrest]
  simp [itemStatuses, hstatuses]

/-- A request that has created its payload answers so. -/
theorem StoreEvent.result_of_isCreated {e : StoreEvent} (h : e.isCreated = true) :
    e.result = .ok .created := by
  unfold StoreEvent.isCreated at h
  split at h
  · assumption
  · cases h

/-- A request with a response to a push answers it. -/
theorem StoreEvent.result_of_response {e : StoreEvent} {response : Json}
    (h : e.response = some response) : e.result = .ok (.sync (.pushed ⟨response, false⟩)) := by
  unfold StoreEvent.response at h
  split at h
  · cases h
    assumption
  · cases h

/-- The world after some requests. -/
def worldAfter (requests : List StoreRequest) : StoreWorld :=
  requests.foldl (fun w q => ((storeService sampleHost sampleStore).alone q w).after)
    ⟨.initial [⟨1, .user, .active⟩], fun _ => none⟩

/-- Requests that are served one after the other, in two parts. -/
theorem serveAlone_append {S L E α ρ : Type} {V : Service S L E α ρ} (qs qs' : List ρ) (s : S) :
    V.serveAlone (qs ++ qs') s =
      V.serveAlone qs s ++ V.serveAlone qs' (qs.foldl (fun s q => (V.alone q s).after) s) := by
  induction qs generalizing s with
  | nil => rfl
  | cons q qs ih => exact congrArg _ (ih _)

/-- The upload as Markdown after some earlier uploads, and the push. -/
def markdownEvent (earlier : List StoreRequest) : StoreEvent :=
  (storeService sampleHost sampleStore).alone ⟨0, .putPayload (sampleUpload "text/markdown" 6)⟩
    (worldAfter (uploadSetup ++ earlier))

/-- A push of a todo that names the upload. -/
def todoEvent (earlier : List StoreRequest) : StoreEvent :=
  (storeService sampleHost sampleStore).alone ⟨0, .sync (.pushWithOutcome sampleTodoPush)⟩
    (markdownEvent earlier).after

/-- The run consists of the setup, the upload and the push. -/
theorem uploadRun_eq (earlier : List StoreRequest) : uploadRun earlier =
    (storeService sampleHost sampleStore).serveAlone (uploadSetup ++ earlier)
      ⟨.initial [⟨1, .user, .active⟩], fun _ => none⟩ ++
        markdownEvent earlier :: ([] ++ todoEvent earlier :: []) :=
  serveAlone_append _ _ _

/-- The requests of the sample run are made at one time, register payloads by uploads only, and
upload the same bytes. -/
theorem uploadRequests_plain {earlier : List StoreRequest}
    (hearlier : ∀ q ∈ earlier, ∃ mediaType i, q = ⟨0, .putPayload (sampleUpload mediaType i)⟩)
    {q : StoreRequest} (hq : q ∈ uploadRequests earlier) :
    q.now = 0 ∧ q.call.isRegistration = false ∧ ∀ u, q.call = .putPayload u → u.bytes = [] := by
  have hupload : ∀ mediaType i,
      (⟨0, .putPayload (sampleUpload mediaType i)⟩ : StoreRequest).now = 0 ∧
      (StoreCall.putPayload (sampleUpload mediaType i)).isRegistration = false ∧
        ∀ u, StoreCall.putPayload (sampleUpload mediaType i) = .putPayload u → u.bytes = [] := by
    refine fun mediaType i => ⟨rfl, rfl, fun u hu => ?_⟩
    cases hu
    rfl
  rcases List.mem_append.mp hq with hq | hq
  · rcases List.mem_append.mp hq with hq | hq
    · simp only [uploadSetup, List.mem_cons, List.not_mem_nil, or_false] at hq
      rcases hq with rfl | rfl | rfl | rfl <;>
        exact ⟨rfl, rfl, fun u hu => absurd hu (by simp)⟩
    · obtain ⟨mediaType, i, rfl⟩ := hearlier q hq
      exact hupload mediaType i
  · rcases List.mem_cons.mp hq with rfl | hq
    · exact hupload "text/markdown" 6
    · obtain rfl := List.mem_singleton.mp hq
      exact ⟨rfl, rfl, fun u hu => absurd hu (by simp)⟩

/-- The upload as Markdown and the push, after earlier uploads of the same bytes. -/
theorem pushedAfterUpload_sample {earlier : List StoreRequest} {response : Json}
    (hearlier : ∀ q ∈ earlier, ∃ mediaType i, q = ⟨0, .putPayload (sampleUpload mediaType i)⟩)
    (hcreated : (markdownEvent earlier).isCreated = true)
    (hresponse : (todoEvent earlier).response = some response) :
    ∃ h₁ w t, PushedAfterUpload sampleHost sampleStore (sampleUpload "text/markdown" 6)
      "text/markdown" sampleTodoPush response (markdownEvent earlier) (todoEvent earlier)
        [⟨1, .user, .active⟩] 0 h₁ [] [] w t := by
  have htimes : (0 :: (uploadRequests earlier).map
      (storeService sampleHost sampleStore).time).Pairwise (· ≤ ·) := by
    have hzero : ∀ t ∈ 0 :: (uploadRequests earlier).map (storeService sampleHost sampleStore).time,
        t = 0 := by
      refine List.forall_mem_cons.mpr ⟨rfl, fun t ht => ?_⟩
      obtain ⟨q, hq, rfl⟩ := List.mem_map.mp ht
      exact (uploadRequests_plain hearlier hq).1
    exact List.pairwise_of_forall_mem_list fun t ht t' ht' => by rw [hzero t ht, hzero t' ht']
  obtain ⟨w, t, hrun⟩ := Service.serial_serveAlone (uploadRequests earlier)
    (.nil : (storeService sampleHost sampleStore).Serial
      ⟨.initial [⟨1, .user, .active⟩], fun _ => none⟩ 0 [] _ 0)
    (fun q hq => (uploadRequests_plain hearlier hq).2.1) htimes
  have hrequests : ∀ e ∈ uploadRun earlier, e.request ∈ uploadRequests earlier := by
    intro e he
    rw [← Service.requests_serveAlone (V := storeService sampleHost sampleStore)
      (uploadRequests earlier)]
    exact List.mem_map_of_mem he
  rw [List.nil_append] at hrun
  change (storeService sampleHost sampleStore).Serial _ _ (uploadRun earlier) w t at hrun
  rw [uploadRun_eq] at hrun hrequests
  exact ⟨_, w, t,
    { run := hrun
      upload := rfl
      media := rfl
      created := StoreEvent.result_of_isCreated hcreated
      kept := fun _ hx => absurd hx List.not_mem_nil
      digest := fun x hx u' hu' _ => (uploadRequests_plain hearlier (hrequests x hx)).2.2 u' hu'
      push := rfl
      user := rfl
      project := rfl
      executed := StoreEvent.result_of_response hresponse }⟩

/-- The bytes were uploaded as JSON before. -/
def earlierAsJson : List StoreRequest := [⟨0, .putPayload (sampleUpload "application/json" 5)⟩]

/-- An upload as Markdown and a push of a todo, when nothing was uploaded before. -/
theorem accepted_sample : ∃ response h₁ w t, PushedAfterUpload sampleHost sampleStore
    (sampleUpload "text/markdown" 6) "text/markdown" sampleTodoPush response (markdownEvent [])
      (todoEvent []) [⟨1, .user, .active⟩] 0 h₁ [] [] w t ∧
    ∃ generation results, pushResponseJson sampleHost generation results = some response ∧
      List.Forall₂ (fun revision result =>
        NamesUpload (sampleUpload "text/markdown" 6) "text/markdown" revision →
          result.isConflict = false →
            (result.isRejected = false ↔ validMediaType revision.kind
              ((markdownEvent []).before.declaredType
                (sampleUpload "text/markdown" 6) "text/markdown") = true))
        sampleTodoPush.revisions results := by
  have hstatuses : (todoEvent []).response.bind itemStatuses = some [some "applied"] := by
    decide +kernel
  obtain ⟨response, hresponse, -⟩ := Option.bind_eq_some_iff.mp hstatuses
  obtain ⟨h₁, w, t, h⟩ := pushedAfterUpload_sample (fun _ hq => absurd hq List.not_mem_nil)
    (by decide +kernel) hresponse
  exact ⟨response, h₁, w, t, h, accepted_iff_declaredType h⟩

/-- An upload as Markdown and a push of a todo, when the same bytes were uploaded as JSON before:
the upload succeeds, and the todo is rejected. -/
theorem rejected_sample : ∃ response h₁ w t, PushedAfterUpload sampleHost sampleStore
    (sampleUpload "text/markdown" 6) "text/markdown" sampleTodoPush response
      (markdownEvent earlierAsJson) (todoEvent earlierAsJson) [⟨1, .user, .active⟩] 0 h₁ [] [] w t ∧
    ¬ ∃ generation results, pushResponseJson sampleHost generation results = some response ∧
      List.Forall₂ (fun revision result =>
        NamesUpload (sampleUpload "text/markdown" 6) "text/markdown" revision →
          result.isConflict = false → result.isRejected = false)
        sampleTodoPush.revisions results := by
  have hstatuses : (todoEvent earlierAsJson).response.bind itemStatuses =
      some [some "rejected"] := by
    decide +kernel
  obtain ⟨response, hresponse, hrejected⟩ := Option.bind_eq_some_iff.mp hstatuses
  obtain ⟨h₁, w, t, h⟩ := pushedAfterUpload_sample
    (fun q hq => ⟨"application/json", 5, List.mem_singleton.mp hq⟩) (by decide +kernel) hresponse
  refine ⟨response, h₁, w, t, h, fun ⟨generation, results, hjson, hall⟩ => ?_⟩
  rw [itemStatuses_pushResponseJson hjson] at hrejected
  cases hall with
  | cons hitem hrest =>
    rename_i result rest
    cases hrest
    have hstatus : result.status = "rejected" := by simpa using hrejected
    have hnames : NamesUpload (sampleUpload "text/markdown" 6) "text/markdown"
        (sampleItem "x" none false) := ⟨rfl, rfl, by decide +kernel, by decide⟩
    cases result with
    | applied => exact absurd hstatus (by simp [PushItemResult.status])
    | conflict => exact absurd hstatus (by simp [PushItemResult.status])
    | rejected => exact nomatch hitem hnames rfl

end TaskTipsCloud

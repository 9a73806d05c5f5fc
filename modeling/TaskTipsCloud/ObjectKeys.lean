import TaskTipsCloud.AccountPurges
import TaskTipsCloud.Cleanup
import TaskTipsCloud.Exports
import TaskTipsCloud.Library.Segments
import TaskTipsCloud.PurgeSteps
import TaskTipsCloud.SnapshotSteps
import TaskTipsCloud.UploadRuns

/-!
# The keys of objects

The keys that `crates/object-store/src/lib.rs` builds, the parser of the payload keys and the tests
that the cleanup makes on the keys that it lists. The keys of snapshots and exports are spelt a
second time in `crates/persistence/src/lib.rs`. A key is a text of segments with slashes between
them, and its segments determine its class and what it was built from.
-/

namespace TaskTipsCloud

open Txn

namespace ObjectStore

/-! ## The builders -/

/-- The first two bytes of a digest, or the digest when they end inside a character. -/
def shard (contentHash : String) : String :=
  match contentHash.toList with
  | a :: b :: _ =>
    if a.utf8Size = 1 ∧ b.utf8Size = 1 then String.ofList [a, b]
    else if a.utf8Size = 2 then String.ofList [a]
    else contentHash
  | _ => contentHash

/-- `payload_key`. -/
def payloadKey (ownerUserId projectId : Uuid) (contentHash : String) : String :=
  "users/" ++ ownerUserId.text ++ "/projects/" ++ projectId.text ++ "/payloads/sha256/" ++
    shard contentHash ++ "/" ++ contentHash

/-- `manifest_key`. -/
def manifestKey (ownerUserId projectId snapshotId : Uuid) : String :=
  "users/" ++ ownerUserId.text ++ "/projects/" ++ projectId.text ++ "/snapshots/" ++
    snapshotId.text ++ "/manifest.json"

/-- `bootstrap_manifest_key`. -/
def bootstrapManifestKey (ownerUserId projectId manifestId : Uuid) : String :=
  "users/" ++ ownerUserId.text ++ "/projects/" ++ projectId.text ++ "/bootstrap/" ++
    manifestId.text ++ ".json"

/-- A digit of a lower-case hexadecimal text. -/
def isLowerHex (c : Char) : Bool := ('0' ≤ c && c ≤ '9') || ('a' ≤ c && c ≤ 'f')

/-- A text of lower-case hexadecimal digits. -/
@[ext]
structure HexText where
  text : String
  digits : text.toList.all isLowerHex = true

/-- What a key is built from. -/
inductive BuiltKey where
  | payload (ownerUserId projectId : Uuid) (contentHash : HexText)
  | manifest (ownerUserId projectId snapshotId : Uuid)
  | bootstrap (ownerUserId projectId manifestId : Uuid)
  | accountExport (ownerUserId exportId : Uuid)
  | upload (ownerUserId projectId uploadId : Uuid)

namespace BuiltKey

/-- The key. -/
def text : BuiltKey → String
  | payload ownerUserId projectId contentHash => payloadKey ownerUserId projectId contentHash.text
  | manifest ownerUserId projectId snapshotId => manifestKey ownerUserId projectId snapshotId
  | bootstrap ownerUserId projectId manifestId =>
    bootstrapManifestKey ownerUserId projectId manifestId
  | accountExport ownerUserId exportId => Exports.exportKey ownerUserId exportId
  | upload ownerUserId projectId uploadId =>
    (ObjectKey.upload ownerUserId projectId uploadId).text

/-- Whether the key is that of a payload. -/
def isPayload : BuiltKey → Bool
  | payload .. => true
  | _ => false

/-- Whether the key is that of a manifest or of a temporary object of an upload. -/
def isOrphanable : BuiltKey → Bool
  | manifest .. | bootstrap .. | upload .. => true
  | _ => false

/-- The segments of the key. -/
def segments : BuiltKey → List String
  | payload ownerUserId projectId contentHash =>
    ["users", ownerUserId.text, "projects", projectId.text, "payloads", "sha256",
      shard contentHash.text, contentHash.text]
  | manifest ownerUserId projectId snapshotId =>
    ["users", ownerUserId.text, "projects", projectId.text, "snapshots", snapshotId.text,
      "manifest.json"]
  | bootstrap ownerUserId projectId manifestId =>
    ["users", ownerUserId.text, "projects", projectId.text, "bootstrap",
      manifestId.text ++ ".json"]
  | accountExport ownerUserId exportId =>
    ["users", ownerUserId.text, "exports", exportId.text ++ ".tar.zst"]
  | upload ownerUserId projectId uploadId =>
    ["users", ownerUserId.text, "projects", projectId.text, "uploads", uploadId.text]

/-! ## Segments -/

/-- The key joins its segments with slashes. -/
theorem toList_text (k : BuiltKey) :
    k.text.toList = ['/'].intercalate (k.segments.map String.toList) := by
  cases k <;>
    simp [text, segments, payloadKey, manifestKey, bootstrapManifestKey, Exports.exportKey,
      ObjectKey.text, List.intercalate, List.intersperse]

end BuiltKey

/-- A text of characters of the text of UUIDs, or of hexadecimal digits. -/
theorem notMem_uuid {u : Uuid} {c : Char} (hhyphen : c ≠ '-')
    (hdigit : c ∉ "0123456789abcdef".toList) : c ∉ u.text.toList :=
  fun h => (Uuid.mem_text h).elim hhyphen hdigit

/-- Hexadecimal text has no other characters. -/
theorem notMem_hexText {h : HexText} {c : Char} (hdigit : isLowerHex c = false) :
    c ∉ h.text.toList := fun hmem => by
  rw [List.all_eq_true.mp h.digits c hmem] at hdigit
  cases hdigit

/-- A shard is made of characters of its digest. -/
theorem mem_shard {h : String} {c : Char} (hc : c ∈ (shard h).toList) : c ∈ h.toList := by
  unfold shard at hc
  split at hc
  · next a b rest hlist =>
    rw [hlist]
    split at hc
    · rw [String.toList_ofList] at hc
      simp only [List.mem_cons, List.not_mem_nil, or_false] at hc
      rcases hc with rfl | rfl <;> simp
    · split at hc
      · rw [String.toList_ofList, List.mem_singleton] at hc
        simp [hc]
      · rwa [hlist] at hc
  · exact hc

/-- A hexadecimal digit takes one byte. -/
theorem utf8Size_of_isLowerHex {c : Char} (h : isLowerHex c = true) : c.utf8Size = 1 := by
  have hle : c ≤ 'f' := by
    simp only [isLowerHex, Bool.or_eq_true, Bool.and_eq_true, decide_eq_true_eq] at h
    rcases h with ⟨-, h⟩ | ⟨-, h⟩
    · exact le_trans h (by decide)
    · exact h
  have hval : c.val ≤ 0x7F := UInt32.le_trans (Char.le_def.mp hle) (by decide)
  exact Char.utf8Size_eq_one_iff.mpr hval

/-- The shard of a hexadecimal digest is its first two digits. -/
theorem shard_hexText (h : HexText) : shard h.text = String.ofList (h.text.toList.take 2) := by
  have hsize : ∀ c ∈ h.text.toList, c.utf8Size = 1 := fun c hc =>
    utf8Size_of_isLowerHex (List.all_eq_true.mp h.digits c hc)
  unfold shard
  split
  · next a b rest hlist =>
    rw [hlist] at hsize ⊢
    rw [if_pos ⟨hsize a (by simp), hsize b (by simp)⟩]
    rfl
  · next hshort =>
    cases hlist : h.text.toList with
    | nil => rw [← String.toList_inj, hlist]; rfl
    | cons a rest =>
      cases rest with
      | nil => rw [← String.toList_inj, hlist, String.toList_ofList]; rfl
      | cons b rest => exact absurd hlist (hshort a b rest)

namespace BuiltKey

/-- No segment has a slash. -/
theorem notMem_segments (k : BuiltKey) : ∀ s ∈ k.segments, '/' ∉ s.toList := by
  have huuid (u : Uuid) : '/' ∉ u.text.toList := notMem_uuid (by decide) (by decide)
  have hhex (h : HexText) : '/' ∉ h.text.toList := notMem_hexText (by decide)
  have hshard (h : HexText) : '/' ∉ (shard h.text).toList := fun hmem => hhex h (mem_shard hmem)
  cases k <;> simp [segments, huuid, hhex, hshard]

/-- The segments are found by splitting the key at the slashes. -/
theorem splitOn_text (k : BuiltKey) :
    k.text.toList.splitOn '/' = k.segments.map String.toList := by
  rw [toList_text]
  refine List.splitOn_intercalate _ (fun l hl => ?_) (by cases k <;> simp [segments])
  obtain ⟨s, hs, rfl⟩ := List.mem_map.mp hl
  exact k.notMem_segments s hs

/-- The segments of a key are those of its text. -/
theorem map_splitOn_text (k : BuiltKey) :
    (k.text.toList.splitOn '/').map String.ofList = k.segments := by
  rw [splitOn_text, List.map_map]
  simp [Function.comp_def]

/-- A key determines what it was built from. -/
theorem text_injective : Function.Injective text := by
  intro k k' h
  have huuid : Function.Injective Uuid.text := fun u v huv => by
    have hparse := congrArg Uuid.parse huv
    rwa [Uuid.parse_text, Uuid.parse_text, Option.some.injEq] at hparse
  have hsegments : k.segments = k'.segments := by
    rw [← map_splitOn_text, h, map_splitOn_text]
  cases k <;> cases k' <;>
    simp_all [segments, huuid.eq_iff, String.append_left_inj, HexText.ext_iff]

end BuiltKey

/-- Characters of one byte each have as many bytes as there are. -/
theorem utf8ByteSize_ofList {cs : List Char} (h : ∀ c ∈ cs, c.utf8Size = 1) :
    (String.ofList cs).utf8ByteSize = cs.length := by
  induction cs with
  | nil => rfl
  | cons c cs ih =>
    rw [← List.singleton_append, String.ofList_append, String.utf8ByteSize_append,
      ih fun d hd => h d (List.mem_cons_of_mem _ hd), ← String.singleton_eq_ofList,
      String.utf8ByteSize_singleton, h c List.mem_cons_self]
    simp [Nat.add_comm]

/-- A hexadecimal text has as many bytes as digits. -/
theorem utf8ByteSize_hexText (h : HexText) : h.text.utf8ByteSize = h.text.toList.length := by
  have hsize := utf8ByteSize_ofList fun c hc =>
    utf8Size_of_isLowerHex (List.all_eq_true.mp h.digits c hc)
  rwa [String.ofList_toList] at hsize

namespace BuiltKey

/-! ## The parser of payload keys -/

/-- The parser inverts the keys of payloads whose digest has 64 digits, and accepts no other. -/
theorem parsePayloadKey_text (k : BuiltKey) : parsePayloadKey k.text =
    match k with
    | payload ownerUserId projectId contentHash =>
      if contentHash.text.toList.length = 64 then
        some (ownerUserId, projectId, contentHash.text) else none
    | _ => none := by
  unfold parsePayloadKey
  rw [map_splitOn_text]
  cases k with
  | payload ownerUserId projectId contentHash =>
    have hbytes := utf8ByteSize_hexText contentHash
    by_cases hlen : contentHash.text.toList.length = 64 <;>
      simp [segments, Uuid.parse_text, hbytes, hlen, guard, failure]
  | _ => rfl

/-! ## The tests of the cleanup -/

/-- The folder that tells the class of a key. -/
def folder : BuiltKey → String
  | payload .. => "payloads"
  | manifest .. => "snapshots"
  | bootstrap .. => "bootstrap"
  | accountExport .. => "exports"
  | upload .. => "uploads"

/-- A folder that is a segment of a key is the one of its class. -/
theorem folder_of_mem_segments {k : BuiltKey} {name : String}
    (hname : name ∈ ["uploads", "snapshots", "bootstrap", "payloads"])
    (h : name ∈ k.segments) : k.folder = name := by
  have hletters : ∀ s ∈ ["uploads", "snapshots", "bootstrap", "payloads"],
      'o' ∈ s.toList ∧ '.' ∉ s.toList ∧
        s ∉ ["users", "projects", "sha256", "exports", "manifest.json"] := by decide
  obtain ⟨ho, hdot, hfixed⟩ := hletters name hname
  -- No UUID and no digest has the letter, and no name has the dot of an ending.
  have huuid (u : Uuid) : name ≠ u.text := by
    rintro rfl
    exact notMem_uuid (by decide) (by decide) ho
  have hhex (h : HexText) : name ≠ h.text := by
    rintro rfl
    exact notMem_hexText (by decide) ho
  have hshard (h : HexText) : name ≠ shard h.text := by
    rintro rfl
    exact notMem_hexText (by decide) (mem_shard ho)
  have hending (u : Uuid) (s : String) (hs : '.' ∈ s.toList) : name ≠ u.text ++ s := by
    rintro rfl
    exact hdot (by rw [String.toList_append]; exact List.mem_append_right _ hs)
  have hjson (u : Uuid) : name ≠ u.text ++ ".json" := hending u _ (by decide)
  have harchive (u : Uuid) : name ≠ u.text ++ ".tar.zst" := hending u _ (by decide)
  simp only [List.mem_cons, List.not_mem_nil, or_false, not_or] at hfixed
  obtain ⟨husers, hprojects, hsha256, hexports, hmanifest⟩ := hfixed
  cases k <;>
    simp only [segments, List.mem_cons, List.not_mem_nil, husers, hprojects, hsha256, hexports,
      hmanifest, huuid, hhex, hshard, hjson, harchive, or_false, false_or] at h <;>
    exact h.symm

/-- A folder in the text of a key is one of its segments. -/
theorem keyContains_folder {k : BuiltKey} {name : String} (hslash : '/' ∉ name.toList)
    (h : keyContains k.text ("/" ++ name ++ "/") = true) : name ∈ k.segments := by
  have hinfix := of_decide_eq_true h
  rw [String.toList_append, String.toList_append] at hinfix
  have hmem := mem_splitOn_of_infix hslash hinfix
  rw [splitOn_text] at hmem
  obtain ⟨s, hs, heq⟩ := List.mem_map.mp hmem
  rwa [String.toList_inj.mp heq] at hs

/-- A text contains each of its parts. -/
theorem keyContains_append (s t r : String) : keyContains (s ++ t ++ r) t = true := by
  refine decide_eq_true ⟨s.toList, r.toList, ?_⟩
  simp

/-- A key contains its folder between slashes. -/
theorem keyContains_text (k : BuiltKey) : keyContains k.text ("/" ++ k.folder ++ "/") = true := by
  cases k with
  | payload ownerUserId projectId contentHash =>
    have htext : (payload ownerUserId projectId contentHash).text =
        "users/" ++ ownerUserId.text ++ "/projects/" ++ projectId.text ++
          ("/" ++ "payloads" ++ "/") ++
          ("sha256/" ++ shard contentHash.text ++ "/" ++ contentHash.text) := by
      simp [text, payloadKey, ← String.toList_inj]
    rw [htext]
    exact keyContains_append _ _ _
  | manifest ownerUserId projectId snapshotId =>
    have htext : (manifest ownerUserId projectId snapshotId).text =
        "users/" ++ ownerUserId.text ++ "/projects/" ++ projectId.text ++
          ("/" ++ "snapshots" ++ "/") ++ (snapshotId.text ++ "/manifest.json") := by
      simp [text, manifestKey, ← String.toList_inj]
    rw [htext]
    exact keyContains_append _ _ _
  | bootstrap ownerUserId projectId manifestId =>
    have htext : (bootstrap ownerUserId projectId manifestId).text =
        "users/" ++ ownerUserId.text ++ "/projects/" ++ projectId.text ++
          ("/" ++ "bootstrap" ++ "/") ++ (manifestId.text ++ ".json") := by
      simp [text, bootstrapManifestKey, ← String.toList_inj]
    rw [htext]
    exact keyContains_append _ _ _
  | accountExport ownerUserId exportId =>
    have htext : (accountExport ownerUserId exportId).text =
        "users/" ++ ownerUserId.text ++ ("/" ++ "exports" ++ "/") ++
          (exportId.text ++ ".tar.zst") := by
      simp [text, Exports.exportKey, ← String.toList_inj]
    rw [htext]
    exact keyContains_append _ _ _
  | upload ownerUserId projectId uploadId =>
    have htext : (upload ownerUserId projectId uploadId).text =
        "users/" ++ ownerUserId.text ++ "/projects/" ++ projectId.text ++
          ("/" ++ "uploads" ++ "/") ++ uploadId.text := by
      simp [text, ObjectKey.text]
    rw [htext]
    exact keyContains_append _ _ _

/-- A key contains a folder between slashes just when it is the folder of its class. -/
theorem keyContains_iff {k : BuiltKey} {name : String}
    (hname : name ∈ ["uploads", "snapshots", "bootstrap", "payloads"]) :
    keyContains k.text ("/" ++ name ++ "/") = true ↔ k.folder = name := by
  constructor
  · intro h
    have hslash : ∀ s ∈ ["uploads", "snapshots", "bootstrap", "payloads"], '/' ∉ s.toList := by
      decide
    exact folder_of_mem_segments hname (keyContains_folder (hslash name hname) h)
  · rintro rfl
    exact keyContains_text k

/-- The keys that the deletion of orphans considers. -/
theorem isManaged_text (k : BuiltKey) : isManaged k.text = k.isOrphanable := by
  have huploads : "/uploads/" = "/" ++ "uploads" ++ "/" := by decide
  have hsnapshots : "/snapshots/" = "/" ++ "snapshots" ++ "/" := by decide
  have hbootstrap : "/bootstrap/" = "/" ++ "bootstrap" ++ "/" := by decide
  rw [Bool.eq_iff_iff, isManaged, Bool.or_eq_true, Bool.or_eq_true, huploads, hsnapshots,
    hbootstrap, keyContains_iff (by decide), keyContains_iff (by decide),
    keyContains_iff (by decide)]
  cases k <;> simp [folder, isOrphanable]

/-- The keys that the listing of stale payloads considers. -/
theorem keyContains_sha256 (k : BuiltKey) :
    keyContains k.text "/payloads/sha256/" = k.isPayload := by
  cases hpayload : k.isPayload with
  | true =>
    cases k with
    | payload ownerUserId projectId contentHash =>
      have htext : (payload ownerUserId projectId contentHash).text =
          "users/" ++ ownerUserId.text ++ "/projects/" ++ projectId.text ++ "/payloads/sha256/" ++
            (shard contentHash.text ++ "/" ++ contentHash.text) := by
        simp [text, payloadKey, ← String.toList_inj]
      rw [htext]
      exact keyContains_append _ _ _
    | _ => cases hpayload
  | false =>
    rw [Bool.eq_false_iff]
    intro h
    have hshorter : keyContains k.text ("/" ++ "payloads" ++ "/") = true := by
      refine decide_eq_true (List.IsInfix.trans ?_ (of_decide_eq_true h))
      decide
    have hfolder := (keyContains_iff (by decide)).mp hshorter
    cases k with
    | payload => cases hpayload
    | _ => exact absurd hfolder (by simp [folder])

/-- Every key is below the prefix that the cleanup lists. -/
theorem prefix_text (k : BuiltKey) : "users/".toList <+: k.text.toList := by
  cases k <;> simp [text, payloadKey, manifestKey, bootstrapManifestKey, Exports.exportKey,
    ObjectKey.text]

end BuiltKey

/-- A key that the parser accepts and that is not the key of what it returns is no key of a
payload. -/
theorem ne_payloadKey {key contentHash : String} {ownerUserId projectId : Uuid}
    (hparse : parsePayloadKey key = some (ownerUserId, projectId, contentHash))
    (hne : key ≠ payloadKey ownerUserId projectId contentHash) (ownerUserId' projectId' : Uuid)
    (contentHash' : HexText) :
    (BuiltKey.payload ownerUserId' projectId' contentHash').text ≠ key := by
  rintro rfl
  rw [BuiltKey.parsePayloadKey_text] at hparse
  dsimp only at hparse
  split at hparse
  · cases hparse
    exact hne rfl
  · cases hparse

end ObjectStore

open ObjectStore

/-! ## The catalog -/

/-- The row of a payload has the key that the object store builds. -/
def PayloadRow.HasBuiltKey (x : PayloadRow) : Prop :=
  ∃ contentHash : HexText, contentHash.text = x.contentHash ∧
    x.objectKey = (BuiltKey.payload x.ownerUserId x.projectId contentHash).text

/-- The rows of payloads are old, or have the keys that the object store builds. -/
def AddsBuiltKeys (w w' : StoreWorld) : Prop :=
  ∀ x ∈ w'.db.payloads, x ∈ w.db.payloads ∨ x.HasBuiltKey

section

variable {host : Host} {s3 : ObjectHost} {now : Timestamp} {u : UploadRequest} {w w' : StoreWorld}

/-- The key under which an upload stores its object is the one that the object store builds. -/
theorem text_payload (ownerUserId projectId : Uuid) (contentHash : HexText) :
    (ObjectKey.payload ownerUserId projectId contentHash.text).text =
      (BuiltKey.payload ownerUserId projectId contentHash).text := by
  show _ = payloadKey ownerUserId projectId contentHash.text
  rw [payloadKey, shard_hexText]
  rfl

/-- A payload that was put is returned with its key and its digest. -/
theorem run_putPayloadFile_key {m : String} {info : PayloadInfo}
    (h : (putPayloadFile s3 u.fates u.userId u.projectId u.uploadId u.contentHash m u.bytes).run w =
      (.ok info, w')) : info.key = u.key ∧ info.contentHash = u.contentHash := by
  obtain ⟨found, w₁, -, h⟩ := run_bind_ok_iff.mp h
  cases found with
  | some existing =>
    obtain ⟨_, _, -, h⟩ := run_bind_ok_iff.mp h
    obtain ⟨rfl, -⟩ := run_pure_ok_iff.mp h
    exact ⟨rfl, rfl⟩
  | none =>
    simp only [storePayloadFile, bind_eq, pure_eq, run_bind_ok_iff, run_pure_ok_iff] at h
    obtain ⟨_, _, -, _, _, -, _, _, -, _, _, -, _, _, -, _, _, -, _, _, -, _, _, -, rfl, -⟩ := h
    exact ⟨rfl, rfl⟩

/-- An upload registers only a row with the key that the object store builds. -/
theorem addsBuiltKeys_putPayload : AddsBuiltKeys w ((putPayload s3 now u).run w).2 := by
  have hkept : AddsBuiltKeys w w := fun x hx => .inl hx
  unfold putPayload
  refine run_bind_snd (by rw [run_require]; exact hkept) fun _ w₁ h₁ _ => ?_
  obtain ⟨hvalid, rfl⟩ := run_require_ok_iff.mp h₁
  refine run_bind_snd (by rw [run_orThrow]; exact hkept) fun _ w₂ h₂ _ => ?_
  obtain ⟨-, rfl⟩ := run_orThrow_ok_iff.mp h₂
  refine run_bind_snd (by rw [run_orThrow]; exact hkept) fun m w₃ h₃ _ => ?_
  obtain ⟨-, rfl⟩ := run_orThrow_ok_iff.mp h₃
  have hvalidated : ((onDatabase (validateSyncProject u.userId u.projectId)).run w).2 = w := by
    rw [run_onDatabase, execute_validateSyncProject]
  refine run_bind_snd (by rw [hvalidated]; exact hkept) fun _ w₄ h₄ _ => ?_
  obtain rfl : w₄ = w := (congrArg Prod.snd h₄).symm.trans hvalidated
  refine run_bind_snd (by rw [run_require]; exact hkept) fun _ w₅ h₅ _ => ?_
  obtain ⟨-, rfl⟩ := run_require_ok_iff.mp h₅
  refine run_bind_snd (by rw [run_require]; exact hkept) fun _ w₆ h₆ _ => ?_
  obtain ⟨-, rfl⟩ := run_require_ok_iff.mp h₆
  refine run_bind_snd ?_ fun info w₇ h₇ _ => ?_
  · unfold AddsBuiltKeys
    rw [putsPayload_putPayloadFile.db]
    exact hkept
  -- Up to here the database is as it was. The row gets the key and the hash of the stored file.
  obtain ⟨hkey, hhash⟩ := run_putPayloadFile_key h₇
  have hdb := (putsPayload_of_run h₇).db
  rw [run_onDatabase]
  rcases hregister : (registerPayload now u.userId u.projectId u.payloadId info.stored).execute
    w₇.db with ⟨r, d⟩
  change ∀ x ∈ ((registerPayload now u.userId u.projectId u.payloadId info.stored).execute
    w₇.db).2.payloads, _
  rw [hregister]
  rcases execute_registerPayload hregister with ⟨rfl, -⟩ | ⟨-, -, -, rfl⟩
  · rw [hdb]
    exact hkept
  · intro x hx
    rcases List.mem_append.mp hx with hx | hx
    · rw [hdb] at hx
      exact .inl hx
    · obtain rfl := List.mem_singleton.mp hx
      rw [validContentHash, Bool.and_eq_true] at hvalid
      refine .inr ⟨⟨u.contentHash, hvalid.2⟩, hhash.symm, ?_⟩
      show info.key.text = _
      rw [hkey]
      exact text_payload _ _ ⟨u.contentHash, hvalid.2⟩

/-- In every run, the rows of payloads have the keys that the object store builds. -/
theorem hasBuiltKey_of_serial {users : List UserRow} {t₀ t : ℤ} {h : List StoreEvent}
    (hrun : (storeService host s3).Serial ⟨.initial users, fun _ => none⟩ t₀ h w t) :
    ∀ x ∈ w.db.payloads, x.HasBuiltKey := by
  have hsound (h : List StoreEvent) (w : StoreWorld) (t : ℤ)
      (hrun : (storeService host s3).Serial ⟨.initial users, fun _ => none⟩ t₀ h w t) :=
    storeSound_of_serial hrun
  refine hrun.invariant (J := fun _ w _ => ∀ x ∈ w.db.payloads, x.HasBuiltKey)
    (fun x hx => absurd hx List.not_mem_nil) fun h w t q hrun hq _ hw => ?_
  have hafter : AddsBuiltKeys w ((storeService host s3).alone q w).after := by
    rw [after_alone]
    obtain ⟨now, call⟩ := q
    cases call with
    | putPayload u =>
      dsimp only [StoreCall.body]
      rw [run_bind_pure_snd]
      exact addsBuiltKeys_putPayload
    | deleteObject key => exact fun x hx => .inl hx
    | sync call =>
      dsimp only [StoreCall.body]
      rw [run_bind_pure_snd, run_onDatabase]
      intro x hx
      rcases payloadsStep_alone host (hsound h w t hrun).catalogued.sound ⟨now, call⟩ with
        hsub | ⟨hregister, -, -, -⟩
      · exact .inl (hsub.subset hx)
      · change (StoreCall.sync call).isRegistration = false at hq
        rw [show call = _ from hregister] at hq
        cases hq
  exact fun x hx => (hafter x hx).elim (hw x) id

end

/-! ## The keys that the database spells -/

section

variable {host : Host} {now : Timestamp} {order : ScanOrder}

/-- A snapshot is recorded under the key that the object store builds. -/
theorem manifestKey_snapshotManifest {userId p snapshotId : Uuid} {d d' : Db}
    {r : Except PersistenceError (ℤ × ℤ × Json)}
    (h : (snapshotManifest host now order userId p snapshotId).run d = (.ok r, d')) :
    ∃ x, d'.snapshots = d.snapshots ++ [x] ∧ x.id = snapshotId ∧
      x.manifestKey = (BuiltKey.manifest userId p snapshotId).text := by
  obtain ⟨row, manifest, -, -, -, -, rfl⟩ := run_snapshotManifest h
  exact ⟨_, rfl, rfl, rfl⟩

/-- The snapshot before a restore is recorded under the key that the object store builds for its
owner. -/
theorem manifestKey_createPreRestoreSnapshot {p jobId leaseToken snapshotId : Uuid} {d d' : Db}
    {r : Except PersistenceError (Uuid × Uuid × Json)}
    (h : (createPreRestoreSnapshot host now order p jobId leaseToken snapshotId).run d =
      (.ok r, d')) :
    ∃ x manifest, d'.snapshots = d.snapshots ++ [x] ∧
      r = .ok (snapshotId, x.ownerUserId, manifest) ∧
      x.id = snapshotId ∧ x.manifestKey = (BuiltKey.manifest x.ownerUserId p snapshotId).text := by
  obtain ⟨job, row, manifest, -, rfl, -, -, -, rfl, rfl⟩ := run_createPreRestoreSnapshot h
  exact ⟨_, _, rfl, rfl, rfl, rfl⟩

/-- An export is recorded under the key that the object store builds. -/
theorem objectKey_requestAccountPurgeExport {actorUserId subjectUserId jobId exportId : Uuid}
    {reason requestId : String} {d d' : PurgeDb} {r : Except PersistenceError AccountPurgeResponse}
    (h : (requestAccountPurgeExport now actorUserId subjectUserId jobId exportId reason
      requestId).run d = (.ok r, d')) :
    d'.exports = d.exports ∨ ∃ e, d'.exports = d.exports ++ [e] ∧ e.id = exportId ∧
      e.objectKey = (BuiltKey.accountExport subjectUserId exportId).text := by
  simp only [requestAccountPurgeExport, bind_eq, query_bind, run_read, run_bind_ok_iff,
    run_require_ok_iff] at h
  obtain ⟨_, _, huser, h⟩ := h
  obtain ⟨rfl, -⟩ := run_purgeableUser huser
  obtain ⟨_, _, ⟨-, rfl⟩, h⟩ := h
  cases hwanted : wantedExport now subjectUserId d with
  | some found =>
    simp only [hwanted, pure_eq, run_pure_ok_iff] at h
    obtain ⟨-, rfl⟩ := h
    exact .inl rfl
  | none =>
    simp only [hwanted, run_read, run_bind_ok_iff, run_require_ok_iff, run_modify_ok_iff, pure_eq,
      run_pure_ok_iff] at h
    obtain ⟨_, _, hinsert, _, _, ⟨-, rfl⟩, _, _, rfl, _, _, haudit, -, rfl⟩ := h
    obtain ⟨-, rfl⟩ := run_insertJob hinsert
    obtain ⟨event, -, -, rfl⟩ := run_auditPurge haudit
    exact .inr ⟨_, rfl, rfl, rfl⟩

end

/-! ## The key space -/

/-- What makes the keys of the objects unambiguous. -/
structure KeysUnambiguous (host : Host) (s3 : ObjectHost) : Prop where
  /-- A key determines its class and what it was built from. -/
  injective : Function.Injective BuiltKey.text
  /-- The parser inverts the keys of payloads. -/
  inverts : ∀ ownerUserId projectId (contentHash : HexText), contentHash.text.toList.length = 64 →
    parsePayloadKey (payloadKey ownerUserId projectId contentHash.text) =
      some (ownerUserId, projectId, contentHash.text)
  /-- The parser accepts no key of another class. -/
  others : ∀ k : BuiltKey, k.isPayload = false → parsePayloadKey k.text = none
  /-- A key that the parser accepts and that is spelt otherwise than the key of what it returns is
  that of no payload in the catalog. -/
  misspelt : ∀ {users : List UserRow} {t₀ t : ℤ} {h : List StoreEvent} {w : StoreWorld},
    (storeService host s3).Serial ⟨.initial users, fun _ => none⟩ t₀ h w t →
      ∀ {key contentHash : String} {ownerUserId projectId : Uuid},
        parsePayloadKey key = some (ownerUserId, projectId, contentHash) →
          key ≠ payloadKey ownerUserId projectId contentHash →
            ∀ x ∈ w.db.payloads, x.objectKey ≠ key
  /-- The database records snapshots under the keys that the object store builds. -/
  snapshots : ∀ {now order userId p snapshotId r} {d d' : Db},
    (snapshotManifest host now order userId p snapshotId).run d = (.ok r, d') →
      ∃ x, d'.snapshots = d.snapshots ++ [x] ∧ x.id = snapshotId ∧
        x.manifestKey = (BuiltKey.manifest userId p snapshotId).text
  preRestoreSnapshots : ∀ {now order p jobId leaseToken snapshotId r} {d d' : Db},
    (createPreRestoreSnapshot host now order p jobId leaseToken snapshotId).run d = (.ok r, d') →
      ∃ x manifest, d'.snapshots = d.snapshots ++ [x] ∧
        r = .ok (snapshotId, x.ownerUserId, manifest) ∧ x.id = snapshotId ∧
          x.manifestKey = (BuiltKey.manifest x.ownerUserId p snapshotId).text
  /-- The database records exports under the keys that the object store builds. -/
  exports : ∀ {now actorUserId subjectUserId jobId exportId reason requestId r} {d d' : PurgeDb},
    (requestAccountPurgeExport now actorUserId subjectUserId jobId exportId reason requestId).run
        d =
        (.ok r, d') →
      d'.exports = d.exports ∨ ∃ e, d'.exports = d.exports ++ [e] ∧ e.id = exportId ∧
        e.objectKey = (BuiltKey.accountExport subjectUserId exportId).text
  /-- The cleanup lists every key. The deletion of orphans considers those of manifests and uploads,
  and the collection of stale payloads those of payloads. -/
  considered : ∀ k : BuiltKey, "users/".toList <+: k.text.toList ∧
    isManaged k.text = k.isOrphanable ∧ keyContains k.text "/payloads/sha256/" = k.isPayload

/-- The keys of the objects are unambiguous. -/
theorem object_keys_unambiguous (host : Host) (s3 : ObjectHost) : KeysUnambiguous host s3 where
  injective := BuiltKey.text_injective
  inverts ownerUserId projectId contentHash hlen := by
    have hparse := BuiltKey.parsePayloadKey_text (.payload ownerUserId projectId contentHash)
    dsimp only at hparse
    rw [if_pos hlen] at hparse
    exact hparse
  others k hk := by
    rw [BuiltKey.parsePayloadKey_text]
    cases k with
    | payload => cases hk
    | _ => rfl
  misspelt hrun key contentHash ownerUserId projectId hparse hne x hx := by
    obtain ⟨contentHash', -, hkey⟩ := hasBuiltKey_of_serial hrun x hx
    rw [hkey]
    exact ne_payloadKey hparse hne _ _ _
  snapshots h := manifestKey_snapshotManifest h
  preRestoreSnapshots h := manifestKey_createPreRestoreSnapshot h
  exports h := objectKey_requestAccountPurgeExport h
  considered k := ⟨k.prefix_text, k.isManaged_text, k.keyContains_sha256⟩

end TaskTipsCloud

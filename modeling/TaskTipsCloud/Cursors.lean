import TaskTipsCloud.Domain
import TaskTipsCloud.Library.Base64
import TaskTipsCloud.Library.Hmac
import TaskTipsCloud.Library.Segments

/-!
# Cursors

`crates/api/src/cursor.rs`. A cursor is the text of its claims and a keyed digest of that text, both
in base64. What was signed is verified, and what is verified carries the digest of just its own
text.
-/

namespace TaskTipsCloud

open Base64

/-! ## Claims -/

/-- What a cursor is for. -/
inductive CursorKind where
  | bootstrap
  | pull
  deriving DecidableEq, Repr

/-- The claims of a cursor. -/
structure CursorClaims where
  schemaVersion : UInt8
  kind : CursorKind
  projectId : Uuid
  ownerUserId : Uuid
  generation : Int64
  changeSequence : Int64
  offset : Int64
  manifestId : Option Uuid
  issuedAt : Int64
  deriving DecidableEq

/-- The errors of a cursor. -/
inductive CursorError where
  | secret
  | invalid
  deriving DecidableEq, Repr

namespace CursorKind

/-- The kind as it is written. -/
def text : CursorKind → String
  | bootstrap => "bootstrap"
  | pull => "pull"

/-- Reads the name of a kind. -/
def ofText : String → Option CursorKind
  | "bootstrap" => some bootstrap
  | "pull" => some pull
  | _ => none

/-- Reads a kind: its name, or an object with its name and `null`. -/
def ofJson : Json → Option CursorKind
  | .str s => ofText s
  | .obj [(s, .null)] => ofText s
  | _ => none

end CursorKind

namespace CursorClaims

/-- The claims as they are written. -/
def toJson (c : CursorClaims) : Json :=
  .obj [("schemaVersion", .num c.schemaVersion.toNat),
    ("kind", .str c.kind.text),
    ("projectId", c.projectId.toJson),
    ("ownerUserId", c.ownerUserId.toJson),
    ("generation", .num c.generation.toInt),
    ("changeSequence", .num c.changeSequence.toInt),
    ("offset", .num c.offset.toInt),
    ("manifestId", .ofOption Uuid.toJson c.manifestId),
    ("issuedAt", .num c.issuedAt.toInt)]

/-- The member with a name, if there is one, unless there are several. -/
def member (members : List (String × Json)) (name : String) : Option (Option Json) :=
  match members.filter (·.1 == name) with
  | [] => some none
  | [m] => some (some m.2)
  | _ => none

/-- A member that must be there. -/
def required {α : Type} (members : List (String × Json)) (name : String) (f : Json → Option α) :
    Option α := do
  f (← ← member members name)

/-- Reads an integer of 64 bits. -/
def int64 (j : Json) : Option Int64 := j.i64?.map Int64.ofInt

/-- Reads a UUID. -/
def uuid (j : Json) : Option Uuid := j.str?.bind Uuid.parse

/-- Reads a UUID or `null`. -/
def optionalUuid : Json → Option (Option Uuid)
  | .null => some none
  | j => (uuid j).map some

/-- Reads claims: an object with members of these names, of which the manifest may be absent, or an
array of the values. -/
def ofJson : Json → Option CursorClaims
  | .obj members => do
    return {
      schemaVersion := ← (required members "schemaVersion" (·.int? 0 255)).map
        fun n => UInt8.ofNat n.toNat
      kind := ← required members "kind" CursorKind.ofJson
      projectId := ← required members "projectId" uuid
      ownerUserId := ← required members "ownerUserId" uuid
      generation := ← required members "generation" int64
      changeSequence := ← required members "changeSequence" int64
      offset := ← required members "offset" int64
      manifestId := ← (← member members "manifestId").elim (some none) optionalUuid
      issuedAt := ← required members "issuedAt" int64 }
  | .arr [schemaVersion, kind, projectId, ownerUserId, generation, changeSequence, offset,
      manifestId, issuedAt] => do
    return {
      schemaVersion := ← (schemaVersion.int? 0 255).map fun n => UInt8.ofNat n.toNat
      kind := ← CursorKind.ofJson kind
      projectId := ← uuid projectId
      ownerUserId := ← uuid ownerUserId
      generation := ← int64 generation
      changeSequence := ← int64 changeSequence
      offset := ← int64 offset
      manifestId := ← optionalUuid manifestId
      issuedAt := ← int64 issuedAt }
  | _ => none

/-- An integer of 64 bits is read back. -/
theorem int64_num (n : Int64) : int64 (.num n.toInt) = some n := by
  have hlo := n.le_toInt
  have hhi := n.toInt_lt
  have hread : (Json.num n.toInt).i64? = some n.toInt := Json.i64?_num (by constructor <;> omega)
  rw [int64, hread, Option.map_some, Int64.ofInt_toInt]

/-- An identifier is read back. -/
theorem uuid_toJson (u : Uuid) : uuid u.toJson = some u := by
  rw [uuid, Uuid.toJson, Json.str?_str, Option.bind_some, Uuid.parse_text]

/-- A kind is read back. -/
theorem kind_ofJson (k : CursorKind) : CursorKind.ofJson (.str k.text) = some k := by
  cases k <;> rfl

/-- A schema version is read back. -/
theorem schemaVersion_num (n : UInt8) :
    ((Json.num n.toNat).int? 0 255).map (fun i => UInt8.ofNat i.toNat) = some n := by
  have hn := n.toNat_lt
  have hread : (Json.num n.toNat).int? 0 255 = some (n.toNat : ℤ) :=
    if_pos (by constructor <;> omega)
  rw [hread, Option.map_some, Int.toNat_natCast, UInt8.ofNat_toNat]

/-- Claims that are written are read back. -/
theorem ofJson_toJson (c : CursorClaims) : ofJson c.toJson = some c := by
  have hmanifest : optionalUuid (.ofOption Uuid.toJson c.manifestId) = some c.manifestId := by
    cases c.manifestId with
    | none => rfl
    | some u =>
      rw [Json.ofOption_some]
      show (uuid u.toJson).map some = _
      rw [uuid_toJson, Option.map_some]
  simp [ofJson, toJson, required, member, schemaVersion_num, kind_ofJson, uuid_toJson, int64_num,
    hmanifest]

end CursorClaims

/-! ## Signatures -/

/-- SHA-256. -/
structure Sha256 where
  digest : List UInt8 → List UInt8
  length_digest : ∀ m, (digest m).length = 32

/-- The library that writes JSON values as bytes and reads them. -/
structure SerdeJson where
  toVec : Json → List UInt8
  fromSlice : List UInt8 → Option Json

/-- The claims that the library writes are read back. -/
def SerdeJson.ReadsClaims (json : SerdeJson) : Prop :=
  ∀ c : CursorClaims, json.fromSlice (json.toVec c.toJson) = some c.toJson

/-- The bytes of a text. -/
def utf8 (cs : List Char) : List UInt8 := (String.ofList cs).toByteArray.data.toList

/-- Copies bytes to the front of others. -/
def copyFromSlice (target source : List UInt8) : List UInt8 := source ++ target.drop source.length

/-- `hmac_sha256`. -/
def hmacSha256 (sha : Sha256) (key message : List UInt8) : List UInt8 :=
  let blockSize := 64
  let normalizedKey := copyFromSlice (List.replicate blockSize 0)
    (if blockSize < key.length then sha.digest key else key)
  let innerPad := List.zipWith (· ^^^ ·) (List.replicate blockSize 0x36) normalizedKey
  let outerPad := List.zipWith (· ^^^ ·) (List.replicate blockSize 0x5c) normalizedKey
  sha.digest (outerPad ++ sha.digest (innerPad ++ message))

/-- The signer of cursors, with a secret that is long enough. -/
structure CursorSigner where
  secret : List UInt8
  length_secret : 32 ≤ secret.length

namespace CursorSigner

/-- A signer with a secret. -/
def new (secret : List UInt8) : Except CursorError CursorSigner :=
  if h : 32 ≤ secret.length then .ok ⟨secret, h⟩ else .error .secret

variable (sha : Sha256) (json : SerdeJson) (signer : CursorSigner)

/-- The claims that are signed at a time. -/
def stamped (now : Int64) (claims : CursorClaims) : CursorClaims :=
  { claims with schemaVersion := 1, issuedAt := now }

/-- The text that is signed. -/
def signedText (now : Int64) (claims : CursorClaims) : List Char :=
  encode urlSafe (json.toVec (stamped now claims).toJson)

/-- The signature of a text. -/
def signatureOf (payload : List Char) : List Char :=
  encode urlSafe (hmacSha256 sha signer.secret (utf8 payload))

/-- Signs claims. -/
def sign (now : Int64) (claims : CursorClaims) : String :=
  let payload := signedText json now claims
  String.ofList (payload ++ '.' :: signatureOf sha signer payload)

/-- The value of an option, or the error of an invalid cursor. -/
def orInvalid {α : Type} : Option α → Except CursorError α
  | some a => .ok a
  | none => .error .invalid

/-- Refuses a cursor that does not meet a condition. -/
def ensure (condition : Prop) [Decidable condition] : Except CursorError Unit :=
  if condition then .ok () else .error .invalid

/-- Verifies a cursor. -/
def verify (cursor : String) : Except CursorError CursorClaims := do
  let parts ← orInvalid (splitOnce '.' cursor.toList)
  ensure ('.' ∉ parts.2)
  let signature ← orInvalid (decode urlSafe parts.2)
  let expected := hmacSha256 sha signer.secret (utf8 parts.1)
  ensure (signature.length = expected.length ∧
    (signature.zip expected).foldl (fun difference b => difference ||| (b.1 ^^^ b.2)) 0 = 0)
  let bytes ← orInvalid (decode urlSafe parts.1)
  let claims ← orInvalid ((json.fromSlice bytes).bind CursorClaims.ofJson)
  ensure (claims.schemaVersion = 1)
  return claims

end CursorSigner

/-! ## The keyed digest -/

section

variable {sha : Sha256} {json : SerdeJson} {signer : CursorSigner} {key message : List UInt8}
  {now : Int64} {claims : CursorClaims}

/-- The code computes the keyed digest with blocks of 64 bytes. -/
theorem hmacSha256_eq (sha : Sha256) (key message : List UInt8) :
    hmacSha256 sha key message = Hmac.hmac sha.digest 64 key message := by
  have hkey : copyFromSlice (List.replicate 64 0)
      (if 64 < key.length then sha.digest key else key) = Hmac.blockKey sha.digest 64 key := by
    rw [copyFromSlice, Hmac.blockKey, List.drop_replicate]
  have hlength : (Hmac.blockKey sha.digest 64 key).length = 64 :=
    Hmac.length_blockKey (by rw [sha.length_digest]; decide)
  have hpad (b : UInt8) : List.zipWith (· ^^^ ·) (List.replicate 64 b)
      (Hmac.blockKey sha.digest 64 key) = (Hmac.blockKey sha.digest 64 key).map (b ^^^ ·) := by
    refine List.ext_getElem (by simp [hlength]) fun n hn hn' => ?_
    rw [List.getElem_zipWith, List.getElem_replicate, List.getElem_map]
  rw [hmacSha256, hkey, hpad, hpad, Hmac.hmac]

/-- The alphabet of the cursors has no dot. -/
theorem notMem_encode (bytes : List UInt8) : '.' ∉ encode urlSafe bytes := fun h => by
  have hdot : '.' ∉ urlSafe.chars := by decide
  exact hdot (mem_encode h)

/-- The text of a cursor determines the bytes that are hashed and is determined by them. -/
theorem utf8_injective : Function.Injective utf8 := by
  intro cs ds h
  have hbytes : (String.ofList cs).toByteArray = (String.ofList ds).toByteArray :=
    ByteArray.ext (Array.toList_inj.mp h)
  have hstring := String.toByteArray_inj.mp hbytes
  exact String.ofList_injective hstring

namespace CursorSigner

/-- A value is there, or the cursor is invalid. -/
theorem orInvalid_eq_ok_iff {α : Type} {o : Option α} {a : α} :
    orInvalid o = .ok a ↔ o = some a := by
  cases o <;> simp [orInvalid]

/-- A condition is met, or the cursor is invalid. -/
theorem ensure_eq_ok_iff {condition : Prop} [Decidable condition] {u : Unit} :
    ensure condition = .ok u ↔ condition := by
  unfold ensure
  split <;> simp_all

/-- A sequence of steps succeeds when each of them does. -/
theorem bind_eq_ok_iff {α β : Type} {x : Except CursorError α} {f : α → Except CursorError β}
    {b : β} : x >>= f = .ok b ↔ ∃ a, x = .ok a ∧ f a = .ok b := by
  cases x <;> simp [bind, Except.bind]

/-- A signer keeps the secret that it was made with. -/
theorem secret_of_new {secret : List UInt8} (h : CursorSigner.new secret = .ok signer) :
    signer.secret = secret := by
  unfold CursorSigner.new at h
  split at h
  · cases h
    rfl
  · cases h

/-- What is verified: the text of claims, a dot, and the signature of the text. -/
theorem verify_eq_ok_iff {cursor : String} :
    verify sha json signer cursor = .ok claims ↔ ∃ payload bytes,
      cursor.toList = payload ++ '.' :: signatureOf sha signer payload ∧
        decode urlSafe payload = some bytes ∧
          (json.fromSlice bytes).bind CursorClaims.ofJson = some claims ∧
            claims.schemaVersion = 1 := by
  simp only [verify, bind_eq_ok_iff, orInvalid_eq_ok_iff, ensure_eq_ok_iff, pure, Except.pure,
    Except.ok.injEq]
  constructor
  · rintro ⟨⟨payload, signature⟩, hsplit, _, hdot, tag, htag, _, ⟨hlength, hsame⟩, bytes, hbytes,
      claims', hclaims, _, hversion, rfl⟩
    obtain ⟨hcursor, -⟩ := eq_of_splitOnce hsplit
    obtain ⟨-, rfl⟩ := (Hmac.foldl_or_xor_eq_zero_iff hlength 0).mp hsame
    exact ⟨payload, bytes, by rw [hcursor, signatureOf, encode_of_decode htag], hbytes, hclaims,
      hversion⟩
  · rintro ⟨payload, bytes, hcursor, hbytes, hclaims, hversion⟩
    have hdot : '.' ∉ payload := encode_of_decode hbytes ▸ notMem_encode bytes
    refine ⟨(payload, signatureOf sha signer payload), ?_, (), notMem_encode _,
      hmacSha256 sha signer.secret (utf8 payload), decode_encode _, (), ⟨rfl, ?_⟩, bytes, hbytes,
      claims, hclaims, (), hversion, rfl⟩
    · rw [hcursor, splitOnce_append hdot]
    · exact (Hmac.foldl_or_xor_eq_zero_iff rfl 0).mpr ⟨rfl, rfl⟩

/-- What is signed is verified. -/
theorem verify_sign (hjson : json.ReadsClaims) (now : Int64) (claims : CursorClaims) :
    verify sha json signer (sign sha json signer now claims) = .ok (stamped now claims) := by
  refine verify_eq_ok_iff.mpr ⟨signedText json now claims, json.toVec (stamped now claims).toJson,
    String.toList_ofList, decode_encode _, ?_, rfl⟩
  rw [hjson, Option.bind_some, CursorClaims.ofJson_toJson]

end CursorSigner

end

end TaskTipsCloud

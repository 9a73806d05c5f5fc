import TaskTipsCloud.Bootstrap
import TaskTipsCloud.Cursors
import TaskTipsCloud.HistoryWalk
import TaskTipsCloud.Library.JsonText
import TaskTipsCloud.Library.Sha2
import TaskTipsCloud.Uploads

/-!
# The cursors of bootstrap and pull

The routes `bootstrap` and `pull` of `crates/api/src/routes.rs`, whatever the database and the
object store answer. Both check that a cursor was made for their kind, the project and the user.
When no client can make the keyed digest of a text that the server has not signed, the position that
a request goes on from is one that an earlier answer gave out for the same project and user.
-/

namespace TaskTipsCloud

open Base64 CursorSigner

/-! ## The routes -/

/-- The errors of the routes. -/
inductive PageError where
  | invalid (message : String)
  | cursorInvalid
  | project (error : PersistenceError)
  | objectStore (error : ObjectStoreError)

/-- A value of a column of 64 bits. -/
def FitsInt64 (n : ℤ) : Prop := -2 ^ 63 ≤ n ∧ n < 2 ^ 63

/-- A page of a bootstrap manifest as the database answers it. -/
structure ManifestAnswer extends BootstrapPage where
  generation_fits : FitsInt64 generation
  snapshotSequence_fits : FitsInt64 snapshotSequence

/-- A page of the change log as the database answers it. -/
structure ChangeAnswer extends PullPage where
  generation_fits : FitsInt64 generation
  nextSequence_fits : FitsInt64 nextSequence

/-- What the random numbers, the database and the object store answer to a bootstrap. -/
structure BootstrapAnswers where
  manifestId : Uuid
  prepare : Uuid → Except PersistenceError BootstrapManifest
  put : BootstrapManifest → Except ObjectStoreError (String × String)
  record : BootstrapManifest → String × String → Except PersistenceError Unit
  page : BootstrapPageArgs → Except PersistenceError ManifestAnswer

/-- What a bootstrap returns. -/
structure BootstrapResponse where
  generation : ℤ
  items : List SyncRecord
  hasMore : Bool
  nextPageToken : Option String
  cursor : Option String

/-- What a pull returns. -/
structure PullResponse where
  generation : ℤ
  changes : List SyncRecord
  nextCursor : String
  hasMore : Bool

/-- Whom a request comes from and which project it is about. -/
structure CursorSession where
  userId : Uuid
  deviceId : Uuid
  projectId : Uuid

/-- The claims of a new cursor. -/
def cursorClaims (kind : CursorKind) (session : CursorSession)
    (generation changeSequence offset : Int64) (manifestId : Option Uuid) : CursorClaims where
  schemaVersion := 1
  kind := kind
  projectId := session.projectId
  ownerUserId := session.userId
  generation := generation
  changeSequence := changeSequence
  offset := offset
  manifestId := manifestId
  issuedAt := 0

/-- The error of an invalid request. -/
def orInvalidRequest {α : Type} : Except String α → Except PageError α
  | .ok a => .ok a
  | .error message => .error (.invalid message)

/-- The error of a project. -/
def orProject {α : Type} : Except PersistenceError α → Except PageError α
  | .ok a => .ok a
  | .error error => .error (.project error)

/-- The error of a project, or of a cursor that points nowhere. -/
def orCursor {α : Type} : Except PersistenceError α → Except PageError α
  | .ok a => .ok a
  | .error .notFound => .error .cursorInvalid
  | .error error => .error (.project error)

/-- The error of the object store. -/
def orObjectStore {α : Type} : Except ObjectStoreError α → Except PageError α
  | .ok a => .ok a
  | .error error => .error (.objectStore error)

section

variable (sha : Sha256) (json : SerdeJson) (signer : CursorSigner)

/-- Verifies a cursor for a kind and a session. -/
def verifyCursor (cursor : String) (kind : CursorKind) (session : CursorSession) :
    Except PageError CursorClaims :=
  match verify sha json signer cursor with
  | .error _ => .error .cursorInvalid
  | .ok claims =>
    if claims.kind ≠ kind ∨ claims.projectId ≠ session.projectId ∨
        claims.ownerUserId ≠ session.userId ∨ claims.generation ≤ 0 ∨ claims.changeSequence < 0 ∨
          claims.offset < 0 ∨ (kind = .pull ∧ claims.manifestId.isSome) then
      .error .cursorInvalid
    else .ok claims

/-- The page that a token asks for. -/
def continuation (session : CursorSession) (token : String) (limit : ℤ) :
    Except PageError BootstrapPageArgs := do
  let claims ← verifyCursor sha json signer token .bootstrap session
  match claims.manifestId with
  | none => .error .cursorInvalid
  | some manifestId =>
    return { userId := session.userId, deviceId := session.deviceId,
             projectId := session.projectId, manifestId := manifestId,
             offset := claims.offset.toInt, limit := limit }

/-- The first page of a new manifest. -/
def beginning (session : CursorSession) (answers : BootstrapAnswers) (limit : ℤ) :
    Except PageError BootstrapPageArgs := do
  let manifest ← orProject (answers.prepare answers.manifestId)
  let stored ← orObjectStore (answers.put manifest)
  orProject (answers.record manifest stored)
  return { userId := session.userId, deviceId := session.deviceId,
           projectId := session.projectId, manifestId := manifest.id, offset := 0, limit := limit }

/-- The page of a bootstrap, with what was asked for it. -/
def bootstrapAnswer (session : CursorSession) (pageToken : Option String) (limit : Option ℤ)
    (answers : BootstrapAnswers) : Except PageError (BootstrapPageArgs × ManifestAnswer) := do
  let limit ← orInvalidRequest (validLimit limit 200 1000)
  match pageToken with
  | some token =>
    let args ← continuation sha json signer session token limit
    return (args, ← orCursor (answers.page args))
  | none =>
    let args ← beginning session answers limit
    return (args, ← orProject (answers.page args))

/-- The claims that a page of a bootstrap signs: of its next page, or of the first pull. -/
def bootstrapClaims (session : CursorSession) (args : BootstrapPageArgs) (page : ManifestAnswer) :
    CursorClaims :=
  if page.hasMore then
    cursorClaims .bootstrap session (.ofInt page.generation) (.ofInt page.snapshotSequence)
      (.ofInt args.offset + .ofNat page.records.length) (some page.manifestId)
  else
    cursorClaims .pull session (.ofInt page.generation) (.ofInt page.snapshotSequence) 0 none

/-- `bootstrap`. -/
def bootstrap (now : Int64) (session : CursorSession) (pageToken : Option String)
    (limit : Option ℤ) (answers : BootstrapAnswers) : Except PageError BootstrapResponse := do
  let (args, page) ← bootstrapAnswer sha json signer session pageToken limit answers
  let cursor := sign sha json signer now (bootstrapClaims session args page)
  return { generation := page.generation, items := page.records, hasMore := page.hasMore,
           nextPageToken := if page.hasMore then some cursor else none,
           cursor := if page.hasMore then none else some cursor }

/-- What a pull asks the database for. -/
def pullArgs (session : CursorSession) (cursor : String) (limit : Option ℤ) :
    Except PageError PullArgs := do
  let limit ← orInvalidRequest (validLimit limit 200 1000)
  let claims ← verifyCursor sha json signer cursor .pull session
  return { userId := session.userId, deviceId := session.deviceId,
           projectId := session.projectId, expectedGeneration := claims.generation.toInt,
           afterSequence := claims.changeSequence.toInt, limit := limit }

/-- The claims that a pull signs. -/
def pullClaims (session : CursorSession) (page : ChangeAnswer) : CursorClaims :=
  cursorClaims .pull session (.ofInt page.generation) (.ofInt page.nextSequence) 0 none

/-- `pull`. -/
def pull (now : Int64) (session : CursorSession) (cursor : String) (limit : Option ℤ)
    (answer : PullArgs → Except PersistenceError ChangeAnswer) : Except PageError PullResponse := do
  let args ← pullArgs sha json signer session cursor limit
  let page ← orCursor (answer args)
  return { generation := page.generation, changes := page.records,
           nextCursor := sign sha json signer now (pullClaims session page),
           hasMore := page.hasMore }

end

/-! ## Runs -/

/-- A request of a client, with what the database and the object store answer to it. -/
inductive CursorRequest where
  | bootstrap (pageToken : Option String) (limit : Option ℤ) (answers : BootstrapAnswers)
  | pull (cursor : String) (limit : Option ℤ)
      (answer : PullArgs → Except PersistenceError ChangeAnswer)

/-- A request that a server with the secret serves, and when it signs its answer. -/
structure CursorExchange where
  now : Int64
  session : CursorSession
  request : CursorRequest

namespace CursorExchange

/-- The cursor that a client presents. -/
def presented (x : CursorExchange) : Option String :=
  match x.request with
  | .bootstrap pageToken _ _ => pageToken
  | .pull cursor _ _ => some cursor

variable (sha : Sha256) (json : SerdeJson) (signer : CursorSigner)

/-- The cursors in the answer. -/
def issued (x : CursorExchange) : List String :=
  match x.request with
  | .bootstrap pageToken limit answers =>
    match bootstrap sha json signer x.now x.session pageToken limit answers with
    | .ok response => response.nextPageToken.toList ++ response.cursor.toList
    | .error _ => []
  | .pull cursor limit answer =>
    match pull sha json signer x.now x.session cursor limit answer with
    | .ok response => [response.nextCursor]
    | .error _ => []

/-- The answer gives out a position in a manifest. -/
def IssuesPage (x : CursorExchange) (manifestId : Uuid) (offset : ℤ) : Prop :=
  ∃ pageToken limit answers args page, x.request = .bootstrap pageToken limit answers ∧
    bootstrapAnswer sha json signer x.session pageToken limit answers = .ok (args, page) ∧
      page.hasMore = true ∧ page.manifestId = manifestId ∧
        (Int64.ofInt args.offset + .ofNat page.records.length).toInt = offset

/-- The answer gives out a position in the change log: that of the snapshot of a bootstrap, or the
last of a pull. -/
def IssuesSequence (x : CursorExchange) (generation sequence : ℤ) : Prop :=
  (∃ pageToken limit answers args page, x.request = .bootstrap pageToken limit answers ∧
    bootstrapAnswer sha json signer x.session pageToken limit answers = .ok (args, page) ∧
      page.hasMore = false ∧ page.generation = generation ∧ page.snapshotSequence = sequence) ∨
  ∃ cursor limit answer args page, x.request = .pull cursor limit answer ∧
    pullArgs sha json signer x.session cursor limit = .ok args ∧ answer args = .ok page ∧
      page.generation = generation ∧ page.nextSequence = sequence

/-- The claims that the answer signs. -/
def signs (x : CursorExchange) : Option CursorClaims :=
  match x.request with
  | .bootstrap pageToken limit answers =>
    match bootstrapAnswer sha json signer x.session pageToken limit answers with
    | .ok (args, page) => some (bootstrapClaims x.session args page)
    | .error _ => none
  | .pull cursor limit answer =>
    match (pullArgs sha json signer x.session cursor limit).bind fun args => orCursor (answer args)
    with
    | .ok page => some (pullClaims x.session page)
    | .error _ => none

/-- The message whose keyed digest the server makes for the answer. -/
def signedMessage (x : CursorExchange) : Option (List UInt8) :=
  (x.signs sha json signer).map fun claims => utf8 (signedText json x.now claims)

end CursorExchange

/-- The message and the tag of a cursor. -/
def messageAndTag (cursor : String) : Option (List UInt8 × List UInt8) := do
  let (payload, signature) ← splitOnce '.' cursor.toList
  return (utf8 payload, ← decode urlSafe signature)

/-- No client makes the keyed digest of a message: when it presents one, the server has made it for
an earlier answer. -/
def Unforgeable (sha : Sha256) (json : SerdeJson) (signer : CursorSigner)
    (run : List CursorExchange) : Prop :=
  ∀ (n : ℕ) (x : CursorExchange) (cursor : String) (message tag : List UInt8),
    run[n]? = some x → x.presented = some cursor → messageAndTag cursor = some (message, tag) →
      tag = Hmac.hmac sha.digest 64 signer.secret message →
        ∃ y ∈ run.take n, y.signedMessage sha json signer = some message

/-- An answer gave out a cursor that the server signed for a kind and for the project and the user
of a session. -/
structure SignedBy (sha : Sha256) (json : SerdeJson) (signer : CursorSigner) (y : CursorExchange)
    (session : CursorSession) (kind : CursorKind) (cursor : String) (signed : CursorClaims) :
    Prop where
  issued : cursor ∈ y.issued sha json signer
  signs : cursor = sign sha json signer y.now signed
  kind_eq : signed.kind = kind
  projectId_eq : signed.projectId = session.projectId
  ownerUserId_eq : signed.ownerUserId = session.userId
  session_project : y.session.projectId = session.projectId
  session_user : y.session.userId = session.userId

/-! ## Where a cursor comes from -/

section

variable {sha : Sha256} {json : SerdeJson} {signer : CursorSigner} {run : List CursorExchange}
  {n : ℕ} {x : CursorExchange} {claims : CursorClaims} {session : CursorSession} {kind : CursorKind}
  {cursor : String}

/-- A number that fits the column is read back. -/
theorem toInt_ofInt {i : ℤ} (h : FitsInt64 i) : (Int64.ofInt i).toInt = i :=
  Int64.toInt_ofInt_of_le h.1 h.2

/-- The database's page is passed on. -/
theorem orCursor_eq_ok_iff {α : Type} {r : Except PersistenceError α} {a : α} :
    orCursor r = .ok a ↔ r = .ok a := by
  unfold orCursor
  split <;> simp_all

/-- A sequence of steps succeeds when each of them does. -/
theorem pageError_bind_eq_ok_iff {α β : Type} {r : Except PageError α}
    {f : α → Except PageError β} {b : β} : r >>= f = .ok b ↔ ∃ a, r = .ok a ∧ f a = .ok b := by
  cases r <;> simp [bind, Except.bind]

/-- What the check of a cursor ensures. -/
theorem verifyCursor_eq_ok (h : verifyCursor sha json signer cursor kind session = .ok claims) :
    verify sha json signer cursor = .ok claims ∧ claims.kind = kind ∧
      claims.projectId = session.projectId ∧ claims.ownerUserId = session.userId := by
  unfold verifyCursor at h
  split at h
  · cases h
  · next c hverify =>
    split at h
    · cases h
    · next hchecks =>
      cases h
      simp only [not_or, not_not] at hchecks
      exact ⟨hverify, hchecks.1, hchecks.2.1, hchecks.2.2.1⟩

/-- A cursor passes the check that its claims pass. -/
theorem verifyCursor_sign (hjson : json.ReadsClaims) (now : Int64)
    (hclaims : ¬ (claims.kind ≠ kind ∨ claims.projectId ≠ session.projectId ∨
      claims.ownerUserId ≠ session.userId ∨ claims.generation ≤ 0 ∨ claims.changeSequence < 0 ∨
        claims.offset < 0 ∨ (kind = .pull ∧ claims.manifestId.isSome))) :
    verifyCursor sha json signer (sign sha json signer now claims) kind session =
      .ok (stamped now claims) := by
  unfold verifyCursor
  rw [verify_sign hjson]
  exact if_neg hclaims

/-- What an answer signs is in it. -/
theorem mem_issued (h : x.signs sha json signer = some claims) :
    sign sha json signer x.now claims ∈ x.issued sha json signer := by
  obtain ⟨now, session, request⟩ := x
  cases request with
  | bootstrap pageToken limit answers =>
    dsimp only [CursorExchange.signs] at h
    cases hpage : bootstrapAnswer sha json signer session pageToken limit answers with
    | error e =>
      rw [hpage] at h
      cases h
    | ok r =>
      obtain ⟨args, page⟩ := r
      rw [hpage] at h
      cases h
      cases hmore : page.hasMore <;>
        simp [CursorExchange.issued, bootstrap, hpage, bind, Except.bind, pure, Except.pure, hmore]
  | pull cursor limit answer =>
    dsimp only [CursorExchange.signs] at h
    cases hargs : pullArgs sha json signer session cursor limit with
    | error e =>
      rw [hargs] at h
      cases h
    | ok args =>
      rw [hargs] at h
      cases hpage : orCursor (answer args) with
      | error e =>
        simp only [Except.bind, hpage] at h
        cases h
      | ok page =>
        simp only [Except.bind, hpage] at h
        cases h
        simp [CursorExchange.issued, pull, hargs, hpage, bind, Except.bind, pure, Except.pure]

/-- What is in an answer was signed for it. -/
theorem exists_signs_of_mem_issued (h : cursor ∈ x.issued sha json signer) :
    ∃ signed, x.signs sha json signer = some signed ∧
      cursor = sign sha json signer x.now signed := by
  obtain ⟨now, session, request⟩ := x
  cases request with
  | bootstrap pageToken limit answers =>
    dsimp only [CursorExchange.issued, bootstrap] at h
    cases hpage : bootstrapAnswer sha json signer session pageToken limit answers with
    | error e =>
      rw [hpage] at h
      cases h
    | ok r =>
      obtain ⟨args, page⟩ := r
      refine ⟨bootstrapClaims session args page, by simp [CursorExchange.signs, hpage], ?_⟩
      cases hmore : page.hasMore <;>
        simpa [hpage, bind, Except.bind, pure, Except.pure, hmore] using h
  | pull cursor' limit answer =>
    dsimp only [CursorExchange.issued, pull] at h
    cases hargs : pullArgs sha json signer session cursor' limit with
    | error e =>
      rw [hargs] at h
      cases h
    | ok args =>
      cases hpage : orCursor (answer args) with
      | error e =>
        simp only [hargs, bind, Except.bind, hpage] at h
        cases h
      | ok page =>
        refine ⟨pullClaims session page,
          by simp [CursorExchange.signs, hargs, Except.bind, hpage], ?_⟩
        simpa [hargs, hpage, bind, Except.bind, pure, Except.pure] using h

/-- The message of a cursor that is signed. -/
theorem messageAndTag_sign (now : Int64) (claims : CursorClaims) :
    messageAndTag (sign sha json signer now claims) =
      some (utf8 (signedText json now claims),
        hmacSha256 sha signer.secret (utf8 (signedText json now claims))) := by
  have hdot : '.' ∉ signedText json now claims := notMem_encode _
  simp [messageAndTag, sign, splitOnce_append hdot, signatureOf, decode_encode]

/-- Clients that present only what they were given make no keyed digest. -/
theorem unforgeable_of_issued (h : ∀ n x cursor, run[n]? = some x → x.presented = some cursor →
    ∃ y ∈ run.take n, cursor ∈ y.issued sha json signer) : Unforgeable sha json signer run := by
  intro n x cursor message tag hx hpresented htag _
  obtain ⟨y, hy, hissued⟩ := h n x cursor hx hpresented
  obtain ⟨signed, hsigned, rfl⟩ := exists_signs_of_mem_issued hissued
  rw [messageAndTag_sign, Option.some.injEq, Prod.mk.injEq] at htag
  exact ⟨y, hy, by rw [CursorExchange.signedMessage, hsigned, Option.map_some, htag.1]⟩

/-- A cursor that is verified is one that an earlier answer signed. -/
theorem exists_signs (hjson : json.ReadsClaims) (hmac : Unforgeable sha json signer run)
    (hx : run[n]? = some x) (hpresented : x.presented = some cursor)
    (hverify : verify sha json signer cursor = .ok claims) :
    ∃ y ∈ run.take n, ∃ signed, y.signs sha json signer = some signed ∧
      claims = stamped y.now signed ∧ cursor = sign sha json signer y.now signed := by
  obtain ⟨payload, bytes, hcursor, hbytes, hclaims, -⟩ := verify_eq_ok_iff.mp hverify
  have hdot : '.' ∉ payload := encode_of_decode hbytes ▸ notMem_encode bytes
  have htag : messageAndTag cursor =
      some (utf8 payload, hmacSha256 sha signer.secret (utf8 payload)) := by
    simp [messageAndTag, hcursor, splitOnce_append hdot, signatureOf, decode_encode]
  obtain ⟨y, hy, hmessage⟩ := hmac n x cursor _ _ hx hpresented htag (hmacSha256_eq _ _ _)
  obtain ⟨signed, hsigned, hsame⟩ := Option.map_eq_some_iff.mp hmessage
  have hpayload : signedText json y.now signed = payload := utf8_injective hsame
  refine ⟨y, hy, signed, hsigned, ?_, ?_⟩
  · rw [← hpayload, signedText, decode_encode, Option.some.injEq] at hbytes
    rw [← hbytes, hjson, Option.bind_some, CursorClaims.ofJson_toJson, Option.some.injEq] at hclaims
    exact hclaims.symm
  · rw [sign, hpayload, ← hcursor, String.ofList_toList]

/-- What an answer signs is about its project and user. -/
theorem session_of_signs (h : x.signs sha json signer = some claims) :
    claims.projectId = x.session.projectId ∧ claims.ownerUserId = x.session.userId := by
  unfold CursorExchange.signs at h
  split at h
  · split at h
    · cases h
      unfold bootstrapClaims
      split <;> exact ⟨rfl, rfl⟩
    · cases h
  · split at h
    · cases h
      exact ⟨rfl, rfl⟩
    · cases h

/-- A cursor for a pull is signed with a position in the change log. -/
theorem issuesSequence_of_signs (h : x.signs sha json signer = some claims)
    (hkind : claims.kind = .pull) :
    x.IssuesSequence sha json signer claims.generation.toInt claims.changeSequence.toInt := by
  unfold CursorExchange.signs at h
  split at h
  · next pageToken limit answers hrequest =>
    split at h
    · next args page hpage =>
      cases h
      unfold bootstrapClaims at hkind ⊢
      split at hkind
      · cases hkind
      · next hmore =>
        rw [if_neg hmore]
        exact .inl ⟨pageToken, limit, answers, args, page, hrequest, hpage, by simpa using hmore,
          (toInt_ofInt page.generation_fits).symm, (toInt_ofInt page.snapshotSequence_fits).symm⟩
    · cases h
  · next cursor limit answer hrequest =>
    split at h
    · next page hpage =>
      cases h
      cases hargs : pullArgs sha json signer x.session cursor limit with
      | error e =>
        rw [hargs] at hpage
        cases hpage
      | ok args =>
        rw [hargs] at hpage
        have hanswer : answer args = .ok page := orCursor_eq_ok_iff.mp hpage
        exact .inr ⟨cursor, limit, answer, args, page, hrequest, hargs, hanswer,
          (toInt_ofInt page.generation_fits).symm, (toInt_ofInt page.nextSequence_fits).symm⟩
    · cases h

/-- A token for a page is signed with a position in a manifest. -/
theorem issuesPage_of_signs (h : x.signs sha json signer = some claims)
    (hkind : claims.kind = .bootstrap) : ∃ manifestId, claims.manifestId = some manifestId ∧
      x.IssuesPage sha json signer manifestId claims.offset.toInt := by
  unfold CursorExchange.signs at h
  split at h
  · next pageToken limit answers hrequest =>
    split at h
    · next args page hpage =>
      cases h
      unfold bootstrapClaims at hkind ⊢
      split at hkind
      · next hmore =>
        rw [if_pos hmore]
        exact ⟨page.manifestId, rfl, pageToken, limit, answers, args, page, hrequest, hpage, hmore,
          rfl, rfl⟩
      · cases hkind
    · cases h
  · split at h
    · cases h
      cases hkind
    · cases h

/-- A cursor that is accepted for a kind comes from an earlier answer of the session. -/
theorem exists_signs_of_verifyCursor (hjson : json.ReadsClaims)
    (hmac : Unforgeable sha json signer run) (hx : run[n]? = some x)
    (hpresented : x.presented = some cursor)
    (hverify : verifyCursor sha json signer cursor kind x.session = .ok claims) :
    ∃ y ∈ run.take n, ∃ signed, y.signs sha json signer = some signed ∧
      claims = stamped y.now signed ∧ SignedBy sha json signer y x.session kind cursor signed := by
  obtain ⟨hcursor, hkind, hproject, howner⟩ := verifyCursor_eq_ok hverify
  obtain ⟨y, hy, signed, hsigned, rfl, rfl⟩ := exists_signs hjson hmac hx hpresented hcursor
  obtain ⟨hyproject, hyowner⟩ := session_of_signs hsigned
  exact ⟨y, hy, signed, hsigned, rfl, mem_issued hsigned, rfl, hkind, hproject, howner,
    hyproject.symm.trans hproject, hyowner.symm.trans howner⟩

/-- What cursors guarantee. -/
structure CursorsHold (sha : Sha256) (json : SerdeJson) : Prop where
  /-- What is signed is verified, with the current schema and the time of signing. -/
  roundTrip : ∀ secret signer, CursorSigner.new secret = .ok signer → ∀ now claims,
    verify sha json signer (sign sha json signer now claims) =
      .ok { claims with schemaVersion := 1, issuedAt := now }
  /-- What is verified is a payload and the base64 of the keyed digest of its bytes. -/
  canonical : ∀ secret signer, CursorSigner.new secret = .ok signer → ∀ cursor claims,
    verify sha json signer cursor = .ok claims → ∃ payload : String,
      cursor = payload ++ "." ++
        String.ofList (encode urlSafe
          (Hmac.hmac sha.digest 64 secret payload.toByteArray.data.toList))
  /-- A pull goes on from a position that the server issued for the project. -/
  pulls : ∀ signer run, Unforgeable sha json signer run → ∀ n x cursor limit answer args,
    run[n]? = some x → x.request = .pull cursor limit answer →
      pullArgs sha json signer x.session cursor limit = .ok args →
        ∃ y ∈ run.take n, ∃ signed, SignedBy sha json signer y x.session .pull cursor signed ∧
          y.IssuesSequence sha json signer args.expectedGeneration args.afterSequence
  /-- A bootstrap goes on from a page that the server issued for the project. -/
  bootstraps : ∀ signer run, Unforgeable sha json signer run →
    ∀ n x token limit answers validated args,
      run[n]? = some x → x.request = .bootstrap (some token) limit answers →
        continuation sha json signer x.session token validated = .ok args →
          ∃ y ∈ run.take n, ∃ signed,
            SignedBy sha json signer y x.session .bootstrap token signed ∧
              y.IssuesPage sha json signer args.manifestId args.offset

/-- A position in the change log comes from an earlier answer. -/
theorem exists_issuesSequence (hjson : json.ReadsClaims) (hmac : Unforgeable sha json signer run)
    {limit : Option ℤ} {answer : PullArgs → Except PersistenceError ChangeAnswer} {args : PullArgs}
    (hx : run[n]? = some x) (hrequest : x.request = .pull cursor limit answer)
    (hargs : pullArgs sha json signer x.session cursor limit = .ok args) :
    ∃ y ∈ run.take n, ∃ signed, SignedBy sha json signer y x.session .pull cursor signed ∧
      y.IssuesSequence sha json signer args.expectedGeneration args.afterSequence := by
  have hpresented : x.presented = some cursor := by rw [CursorExchange.presented, hrequest]
  obtain ⟨_, -, hverify⟩ := pageError_bind_eq_ok_iff.mp hargs
  obtain ⟨claims, hclaims, hpure⟩ := pageError_bind_eq_ok_iff.mp hverify
  cases hpure
  obtain ⟨y, hy, signed, hsigned, rfl, hby⟩ :=
    exists_signs_of_verifyCursor hjson hmac hx hpresented hclaims
  have hissues := issuesSequence_of_signs hsigned hby.kind_eq
  exact ⟨y, hy, signed, hby, hissues⟩

/-- A position in a manifest comes from an earlier answer. -/
theorem exists_issuesPage (hjson : json.ReadsClaims) (hmac : Unforgeable sha json signer run)
    {limit : Option ℤ} {answers : BootstrapAnswers} {validated : ℤ} {args : BootstrapPageArgs}
    (hx : run[n]? = some x) (hrequest : x.request = .bootstrap (some cursor) limit answers)
    (hargs : continuation sha json signer x.session cursor validated = .ok args) :
    ∃ y ∈ run.take n, ∃ signed, SignedBy sha json signer y x.session .bootstrap cursor signed ∧
      y.IssuesPage sha json signer args.manifestId args.offset := by
  have hpresented : x.presented = some cursor := by rw [CursorExchange.presented, hrequest]
  obtain ⟨claims, hclaims, hmanifest⟩ := pageError_bind_eq_ok_iff.mp hargs
  obtain ⟨y, hy, signed, hsigned, rfl, hby⟩ :=
    exists_signs_of_verifyCursor hjson hmac hx hpresented hclaims
  obtain ⟨manifestId, hsome, hissues⟩ := issuesPage_of_signs hsigned hby.kind_eq
  have hstamped : (stamped y.now signed).manifestId = some manifestId := hsome
  rw [hstamped] at hmanifest
  cases hmanifest
  exact ⟨y, hy, signed, hby, hissues⟩

/-- Cursors are verified as they were signed, and go on from positions that the server issued. -/
theorem cursors_round_trip_and_stay (sha : Sha256) (json : SerdeJson) (hjson : json.ReadsClaims) :
    CursorsHold sha json where
  roundTrip _ signer _ now claims := verify_sign hjson now claims
  canonical secret signer hsecret cursor claims hverify := by
    obtain ⟨payload, _, hcursor, -⟩ := verify_eq_ok_iff.mp hverify
    have hsigner : signer.secret = secret := secret_of_new hsecret
    refine ⟨String.ofList payload, String.toList_injective ?_⟩
    rw [hcursor, signatureOf, hmacSha256_eq, hsigner, utf8]
    simp
  pulls _ _ hmac _ _ _ _ _ _ hx hrequest hargs := exists_issuesSequence hjson hmac hx hrequest hargs
  bootstraps _ _ hmac _ _ _ _ _ _ _ hx hrequest hargs :=
    exists_issuesPage hjson hmac hx hrequest hargs

/-! ## The libraries -/

/-- SHA-256 as it is computed. -/
def sha256 : Sha256 := ⟨Sha2.digest, Sha2.length_digest⟩

/-- Flat objects, written compactly. -/
def compactJson : SerdeJson where
  toVec
    | .obj members => utf8 (JsonText.objectText members)
    | v => utf8 (JsonText.valueText v)
  fromSlice bytes := (String.fromUTF8? ⟨bytes.toArray⟩).bind fun s => JsonText.readObject s.toList

/-- The bytes of a text are read as the text. -/
theorem fromUTF8?_utf8 (cs : List Char) :
    String.fromUTF8? ⟨(utf8 cs).toArray⟩ = some (String.ofList cs) := by
  have hbytes : (⟨(utf8 cs).toArray⟩ : ByteArray) = (String.ofList cs).toByteArray := by
    rw [utf8, Array.toArray_toList]
  rw [hbytes, String.fromUTF8?, dif_pos (String.ofList cs).isValidUTF8]
  rfl

/-- The members of claims are plain. -/
theorem plainMember_of_mem_claims {c : CursorClaims} {members : List (String × Json)}
    (h : c.toJson = .obj members) : ∀ m ∈ members, JsonText.PlainMember m := by
  have huuid (u : Uuid) : ',' ∉ u.text.toList := fun hc => by
    have hplain := Uuid.mem_text hc
    revert hplain
    decide
  have hkind : ',' ∉ c.kind.text.toList := by cases c.kind <;> decide
  have hmanifest : JsonText.PlainValue (.ofOption Uuid.toJson c.manifestId) := by
    cases c.manifestId with
    | none => exact .null
    | some u => exact .str (huuid u)
  have hmembers : members = [("schemaVersion", .num c.schemaVersion.toNat),
    ("kind", .str c.kind.text),
    ("projectId", c.projectId.toJson),
    ("ownerUserId", c.ownerUserId.toJson),
    ("generation", .num c.generation.toInt),
    ("changeSequence", .num c.changeSequence.toInt),
    ("offset", .num c.offset.toInt),
    ("manifestId", .ofOption Uuid.toJson c.manifestId),
    ("issuedAt", .num c.issuedAt.toInt)] := (Json.obj.inj h).symm
  subst hmembers
  have hmember {name : String} {v : Json} (hname : ',' ∉ name.toList ∧ ':' ∉ name.toList)
      (hv : JsonText.PlainValue v) : JsonText.PlainMember (name, v) := ⟨hname.1, hname.2, hv⟩
  simp only [List.forall_mem_cons]
  exact ⟨hmember (by decide) (.num _), hmember (by decide) (.str hkind),
    hmember (by decide) (.str (huuid _)), hmember (by decide) (.str (huuid _)),
    hmember (by decide) (.num _), hmember (by decide) (.num _), hmember (by decide) (.num _),
    hmember (by decide) hmanifest, hmember (by decide) (.num _), by simp⟩

/-- The compact writer's claims are read back. -/
theorem compactJson_readsClaims : compactJson.ReadsClaims := fun c => by
  cases hc : c.toJson with
  | obj members =>
    have hne : members ≠ [] := fun h => by
      rw [h] at hc
      cases hc
    show (String.fromUTF8? ⟨(utf8 (JsonText.objectText members)).toArray⟩).bind _ = _
    rw [fromUTF8?_utf8, Option.bind_some, String.toList_ofList,
      JsonText.readObject_objectText hne (plainMember_of_mem_claims hc)]
  | null | bool | num | float | str | arr => cases hc

/-! ## A bootstrap and a pull -/

/-- A server with a sample secret. -/
def sampleSigner : CursorSigner := ⟨List.replicate 32 7, by simp⟩

/-- A device of a user with a project. -/
def sampleSession : CursorSession := ⟨1, 2, 3⟩

/-- The claims that a bootstrap of an empty project at sequence 4 signs. -/
def sampleClaims : CursorClaims := cursorClaims .pull sampleSession 1 4 0 none

/-- A bootstrap of an empty project. -/
def sampleBootstrap : CursorExchange where
  now := 10
  session := sampleSession
  request := .bootstrap none none
    { manifestId := 5
      prepare := fun manifestId => .ok ⟨manifestId, 1, 4, [], "manifest"⟩
      put := fun _ => .ok ("manifests", "5")
      record := fun _ _ => .ok ()
      page := fun args =>
        .ok ⟨⟨args.manifestId, 1, 4, [], false⟩, by norm_num [FitsInt64], by norm_num [FitsInt64]⟩ }

/-- The cursor in its answer. -/
def sampleCursor : String := sign sha256 compactJson sampleSigner 10 sampleClaims

/-- A pull that presents this cursor. -/
def samplePull : CursorExchange where
  now := 20
  session := sampleSession
  request := .pull sampleCursor none fun _ =>
    .ok ⟨⟨1, [], false, 4⟩, by norm_num [FitsInt64], by norm_num [FitsInt64]⟩

/-- The sample bootstrap signs the sample claims. -/
theorem signs_sampleBootstrap :
    sampleBootstrap.signs sha256 compactJson sampleSigner = some sampleClaims := rfl

/-- The pull presents what the bootstrap gave out. -/
theorem sampleExchanges_unforgeable :
    Unforgeable sha256 compactJson sampleSigner [sampleBootstrap, samplePull] := by
  refine unforgeable_of_issued fun n x cursor hx hpresented => ?_
  match n, hx with
  | 0, hx =>
    cases hx
    cases hpresented
  | 1, hx =>
    cases hx
    have hcursor : sampleCursor = cursor := Option.some.inj hpresented
    subst hcursor
    exact ⟨sampleBootstrap, by simp, mem_issued signs_sampleBootstrap⟩

/-- The pull goes on from the sequence of the bootstrap. -/
theorem pullArgs_sampleCursor :
    pullArgs sha256 compactJson sampleSigner sampleSession sampleCursor none =
      .ok ⟨1, 2, 3, 1, 4, 200⟩ := by
  have hclaims : verifyCursor sha256 compactJson sampleSigner sampleCursor .pull sampleSession =
      .ok (stamped 10 sampleClaims) := verifyCursor_sign compactJson_readsClaims 10 (by decide)
  unfold pullArgs
  rw [hclaims]
  rfl

/-- The guarantees hold with SHA-256, and the sequence of the sample pull is that of the answer that
gave out its cursor. -/
theorem cursors_sample : CursorsHold sha256 compactJson ∧
    ∃ y ∈ [sampleBootstrap], ∃ signed,
      SignedBy sha256 compactJson sampleSigner y sampleSession .pull sampleCursor signed ∧
        y.IssuesSequence sha256 compactJson sampleSigner 1 4 := by
  have hhold := cursors_round_trip_and_stay sha256 compactJson compactJson_readsClaims
  exact ⟨hhold, hhold.pulls sampleSigner [sampleBootstrap, samplePull] sampleExchanges_unforgeable 1
    samplePull sampleCursor none _ _ rfl rfl pullArgs_sampleCursor⟩

end

end TaskTipsCloud

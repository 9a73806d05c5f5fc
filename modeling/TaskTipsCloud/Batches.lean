import TaskTipsCloud.Differences
import TaskTipsCloud.Fencing
import TaskTipsCloud.UploadRuns
import TaskTipsCloud.Library.Edits

/-!
# Batches of a push

The items of a push are conditional edits of the heads of its project: an item is applied when its
base is the revision of the head of its object, and its payload fits. Whatever other requests run at
the same time, the answer of an executed push is that of its items from left to right on the heads
that it committed on, and of all items that are answered as applied, in this push or in others, no
two change one revision of one object.
-/

namespace TaskTipsCloud

open Txn Versions Edits

/-! ## Items as edits -/

/-- The revisions of the heads of a project, and its sequence. -/
def Db.ledger (d : Db) (p : Uuid) : Ledger (ObjectKind × String) where
  number := d.headNumber p
  sequence := (d.project p).elim 0 (·.changeSeq)

/-- The object of an item. -/
def NewSyncRevision.key (x : NewSyncRevision) : ObjectKind × String := (x.kind, x.id)

/-- The payload of a database that an item refers to. -/
def Db.payloadOfItem (d : Db) (a : PushArgs) (x : NewSyncRevision) : Option PayloadRow :=
  x.contentHash.bind (d.payload (.app a.userId) a.projectId)

/-- A database that a push may have read under the lock of its project, when it commits on `c`. -/
def PushArgs.Reads (a : PushArgs) (c d : Db) : Prop := Db.Rely {Lock.project a.projectId} d c

/-- An edit that stands for an item of a push that commits on `c`: it is refused only for the
payload of an object that the push has read. -/
structure IsEditOf (a : PushArgs) (c : Db) (x : NewSyncRevision)
    (e : Edit (ObjectKind × String) PushItemResult) : Prop where
  key : e.key = x.key
  base : e.base = x.baseRevision
  refusal : ∀ rejected, e.refusal = some rejected → x.tombstone = false ∧
    ∃ d, a.Reads c d ∧ checkPayload x (d.payloadOfItem a x) = .error rejected

/-- The result of an item whose edit has a verdict. -/
def NewSyncRevision.result (x : NewSyncRevision) : Verdict PushItemResult → PushItemResult
  | .made revision sequence => .applied x.kind x.id revision sequence x.changedAt
  | .conflict actual => .conflict x.kind x.id x.baseRevision actual
  | .refused rejected => rejected

/-- The payload that an applied item refers to: none for a tombstone, and for an object one that
the push has read and that fits. -/
def FitsItem (a : PushArgs) (c : Db) (x : NewSyncRevision) (payloadId : Option Uuid) : Prop :=
  (x.tombstone = true ∧ payloadId = none) ∨
    (x.tombstone = false ∧ ∃ d payload, a.Reads c d ∧ d.payloadOfItem a x = some payload ∧
      checkPayload x (some payload) = .ok payload.id ∧ payloadId = some payload.id)

/-- The revision that an applied item appends. -/
def Appends (a : PushArgs) (c : Db) (x : NewSyncRevision) (r : ObjectRevision) : Prop :=
  ∃ payloadId, FitsItem a c x payloadId ∧ r = itemRevision a x x.baseRevision payloadId

/-- The items of a push applied from left to right: to the heads on which it committed, with the
answer `response`, and with the revisions that it appended. -/
def AppliesInOrder (host : Host) (e : SyncEvent) (a : PushArgs) (response : Json) : Prop :=
  ∃ row edits rs, e.before.project a.projectId = some row ∧ row.ownerUserId = a.userId ∧
    row.status = .active ∧ row.generation = a.expectedGeneration ∧
    List.Forall₂ (IsEditOf a e.before) a.revisions edits ∧
    pushResponseJson host row.generation (List.zipWith NewSyncRevision.result a.revisions
      ((e.before.ledger a.projectId).editAll edits).1) = some response ∧
    e.after.ledger a.projectId = ((e.before.ledger a.projectId).editAll edits).2 ∧
    e.after.revisionsOf a.projectId = e.before.revisionsOf a.projectId ++ rs ∧
    List.Forall₂ (Appends a e.before)
      (made a.revisions ((e.before.ledger a.projectId).editAll edits).1) rs

/-! ## The heads after an append -/

/-- A revision that is accepted becomes the head of its object. -/
theorem ledger_appendNext {d : Db} (hd : d.Coherent) {r : ObjectRevision} (hr : d.Accepts r)
    (now : Timestamp) : (d.appendNext now r).ledger r.projectId =
      ⟨Function.update (d.ledger r.projectId).number r.key (some r.revision),
        (d.ledger r.projectId).sequence + 1⟩ := by
  have hd' : (d.appendNext now r).Coherent := hr.coherent hd
  obtain ⟨row, hrow, -⟩ := hr
  have hrow' : (d.appendNext now r).project r.projectId = some (row.advance now) := by
    rw [Db.project_appendNext rfl, hrow, Option.map_some]
  have hrevisions : (d.appendNext now r).revisionsOf r.projectId =
      d.revisionsOf r.projectId ++ [r] := by
    have hproject : ∀ r' ∈ [r], r'.projectId = r.projectId := by simp
    exact Db.revisionsOf_appendAll hproject
  -- The record that is appended.
  let v := r.syncRecord (r.entry ((d.revisionsOf r.projectId).length + 1))
  refine Ledger.ext (funext fun k => ?_) ?_
  · -- The head is the latest record of the history, which has one more record at its end.
    show (d.appendNext now r).headNumber r.projectId k =
      Function.update (d.ledger r.projectId).number r.key (some r.revision) k
    rw [headNumber_eq hd' hrow' k, hrevisions, history_concat]
    by_cases hk : r.key = k
    · subst hk
      rw [Function.update_self]
      have hlatest : latest SyncRecord.key r.key (history (d.revisionsOf r.projectId) ++ [v]) =
          some v := latest_concat_self (v := v)
      rw [hlatest]
      rfl
    · rw [Function.update_of_ne (Ne.symm hk)]
      show _ = d.headNumber r.projectId k
      rw [headNumber_eq hd hrow k]
      have hlatest : latest SyncRecord.key k (history (d.revisionsOf r.projectId) ++ [v]) =
          latest SyncRecord.key k (history (d.revisionsOf r.projectId)) :=
        latest_concat_of_ne (v := v) hk
      exact congrArg (Option.map (·.revision)) hlatest
  · show ((d.appendNext now r).project r.projectId).elim 0 (·.changeSeq) =
      (d.project r.projectId).elim 0 (·.changeSeq) + 1
    rw [hrow', hrow]
    rfl

/-- An application's role reads the numbers of the heads of its user's projects. -/
theorem headRevision_eq_headNumber {d : Db} (hd : d.Coherent) {role : DbRole} {p : Uuid}
    {row : ProjectRow} (hrow : visibleProject role p d = some row) (kind : ObjectKind)
    (objectId : String) :
    headRevision role p kind objectId d = d.headNumber p (kind, objectId) := by
  rw [headRevision_eq hd hrow, headNumber_eq hd (visibleProject_eq_some_iff.mp hrow).1]

/-! ## One item -/

section

variable {H H' : Set Lock} {c : Db} {b b' : Db → Db} {now : Timestamp} {a : PushArgs}
  {host : Host}

/-- A push that holds the lock of its project reads under it. -/
theorem reads_of_rely {d : Db} (hp : Lock.project a.projectId ∈ H) (hd : Db.Rely H d c) :
    a.Reads c d := hd.anti (Set.singleton_subset_iff.mpr hp)

/-- Looking for the payload of an item changes nothing. -/
theorem runs_itemPayload_cases {x : NewSyncRevision} {d₀ : Db}
    {payload : Except PushItemResult (Option Uuid)} (hp : Lock.project a.projectId ∈ H)
    (hpayloads : ∀ d, (b d).payloads = d.payloads) (hd₀ : Db.Rely H d₀ c)
    (h : Runs Db.Rely c (itemPayload a x) H b (.ok payload) H' b') : H = H' ∧ b = b' ∧
      ((x.tombstone = true ∧ payload = .ok none) ∨
        (x.tombstone = false ∧ ∃ d, a.Reads c d ∧
          payload = (checkPayload x (d.payloadOfItem a x)).map some)) := by
  unfold itemPayload at h
  split at h
  · rename_i htombstone
    obtain ⟨hpayload, rfl, rfl⟩ := runs_pure_iff.mp h
    cases hpayload
    exact ⟨rfl, rfl, .inl ⟨htombstone, rfl⟩⟩
  · rename_i htombstone
    have hobject : x.tombstone = false := by simpa using htombstone
    split at h
    · rename_i hhash
      obtain ⟨hpayload, rfl, rfl⟩ := runs_pure_iff.mp h
      cases hpayload
      refine ⟨rfl, rfl, .inr ⟨hobject, d₀, reads_of_rely hp hd₀, ?_⟩⟩
      rw [Db.payloadOfItem, hhash, Option.bind_none]
    · rename_i contentHash hhash
      simp only [bind_eq, query_bind, runs_read_iff, pure_eq, runs_pure_iff, Except.ok.injEq] at h
      obtain ⟨d, hd, rfl, rfl, rfl⟩ := h
      refine ⟨rfl, rfl, .inr ⟨hobject, d, reads_of_rely hp hd, ?_⟩⟩
      rw [Db.payloadOfItem, hhash, Option.bind_some]
      unfold Db.payload
      rw [hpayloads]

/-- A payload that passes its checks is that of the row that was found. -/
theorem exists_of_checkPayload {x : NewSyncRevision} {o : Option PayloadRow} {payloadId : Uuid}
    (h : checkPayload x o = .ok payloadId) : ∃ payload, o = some payload ∧
      checkPayload x (some payload) = .ok payload.id ∧ payloadId = payload.id := by
  cases o with
  | none => cases h
  | some payload =>
    have hid : payloadId = payload.id := by
      unfold checkPayload at h
      dsimp only at h
      split_ifs at h
      cases h
      rfl
    exact ⟨payload, rfl, hid ▸ h, hid⟩

/-- What one item of a push does to the database that its buffer makes, as an edit. -/
def IsEdited (now : Timestamp) (a : PushArgs) (c : Db) (x : NewSyncRevision) (d d' : Db)
    (result : PushItemResult) : Prop :=
  ∃ e rs, IsEditOf a c x e ∧ result = x.result ((d.ledger a.projectId).edit e).1 ∧
    d'.ledger a.projectId = ((d.ledger a.projectId).edit e).2 ∧ d' = d.appendAll now rs ∧
    d.AcceptsAll now rs ∧ (∀ r ∈ rs, r.projectId = a.projectId) ∧
    List.Forall₂ (Appends a c) (made [x] [((d.ledger a.projectId).edit e).1]) rs

/-- What one item of a push does. -/
theorem runs_pushItem_edited {x : NewSyncRevision} {result : PushItemResult} {row : ProjectRow}
    (hp : Lock.project a.projectId ∈ H) (hb : Steady a.projectId c b)
    (hpayloads : ∀ d, (b d).payloads = d.payloads) (hcoherent : (b c).Coherent)
    (hrow : visibleProject (.app a.userId) a.projectId (b c) = some row)
    (h : Runs Db.Rely c (pushItem now a x) H b (.ok result) H' b') :
    Steady a.projectId c b' ∧ (∀ d, (b' d).payloads = d.payloads) ∧
      IsEdited now a c x (b c) (b' c) result := by
  simp only [pushItem, bind_eq, query_bind, runs_read_iff] at h
  obtain ⟨d, hd, h⟩ := h
  -- Under the lock of the project the head is the one at the commit.
  have hactual : headRevision (.app a.userId) a.projectId x.kind x.id (b d) =
      ((b c).ledger a.projectId).number x.key := by
    have hdata : headRevision (.app a.userId) a.projectId x.kind x.id (b d) =
        headRevision (.app a.userId) a.projectId x.kind x.id (b c) := by
      unfold headRevision
      rw [hb.data_eq hp hd]
    exact hdata.trans (headRevision_eq_headNumber hcoherent hrow x.kind x.id)
  rw [hactual] at h
  split at h
  · rename_i hbase
    -- Another base: the item is in conflict.
    obtain ⟨hresult, rfl, rfl⟩ := runs_pure_iff.mp h
    cases hresult
    refine ⟨hb, hpayloads, ⟨x.key, x.baseRevision, none⟩, [], ⟨rfl, rfl, nofun⟩, ?_, ?_, rfl,
      .nil _, by simp, ?_⟩
    · rw [edit_of_ne hbase]
      rfl
    · rw [edit_of_ne hbase]
    · rw [edit_of_ne hbase]
      exact .nil
  · rename_i hbase
    rw [not_ne_iff] at hbase
    rw [← hbase] at h
    obtain ⟨payload, H₁, b₁, hpayload, h⟩ := runs_bind_ok_iff.mp h
    obtain ⟨rfl, rfl, hcases⟩ := runs_itemPayload_cases hp hpayloads hd hpayload
    cases payload with
    | error rejected =>
      obtain ⟨hresult, rfl, rfl⟩ := runs_pure_iff.mp h
      cases hresult
      -- The base is right, but the payload that was read does not fit.
      have hrefused : x.tombstone = false ∧
          ∃ d, a.Reads c d ∧ checkPayload x (d.payloadOfItem a x) = .error result := by
        rcases hcases with ⟨-, hok⟩ | ⟨hobject, d', hd', ho⟩
        · cases hok
        · refine ⟨hobject, d', hd', ?_⟩
          cases hcheck : checkPayload x (d'.payloadOfItem a x) with
          | error why => rw [hcheck] at ho; cases ho; rfl
          | ok payloadId => rw [hcheck] at ho; cases ho
      have hedit := edit_of_refusal (s := (b c).ledger a.projectId)
        (e := ⟨x.key, x.baseRevision, some result⟩) hbase rfl
      refine ⟨hb, hpayloads, ⟨x.key, x.baseRevision, some result⟩, [], ⟨rfl, rfl, ?_⟩, ?_, ?_,
        rfl, .nil _, by simp, ?_⟩
      · rintro _ ⟨⟩
        exact hrefused
      · rw [hedit]
        rfl
      · rw [hedit]
      · rw [hedit]
        exact .nil
    | ok payloadId =>
      obtain ⟨sequence, H₂, b₂, happend, hend⟩ := runs_bind_ok_iff.mp h
      obtain ⟨hresult, rfl, rfl⟩ := runs_pure_iff.mp hend
      obtain ⟨row', hrow', -, rfl, rfl⟩ := runs_appendRevision hp hb happend
      cases hresult
      cases hrow.symm.trans hrow'
      -- The payload that was read fits, so the next revision is appended.
      have hfits : FitsItem a c x payloadId := by
        rcases hcases with ⟨htombstone, hok⟩ | ⟨hobject, d', hd', ho⟩
        · cases hok
          exact .inl ⟨htombstone, rfl⟩
        · cases hcheck : checkPayload x (d'.payloadOfItem a x) with
          | error why => rw [hcheck] at ho; cases ho
          | ok id =>
            rw [hcheck] at ho
            cases ho
            obtain ⟨payload, hfound, hok, rfl⟩ := exists_of_checkPayload hcheck
            exact .inr ⟨hobject, d', payload, hd', hfound, hok, rfl⟩
      have haccepts : (b c).Accepts (itemRevision a x x.baseRevision payloadId) :=
        accepts_itemRevision hcoherent hrow
          (hbase.trans (headRevision_eq_headNumber hcoherent hrow x.kind x.id).symm) payloadId
      have hstep : (Db.append now (row.changeSeq + 1)
          (itemRevision a x x.baseRevision payloadId) ∘ b) c =
            (b c).appendNext now (itemRevision a x x.baseRevision payloadId) :=
        append_eq_appendNext hrow
      have hedit := edit_of_eq (ρ := PushItemResult) (s := (b c).ledger a.projectId)
        (e := ⟨x.key, x.baseRevision, none⟩) hbase rfl
      have hsequence : ((b c).ledger a.projectId).sequence = row.changeSeq := by
        show ((b c).project a.projectId).elim 0 (·.changeSeq) = _
        rw [(visibleProject_eq_some_iff.mp hrow).1]
        rfl
      refine ⟨steady_append hb rfl, hpayloads, ⟨x.key, x.baseRevision, none⟩,
        [itemRevision a x x.baseRevision payloadId], ⟨rfl, rfl, nofun⟩, ?_, ?_, hstep,
        .cons haccepts (.nil _), by simp [itemRevision], ?_⟩
      · rw [hedit, hsequence]
        rfl
      · rw [hedit, hstep]
        exact ledger_appendNext hcoherent haccepts now
      · rw [hedit]
        exact .cons ⟨payloadId, hfits, rfl⟩ .nil

/-! ## The items of a push -/

/-- What some items of a push do to the database that its buffer makes, as a batch of edits. -/
def AreEdited (now : Timestamp) (a : PushArgs) (c : Db) (xs : List NewSyncRevision) (d d' : Db)
    (results : List PushItemResult) : Prop :=
  ∃ edits rs, List.Forall₂ (IsEditOf a c) xs edits ∧
    results = List.zipWith NewSyncRevision.result xs ((d.ledger a.projectId).editAll edits).1 ∧
    d'.ledger a.projectId = ((d.ledger a.projectId).editAll edits).2 ∧ d' = d.appendAll now rs ∧
    d.AcceptsAll now rs ∧ (∀ r ∈ rs, r.projectId = a.projectId) ∧
    List.Forall₂ (Appends a c) (made xs ((d.ledger a.projectId).editAll edits).1) rs

/-- The first item of a batch, and then the others on what it left. -/
theorem AreEdited.cons {x : NewSyncRevision} {xs : List NewSyncRevision} {d d₁ d' : Db}
    {result : PushItemResult} {results : List PushItemResult} (h : IsEdited now a c x d d₁ result)
    (hs : AreEdited now a c xs d₁ d' results) :
    AreEdited now a c (x :: xs) d d' (result :: results) := by
  obtain ⟨e, rs, hedit, rfl, hledger, rfl, haccepts, hproject, happends⟩ := h
  obtain ⟨edits, rs', hedits, rfl, hledger', rfl, haccepts', hproject', happends'⟩ := hs
  rw [hledger] at hledger' happends'
  refine ⟨e :: edits, rs ++ rs', .cons hedit hedits, ?_, ?_, (Db.appendAll_append).symm,
    haccepts.append haccepts', ?_, ?_⟩
  · rw [hledger]
    rfl
  · rw [hledger', editAll_cons]
  · exact fun r hr => (List.mem_append.mp hr).elim (hproject r) (hproject' r)
  · have hmade : made (x :: xs) ((d.ledger a.projectId).editAll (e :: edits)).1 =
        made [x] [((d.ledger a.projectId).edit e).1] ++
          made xs (((d.ledger a.projectId).edit e).2.editAll edits).1 := by
      rw [editAll_cons, made_cons, made_cons, made_nil]
      split <;> rfl
    rw [hmade]
    exact List.rel_append happends happends'

/-- What the items of a push do. -/
theorem runs_pushItems_edited {xs : List NewSyncRevision} {results : List PushItemResult}
    (hp : Lock.project a.projectId ∈ H) (hb : Steady a.projectId c b)
    (hpayloads : ∀ d, (b d).payloads = d.payloads) (hcoherent : (b c).Coherent)
    (hrow : ∃ row, visibleProject (.app a.userId) a.projectId (b c) = some row)
    (h : Runs Db.Rely c (pushItems now a xs) H b (.ok results) H' b') :
    Steady a.projectId c b' ∧ AreEdited now a c xs (b c) (b' c) results := by
  induction xs generalizing H b results with
  | nil =>
    obtain ⟨hresults, rfl, rfl⟩ := runs_pure_iff.mp h
    cases hresults
    exact ⟨hb, [], [], .nil, rfl, rfl, rfl, .nil _, by simp, .nil⟩
  | cons x xs ih =>
    simp only [pushItems, bind_eq, runs_bind_ok_iff, pure_eq, runs_pure_iff,
      Except.ok.injEq] at h
    obtain ⟨result, H₁, b₁, hitem, rest, H₂, b₂, hitems, rfl, rfl, rfl⟩ := h
    obtain ⟨row, hvisible⟩ := hrow
    obtain ⟨hb₁, hpayloads₁, hedited⟩ :=
      runs_pushItem_edited hp hb hpayloads hcoherent hvisible hitem
    -- The next items find the project as it was, but for its sequence.
    obtain ⟨e, rs, -, -, -, hd, haccepts, hproject, -⟩ := id hedited
    obtain ⟨hfound, hrole⟩ := visibleProject_eq_some_iff.mp hvisible
    have hfound' : (b₁ c).project a.projectId = some { row with
        changeSeq := row.changeSeq + rs.length,
        updatedAt := if rs = [] then row.updatedAt else now } := by
      rw [hd]
      exact Db.project_appendAll hproject hfound
    obtain ⟨hb₂, hrest⟩ := ih (hitem.subset hp) hb₁ hpayloads₁
      (hd ▸ haccepts.coherent hcoherent)
      ⟨_, visibleProject_eq_some_iff.mpr ⟨hfound', hrole⟩⟩ hitems
    exact ⟨hb₂, .cons hedited hrest⟩

/-- What an executed push that is answered does. -/
theorem runs_executePush_edited {outcome : PushOutcome}
    (hb : ∀ d, (b d).data a.projectId = d.data a.projectId)
    (hpayloads : ∀ d, (b d).payloads = d.payloads) (hcoherent : (b c).Coherent)
    (h : Runs Db.Rely c (executePush host now a) H b (.ok (.ok outcome)) H' b') :
    ∃ row results d', (b c).project a.projectId = some row ∧ row.ownerUserId = a.userId ∧
      row.status = .active ∧ a.expectedGeneration = row.generation ∧
      AreEdited now a c a.revisions (b c) d' results ∧
      pushResponseJson host row.generation results = some outcome.response ∧
      (b' c).data a.projectId = d'.data a.projectId := by
  have hsteady : Steady a.projectId c b := fun d hd => by rw [hb, hb, hd]
  simp only [executePush, bind_eq, runs_bind_ok_iff, runs_attempt_iff, Except.ok.injEq] at h
  obtain ⟨st, H₁, b₁, ⟨_, hst, rfl⟩, h⟩ := h
  rcases st with error | ⟨generation, sequence⟩
  · obtain ⟨stored, H₂, b₂, -, h⟩ := runs_bind_ok_iff.mp h
    cases stored with
    | true =>
      obtain ⟨hr, -, -⟩ := runs_pure_iff.mp h
      cases hr
    | false => cases h
  · obtain ⟨rfl, rfl, d, row, hd, hrow, hactive, hpair⟩ := runs_requireActiveProjectForUpdate hst
    cases hpair
    have hlock := Set.mem_insert (Lock.project a.projectId) H
    rw [visibleProject, hsteady.data_eq hlock hd] at hrow
    obtain ⟨hproject, hrole⟩ := visibleProject_eq_some_iff.mp hrow
    have howner : row.ownerUserId = a.userId := by simpa [DbRole.sees] using hrole
    -- Failures are answered as such.
    have hfail : ∀ {error : PersistenceError} {H₀ : Set Lock} {b₀ : Db → Db},
        ¬ Runs Db.Rely c (failPush now a error) H₀ b₀ (.ok (.ok outcome)) H' b' := by
      intro error H₀ b₀ hrun
      simp only [failPush, discard_eq, bind_eq, runs_bind_ok_iff, pure_eq, runs_pure_iff,
        Except.ok.injEq] at hrun
      obtain ⟨_, _, _, -, hr, -, -⟩ := hrun
      cases hr
    dsimp only at h
    split at h
    · exact absurd h hfail
    · rename_i hgeneration
      rw [not_ne_iff] at hgeneration
      simp only [query_bind, runs_read_iff] at h
      obtain ⟨d', -, h⟩ := h
      split at h
      · exact absurd h hfail
      · simp only [applyPush, bind_eq, runs_bind_ok_iff, runs_orThrow_iff, runs_modify_iff, pure_eq,
          runs_pure_iff, Except.ok.injEq] at h
        obtain ⟨results, H₁, b₂, hitems, response, _, _, ⟨hsome, rfl, rfl⟩, _, H₂, b₃, hinsert, _,
          _, _, ⟨-, rfl, rfl⟩, rfl, -, rfl⟩ := h
        obtain ⟨-, hedited⟩ := runs_pushItems_edited hlock hsteady hpayloads hcoherent
          ⟨row, hrow⟩ hitems
        obtain ⟨-, rfl, -⟩ := runs_insertRow hinsert
        have hresponse : pushResponseJson host row.generation results = some response := by
          cases hj : pushResponseJson host row.generation results with
          | none => rw [hj] at hsome; cases hsome
          | some j => rw [hj] at hsome; cases hsome; rfl
        exact ⟨row, results, b₂ c, hproject, howner, hactive, hgeneration, hedited, hresponse, rfl⟩

/-- A push that is answered by its items applied them in order. -/
theorem appliesInOrder_of_outcome {e : SyncEvent} (hsound : e.before.Sound)
    (hout : (service host).Outcome Db.Rely e) {response : Json}
    (hcall : e.request.call = .pushWithOutcome a)
    (hresult : e.result = .ok (.pushed ⟨response, false⟩)) :
    AppliesInOrder host e a response := by
  obtain ⟨H, b, ⟨hruns, hafter⟩ | ⟨_, -, herror, -⟩⟩ := hout
  · change Runs _ _ (e.request.call.body host e.request.now) ∅ id _ H b at hruns
    rw [hcall] at hruns
    obtain ⟨r, hpush, hr⟩ := runs_replying_iff.mp hruns
    have hr' : r = .ok ⟨response, false⟩ := by
      rw [hresult] at hr
      cases r with
      | error error => cases hr
      | ok outcome => cases hr; rfl
    subst hr'
    obtain ⟨d, -, hrun⟩ := runs_pushWithOutcome hpush
    split at hrun
    · -- An answer from a record says so.
      unfold replayPush at hrun
      split at hrun
      · split at hrun <;>
        · obtain ⟨hr, -, -⟩ := runs_pure_iff.mp hrun
          cases hr
      · cases hrun
    · obtain ⟨row, results, d', hproject, howner, hactive, hgeneration, hedited, hresponse,
          hdata⟩ := runs_executePush_edited (c := e.before) (b := Db.withoutExpired e.request.now a)
          (fun _ => rfl) (fun _ => rfl) (hsound.withoutExpired _ _).coherent hrun
      obtain ⟨edits, rs, hedits, rfl, hledger, hd', -, hrs, happends⟩ := hedited
      have hrevisions : (b e.before).revisionsOf a.projectId =
          e.before.revisionsOf a.projectId ++ rs := by
        rw [show (b e.before).revisionsOf a.projectId = d'.revisionsOf a.projectId from
          congrArg ProjectData.revisions hdata, hd', Db.revisionsOf_appendAll hrs]
        rfl
      -- The ledger is made of the data of the project alone, which the commit has as the push left
      -- it.
      have hledger' : (b e.before).ledger a.projectId = d'.ledger a.projectId := by
        unfold Db.ledger Db.headNumber
        rw [hdata, show (b e.before).project a.projectId = d'.project a.projectId from
          congrArg ProjectData.project hdata]
      exact ⟨row, edits, rs, hproject, howner, hactive, hgeneration.symm, hedits, hresponse,
        by rw [hafter, hledger', hledger]; rfl, by rw [hafter]; exact hrevisions, happends⟩
  · rw [hresult] at herror
    cases herror

/-- Every push of a run that is answered by its items applied them from left to right: each item
whose base is the revision of the head that the items before it left, and whose payload fits, and
no other. -/
theorem push_applies_in_order {users : List UserRow}
    {w : World Db Lock PersistenceError Reply Request}
    (hw : (service host).Reachable (.initial users) w) {e : SyncEvent} (he : e ∈ w.history)
    {response : Json} (hcall : e.request.call = .pushWithOutcome a)
    (hresult : e.result = .ok (.pushed ⟨response, false⟩)) :
    AppliesInOrder host e a response := by
  obtain ⟨before, after, hsplit⟩ := List.append_of_mem he
  have htr := reachable_trail hw
  rw [hsplit] at htr
  obtain ⟨-, -, hout, hsound, -⟩ := htr.split
  exact appliesInOrder_of_outcome hsound hout hcall hresult

end

/-- An applied item of a sample push, as it is answered. -/
def sampleApplied (id : String) (revision sequence : ℤ) : Json :=
  .obj [("status", .str "applied"), ("kind", .str "todo"), ("id", .str id),
    ("revision", .num revision), ("changeSequence", .num sequence),
    ("changedAt", .str "1970-01-01T00:00:00Z")]

/-- The answer of the first sample push: its third item changes what the first one created. -/
def samplePushResponse : Json :=
  .obj [("generation", .num 1),
    ("results", .arr [sampleApplied "x" 1 1, sampleApplied "y" 1 2, sampleApplied "x" 2 3])]

/-- A batch of three items is applied in order. -/
theorem samplePush_applied :
    AppliesInOrder sampleHost (sampleEvent (sampleSetup ++ samplePushes) ⟨5, by decide⟩)
      ⟨1, 3, 2, 1, "a", "a", [sampleItem "x" none false, sampleItem "y" none false,
        sampleItem "x" (some 1) false]⟩ samplePushResponse :=
  push_applies_in_order (reachable_sampleWorld (by decide))
    (List.get_mem _ _) rfl rfl

/-! ## No lost update -/

/-- The items that a finished push answers as applied, with its project. Answers from a record
repeat what another push answered. -/
def appliedItems (e : SyncEvent) : List (Uuid × NewSyncRevision) :=
  match e.request.call, e.result with
  | .pushWithOutcome a, .ok (.pushed ⟨response, false⟩) =>
    ((a.revisions.zip ((itemStatuses response).getD [])).filter (·.2 == some "applied")).map
      (·.1) |>.map fun x => (a.projectId, x)
  | _, _ => []

/-- An item was applied when its state says so. -/
theorem status_eq_applied (result : PushItemResult) :
    (some result.status == some "applied") = result.isApplied := by
  cases result <;> rfl

/-- The verdict on an edit shows in the result of its item. -/
theorem isApplied_result {a : PushArgs} {c : Db} {x : NewSyncRevision}
    {e : Edit (ObjectKind × String) PushItemResult} (h : IsEditOf a c x e)
    (s : Ledger (ObjectKind × String)) :
    (x.result (s.edit e).1).isApplied = (s.edit e).1.isMade := by
  by_cases hbase : e.base = s.number e.key
  · cases hrefusal : e.refusal with
    | none =>
      rw [edit_of_eq hbase hrefusal]
      rfl
    | some rejected =>
      -- What refuses an item is never the result of an applied one.
      obtain ⟨-, d, -, hcheck⟩ := h.refusal rejected hrefusal
      rw [edit_of_refusal hbase hrefusal]
      exact isApplied_of_checkPayload hcheck
  · rw [edit_of_ne hbase]
    rfl

/-- The items that the states of a batch show as applied are those that were made. -/
theorem filter_statuses_eq_made {a : PushArgs} {c : Db} {xs : List NewSyncRevision}
    {edits : List (Edit (ObjectKind × String) PushItemResult)}
    (h : List.Forall₂ (IsEditOf a c) xs edits) {s : Ledger (ObjectKind × String)} :
    ((xs.zip ((List.zipWith NewSyncRevision.result xs (s.editAll edits).1).map
      fun r => some r.status)).filter (·.2 == some "applied")).map (·.1) =
        made xs (s.editAll edits).1 := by
  induction h generalizing s with
  | nil => rfl
  | @cons x e xs edits hedit hedits ih =>
    rw [editAll_cons, made_cons, List.zipWith_cons_cons, List.map_cons, List.zip_cons_cons,
      List.filter_cons, status_eq_applied, isApplied_result hedit, ← ih]
    split <;> rfl

/-- What an executed push answers as applied are the edits of its batch that were made. -/
theorem statuses_eq_made {host : Host} {a : PushArgs} {c : Db} {xs : List NewSyncRevision}
    {edits : List (Edit (ObjectKind × String) PushItemResult)}
    (h : List.Forall₂ (IsEditOf a c) xs edits) {s : Ledger (ObjectKind × String)} {generation : ℤ}
    {response : Json}
    (hresponse : pushResponseJson host generation
      (List.zipWith NewSyncRevision.result xs (s.editAll edits).1) = some response) :
    ((xs.zip ((itemStatuses response).getD [])).filter (·.2 == some "applied")).map (·.1) =
      made xs (s.editAll edits).1 := by
  rw [itemStatuses_pushResponseJson hresponse]
  exact filter_statuses_eq_made h

/-- The number of an object of a coherent project is how many revisions it has. -/
theorem count_ledger {d : Db} (hd : d.Coherent) (p : Uuid) (k : ObjectKind × String) :
    (d.ledger p).count k = d.revisionCount p k := by
  rcases hd p with hempty | ⟨row, hx⟩
  · have hheads : (d.data p).heads = [] := by rw [hempty]
    have hrevisions : d.revisionsOf p = [] := congrArg ProjectData.revisions hempty
    rw [Db.revisionCount, hrevisions]
    show (((d.data p).head k.1 k.2).map (·.revision)).getD 0 = 0
    rw [ProjectData.head, hheads]
    rfl
  · have hrow : d.project p = some row := hx.project
    show (d.headNumber p k).getD 0 = _
    rw [headNumber_eq hd hrow, Db.revisionCount]
    cases hl : latest SyncRecord.key k (history (d.revisionsOf p)) with
    | none =>
      have hnone : versions SyncRecord.key k (history (d.revisionsOf p)) = [] := by
        rwa [latest, List.getLast?_eq_none_iff] at hl
      rw [hnone]
      rfl
    | some v => exact hx.isHistory.numbered.rev_latest hl

section

variable {host : Host} {users : List UserRow} {w : World Db Lock PersistenceError Reply Request}

/-- What a finished request answers as applied is based on numbers between those before it and those
after it. -/
theorem base_of_appliedItems {e : SyncEvent} (hsound : e.before.Sound)
    (hout : (service host).Outcome Db.Rely e) : (appliedItems e).Pairwise (fun y y' =>
        y.1 = y'.1 → y.2.key = y'.2.key → y.2.baseRevision.getD 0 < y'.2.baseRevision.getD 0) ∧
      ∀ y ∈ appliedItems e, (e.before.ledger y.1).count y.2.key ≤ y.2.baseRevision.getD 0 ∧
        y.2.baseRevision.getD 0 < (e.after.ledger y.1).count y.2.key := by
  unfold appliedItems
  split
  · rename_i a response hcall hresult
    obtain ⟨row, edits, rs, -, -, -, -, hedits, hresponse, hledger, -⟩ :=
      appliesInOrder_of_outcome hsound hout hcall hresult
    rw [statuses_eq_made hedits hresponse]
    have hmade := forall₂_made hedits ((e.before.ledger a.projectId).editAll edits).1
    constructor
    · refine List.pairwise_map.mpr (pairwise_of_forall₂ hmade pairwise_made ?_)
      intro x edit x' edit' h h' hlt _ hkey
      rw [← h.base, ← h'.base]
      exact hlt (h.key.trans (hkey.trans h'.key.symm))
    · intro y hy
      obtain ⟨x, hx, rfl⟩ := List.mem_map.mp hy
      obtain ⟨edit, hedit, h⟩ := exists_of_forall₂ hmade hx
      have hbounds := base_of_mem_made hedit
      rw [h.key, h.base, ← hledger] at hbounds
      exact hbounds
  · exact ⟨.nil, by simp⟩

/-- Of all items of one object that the pushes of a run answer as applied, in one push or in
several, a later one is based on a higher revision: no two change the same revision, and none is
applied on a revision that another one changed. -/
theorem applied_bases_increase (hw : (service host).Reachable (.initial users) w) :
    (w.history.flatMap appliedItems).Pairwise fun y y' => y.1 = y'.1 → y.2.key = y'.2.key →
      y.2.baseRevision.getD 0 < y'.2.baseRevision.getD 0 := by
  -- What was applied so far is below the numbers of the heads.
  refine ((reachable_trail hw).invariant (J := fun h d =>
    (h.flatMap appliedItems).Pairwise (fun y y' => y.1 = y'.1 → y.2.key = y'.2.key →
      y.2.baseRevision.getD 0 < y'.2.baseRevision.getD 0) ∧
    ∀ y ∈ h.flatMap appliedItems, y.2.baseRevision.getD 0 < (d.ledger y.1).count y.2.key)
    ⟨.nil, by simp⟩ fun h e _ _ _ hout hbefore hafter ⟨hpairwise, hbelow⟩ => ?_).1
  obtain ⟨hnew, hbounds⟩ := base_of_appliedItems hbefore hout
  have hgrow (p : Uuid) (k : ObjectKind × String) :
      (e.before.ledger p).count k ≤ (e.after.ledger p).count k := by
    rw [count_ledger hbefore.coherent, count_ledger hafter.coherent]
    exact Db.revisionCount_mono
      ((eventEffect_of_outcome hbefore hout).projectStep p).revisions_grow
  rw [List.flatMap_append, List.flatMap_singleton]
  constructor
  · refine List.pairwise_append.mpr ⟨hpairwise, hnew, fun y hy y' hy' hproject hkey => ?_⟩
    have hlow := (hbounds y' hy').1
    have hold := hbelow y hy
    rw [hproject, hkey] at hold
    omega
  · intro y hy
    rcases List.mem_append.mp hy with hy | hy
    · exact lt_of_lt_of_le (hbelow y hy) (hgrow _ _)
    · exact (hbounds y hy).2

end

/-- What the two sample pushes answer as applied. -/
theorem samplePushes_increase :
    ((sampleWorld (sampleSetup ++ samplePushes)).history.flatMap appliedItems).map
        (fun y => (y.2.id, y.2.baseRevision)) =
      [("x", none), ("y", none), ("x", some 1), ("y", some 1)] ∧
    ((sampleWorld (sampleSetup ++ samplePushes)).history.flatMap appliedItems).Pairwise
      fun y y' => y.1 = y'.1 → y.2.key = y'.2.key →
        y.2.baseRevision.getD 0 < y'.2.baseRevision.getD 0 :=
  ⟨by rfl, applied_bases_increase
    (reachable_sampleWorld (by decide))⟩

end TaskTipsCloud

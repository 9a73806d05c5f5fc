import TaskTipsCloud.Library.Serial
import TaskTipsCloud.PushRequests

/-!
# What a push binds

`push_with_outcome` once more, with what its statements ask of the values that are bound to them: a
text or a JSON value without the character NUL, a text of at most 64 characters where the column is
that short, an instant that has a date in UTC, and a sequence that fits its column. The statements
themselves are those of the push.
-/

namespace TaskTipsCloud

open Txn

/-! ## Values -/

/-- Why a push fails at its statements: a text has a NUL, a text is too long for its column, a
number is too large for its column, or what else the push fails with. -/
inductive BindError where
  | invalidText
  | valueTooLong
  | outOfRange
  | persistence (error : PersistenceError)

/-- The statements of a push with the checks of what is bound to them. -/
abbrev BoundTx := Txn Db Lock BindError

/-- A text that the database can store. -/
def encodable (s : String) : Bool := s.toList.all (· != '\x00')

mutual

/-- A JSON value whose texts the database can store. -/
def Json.encodable : Json → Bool
  | .str s => TaskTipsCloud.encodable s
  | .arr items => Json.allEncodable items
  | .obj members => Json.membersEncodable members
  | .null | .bool _ | .num _ | .float _ => true

/-- JSON values whose texts the database can store. -/
def Json.allEncodable : List Json → Bool
  | [] => true
  | item :: items => item.encodable && Json.allEncodable items

/-- Members whose texts the database can store. -/
def Json.membersEncodable : List (String × Json) → Bool
  | [] => true
  | (key, value) :: members =>
    TaskTipsCloud.encodable key && value.encodable && Json.membersEncodable members

end

/-- The start of the year -9999 in nanoseconds since the Unix epoch. -/
def minUtcNanos : ℤ := -377705203200 * 10 ^ 9

/-- The start of the year 10000 in nanoseconds since the Unix epoch. -/
def maxUtcNanos : ℤ := 253402300800 * 10 ^ 9

/-- Whether an instant has a date in UTC. -/
def OffsetDateTime.fitsUtc (t : OffsetDateTime) : Bool :=
  minUtcNanos ≤ t.unixNanos && t.unixNanos < maxUtcNanos

/-- Binds a text. -/
def bindText (s : String) : BoundTx Unit := require (encodable s) .invalidText

/-- Binds a text to a column of 64 characters. -/
def bindChar64 (s : String) : BoundTx Unit := do
  bindText s
  require (s.toList.length ≤ 64) .valueTooLong

/-- Binds a text that may be absent. -/
def bindOption (bind : String → BoundTx Unit) : Option String → BoundTx Unit
  | some s => bind s
  | none => return

/-- Binds a JSON value. -/
def bindJson (j : Json) : BoundTx Unit := require j.encodable .invalidText

/-- Binds an instant: its conversion to UTC panics when there is no such date. -/
def bindTime (t : OffsetDateTime) : BoundTx Unit := require t.fitsUtc (.persistence .panicked)

/-- Runs statements whose values are bound. -/
def statements {α : Type} (x : Tx α) : BoundTx α := x.mapErr .persistence

/-- The next sequence of a project fits its column. -/
def checkSequence (projectId : Uuid) : BoundTx Unit := do
  let row ← query (·.project projectId)
  require (row.all fun p => p.changeSeq + 1 < 2 ^ 63) .outOfRange

/-! ## The push -/

/-- Appends the revision of an item. -/
def boundAppend (now : Timestamp) (a : PushArgs) (revision : NewSyncRevision) (actual : Option ℤ)
    (payloadId : Option Uuid) : BoundTx PushItemResult := do
  checkSequence a.projectId
  bindText revision.id
  bindOption bindChar64 revision.contentHash
  bindTime revision.changedAt
  let sequence ← statements <|
    appendRevision (.app a.userId) now (itemRevision a revision actual payloadId)
  return .applied revision.kind revision.id (actual.getD 0 + 1) sequence revision.changedAt

/-- Applies one item. -/
def boundItem (now : Timestamp) (a : PushArgs) (revision : NewSyncRevision) :
    BoundTx PushItemResult := do
  bindText revision.id
  let actual ← query (headRevision (.app a.userId) a.projectId revision.kind revision.id)
  if revision.baseRevision ≠ actual then
    return .conflict revision.kind revision.id revision.baseRevision actual
  else
    bindOption bindText (if revision.tombstone then none else revision.contentHash)
    match ← statements (itemPayload a revision) with
    | .error rejected => return rejected
    | .ok payloadId => boundAppend now a revision actual payloadId

/-- Applies the items in order. -/
def boundItems (now : Timestamp) (a : PushArgs) :
    List NewSyncRevision → BoundTx (List PushItemResult)
  | [] => return []
  | revision :: revisions => do
    let result ← boundItem now a revision
    let results ← boundItems now a revisions
    return result :: results

/-- Binds the values of an idempotency record. -/
def bindRecord (a : PushArgs) (response : Json) : BoundTx Unit := do
  bindText a.requestKey
  bindChar64 a.requestHash
  bindJson response

/-- Stores the failure of a push, if it is one that is stored. -/
def boundStoreFailure (now : Timestamp) (a : PushArgs) (error : PersistenceError) :
    BoundTx Bool := do
  if let some (_, response) := pushFailureResponse error then bindRecord a response
  statements (storePushFailure now a error)

/-- Stores a failure that the transaction commits, and answers with it. -/
def boundFail (now : Timestamp) (a : PushArgs) (error : PersistenceError) :
    BoundTx (Except PersistenceError PushOutcome) := do
  discard <| boundStoreFailure now a error
  return .error error

/-- The part of a push that its checks let through. -/
def boundApply (host : Host) (now : Timestamp) (a : PushArgs) (generation : ℤ) :
    BoundTx (Except PersistenceError PushOutcome) := do
  let results ← boundItems now a a.revisions
  let response ← orThrow (.persistence .panicked) (pushResponseJson host generation results)
  bindRecord a response
  statements (insertIdempotencyRecord now a response 200)
  modify (·.updateDevice (.app a.userId) a.deviceId fun v => { v with lastPushAt := some now })
  return .ok ⟨response, false⟩

/-- A push whose key has no record. -/
def boundExecute (host : Host) (now : Timestamp) (a : PushArgs) :
    BoundTx (Except PersistenceError PushOutcome) := do
  match ← statements (requireActiveProjectForUpdate (.app a.userId) a.projectId).attempt with
  | .error error =>
    if ← boundStoreFailure now a error then return .error error
    else .throw (.persistence error)
  | .ok (generation, _) =>
    if a.expectedGeneration ≠ generation then
      boundFail now a (.generationMismatch a.expectedGeneration generation)
    else if !(← query (bootstrapped a generation)) then
      boundFail now a .bootstrapRequired
    else boundApply host now a generation

/-- Applies a push, or answers it from the record of its key. The first statement binds the key in
the text of its lock. -/
def boundPush (host : Host) (now : Timestamp) (a : PushArgs) :
    BoundTx (Except PersistenceError PushOutcome) := do
  bindText a.requestKey
  acquire (.push a.userId a.deviceId a.requestKey)
  statements (deleteExpiredRecords now a)
  match (← query (·.recordsFor a)).head? with
  | some r => statements (replayPush host a r)
  | none => boundExecute host now a

/-- What a push returns, and the database that it leaves. -/
def runPush (host : Host) (now : Timestamp) (a : PushArgs) (d : Db) :
    Except BindError PushOutcome × Db :=
  ((boundPush host now a).bind fun r => .pure (r.mapError .persistence)).execute d

/-- An error of the database: of a constraint, of the range of a number, of the encoding of a text,
or of a row that is not there. -/
def BindError.isDatabase : BindError → Bool
  | .persistence (.database _) => true
  | .persistence _ => false
  | .invalidText | .valueTooLong | .outOfRange => true

/-- A push that ends with the results of its items or with one of the declared errors. -/
def isDeclared : Except BindError PushOutcome → Bool
  | .ok _ => true
  | .error (.persistence .panicked) => false
  | .error e => !e.isDatabase

/-! ## The push without the checks -/

/-- What `x` returns, `y` returns as well. -/
def Erases {α : Type} (x : BoundTx α) (y : Tx α) : Prop :=
  ∀ d v d', x.run d = (.ok v, d') → y.run d = (.ok v, d')

section Erases

variable {α β : Type} {x : BoundTx α} {y : Tx α} {f : α → BoundTx β} {g : α → Tx β}
  {now : Timestamp} {a : PushArgs}

/-- A value erases to itself. -/
theorem Erases.pure (v : α) : Erases (.pure v) (.pure v) := by
  intro d v' d' h
  cases h
  rfl

/-- Sequences erase step by step. -/
theorem Erases.bind (hx : Erases x y) (hf : ∀ v, Erases (f v) (g v)) :
    Erases (x.bind f) (y.bind g) := by
  intro d v d' h
  obtain ⟨u, d₁, hrun, hrest⟩ := run_bind_ok_iff.mp h
  exact run_bind_ok_iff.mpr ⟨u, d₁, hx _ _ _ hrun, hf u _ _ _ hrest⟩

/-- A check before a part. -/
theorem Erases.after {c : BoundTx Unit} (hc : Erases c (.pure ())) (hx : Erases x y) :
    Erases (c.bind fun _ => x) y :=
  Erases.bind hc fun _ => hx

/-- Statements without parameters erase to themselves. -/
theorem Erases.statements (y : Tx α) : Erases (statements y) y :=
  fun _ _ _ h => run_mapErr_ok_iff.mp h

/-- A query erases to itself. -/
theorem Erases.query_bind {q : Db → β} {f : β → BoundTx α} {g : β → Tx α}
    (hf : ∀ v, Erases (f v) (g v)) : Erases ((query q).bind f) ((query q).bind g) :=
  fun _ _ _ h => hf _ _ _ _ h

/-- An error of a parameter erases to anything. -/
theorem Erases.throw (e : BindError) : Erases (.throw e) y := by
  intro d v d' h
  cases h

/-- A check of a parameter erases to nothing. -/
theorem Erases.require (p : Bool) (e : BindError) : Erases (require p e) (.pure ()) := by
  cases p
  · exact Erases.throw e
  · exact Erases.pure ()

/-- A text as a parameter erases to nothing. -/
theorem Erases.bindText (s : String) : Erases (bindText s) (.pure ()) := Erases.require _ _

/-- A text of 64 characters as a parameter erases to nothing. -/
theorem Erases.bindChar64 (s : String) : Erases (bindChar64 s) (.pure ()) :=
  Erases.after (Erases.bindText s) (Erases.require _ _)

/-- An optional parameter erases to nothing. -/
theorem Erases.bindOption {bind : String → BoundTx Unit} (h : ∀ s, Erases (bind s) (.pure ())) :
    ∀ s, Erases (bindOption bind s) (.pure ())
  | some s => h s
  | none => Erases.pure ()

/-- The parameters of an idempotency record erase to nothing. -/
theorem Erases.bindRecord (a : PushArgs) (response : Json) :
    Erases (bindRecord a response) (.pure ()) :=
  Erases.after (Erases.bindText _) (Erases.after (Erases.bindChar64 _) (Erases.require _ _))

/-- The check of the next sequence erases to nothing. -/
theorem Erases.checkSequence (p : Uuid) : Erases (checkSequence p) (.pure ()) :=
  fun _ _ _ h => Erases.require _ _ _ _ _ h

/-- The statements of an item are those of the push. -/
theorem erases_boundItem (revision : NewSyncRevision) :
    Erases (boundItem now a revision) (pushItem now a revision) := by
  unfold boundItem pushItem
  refine Erases.after (Erases.bindText _) (Erases.query_bind fun actual => ?_)
  split
  · exact Erases.pure _
  · refine Erases.after (Erases.bindOption Erases.bindText _)
      (Erases.bind (Erases.statements _) fun payloadId => ?_)
    cases payloadId with
    | error rejected => exact Erases.pure rejected
    | ok payloadId =>
      refine Erases.after (Erases.checkSequence _) (Erases.after (Erases.bindText _) ?_)
      refine Erases.after (Erases.bindOption Erases.bindChar64 _) ?_
      exact Erases.after (Erases.require _ _)
        (Erases.bind (Erases.statements _) fun sequence => Erases.pure _)

/-- So are those of all items. -/
theorem erases_boundItems (revisions : List NewSyncRevision) :
    Erases (boundItems now a revisions) (pushItems now a revisions) := by
  induction revisions with
  | nil => exact Erases.pure []
  | cons revision revisions ih =>
    exact Erases.bind (erases_boundItem revision) fun _ => Erases.bind ih fun _ => Erases.pure _

/-- The record of a failure is that of the push. -/
theorem erases_boundStoreFailure (error : PersistenceError) :
    Erases (boundStoreFailure now a error) (storePushFailure now a error) := by
  unfold boundStoreFailure
  cases pushFailureResponse error with
  | none => exact Erases.statements _
  | some stored => exact Erases.after (Erases.bindRecord _ _) (Erases.statements _)

/-- A failure ends like that of the push. -/
theorem erases_boundFail (error : PersistenceError) :
    Erases (boundFail now a error) (failPush now a error) :=
  Erases.bind (Erases.bind (erases_boundStoreFailure error) fun _ => Erases.pure ())
    fun _ => Erases.pure _

/-- The items are applied as by the push. -/
theorem erases_boundApply (host : Host) (generation : ℤ) :
    Erases (boundApply host now a generation) (applyPush host now a generation) := by
  refine Erases.bind (erases_boundItems a.revisions) fun results => ?_
  cases pushResponseJson host generation results with
  | none => exact Erases.throw _
  | some response =>
    refine Erases.after (Erases.bindRecord _ _) (Erases.bind (Erases.statements _) fun _ => ?_)
    intro d v d' h
    cases h
    rfl

/-- The execution is that of the push. -/
theorem erases_boundExecute (host : Host) :
    Erases (boundExecute host now a) (executePush host now a) := by
  refine Erases.bind (Erases.statements _) fun state => ?_
  cases state with
  | error error =>
    refine Erases.bind (erases_boundStoreFailure error) fun stored => ?_
    cases stored with
    | false => exact Erases.throw _
    | true => exact Erases.pure _
  | ok state =>
    obtain ⟨generation, sequence⟩ := state
    dsimp only
    split
    · exact erases_boundFail _
    · refine Erases.query_bind fun bootstrapped => ?_
      cases bootstrapped with
      | false => exact erases_boundFail _
      | true => exact erases_boundApply host generation

/-- A push with its parameters is the push without them when they all bind. -/
theorem erases_boundPush (host : Host) :
    Erases (boundPush host now a) (pushWithOutcome host now a) := by
  refine Erases.after (Erases.bindText _) fun d v d' h => ?_
  revert h
  refine (Erases.bind (Erases.statements _) fun _ => Erases.query_bind fun records => ?_) d v d'
  cases records.head? with
  | none => exact erases_boundExecute host
  | some r => exact Erases.statements _

end Erases

/-- A push that ends with its results does what the push without the checks does. -/
theorem execute_of_runPush {host : Host} {now : Timestamp} {a : PushArgs} {d d' : Db}
    {outcome : PushOutcome} (h : runPush host now a d = (.ok outcome, d')) :
    (pushWithOutcome host now a).execute d = (.ok outcome, d') := by
  unfold runPush execute at h
  rw [run_bind] at h
  rcases hrun : (boundPush host now a).run d with ⟨e | r, d₁⟩
  · rw [hrun] at h
    cases h
  · rw [hrun] at h
    unfold execute
    rw [erases_boundPush host _ _ _ hrun]
    cases r with
    | error e => cases h
    | ok outcome =>
      cases h
      rfl

end TaskTipsCloud

import TaskTipsCloud.Frames

/-!
# The calls that write to the change log

What a push and a restore do among other sessions, on the database on which they commit. Under the
lock of their project both see its rows as they are at the commit (`Db.Rely`), so the revisions that
they append fit its history.
-/

namespace TaskTipsCloud

open Txn Versions

/-- What holds of every committed database. -/
structure Db.Sound (d : Db) : Prop where
  coherent : d.Coherent
  /-- A push key has at most one record. -/
  records : ∀ a, (d.recordsFor a).length ≤ 1

/-- What a session with the locks `H` that reads the database `d` knows of the database `c` on which
it commits. -/
structure Db.Rely (H : Set Lock) (d c : Db) : Prop where
  sound : d.Sound
  data : ∀ p, Lock.project p ∈ H → d.data p = c.data p
  job : ∀ j, Lock.restoreJob j ∈ H → d.restoreJob j = c.restoreJob j
  records : ∀ u v k, Lock.push u v k ∈ H → (c.recordsOf u v k).Sublist (d.recordsOf u v k)
  completions : ∀ a g, bootstrapped a g d → bootstrapped a g c

/-- Others may change nothing. -/
theorem Db.Rely.refl {d : Db} (hd : d.Sound) (H : Set Lock) : Db.Rely H d d :=
  ⟨hd, fun _ _ => rfl, fun _ _ => rfl, fun _ _ _ _ => .refl _, fun _ _ => id⟩

/-- What others do under the same locks, in two parts. -/
theorem Db.Rely.trans {H : Set Lock} {d d' d'' : Db} (h : Db.Rely H d d')
    (h' : Db.Rely H d' d'') : Db.Rely H d d'' where
  sound := h.sound
  data p hp := (h.data p hp).trans (h'.data p hp)
  job j hj := (h.job j hj).trans (h'.job j hj)
  records u v k hk := (h'.records u v k hk).trans (h.records u v k hk)
  completions a g hc := h'.completions a g (h.completions a g hc)

/-- What others may do under more locks they may do under fewer. -/
theorem Db.Rely.anti {H H' : Set Lock} {d d' : Db} (hH : H ⊆ H') (h : Db.Rely H' d d') :
    Db.Rely H d d' where
  sound := h.sound
  data p hp := h.data p (hH hp)
  job j hj := h.job j (hH hj)
  records u v k hk := h.records u v k (hH hk)
  completions := h.completions

/-- Other sessions rely on what a session moves under its locks. -/
theorem Db.Moves.rely {H K : Set Lock} {d d' : Db} (h : Db.Moves H d d') (hd : d.Sound)
    (hK : Disjoint K H) : Db.Rely K d d' where
  sound := hd
  data p hp := (h.data p (Set.disjoint_left.mp hK hp)).symm
  job j hj := (h.job j (Set.disjoint_left.mp hK hj)).symm
  records u v k hk := h.records u v k (Set.disjoint_left.mp hK hk)
  completions := h.completions

/-- What a buffer makes of the rows of a project depends on those rows only, near the database on
which it commits. -/
def Steady (p : Uuid) (c : Db) (b : Db → Db) : Prop :=
  ∀ d, d.data p = c.data p → (b d).data p = (b c).data p

section

variable {H H' : Set Lock} {c : Db} {b b' : Db → Db}

/-- Under the lock of a project its rows are read as they are at the commit. -/
theorem Steady.data_eq {p : Uuid} (hb : Steady p c b) (hp : Lock.project p ∈ H) {d : Db}
    (hd : Db.Rely H d c) : (b d).data p = (b c).data p :=
  hb d (hd.data p hp)

/-- An appended revision keeps what is steady. -/
theorem steady_append {p : Uuid} {r : ObjectRevision} {now : Timestamp} {sequence : ℤ}
    (hb : Steady p c b) (hr : r.projectId = p) : Steady p c (Db.append now sequence r ∘ b) := by
  subst hr
  intro d hd
  rw [Function.comp_apply, Function.comp_apply, Db.data_append, Db.data_append, hb d hd]

/-! ## Statements among other sessions -/

/-- Reading a row for update: no row is found, or it is read again under its lock. -/
theorem runs_selectForUpdate_iff {R : Set Lock → Db → Db → Prop} {α : Type} {l : Lock}
    {row : Db → Option α}
    {r : Except PersistenceError (Option α)} :
    Runs R c (selectForUpdate l row) H b r H' b' ↔ ∃ d, R H d c ∧
      ((row (b d) = none ∧ r = .ok none ∧ H = H' ∧ b = b') ∨
        (row (b d) ≠ none ∧ ∃ d', R (insert l H) d' c ∧ r = .ok (row (b d')) ∧
          insert l H = H' ∧ b = b')) := by
  simp only [selectForUpdate, bind_eq, query_bind, runs_read_iff]
  refine exists_congr fun d => and_congr_right fun _ => ?_
  cases hrow : row (b d) <;> simp

/-- A row that is read for update and is there. -/
theorem runs_lockRow {R : Set Lock → Db → Db → Prop} {α β : Type} {l : Lock} {row : Db → Option α}
    {e : PersistenceError}
    {f : α → Tx β} {r : β}
    (h : Runs R c ((selectForUpdate l row).bind fun o => (orThrow e o).bind f) H b
      (.ok r) H' b') :
    ∃ d x, R (insert l H) d c ∧ row (b d) = some x ∧
      Runs R c (f x) (insert l H) b (.ok r) H' b' := by
  simp only [runs_bind_ok_iff, runs_selectForUpdate_iff, runs_orThrow_iff] at h
  obtain ⟨o, H₁, b₁, ⟨_, -, hsel⟩, x, H₂, b₂, ⟨hsome, rfl, rfl⟩, hf⟩ := h
  rcases hsel with ⟨-, ho, -, -⟩ | ⟨-, d, hd, ho, rfl, rfl⟩
  · cases ho
    cases hsome
  · cases ho
    cases hrow : row (b d) with
    | none =>
      rw [hrow] at hsome
      cases hsome
    | some y =>
      rw [hrow] at hsome
      cases hsome
      exact ⟨d, x, hd, hrow, hf⟩

/-- The state of a project that is active. -/
theorem runs_requireActiveProject {R : Set Lock → Db → Db → Prop} {role : DbRole} {p : Uuid}
    {st : ℤ × ℤ} (h : Runs R c (requireActiveProject role p) H b (.ok st) H' b') :
    H = H' ∧ b = b' ∧ ∃ d row, R H d c ∧ visibleProject role p (b d) = some row ∧
      row.status = .active ∧ st = (row.generation, row.changeSeq) := by
  change Runs R c (((query (visibleProject role p)).bind fun o => (orThrow .notFound o).bind
    fun row => (require (row.status == .active) .projectMaintenance).bind fun _ =>
      .pure (row.generation, row.changeSeq)) : Tx (ℤ × ℤ)) H b (.ok st) H' b' at h
  simp only [query_bind, runs_read_iff, runs_bind_ok_iff, runs_orThrow_iff, runs_require_iff,
    runs_pure_iff, Except.ok.injEq] at h
  obtain ⟨d, hd, row, _, _, ⟨hrow, rfl, rfl⟩, _, _, _, ⟨hstatus, rfl, rfl⟩, rfl, rfl, rfl⟩ := h
  refine ⟨rfl, rfl, d, row, hd, ?_, ?_, rfl⟩
  · cases hv : visibleProject role p (b d) with
    | none => rw [hv] at hrow; cases hrow
    | some row' => rw [hv] at hrow; cases hrow; rfl
  · by_contra hne
    simp [hne] at hstatus

/-- The state of a project that is active and stays locked. -/
theorem runs_requireActiveProjectForUpdate {R : Set Lock → Db → Db → Prop} {role : DbRole}
    {p : Uuid} {st : ℤ × ℤ}
    (h : Runs R c (requireActiveProjectForUpdate role p) H b (.ok st) H' b') :
    H' = insert (.project p) H ∧ b' = b ∧ ∃ d row, R H' d c ∧
      visibleProject role p (b d) = some row ∧ row.status = .active ∧
      st = (row.generation, row.changeSeq) := by
  obtain ⟨d, row, hd, hrow, hrest⟩ := runs_lockRow h
  simp only [bind_eq, runs_bind_ok_iff, runs_require_iff, pure_eq, runs_pure_iff,
    Except.ok.injEq] at hrest
  obtain ⟨_, _, _, ⟨hst, rfl, rfl⟩, rfl, rfl, rfl⟩ := hrest
  refine ⟨rfl, rfl, d, row, hd, hrow, ?_, rfl⟩
  by_contra hne
  simp [hne] at hst

/-- An insert that no constraint refuses. -/
theorem runs_insertRow {R : Set Lock → Db → Db → Prop} {refused : Db → Option DatabaseError}
    {write : Db → Db} (h : Runs R c (insertRow refused write) H b (.ok ()) H' b') :
    H' = H ∧ b' = write ∘ b ∧ ∃ d, R H d c ∧ refused (b d) = none := by
  simp only [insertRow, bind_eq, query_bind, runs_read_iff] at h
  obtain ⟨d, hd, h⟩ := h
  cases hrefused : refused (b d) with
  | some e =>
    rw [hrefused] at h
    simp at h
  | none =>
    rw [hrefused] at h
    obtain ⟨-, rfl, rfl⟩ := runs_modify_iff.mp h
    exact ⟨rfl, rfl, d, hd, hrefused⟩

/-- What the four statements that append a revision do when none of them fails. -/
theorem runs_appendRevision {role : DbRole} {now : Timestamp} {r : ObjectRevision}
    {sequence : ℤ} (hp : Lock.project r.projectId ∈ H) (hb : Steady r.projectId c b)
    (h : Runs Db.Rely c (appendRevision role now r) H b (.ok sequence) H' b') :
    ∃ row, visibleProject role r.projectId (b c) = some row ∧
      (∀ x ∈ (b c).revisionsOf r.projectId, x.id ≠ r.id) ∧
      sequence = row.changeSeq + 1 ∧ b' = Db.append now sequence r ∘ b := by
  simp only [appendRevision, bind_eq, runs_bind_ok_iff] at h
  obtain ⟨next, H₁, b₁, hnext, i, H₂, b₂, hinsert, _, H₃, b₃, hhead, _, H₄, b₄, hlog, hend⟩ := h
  -- The next sequence is that of the project on which the transaction commits.
  simp only [nextChangeSequence, bind_eq, query_bind, runs_read_iff, runs_bind_ok_iff,
    runs_orThrow_iff, runs_modify_iff, pure_eq, runs_pure_iff, Except.ok.injEq] at hnext
  obtain ⟨d, hd, row, _, _, ⟨hrow, hH₀, hb₀⟩, _, _, _, ⟨-, hH₁, hb₁⟩, rfl, rfl, rfl⟩ := hnext
  subst hH₀ hb₀ hH₁ hb₁
  have hvisible : visibleProject role r.projectId (b d) = some row := by
    cases hv : visibleProject role r.projectId (b d) with
    | none => rw [hv] at hrow; cases hrow
    | some row' => rw [hv] at hrow; cases hrow; rfl
  rw [visibleProject, hb.data_eq hp hd] at hvisible
  -- The constraint on revisions reads the same rows.
  simp only [insertRevision, bind_eq, runs_bind_ok_iff, pure_eq, runs_pure_iff,
    Except.ok.injEq] at hinsert
  obtain ⟨_, H₅, b₅, hkeep, _, H₆, b₆, hrow, hi, hH₂, hb₂⟩ := hinsert
  subst hi hH₂ hb₂
  have hkept : H ⊆ H₅ ∧ b₅ = (·.updateProject r.projectId (·.advance now)) ∘ b := by
    cases hpayload : r.payloadId with
    | none =>
      rw [hpayload] at hkeep
      obtain ⟨-, rfl, rfl⟩ := runs_pure_iff.mp hkeep
      exact ⟨subset_rfl, rfl⟩
    | some payloadId =>
      rw [hpayload] at hkeep
      obtain ⟨-, rfl, rfl⟩ := runs_acquire_iff.mp hkeep
      exact ⟨Set.subset_insert _ _, rfl⟩
  obtain ⟨hH₅, rfl⟩ := hkept
  obtain ⟨rfl, rfl, d', hd', hrefused⟩ := runs_insertRow hrow
  have hrevisions : (b d').revisionsOf r.projectId = (b c).revisionsOf r.projectId :=
    congrArg ProjectData.revisions (hb.data_eq (hH₅ hp) hd')
  have hfresh := constraint_of_firstViolation hrefused (c := ((b d').revisionsOf r.projectId).all
    (·.id != r.id)) (e := .uniqueViolation) (by
      simp only [Function.comp_apply]
      exact List.mem_of_getElem? (i := 4) rfl)
  obtain ⟨-, rfl, rfl⟩ := runs_modify_iff.mp hhead
  obtain ⟨rfl, rfl, -⟩ := runs_insertRow hlog
  simp only [pure_eq, runs_pure_iff, Except.ok.injEq] at hend
  obtain ⟨rfl, rfl, rfl⟩ := hend
  refine ⟨row, hvisible, ?_, rfl, rfl⟩
  simpa [hrevisions] using hfresh

/-! ## Push -/

/-- Appending at the sequence that was read is appending at the next sequence. -/
theorem append_eq_appendNext {role : DbRole} {d : Db} {now : Timestamp} {r : ObjectRevision}
    {row : ProjectRow} (hrow : visibleProject role r.projectId d = some row) :
    d.append now (row.changeSeq + 1) r = d.appendNext now r := by
  obtain ⟨hproject, -⟩ := visibleProject_eq_some_iff.mp hrow
  simp [Db.appendNext, Db.nextSequence, hproject]

/-- The revisions that one item of a push appends with its result, on a database: an applied item is
based on the head revision of its object. -/
inductive ItemEffect (now : Timestamp) (a : PushArgs) (revision : NewSyncRevision) (d : Db) :
    PushItemResult → List ObjectRevision → Prop
  | skipped {result : PushItemResult} (h : result.isApplied = false) :
      ItemEffect now a revision d result []
  | applied {row : ProjectRow} (payloadId : Option Uuid)
      (hrow : visibleProject (.app a.userId) a.projectId d = some row)
      (hbase : revision.baseRevision =
        headRevision (.app a.userId) a.projectId revision.kind revision.id d) :
      ItemEffect now a revision d
        (.applied revision.kind revision.id (revision.baseRevision.getD 0 + 1)
          (row.changeSeq + 1) revision.changedAt)
        [itemRevision a revision revision.baseRevision payloadId]

/-- A payload that is missing or does not fit is not an applied item. -/
theorem isApplied_of_checkPayload {revision : NewSyncRevision} {payload : Option PayloadRow}
    {rejected : PushItemResult} (h : checkPayload revision payload = .error rejected) :
    rejected.isApplied = false := by
  unfold checkPayload at h
  split at h
  · cases h
    rfl
  · dsimp only at h
    split at h
    · cases h
      rfl
    · split at h
      · cases h
        rfl
      · cases h

/-- Looking for the payload of an item changes nothing. -/
theorem runs_itemPayload {a : PushArgs} {revision : NewSyncRevision}
    {payload : Except PushItemResult (Option Uuid)}
    (h : Runs Db.Rely c (itemPayload a revision) H b (.ok payload) H' b') :
    H = H' ∧ b = b' ∧ ∀ rejected, payload = .error rejected → rejected.isApplied = false := by
  have hcheck : ∀ o rejected, (checkPayload revision o).map some = .error rejected →
      rejected.isApplied = false := by
    intro o rejected hmap
    cases hc : checkPayload revision o with
    | error e =>
      rw [hc] at hmap
      cases hmap
      exact isApplied_of_checkPayload hc
    | ok p =>
      rw [hc] at hmap
      cases hmap
  unfold itemPayload at h
  split at h
  · obtain ⟨hpayload, rfl, rfl⟩ := runs_pure_iff.mp h
    cases hpayload
    exact ⟨rfl, rfl, nofun⟩
  · split at h
    · obtain ⟨hpayload, rfl, rfl⟩ := runs_pure_iff.mp h
      cases hpayload
      exact ⟨rfl, rfl, hcheck none⟩
    · simp only [bind_eq, query_bind, runs_read_iff, pure_eq, runs_pure_iff, Except.ok.injEq] at h
      obtain ⟨d, -, rfl, rfl, rfl⟩ := h
      exact ⟨rfl, rfl, hcheck _⟩

/-- What one item of a push does. -/
theorem runs_pushItem {now : Timestamp} {a : PushArgs} {revision : NewSyncRevision}
    {result : PushItemResult} (hp : Lock.project a.projectId ∈ H) (hb : Steady a.projectId c b)
    (h : Runs Db.Rely c (pushItem now a revision) H b (.ok result) H' b') :
    Steady a.projectId c b' ∧
      ∃ rs, b' c = (b c).appendAll now rs ∧ ItemEffect now a revision (b c) result rs := by
  simp only [pushItem, bind_eq, query_bind, runs_read_iff] at h
  obtain ⟨d, hd, h⟩ := h
  have hactual : headRevision (.app a.userId) a.projectId revision.kind revision.id (b d) =
      headRevision (.app a.userId) a.projectId revision.kind revision.id (b c) := by
    unfold headRevision
    rw [hb.data_eq hp hd]
  rw [hactual] at h
  split at h
  · obtain ⟨hresult, rfl, rfl⟩ := runs_pure_iff.mp h
    cases hresult
    exact ⟨hb, [], rfl, .skipped rfl⟩
  · rename_i hbase
    rw [not_ne_iff] at hbase
    rw [← hbase] at h
    obtain ⟨payload, H₁, b₁, hpayload, h⟩ := runs_bind_ok_iff.mp h
    obtain ⟨rfl, rfl, hrejected⟩ := runs_itemPayload hpayload
    cases payload with
    | error rejected =>
      obtain ⟨hresult, rfl, rfl⟩ := runs_pure_iff.mp h
      cases hresult
      exact ⟨hb, [], rfl, .skipped (hrejected _ rfl)⟩
    | ok payloadId =>
      obtain ⟨sequence, H₂, b₂, happend, hend⟩ := runs_bind_ok_iff.mp h
      obtain ⟨hresult, rfl, rfl⟩ := runs_pure_iff.mp hend
      obtain ⟨row, hrow, -, rfl, rfl⟩ := runs_appendRevision hp hb happend
      cases hresult
      refine ⟨steady_append hb rfl, _, ?_, .applied payloadId hrow hbase⟩
      rw [Db.appendAll_cons, Db.appendAll_nil, ← append_eq_appendNext hrow]
      rfl

/-- The items of a push, one after the other. -/
inductive ItemEffects (now : Timestamp) (a : PushArgs) :
    Db → List NewSyncRevision → List PushItemResult → List ObjectRevision → Prop
  | nil (d : Db) : ItemEffects now a d [] [] []
  | cons {d : Db} {revision : NewSyncRevision} {revisions : List NewSyncRevision}
      {result : PushItemResult} {results : List PushItemResult} {rs rs' : List ObjectRevision}
      (h : ItemEffect now a revision d result rs)
      (hs : ItemEffects now a (d.appendAll now rs) revisions results rs') :
      ItemEffects now a d (revision :: revisions) (result :: results) (rs ++ rs')

/-- What the items of a push do. -/
theorem runs_pushItems {now : Timestamp} {a : PushArgs} {revisions : List NewSyncRevision}
    {results : List PushItemResult} (hp : Lock.project a.projectId ∈ H)
    (hb : Steady a.projectId c b)
    (h : Runs Db.Rely c (pushItems now a revisions) H b (.ok results) H' b') :
    Steady a.projectId c b' ∧
      ∃ rs, b' c = (b c).appendAll now rs ∧ ItemEffects now a (b c) revisions results rs := by
  induction revisions generalizing H b results with
  | nil =>
    obtain ⟨hresults, rfl, rfl⟩ := runs_pure_iff.mp h
    cases hresults
    exact ⟨hb, [], rfl, .nil _⟩
  | cons revision revisions ih =>
    simp only [pushItems, bind_eq, runs_bind_ok_iff, pure_eq, runs_pure_iff,
      Except.ok.injEq] at h
    obtain ⟨result, H₁, b₁, hitem, rest, H₂, b₂, hitems, rfl, rfl, rfl⟩ := h
    obtain ⟨hb₁, rs, hrs, heffect⟩ := runs_pushItem hp hb hitem
    obtain ⟨hb₂, rs', hrs', heffects⟩ := ih (hitem.subset hp) hb₁ hitems
    rw [hrs] at hrs' heffects
    exact ⟨hb₂, rs ++ rs', by rw [hrs', Db.appendAll_append], .cons heffect heffects⟩

/-- A coherent database accepts what an item appends. -/
theorem ItemEffect.accepts {now : Timestamp} {a : PushArgs} {revision : NewSyncRevision} {d : Db}
    {result : PushItemResult} {rs : List ObjectRevision}
    (h : ItemEffect now a revision d result rs) (hd : d.Coherent) : d.AcceptsAll now rs := by
  cases h with
  | skipped h => exact .nil d
  | applied payloadId hrow hbase =>
    exact .cons (accepts_itemRevision hd hrow hbase payloadId) (.nil _)

/-- A coherent database accepts what the items of a push append. -/
theorem ItemEffects.accepts {now : Timestamp} {a : PushArgs} {d : Db}
    {revisions : List NewSyncRevision} {results : List PushItemResult} {rs : List ObjectRevision}
    (h : ItemEffects now a d revisions results rs) (hd : d.Coherent) : d.AcceptsAll now rs := by
  induction h with
  | nil => exact .nil _
  | cons h hs ih => exact (h.accepts hd).append (ih ((h.accepts hd).coherent hd))

/-- The items of a push append to its project. -/
theorem ItemEffects.projectId {now : Timestamp} {a : PushArgs} {d : Db}
    {revisions : List NewSyncRevision} {results : List PushItemResult} {rs : List ObjectRevision}
    (h : ItemEffects now a d revisions results rs) : ∀ r ∈ rs, r.projectId = a.projectId := by
  induction h with
  | nil => simp
  | cons h hs ih =>
    intro r hr
    rcases List.mem_append.mp hr with hr | hr
    · cases h with
      | skipped h => cases hr
      | applied payloadId hrow hbase =>
        rw [List.mem_singleton.mp hr]
        rfl
    · exact ih r hr

/-- The database without the expired records of a push key. -/
def Db.withoutExpired (now : Timestamp) (a : PushArgs) (d : Db) : Db :=
  { d with idempotencyRecords :=
      d.idempotencyRecords.filter fun r => !(r.answers a && r.expiresAt ≤ now) }

/-- The record that a push stores. -/
def PushArgs.record (a : PushArgs) (now : Timestamp) (response : Json) (status : ℤ) :
    IdempotencyRecord where
  ownerUserId := a.userId
  deviceId := a.deviceId
  projectId := a.projectId
  requestKey := a.requestKey
  requestHash := a.requestHash
  response := response
  responseStatus := status
  expiresAt := now + idempotencyWindow

/-- The database with one more idempotency record. -/
def Db.withRecord (r : IdempotencyRecord) (d : Db) : Db :=
  { d with idempotencyRecords := d.idempotencyRecords ++ [r] }

/-- Why a push is not applied. -/
inductive PushFails (a : PushArgs) (d : Db) : PersistenceError → Prop
  | maintenance {row : ProjectRow}
      (hrow : visibleProject (.app a.userId) a.projectId d = some row)
      (hstatus : row.status ≠ .active) : PushFails a d .projectMaintenance
  | generation {row : ProjectRow}
      (hrow : visibleProject (.app a.userId) a.projectId d = some row)
      (hgeneration : a.expectedGeneration ≠ row.generation) :
      PushFails a d (.generationMismatch a.expectedGeneration row.generation)
  | bootstrap : PushFails a d .bootstrapRequired

/-- What a push without a record does to a database when it commits. -/
inductive PushEffect (host : Host) (now : Timestamp) (a : PushArgs) (d : Db) :
    Except PersistenceError PushOutcome → Db → Prop
  | failed {error : PersistenceError} {status : ℤ} {response : Json} (herror : PushFails a d error)
      (hresponse : pushFailureResponse error = some (status, response)) :
      PushEffect host now a d (.error error) (d.withRecord (a.record now response status))
  | applied {row : ProjectRow} {results : List PushItemResult} {rs : List ObjectRevision}
      {response : Json} (hrow : visibleProject (.app a.userId) a.projectId d = some row)
      (hactive : row.status = .active) (hgeneration : a.expectedGeneration = row.generation)
      (hbootstrapped : bootstrapped a row.generation d)
      (hitems : ItemEffects now a d a.revisions results rs)
      (hresponse : pushResponseJson host row.generation results = some response) :
      PushEffect host now a d (.ok ⟨response, false⟩)
        (((d.appendAll now rs).withRecord (a.record now response 200)).updateDevice
          (.app a.userId) a.deviceId fun v => { v with lastPushAt := some now })

/-- A project that cannot be pushed to. -/
theorem runs_requireActiveProjectForUpdate_error {role : DbRole} {p : Uuid}
    {e : PersistenceError}
    (h : Runs Db.Rely c (requireActiveProjectForUpdate role p) H b (.error e) H' b') :
    b = b' ∧ (e = .notFound ∨ e = .projectMaintenance ∧ ∃ d row,
      Db.Rely (insert (.project p) H) d c ∧ visibleProject role p (b d) = some row ∧
        row.status ≠ .active) := by
  change Runs Db.Rely c ((selectForUpdate (.project p) (visibleProject role p)).bind fun o =>
    (orThrow .notFound o).bind fun row =>
      (require (row.status == .active) .projectMaintenance).bind fun _ =>
        .pure (row.generation, row.changeSeq)) H b (.error e) H' b' at h
  simp only [runs_bind_iff, runs_selectForUpdate_iff, runs_orThrow_iff, runs_require_iff,
    runs_pure_iff, reduceCtorEq, false_and, and_false, or_false, exists_false, false_or] at h
  obtain ⟨o, H₁, b₁, ⟨_, -, hsel⟩, hrest⟩ := h
  rcases hrest with ⟨x, ⟨hnone, rfl, rfl⟩, he⟩ |
    ⟨row, H₂, b₂, ⟨hsome, rfl, rfl⟩, x, ⟨hx, rfl, rfl⟩, he⟩
  · -- No row: none was found, or it was gone when its lock was granted.
    cases o with
    | some row => cases hnone
    | none =>
      cases hnone
      cases he
      rcases hsel with ⟨-, -, -, rfl⟩ | ⟨-, _, -, -, -, rfl⟩ <;> exact ⟨rfl, .inl rfl⟩
  · cases o with
    | none => cases hsome
    | some row' =>
      cases hsome
      rcases hsel with ⟨-, hrow, -, -⟩ | ⟨-, d, hd, hrow, rfl, rfl⟩
      · cases hrow
      · split at hx
        · cases hx
        · rename_i hstatus
          cases hx
          cases he
          simp only [Except.ok.injEq] at hrow
          exact ⟨rfl, .inr ⟨rfl, d, row, hd, hrow.symm, by simpa using hstatus⟩⟩

/-- A mapped conflict is an error. -/
theorem runs_mapConflict_ok_iff {R : Set Lock → Db → Db → Prop} {α : Type} {x : Tx α} {v : α} :
    Runs R c (mapConflict x) H b (.ok v) H' b' ↔ Runs R c x H b (.ok v) H' b' := by
  simp only [mapConflict, bind_eq, runs_bind_ok_iff, runs_attempt_iff, Except.ok.injEq]
  constructor
  · rintro ⟨r₀, _, _, ⟨_, hx, rfl⟩, hmap⟩
    cases r₀ with
    | error e => cases hmap
    | ok w =>
      obtain ⟨hw, rfl, rfl⟩ := runs_pure_iff.mp hmap
      cases hw
      exact hx
  · exact fun hx => ⟨.ok v, _, _, ⟨.ok v, hx, rfl⟩, .pure v _ _⟩

/-- Storing the failure of a push. -/
theorem runs_storePushFailure {now : Timestamp} {a : PushArgs} {error : PersistenceError}
    {stored : Bool} (h : Runs Db.Rely c (storePushFailure now a error) H b (.ok stored) H' b') :
    (stored = false ∧ pushFailureResponse error = none) ∨ (stored = true ∧ ∃ status response,
      pushFailureResponse error = some (status, response) ∧
        b' = Db.withRecord (a.record now response status) ∘ b) := by
  unfold storePushFailure at h
  split at h
  · rename_i hresponse
    obtain ⟨hstored, -, -⟩ := runs_pure_iff.mp h
    cases hstored
    exact .inl ⟨rfl, hresponse⟩
  · rename_i status response hresponse
    simp only [bind_eq, runs_bind_ok_iff, runs_mapConflict_ok_iff, pure_eq, runs_pure_iff,
      Except.ok.injEq] at h
    obtain ⟨_, _, _, hinsert, rfl, -, rfl⟩ := h
    obtain ⟨-, rfl, -⟩ := runs_insertRow hinsert
    exact .inr ⟨rfl, status, response, hresponse, rfl⟩

/-- What a failure does that a push stores. -/
theorem runs_failPush {now : Timestamp} {a : PushArgs} {error : PersistenceError}
    {r : Except PersistenceError PushOutcome} {host : Host} (herror : PushFails a (b c) error)
    (hstored : (pushFailureResponse error).isSome)
    (h : Runs Db.Rely c (failPush now a error) H b (.ok r) H' b') :
    PushEffect host now a (b c) r (b' c) := by
  simp only [failPush, discard_eq, bind_eq, runs_bind_ok_iff, pure_eq, runs_pure_iff,
    Except.ok.injEq] at h
  obtain ⟨_, _, _, ⟨stored, _, _, hstore, -, rfl, rfl⟩, rfl, -, rfl⟩ := h
  rcases runs_storePushFailure hstore with ⟨-, hnone⟩ | ⟨-, status, response, hresponse, rfl⟩
  · rw [hnone] at hstored
    cases hstored
  · exact .failed herror hresponse

/-- What the part of a push does that its checks let through. -/
theorem runs_applyPush {host : Host} {now : Timestamp} {a : PushArgs} {generation : ℤ}
    {r : Except PersistenceError PushOutcome} (hp : Lock.project a.projectId ∈ H)
    (hb : Steady a.projectId c b)
    (h : Runs Db.Rely c (applyPush host now a generation) H b (.ok r) H' b') :
    ∃ results rs response, ItemEffects now a (b c) a.revisions results rs ∧
      pushResponseJson host generation results = some response ∧ r = .ok ⟨response, false⟩ ∧
      b' c = (((b c).appendAll now rs).withRecord (a.record now response 200)).updateDevice
        (.app a.userId) a.deviceId fun v => { v with lastPushAt := some now } := by
  simp only [applyPush, bind_eq, runs_bind_ok_iff, runs_orThrow_iff, runs_modify_iff, pure_eq,
    runs_pure_iff, Except.ok.injEq] at h
  obtain ⟨results, H₁, b₁, hitems, response, _, _, ⟨hsome, rfl, rfl⟩, _, H₂, b₂, hinsert, _, _, _,
    ⟨-, rfl, rfl⟩, rfl, -, rfl⟩ := h
  obtain ⟨-, rs, hrs, heffects⟩ := runs_pushItems hp hb hitems
  obtain ⟨-, rfl, -⟩ := runs_insertRow hinsert
  have hresponse : pushResponseJson host generation results = some response := by
    cases hj : pushResponseJson host generation results with
    | none => rw [hj] at hsome; cases hsome
    | some j => rw [hj] at hsome; cases hsome; rfl
  refine ⟨results, rs, response, heffects, hresponse, rfl, ?_⟩
  rw [← hrs]
  rfl

/-- What a push without a record does when it commits. -/
theorem runs_executePush {host : Host} {now : Timestamp} {a : PushArgs}
    {r : Except PersistenceError PushOutcome}
    (hb : ∀ d, (b d).data a.projectId = d.data a.projectId)
    (hc : ∀ d g, bootstrapped a g (b d) = bootstrapped a g d)
    (h : Runs Db.Rely c (executePush host now a) H b (.ok r) H' b') :
    PushEffect host now a (b c) r (b' c) := by
  have hsteady : Steady a.projectId c b := fun d hd => by rw [hb, hb, hd]
  simp only [executePush, bind_eq, runs_bind_ok_iff, runs_attempt_iff, Except.ok.injEq] at h
  obtain ⟨st, H₁, b₁, ⟨_, hst, rfl⟩, h⟩ := h
  rcases st with error | ⟨generation, sequence⟩
  · obtain ⟨rfl, herror⟩ := runs_requireActiveProjectForUpdate_error hst
    obtain ⟨stored, H₂, b₂, hstore, h⟩ := runs_bind_ok_iff.mp h
    rcases runs_storePushFailure hstore with ⟨rfl, -⟩ | ⟨rfl, status, response, hresponse, rfl⟩
    · cases h
    · obtain ⟨hr, -, rfl⟩ := runs_pure_iff.mp h
      cases hr
      rcases herror with rfl | ⟨rfl, d, row, hd, hrow, hstatus⟩
      · cases hresponse
      · refine .failed (.maintenance ?_ hstatus) hresponse
        rwa [visibleProject, hsteady.data_eq (Set.mem_insert _ _) hd] at hrow
  · obtain ⟨rfl, rfl, d, row, hd, hrow, hactive, hpair⟩ := runs_requireActiveProjectForUpdate hst
    cases hpair
    have hlock := Set.mem_insert (Lock.project a.projectId) H
    rw [visibleProject, hsteady.data_eq hlock hd] at hrow
    dsimp only at h
    split at h
    · rename_i hgeneration
      exact runs_failPush (.generation hrow hgeneration) rfl h
    · rename_i hgeneration
      rw [not_ne_iff] at hgeneration
      simp only [query_bind, runs_read_iff] at h
      obtain ⟨d', hd', h⟩ := h
      split at h
      · exact runs_failPush .bootstrap rfl h
      · rename_i hboot
        have hbootstrapped : bootstrapped a row.generation (b₁ c) := by
          rw [hc]
          refine hd'.completions _ _ ?_
          rw [← hc d']
          simpa using hboot
        obtain ⟨results, rs, response, hitems, hresponse, rfl, heq⟩ :=
          runs_applyPush hlock hsteady h
        rw [heq]
        exact .applied hrow hactive hgeneration hbootstrapped hitems hresponse

/-- The records of a push after the expired ones are removed. -/
theorem recordsFor_withoutExpired (d : Db) (now : Timestamp) (a : PushArgs) :
    (d.withoutExpired now a).recordsFor a = (d.recordsFor a).filter (now < ·.expiresAt) := by
  unfold Db.recordsFor Db.withoutExpired
  rw [List.filter_filter, List.filter_filter]
  refine List.filter_congr fun r _ => ?_
  rw [Bool.eq_iff_iff]
  simp only [Bool.and_eq_true, Bool.not_eq_true', Bool.and_eq_false_iff, decide_eq_true_eq,
    decide_eq_false_iff_not, not_le]
  constructor
  · rintro ⟨hr, hr' | hr'⟩
    · rw [hr] at hr'
      cases hr'
    · exact ⟨hr', hr⟩
  · exact fun ⟨hlt, hr⟩ => ⟨hr, .inr hlt⟩

/-- The records of a push are those of its key in its project. -/
theorem recordsFor_eq_filter (d : Db) (a : PushArgs) :
    d.recordsFor a =
      (d.recordsOf a.userId a.deviceId a.requestKey).filter (·.projectId == a.projectId) := by
  unfold Db.recordsFor Db.recordsOf
  rw [List.filter_filter]
  refine List.filter_congr fun r _ => ?_
  unfold IdempotencyRecord.answers
  ac_rfl

/-- The records of the key of a push that are left at the commit were there when they were read. -/
theorem Db.Rely.recordsFor {d : Db} {a : PushArgs} (h : Db.Rely H d c)
    (hk : Lock.push a.userId a.deviceId a.requestKey ∈ H) :
    (c.recordsFor a).Sublist (d.recordsFor a) := by
  rw [recordsFor_eq_filter, recordsFor_eq_filter]
  exact (h.records _ _ _ hk).filter _

/-- A push first deletes the expired records of its key, and then reads what is left. -/
theorem runs_pushWithOutcome {host : Host} {now : Timestamp} {a : PushArgs}
    {r : Except PersistenceError (Except PersistenceError PushOutcome)}
    (h : Runs Db.Rely c (pushWithOutcome host now a) ∅ id r H' b') :
    ∃ d, Db.Rely {.push a.userId a.deviceId a.requestKey} d c ∧
      Runs Db.Rely c
        (match ((d.withoutExpired now a).recordsFor a).head? with
          | some r => replayPush host a r
          | none => executePush host now a)
        {.push a.userId a.deviceId a.requestKey} (Db.withoutExpired now a) r H' b' := by
  simp only [pushWithOutcome, deleteExpiredRecords, bind_eq, acquire_bind, runs_lock_iff,
    modify_bind, runs_write_iff, query_bind, runs_read_iff, insert_empty_eq] at h
  exact h

/-- What a push does when it commits: its answer is a stored one, or it is executed. -/
theorem runs_pushWithOutcome_ok {host : Host} {now : Timestamp} {a : PushArgs}
    {r : Except PersistenceError PushOutcome}
    (h : Runs Db.Rely c (pushWithOutcome host now a) ∅ id (.ok r) H' b') :
    b' c = c.withoutExpired now a ∨ ((c.withoutExpired now a).recordsFor a = [] ∧
      PushEffect host now a (c.withoutExpired now a) r (b' c)) := by
  obtain ⟨d, hd, h⟩ := runs_pushWithOutcome h
  split at h
  · left
    unfold replayPush at h
    split at h
    · split at h <;>
      · obtain ⟨-, -, rfl⟩ := runs_pure_iff.mp h
        rfl
    · cases h
  · rename_i hnone
    have hempty := List.head?_eq_none_iff.mp hnone
    refine .inr ⟨?_, runs_executePush (fun _ => rfl) (fun _ _ => rfl) h⟩
    rw [recordsFor_withoutExpired] at hempty ⊢
    exact List.eq_nil_of_sublist_nil (hempty ▸ (hd.recordsFor rfl).filter _)

/-! ## Bootstrap -/

/-- The bootstrap that the last page of a manifest completes. -/
def BootstrapPageArgs.completion (a : BootstrapPageArgs) (now : Timestamp) (page : BootstrapPage) :
    BootstrapCompletion where
  projectId := a.projectId
  ownerUserId := a.userId
  deviceId := a.deviceId
  generation := page.generation
  changeSequence := page.snapshotSequence
  completedAt := now

/-- The database with a completed bootstrap. -/
def Db.withCompletion (x : BootstrapCompletion) (d : Db) : Db :=
  let same (y : BootstrapCompletion) : Bool :=
    y.projectId == x.projectId && y.deviceId == x.deviceId && y.generation == x.generation
  let renew (y : BootstrapCompletion) : BootstrapCompletion :=
    { y with changeSequence := x.changeSequence, completedAt := x.completedAt }
  { d with bootstrapCompletions := upsert same x renew d.bootstrapCompletions }

/-- What a page of a bootstrap manifest does when it is returned. -/
theorem runs_bootstrapManifestPage {now : Timestamp} {a : BootstrapPageArgs}
    {r : Except PersistenceError BootstrapPage}
    (h : Runs Db.Rely c (bootstrapManifestPage now a) ∅ id (.ok r) H' b') :
    ∃ page, r = .ok page ∧ (page.hasMore = true ∧ b' c = c ∨
      page.hasMore = false ∧ b' c = c.withCompletion (a.completion now page)) := by
  obtain ⟨⟨generation, sequence⟩, H₁, b₁, hproject, h⟩ := runs_bind_ok_iff.mp h
  obtain ⟨rfl, rfl, -⟩ := runs_requireActiveProject hproject
  simp only [bind_eq, query_bind, runs_read_iff, runs_bind_ok_iff, runs_orThrow_iff,
    runs_require_iff] at h
  obtain ⟨d, -, manifest, _, _, ⟨-, rfl, rfl⟩, _, _, _, ⟨-, rfl, rfl⟩, _, _, _, ⟨-, rfl, rfl⟩,
    h⟩ := h
  rcases hpage : manifestPage manifest.items a.offset a.limit with ⟨records, hasMore⟩
  rw [hpage] at h
  cases hasMore with
  | true =>
    obtain ⟨hr, -, rfl⟩ := runs_pure_iff.mp h
    cases hr
    exact ⟨_, rfl, .inl ⟨rfl, rfl⟩⟩
  | false =>
    obtain ⟨_, _, _, hinsert, hend⟩ := runs_bind_ok_iff.mp h
    obtain ⟨-, rfl, -⟩ := runs_insertRow hinsert
    obtain ⟨hr, -, rfl⟩ := runs_pure_iff.mp hend
    cases hr
    exact ⟨_, rfl, .inr ⟨rfl, rfl⟩⟩

/-! ## Restore -/

/-- Whether a restore appends a revision for an item. -/
def needsRestore (current : List ManifestRow) (item : ManifestItem) : Bool :=
  !(existingRow current item).any (sameManifestState · item)

/-- The revision that restores an item. -/
def IsRestored (now : Timestamp) (p ownerUserId : Uuid) (current : List ManifestRow)
    (item : ManifestItem) (r : ObjectRevision) : Prop :=
  ∃ payloadId, r = restoredRevision now p ownerUserId item (actualRevision current item) payloadId

/-- Looking for the payload of an item changes nothing. -/
theorem runs_restorePayload {p : Uuid} {item : ManifestItem} {payload : Option Uuid}
    (h : Runs Db.Rely c (restorePayload p item) H b (.ok payload) H' b') : H = H' ∧ b = b' := by
  unfold restorePayload at h
  split at h
  · obtain ⟨-, rfl, rfl⟩ := runs_pure_iff.mp h
    exact ⟨rfl, rfl⟩
  · simp only [bind_eq, runs_bind_ok_iff, runs_orThrow_iff, runs_query_iff, pure_eq,
      runs_pure_iff] at h
    obtain ⟨_, _, _, ⟨-, rfl, rfl⟩, _, _, _, ⟨_, -, -, rfl, rfl⟩, _, _, _, ⟨-, rfl, rfl⟩, -, rfl,
      rfl⟩ := h
    exact ⟨rfl, rfl⟩

/-- What restoring the items of a target does. -/
theorem runs_restoreItems {now : Timestamp} {p : Uuid} {row : ProjectRow}
    {current : List ManifestRow} {items : List ManifestItem} {counts counts' : RestoredCounts}
    (hp : Lock.project p ∈ H) (hb : Steady p c b) (hcoherent : (b c).Coherent)
    (hproject : ∃ row', (b c).project p = some row' ∧ row'.ownerUserId = row.ownerUserId)
    (hknows : (b c).Knows p current)
    (h : Runs Db.Rely c (restoreItems now p row.ownerUserId current items counts) H b
      (.ok counts') H' b') :
    ∃ rs, b' c = (b c).appendAll now rs ∧ (b c).AcceptsAll now rs ∧
      List.Forall₂ (IsRestored now p row.ownerUserId current)
        (items.filter (needsRestore current)) rs ∧
      counts' = (items.filter (needsRestore current)).foldl (fun n item => n.add item.tombstone)
        counts := by
  -- By induction on the items. Each one that differs appends a revision to the writes so far.
  induction items generalizing H b counts with
  | nil =>
    obtain ⟨hcounts, rfl, rfl⟩ := runs_pure_iff.mp h
    cases hcounts
    exact ⟨[], rfl, .nil _, .nil, rfl⟩
  | cons item items ih =>
    unfold restoreItems at h
    dsimp only at h
    split at h
    · rename_i hsame
      have hskip : needsRestore current item = false := by simp [needsRestore, hsame]
      rw [List.filter_cons, hskip]
      exact ih hp hb hcoherent hproject hknows h
    · rename_i hdiffers
      have hneeds : needsRestore current item = true := by simp [needsRestore, hdiffers]
      simp only [discard_eq, bind_eq, runs_bind_ok_iff, runs_pure_iff] at h
      obtain ⟨payloadId, H₁, b₁, hpayload, _, H₂, b₂, ⟨sequence, _, _, happend, -, rfl, rfl⟩,
        hitems⟩ := h
      obtain ⟨rfl, rfl⟩ := runs_restorePayload hpayload
      obtain ⟨row', hrow', howner⟩ := hproject
      obtain ⟨row'', hvisible, hfresh, rfl, rfl⟩ := runs_appendRevision hp hb happend
      have hrow'' : row'' = row' := by
        have hsome := (visibleProject_eq_some_iff.mp hvisible).1
        exact Option.some.inj (hsome.symm.trans hrow')
      subst hrow''
      have haccepts : (b c).Accepts (restoredRevision now p row.ownerUserId item
          (actualRevision current item) payloadId) := by
        rw [← howner] at hfresh ⊢
        exact accepts_restoredRevision hcoherent hrow' hknows hfresh
      have hnext := @append_eq_appendNext .worker (b c) now _ row'' hvisible
      generalize hr : restoredRevision now p row.ownerUserId item (actualRevision current item)
        payloadId = r at haccepts
      have hrp : r.projectId = p := by rw [← hr]; rfl
      have hstep : (Db.append now (row''.changeSeq + 1) r ∘ b) c = (b c).appendNext now r := by
        rw [← hr]
        exact hnext
      have hproject' : ((b c).appendNext now r).project p =
          ((b c).project p).map (·.advance now) := Db.project_appendNext hrp
      have happended : ((b c).appendAll now [r]).revisionsOf p = (b c).revisionsOf p ++ [r] :=
        Db.revisionsOf_appendAll (by simpa using hrp)
      have hrevisions : ((b c).appendNext now r).revisionsOf p = (b c).revisionsOf p ++ [r] :=
        happended
      -- The other items run on the writes with this revision.
      obtain ⟨rs, hrs, hall, hitems', hcounts⟩ :=
        ih (b := Db.append now (row''.changeSeq + 1) r ∘ b)
        (happend.subset hp) (steady_append hb hrp)
          (by rw [hstep]; exact haccepts.coherent hcoherent)
        ⟨row''.advance now, by rw [hstep, hproject', hrow', Option.map_some], howner⟩
        (by rw [hstep]; exact hknows.mono (hrevisions ▸ List.prefix_append _ _))
        (by rw [← hr]; exact hitems)
      rw [hstep] at hrs hall
      rw [List.filter_cons, hneeds]
      exact ⟨r :: rs, hrs, .cons haccepts hall, .cons ⟨payloadId, hr.symm⟩ hitems', hcounts⟩

/-- The rows that a restore reads as the current ones are known. -/
theorem knows_headRows {d : Db} (hd : d.Coherent) {p : Uuid} {row : ProjectRow}
    (hproject : d.project p = some row) (order : ScanOrder) :
    d.Knows p (headRows .worker order p d) := by
  have hx := hd.data hproject
  intro v hv
  rw [headRows, (order.perm _).mem_iff, hx.visible_eq rfl, hx.mem_headRecords,
    mem_current_iff] at hv
  have hrev := hx.isHistory.numbered.rev_latest hv
  have hone := hx.isHistory.numbered.one_le (mem_of_latest hv)
  exact ⟨hone, hrev.le⟩

/-- The target of a restore, on the database on which it commits; the manifest of a snapshot may
have been read from another one. -/
inductive IsRestoreTarget (seen : Db → Prop) (order : ScanOrder) (job : RestoreJob) (c : Db) :
    List ManifestItem → Prop
  | snapshot {snapshotId : Uuid} {manifest : Json} {target : List ManifestItem} {d : Db}
      (hjob : job.snapshotId = some snapshotId) (hd : seen d)
      (hmanifest : readyManifest snapshotId job.projectId d = some manifest)
      (htarget : manifestItems manifest = .ok target) : IsRestoreTarget seen order job c target
  | sequence {t : ℤ} (hjob : job.snapshotId = none) (ht : job.targetChangeSequence = some t) :
      IsRestoreTarget seen order job c
        ((rankedRows .worker order job.projectId t c).map manifestItemFromRow)

/-- The database after the end of a restore. -/
def Db.finished (now : Timestamp) (job : RestoreJob) (generation : ℤ) (counts : RestoredCounts)
    (d : Db) : Db :=
  let d := d.updateProject job.projectId fun p =>
    { p with generation := generation + 1, status := .active, updatedAt := now }
  let d := d.updateRestoreJob job.id fun j =>
    { j with status := .succeeded, generationAfter := some (generation + 1),
             restoredObjects := counts.objects, restoredTombstones := counts.tombstones,
             leaseToken := none, leaseExpiresAt := none, finishedAt := some now }
  { d with auditEvents := d.auditEvents ++
      [{ actorUserId := some job.requestedBy, subjectUserId := some job.requestedBy,
         projectId := some job.projectId, action := "restore.completed",
         metadata := .obj [("restoreId", job.id.toJson), ("generation", .num (generation + 1)),
           ("objects", .num counts.objects), ("tombstones", .num counts.tombstones)],
         requestId := none }] }

/-- What a restore does to the database on which it commits. -/
inductive RestoreEffect (R : Set Lock → Db → Db → Prop) (now : Timestamp)
    (targetOrder currentOrder : ScanOrder) (jobId leaseToken : Uuid) (c : Db) : Db → Prop
  | intro {job : RestoreJob} {row : ProjectRow} {target : List ManifestItem}
      {rs : List ObjectRevision}
      (hjob : leasedJob jobId leaseToken c = some job) (hrequested : job.cancelRequested = false)
      (hproject : c.project job.projectId = some row) (hstatus : row.status = .maintenance)
      (htarget : IsRestoreTarget (fun d => ∃ H, R H d c) targetOrder job c target)
      (hall : c.AcceptsAll now rs)
      (hitems : List.Forall₂ (IsRestored now job.projectId row.ownerUserId
          (headRows .worker currentOrder job.projectId c))
        ((withDeletions target (headRows .worker currentOrder job.projectId c)).filter
          (needsRestore (headRows .worker currentOrder job.projectId c))) rs) :
      RestoreEffect R now targetOrder currentOrder jobId leaseToken c
        ((c.appendAll now rs).finished now job row.generation
          (((withDeletions target (headRows .worker currentOrder job.projectId c)).filter
            (needsRestore (headRows .worker currentOrder job.projectId c))).foldl
              (fun n item => n.add item.tombstone) ⟨0, 0⟩))

/-- The end of a restore. -/
theorem runs_finishRestore {now : Timestamp} {job : RestoreJob} {generation : ℤ}
    {counts : RestoredCounts}
    (h : Runs Db.Rely c (finishRestore now job generation counts) H b (.ok ()) H' b') :
    b' = Db.finished now job generation counts ∘ b := by
  simp only [finishRestore, bind_eq, modify_bind, runs_write_iff] at h
  obtain ⟨-, rfl, -⟩ := runs_insertRow h
  rfl

/-- Finding the target of a restore. -/
theorem runs_restoreTarget {R : Set Lock → Db → Db → Prop} (hR : ∀ H d, R H d c → Db.Rely H d c)
    {order : ScanOrder} {job : RestoreJob} {target : List ManifestItem}
    (hp : Lock.project job.projectId ∈ H)
    (h : Runs R c (restoreTarget order job) H id (.ok target) H' b') :
    H = H' ∧ id = b' ∧ IsRestoreTarget (fun d => ∃ H, R H d c) order job c target := by
  unfold restoreTarget at h
  cases hs : job.snapshotId with
  | some snapshotId =>
    rw [hs] at h
    simp only [bind_eq, query_bind, runs_read_iff, runs_bind_ok_iff, runs_orThrow_iff] at h
    obtain ⟨d, hd, manifest, _, _, ⟨hm, rfl, rfl⟩, h⟩ := h
    cases hready : readyManifest snapshotId job.projectId (id d) with
    | none => rw [hready] at hm; cases hm
    | some m =>
      rw [hready] at hm
      cases hm
      cases hitems : manifestItems manifest with
      | error e => rw [hitems] at h; cases h
      | ok items =>
        rw [hitems] at h
        obtain ⟨htarget, rfl, rfl⟩ := runs_pure_iff.mp h
        cases htarget
        exact ⟨rfl, rfl, .snapshot hs ⟨_, hd⟩ hready hitems⟩
  | none =>
    rw [hs] at h
    cases ht : job.targetChangeSequence with
    | none => rw [ht] at h; cases h
    | some t =>
      rw [ht] at h
      simp only [bind_eq, query_bind, runs_read_iff, pure_eq, runs_pure_iff, Except.ok.injEq] at h
      obtain ⟨d, hd, rfl, rfl, rfl⟩ := h
      have hrows : rankedRows .worker order job.projectId t (id d) =
          rankedRows .worker order job.projectId t c := by
        unfold rankedRows
        rw [id, (hR _ _ hd).data _ hp]
      rw [hrows]
      exact ⟨rfl, rfl, .sequence hs ht⟩

/-- What a restore does when it succeeds. -/
theorem runs_executeRestoreWithLease {R : Set Lock → Db → Db → Prop}
    (hR : ∀ H d, R H d c → Db.Rely H d c) {now : Timestamp}
    {targetOrder currentOrder : ScanOrder} {jobId leaseToken : Uuid}
    {r : Except PersistenceError Unit} (hc : c.Coherent)
    (h : Runs R c (executeRestoreWithLease now targetOrder currentOrder jobId leaseToken) ∅ id
      (.ok r) H' b') :
    r = .ok () ∧ RestoreEffect R now targetOrder currentOrder jobId leaseToken c (b' c) := by
  obtain ⟨d, job, hd, hjob, hrun⟩ := runs_lockRow h
  rw [id, leasedJob, (hR _ _ hd).job _ (Set.mem_insert _ _)] at hjob
  obtain ⟨_, _, _, hrequire, hrun⟩ := runs_bind_ok_iff.mp hrun
  obtain ⟨hrequested, rfl, rfl⟩ := runs_require_iff.mp hrequire
  obtain ⟨d, row, hd, hrow, hrun⟩ := runs_lockRow hrun
  have hlock := Set.mem_insert (Lock.project job.projectId) (insert (Lock.restoreJob jobId) ∅)
  rw [id, maintainedProject, visibleProject, (hR _ _ hd).data _ hlock] at hrow
  obtain ⟨hvisible, hstatus⟩ := Option.filter_eq_some_iff.mp hrow
  obtain ⟨hproject, -⟩ := visibleProject_eq_some_iff.mp hvisible
  obtain ⟨target, H₁, b₁, hfind, hrun⟩ := runs_bind_ok_iff.mp hrun
  obtain ⟨rfl, rfl, htarget⟩ := runs_restoreTarget hR hlock hfind
  simp only [query_bind, bind_eq, runs_read_iff, runs_bind_ok_iff, pure_eq, runs_pure_iff,
    Except.ok.injEq] at hrun
  obtain ⟨d, hd, counts, H₂, b₂, hitems, _, H₃, b₃, hfinish, rfl, -, rfl⟩ := hrun
  have hcurrent : headRows .worker currentOrder job.projectId (id d) =
      headRows .worker currentOrder job.projectId c := by
    unfold headRows
    rw [id, (hR _ _ hd).data _ hlock]
  rw [hcurrent] at hitems
  obtain ⟨rs, hrs, hall, hforall, hcounts⟩ := runs_restoreItems hlock (fun d hd => hd) hc
    ⟨row, hproject, rfl⟩ (knows_headRows hc hproject currentOrder)
    (hitems.mono fun H d hd => hR H d hd)
  rw [runs_finishRestore (hfinish.mono fun H d hd => hR H d hd), Function.comp_apply, hrs, hcounts]
  exact ⟨rfl, .intro hjob (by simpa using hrequested) hproject (by simpa using hstatus) htarget hall
    hforall⟩

end

end TaskTipsCloud

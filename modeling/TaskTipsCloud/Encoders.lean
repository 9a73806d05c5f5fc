import TaskTipsCloud.PushTotal

/-!
# How instants are written again

The instant of a push item is stored as a database time and read back in UTC, and every answer that
holds the record writes it again: the manifest of a bootstrap and its pages, a pull, a history, and
the stored answer of the push (`sync_record_json` and `rfc3339` of `crates/api/src/routes.rs`). An
instant that the route accepts is written again exactly when its date in UTC has a year from 0 to
9999.
-/

namespace TaskTipsCloud

open Txn

/-! ## Answers -/

/-- The text of an instant in an answer: empty when it has none. -/
def rfc3339Text (host : Host) (t : OffsetDateTime) : String := (host.rfc3339 t).getD ""

/-- A record in an answer. -/
def syncRecordJson (host : Host) (record : SyncRecord) : Json :=
  if record.tombstone then
    .obj [("type", .str "tombstone"),
      ("kind", .str record.kind.asStr),
      ("id", .str record.id),
      ("revision", .num record.revision),
      ("baseRevision", .ofOption .num record.baseRevision),
      ("deletedAt", .str (rfc3339Text host record.changedAt)),
      ("deviceId", record.deviceId.toJson),
      ("changeSequence", .num record.changeSequence)]
  else
    .obj [("type", .str "object"),
      ("kind", .str record.kind.asStr),
      ("id", .str record.id),
      ("schemaVersion", .ofOption .num record.schemaVersion),
      ("revision", .num record.revision),
      ("baseRevision", .ofOption .num record.baseRevision),
      ("contentHash", .ofOption .str record.contentHash),
      ("updatedAt", .str (rfc3339Text host record.changedAt)),
      ("deviceId", record.deviceId.toJson),
      ("changeSequence", .num record.changeSequence)]

/-- The member of an answer that holds the instant of a record. -/
def SyncRecord.instantKey (record : SyncRecord) : String :=
  if record.tombstone then "deletedAt" else "updatedAt"

/-- A record in the manifest of a bootstrap, unless its instant cannot be written. -/
def SyncRecord.toJson (host : Host) (record : SyncRecord) : Option Json := do
  let changedAt ← host.rfc3339 record.changedAt
  return .obj [("kind", .str record.kind.asStr),
    ("id", .str record.id),
    ("schemaVersion", .ofOption .num record.schemaVersion),
    ("revision", .num record.revision),
    ("baseRevision", .ofOption .num record.baseRevision),
    ("contentHash", .ofOption .str record.contentHash),
    ("changedAt", .str changedAt),
    ("deviceId", record.deviceId.toJson),
    ("tombstone", .bool record.tombstone),
    ("changeSequence", .num record.changeSequence)]

/-- The records of a project after a sequence, of a kind and of an object when these are given. -/
def historyRecords (role : DbRole) (projectId : Uuid) (kind : Option ObjectKind)
    (objectId : Option String) (afterSequence : ℤ) (d : Db) : List SyncRecord :=
  (recordsAfter role projectId afterSequence d).filter fun record =>
    kind.all fun kind => record.kind == kind && objectId.all (record.id == ·)

/-- Lists the revisions of a project that is visible. -/
def listHistory (userId projectId : Uuid) (kind : Option ObjectKind) (objectId : Option String)
    (afterSequence limit : ℤ) : Tx (Except PersistenceError (List SyncRecord × Bool)) := do
  ensureProjectVisible (.app userId) projectId
  let rows ← query (historyRecords (.app userId) projectId kind objectId afterSequence)
  return .ok (lookAhead rows limit)

/-! ## Texts of instants -/

/-- The start of the year 0 in microseconds since the Unix epoch. -/
def yearZero : ℤ := -62167219200 * 10 ^ 6

/-- An instant that RFC 3339 can write: its year is from 0 to 9999, and its offset is a number of
minutes, less than a day. -/
def OffsetDateTime.IsWritable (t : OffsetDateTime) : Prop :=
  yearZero * 1000 ≤ t.unixNanos + t.offsetSeconds * 10 ^ 9 ∧
    t.unixNanos + t.offsetSeconds * 10 ^ 9 < maxUtcNanos ∧
    t.offsetSeconds % 60 = 0 ∧ -86400 < t.offsetSeconds ∧ t.offsetSeconds < 86400

/-- What the texts of instants are: those of RFC 3339, which are read back as they were written. -/
structure Rfc3339 (host : Host) where
  /-- The instant of a text. -/
  parse : String → Option OffsetDateTime
  isSome_iff : ∀ t, (host.rfc3339 t).isSome ↔ t.IsWritable
  parse_rfc3339 : ∀ t text, host.rfc3339 t = some text → text ≠ "" ∧ parse text = some t

/-- A database time whose year is from 0 to 9999. -/
def InYears (t : ℤ) : Prop := yearZero ≤ t ∧ t * 1000 < maxUtcNanos

/-- An instant whose date in UTC has a year from 0 to 9999, once it is cut to microseconds. -/
def OffsetDateTime.Reencodes (t : OffsetDateTime) : Prop :=
  yearZero ≤ t.toTimestamp ∧ t.unixNanos < maxUtcNanos

/-- A text that is that of an instant, to the microsecond. -/
def Rfc3339.Denotes {host : Host} (rfc : Rfc3339 host) (text : String) (t : OffsetDateTime) :
    Prop :=
  text ≠ "" ∧ ∃ t', rfc.parse text = some t' ∧ t'.toTimestamp = t.toTimestamp

/-- The instant of a record in a manifest, as it is read back from the manifest. -/
def Rfc3339.readBack {host : Host} (rfc : Rfc3339 host) (record : SyncRecord) :
    Option SyncRecord := do
  let j ← record.toJson host
  let text ← (j.get? "changedAt").bind (·.str?)
  let changedAt ← rfc.parse text
  return { record with changedAt }

/-- Every answer that holds a record writes the instant `t`. -/
structure Rfc3339.Writes {host : Host} (rfc : Rfc3339 host) (record : SyncRecord)
    (t : OffsetDateTime) : Prop where
  /-- The manifest of a bootstrap. -/
  manifest : ∃ j text, record.toJson host = some j ∧ j.get? "changedAt" = some (.str text) ∧
    rfc.Denotes text t
  /-- A page of the bootstrap, whose records are read back from the manifest. -/
  page : ∃ record', rfc.readBack record = some record' ∧ ∃ text,
    (syncRecordJson host record').get? record'.instantKey = some (.str text) ∧ rfc.Denotes text t
  /-- A pull, and a history. -/
  answer : ∃ text, (syncRecordJson host record).get? record.instantKey = some (.str text) ∧
    rfc.Denotes text t

section

variable {host : Host} {rfc : Rfc3339 host} {t : OffsetDateTime} {record : SyncRecord}

/-- An instant of the database is read back. -/
theorem OffsetDateTime.toTimestamp_ofTimestamp (τ : Timestamp) :
    (OffsetDateTime.ofTimestamp τ).toTimestamp = τ := by
  unfold OffsetDateTime.toTimestamp OffsetDateTime.ofTimestamp
  have h : τ * 1000 - databaseEpoch * 1000 = (τ - databaseEpoch) * 1000 := by ring
  rw [h, Int.mul_tdiv_cancel _ (by decide)]
  ring

/-- A database time is written exactly when its year is from 0 to 9999. -/
theorem isWritable_ofTimestamp_iff {τ : ℤ} :
    (OffsetDateTime.ofTimestamp τ).IsWritable ↔ InYears τ := by
  unfold OffsetDateTime.IsWritable OffsetDateTime.ofTimestamp InYears yearZero maxUtcNanos
  dsimp only
  omega

/-- A record of a response has its instant under the name for it. -/
theorem syncRecordJson_get? (record : SyncRecord) :
    (syncRecordJson host record).get? record.instantKey =
      some (.str (rfc3339Text host record.changedAt)) := by
  unfold syncRecordJson SyncRecord.instantKey
  cases record.tombstone <;> simp

/-- A record has its instant as RFC 3339 text, if there is one. -/
theorem syncRecord_toJson_get? {j : Json} (h : record.toJson host = some j) :
    ∃ text, host.rfc3339 record.changedAt = some text ∧ j.get? "changedAt" = some (.str text) := by
  simp only [SyncRecord.toJson, Option.pure_def, Option.bind_eq_bind,
    Option.bind_eq_some_iff] at h
  obtain ⟨text, htext, h⟩ := h
  cases h
  exact ⟨text, htext, by simp⟩

/-- A record that was read from the database is written in every answer exactly when its year is
from 0 to 9999. -/
theorem writes_iff {τ : Timestamp} (hchanged : record.changedAt = .ofTimestamp τ)
    (ht : t.toTimestamp = τ) : rfc.Writes record t ↔ InYears τ := by
  rw [← isWritable_ofTimestamp_iff, ← rfc.isSome_iff, ← hchanged]
  constructor
  · rintro ⟨⟨j, text, hj, -⟩, -, -⟩
    obtain ⟨text, htext, -⟩ := syncRecord_toJson_get? hj
    rw [htext]
    rfl
  · intro hsome
    obtain ⟨text, htext⟩ := Option.isSome_iff_exists.mp hsome
    obtain ⟨hne, hparse⟩ := rfc.parse_rfc3339 _ _ htext
    have hdenotes : rfc.Denotes text t := by
      refine ⟨hne, _, hparse, ?_⟩
      rw [hchanged, OffsetDateTime.toTimestamp_ofTimestamp, ht]
    have htext' : rfc3339Text host record.changedAt = text := by
      rw [rfc3339Text, htext]
      rfl
    obtain ⟨j, hj⟩ : ∃ j, record.toJson host = some j := by
      unfold SyncRecord.toJson
      rw [htext]
      exact ⟨_, rfl⟩
    obtain ⟨text', htext'', hget⟩ := syncRecord_toJson_get? hj
    rw [htext] at htext''
    cases htext''
    have hback : rfc.readBack record = some record := by
      unfold Rfc3339.readBack
      rw [hj]
      simp [hget, hparse]
    refine ⟨⟨j, text, hj, hget, hdenotes⟩, ⟨record, hback, text, ?_, hdenotes⟩, text, ?_, hdenotes⟩
    · rw [syncRecordJson_get?, htext']
    · rw [syncRecordJson_get?, htext']

/-- A database time differs from its instant by less than a microsecond, towards the epoch of
database times. -/
theorem toTimestamp_bounds {τ : ℤ} (h : t.toTimestamp = τ) :
    (946684800000000000 ≤ t.unixNanos →
        τ * 1000 ≤ t.unixNanos ∧ t.unixNanos < τ * 1000 + 1000) ∧
      (t.unixNanos < 946684800000000000 →
        t.unixNanos ≤ τ * 1000 ∧ τ * 1000 < t.unixNanos + 1000) := by
  have heq : (946684800000000 : ℤ) + (t.unixNanos - 946684800000000 * 1000).tdiv 1000 = τ := h
  constructor
  · intro hn
    rw [Int.tdiv_eq_ediv_of_nonneg (by omega)] at heq
    omega
  · intro hn
    have hneg : t.unixNanos - 946684800000000 * 1000 =
        -(946684800000000 * 1000 - t.unixNanos) := by omega
    rw [hneg, Int.neg_tdiv, Int.tdiv_eq_ediv_of_nonneg (by omega)] at heq
    omega

/-- An accepted instant has a date in UTC and a year from 0 to 9999 there exactly when it is in
range. -/
theorem reencodes_iff (ht : t.IsWritable) :
    t.fitsUtc = true ∧ InYears t.toTimestamp ↔ t.Reencodes := by
  obtain ⟨hlo, hhi, -, hoffset, hoffset'⟩ := ht
  obtain ⟨τ, hτ⟩ : ∃ τ : ℤ, t.toTimestamp = τ := ⟨_, rfl⟩
  have hbounds := toTimestamp_bounds hτ
  unfold OffsetDateTime.Reencodes InYears OffsetDateTime.fitsUtc
  rw [hτ]
  unfold yearZero minUtcNanos maxUtcNanos at *
  simp only [Bool.and_eq_true, decide_eq_true_eq]
  omega

end

end TaskTipsCloud

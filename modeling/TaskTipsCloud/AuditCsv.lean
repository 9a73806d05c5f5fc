import TaskTipsCloud.Domain
import TaskTipsCloud.Library.Csv

/-!
# The audit events as comma-separated values

The administrators' export of audit events writes a header and a row for every event. A reader of
comma-separated values gets the events' values back, row by row.
-/

namespace TaskTipsCloud

open Csv

/-- An audit event, with the values that the export writes. -/
structure AuditEventRecord where
  id : ℤ
  actorUserId : Option Uuid
  subjectUserId : Option Uuid
  projectId : Option Uuid
  action : String
  requestId : Option String
  createdAt : OffsetDateTime

/-- An optional UUID as a field. -/
def csvOptionalUuid (value : Option Uuid) : String := value.elim "" Uuid.text

/-- A text as a field. -/
def csvField (value : String) : String :=
  if value.toList.any fun c => c == ',' || c == quote || c == carriageReturn || c == lineFeed then
    String.ofList (quote :: double value.toList ++ [quote])
  else value

/-- The line of an event. -/
def auditEventLine (host : Host) (event : AuditEventRecord) : String :=
  let requestId := event.requestId.getD ""
  s!"{event.id},{csvField event.action},{csvOptionalUuid event.actorUserId}," ++
  s!"{csvOptionalUuid event.subjectUserId},{csvOptionalUuid event.projectId}," ++
  s!"{csvField requestId},{csvField (host.displayText event.createdAt)}\n"

/-- The text of the export. -/
def adminAuditEventsCsv (host : Host) (events : List AuditEventRecord) : String :=
  events.foldl (fun csv event => csv ++ auditEventLine host event)
    "id,action,actorUserId,subjectUserId,projectId,requestId,createdAt\n"

/-! ## What a reader gets -/

/-- The columns. -/
def auditCsvHeader : List String :=
  ["id", "action", "actorUserId", "subjectUserId", "projectId", "requestId", "createdAt"]

/-- The values of an event in the order of the columns; an absent one is empty. -/
def AuditEventRecord.values (host : Host) (event : AuditEventRecord) : List String :=
  [toString event.id, event.action, event.actorUserId.elim "" Uuid.text,
    event.subjectUserId.elim "" Uuid.text, event.projectId.elim "" Uuid.text,
    event.requestId.getD "", host.displayText event.createdAt]

/-- A digit needs no quotes. -/
theorem isSpecial_of_isDigit {c : Char} (h : c.isDigit) : isSpecial c = false := by
  rw [isSpecial, Bool.or_eq_false_iff, Bool.or_eq_false_iff, Bool.or_eq_false_iff]
  refine ⟨⟨⟨?_, ?_⟩, ?_⟩, ?_⟩ <;>
  · rw [beq_eq_false_iff_ne]
    rintro rfl
    exact absurd h (by decide)

/-- The digits of a number spell it. -/
theorem spells_int (n : ℤ) : Spells (toString n) (toString n) := by
  refine .plain (List.all_eq_true.mpr fun c hc => ?_)
  rw [Bool.not_eq_true']
  have hminus : isSpecial '-' = false := by decide
  have hdigit (k : ℕ) (h : c ∈ k.repr.toList) : isSpecial c = false := by
    rw [Nat.toList_repr] at h
    exact isSpecial_of_isDigit (Nat.isDigit_of_mem_toDigits (by decide) (by decide) h)
  rw [Int.toString_eq_repr, Int.repr_eq_if] at hc
  split at hc
  · exact hdigit _ hc
  · rw [String.toList_append, List.mem_append] at hc
    rcases hc with hc | hc
    · have hc' : c = '-' := by simpa using hc
      rw [hc', hminus]
    · exact hdigit _ hc

/-- The text of a UUID spells it. -/
theorem spells_uuid (u : Uuid) : Spells u.text u.text := by
  have hplain : ('-' :: "0123456789abcdef".toList).all (!isSpecial ·) = true := by decide
  refine .plain (List.all_eq_true.mpr fun c hc => ?_)
  exact List.all_eq_true.mp hplain c (List.mem_cons.mpr (Uuid.mem_text hc))

/-- An optional identifier is spelt as its text, or as the empty text. -/
theorem spells_csvOptionalUuid (value : Option Uuid) :
    Spells (csvOptionalUuid value) (value.elim "" Uuid.text) := by
  cases value with
  | none => exact .plain rfl
  | some u => exact spells_uuid u

/-- A quoted field spells its value. -/
theorem spells_csvField (value : String) : Spells (csvField value) value := by
  rw [csvField]
  split
  · exact .quoted String.toList_ofList
  · next h =>
    refine .plain (List.all_eq_true.mpr fun c hc => ?_)
    rw [Bool.not_eq_true']
    exact Bool.eq_false_iff.mpr fun hspecial => h (List.any_eq_true.mpr ⟨c, hc, hspecial⟩)

/-- The fields that the line of an event joins. -/
def auditEventFields (host : Host) (event : AuditEventRecord) : List String :=
  [toString event.id, csvField event.action, csvOptionalUuid event.actorUserId,
    csvOptionalUuid event.subjectUserId, csvOptionalUuid event.projectId,
    csvField (event.requestId.getD ""), csvField (host.displayText event.createdAt)]

/-- The fields of a line spell the values of its event. -/
theorem spells_auditEventFields (host : Host) (event : AuditEventRecord) :
    List.Forall₂ Spells (auditEventFields host event) (event.values host) :=
  .cons (spells_int _) (.cons (spells_csvField _) (.cons (spells_csvOptionalUuid _)
    (.cons (spells_csvOptionalUuid _) (.cons (spells_csvOptionalUuid _)
      (.cons (spells_csvField _) (.cons (spells_csvField _) .nil))))))

/-- The header spells its names. -/
theorem spells_auditCsvHeader : List.Forall₂ Spells auditCsvHeader auditCsvHeader := by
  have hall : ∀ s ∈ auditCsvHeader, s.toList.all (!isSpecial ·) := by decide
  exact List.forall₂_same.mpr fun s hs => .plain (hall s hs)

/-- A line of the file is the record of the fields of its event. -/
theorem toList_auditEventLine (host : Host) (event : AuditEventRecord) :
    (auditEventLine host event).toList = recordText (auditEventFields host event) := by
  have htext (s : String) : toString s = s := rfl
  have hcomma : ",".toList = [comma] := by decide
  have hfeed : "\n".toList = [lineFeed] := by decide
  simp [auditEventLine, auditEventFields, recordText, List.intercalate, List.intersperse, htext,
    hcomma, hfeed]

/-- The text of the export is the header and the lines of the events. -/
theorem toList_adminAuditEventsCsv (host : Host) (events : List AuditEventRecord) :
    (adminAuditEventsCsv host events).toList =
      recordText auditCsvHeader ++ events.flatMap fun event =>
        recordText (auditEventFields host event) := by
  have h : ∀ (events : List AuditEventRecord) (csv : String),
      (events.foldl (fun csv event => csv ++ auditEventLine host event) csv).toList =
        csv.toList ++ events.flatMap fun event => recordText (auditEventFields host event) := by
    intro events
    induction events with
    | nil => simp
    | cons event events ih =>
      intro csv
      simp [ih, toList_auditEventLine]
  rw [adminAuditEventsCsv, h]
  rfl

/-- A reader of the export gets the header and then, in their order, one row of values for every
event. -/
theorem audit_csv_decodes (host : Host) (events : List AuditEventRecord) :
    parse (adminAuditEventsCsv host events) =
        some (auditCsvHeader :: events.map (·.values host)) ∧
      ∀ event ∈ events, (event.values host).length = auditCsvHeader.length := by
  refine ⟨?_, fun event _ => rfl⟩
  let rows := (auditCsvHeader, auditCsvHeader) ::
    events.map fun event => (auditEventFields host event, event.values host)
  have htext : (adminAuditEventsCsv host events).toList =
      rows.flatMap fun row => recordText row.1 := by
    simp [rows, toList_adminAuditEventsCsv, List.flatMap_map]
  have hspells : ∀ row ∈ rows, row.1 ≠ [] ∧ List.Forall₂ Spells row.1 row.2 := by
    intro row hrow
    rcases List.mem_cons.mp hrow with rfl | hrow
    · exact ⟨List.cons_ne_nil _ _, spells_auditCsvHeader⟩
    · obtain ⟨event, -, rfl⟩ := List.mem_map.mp hrow
      exact ⟨List.cons_ne_nil _ _, spells_auditEventFields host event⟩
  rw [parse_records htext hspells]
  simp [rows, Function.comp_def]

end TaskTipsCloud

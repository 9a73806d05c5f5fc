import Mathlib

/-!
# Comma-separated values

A parser of records of RFC 4180 whose records end at a line feed: fields are separated by commas,
and a field in quotes may contain commas, line ends and, doubled, quotes. A text that joins
spellings of fields with commas and ends every record with a line feed is read back record by
record.
-/

namespace TaskTipsCloud

namespace Csv

/-- The quotation mark. -/
def quote : Char := Char.ofNat 34

/-- The comma. -/
def comma : Char := ','

/-- The carriage return. -/
def carriageReturn : Char := Char.ofNat 13

/-- The line feed. -/
def lineFeed : Char := Char.ofNat 10

/-- Whether a character can stand in a field only between quotation marks. -/
def isSpecial (c : Char) : Bool :=
  c == comma || c == quote || c == carriageReturn || c == lineFeed

/-- Where in a field a parser stands. -/
inductive Mode where
  | start
  | plain
  | quoted
  | closed
  deriving DecidableEq

/-- A parser: the characters of the current field, the fields before it in its record, and the
records before that. -/
structure Parser where
  mode : Mode := .start
  field : List Char := []
  fields : List String := []
  records : List (List String) := []
  deriving DecidableEq

namespace Parser

/-- Takes a character into the current field. -/
def push (mode : Mode) (c : Char) (p : Parser) : Parser :=
  { p with mode := mode, field := p.field ++ [c] }

/-- Ends the current field. -/
def endField (p : Parser) : Parser :=
  { p with mode := .start, field := [], fields := p.fields ++ [String.ofList p.field] }

/-- Ends the current record. -/
def endRecord (p : Parser) : Parser :=
  { mode := .start
    field := []
    fields := []
    records := p.records ++ [p.endField.fields] }

/-- Reads a character outside quotation marks. -/
def stepOutside (c : Char) (p : Parser) : Option Parser :=
  if c = comma then some p.endField
  else if c = lineFeed then some p.endRecord
  else if c = quote ∨ c = carriageReturn then none
  else some (p.push .plain c)

/-- Reads a character. -/
def step (p : Parser) (c : Char) : Option Parser :=
  match p.mode with
  | .start => if c = quote then some { p with mode := .quoted } else p.stepOutside c
  | .plain => p.stepOutside c
  | .quoted => if c = quote then some { p with mode := .closed } else some (p.push .quoted c)
  | .closed =>
    if c = quote then some (p.push .quoted c)
    else if c = comma then some p.endField
    else if c = lineFeed then some p.endRecord
    else none

/-- Ends the text; the last record may lack its line feed. -/
def finish (p : Parser) : Option (List (List String)) :=
  match p.mode with
  | .start => if p.fields = [] then some p.records else some p.endRecord.records
  | .quoted => none
  | _ => some p.endRecord.records

/-- Reads characters. -/
def run : Parser → List Char → Option Parser
  | p, [] => some p
  | p, c :: cs => (p.step c).bind fun q => run q cs

end Parser

/-- The records of a text. -/
def parse (text : String) : Option (List (List String)) :=
  (Parser.run {} text.toList).bind Parser.finish

/-- The characters with every quotation mark doubled. -/
def double (cs : List Char) : List Char :=
  cs.flatMap fun c => if c = quote then [quote, quote] else [c]

/-- Spells a field: as it is when it has no special character, or in quotation marks. -/
inductive Spells : String → String → Prop
  | plain {s : String} (h : s.toList.all (!isSpecial ·)) : Spells s s
  | quoted {t s : String} (h : t.toList = quote :: double s.toList ++ [quote]) : Spells t s

/-- Joins spellings of fields with commas and ends the record. -/
def recordText (texts : List String) : List Char :=
  [comma].intercalate (texts.map String.toList) ++ [lineFeed]

namespace Parser

variable {p : Parser}

/-- A file is parsed in two parts. -/
theorem run_append (p : Parser) (cs ds : List Char) :
    p.run (cs ++ ds) = (p.run cs).bind fun q => q.run ds := by
  induction cs generalizing p with
  | nil => rfl
  | cons c cs ih =>
    simp only [List.cons_append, run, Option.bind_assoc]
    exact Option.bind_congr fun q _ => ih q

/-- A character that is not special is taken into a field outside quotation marks. -/
theorem stepOutside_of_plain {c : Char} (h : isSpecial c = false) (p : Parser) :
    p.stepOutside c = some (p.push .plain c) := by
  simp only [isSpecial, Bool.or_eq_false_iff, beq_eq_false_iff_ne] at h
  obtain ⟨⟨⟨hcomma, hquote⟩, hreturn⟩, hfeed⟩ := h
  simp [stepOutside, hcomma, hquote, hreturn, hfeed]

/-- A plain field is read as it stands. -/
theorem run_plain {cs : List Char} (h : cs.all (!isSpecial ·)) (hmode : p.mode = .plain) :
    p.run cs = some { p with field := p.field ++ cs } := by
  induction cs generalizing p with
  | nil => simp [run]
  | cons c cs ih =>
    simp only [List.all_cons, Bool.and_eq_true, Bool.not_eq_true'] at h
    have hstep : p.step c = some (p.push .plain c) := by
      rw [step, hmode]
      exact stepOutside_of_plain h.1 p
    have hrest := @ih (p.push .plain c) h.2 rfl
    rw [run, hstep, Option.bind_some, hrest]
    simp [push, hmode]

/-- Between quotation marks every character is read as it stands, and a doubled mark as one. -/
theorem run_double (cs : List Char) (hmode : p.mode = .quoted) :
    p.run (double cs) = some { p with field := p.field ++ cs } := by
  induction cs generalizing p with
  | nil => simp [double, run]
  | cons c cs ih =>
    have hpush := @ih (p.push .quoted c) rfl
    have hcons : double (c :: cs) = (if c = quote then [quote, quote] else [c]) ++ double cs := rfl
    rw [hcons, run_append]
    split
    · next hc =>
      subst hc
      have htwo : p.run [quote, quote] = some (p.push .quoted quote) := by
        simp [run, step, hmode, push]
      rw [htwo, Option.bind_some, hpush]
      simp [push, hmode]
    · next hc =>
      have hone : p.run [c] = some (p.push .quoted c) := by simp [run, step, hmode, hc]
      rw [hone, Option.bind_some, hpush]
      simp [push, hmode]

/-- The parser that has read a spelling of a field and stands at its end. -/
structure Has (p q : Parser) (s : String) : Prop where
  field : q.field = s.toList
  fields : q.fields = p.fields
  records : q.records = p.records
  not_quoted : q.mode ≠ .quoted

/-- At the end of a field a comma ends the field. -/
theorem Has.step_comma {q : Parser} {s : String} (h : Has p q s) :
    q.step comma = some { p with mode := .start, field := [], fields := p.fields ++ [s] } := by
  have hend : q.endField = { p with mode := .start, field := [], fields := p.fields ++ [s] } := by
    simp [endField, h.field, h.fields, h.records]
  have hne : comma ≠ quote := by decide
  have hmode := h.not_quoted
  rw [← hend, step]
  cases hm : q.mode <;> simp_all [stepOutside]

/-- At the end of a field a line feed ends the record. -/
theorem Has.step_lineFeed {q : Parser} {s : String} (h : Has p q s) :
    q.step lineFeed = some { records := p.records ++ [p.fields ++ [s]] } := by
  have hend : q.endRecord = { records := p.records ++ [p.fields ++ [s]] } := by
    simp [endRecord, endField, h.field, h.fields, h.records]
  have hquote : lineFeed ≠ quote := by decide
  have hcomma : lineFeed ≠ comma := by decide
  have hmode := h.not_quoted
  rw [← hend, step]
  cases hm : q.mode <;> simp_all [stepOutside]

/-- A spelling of a field is read to its end. -/
theorem exists_run_of_spells {t s : String} (h : Spells t s) (hmode : p.mode = .start)
    (hfield : p.field = []) : ∃ q, p.run t.toList = some q ∧ Has p q s := by
  cases h with
  | plain h =>
    cases hs : t.toList with
    | nil => exact ⟨p, rfl, by rw [hfield, hs], rfl, rfl, by rw [hmode]; decide⟩
    | cons c cs =>
      rw [hs, List.all_cons, Bool.and_eq_true, Bool.not_eq_true'] at h
      have hc : c ≠ quote := by
        rintro rfl
        exact absurd h.1 (by decide)
      have hstep : p.step c = some (p.push .plain c) := by
        rw [step, hmode]
        simp only [hc, if_false]
        exact stepOutside_of_plain h.1 p
      have hrest := @run_plain (p.push .plain c) cs h.2 rfl
      refine ⟨{ p.push .plain c with field := (p.push .plain c).field ++ cs }, ?_,
        by simp [push, hfield, hs], rfl, rfl, Mode.noConfusion⟩
      rw [run, hstep, Option.bind_some, hrest]
  | quoted h =>
    have hopen : p.step quote = some { p with mode := .quoted } := by rw [step, hmode]; rfl
    have hdouble := @run_double { p with mode := .quoted } s.toList rfl
    refine ⟨{ p with mode := .closed, field := p.field ++ s.toList }, ?_, by simp [hfield], rfl,
      rfl, by simp⟩
    rw [h, List.cons_append, run, hopen, Option.bind_some, run_append, hdouble, Option.bind_some]
    simp [run, step]

/-- A record of spelled fields is read as the fields. -/
theorem run_recordText {texts fields : List String} (h : List.Forall₂ Spells texts fields)
    (hne : texts ≠ []) (hmode : p.mode = .start) (hfield : p.field = []) :
    p.run (recordText texts) = some { records := p.records ++ [p.fields ++ fields] } := by
  induction h generalizing p with
  | nil => exact absurd rfl hne
  | @cons t s texts fields hspells hrest ih =>
    obtain ⟨q, hrun, hhas⟩ := exists_run_of_spells hspells hmode hfield
    cases hrest with
    | nil =>
      have htext : recordText [t] = t.toList ++ [lineFeed] := by simp [recordText]
      rw [htext, run_append, hrun]
      simp [run, hhas.step_lineFeed]
    | @cons t' s' texts fields hspells' hrest' =>
      have htext : recordText (t :: t' :: texts) =
          t.toList ++ comma :: recordText (t' :: texts) := by
        simp [recordText, List.intercalate_cons_cons]
      have hnext := @ih { p with mode := .start, field := [], fields := p.fields ++ [s] }
        (List.cons_ne_nil _ _) rfl rfl
      rw [htext, run_append, hrun, Option.bind_some, run, hhas.step_comma, Option.bind_some, hnext]
      simp

/-- The records written one after the other are read in their order. -/
theorem run_records {rows : List (List String × List String)}
    (h : ∀ row ∈ rows, row.1 ≠ [] ∧ List.Forall₂ Spells row.1 row.2)
    (records : List (List String)) :
    run { records := records } (rows.flatMap fun row => recordText row.1) =
      some { records := records ++ rows.map (·.2) } := by
  induction rows generalizing records with
  | nil => simp [run]
  | cons row rows ih =>
    obtain ⟨hne, hrow⟩ := h row List.mem_cons_self
    have hfirst := @run_recordText { records := records } _ _ hrow hne rfl rfl
    have hrest := ih (fun r hr => h r (List.mem_cons_of_mem _ hr)) (records ++ [row.2])
    rw [List.flatMap_cons, run_append, hfirst]
    simpa using hrest

end Parser

/-- A text of records whose fields are spelled is read back as the records. -/
theorem parse_records {text : String} {rows : List (List String × List String)}
    (htext : text.toList = rows.flatMap fun row => recordText row.1)
    (h : ∀ row ∈ rows, row.1 ≠ [] ∧ List.Forall₂ Spells row.1 row.2) :
    parse text = some (rows.map (·.2)) := by
  have hrun := Parser.run_records h []
  rw [parse, htext, hrun]
  simp [Parser.finish]

end Csv

end TaskTipsCloud

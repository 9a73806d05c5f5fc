import TaskTipsCloud.Library.Selections

/-!
# Statements given as text

The server reads a statement as text: it splits the text into tokens, parses them, and runs what it
has parsed. This is done here for the statements that first select some rows of a table, in an order
and up to a limit, and then delete or update the selected rows: `WITH c AS (SELECT .. FROM t WHERE
.. ORDER BY .. LIMIT ..) DELETE FROM t USING c WHERE ..` and the same with `UPDATE t SET .. FROM c
WHERE ..`. A text is written in a program as a literal over several lines, of which a backslash at
the end of a line joins the next one without its leading white space.
-/

namespace TaskTipsCloud

namespace Sql

/-! ## Literals -/

/-- A backslash. -/
def backslash : Char := Char.ofNat 92

/-- A quotation mark of a text in a statement. -/
def quote : Char := Char.ofNat 39

/-- A blank. -/
def isSpace (c : Char) : Bool := c == ' ' || c == '\n' || c == '\t' || c == '\r'

/-- The value of a literal with some lines. `joined` tells that the line before ends with a
backslash. -/
def literal (joined : Bool) : List String → List Char
  | [] => []
  | line :: lines =>
    let line := if joined then line.toList.dropWhile isSpace else line.toList
    if joined && line.isEmpty then literal true lines
    else if line.getLast? == some backslash then line.dropLast ++ literal true lines
    else line ++ (if lines.isEmpty then [] else ['\n']) ++ literal false lines

/-! ## Tokens -/

/-- A token of a statement. A name is a keyword, too. -/
inductive Token where
  | name (text : String)
  | param (n : ℕ)
  | text (value : String)
  | operator (text : String)
  | symbol (c : Char)
  deriving DecidableEq, Repr

/-- The token that is being read. -/
inductive Reading where
  | nothing
  | name (read : List Char)
  | param (read : List Char)
  | text (read : List Char)
  | operator (read : List Char)

/-- The token that ends before the next character. Only a quotation mark ends a text. -/
def Reading.token : Reading → Option (List Token)
  | .nothing => some []
  | .name read => some [.name (String.ofList read.reverse)]
  | .param read => some [.param (read.foldr (fun c n => 10 * n + (c.toNat - '0'.toNat)) 0)]
  | .text _ => none
  | .operator read => some [.operator (String.ofList read.reverse)]

/-- The start of a name. -/
def isNameStart (c : Char) : Bool := c.isAlpha || c == '_'

/-- A character of a name. -/
def isNamePart (c : Char) : Bool := c.isAlphanum || c == '_'

/-- A character of an operator. -/
def isOperator (c : Char) : Bool := c == '<' || c == '>' || c == '=' || c == '+' || c == '-'

/-- A symbol of one character. -/
def isSymbol (c : Char) : Bool := c == '(' || c == ')' || c == ',' || c == '.'

/-- Reads the first character of a token. -/
def start (c : Char) : Option (List Token × Reading) :=
  if isSpace c then some ([], .nothing)
  else if isNameStart c then some ([], .name [c.toLower])
  else if c == '$' then some ([], .param [])
  else if c == quote then some ([], .text [])
  else if isOperator c then some ([], .operator [c])
  else if isSymbol c then some ([.symbol c], .nothing)
  else none

/-- Reads the next character: what has been read goes on, or ends before it. -/
def Reading.step (r : Reading) (c : Char) : Option (List Token × Reading) :=
  match r with
  | .text read =>
    if c == quote then some ([.text (String.ofList read.reverse)], .nothing)
    else some ([], .text (c :: read))
  | .name read =>
    if isNamePart c then some ([], .name (c.toLower :: read)) else ends (.name read) c
  | .param read => if c.isDigit then some ([], .param (c :: read)) else ends (.param read) c
  | .operator read =>
    if isOperator c then some ([], .operator (c :: read)) else ends (.operator read) c
  | .nothing => start c
where
  ends (r : Reading) (c : Char) : Option (List Token × Reading) := do
    let before ← r.token
    let (tokens, next) ← start c
    return (before ++ tokens, next)

/-- The tokens of a text. -/
def tokens (r : Reading) : List Char → Option (List Token)
  | [] => r.token
  | c :: text => do
    let (before, r) ← r.step c
    let after ← tokens r text
    return before ++ after

/-! ## Statements -/

/-- A column, of a table or of the only table that has it. -/
structure ColumnRef where
  table : Option String
  column : String
  deriving DecidableEq, Repr

/-- A table with the name under which its columns are found. -/
structure TableRef where
  table : String
  shortName : Option String
  deriving DecidableEq, Repr

/-- An operand of a comparison. -/
inductive Operand where
  | column (c : ColumnRef)
  | now
  | text (value : String)
  deriving DecidableEq, Repr

/-- A condition of a selection. -/
inductive Condition where
  | compare (left : Operand) (operator : String) (right : Operand)
  | among (left : Operand) (values : List String)
  deriving DecidableEq, Repr

/-- A selection of rows. -/
structure Select where
  columns : List ColumnRef
  source : TableRef
  conditions : List Condition
  order : List ColumnRef
  limit : ℕ
  deriving DecidableEq, Repr

/-- What happens to the selected rows. -/
inductive Change where
  | delete
  | set (column value : String)
  deriving DecidableEq, Repr

/-- A statement that updates the selected rows and returns a column of them. -/
structure Statement where
  name : String
  select : Select
  change : Change
  target : TableRef
  source : TableRef
  conditions : List Condition
  returning : ColumnRef
  deriving DecidableEq, Repr

/-! ## Parsing -/

/-- Names that cannot stand for a table or a column. -/
def reserved : List String :=
  ["with", "as", "select", "from", "where", "and", "in", "order", "limit", "using", "returning",
    "set", "current_timestamp"]

/-- Takes some tokens from the front. -/
abbrev Parse := StateT (List Token) Option

/-- The next token. -/
def next : Parse Token
  | [] => none
  | t :: ts => some (t, ts)

/-- Whether the next token is the given one. -/
def isNext (t : Token) : Parse Bool := fun ts => some (ts.head? == some t, ts)

/-- A token that must be there. -/
def expect (t : Token) : Parse Unit := do
  if (← next) == t then return () else failure

/-- A name. -/
def identifier : Parse String := do
  match ← next with
  | .name text => if reserved.contains text then failure else return text
  | _ => failure

/-- An identifier, when there is one. -/
def optionalIdentifier : Parse (Option String)
  | .name text :: ts => if reserved.contains text then some (none, .name text :: ts)
    else some (some text, ts)
  | ts => some (none, ts)

/-- The text of a value. -/
def textValue : Parse String := do
  match ← next with
  | .text value => return value
  | _ => failure

/-- The text of an operator. -/
def operatorText : Parse String := do
  match ← next with
  | .operator text => return text
  | _ => failure

/-- Items with separators between them, at most `n`. -/
def items {α : Type} (separator : Token) (item : Parse α) : ℕ → Parse (List α)
  | 0 => failure
  | n + 1 => do
    let a ← item
    if ← isNext separator then
      expect separator
      return a :: (← items separator item n)
    else return [a]

/-- Items with separators between them. Every item takes a token. -/
def separated {α : Type} (separator : Token) (item : Parse α) : Parse (List α) :=
  fun ts => items separator item ts.length ts

/-- A column, with or without its table. -/
def columnRef : Parse ColumnRef := do
  let first ← identifier
  if ← isNext (.symbol '.') then
    expect (.symbol '.')
    return ⟨some first, ← identifier⟩
  else return ⟨none, first⟩

/-- A table and its name in the statement. -/
def tableRef : Parse TableRef := do
  return ⟨← identifier, ← optionalIdentifier⟩

/-- An operand. -/
def operand : Parse Operand := do
  if ← isNext (.name "current_timestamp") then
    expect (.name "current_timestamp")
    return .now
  else return .column (← columnRef)

/-- A condition. -/
def condition : Parse Condition := do
  let left ← operand
  if ← isNext (.name "in") then
    expect (.name "in")
    expect (.symbol '(')
    let values ← separated (.symbol ',') textValue
    expect (.symbol ')')
    return .among left values
  else return .compare left (← operatorText) (← operand)

/-- The conditions of a `WHERE`. -/
def conditions : Parse (List Condition) := do
  expect (.name "where")
  separated (.name "and") condition

/-- A selection. -/
def select : Parse Select := do
  expect (.name "select")
  let columns ← separated (.symbol ',') columnRef
  expect (.name "from")
  let source ← tableRef
  let conditions ← conditions
  expect (.name "order")
  expect (.name "by")
  let order ← separated (.symbol ',') columnRef
  expect (.name "limit")
  match ← next with
  | .param limit => return ⟨columns, source, conditions, order, limit⟩
  | _ => failure

/-- The change of a statement, with its target. -/
def change : Parse (Change × TableRef) := do
  if ← isNext (.name "delete") then
    expect (.name "delete")
    expect (.name "from")
    let target ← tableRef
    expect (.name "using")
    return (.delete, target)
  else
    expect (.name "update")
    let target ← tableRef
    expect (.name "set")
    let column ← identifier
    expect (.operator "=")
    let value ← textValue
    expect (.name "from")
    return (.set column value, target)

/-- A statement. -/
def statement : Parse Statement := do
  expect (.name "with")
  let name ← identifier
  expect (.name "as")
  expect (.symbol '(')
  let select ← select
  expect (.symbol ')')
  let (change, target) ← change
  let source ← tableRef
  let conditions ← conditions
  expect (.name "returning")
  return ⟨name, select, change, target, source, conditions, ← columnRef⟩

/-- The statement that a text is, if it is well formed. -/
def parse (text : List Char) : Option Statement := do
  let ts ← tokens .nothing text
  match ← statement.run ts with
  | (s, []) => return s
  | (_, _ :: _) => failure

/-! ## Running -/

/-- A value of a column. -/
inductive Value where
  | number (n : ℤ)
  | text (value : String)
  deriving DecidableEq, Repr

/-- A table whose rows have the type `α`. -/
structure Relation (α : Type) where
  name : String
  columns : List String
  column : α → String → Value
  /-- A row with another text in a column. -/
  assign : String → String → α → α

/-- A row that a condition sees: the name of its table, its columns and their values. -/
structure Scope where
  name : String
  columns : List String
  value : String → Value

/-- What a column is in the rows that a condition sees, if only one of them has it. -/
def ColumnRef.value (c : ColumnRef) (scopes : List Scope) : Option Value :=
  match scopes.filter fun s => c.table.all (· == s.name) && s.columns.contains c.column with
  | [s] => some (s.value c.column)
  | _ => none

/-- The value of an operand for a row. -/
def Operand.value (now : ℤ) (scopes : List Scope) : Operand → Option Value
  | .column c => c.value scopes
  | .now => some (.number now)
  | .text value => some (.text value)

/-- Whether two values compare as an operator says. -/
def compares : String → Value → Value → Option Bool
  | "=", a, b => some (a == b)
  | "<=", .number a, .number b => some (decide (a ≤ b))
  | "<", .number a, .number b => some (decide (a < b))
  | _, _, _ => none

/-- Whether a condition holds of a row; it may be unknown. -/
def Condition.holds (now : ℤ) (scopes : List Scope) : Condition → Option Bool
  | .compare left operator right => do
    compares operator (← left.value now scopes) (← right.value now scopes)
  | .among left values => do
    let value ← left.value now scopes
    return values.any fun text => value == .text text

/-- The columns of an operand. -/
def Operand.columns : Operand → List ColumnRef
  | .column c => [c]
  | .now | .text _ => []

/-- The columns of a condition. -/
def Condition.columns : Condition → List ColumnRef
  | .compare left _ right => left.columns ++ right.columns
  | .among left _ => left.columns

/-- The name under which the columns of a table are found. -/
def TableRef.scope (t : TableRef) : String := t.shortName.getD t.table

/-- Whether a value comes before another one or is the same. -/
def Value.le : Value → Value → Bool
  | .number a, .number b => decide (a ≤ b)
  | .text a, .text b => decide (a ≤ b)
  | .number _, .text _ => true
  | .text _, .number _ => false

/-- The order of rows by the values of some columns. -/
def ordered : List Value → List Value → Bool
  | a :: as, b :: bs => if a = b then ordered as bs else a.le b
  | _, _ => true

section Run

variable {α : Type} (table : Relation α) (s : Statement) (now : ℤ)

/-- What the names of a selection stand for in a row. -/
def Select.scope (select : Select) (row : α) : Scope :=
  ⟨select.source.scope, table.columns, table.column row⟩

/-- Whether the statement selects a row, but for the limit. -/
def Select.admits (select : Select) (row : α) : Bool :=
  select.conditions.all fun c => c.holds now [select.scope table row] == some true

/-- The values by which the selected rows are ordered. -/
def Select.key (select : Select) (row : α) : List Value :=
  select.order.map fun c => (c.value [select.scope table row]).getD (.number 0)

/-- The selected rows. -/
def Select.run (select : Select) (scan : Arrangement α) (params : List ℤ) (rows : List α) :
    List α :=
  ((scan.arrange (rows.filter (select.admits table now))).mergeSort fun a b =>
    ordered (select.key table a) (select.key table b)).take
      (params.getD (select.limit - 1) 0).toNat

/-- Whether the statement changes a row: some selected row satisfies its conditions with it. -/
def Statement.hits (chosen : List α) (row : α) : Bool :=
  chosen.any fun c => s.conditions.all fun condition => condition.holds now
    [⟨s.target.scope, table.columns, table.column row⟩,
      ⟨s.source.scope, s.select.columns.map (·.column), table.column c⟩] == some true

/-- What the statement returns of a row. -/
def Statement.returned (row : α) : Option Value :=
  s.returning.value [⟨s.target.scope, table.columns, table.column row⟩]

/-- The result of the statement and the rows that it leaves. -/
def Statement.run (scan : Arrangement α) (params : List ℤ) (rows : List α) :
    List Value × List α :=
  let chosen := s.select.run table now scan params rows
  match s.change with
  | .delete => ((rows.filter (s.hits table now chosen)).filterMap (s.returned table),
      rows.filter fun row => !s.hits table now chosen row)
  | .set column value =>
    (((rows.filter (s.hits table now chosen)).map (table.assign column value)).filterMap
        (s.returned table),
      rows.map fun row =>
        if s.hits table now chosen row then table.assign column value row else row)

/-- Whether the statement is about the table, and every column in it is found. -/
def Statement.isDefined (params : List ℤ) : Bool :=
  let inner : Scope := ⟨s.select.source.scope, table.columns, fun _ => .number 0⟩
  let target : Scope := ⟨s.target.scope, table.columns, fun _ => .number 0⟩
  let source : Scope := ⟨s.source.scope, s.select.columns.map (·.column), fun _ => .number 0⟩
  let finds (scopes : List Scope) (c : ColumnRef) : Bool := (c.value scopes).isSome
  s.select.source.table == table.name && s.target.table == table.name && s.source.table == s.name &&
    s.select.columns.all (finds [inner]) && s.select.order.all (finds [inner]) &&
    s.select.conditions.all (fun c => c.columns.all (finds [inner])) &&
    s.conditions.all (fun c => c.columns.all (finds [target, source])) &&
    finds [target] s.returning && (1 ≤ s.select.limit && s.select.limit ≤ params.length) &&
    match s.change with
    | .delete => true
    | .set column _ => table.columns.contains column

end Run

/-- Why the server refuses a statement. -/
inductive SqlError where
  | syntaxError
  | undefined
  deriving DecidableEq, Repr

/-- Runs a text on a table: the result, and the rows that are left. -/
def execute {α : Type} (table : Relation α) (now : ℤ) (scan : Arrangement α) (params : List ℤ)
    (text : List Char) (rows : List α) : Except SqlError (List Value) × List α :=
  match parse text with
  | none => (.error .syntaxError, rows)
  | some s =>
    if s.isDefined table params then
      let (result, rows) := s.run table now scan params rows
      (.ok result, rows)
    else (.error .undefined, rows)

/-! ## What a selection chooses -/

/-- The order of the values is transitive. -/
theorem Value.le_trans {a b c : Value} (hab : a.le b = true) (hbc : b.le c = true) :
    a.le c = true := by
  cases a <;> cases b <;> cases c <;>
    simp only [Value.le, decide_eq_true_eq, Bool.false_eq_true] at hab hbc ⊢
  · exact hab.trans hbc
  · exact String.le_trans hab hbc

/-- The order of the values is total. -/
theorem Value.le_total (a b : Value) : a.le b = true ∨ b.le a = true := by
  cases a <;> cases b <;> simp only [Value.le, decide_eq_true_eq, true_or, or_true]
  · exact Int.le_total _ _
  · exact String.le_total _ _

/-- The order of the values is antisymmetric. -/
theorem Value.le_antisymm {a b : Value} (hab : a.le b = true) (hba : b.le a = true) : a = b := by
  cases a <;> cases b <;> simp only [Value.le, decide_eq_true_eq, Bool.false_eq_true] at hab hba
  · rw [Int.le_antisymm hab hba]
  · rw [String.le_antisymm hab hba]

/-- The order by several values is transitive. -/
theorem ordered_trans : ∀ {as bs cs : List Value}, as.length = bs.length →
    bs.length = cs.length → ordered as bs = true → ordered bs cs = true → ordered as cs = true
  | [], [], [], _, _, _, _ => rfl
  | a :: as, b :: bs, c :: cs, hab, hbc, h₁, h₂ => by
    have ih : ordered as bs = true → ordered bs cs = true → ordered as cs = true :=
      ordered_trans (by simpa using hab) (by simpa using hbc)
    rw [ordered] at h₁ h₂ ⊢
    by_cases eab : a = b
    · subst eab
      rw [if_pos rfl] at h₁
      split at h₂
      · next eac => rw [if_pos eac]; exact ih h₁ h₂
      · next eac => rw [if_neg eac]; exact h₂
    · rw [if_neg eab] at h₁
      by_cases ebc : b = c
      · subst ebc
        rw [if_neg eab]
        exact h₁
      · rw [if_neg ebc] at h₂
        have eac : a ≠ c := fun e => ebc (Value.le_antisymm h₂ (e ▸ h₁))
        rw [if_neg eac]
        exact Value.le_trans h₁ h₂

/-- The order by several values is total. -/
theorem ordered_total (as bs : List Value) : ordered as bs = true ∨ ordered bs as = true := by
  induction as generalizing bs with
  | nil => exact .inl (by cases bs <;> rfl)
  | cons a as ih =>
    cases bs with
    | nil => exact .inl rfl
    | cons b bs =>
      rw [ordered, ordered]
      by_cases e : a = b
      · rw [if_pos e, if_pos e.symm]
        exact ih bs
      · rw [if_neg e, if_neg (Ne.symm e)]
        exact a.le_total b

/-- Rows that are ordered by a number first are ordered by that number. -/
theorem le_of_ordered {m n : ℤ} {as bs : List Value}
    (h : ordered (.number m :: as) (.number n :: bs) = true) : m ≤ n := by
  rw [ordered] at h
  split at h
  · next e => exact (Value.number.inj e).le
  · simpa [Value.le] using h

section Run

variable {α : Type} {table : Relation α} {now : ℤ} {select : Select} {s : Statement}

/-- A selection that orders by a time first chooses the oldest of the rows that it admits. -/
theorem Select.areOldest {time : α → ℤ} {rest : α → List Value} (now : ℤ)
    (scan : Arrangement α) (params : List ℤ) (rows : List α)
    (h : ∀ row, select.key table row = .number (time row) :: rest row) :
    AreOldest time (params.getD (select.limit - 1) 0).toNat
      (rows.filter (select.admits table now)) (select.run table now scan params rows) := by
  have hlength : ∀ a b, (select.key table a).length = (select.key table b).length := fun a b => by
    simp only [Select.key, List.length_map]
  refine (AreOldest.of_sorted (List.mergeSort_perm _ _) ?_ _).of_perm (scan.perm _)
  refine (List.pairwise_mergeSort (fun a b c hab hbc => ?_) (fun a b => ?_) _).imp fun {a b} hab =>
    le_of_ordered (by rwa [h, h] at hab)
  · exact ordered_trans (hlength a b) (hlength b c) hab hbc
  · simpa using ordered_total (select.key table a) (select.key table b)

/-- A selection repeats no row. -/
theorem Select.nodup_run {scan : Arrangement α} {params : List ℤ} {rows : List α}
    (hrows : rows.Nodup) : (select.run table now scan params rows).Nodup := by
  refine ((List.mergeSort_perm _ _).nodup_iff.mpr ?_).sublist (List.take_sublist _ _)
  exact (scan.perm _).nodup_iff.mpr (hrows.filter _)

/-- A selected row is in the table and is admitted. -/
theorem Select.mem_run {scan : Arrangement α} {params : List ℤ} {rows : List α} {row : α}
    (h : row ∈ select.run table now scan params rows) :
    row ∈ rows ∧ select.admits table now row = true := by
  have hsorted := List.mem_of_mem_take h
  rw [List.mem_mergeSort, (scan.perm _).mem_iff, List.mem_filter] at hsorted
  exact hsorted

section Key

variable {κ : Type} [DecidableEq κ] [DecidableEq α] {id : α → κ} (scan : Arrangement α)
  (params : List ℤ) {rows : List α} {out : α → Value}

/-- A statement that joins by the primary key hits the chosen rows. -/
theorem Statement.hits_of_key {chosen : List α}
    (hhits : ∀ row, s.hits table now chosen row = chosen.any fun c => decide (id row = id c))
    (hrows : (rows.map id).Nodup) (hchosen : ∀ c ∈ chosen, c ∈ rows) {row : α} (hrow : row ∈ rows) :
    s.hits table now chosen row = decide (row ∈ chosen) := by
  rw [hhits, Bool.eq_iff_iff, List.any_eq_true, decide_eq_true_eq]
  simp only [decide_eq_true_eq]
  constructor
  · rintro ⟨c, hc, hid⟩
    rwa [List.inj_on_of_nodup_map hrows hrow (hchosen c hc) hid]
  · exact fun hmem => ⟨row, hmem, rfl⟩

/-- A statement that deletes by the primary key leaves the rows that it has not chosen. -/
theorem Statement.run_delete (hchange : s.change = .delete)
    (hhits : ∀ chosen row, s.hits table now chosen row = chosen.any fun c => decide (id row = id c))
    (hreturned : ∀ row, s.returned table row = some (out row)) (hrows : (rows.map id).Nodup) :
    (s.run table now scan params rows).1.Perm
        ((s.select.run table now scan params rows).map out) ∧
      (s.run table now scan params rows).2 =
        rows.filter fun row => row ∉ s.select.run table now scan params rows := by
  have hchosen : ∀ c ∈ s.select.run table now scan params rows, c ∈ rows := fun c hc =>
    (Select.mem_run hc).1
  have hfilter := perm_filter_mem hrows.of_map (Select.nodup_run hrows.of_map) hchosen
  have hhit : ∀ row ∈ rows, s.hits table now (s.select.run table now scan params rows) row =
      decide (row ∈ s.select.run table now scan params rows) := fun row hrow =>
    hits_of_key (hhits _) hrows hchosen hrow
  have hout : s.returned table = fun row => some (out row) := funext hreturned
  unfold Statement.run
  rw [hchange]
  refine ⟨?_, List.filter_congr fun row hrow => ?_⟩
  · simp only
    rw [List.filter_congr hhit, hout, List.filterMap_eq_map']
    exact hfilter.map out
  · rw [hhit row hrow, decide_not]

/-- A statement that updates by the primary key changes the rows that it has chosen. -/
theorem Statement.run_set {column value : String} (hchange : s.change = .set column value)
    (hhits : ∀ chosen row, s.hits table now chosen row = chosen.any fun c => decide (id row = id c))
    (hreturned : ∀ row, s.returned table row = some (out row)) (hrows : (rows.map id).Nodup) :
    (s.run table now scan params rows).1.Perm
        ((s.select.run table now scan params rows).map fun row =>
          out (table.assign column value row)) ∧
      (s.run table now scan params rows).2 =
        rows.map fun row => if row ∈ s.select.run table now scan params rows then
          table.assign column value row else row := by
  have hchosen : ∀ c ∈ s.select.run table now scan params rows, c ∈ rows := fun c hc =>
    (Select.mem_run hc).1
  have hfilter := perm_filter_mem hrows.of_map (Select.nodup_run hrows.of_map) hchosen
  have hhit : ∀ row ∈ rows, s.hits table now (s.select.run table now scan params rows) row =
      decide (row ∈ s.select.run table now scan params rows) := fun row hrow =>
    hits_of_key (hhits _) hrows hchosen hrow
  have hout : s.returned table = fun row => some (out row) := funext hreturned
  unfold Statement.run
  rw [hchange]
  refine ⟨?_, List.map_congr_left fun row hrow => ?_⟩
  · simp only
    rw [List.filter_congr hhit, hout, List.filterMap_eq_map', List.map_map]
    exact hfilter.map _
  · simp only [hhit row hrow, decide_eq_true_eq]

end Key

end Run

section Execute

variable {α : Type} {table : Relation α} {now : ℤ} {scan : Arrangement α} {params : List ℤ}
  {text : List Char}

/-- A text that is no statement changes nothing. -/
theorem execute_of_parse_none (h : parse text = none) (rows : List α) :
    execute table now scan params text rows = (.error .syntaxError, rows) := by
  rw [execute, h]

/-- A text that is parsed is carried out. -/
theorem execute_of_parse {s : Statement} (h : parse text = some s)
    (hs : s.isDefined table params = true) (rows : List α) :
    execute table now scan params text rows =
      (.ok (s.run table now scan params rows).1, (s.run table now scan params rows).2) := by
  rw [execute, h]
  simp only [hs, if_true]

end Execute

end Sql

end TaskTipsCloud

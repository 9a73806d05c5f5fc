import TaskTipsCloud.Library.Sql
import TaskTipsCloud.Purges

/-!
# Expiry of exports and manifests

`expire_bootstrap_manifests` and `expire_account_purge_exports` of `crates/persistence/src/lib.rs`.
Both send a text that is written over several lines, each of which ends with a backslash. The lines
of the first have a blank before it. The lines of the second do not, so that the last word of a line
and the first word of the next one are read as one word.
-/

namespace TaskTipsCloud

open Txn Sql

/-! ## The tables -/

/-- The name of a status. -/
def ExportStatus.text : ExportStatus → String
  | .pending => "pending"
  | .ready => "ready"
  | .purging => "purging"
  | .completed => "completed"
  | .failed => "failed"
  | .expired => "expired"

/-- The status with a name. -/
def ExportStatus.ofText (text : String) : Option ExportStatus :=
  [.pending, .ready, .purging, .completed, .failed, .expired].find? (·.text == text)

/-- `account_purge_exports`, with the columns that the statement names. -/
def exportRelation : Relation AccountExport where
  name := "account_purge_exports"
  columns := ["id", "object_key", "status", "expires_at"]
  column e
    | "id" => .number e.id.toNat
    | "object_key" => .text e.objectKey
    | "status" => .text e.status.text
    | _ => .number e.expiresAt
  assign column value e :=
    if column = "status" then { e with status := (ExportStatus.ofText value).getD e.status } else e

/-- `bootstrap_manifests`, with the columns that the statement names. -/
def manifestRelation : Relation BootstrapManifestRow where
  name := "bootstrap_manifests"
  columns := ["id", "manifest_key", "expires_at"]
  column m
    | "id" => .number m.id.toNat
    | "manifest_key" => .text m.manifestKey
    | _ => .number m.expiresAt
  assign _ _ m := m

/-! ## The texts -/

/-- The lines of `expire_bootstrap_manifests`. -/
def manifestLines : List String :=
  ["WITH expired AS ( \\",
    "                 SELECT id FROM bootstrap_manifests \\",
    "                 WHERE expires_at <= CURRENT_TIMESTAMP \\",
    "                 ORDER BY expires_at, id LIMIT $1 \\",
    "             ) \\",
    "             DELETE FROM bootstrap_manifests b USING expired e \\",
    "             WHERE b.id = e.id RETURNING b.manifest_key"]

/-- The lines of `expire_account_purge_exports`. -/
def exportLines : List String :=
  ["WITH expired AS (\\",
    "                 SELECT e.id FROM account_purge_exports e\\",
    "                 WHERE e.expires_at <= CURRENT_TIMESTAMP\\",
    "                   AND e.status IN ('pending', 'ready', 'failed')\\",
    "                 ORDER BY e.expires_at, e.id LIMIT $1\\",
    "             )\\",
    "             UPDATE account_purge_exports e SET status = 'expired'\\",
    "             FROM expired WHERE e.id = expired.id RETURNING e.object_key"]

/-- The text of a literal over some lines. -/
def queryText (lines : List String) : List Char := literal false lines

/-- The statement of `expire_bootstrap_manifests`. -/
def manifestStatement : Statement where
  name := "expired"
  select :=
    { columns := [⟨none, "id"⟩], source := ⟨"bootstrap_manifests", none⟩
      conditions := [.compare (.column ⟨none, "expires_at"⟩) "<=" .now]
      order := [⟨none, "expires_at"⟩, ⟨none, "id"⟩], limit := 1 }
  change := .delete
  target := ⟨"bootstrap_manifests", some "b"⟩
  source := ⟨"expired", some "e"⟩
  conditions := [.compare (.column ⟨some "b", "id"⟩) "=" (.column ⟨some "e", "id"⟩)]
  returning := ⟨some "b", "manifest_key"⟩

/-- The statement that the lines of `expire_account_purge_exports` stand for with a blank before
each backslash. -/
def exportStatement : Statement where
  name := "expired"
  select :=
    { columns := [⟨some "e", "id"⟩], source := ⟨"account_purge_exports", some "e"⟩
      conditions := [.compare (.column ⟨some "e", "expires_at"⟩) "<=" .now,
        .among (.column ⟨some "e", "status"⟩) ["pending", "ready", "failed"]]
      order := [⟨some "e", "expires_at"⟩, ⟨some "e", "id"⟩], limit := 1 }
  change := .set "status" "expired"
  target := ⟨"account_purge_exports", some "e"⟩
  source := ⟨"expired", none⟩
  conditions := [.compare (.column ⟨some "e", "id"⟩) "=" (.column ⟨some "expired", "id"⟩)]
  returning := ⟨some "e", "object_key"⟩

/-- A line with a blank before the backslash that ends it. -/
def spaced (line : String) : String :=
  if line.toList.getLast? = some backslash then
    String.ofList (line.toList.dropLast ++ [' ', backslash])
  else line

/-- The statement for manifests is read. -/
theorem parse_manifestLines : parse (queryText manifestLines) = some manifestStatement := by
  decide +kernel

/-- The statement for exports is read when its lines are spaced. -/
theorem parse_spaced_exportLines :
    parse (queryText (exportLines.map spaced)) = some exportStatement := by
  decide +kernel

/-- The text is no statement: `eWHERE` is one word. -/
theorem parse_exportLines : parse (queryText exportLines) = none := by decide +kernel

/-! ## What the statements do -/

section

variable {now : Timestamp} {scan : Arrangement AccountExport}
  {manifestScan : Arrangement BootstrapManifestRow} {limit : ℤ}

/-- An export that has expired, but is not marked so. -/
def AccountExport.isDue (now : Timestamp) (e : AccountExport) : Bool :=
  decide (e.expiresAt ≤ now) && (e.status == .pending || e.status == .ready || e.status == .failed)

/-- A statement marks exactly the oldest exports that are due, and returns their keys. -/
def MarksExpired (now : Timestamp) (limit : ℤ) (rows : List AccountExport)
    (r : Except SqlError (List Value) × List AccountExport) : Prop :=
  ∃ chosen, AreOldest (·.expiresAt) (max limit 1).toNat (rows.filter (·.isDue now)) chosen ∧
    (∃ keys, r.1 = .ok keys ∧ keys.Perm (chosen.map fun e => .text e.objectKey)) ∧
    r.2 = rows.map fun e => if e ∈ chosen then { e with status := .expired } else e

/-- A statement deletes exactly the oldest manifests that have expired, and returns their keys. -/
def DeletesExpired (now : Timestamp) (limit : ℤ) (rows : List BootstrapManifestRow)
    (r : Except SqlError (List Value) × List BootstrapManifestRow) : Prop :=
  ∃ chosen, AreOldest (·.expiresAt) (max limit 1).toNat
      (rows.filter fun m => decide (m.expiresAt ≤ now)) chosen ∧
    (∃ keys, r.1 = .ok keys ∧ keys.Perm (chosen.map fun m => .text m.manifestKey)) ∧
    r.2 = rows.filter fun m => m ∉ chosen

/-- Identifiers are told apart by their numbers. -/
theorem number_toNat_inj {a b : Uuid} : Value.number a.toNat = .number b.toNat ↔ a = b := by
  rw [Value.number.injEq, Nat.cast_inj, BitVec.toNat_inj]

/-- The statement of the manifests does what it is for, whatever the table holds. -/
theorem deletesExpired_manifestLines {rows : List BootstrapManifestRow}
    (hrows : (rows.map (·.id)).Nodup) :
    DeletesExpired now limit rows (execute manifestRelation now manifestScan [max limit 1]
      (queryText manifestLines) rows) := by
  have hadmits : manifestStatement.select.admits manifestRelation now =
      fun m => decide (m.expiresAt ≤ now) := by
    funext m
    change ((some (decide (m.expiresAt ≤ now)) == some true) && true) = _
    cases decide (m.expiresAt ≤ now) <;> rfl
  have hhits : ∀ chosen m, manifestStatement.hits manifestRelation now chosen m =
      chosen.any fun c => decide (m.id = c.id) := fun chosen m => by
    refine List.any_congr rfl fun c => ?_
    change ((some (decide (Value.number m.id.toNat = .number c.id.toNat)) == some true) && true) = _
    simp only [number_toNat_inj, Bool.and_true]
    cases decide (m.id = c.id) <;> rfl
  have hreturned : ∀ m, manifestStatement.returned manifestRelation m =
      some (.text m.manifestKey) := fun _ => rfl
  have hkey : ∀ m, manifestStatement.select.key manifestRelation m =
      [.number m.expiresAt, .number m.id.toNat] := fun _ => rfl
  have hchosen := Select.areOldest now manifestScan [max limit 1] rows hkey
  obtain ⟨hkeys, hleft⟩ :=
    Statement.run_delete manifestScan [max limit 1] rfl hhits hreturned hrows
  rw [execute_of_parse parse_manifestLines rfl]
  rw [hadmits] at hchosen
  exact ⟨_, hchosen, ⟨_, rfl, hkeys⟩, hleft⟩

/-- With a blank before each backslash, the statement of the exports does what it is for. -/
theorem marksExpired_spaced {rows : List AccountExport} (hrows : (rows.map (·.id)).Nodup) :
    MarksExpired now limit rows (execute exportRelation now scan [max limit 1]
      (queryText (exportLines.map spaced)) rows) := by
  have hadmits : exportStatement.select.admits exportRelation now = (·.isDue now) := by
    funext e
    change ((some (decide (e.expiresAt ≤ now)) == some true) &&
      ((some (["pending", "ready", "failed"].any
          fun text => Value.text e.status.text == .text text) ==
        some true) && true)) = _
    unfold AccountExport.isDue
    cases e.status <;> cases decide (e.expiresAt ≤ now) <;> rfl
  have hhits : ∀ chosen e, exportStatement.hits exportRelation now chosen e =
      chosen.any fun c => decide (e.id = c.id) := fun chosen e => by
    refine List.any_congr rfl fun c => ?_
    change ((some (decide (Value.number e.id.toNat = .number c.id.toNat)) == some true) && true) = _
    simp only [number_toNat_inj, Bool.and_true]
    cases decide (e.id = c.id) <;> rfl
  have hreturned : ∀ e, exportStatement.returned exportRelation e = some (.text e.objectKey) :=
    fun _ => rfl
  have hkey : ∀ e, exportStatement.select.key exportRelation e =
      [.number e.expiresAt, .number e.id.toNat] := fun _ => rfl
  have hchosen := Select.areOldest now scan [max limit 1] rows hkey
  obtain ⟨hkeys, hleft⟩ := Statement.run_set scan [max limit 1] rfl hhits hreturned hrows
  rw [execute_of_parse parse_spaced_exportLines rfl]
  rw [hadmits] at hchosen
  exact ⟨_, hchosen, ⟨_, rfl, hkeys⟩, hleft⟩

/-- The text that the code sends is refused and changes nothing, whatever the table holds. -/
theorem execute_exportLines (rows : List AccountExport) :
    execute exportRelation now scan [max limit 1] (queryText exportLines) rows =
      (.error .syntaxError, rows) :=
  execute_of_parse_none parse_exportLines rows

end

/-! ## The transaction -/

/-- Why a transaction fails whose statement is refused. -/
def databaseError : SqlError → DatabaseError
  | .syntaxError => .syntaxError
  | .undefined => .undefinedColumn

/-- Marks expired exports and returns their keys. -/
def expireAccountPurgeExports (now : Timestamp) (scan : Arrangement AccountExport) (limit : ℤ) :
    PurgeTx (Except PersistenceError (List String)) := do
  let (result, exports) ← query fun d =>
    execute exportRelation now scan [max limit 1] (queryText exportLines) d.exports
  match result with
  | .error error => .throw (.database (databaseError error))
  | .ok keys =>
    modify fun d => { d with exports }
    return .ok (keys.filterMap fun
      | .text key => some key
      | .number _ => none)

/-- The statement for exports is refused. -/
theorem run_expireAccountPurgeExports (now : Timestamp) (scan : Arrangement AccountExport)
    (limit : ℤ) (d : PurgeDb) : (expireAccountPurgeExports now scan limit).run d =
      (.error (.database .syntaxError), d) := by
  simp only [expireAccountPurgeExports, bind_eq, run_bind, run_query, execute_exportLines]
  rfl

end TaskTipsCloud

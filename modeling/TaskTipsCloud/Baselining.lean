import TaskTipsCloud.Library.Programs

/-!
# Baselining of the migrations

`migrate` of `crates/persistence/src/lib.rs`. A process that starts looks at the rows of
`_sqlx_migrations` and at the schema of the application, replaces the rows of an older history by
the row of the first migration, and then runs the migrator. Several processes may start at once;
only the replacement is made under a lock.
-/

namespace TaskTipsCloud

namespace Baselining

open Program

/-! ## The bookkeeping -/

/-- A migration of the program. -/
structure Migration where
  version : ℤ
  description : String
  checksum : List UInt8
  deriving DecidableEq, Repr

/-- A row of `_sqlx_migrations`. -/
structure MigrationRow where
  version : ℤ
  description : String
  success : Bool
  checksum : List UInt8
  deriving DecidableEq, Repr

/-- `_sqlx_migrations`, with its primary key. -/
structure MigrationTable where
  rows : List MigrationRow
  primaryKey : (rows.map (·.version)).Nodup

/-- The database as far as `migrate` looks at it. -/
structure Bookkeeping where
  table : Option MigrationTable
  /-- Whether `instance_settings` is there. -/
  instanceSettings : Bool
  /-- Whether the other tables, views, functions, policies and settings are there. -/
  schemaComplete : Bool

/-- The versions of the history before the migrations were consolidated. -/
def legacyMigrationVersions : List ℤ :=
  [1, 2, 3, 4, 5, 6, 7, 8, 9, 10, 11, 12, 13, 14, 15, 16, 17, 18, 19, 20, 21, 22, 23, 24, 25, 26,
    27, 28, 29]

/-- The first migration, `0001_init.sql`. -/
def initMigration (checksum : List UInt8) : Migration := ⟨1, "init", checksum⟩

/-- Whether a row records a migration as it is. -/
def MigrationRow.isCurrent (m : Migration) (row : MigrationRow) : Bool :=
  row.version == m.version && row.success && row.checksum == m.checksum

/-- The rows by their versions. -/
def MigrationTable.ordered (t : MigrationTable) : List MigrationRow :=
  t.rows.mergeSort fun a b => decide (a.version ≤ b.version)

/-- The row that stands for an older history. -/
def baselineRow (m : Migration) : MigrationRow := ⟨m.version, m.description, true, m.checksum⟩

/-- The table with this row only. -/
def baselineTable (m : Migration) : MigrationTable := ⟨[baselineRow m], List.nodup_singleton _⟩

/-- Whether `baseline_migration` replaces the rows that it finds under its lock. -/
def canBaseline (m : Migration) (rows : List MigrationRow) : Bool :=
  let currentApplied := rows.any (·.isCurrent m)
  let allSuccess := rows.all (·.success)
  let versions := rows.map (·.version)
  let descriptions := rows.map (·.description)
  rows.isEmpty ||
    (!currentApplied && allSuccess &&
      (versions == legacyMigrationVersions ||
        (versions == [m.version] && descriptions == [m.description])))

/-! ## A process that starts -/

/-- What a process asks the database. -/
inductive MigrateOp where
  | migrationTableExists
  | currentApplied
  /-- The versions, the descriptions and the conjunction of the successes of all rows. -/
  | history
  | instanceSettingsExists
  | schemaComplete
  | ensureReauthNonceSchema
  | baselineMigration
  /-- One transaction of the migrator. -/
  | applyMigration
  deriving DecidableEq, Repr

/-- What the operations answer. -/
def MigrateOp.Reply : MigrateOp → Type
  | .history => List ℤ × List String × Bool
  | .migrationTableExists | .currentApplied | .instanceSettingsExists | .schemaComplete => Bool
  | .ensureReauthNonceSchema | .baselineMigration | .applyMigration => Unit

/-- The database refuses a statement, or the connection is gone. -/
inductive MigrateError where
  | execute
  deriving DecidableEq, Repr

/-- A program on the bookkeeping. -/
abbrev MigrateProgram := Program MigrateOp MigrateOp.Reply MigrateError

/-- A call of such a program. -/
abbrev MigrateCall := Called MigrateOp MigrateOp.Reply MigrateError

/-- Whether the migrator's table is there. -/
def migrationTableExists : MigrateProgram Bool := perform MigrateOp.migrationTableExists

/-- Whether the row of the first migration is the current one and has succeeded. -/
def currentApplied : MigrateProgram Bool := perform MigrateOp.currentApplied

/-- The versions, the descriptions and the success of the applied migrations. -/
def history : MigrateProgram (List ℤ × List String × Bool) := perform MigrateOp.history

/-- Whether the table of the settings is there. -/
def instanceSettingsExists : MigrateProgram Bool := perform MigrateOp.instanceSettingsExists

/-- Whether the schema of the application is complete. -/
def schemaComplete : MigrateProgram Bool := perform MigrateOp.schemaComplete

/-- Creates what later versions of the schema need, if it is missing. -/
def ensureReauthNonceSchema : MigrateProgram Unit := perform MigrateOp.ensureReauthNonceSchema

/-- Replaces the rows of the older history by the row of the first migration. -/
def baselineMigration : MigrateProgram Unit := perform MigrateOp.baselineMigration

/-- Whether the table is there, and whether its rows need the baseline. Nothing is locked. -/
def migrationTableState (m : Migration) : MigrateProgram (Bool × Bool) := do
  if ← migrationTableExists then
    let currentApplied ← currentApplied
    let (versions, descriptions, allSuccess) ← history
    let isKnownLegacyHistory := allSuccess && versions == legacyMigrationVersions
    let isPriorConsolidatedHistory :=
      allSuccess && versions == [m.version] && descriptions == [m.description]
    let isEmptyHistory := allSuccess && versions.isEmpty
    return (true,
      (isKnownLegacyHistory || isPriorConsolidatedHistory || isEmptyHistory) && !currentApplied)
  else return (false, false)

/-- Whether the schema of the application is there. -/
def schemaIsInitialized : MigrateProgram Bool := do
  if ← instanceSettingsExists then schemaComplete else return false

/-- The check and the baseline. -/
def checkAndBaseline (m : Migration) : MigrateProgram Unit := do
  let (migrationTableExists, needsBaseline) ← migrationTableState m
  let alreadyInitialized ← schemaIsInitialized
  if alreadyInitialized then
    ensureReauthNonceSchema
    if !migrationTableExists || needsBaseline then baselineMigration else return ()
  else return ()

/-- A process that starts. Its migrator has at most `n` transactions. -/
def migrate (m : Migration) (n : ℕ) : MigrateProgram Unit := do
  checkAndBaseline m
  forEach (fun _ => perform MigrateOp.applyMigration) (List.range n)

/-! ## What the operations do -/

/-- Whether the schema of the application is there. -/
def Bookkeeping.isInitialized (s : Bookkeeping) : Bool := s.instanceSettings && s.schemaComplete

/-- Whether the table records a migration as it is. -/
def Bookkeeping.hasApplied (m : Migration) (s : Bookkeeping) : Bool :=
  s.table.any fun t => t.rows.any (·.isCurrent m)

/-- The rows that the baseline finds: it creates the table when there is none. -/
def Bookkeeping.found (s : Bookkeeping) : List MigrationRow := s.table.elim [] (·.ordered)

/-- The table after `baseline_migration`. -/
def Bookkeeping.baselined (m : Migration) (s : Bookkeeping) : Option MigrationTable :=
  if canBaseline m s.found then some (baselineTable m) else s.table

/-- The migrator of the library, which is not part of the program: what one of its transactions may
do. It adds rows of later versions. It adds the row of the first version only as the program has it,
and with the schema of the application; where that version is applied in another way, it stops. -/
structure Migrator (m : Migration) where
  applies : Bookkeeping → Bookkeeping → Prop
  keepsSchema : ∀ {s s'}, applies s s' → (s.instanceSettings = true → s'.instanceSettings = true) ∧
    (s.schemaComplete = true → s'.schemaComplete = true)
  keepsRows : ∀ {s s' t}, applies s s' → s.table = some t →
    ∃ t', s'.table = some t' ∧ ∀ row ∈ t.rows, row ∈ t'.rows
  onlyLater : ∀ {s s' t'}, applies s s' → s'.table = some t' → ∀ row ∈ t'.rows,
    row.version = m.version → (∃ t, s.table = some t ∧ row ∈ t.rows) ∨ row.isCurrent m = true
  stops : ∀ {s s' t}, applies s s' → s.table = some t →
    (∃ row ∈ t.rows, row.version = m.version ∧ row.isCurrent m = false) → s'.table = s.table
  initializes : ∀ {s s'}, applies s s' → s.isInitialized = false → s'.isInitialized = true →
    s'.hasApplied m = true

/-- What the operations do. Any of them may fail without an effect. -/
inductive MigrateStep (m : Migration) (migrator : Migrator m) :
    Behaviour MigrateOp MigrateOp.Reply MigrateError Bookkeeping
  | fault (op : MigrateOp) (s : Bookkeeping) : MigrateStep m migrator op s (.error .execute) s
  | migrationTableExists (s : Bookkeeping) :
    MigrateStep m migrator .migrationTableExists s (.ok s.table.isSome) s
  | currentApplied (s : Bookkeeping) :
    MigrateStep m migrator .currentApplied s (.ok (s.hasApplied m)) s
  | history (s : Bookkeeping) :
    MigrateStep m migrator .history s
      (.ok (s.found.map (·.version), s.found.map (·.description), s.found.all (·.success))) s
  | instanceSettingsExists (s : Bookkeeping) :
    MigrateStep m migrator .instanceSettingsExists s (.ok s.instanceSettings) s
  | schemaComplete (s : Bookkeeping) :
    MigrateStep m migrator .schemaComplete s (.ok s.schemaComplete) s
  | ensureReauthNonceSchema (s : Bookkeeping) :
    MigrateStep m migrator .ensureReauthNonceSchema s (.ok ()) s
  | baselineMigration (s : Bookkeeping) :
    MigrateStep m migrator .baselineMigration s (.ok ()) { s with table := s.baselined m }
  | applyMigration {s s' : Bookkeeping} (h : migrator.applies s s') :
    MigrateStep m migrator .applyMigration s (.ok ()) s'

/-! ## Histories that the baseline replaces -/

/-- A history that the baseline replaces: there is no row, or all migrations have succeeded and the
versions are those before the consolidation, or that of the first migration with its description and
another checksum. -/
inductive Replaceable (m : Migration) : Option MigrationTable → Prop
  | absent : Replaceable m none
  | empty {t : MigrationTable} (h : t.rows = []) : Replaceable m (some t)
  | legacy {t : MigrationTable} (hsuccess : ∀ row ∈ t.rows, row.success = true)
      (hversions : (t.rows.map (·.version)).Perm legacyMigrationVersions)
      (hcurrent : ∀ row ∈ t.rows, row.isCurrent m = false) : Replaceable m (some t)
  | consolidated {t : MigrationTable} {checksum : List UInt8} (hchecksum : checksum ≠ m.checksum)
      (h : t.rows = [⟨m.version, m.description, true, checksum⟩]) : Replaceable m (some t)

section

variable {m : Migration} {s s' : Bookkeeping} {t : MigrationTable}

/-- The order of the versions loses no row. -/
theorem MigrationTable.ordered_perm (t : MigrationTable) : t.ordered.Perm t.rows :=
  List.mergeSort_perm _ _

/-- The row of the baseline is the current one. -/
theorem isCurrent_baselineRow : (baselineRow m).isCurrent m = true := by
  simp [MigrationRow.isCurrent, baselineRow]

/-- The ordered versions are a sorted list if and only if the versions are those of the list. -/
theorem ordered_versions_eq_iff {versions : List ℤ} (hsorted : versions.Pairwise (· ≤ ·)) :
    t.ordered.map (·.version) = versions ↔ (t.rows.map (·.version)).Perm versions := by
  have hperm : (t.ordered.map (·.version)).Perm (t.rows.map (·.version)) := t.ordered_perm.map _
  have hordered : (t.ordered.map (·.version)).Pairwise (· ≤ ·) := by
    refine List.pairwise_map.mpr ((List.pairwise_mergeSort (fun a b c hab hbc => ?_)
      (fun a b => ?_) _).imp of_decide_eq_true)
    · exact decide_eq_true (le_trans (of_decide_eq_true hab) (of_decide_eq_true hbc))
    · simpa using le_total a.version b.version
  constructor
  · rintro rfl
    exact hperm.symm
  · exact fun h => (hperm.trans h).eq_of_pairwise (fun _ _ _ _ => le_antisymm) hordered hsorted

/-- A row is listed when it is in the table. -/
theorem mem_ordered {row : MigrationRow} : row ∈ t.ordered ↔ row ∈ t.rows :=
  t.ordered_perm.mem_iff

/-- A history can be baselined when it is empty, or an older one that succeeded. -/
theorem canBaseline_ordered_iff : canBaseline m t.ordered = true ↔ t.rows = [] ∨
    (∀ row ∈ t.rows, row.isCurrent m = false) ∧ (∀ row ∈ t.rows, row.success = true) ∧
      (t.ordered.map (·.version) = legacyMigrationVersions ∨
        t.ordered.map (·.version) = [m.version] ∧
          t.ordered.map (·.description) = [m.description]) := by
  have hempty : t.ordered = [] ↔ t.rows = [] := by
    rw [← List.length_eq_zero_iff, t.ordered_perm.length_eq, List.length_eq_zero_iff]
  simp only [canBaseline, Bool.or_eq_true, Bool.and_eq_true, Bool.not_eq_true', List.isEmpty_iff,
    List.any_eq_false, Bool.not_eq_true, List.all_eq_true, beq_iff_eq, mem_ordered, hempty,
    and_assoc]

/-- The recheck under the lock finds exactly the histories that are replaced. -/
theorem canBaseline_iff : canBaseline m s.found = true ↔ Replaceable m s.table := by
  unfold Bookkeeping.found
  cases htable : s.table with
  | none => exact ⟨fun _ => .absent, fun _ => rfl⟩
  | some t =>
    change canBaseline m t.ordered = true ↔ _
    rw [canBaseline_ordered_iff]
    constructor
    · -- It is empty, or has the versions of the legacy migrations, or the consolidated one alone.
      rintro (hempty | ⟨hcurrent, hsuccess, hversions | ⟨hversions, hdescriptions⟩⟩)
      · exact .empty hempty
      · exact .legacy hsuccess ((ordered_versions_eq_iff (by decide)).mp hversions) hcurrent
      · obtain ⟨row, hrow⟩ := List.length_eq_one_iff.mp
          ((List.length_map _).symm.trans (congrArg List.length hversions))
        have hrows : t.rows = [row] := List.perm_singleton.mp (hrow ▸ t.ordered_perm.symm)
        have hmem : row ∈ t.rows := hrows ▸ List.mem_singleton_self row
        rw [hrow] at hversions hdescriptions
        obtain ⟨version, description, success, checksum⟩ := row
        obtain rfl : version = m.version := List.singleton_inj.mp hversions
        obtain rfl : description = m.description := List.singleton_inj.mp hdescriptions
        obtain rfl : success = true := hsuccess _ hmem
        have hchecksum : checksum ≠ m.checksum := by
          have hnot := hcurrent _ hmem
          simpa [MigrationRow.isCurrent] using hnot
        exact .consolidated hchecksum hrows
    · intro h
      cases h with
      | empty h => exact .inl h
      | legacy hsuccess hversions hcurrent =>
        exact .inr ⟨hcurrent, hsuccess, .inl ((ordered_versions_eq_iff (by decide)).mpr hversions)⟩
      | consolidated hchecksum h =>
        have hordered : t.ordered = t.rows := by
          rw [MigrationTable.ordered, h, List.mergeSort_singleton]
        rw [hordered, h]
        refine .inr ⟨?_, ?_, .inr ⟨rfl, rfl⟩⟩
        · simpa [MigrationRow.isCurrent] using hchecksum
        · simp

/-- A table with the current row is not replaced. -/
theorem not_replaceable_of_hasApplied (h : s.hasApplied m = true) : ¬ Replaceable m s.table := by
  unfold Bookkeeping.hasApplied at h
  generalize s.table = table at h
  intro hreplaceable
  cases hreplaceable with
  | absent => cases h
  | empty hempty =>
    rw [Option.any_some, hempty] at h
    cases h
  | legacy _ _ hcurrent =>
    obtain ⟨row, hrow, hrow'⟩ := List.any_eq_true.mp h
    rw [hcurrent row hrow] at hrow'
    cases hrow'
  | consolidated hchecksum hrows =>
    rw [Option.any_some, hrows] at h
    simp [MigrationRow.isCurrent, hchecksum] at h

/-- A history that is replaced records the first version in another way, or has no row. -/
theorem Replaceable.cases_first {table : Option MigrationTable} (hm : m.version = 1)
    (h : Replaceable m table) : (∀ t, table = some t → t.rows = []) ∨
      ∃ t, table = some t ∧ ∃ row ∈ t.rows, row.version = m.version ∧ row.isCurrent m = false := by
  cases h with
  | absent => exact .inl nofun
  | empty h => exact .inl fun t ht => Option.some.inj ht ▸ h
  | legacy _ hversions hcurrent =>
    have hone : (1 : ℤ) ∈ legacyMigrationVersions := by decide
    obtain ⟨row, hrow, hversion⟩ := List.mem_map.mp (hversions.mem_iff.mpr hone)
    exact .inr ⟨_, rfl, row, hrow, hversion.trans hm.symm, hcurrent row hrow⟩
  | consolidated hchecksum hrows =>
    refine .inr ⟨_, rfl, _, hrows ▸ List.mem_singleton_self _, rfl, ?_⟩
    simp [MigrationRow.isCurrent, hchecksum]

end

/-! ## Settled databases -/

/-- There is nothing that a check and a baseline would replace. -/
def Settled (m : Migration) (s : Bookkeeping) : Prop :=
  s.isInitialized = true → ¬ Replaceable m s.table

section

variable {m : Migration} {migrator : Migrator m} {s s' : Bookkeeping} {op : MigrateOp}
  {reply : Except MigrateError op.Reply}

/-- A baseline replaces the table, or leaves it as it is. -/
theorem baselined_eq (s : Bookkeeping) : (Replaceable m s.table ∧
    s.baselined m = some (baselineTable m)) ∨
      ¬ Replaceable m s.table ∧ s.baselined m = s.table := by
  unfold Bookkeeping.baselined
  rw [← canBaseline_iff]
  split
  · next h => exact .inl ⟨h, rfl⟩
  · next h => exact .inr ⟨h, rfl⟩

/-- No statement of a process but those of its migrator changes anything except to make the
baseline. -/
theorem MigrateStep.table (h : MigrateStep m migrator op s reply s') (hop : op ≠ .applyMigration) :
    s'.instanceSettings = s.instanceSettings ∧ s'.schemaComplete = s.schemaComplete ∧
      (s'.table = s.table ∨ op = .baselineMigration ∧ Replaceable m s.table ∧
        s'.table = some (baselineTable m)) := by
  cases h with
  | applyMigration => exact absurd rfl hop
  | baselineMigration =>
    refine ⟨rfl, rfl, ?_⟩
    rcases baselined_eq (m := m) s with ⟨hreplaceable, h⟩ | ⟨-, h⟩
    · exact .inr ⟨rfl, hreplaceable, h⟩
    · exact .inl h
  | _ => exact ⟨rfl, rfl, .inl rfl⟩

/-- The schema stays. -/
theorem MigrateStep.keepsSchema (h : MigrateStep m migrator op s reply s') :
    (s.instanceSettings = true → s'.instanceSettings = true) ∧
      (s.schemaComplete = true → s'.schemaComplete = true) := by
  by_cases hop : op = .applyMigration
  · subst hop
    cases h with
    | fault => exact ⟨id, id⟩
    | applyMigration h => exact migrator.keepsSchema h
  · obtain ⟨hsettings, hcomplete, -⟩ := h.table hop
    exact ⟨fun h => hsettings ▸ h, fun h => hcomplete ▸ h⟩

/-- The table of a baseline is not replaced. -/
theorem not_replaceable_baselineTable : ¬ Replaceable m (some (baselineTable m)) := by
  have happlied : (Bookkeeping.mk (some (baselineTable m)) true true).hasApplied m = true := by
    simp [Bookkeeping.hasApplied, baselineTable, isCurrent_baselineRow]
  exact not_replaceable_of_hasApplied happlied

/-- Whatever the migrator adds, a settled database stays settled. -/
theorem Migrator.settled (hm : m.version = 1) (h : migrator.applies s s') (hs : Settled m s) :
    Settled m s' := by
  intro hinitialized hreplaceable
  cases hbefore : s.isInitialized with
  | false =>
    exact not_replaceable_of_hasApplied (migrator.initializes h hbefore hinitialized) hreplaceable
  | true =>
    refine hs hbefore ?_
    cases htable : s.table with
    | none => exact .absent
    | some t =>
      obtain ⟨t', htable', hrows⟩ := migrator.keepsRows h htable
      rcases hreplaceable.cases_first hm with hempty | ⟨t'', ht'', row, hrow, hversion, hcurrent⟩
      · refine .empty (List.eq_nil_iff_forall_not_mem.mpr fun row hrow => ?_)
        have hmem := hrows row hrow
        rw [hempty t' htable'] at hmem
        cases hmem
      · -- The row of the first version was there before, so the migrator has stopped.
        rcases migrator.onlyLater h ht'' row hrow hversion with ⟨t₀, ht₀, hrow₀⟩ | hnow
        · obtain rfl := Option.some.inj (htable.symm.trans ht₀)
          have hstop := migrator.stops h htable ⟨row, hrow₀, hversion, hcurrent⟩
          rw [← htable, ← hstop]
          exact hreplaceable
        · rw [hcurrent] at hnow
          cases hnow

/-- No operation changes a table that is settled. -/
theorem MigrateStep.settled (hm : m.version = 1) (h : MigrateStep m migrator op s reply s')
    (hs : Settled m s) : Settled m s' := by
  by_cases hop : op = .applyMigration
  · subst hop
    cases h with
    | fault => exact hs
    | applyMigration h => exact Migrator.settled hm h hs
  · obtain ⟨hsettings, hcomplete, htable⟩ := h.table hop
    intro hinitialized
    unfold Bookkeeping.isInitialized at hinitialized
    rw [hsettings, hcomplete] at hinitialized
    rcases htable with htable | ⟨-, -, htable⟩
    · rw [htable]
      exact hs hinitialized
    · rw [htable]
      exact not_replaceable_baselineTable

end

/-! ## The check -/

/-- Whether the unlocked check takes a history for one that is replaced. -/
def isOldHistory (m : Migration) (versions : List ℤ) (descriptions : List String)
    (allSuccess : Bool) : Bool :=
  allSuccess && versions == legacyMigrationVersions ||
    allSuccess && versions == [m.version] && descriptions == [m.description] ||
      allSuccess && versions.isEmpty

section

variable {m : Migration} {migrator : Migrator m} {s s' : Bookkeeping} {calls : List MigrateCall}

/-- What a finished check of the table has asked and answers. -/
theorem ends_migrationTableState {r : Bool × Bool}
    (h : Ends (migrationTableState m) calls (.ok r)) :
    calls = [⟨.migrationTableExists, .ok false⟩] ∧ r = (false, false) ∨
      ∃ (current : Bool) (versions : List ℤ) (descriptions : List String) (allSuccess : Bool),
        calls = [⟨.migrationTableExists, .ok true⟩, ⟨.currentApplied, .ok current⟩,
          ⟨.history, .ok (versions, descriptions, allSuccess)⟩] ∧
        r = (true, isOldHistory m versions descriptions allSuccess && !current) := by
  rcases ends_andThen_iff.mp h with ⟨calls₁, exists_, rest, h₁, hrest, rfl⟩ | ⟨e, -, he⟩
  swap
  · cases he
  obtain rfl := ends_perform_iff.mp h₁
  cases exists_ with
  | false =>
    obtain ⟨rfl, hr⟩ := ends_done_iff.mp hrest
    exact .inl ⟨rfl, Except.ok.inj hr⟩
  | true =>
    rcases ends_andThen_iff.mp hrest with ⟨calls₂, current, last, h₂, hlast, rfl⟩ | ⟨e, -, he⟩
    swap
    · cases he
    obtain rfl := ends_perform_iff.mp h₂
    rcases ends_andThen_iff.mp hlast with ⟨calls₃, history, _, h₃, hdone, rfl⟩ | ⟨e, -, he⟩
    swap
    · cases he
    obtain rfl := ends_perform_iff.mp h₃
    obtain ⟨versions, descriptions, allSuccess⟩ := history
    obtain ⟨rfl, hr⟩ := ends_done_iff.mp hdone
    exact .inr ⟨current, versions, descriptions, allSuccess, rfl, Except.ok.inj hr⟩

/-- On the rows of one table, the unlocked check and the recheck agree. -/
theorem isOldHistory_found (m : Migration) (s : Bookkeeping) :
    (isOldHistory m (s.found.map (·.version)) (s.found.map (·.description))
      (s.found.all (·.success)) && !s.hasApplied m) = canBaseline m s.found := by
  have happlied : s.hasApplied m = s.found.any (·.isCurrent m) := by
    unfold Bookkeeping.hasApplied Bookkeeping.found
    cases s.table with
    | none => rfl
    | some t => exact (t.ordered_perm.any_eq).symm
  rw [happlied]
  cases hrows : s.found with
  | nil => rfl
  | cons row rows =>
    rw [isOldHistory, canBaseline]
    simp only [List.map_cons, List.isEmpty_cons, Bool.and_false, Bool.or_false, Bool.false_or]
    cases List.all (row :: rows) (·.success) <;> cases List.any (row :: rows) (·.isCurrent m) <;>
      simp

/-- The answer says whether there is a table. -/
theorem MigrateStep.exists_eq {b : Bool}
    (h : MigrateStep m migrator .migrationTableExists s (.ok b) s') :
    b = s.table.isSome ∧ s' = s := by
  cases h
  exact ⟨rfl, rfl⟩

/-- The answer says whether the current migration is applied. -/
theorem MigrateStep.current_eq {b : Bool}
    (h : MigrateStep m migrator .currentApplied s (.ok b) s') : b = s.hasApplied m ∧ s' = s := by
  cases h
  exact ⟨rfl, rfl⟩

/-- The answer has the rows that were found. -/
theorem MigrateStep.history_eq {r : List ℤ × List String × Bool}
    (h : MigrateStep m migrator .history s (.ok r) s') :
    r = (s.found.map (·.version), s.found.map (·.description), s.found.all (·.success)) ∧
      s' = s := by
  cases h
  exact ⟨rfl, rfl⟩

/-- The answer says whether there are settings. -/
theorem MigrateStep.settings_eq {b : Bool}
    (h : MigrateStep m migrator .instanceSettingsExists s (.ok b) s') :
    b = s.instanceSettings ∧ s' = s := by
  cases h
  exact ⟨rfl, rfl⟩

/-- The answer says whether the schema is complete. -/
theorem MigrateStep.complete_eq {b : Bool}
    (h : MigrateStep m migrator .schemaComplete s (.ok b) s') :
    b = s.schemaComplete ∧ s' = s := by
  cases h
  exact ⟨rfl, rfl⟩

/-- The unlocked check, made on one content of the table, decides as the recheck does. -/
theorem classified {e needsBaseline : Bool}
    (h : Ends (migrationTableState m) calls (.ok (e, needsBaseline)))
    (hsteps : ∀ c ∈ calls, ∃ t, MigrateStep m migrator c.op s c.reply t) :
    (!e || needsBaseline) = canBaseline m s.found := by
  rcases ends_migrationTableState h with ⟨rfl, hr⟩ |
    ⟨current, versions, descriptions, success, rfl, hr⟩
  · obtain ⟨t, hstep⟩ := hsteps _ List.mem_cons_self
    obtain ⟨rfl, rfl⟩ := Prod.mk.inj hr
    have hnone : s.table = none :=
      Option.isNone_iff_eq_none.mp (Option.isSome_eq_false_iff.mp hstep.exists_eq.1.symm)
    rw [Bookkeeping.found, hnone]
    rfl
  · obtain ⟨rfl, rfl⟩ := Prod.mk.inj hr
    obtain ⟨_, hcurrent⟩ := hsteps ⟨.currentApplied, .ok current⟩ (by simp)
    obtain ⟨_, hhistory⟩ := hsteps ⟨.history, .ok (versions, descriptions, success)⟩ (by simp)
    obtain ⟨rfl, -⟩ := hcurrent.current_eq
    obtain ⟨hhistory, -⟩ := hhistory.history_eq
    obtain ⟨rfl, hrest⟩ := Prod.mk.inj hhistory
    obtain ⟨rfl, rfl⟩ := Prod.mk.inj hrest
    exact isOldHistory_found m s

/-! ## A finished check -/

/-- A call after which the database is settled. -/
def Settles (migrator : Migrator m) (c : MigrateCall) : Prop :=
  ∀ t t', MigrateStep m migrator c.op t c.reply t' → Settled m t'

/-- A database without settings is settled. -/
theorem settles_settings : Settles migrator ⟨.instanceSettingsExists, .ok false⟩ := by
  intro t t' h hinitialized
  obtain ⟨hsettings, rfl⟩ := h.settings_eq
  rw [Bookkeeping.isInitialized, ← hsettings] at hinitialized
  cases hinitialized

/-- So is one whose schema is not complete. -/
theorem settles_complete : Settles migrator ⟨.schemaComplete, .ok false⟩ := by
  intro t t' h hinitialized
  obtain ⟨hcomplete, rfl⟩ := h.complete_eq
  rw [Bookkeeping.isInitialized, ← hcomplete, Bool.and_false] at hinitialized
  cases hinitialized

/-- After a baseline the database is settled. -/
theorem settles_baseline : Settles migrator ⟨.baselineMigration, .ok ()⟩ := by
  intro t t' h _
  cases h with
  | baselineMigration =>
    rcases baselined_eq (m := m) t with ⟨-, htable⟩ | ⟨hnot, htable⟩
    · exact fun h => not_replaceable_baselineTable (htable ▸ h)
    · exact fun h => hnot (htable ▸ h)

/-- A check that finds nothing to replace has seen it in one of its two queries, even when the rows
have changed between them. -/
theorem settles_of_check (migrator : Migrator m) {current : Bool} {versions : List ℤ}
    {descriptions : List String}
    {allSuccess : Bool}
    (h : (isOldHistory m versions descriptions allSuccess && !current) = false) :
    Settles migrator ⟨.currentApplied, .ok current⟩ ∨
      Settles migrator ⟨.history, .ok (versions, descriptions, allSuccess)⟩ := by
  cases current with
  | true =>
    refine .inl fun t t' hstep _ => ?_
    obtain ⟨happlied, rfl⟩ := hstep.current_eq
    exact not_replaceable_of_hasApplied happlied.symm
  | false =>
    refine .inr fun t t' hstep _ => ?_
    obtain ⟨hhistory, rfl⟩ := hstep.history_eq
    obtain ⟨rfl, hrest⟩ := Prod.mk.inj hhistory
    obtain ⟨rfl, rfl⟩ := Prod.mk.inj hrest
    rw [← canBaseline_iff, ← isOldHistory_found, Bool.not_eq_true, Bool.and_eq_false_iff]
    rw [Bool.not_false, Bool.and_true] at h
    exact .inl h

/-- What a finished check of the schema has asked and answers. -/
theorem ends_schemaIsInitialized {b : Bool} (h : Ends schemaIsInitialized calls (.ok b)) :
    calls = [⟨.instanceSettingsExists, .ok false⟩] ∧ b = false ∨
      calls = [⟨.instanceSettingsExists, .ok true⟩, ⟨.schemaComplete, .ok b⟩] := by
  rcases ends_andThen_iff.mp h with ⟨calls₁, settings, rest, h₁, hrest, rfl⟩ | ⟨e, -, he⟩
  swap
  · cases he
  obtain rfl := ends_perform_iff.mp h₁
  cases settings with
  | false =>
    obtain ⟨rfl, hb⟩ := ends_done_iff.mp hrest
    exact .inl ⟨rfl, Except.ok.inj hb⟩
  | true =>
    obtain rfl := ends_perform_iff.mp hrest
    exact .inr rfl

/-- A check that is finished has made a call after which the database is settled. -/
theorem exists_settles (migrator : Migrator m) (h : Ends (checkAndBaseline m) calls (.ok ())) :
    ∃ c ∈ calls, Settles migrator c := by
  rcases ends_andThen_iff.mp h with ⟨calls₁, state, rest, h₁, hrest, rfl⟩ | ⟨e, -, he⟩
  swap
  · cases he
  rcases ends_andThen_iff.mp hrest with ⟨calls₂, initialized, last, h₂, hlast, rfl⟩ | ⟨e, -, he⟩
  swap
  · cases he
  rcases ends_schemaIsInitialized h₂ with ⟨rfl, rfl⟩ | rfl
  · exact ⟨_, by simp, settles_settings⟩
  cases initialized with
  | false => exact ⟨⟨.schemaComplete, .ok false⟩, by simp, settles_complete⟩
  | true =>
    rcases ends_andThen_iff.mp hlast with ⟨calls₃, _, end_, h₃, hend, rfl⟩ | ⟨e, -, he⟩
    swap
    · cases he
    obtain rfl := ends_perform_iff.mp h₃
    by_cases hbaseline : (!state.1 || state.2) = true
    · rw [if_pos hbaseline] at hend
      obtain rfl := ends_perform_iff.mp hend
      exact ⟨⟨.baselineMigration, .ok ()⟩, List.mem_append_right _ (List.mem_append_right _
        (List.mem_append_right _ List.mem_cons_self)), settles_baseline⟩
    · rcases ends_migrationTableState h₁ with ⟨-, rfl⟩ |
        ⟨current, versions, descriptions, allSuccess, rfl, rfl⟩
      · exact absurd rfl hbaseline
      · rcases settles_of_check migrator (Bool.eq_false_iff.mpr hbaseline) with h | h
        · exact ⟨_, by simp, h⟩
        · exact ⟨_, by simp, h⟩

/-- Before the baseline, a process has seen that the schema is there. -/
def SeesSchema (before : List MigrateCall) (op : MigrateOp) : Prop :=
  op = .baselineMigration → (⟨.instanceSettingsExists, .ok true⟩ : MigrateCall) ∈ before ∧
    (⟨.schemaComplete, .ok true⟩ : MigrateCall) ∈ before

/-- The check baselines only after it has seen the schema. -/
theorem respects_checkAndBaseline : Respects SeesSchema [] (checkAndBaseline m) := by
  refine Respects.andThen ?_ fun calls state _ => Respects.andThen ?_ fun calls' b h => ?_
  · refine Respects.andThen (respects_perform (by nofun)) fun _ b _ => ?_
    cases b with
    | false => trivial
    | true =>
      refine Respects.andThen (respects_perform (by nofun)) fun _ _ _ => ?_
      exact Respects.andThen (respects_perform (by nofun)) fun _ _ _ => trivial
  · refine Respects.andThen (respects_perform (by nofun)) fun _ b _ => ?_
    cases b with
    | false => trivial
    | true => exact respects_perform (by nofun)
  · cases b with
    | false => trivial
    | true =>
      refine Respects.andThen (respects_perform (by nofun)) fun _ _ _ => ?_
      split
      · refine respects_perform fun _ => ?_
        rcases ends_schemaIsInitialized h with ⟨-, hb⟩ | rfl
        · cases hb
        · simp
      · trivial

/-- A start baselines only after it has seen the schema. -/
theorem respects_migrate {n : ℕ} : Respects SeesSchema [] (migrate m n) := by
  refine respects_checkAndBaseline.andThen fun calls _ _ => ?_
  generalize [] ++ calls = before
  induction List.range n generalizing before with
  | nil => trivial
  | cons _ _ ih => exact (respects_perform (by nofun)).andThen fun _ _ _ => ih _

end

/-! ## Runs of several processes -/

/-- The table that a check and a baseline leave: one row for a history that is replaced, when the
schema of the application is there, and the same table otherwise. -/
def Reconciled (m : Migration) (s : Bookkeeping) (table : Option MigrationTable) : Prop :=
  (s.isInitialized = true ∧ Replaceable m s.table ∧ table = some (baselineTable m)) ∨
    ¬ (s.isInitialized = true ∧ Replaceable m s.table) ∧ table = s.table

section

variable {m : Migration} {migrator : Migrator m} {ι : Type} [DecidableEq ι] {n : ι → ℕ}
  {s t : Bookkeeping} {before after : List (ι × MigrateCall)} {c : ι × MigrateCall}

/-- When a process makes the baseline, the schema is there. -/
theorem isInitialized_of_baseline {s' : Bookkeeping}
    (h : Interleaves (MigrateStep m migrator) (fun i => migrate m (n i)) s
      (before ++ c :: after) s')
    (ht : Performs (MigrateStep m migrator) s (before.map Prod.snd) t)
    (hop : c.2.op = .baselineMigration) : t.isInitialized = true := by
  obtain ⟨y, hy⟩ := h.after c.1
  have hcalls : callsOf c.1 (before ++ c :: after) =
      callsOf c.1 before ++ c.2 :: callsOf c.1 after := by
    rw [callsOf_append, callsOf, callsOf, List.filterMap_cons, if_pos rfl]
    rfl
  rw [hcalls] at hy
  obtain ⟨hsettings, hcomplete⟩ := respects_migrate.of_after hy hop
  have hmem : ∀ {d}, d ∈ callsOf c.1 before → d ∈ before.map Prod.snd := fun hd =>
    List.mem_map_of_mem (f := Prod.snd) (mem_of_mem_callsOf hd)
  have hsettings' : t.instanceSettings = true :=
    ht.of_mem (P := fun s => s.instanceSettings = true) (fun _ _ _ _ hstep => hstep.keepsSchema.1)
      (hmem hsettings) fun _ _ hstep => by
        obtain ⟨hb, rfl⟩ := hstep.settings_eq
        exact hb.symm
  have hcomplete' : t.schemaComplete = true :=
    ht.of_mem (P := fun s => s.schemaComplete = true) (fun _ _ _ _ hstep => hstep.keepsSchema.2)
      (hmem hcomplete) fun _ _ hstep => by
        obtain ⟨hb, rfl⟩ := hstep.complete_eq
        exact hb.symm
  rw [Bookkeeping.isInitialized, hsettings', hcomplete']
  rfl

/-- Without the migrator, the table is left or replaced once. -/
theorem performs_table {calls : List MigrateCall} (h : Performs (MigrateStep m migrator) s calls t)
    (hcalls : ∀ c ∈ calls, c.op ≠ .applyMigration) :
    t.isInitialized = s.isInitialized ∧ (t.table = s.table ∨
      (∃ c ∈ calls, c.op = .baselineMigration) ∧ Replaceable m s.table ∧
        t.table = some (baselineTable m)) := by
  induction h with
  | nil => exact ⟨rfl, .inl rfl⟩
  | cons hstep _ ih =>
    obtain ⟨hop, hrest⟩ := List.forall_mem_cons.mp hcalls
    obtain ⟨hinitialized, htable⟩ := ih hrest
    obtain ⟨hsettings, hcomplete, hchange⟩ := hstep.table hop
    refine ⟨?_, ?_⟩
    · rw [hinitialized, Bookkeeping.isInitialized, hsettings, hcomplete]
      rfl
    · rcases hchange with hsame | ⟨hbaseline, hreplaceable, hnew⟩
      · rw [hsame] at htable
        rcases htable with htable | ⟨⟨c, hc, hcop⟩, htable⟩
        · exact .inl htable
        · exact .inr ⟨⟨c, List.mem_cons_of_mem _ hc, hcop⟩, htable⟩
      · refine .inr ⟨⟨_, List.mem_cons_self, hbaseline⟩, hreplaceable, ?_⟩
        rw [hnew] at htable
        rcases htable with htable | ⟨-, hreplaceable, -⟩
        · exact htable
        · exact absurd hreplaceable not_replaceable_baselineTable

/-- After a process has finished its check, the database is settled. -/
theorem settled_of_finished (hm : m.version = 1) {i : ι}
    (ht : Performs (MigrateStep m migrator) s (before.map Prod.snd) t)
    (hfinished : Ends (checkAndBaseline m) (callsOf i before) (.ok ())) : Settled m t := by
  obtain ⟨c, hc, hsettles⟩ := exists_settles migrator hfinished
  exact ht.of_mem (fun _ _ _ _ hstep => hstep.settled hm)
    (List.mem_map_of_mem (f := Prod.snd) (mem_of_mem_callsOf hc)) hsettles

end

/-- What holds of a run of some processes. -/
structure BaselinesSafely {m : Migration} (migrator : Migrator m) {ι : Type} [DecidableEq ι]
    (s : Bookkeeping) (run : List (ι × MigrateCall)) : Prop where
  /-- On one content of the table, the unlocked check and the recheck both find exactly the
  histories that are replaced. -/
  classifies : ∀ {t calls e needsBaseline},
    Ends (migrationTableState m) calls (.ok (e, needsBaseline)) →
      (∀ c ∈ calls, ∃ t', MigrateStep m migrator c.op t c.reply t') →
        ((!e || needsBaseline) = true ↔ Replaceable m t.table) ∧
          (canBaseline m t.found = true ↔ Replaceable m t.table)
  /-- A step that is not the migrator's leaves the rows, or it replaces all of them while the schema
  is there. -/
  replaces : ∀ {before c after t t'}, run = before ++ c :: after →
    Performs (MigrateStep m migrator) s (before.map Prod.snd) t →
      MigrateStep m migrator c.2.op t c.2.reply t' → c.2.op ≠ .applyMigration →
        t'.table = t.table ∨ t.isInitialized = true ∧ Replaceable m t.table ∧
          t'.table = some (baselineTable m)
  /-- Where a process has finished its check and no migrator has run, the rows are replaced exactly
  when they had to be. -/
  reconciles : ∀ {before after t i}, run = before ++ after →
    Performs (MigrateStep m migrator) s (before.map Prod.snd) t →
      Ends (checkAndBaseline m) (callsOf i before) (.ok ()) →
        (∀ c ∈ before, c.2.op ≠ .applyMigration) → Reconciled m s t.table
  /-- Once a process has finished its check, no check or baseline of any process changes
  anything. -/
  idempotent : ∀ {before middle c after t t' i}, run = before ++ middle ++ c :: after →
    Ends (checkAndBaseline m) (callsOf i before) (.ok ()) →
      Performs (MigrateStep m migrator) s ((before ++ middle).map Prod.snd) t →
        MigrateStep m migrator c.2.op t c.2.reply t' → c.2.op ≠ .applyMigration →
          t'.table = t.table

/-- Several processes start at once, from any bookkeeping: their checks and baselines are safe, in
every order of their steps and those of their migrators. -/
theorem baselining_safe {checksum : List UInt8} (migrator : Migrator (initMigration checksum))
    {ι : Type} [DecidableEq ι] {n : ι → ℕ} {s s' : Bookkeeping} {run : List (ι × MigrateCall)}
    (h : Interleaves (MigrateStep (initMigration checksum) migrator)
      (fun i => migrate (initMigration checksum) (n i)) s run s') :
    BaselinesSafely migrator s run where
  classifies hends hsteps := by
    rw [classified hends hsteps]
    exact ⟨canBaseline_iff, canBaseline_iff⟩
  replaces := by
    rintro before c after t t' rfl ht hstep hop
    rcases (hstep.table hop).2.2 with hsame | ⟨hbaseline, hreplaceable, hnew⟩
    · exact .inl hsame
    · exact .inr ⟨isInitialized_of_baseline h ht hbaseline, hreplaceable, hnew⟩
  reconciles := by
    rintro before after t i rfl ht hfinished hcalls
    obtain ⟨hinitialized, htable⟩ := performs_table ht fun c hc => by
      obtain ⟨d, hd, rfl⟩ := List.mem_map.mp hc
      exact hcalls d hd
    -- The process must baseline: it did, or it finished on a table that is not to be replaced.
    by_cases hmust : s.isInitialized = true ∧ Replaceable (initMigration checksum) s.table
    · refine .inl ⟨hmust.1, hmust.2, ?_⟩
      rcases htable with hsame | ⟨-, -, hnew⟩
      · have hsettled := settled_of_finished rfl ht hfinished (hinitialized.trans hmust.1)
        exact absurd (hsame ▸ hmust.2) hsettled
      · exact hnew
    · refine .inr ⟨hmust, ?_⟩
      rcases htable with hsame | ⟨⟨_, hc, hop⟩, hreplaceable, -⟩
      · exact hsame
      · obtain ⟨c, hmem, rfl⟩ := List.mem_map.mp hc
        obtain ⟨first, rest, rfl⟩ := List.append_of_mem hmem
        rw [List.append_assoc, List.cons_append] at h
        rw [List.map_append] at ht
        obtain ⟨t₁, ht₁, -⟩ := performs_append_iff.mp ht
        have hfirst := (performs_table ht₁ fun c hc => by
          obtain ⟨d, hd, rfl⟩ := List.mem_map.mp hc
          exact hcalls d (List.mem_append_left _ hd)).1
        exact absurd ⟨hfirst.symm.trans (isInitialized_of_baseline h ht₁ hop), hreplaceable⟩ hmust
  idempotent := by
    rintro before middle c after t t' i rfl hfinished ht hstep hop
    rcases (hstep.table hop).2.2 with hsame | ⟨hbaseline, hreplaceable, -⟩
    · exact hsame
    · have hinitialized := isInitialized_of_baseline h ht hbaseline
      rw [List.map_append] at ht
      obtain ⟨t₁, ht₁, hmiddle⟩ := performs_append_iff.mp ht
      -- Once the bookkeeping is settled, every step of every process keeps it so.
      have hsettled : Settled (initMigration checksum) t :=
        hmiddle.preserves (fun _ _ _ _ hstep => hstep.settled rfl)
          (settled_of_finished rfl ht₁ hfinished)
      exact absurd hreplaceable (hsettled hinitialized)

/-! ## Examples -/

/-- A migrator that adds one later version, once the first version is applied. -/
def laterMigrator (m later : Migration) : Migrator m where
  applies s s' := ∃ t, s.table = some t ∧ s.hasApplied m = true ∧ s.isInitialized = true ∧
    ∃ t' : MigrationTable, s' = { s with table := some t' } ∧
      t'.rows = t.rows ++ [⟨later.version, later.description, true, later.checksum⟩] ∧
        m.version < later.version
  keepsSchema := by
    rintro s s' ⟨t, -, -, -, t', rfl, -⟩
    exact ⟨id, id⟩
  keepsRows := by
    rintro s s' t₀ ⟨t, ht, -, -, t', rfl, hrows, -⟩ ht₀
    obtain rfl := Option.some.inj (ht.symm.trans ht₀)
    exact ⟨t', rfl, fun row hrow => hrows ▸ List.mem_append_left _ hrow⟩
  onlyLater := by
    rintro s s' t'' ⟨t, ht, -, -, t', rfl, hrows, hlater⟩ ht'' row hrow hversion
    obtain rfl := Option.some.inj ht''
    rw [hrows] at hrow
    rcases List.mem_append.mp hrow with hrow | hrow
    · exact .inl ⟨t, ht, hrow⟩
    · obtain rfl := List.mem_singleton.mp hrow
      exact absurd hversion (ne_of_gt hlater)
  stops := by
    rintro s s' t₀ ⟨t, ht, happlied, -, t', rfl, hrows, -⟩ ht₀ ⟨row, hrow, hversion, hcurrent⟩
    obtain rfl := Option.some.inj (ht.symm.trans ht₀)
    rw [Bookkeeping.hasApplied, ht] at happlied
    obtain ⟨row', hrow', hcurrent'⟩ := List.any_eq_true.mp happlied
    have hversion' : row'.version = m.version := by
      rw [MigrationRow.isCurrent, Bool.and_eq_true, Bool.and_eq_true, beq_iff_eq] at hcurrent'
      exact hcurrent'.1.1
    obtain rfl := List.inj_on_of_nodup_map t.primaryKey hrow hrow' (hversion.trans hversion'.symm)
    rw [hcurrent] at hcurrent'
    cases hcurrent'
  initializes := by
    rintro s s' ⟨t, -, -, hinitialized, -⟩ hnot
    rw [hinitialized] at hnot
    cases hnot

/-- The first migration with some checksum. -/
def sampleInit : Migration := initMigration [7]

/-- An earlier consolidated history. -/
def oldBookkeeping : Bookkeeping :=
  ⟨some ⟨[⟨1, "init", true, [0]⟩], List.nodup_singleton _⟩, true, true⟩

/-- Two processes check at once, and both make the baseline. -/
def twoStarts : List (Bool × MigrateCall) :=
  [(false, ⟨.migrationTableExists, .ok true⟩), (false, ⟨.currentApplied, .ok false⟩),
    (true, ⟨.migrationTableExists, .ok true⟩), (true, ⟨.currentApplied, .ok false⟩),
    (false, ⟨.history, .ok ([1], ["init"], true)⟩), (true, ⟨.history, .ok ([1], ["init"], true)⟩),
    (false, ⟨.instanceSettingsExists, .ok true⟩), (false, ⟨.schemaComplete, .ok true⟩),
    (true, ⟨.instanceSettingsExists, .ok true⟩), (true, ⟨.schemaComplete, .ok true⟩),
    (false, ⟨.ensureReauthNonceSchema, .ok ()⟩), (true, ⟨.ensureReauthNonceSchema, .ok ()⟩),
    (false, ⟨.baselineMigration, .ok ()⟩), (true, ⟨.baselineMigration, .ok ()⟩)]

/-- Two processes may start like this. -/
theorem interleaves_twoStarts (migrator : Migrator sampleInit) :
    Interleaves (MigrateStep sampleInit migrator) (fun _ : Bool => migrate sampleInit 0)
      oldBookkeeping twoStarts
        { oldBookkeeping with table := some (baselineTable sampleInit) } := by
  have hfound : oldBookkeeping.found = [⟨1, "init", true, [0]⟩] := List.mergeSort_singleton _
  have hhistory : MigrateStep sampleInit migrator .history oldBookkeeping
      (.ok ([1], ["init"], true)) oldBookkeeping := by
    have h : MigrateStep sampleInit migrator .history oldBookkeeping _ _ := .history oldBookkeeping
    rwa [hfound] at h
  have hfirst : MigrateStep sampleInit migrator .baselineMigration oldBookkeeping (.ok ())
      { oldBookkeeping with table := some (baselineTable sampleInit) } := by
    have h : MigrateStep sampleInit migrator .baselineMigration oldBookkeeping _ _ :=
      .baselineMigration oldBookkeeping
    have hcan : canBaseline sampleInit oldBookkeeping.found = true := by
      rw [hfound]
      decide
    rwa [Bookkeeping.baselined, if_pos hcan] at h
  have hsecond : MigrateStep sampleInit migrator .baselineMigration
      { oldBookkeeping with table := some (baselineTable sampleInit) } (.ok ())
      { oldBookkeeping with table := some (baselineTable sampleInit) } := by
    have h : MigrateStep sampleInit migrator .baselineMigration
      { oldBookkeeping with table := some (baselineTable sampleInit) } _ _ := .baselineMigration _
    rcases baselined_eq (m := sampleInit)
      { oldBookkeeping with table := some (baselineTable sampleInit) } with ⟨hnot, -⟩ | ⟨-, hsame⟩
    · exact absurd hnot not_replaceable_baselineTable
    · rwa [hsame] at h
  refine ⟨?_, fun i => ?_⟩
  · exact .cons (.migrationTableExists _) <| .cons (.currentApplied _) <|
      .cons (.migrationTableExists _) <| .cons (.currentApplied _) <| .cons hhistory <|
      .cons hhistory <| .cons (.instanceSettingsExists _) <| .cons (.schemaComplete _) <|
      .cons (.instanceSettingsExists _) <| .cons (.schemaComplete _) <|
      .cons (.ensureReauthNonceSchema _) <| .cons (.ensureReauthNonceSchema _) <|
      .cons hfirst <| .cons hsecond .nil
  · cases i <;>
      exact ⟨_, .call <| .call <| .call <| .call <| .call <| .call <| .call .start⟩

/-- The migrator with the next migration. -/
def sampleMigrator : Migrator sampleInit :=
  laterMigrator sampleInit ⟨2, "admin restore select grant", [8]⟩

/-- Two processes that start at once from an earlier consolidated history. -/
theorem baselining_safe_twoStarts : BaselinesSafely sampleMigrator oldBookkeeping twoStarts :=
  baselining_safe sampleMigrator (interleaves_twoStarts sampleMigrator)

/-- The legacy list of versions, with the checksum of the first migration as it is now. -/
def legacyRows : List MigrationRow := legacyMigrationVersions.map fun v => ⟨v, "init", true, [7]⟩

/-- A database with the legacy versions. -/
def legacyBookkeeping : Bookkeeping := ⟨some ⟨legacyRows, by decide⟩, true, true⟩

/-- The legacy list with this checksum is not replaced, although all its migrations have succeeded
and the schema is there. -/
theorem legacy_kept :
    legacyBookkeeping.isInitialized = true ∧ (∀ row ∈ legacyRows, row.success = true) ∧
      legacyRows.map (·.version) = legacyMigrationVersions ∧
      ∃ calls, Ends (checkAndBaseline sampleInit) calls (.ok ()) ∧
        Performs (MigrateStep sampleInit sampleMigrator) legacyBookkeeping calls legacyBookkeeping ∧
        legacyBookkeeping.table ≠ some (baselineTable sampleInit) := by
  have hfound : legacyBookkeeping.found = legacyRows := by
    refine List.mergeSort_of_pairwise ?_
    decide
  have hhistory : MigrateStep sampleInit sampleMigrator .history legacyBookkeeping
      (.ok (legacyRows.map (·.version), legacyRows.map (·.description),
        legacyRows.all (·.success))) legacyBookkeeping := by
    have h : MigrateStep sampleInit sampleMigrator .history legacyBookkeeping _ _ :=
      .history legacyBookkeeping
    rwa [hfound] at h
  refine ⟨rfl, by decide, by decide,
    [⟨.migrationTableExists, .ok true⟩, ⟨.currentApplied, .ok true⟩,
      ⟨.history, .ok (legacyRows.map (·.version), legacyRows.map (·.description),
        legacyRows.all (·.success))⟩, ⟨.instanceSettingsExists, .ok true⟩,
      ⟨.schemaComplete, .ok true⟩, ⟨.ensureReauthNonceSchema, .ok ()⟩], ?_, ?_, ?_⟩
  · exact .call <| .call <| .call <| .call <| .call <| .call .start
  · exact .cons (.migrationTableExists _) <| .cons (.currentApplied _) <| .cons hhistory <|
      .cons (.instanceSettingsExists _) <| .cons (.schemaComplete _) <|
      .cons (.ensureReauthNonceSchema _) .nil
  · intro h
    have hlength := congrArg (fun t : Option MigrationTable => t.elim 0 (·.rows.length)) h
    revert hlength
    decide

end Baselining

end TaskTipsCloud

import TaskTipsCloud.Grants
import TaskTipsCloud.Library.Selections

/-!
# Retention of authentication failures

`prune_old_auth_failures` of `crates/persistence/src/lib.rs`, under the grants and policies of
`migrations/0001_init.sql` and `migrations/0003_auth_failure_audit.sql`. The statement selects the
oldest failures and deletes them. It reads the columns of `audit_events`, for which a role needs the
privilege to select and a policy that shows the rows; the worker has neither.
-/

namespace TaskTipsCloud

namespace AuditRetention

/-- A row of `audit_events`. -/
structure AuditRow where
  id : ℤ
  actorUserId : Option Uuid
  action : String
  createdAt : Timestamp
  deriving DecidableEq, Repr

/-- The table of the audit events, with its primary key. -/
structure AuditEvents where
  rows : List AuditRow
  primaryKey : (rows.map (·.id)).Nodup

/-- The actions of authentication failures. -/
def failureActions : List String :=
  ["auth.login_failed", "auth.refresh_failed", "auth.reauth_failed"]

/-- The policies of `audit_events`. -/
def auditPolicies : List (RowPolicy DbSession AuditRow) :=
  [⟨none, fun session _ => session.appRole == some "system_admin"⟩,
    rolePolicy .admin,
    rolePolicy .auth,
    ⟨some .insert, fun session row =>
      row.actorUserId.isSome && row.actorUserId == session.appUserId⟩,
    ⟨some .insert, fun session _ => session.currentUser == .worker⟩,
    ⟨some .update, fun session _ => session.currentUser == .worker⟩,
    -- `0003_auth_failure_audit.sql`
    ⟨some .delete, fun session row =>
      session.currentUser == .worker && failureActions.contains row.action⟩]

/-- What the server lets a session do with `audit_events`. -/
structure AuditAccess where
  grants : List (Grant ServerRole DbTable)
  policies : List (RowPolicy DbSession AuditRow)

/-- The access that the migrations set up. -/
def migratedAccess : AuditAccess := ⟨TaskTipsCloud.grants, auditPolicies⟩

/-- A failure that is older than the retention. -/
def isExpired (now : Timestamp) (retentionDays : ℤ) (row : AuditRow) : Bool :=
  failureActions.contains row.action &&
    decide (row.createdAt < now - max retentionDays 1 * seconds (24 * 60 * 60))

/-- The rows that the statement selects among those that it sees. -/
def expiredRows (access : AuditAccess) (scan : Arrangement AuditRow) (now : Timestamp)
    (retentionDays limit : ℤ) (t : AuditEvents) : List AuditRow :=
  scan.oldest (·.createdAt) (max limit 1).toNat
    ((t.rows.filter (shows access.policies workerSession .select)).filter
      (isExpired now retentionDays))

/-- The rows that the statement deletes: those with a selected identifier that policies show it for
reading and for deleting. -/
def deletes (access : AuditAccess) (scan : Arrangement AuditRow) (now : Timestamp)
    (retentionDays limit : ℤ) (t : AuditEvents) (row : AuditRow) : Bool :=
  ((expiredRows access scan now retentionDays limit t).map (·.id)).contains row.id &&
    shows access.policies workerSession .select row &&
      shows access.policies workerSession .delete row

/-- Deletes expired failures and counts them, or is refused. -/
def pruneOldAuthFailures (access : AuditAccess) (scan : Arrangement AuditRow) (now : Timestamp)
    (retentionDays limit : ℤ) (t : AuditEvents) : Option ℕ × AuditEvents :=
  if mayRun access.grants .worker [(.auditEvents, .select), (.auditEvents, .delete)] then
    (some (t.rows.filter (deletes access scan now retentionDays limit t)).length,
      { rows := t.rows.filter fun row => !deletes access scan now retentionDays limit t row
        primaryKey := t.primaryKey.sublist (List.filter_sublist.map _) })
  else (none, t)

/-- A prune that ends without error has deleted exactly the oldest expired failures. -/
def PrunesExactly (now : Timestamp) (retentionDays limit : ℤ) (t : AuditEvents)
    (r : Option ℕ × AuditEvents) : Prop :=
  ∃ chosen, AreOldest (·.createdAt) (max limit 1).toNat
      (t.rows.filter (isExpired now retentionDays)) chosen ∧
    r.1 = some chosen.length ∧ r.2.rows = t.rows.filter (· ∉ chosen)

/-! ## What the access decides -/

section

variable {access : AuditAccess} {scan : Arrangement AuditRow} {now : Timestamp}
  {retentionDays limit : ℤ} {t : AuditEvents}

/-- Where the worker may read the failures, a prune deletes exactly the oldest expired ones. -/
theorem prunesExactly_of_access
    (hmay : mayRun access.grants .worker [(.auditEvents, .select), (.auditEvents, .delete)] = true)
    (hshows : ∀ row ∈ t.rows, isExpired now retentionDays row = true →
      shows access.policies workerSession .select row = true ∧
        shows access.policies workerSession .delete row = true) :
    PrunesExactly now retentionDays limit t
      (pruneOldAuthFailures access scan now retentionDays limit t) := by
  -- The worker sees all expired rows, so the scan chooses among them.
  have hseen : (t.rows.filter (shows access.policies workerSession .select)).filter
      (isExpired now retentionDays) = t.rows.filter (isExpired now retentionDays) := by
    rw [List.filter_filter]
    refine List.filter_congr fun row hrow => ?_
    rw [Bool.and_eq_left_iff_imp]
    exact fun hexpired => (hshows row hrow hexpired).1
  have holdest := scan.areOldest (·.createdAt) (max limit 1).toNat
    (t.rows.filter (isExpired now retentionDays))
  have hchosen : expiredRows access scan now retentionDays limit t =
      scan.oldest (·.createdAt) (max limit 1).toNat
        (t.rows.filter (isExpired now retentionDays)) := by
    unfold expiredRows
    rw [hseen]
  generalize scan.oldest (·.createdAt) (max limit 1).toNat
    (t.rows.filter (isExpired now retentionDays)) = chosen at holdest hchosen
  have hrows : ∀ row ∈ chosen, row ∈ t.rows ∧ isExpired now retentionDays row = true :=
    fun row hrow => List.mem_filter.mp (holdest.mem hrow)
  have hdeletes : ∀ row ∈ t.rows,
      deletes access scan now retentionDays limit t row = decide (row ∈ chosen) := by
    intro row hrow
    unfold deletes
    rw [hchosen, Bool.eq_iff_iff, decide_eq_true_eq]
    simp only [Bool.and_eq_true, List.contains_iff_mem, List.mem_map]
    constructor
    · rintro ⟨⟨⟨x, hx, hid⟩, -⟩, -⟩
      rwa [← List.inj_on_of_nodup_map t.primaryKey (hrows x hx).1 hrow hid]
    · exact fun hmem => ⟨⟨⟨row, hmem, rfl⟩, (hshows row hrow (hrows row hmem).2).1⟩,
        (hshows row hrow (hrows row hmem).2).2⟩
  refine ⟨chosen, holdest, ?_, ?_⟩
  · unfold pruneOldAuthFailures
    rw [if_pos hmay, List.filter_congr hdeletes]
    have hperm : (t.rows.filter fun row => decide (row ∈ chosen)).Perm chosen := by
      refine (List.perm_ext_iff_of_nodup (t.primaryKey.of_map.filter _) ?_).mpr fun row => ?_
      · exact holdest.nodup (t.primaryKey.of_map.filter _)
      · rw [List.mem_filter, decide_eq_true_eq]
        exact ⟨fun h => h.2, fun h => ⟨(hrows row h).1, h⟩⟩
    exact congrArg some hperm.length_eq
  · unfold pruneOldAuthFailures
    rw [if_pos hmay]
    refine List.filter_congr fun row hrow => ?_
    rw [hdeletes row hrow, decide_not]

/-- Without the privilege to select, a prune is refused whatever the table holds. -/
theorem pruneOldAuthFailures_of_lacks
    (hlacks : hasPrivilege access.grants .worker .auditEvents .select = false) :
    pruneOldAuthFailures access scan now retentionDays limit t = (none, t) := by
  have hrefused : mayRun access.grants .worker
      [(.auditEvents, .select), (.auditEvents, .delete)] = false :=
    not_mayRun List.mem_cons_self hlacks
  unfold pruneOldAuthFailures
  rw [hrefused]
  rfl

/-- A refused prune has not pruned. -/
theorem not_prunesExactly : ¬PrunesExactly now retentionDays limit t (none, t) := by
  rintro ⟨_, -, hcount, -⟩
  cases hcount

end

/-! ## The access of the migrations -/

/-- A call of the prune. -/
structure PruneCall where
  scan : Arrangement AuditRow
  now : Timestamp
  retentionDays : ℤ
  limit : ℤ

/-- The table after some calls under an access. -/
def afterCalls (access : AuditAccess) (calls : List PruneCall) (t : AuditEvents) : AuditEvents :=
  calls.foldl (fun t c => (pruneOldAuthFailures access c.scan c.now c.retentionDays c.limit t).2) t

/-- Under the grants of the migrations every prune is refused, for every content of the table, and
however often the worker calls it, the table stays as it is. -/
theorem prune_never (t : AuditEvents) :
    (∀ scan now retentionDays limit, ¬PrunesExactly now retentionDays limit t
      (pruneOldAuthFailures migratedAccess scan now retentionDays limit t)) ∧
    ∀ calls, afterCalls migratedAccess calls t = t := by
  have hlacks : hasPrivilege migratedAccess.grants .worker .auditEvents .select = false := by decide
  refine ⟨fun scan now retentionDays limit => ?_, fun calls => ?_⟩
  · rw [pruneOldAuthFailures_of_lacks hlacks]
    exact not_prunesExactly
  · unfold afterCalls
    induction calls with
    | nil => rfl
    | cons c calls ih =>
      rw [List.foldl_cons, pruneOldAuthFailures_of_lacks hlacks]
      exact ih

/-- One failed login of a hundred days ago. -/
def oldFailure : AuditEvents where
  rows := [⟨1, none, "auth.login_failed", 0⟩]
  primaryKey := List.nodup_singleton _

/-- The worker cannot delete it. -/
theorem oldFailure_not_pruned : ¬PrunesExactly (seconds (100 * 24 * 60 * 60)) 90 1000 oldFailure
    (pruneOldAuthFailures migratedAccess .stored (seconds (100 * 24 * 60 * 60)) 90 1000
      oldFailure) := by
  rw [pruneOldAuthFailures_of_lacks (by decide)]
  exact not_prunesExactly

/-- With the privilege and a policy to read the failures, it would. -/
example : (pruneOldAuthFailures
    ⟨⟨[.select], .auditEvents, .worker⟩ :: grants, rolePolicy .worker :: auditPolicies⟩ .stored
      (seconds (100 * 24 * 60 * 60)) 90 1000 oldFailure).1 = some 1 := by decide +kernel

end AuditRetention

end TaskTipsCloud

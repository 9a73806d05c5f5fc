import Mathlib

/-!
# Privileges and row security

A database server checks a statement twice: before it runs, the role of the session must have every
privilege that the statement needs on its tables, whatever the tables hold; while it runs, it sees
and changes only the rows that a policy shows for its command.
-/

namespace TaskTipsCloud

/-- A privilege on a table, which is also the command of a policy. -/
inductive Privilege where
  | select
  | insert
  | update
  | delete
  deriving DecidableEq, Repr

/-- Privileges on a table that a role has been granted. -/
structure Grant (ρ τ : Type) where
  privileges : List Privilege
  table : τ
  role : ρ

/-- A permissive policy of a table, for one command or for all. -/
structure RowPolicy (σ α : Type) where
  command : Option Privilege
  /-- Whether the policy admits a row in a session. -/
  admits : σ → α → Bool

section Grants

variable {ρ τ : Type} [DecidableEq ρ] [DecidableEq τ] {grants : List (Grant ρ τ)} {role : ρ}

/-- Whether a role has a privilege on a table. -/
def hasPrivilege (grants : List (Grant ρ τ)) (role : ρ) (table : τ) (privilege : Privilege) :
    Bool :=
  grants.any fun g => g.role == role && g.table == table && g.privileges.contains privilege

/-- Whether a role may run a statement that needs some privileges. -/
def mayRun (grants : List (Grant ρ τ)) (role : ρ) (needs : List (τ × Privilege)) : Bool :=
  needs.all fun need => hasPrivilege grants role need.1 need.2

/-- A statement may run when the role has every privilege that it needs. -/
theorem mayRun_iff {needs : List (τ × Privilege)} : mayRun grants role needs = true ↔
    ∀ need ∈ needs, hasPrivilege grants role need.1 need.2 = true :=
  List.all_eq_true

/-- A statement is refused for one privilege that its role lacks. -/
theorem not_mayRun {needs : List (τ × Privilege)} {need : τ × Privilege} (hneed : need ∈ needs)
    (hlacks : hasPrivilege grants role need.1 need.2 = false) :
    mayRun grants role needs = false := by
  refine Bool.eq_false_iff.mpr fun hmay => ?_
  rw [mayRun_iff.mp hmay need hneed] at hlacks
  cases hlacks

end Grants

/-- Whether a policy shows a row for a command. -/
def shows {σ α : Type} (policies : List (RowPolicy σ α)) (session : σ) (command : Privilege)
    (row : α) : Bool :=
  policies.any fun p => (p.command.isNone || p.command == some command) && p.admits session row

/-- A row is shown when a policy for the command admits it. -/
theorem shows_iff {σ α : Type} {policies : List (RowPolicy σ α)} {session : σ}
    {command : Privilege} {row : α} : shows policies session command row = true ↔
      ∃ p ∈ policies, (p.command = none ∨ p.command = some command) ∧
        p.admits session row = true := by
  simp [shows]

end TaskTipsCloud

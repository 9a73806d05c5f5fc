import TaskTipsCloud.Library.Like
import TaskTipsCloud.Library.Selections
import TaskTipsCloud.RestoreJobs

/-!
# Searches for projects

`like_pattern_literal` of `crates/api/src/routes.rs` and `admin_list_all_projects_page` of
`crates/persistence/src/lib.rs`. A term is escaped by the route, and the statement puts it between
two wildcards. The folding of letters is the one that the database uses for `ILIKE`.
-/

namespace TaskTipsCloud

open Txn

/-- The special characters of a pattern with `ESCAPE '\'`. -/
def sqlWildcards : Wildcards Char where
  many := '%'
  one := '_'
  escape := Char.ofNat 92
  many_ne_escape := by decide
  one_ne_escape := by decide

/-- Escapes the special characters of a term. -/
def likePatternLiteral (value : String) : String :=
  value.toList.foldl (fun escaped character =>
    (if character = '%' ∨ character = '_' ∨ character = Char.ofNat 92 then
      escaped.push (Char.ofNat 92) else escaped).push character) ""

/-- `'%' || $1 || '%'`. -/
def searchPattern (search : String) : String := "%" ++ search ++ "%"

/-- Whether the statement selects a project. -/
def selectsProject (fold : sqlWildcards.Folding) (search : Option String) (p : ProjectRow) :
    Option Bool :=
  match search with
  | none => some true
  | some search => do
    let byName ← sqlWildcards.ilike fold (searchPattern search).toList p.name.toList
    let byId ← sqlWildcards.ilike fold (searchPattern search).toList p.id.text.toList
    return byName || byId

/-- The rows that satisfy a condition, which may fail on a row. -/
def selectWhere {α : Type} (condition : α → Option Bool) : List α → Option (List α)
  | [] => some []
  | row :: rows => do
    let selected ← condition row
    let rest ← selectWhere condition rows
    return if selected then row :: rest else rest

/-- The order of the projects. -/
def projectOrder (p : ProjectRow) : ℤ ×ₗ ℕ := toLex (p.createdAt, p.id.toNat)

/-- A page of the selected projects, and whether there are more. -/
def projectsPage (limit offset : ℤ) (selected : List ProjectRow) : List ProjectRow × Bool :=
  let projects :=
    ((orderBy projectOrder selected).drop (max offset 0).toNat).take (limit + 1).toNat
  let hasMore := decide (limit < projects.length)
  (if hasMore then projects.dropLast else projects, hasMore)

/-- Lists a page of the projects of all accounts for an administrator. -/
def adminListAllProjectsPage (fold : sqlWildcards.Folding) (actorUserId : Uuid) (limit offset : ℤ)
    (search : Option String) : Tx (Except PersistenceError (List ProjectRow × Bool)) := do
  requireAdmin actorUserId
  let selected ← query fun d => selectWhere (selectsProject fold search) d.projects
  let selected ← orThrow (.database .invalidEscapeSequence) selected
  return .ok (projectsPage limit offset selected)

/-! ## Terms are taken literally -/

/-- The escaped term is the quoted term. -/
theorem toList_likePatternLiteral (value : String) :
    (likePatternLiteral value).toList = sqlWildcards.quote value.toList := by
  have hloop : ∀ (cs : List Char) (acc : String), (cs.foldl (fun escaped character =>
      (if character = '%' ∨ character = '_' ∨ character = Char.ofNat 92 then
        escaped.push (Char.ofNat 92) else escaped).push character) acc).toList =
        acc.toList ++ sqlWildcards.quote cs := by
    intro cs
    induction cs with
    | nil => simp [Wildcards.quote]
    | cons c cs ih =>
      intro acc
      rw [List.foldl_cons, ih, Wildcards.quote, Wildcards.quote, List.flatMap_cons]
      by_cases hc : c = '%' ∨ c = '_' ∨ c = Char.ofNat 92
      · have hspecial : sqlWildcards.isSpecial c = true := Wildcards.isSpecial_iff.mpr hc
        simp only [if_pos hc, hspecial, if_true, String.toList_push, List.append_assoc,
          List.cons_append, List.nil_append]
        rfl
      · have hliteral : sqlWildcards.isSpecial c = false :=
          Bool.eq_false_iff.mpr fun h => hc (Wildcards.isSpecial_iff.mp h)
        simp only [if_neg hc, hliteral, Bool.false_eq_true, if_false, String.toList_push,
          List.append_assoc]
  exact hloop value.toList ""

/-- A pattern is the quoted term between two wildcards. -/
theorem toList_searchPattern (value : String) :
    (searchPattern (likePatternLiteral value)).toList =
      sqlWildcards.many :: (sqlWildcards.quote value.toList ++ [sqlWildcards.many]) := by
  simp [searchPattern, toList_likePatternLiteral, sqlWildcards]

/-- A text matches the pattern of a term if and only if it contains the term, up to the case of
letters for `ILIKE`, and no term makes a pattern that ends in a lone escape. -/
theorem search_literal (fold : sqlWildcards.Folding) (s t : String) :
    sqlWildcards.like (searchPattern (likePatternLiteral s)).toList t.toList =
        some (decide (s.toList <:+: t.toList)) ∧
      sqlWildcards.ilike fold (searchPattern (likePatternLiteral s)).toList t.toList =
        some (decide (fold.text s.toList <:+: fold.text t.toList)) ∧
      sqlWildcards.isMalformed (searchPattern (likePatternLiteral s)).toList = false := by
  rw [toList_searchPattern]
  refine ⟨Wildcards.like_search _ _, Wildcards.ilike_search fold _ _, ?_⟩
  rw [Wildcards.isMalformed_cons sqlWildcards.many_ne_escape, Wildcards.isMalformed_quote_append]
  rfl

/-- A special character is in lower case. -/
theorem toLower_of_isSpecial {c : Char} (hc : sqlWildcards.isSpecial c = true) :
    [c.toLower] = [c] := by
  rcases Wildcards.isSpecial_iff.mp hc with rfl | rfl | rfl <;> rfl

/-- A letter in lower case comes after all special characters. -/
theorem isSpecial_toLower {c : Char} (hc : sqlWildcards.isSpecial c = false) :
    sqlWildcards.isSpecial c.toLower = false := by
  unfold Char.toLower
  split
  · rename_i hupper
    have hletter : 97 ≤ (c.val + 32).toNat := by
      have hle : 65 ≤ c.val.toNat := UInt32.le_iff_toNat_le.mp hupper.1
      have hle' : c.val.toNat ≤ 90 := UInt32.le_iff_toNat_le.mp hupper.2
      rw [UInt32.toNat_add]
      change 97 ≤ (c.val.toNat + 32) % 2 ^ 32
      omega
    refine Bool.eq_false_iff.mpr fun hspecial => ?_
    have hcodes : sqlWildcards.many.toNat ≤ 95 ∧ sqlWildcards.one.toNat ≤ 95 ∧
        sqlWildcards.escape.toNat ≤ 95 := by decide
    have hcode : (c.val + 32).toNat ≤ 95 := by
      rcases Wildcards.isSpecial_iff.mp hspecial with h | h | h
      · exact (congrArg Char.toNat h).trans_le hcodes.1
      · exact (congrArg Char.toNat h).trans_le hcodes.2.1
      · exact (congrArg Char.toNat h).trans_le hcodes.2.2
    omega
  · exact hc

/-- The folding of the ASCII letters to lower case. -/
def asciiLower : sqlWildcards.Folding where
  fold c := [c.toLower]
  special _ hc := toLower_of_isSpecial hc
  literal _ hc _ hd := List.mem_singleton.mp hd ▸ isSpecial_toLower hc

/-- A term with all special characters finds itself in any case, and nothing that its wildcards
would match. -/
theorem sampleTerm_literal :
    sqlWildcards.ilike asciiLower (searchPattern (likePatternLiteral "5%_\\A")).toList
        "x5%_\\ay".toList = some true ∧
      sqlWildcards.ilike asciiLower (searchPattern (likePatternLiteral "5%_\\A")).toList
        "x50%a\\ay".toList = some false := by
  rw [(search_literal asciiLower "5%_\\A" _).2.1, (search_literal asciiLower "5%_\\A" _).2.1]
  decide

/-- Whether the name or the identifier of a project contains a term. -/
def containsTerm (fold : sqlWildcards.Folding) (term : String) (p : ProjectRow) : Bool :=
  decide (fold.text term.toList <:+: fold.text p.name.toList) ||
    decide (fold.text term.toList <:+: fold.text p.id.text.toList)

/-- A condition that is decided selects the rows of which it holds. -/
theorem selectWhere_eq_filter {α : Type} {condition : α → Option Bool} {p : α → Bool}
    (h : ∀ row, condition row = some (p row)) (rows : List α) :
    selectWhere condition rows = some (rows.filter p) := by
  induction rows with
  | nil => rfl
  | cons row rows ih =>
    rw [selectWhere, h, ih, List.filter_cons]
    rfl

/-- An administrator who searches for a term sees a page of the projects that contain it. -/
theorem adminListAllProjectsPage_contains (fold : sqlWildcards.Folding) (actorUserId : Uuid)
    (limit offset : ℤ) (term : String) (d : Db) :
    (adminListAllProjectsPage fold actorUserId limit offset
        (some (likePatternLiteral term))).execute d =
      ((requireAdmin actorUserId).bind fun _ => .pure (.ok (projectsPage limit offset
        (d.projects.filter (containsTerm fold term))))).execute d := by
  have hterm : ∀ p, selectsProject fold (some (likePatternLiteral term)) p =
      some (containsTerm fold term p) := fun p => by
    rw [selectsProject, toList_searchPattern, Wildcards.ilike_search, Wildcards.ilike_search]
    rfl
  simp only [adminListAllProjectsPage, requireAdmin, Txn.execute, bind_eq, run_bind, query_bind,
    run_read, run_require]
  split
  · rename_i hadmin
    obtain rfl := (Prod.mk.inj hadmin).2
    simp only [selectWhere_eq_filter hterm, run_orThrow, Option.elim_some]
    rfl
  · rfl

end TaskTipsCloud

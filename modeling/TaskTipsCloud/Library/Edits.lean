import Mathlib

/-!
# Conditional edits

Objects that are there under numbers, and edits that several writers make of them without holding a
lock in between. An edit names the number that its writer knew; it is made only when that is still
the number of the object, and gives it the next one. A batch is edited from left to right. Of the
edits that are made of one object, in one batch or in several, no two are based on the same number.
-/

namespace TaskTipsCloud

namespace Edits

variable {κ ρ : Type}

/-- The numbers of the objects that are there, and the sequence of the last edit. -/
@[ext] structure Ledger (κ : Type) where
  number : κ → Option ℤ
  sequence : ℤ

/-- An edit, and why it is refused if its base is right. -/
structure Edit (κ ρ : Type) where
  key : κ
  base : Option ℤ
  refusal : Option ρ

/-- What becomes of an edit. -/
inductive Verdict (ρ : Type) where
  | made (number sequence : ℤ)
  | conflict (actual : Option ℤ)
  | refused (why : ρ)

/-- Whether the edit was made. -/
def Verdict.isMade : Verdict ρ → Bool
  | .made .. => true
  | _ => false

namespace Ledger

/-- The number of an object, zero when it is not there. -/
def count (s : Ledger κ) (k : κ) : ℤ := (s.number k).getD 0

section

variable [DecidableEq κ]

/-- One edit. -/
def edit (s : Ledger κ) (e : Edit κ ρ) : Verdict ρ × Ledger κ :=
  if e.base ≠ s.number e.key then (.conflict (s.number e.key), s)
  else
    match e.refusal with
    | some why => (.refused why, s)
    | none =>
      -- The object gets the number after its base, and the edit the next sequence.
      (.made (e.base.getD 0 + 1) (s.sequence + 1),
        ⟨Function.update s.number e.key (some (e.base.getD 0 + 1)), s.sequence + 1⟩)

/-- A batch of edits, from left to right. -/
def editAll (s : Ledger κ) : List (Edit κ ρ) → List (Verdict ρ) × Ledger κ
  | [] => ([], s)
  | e :: es => ((s.edit e).1 :: ((s.edit e).2.editAll es).1, ((s.edit e).2.editAll es).2)

end

end Ledger

/-- What is made of some items that belong to the edits of a batch. -/
def made {α : Type} (items : List α) (verdicts : List (Verdict ρ)) : List α :=
  ((items.zip verdicts).filter (·.2.isMade)).map (·.1)

/-! ## One edit -/

section

variable [DecidableEq κ] {s : Ledger κ} {e : Edit κ ρ} {es es' : List (Edit κ ρ)}

/-- An edit of another base is in conflict. -/
theorem edit_of_ne (h : e.base ≠ s.number e.key) :
    s.edit e = (.conflict (s.number e.key), s) := if_pos h

/-- An edit of the current base may be refused. -/
theorem edit_of_refusal (h : e.base = s.number e.key) {why : ρ} (hwhy : e.refusal = some why) :
    s.edit e = (.refused why, s) := by
  rw [Ledger.edit, if_neg (not_not.mpr h), hwhy]

/-- An edit of the current base is made otherwise. -/
theorem edit_of_eq (h : e.base = s.number e.key) (hnone : e.refusal = none) :
    s.edit e = (.made (e.base.getD 0 + 1) (s.sequence + 1),
      ⟨Function.update s.number e.key (some (e.base.getD 0 + 1)), s.sequence + 1⟩) := by
  rw [Ledger.edit, if_neg (not_not.mpr h), hnone]

/-- An edit that is not made leaves the ledger as it is. -/
theorem ledger_of_not_made (h : (s.edit e).1.isMade = false) : (s.edit e).2 = s := by
  by_cases hbase : e.base = s.number e.key
  · cases hrefusal : e.refusal with
    | some why => rw [edit_of_refusal hbase hrefusal]
    | none =>
      rw [edit_of_eq hbase hrefusal] at h
      cases h
  · rw [edit_of_ne hbase]

/-- An edit that is made is based on the number of its object. -/
theorem base_of_made (h : (s.edit e).1.isMade = true) : e.base = s.number e.key := by
  by_contra hbase
  rw [edit_of_ne hbase] at h
  cases h

/-- The count of an object after one of them changes. -/
theorem count_update (s : Ledger κ) (k k' : κ) (n q : ℤ) :
    Ledger.count ⟨Function.update s.number k (some n), q⟩ k' =
      if k' = k then n else s.count k' := by
  show (Function.update s.number k (some n) k').getD 0 = _
  by_cases hk : k' = k
  · rw [if_pos hk, hk, Function.update_self, Option.getD_some]
  · rw [if_neg hk, Function.update_of_ne hk, Ledger.count]

/-- An edit that is made gives its object the next number. -/
theorem count_of_made (h : (s.edit e).1.isMade = true) :
    e.base.getD 0 = s.count e.key ∧ (s.edit e).2.count e.key = s.count e.key + 1 := by
  have hbase := base_of_made h
  have hcount : e.base.getD 0 = s.count e.key := by rw [hbase, Ledger.count]
  refine ⟨hcount, ?_⟩
  cases hrefusal : e.refusal with
  | some why =>
    rw [edit_of_refusal hbase hrefusal] at h
    cases h
  | none =>
    rw [edit_of_eq hbase hrefusal, count_update, if_pos rfl, hcount]

/-- An edit takes no number back. -/
theorem count_le_edit (s : Ledger κ) (e : Edit κ ρ) (k : κ) : s.count k ≤ (s.edit e).2.count k := by
  cases hmade : (s.edit e).1.isMade with
  | false => rw [ledger_of_not_made hmade]
  | true =>
    by_cases hk : e.key = k
    · have := (count_of_made hmade).2
      subst hk
      omega
    · -- Another object was edited.
      have hbase := base_of_made hmade
      cases hrefusal : e.refusal with
      | some why => rw [edit_of_refusal hbase hrefusal]
      | none =>
        rw [edit_of_eq hbase hrefusal, count_update, if_neg (Ne.symm hk)]

/-! ## A batch -/

/-- No edits change nothing. -/
@[simp] theorem editAll_nil : s.editAll ([] : List (Edit κ ρ)) = ([], s) := rfl

/-- Edits are made one after the other. -/
@[simp] theorem editAll_cons : s.editAll (e :: es) =
    ((s.edit e).1 :: ((s.edit e).2.editAll es).1, ((s.edit e).2.editAll es).2) := rfl

/-- A batch takes no number back. -/
theorem count_le_editAll (s : Ledger κ) (es : List (Edit κ ρ)) (k : κ) :
    s.count k ≤ (s.editAll es).2.count k := by
  induction es generalizing s with
  | nil => exact le_refl _
  | cons e es ih => exact le_trans (count_le_edit s e k) (ih _)

/-- No verdicts make nothing. -/
@[simp] theorem made_nil {α : Type} (items : List α) : made items ([] : List (Verdict ρ)) = [] := by
  simp [made]

/-- An item is made when its verdict says so. -/
theorem made_cons {α : Type} (x : α) (items : List α) (v : Verdict ρ) (vs : List (Verdict ρ)) :
    made (x :: items) (v :: vs) = if v.isMade then x :: made items vs else made items vs := by
  unfold made
  rw [List.zip_cons_cons, List.filter_cons]
  split <;> rfl

/-- What is made of a batch is based on the numbers between those before it and those after it. -/
theorem base_of_mem_made (h : e ∈ made es (s.editAll es).1) :
    s.count e.key ≤ e.base.getD 0 ∧ e.base.getD 0 < (s.editAll es).2.count e.key := by
  induction es generalizing s with
  | nil => simp at h
  | cons e' es ih =>
    rw [editAll_cons, made_cons] at h
    have hlater := count_le_editAll (s.edit e').2 es e.key
    have hnext := count_le_edit s e' e.key
    -- The edit is the first of the batch, or one of the others.
    split at h
    · rename_i hmade
      rcases List.mem_cons.mp h with rfl | h
      · obtain ⟨hbase, hcount⟩ := count_of_made hmade
        rw [editAll_cons]
        dsimp only
        omega
      · obtain ⟨hlow, hhigh⟩ := ih h
        exact ⟨le_trans hnext hlow, hhigh⟩
    · obtain ⟨hlow, hhigh⟩ := ih h
      exact ⟨le_trans hnext hlow, hhigh⟩

/-- Of the edits of one object that are made in a batch, a later one has a higher base. -/
theorem pairwise_made : (made es (s.editAll es).1).Pairwise fun e e' =>
    e.key = e'.key → e.base.getD 0 < e'.base.getD 0 := by
  induction es generalizing s with
  | nil => simp
  | cons e es ih =>
    rw [editAll_cons, made_cons]
    split
    · rename_i hmade
      obtain ⟨hbase, hcount⟩ := count_of_made hmade
      refine List.pairwise_cons.mpr ⟨fun e' he' hkey => ?_, ih⟩
      have hlow := (base_of_mem_made he').1
      rw [← hkey] at hlow
      omega
    · exact ih

/-- Items in pairs are made in pairs. -/
theorem forall₂_made {α β : Type} {R : α → β → Prop} {xs : List α} {ys : List β}
    (h : List.Forall₂ R xs ys) (vs : List (Verdict ρ)) :
    List.Forall₂ R (made xs vs) (made ys vs) := by
  induction h generalizing vs with
  | nil => exact .nil
  | cons hxy hs ih =>
    cases vs with
    | nil => simp
    | cons v vs =>
      rw [made_cons, made_cons]
      split
      · exact .cons hxy (ih vs)
      · exact ih vs

end

/-! ## Lists in pairs -/

section

variable {α β : Type} {R : α → β → Prop} {xs : List α} {ys : List β}

/-- An element of one list is related to one of the other. -/
theorem exists_of_forall₂ (h : List.Forall₂ R xs ys) {x : α} (hx : x ∈ xs) : ∃ y ∈ ys, R x y := by
  induction h with
  | nil => cases hx
  | cons hxy _ ih =>
    rcases List.mem_cons.mp hx with rfl | hx
    · exact ⟨_, List.mem_cons_self, hxy⟩
    · obtain ⟨y, hy, hR⟩ := ih hx
      exact ⟨y, List.mem_cons_of_mem _ hy, hR⟩

/-- What holds between earlier and later members of a list holds of its pairs. -/
theorem pairwise_of_forall₂ {P : α → α → Prop} {Q : β → β → Prop} (h : List.Forall₂ R xs ys)
    (hQ : ys.Pairwise Q) (hPQ : ∀ x y x' y', R x y → R x' y' → Q y y' → P x x') :
    xs.Pairwise P := by
  induction h with
  | nil => exact .nil
  | cons hxy hs ih =>
    obtain ⟨hfirst, hrest⟩ := List.pairwise_cons.mp hQ
    refine List.pairwise_cons.mpr ⟨fun x' hx' => ?_, ih hrest⟩
    obtain ⟨y', hy', hR⟩ := exists_of_forall₂ hs hx'
    exact hPQ _ _ _ _ hxy hR (hfirst y' hy')

end

end Edits

end TaskTipsCloud

import Mathlib

/-!
# The oldest rows

A query orders the rows by a time and takes some of the first. Rows with equal times come in the
order of the scan, which the query does not fix.
-/

namespace TaskTipsCloud

/-- The order in which a scan returns rows. -/
structure Arrangement (α : Type) where
  /-- The rows as they are returned. -/
  arrange : List α → List α
  /-- Every row is returned once. -/
  perm : ∀ rows, (arrange rows).Perm rows

/-- The order in which the rows are stored. -/
def Arrangement.stored {α : Type} : Arrangement α := ⟨id, fun _ => .rfl⟩

variable {α : Type} {time : α → ℤ} {n : ℕ} {rows chosen : List α}

/-- The `n` first rows by their times. -/
def Arrangement.oldest (scan : Arrangement α) (time : α → ℤ) (n : ℕ) (rows : List α) : List α :=
  ((scan.arrange rows).mergeSort fun a b => decide (time a ≤ time b)).take n

/-- The chosen rows are the `n` oldest, or all when there are fewer: what is left is not older. -/
def AreOldest (time : α → ℤ) (n : ℕ) (rows chosen : List α) : Prop :=
  ∃ rest, (chosen ++ rest).Perm rows ∧ chosen.length = min n rows.length ∧
    ∀ a ∈ chosen, ∀ b ∈ rest, time a ≤ time b

/-- The first of the rows in the order of their times. -/
theorem AreOldest.of_sorted {sorted : List α} (hperm : sorted.Perm rows)
    (hsorted : sorted.Pairwise fun a b => time a ≤ time b) (n : ℕ) :
    AreOldest time n rows (sorted.take n) := by
  refine ⟨sorted.drop n, by rwa [List.take_append_drop], ?_, fun a ha b hb => ?_⟩
  · rw [List.length_take, hperm.length_eq]
  · rw [← List.take_append_drop n sorted, List.pairwise_append] at hsorted
    exact hsorted.2.2 a ha b hb

/-- Which rows are the oldest does not depend on the order of the scan. -/
theorem AreOldest.of_perm {others : List α} (h : AreOldest time n rows chosen)
    (hperm : rows.Perm others) : AreOldest time n others chosen := by
  obtain ⟨rest, hrest, hlength, hle⟩ := h
  exact ⟨rest, hrest.trans hperm, by rw [hlength, hperm.length_eq], hle⟩

/-- The first rows by their times are the oldest. -/
theorem Arrangement.areOldest (scan : Arrangement α) (time : α → ℤ) (n : ℕ) (rows : List α) :
    AreOldest time n rows (scan.oldest time n rows) := by
  refine (AreOldest.of_sorted (List.mergeSort_perm _ _) ?_ n).of_perm (scan.perm rows)
  refine (List.pairwise_mergeSort (fun a b c hab hbc => ?_) (fun a b => ?_) _).imp
    of_decide_eq_true
  · exact decide_eq_true (le_trans (of_decide_eq_true hab) (of_decide_eq_true hbc))
  · simpa using le_total (time a) (time b)

/-- The oldest rows are among the rows. -/
theorem AreOldest.mem (h : AreOldest time n rows chosen) {a : α} (ha : a ∈ chosen) : a ∈ rows := by
  obtain ⟨rest, hperm, -, -⟩ := h
  exact hperm.mem_iff.mp (List.mem_append_left _ ha)

/-- The oldest rows are distinct when the rows are. -/
theorem AreOldest.nodup (h : AreOldest time n rows chosen) (hrows : rows.Nodup) :
    chosen.Nodup := by
  obtain ⟨rest, hperm, -, -⟩ := h
  exact (hperm.nodup_iff.mpr hrows).of_append_left

/-- The chosen rows are those that are found among all rows. -/
theorem perm_filter_mem [DecidableEq α] (hrows : rows.Nodup) (hchosen : chosen.Nodup)
    (hmem : ∀ a ∈ chosen, a ∈ rows) : (rows.filter fun a => decide (a ∈ chosen)).Perm chosen := by
  refine (List.perm_ext_iff_of_nodup (hrows.filter _) hchosen).mpr fun a => ?_
  rw [List.mem_filter, decide_eq_true_eq]
  exact ⟨fun h => h.2, fun h => ⟨hmem a h, h⟩⟩

/-! ## Rows in an order -/

/-- The rows in the order of their keys. -/
def orderBy {κ : Type} [LinearOrder κ] (key : α → κ) (rows : List α) : List α :=
  rows.insertionSort fun a b => key a ≤ key b

/-- Rows with different keys come in one order, whatever the order of the scan. -/
theorem orderBy_congr {κ : Type} [LinearOrder κ] {key : α → κ} {others : List α}
    (hkeys : (rows.map key).Nodup) (hperm : rows.Perm others) :
    orderBy key rows = orderBy key others := by
  have hsorted : ∀ l : List α, (orderBy key l).Pairwise fun a b => key a ≤ key b := fun l =>
    List.pairwise_insertionSort _ l
  have horder : (orderBy key rows).Perm (orderBy key others) :=
    ((List.perm_insertionSort _ rows).trans hperm).trans (List.perm_insertionSort _ others).symm
  refine horder.eq_of_pairwise (fun a b ha hb hab hba => ?_) (hsorted rows) (hsorted others)
  have ha' : a ∈ rows := (List.perm_insertionSort _ rows).mem_iff.mp ha
  have hb' : b ∈ rows := hperm.mem_iff.mpr ((List.perm_insertionSort _ others).mem_iff.mp hb)
  exact List.inj_on_of_nodup_map hkeys ha' hb' (le_antisymm hab hba)

end TaskTipsCloud

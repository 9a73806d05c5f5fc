import Mathlib

/-!
# Pages with one row of look-ahead

A page of at most `limit` rows is read together with one more row, which only tells whether there
are more rows after the page.
-/

namespace TaskTipsCloud

/-- A page of at most `limit` rows, and whether there are more. -/
def lookAhead {α : Type} (rows : List α) (limit : ℤ) : List α × Bool :=
  let fetched := rows.take (limit + 1).toNat
  if limit < fetched.length then (fetched.dropLast, true) else (fetched, false)

/-- A page holds the first rows, and there are more when there are more than the limit. -/
theorem lookAhead_eq {α : Type} (rows : List α) {limit : ℤ} (h : 0 ≤ limit) :
    lookAhead rows limit =
      if limit < rows.length then (rows.take limit.toNat, true) else (rows, false) := by
  obtain ⟨n, rfl⟩ := Int.eq_ofNat_of_zero_le h
  have hnext : ((n : ℤ) + 1).toNat = n + 1 := by omega
  unfold lookAhead
  dsimp only
  rw [hnext, List.length_take, Int.toNat_natCast]
  by_cases hmore : (n : ℤ) < rows.length
  · have hlast : min (min (n + 1) rows.length - 1) (n + 1) = n := by omega
    rw [if_pos (by omega), if_pos hmore, List.dropLast_eq_take, List.length_take, List.take_take,
      hlast]
  · rw [if_neg (by omega), if_neg hmore, List.take_of_length_le (by omega)]

/-- In rows whose keys grow, what comes after the last row of a page is the rest. -/
theorem filter_after_last {α κ : Type} [LinearOrder κ] {key : α → κ} {rows : List α}
    (hrows : rows.Pairwise fun a b => key a < key b) {n : ℕ} {last : α}
    (hlast : (rows.take n).getLast? = some last) :
    rows.filter (fun a => key last < key a) = rows.drop n := by
  obtain ⟨init, hinit⟩ := List.getLast?_eq_some_iff.mp hlast
  have hsplit : rows = (init ++ [last]) ++ rows.drop n := by
    rw [← hinit, List.take_append_drop]
  have hpair := hrows
  rw [hsplit, List.pairwise_append, List.pairwise_append] at hpair
  obtain ⟨⟨-, -, hbefore⟩, -, hafter⟩ := hpair
  have hnone : (init ++ [last]).filter (fun a => key last < key a) = [] := by
    refine List.filter_eq_nil_iff.mpr fun a ha => ?_
    rw [decide_eq_true_eq, not_lt]
    rcases List.mem_append.mp ha with ha | ha
    · exact le_of_lt (hbefore a ha last (List.mem_singleton_self _))
    · rw [List.mem_singleton.mp ha]
  have hall : (rows.drop n).filter (fun a => key last < key a) = rows.drop n :=
    List.filter_eq_self.mpr fun a ha =>
      decide_eq_true (hafter last (List.mem_append_right _ (List.mem_singleton_self _)) a ha)
  conv_lhs => rw [hsplit]
  rw [List.filter_append, hnone, hall, List.nil_append]

end TaskTipsCloud

import Mathlib

/-!
# Texts with separators

A text that joins parts with a separator that the parts do not contain determines the parts.
-/

namespace TaskTipsCloud

variable {α : Type} {a : α} {x y z w : List α}

/-- The first separator ends the first part. -/
theorem append_cons_inj_of_notMem (hx : a ∉ x) (hy : a ∉ y) (h : x ++ a :: z = y ++ a :: w) :
    x = y ∧ z = w := by
  induction x generalizing y with
  | nil =>
    cases y with
    | nil => exact ⟨rfl, (List.cons.inj h).2⟩
    | cons c y => exact absurd ((List.cons.inj h).1 ▸ List.mem_cons_self) hy
  | cons b x ih =>
    cases y with
    | nil => exact absurd ((List.cons.inj h).1 ▸ List.mem_cons_self) hx
    | cons c y =>
      obtain ⟨hbc, hrest⟩ := List.cons.inj h
      obtain ⟨hxy, hzw⟩ := ih (fun hmem => hx (List.mem_cons_of_mem _ hmem))
        (fun hmem => hy (List.mem_cons_of_mem _ hmem)) hrest
      exact ⟨by rw [hbc, hxy], hzw⟩

/-- A text between two separators is one of the parts. -/
theorem mem_splitOn_of_infix [BEq α] [LawfulBEq α] (hx : a ∉ x) (h : a :: x ++ [a] <:+: y) :
    x ∈ y.splitOn a := by
  obtain ⟨s, t, rfl⟩ := h
  have hsplit : s ++ (a :: x ++ [a]) ++ t = s ++ a :: (x ++ a :: t) := by simp
  rw [hsplit, List.splitOn_append_cons_self, List.splitOn_append_cons_self_of_not_mem hx]
  simp

/-- The parts before and after the first separator. -/
def splitOnce [DecidableEq α] (a : α) : List α → Option (List α × List α)
  | [] => none
  | b :: l =>
    if b = a then some ([], l) else (splitOnce a l).map fun parts => (b :: parts.1, parts.2)

/-- A text without the separator is split off at the first one. -/
theorem splitOnce_append [DecidableEq α] (hx : a ∉ x) :
    splitOnce a (x ++ a :: y) = some (x, y) := by
  induction x with
  | nil => simp [splitOnce]
  | cons b x ih =>
    have hne : b ≠ a := fun h => hx (h ▸ List.mem_cons_self)
    have hrest := ih fun hmem => hx (List.mem_cons_of_mem _ hmem)
    simp [splitOnce, hne, hrest]

/-- The parts of a split give the text back. -/
theorem eq_of_splitOnce [DecidableEq α] (h : splitOnce a z = some (x, y)) :
    z = x ++ a :: y ∧ a ∉ x := by
  induction z generalizing x with
  | nil => cases h
  | cons b l ih =>
    rw [splitOnce] at h
    split at h
    · next hb =>
      cases h
      exact ⟨by rw [hb]; rfl, List.not_mem_nil⟩
    · next hne =>
      obtain ⟨⟨first, rest⟩, hparts, heq⟩ := Option.map_eq_some_iff.mp h
      cases heq
      obtain ⟨rfl, hfirst⟩ := ih hparts
      refine ⟨rfl, fun hmem => ?_⟩
      rcases List.mem_cons.mp hmem with hab | hmem
      · exact hne hab.symm
      · exact hfirst hmem

end TaskTipsCloud

import Mathlib

/-!
# Tables as lists of rows

What `UPDATE ... WHERE` and `INSERT ... ON CONFLICT DO UPDATE` do to a table that is kept as the
list of its rows, and how they look through a filter that selects a part of the table.
-/

namespace TaskTipsCloud

variable {α : Type}

/-- The rows with `f` applied to those that satisfy `p`. -/
def updateWhere (p : α → Bool) (f : α → α) (rows : List α) : List α :=
  rows.map fun row => if p row then f row else row

/-- The rows with `f` applied to those that satisfy `p`, or with the new row `x` when none does. -/
def upsert (p : α → Bool) (x : α) (f : α → α) (rows : List α) : List α :=
  if rows.any p then updateWhere p f rows else rows ++ [x]

section

variable {β : Type} {p q : α → Bool} {f : α → α} {x : α} {rows : List α}

/-! ## Updates -/

/-- An update that selects no row changes nothing. -/
theorem updateWhere_of_forall_not (h : ∀ row ∈ rows, p row = false) :
    updateWhere p f rows = rows := by
  have hid : rows.map (fun row => if p row then f row else row) = rows.map id :=
    List.map_congr_left fun row hrow => by simp [h row hrow]
  rw [updateWhere, hid, List.map_id]

/-- An update keeps what `g` reads of a row if it keeps it in every row that it changes. -/
theorem map_updateWhere {g : α → β} (h : ∀ row ∈ rows, p row = true → g (f row) = g row) :
    (updateWhere p f rows).map g = rows.map g := by
  rw [updateWhere, List.map_map]
  refine List.map_congr_left fun row hrow => ?_
  by_cases hp : p row = true
  · simp [hp, h row hrow hp]
  · simp [hp]

/-- The part of an updated table that `q` selects, when the update keeps `q`. -/
theorem filter_updateWhere (h : ∀ row, p row = true → q (f row) = q row) :
    (updateWhere p f rows).filter q = updateWhere p f (rows.filter q) := by
  induction rows with
  | nil => rfl
  | cons row rows ih =>
    have hq : q (if p row then f row else row) = q row := by
      by_cases hp : p row = true
      · simp [hp, h row hp]
      · simp [hp]
    unfold updateWhere at ih ⊢
    rw [List.map_cons, List.filter_cons, List.filter_cons, hq, ih]
    by_cases hrow : q row = true
    · simp [hrow]
    · simp [hrow]

/-- The rows of an updated table that `q` counts, when the changed rows are not counted. -/
theorem countP_updateWhere (h : ∀ row, q (f row) = false) :
    (updateWhere p f rows).countP q = rows.countP fun row => q row && !p row := by
  rw [updateWhere, List.countP_map]
  refine List.countP_congr fun row _ => ?_
  by_cases hp : p row = true
  · simp [hp, h]
  · simp [hp]

/-- A row that was counted and has changed is missing from the count. -/
theorem countP_updateWhere_lt (h : ∀ row, q (f row) = false) (hx : x ∈ rows) (hq : q x = true)
    (hp : p x = true) : (updateWhere p f rows).countP q < rows.countP q := by
  have hsplit := List.countP_eq_countP_filter_add rows q p
  rw [List.countP_filter, List.countP_filter] at hsplit
  have hpos : 0 < rows.countP fun row => q row && p row :=
    List.countP_pos_iff.mpr ⟨x, hx, by rw [hq, hp, Bool.and_self]⟩
  rw [countP_updateWhere h, hsplit]
  have hsame : (rows.countP fun row => q row && !p row) =
      rows.countP fun row => q row && decide ¬p row = true :=
    List.countP_congr fun row _ => by simp
  omega

/-- The row of an updated table that `q` finds, when the update keeps `q`. -/
theorem find?_updateWhere (h : ∀ row, p row = true → q (f row) = q row) :
    (updateWhere p f rows).find? q =
      (rows.find? q).map fun row => if p row then f row else row := by
  rw [updateWhere, List.find?_map]
  congr 2
  funext row
  by_cases hp : p row = true
  · simp [hp, h row hp]
  · simp [hp]

/-! ## Upserts -/

/-- What an upsert does to a part of the table that contains the row that it changes. -/
theorem filter_upsert (hx : q x = true) (hp : ∀ row, p row = true → q row = true)
    (hf : ∀ row, p row = true → q (f row) = q row) :
    (upsert p x f rows).filter q = upsert p x f (rows.filter q) := by
  have hany : (rows.filter q).any p = rows.any p := by
    rw [Bool.eq_iff_iff]
    simp only [List.any_eq_true, List.mem_filter]
    exact ⟨fun ⟨r, hr, hpr⟩ => ⟨r, hr.1, hpr⟩, fun ⟨r, hr, hpr⟩ => ⟨r, ⟨hr, hp r hpr⟩, hpr⟩⟩
  unfold upsert
  rw [hany]
  split
  · exact filter_updateWhere hf
  · simp [hx]

/-- An upsert leaves a part of the table that does not contain the row that it changes. -/
theorem filter_upsert_of_not (hx : q x = false) (hp : ∀ row, p row = true → q row = false)
    (hf : ∀ row, p row = true → q (f row) = q row) :
    (upsert p x f rows).filter q = rows.filter q := by
  unfold upsert
  split
  · rw [filter_updateWhere hf]
    refine updateWhere_of_forall_not fun row hrow => ?_
    by_contra h
    have hq := hp row (by simpa using h)
    simp [hq] at hrow
  · simp [hx]

/-- The row that `q` finds after an upsert of a row that `q` selects. -/
theorem find?_upsert (hx : q x = true) (hp : ∀ row ∈ rows, p row = q row)
    (hf : ∀ row ∈ rows, p row = true → f row = x) :
    (upsert p x f rows).find? q = some x := by
  unfold upsert
  split
  · rename_i hany
    induction rows with
    | nil => simp at hany
    | cons row rows ih =>
      unfold updateWhere at ih ⊢
      rw [List.map_cons, List.find?_cons]
      by_cases hrow : p row = true
      · simp [hrow, hf row List.mem_cons_self hrow, hx]
      · have hqrow : q row = false := by
          rw [← hp row List.mem_cons_self]
          simpa using hrow
        have hrest : rows.any p = true := by simpa [hrow] using hany
        simp only [hrow, Bool.false_eq_true, if_false, hqrow]
        exact ih (fun r hr => hp r (List.mem_cons_of_mem _ hr))
          (fun r hr => hf r (List.mem_cons_of_mem _ hr)) hrest
  · rename_i hany
    have hnone : rows.find? q = none := by
      refine List.find?_eq_none.mpr fun row hrow hqrow => hany ?_
      exact List.any_eq_true.mpr ⟨row, hrow, by rw [hp row hrow, hqrow]⟩
    simp [hnone, hx]

/-- The row that `q` finds after an upsert of a row that `q` does not select. -/
theorem find?_upsert_of_not (hx : q x = false) (hp : ∀ row, p row = true → q row = false)
    (hf : ∀ row, p row = true → q (f row) = q row) :
    (upsert p x f rows).find? q = rows.find? q := by
  rw [← List.head?_filter, ← List.head?_filter, filter_upsert_of_not hx hp hf]

/-- The keys of a table stay different when a row is put in the place of the one with its key. -/
theorem nodup_map_upsert [BEq β] [LawfulBEq β] {g : α → β} (h : (rows.map g).Nodup)
    (hp : ∀ row ∈ rows, p row = (g row == g x)) (hf : ∀ row, g (f row) = g row) :
    ((upsert p x f rows).map g).Nodup := by
  unfold upsert
  split
  · rwa [map_updateWhere fun row _ _ => hf row]
  · rename_i hany
    rw [List.map_append, List.map_singleton]
    refine List.nodup_append.mpr ⟨h, List.nodup_singleton _, fun y hy z hz => ?_⟩
    obtain ⟨row, hrow, rfl⟩ := List.mem_map.mp hy
    rw [List.mem_singleton] at hz
    subst hz
    intro heq
    refine hany (List.any_eq_true.mpr ⟨row, hrow, ?_⟩)
    rw [hp row hrow, heq, beq_self_eq_true]

/-! ## Keys -/

/-- The row with a key, in a table whose keys differ. -/
theorem filter_key_eq [BEq β] [LawfulBEq β] {g : α → β} (h : (rows.map g).Nodup) (hx : x ∈ rows) :
    rows.filter (g · == g x) = [x] := by
  induction rows with
  | nil => simp at hx
  | cons row rows ih =>
    rw [List.map_cons, List.nodup_cons] at h
    rcases List.mem_cons.mp hx with rfl | hx
    · have hnone : rows.filter (g · == g x) = [] := by
        refine List.filter_eq_nil_iff.mpr fun y hy hgy => h.1 ?_
        exact List.mem_map.mpr ⟨y, hy, by simpa using hgy⟩
      simp [hnone]
    · have hne : g row ≠ g x := fun heq => h.1 (heq ▸ List.mem_map_of_mem hx)
      simp [hne, ih h.2 hx]

/-- An update of the row with a key, in a table whose keys differ. -/
theorem exists_updateWhere_key [BEq β] [LawfulBEq β] {g : α → β} (h : (rows.map g).Nodup)
    (hx : x ∈ rows) : ∃ l₁ l₂, rows = l₁ ++ x :: l₂ ∧
      updateWhere (g · == g x) f rows = l₁ ++ f x :: l₂ := by
  obtain ⟨l₁, l₂, rfl⟩ := List.append_of_mem hx
  refine ⟨l₁, l₂, rfl, ?_⟩
  rw [List.map_append, List.map_cons, List.nodup_append, List.nodup_cons] at h
  have hkept : ∀ l : List α, (∀ y ∈ l, g y ≠ g x) → updateWhere (g · == g x) f l = l :=
    fun l hl => updateWhere_of_forall_not fun y hy => by simpa using hl y hy
  have h₁ : updateWhere (g · == g x) f l₁ = l₁ := hkept l₁ fun y hy =>
    h.2.2 _ (List.mem_map_of_mem hy) _ List.mem_cons_self
  have h₂ : updateWhere (g · == g x) f l₂ = l₂ := hkept l₂ fun y hy heq =>
    h.2.1.1 (heq ▸ List.mem_map_of_mem hy)
  unfold updateWhere at h₁ h₂ ⊢
  rw [List.map_append, List.map_cons, h₁, h₂, if_pos (beq_self_eq_true _)]

/-- The rows with a key, in a table without the rows whose keys `d` selects. -/
theorem filter_key_delete [BEq β] [LawfulBEq β] {g : α → β} {d : β → Bool} {k : β} :
    (rows.filter fun x => !d (g x)).filter (g · == k) =
      if d k then [] else rows.filter (g · == k) := by
  rw [List.filter_filter]
  split
  · rename_i hk
    refine List.filter_eq_nil_iff.mpr fun x _ hx => ?_
    simp only [Bool.and_eq_true, beq_iff_eq, Bool.not_eq_true'] at hx
    rw [hx.1, hk] at hx
    exact absurd hx.2 (by simp)
  · rename_i hk
    refine List.filter_congr fun x _ => ?_
    by_cases hx : g x = k
    · rw [hx, Bool.eq_false_iff.mpr hk]
      simp
    · simp [hx]

/-- The row with a key, in such a table. -/
theorem find?_key_delete [BEq β] [LawfulBEq β] {g : α → β} {d : β → Bool} {k : β} :
    (rows.filter fun x => !d (g x)).find? (g · == k) =
      if d k then none else rows.find? (g · == k) := by
  rw [← List.head?_filter, filter_key_delete]
  split
  · rfl
  · exact List.head?_filter

/-- The row with a key, in a table whose keys differ. -/
theorem find?_key_eq [BEq β] [LawfulBEq β] {g : α → β} (h : (rows.map g).Nodup) (hx : x ∈ rows) :
    rows.find? (g · == g x) = some x := by
  rw [← List.head?_filter, filter_key_eq h hx]
  rfl

/-- The values of a column stay different when a row with a new one is added. -/
theorem nodup_map_concat {g : α → β} (h : (rows.map g).Nodup) (hx : ∀ y ∈ rows, g y ≠ g x) :
    ((rows ++ [x]).map g).Nodup := by
  rw [List.map_append, List.map_singleton, List.nodup_append]
  refine ⟨h, List.nodup_singleton _, fun y hy z hz => ?_⟩
  obtain ⟨row, hrow, rfl⟩ := List.mem_map.mp hy
  rw [List.mem_singleton.mp hz]
  exact hx row hrow

/-- They stay different when they are kept. -/
theorem nodup_map_updateWhere_same {g : α → β} (h : (rows.map g).Nodup)
    (hf : ∀ row, g (f row) = g row) : ((updateWhere p f rows).map g).Nodup := by
  rwa [map_updateWhere fun row _ _ => hf row]

/-- The values of a column stay different when the row with a key gets a new one. -/
theorem nodup_map_updateWhere {γ : Type} {g : α → β} {v : α → γ} {k : β} {c : γ}
    (hkeys : (rows.map g).Nodup) (hv : (rows.map v).Nodup)
    (hp : ∀ row ∈ rows, p row = true → g row = k) (hf : ∀ row, v (f row) = c)
    (hc : ∀ row ∈ rows, g row ≠ k → v row ≠ c) : ((updateWhere p f rows).map v).Nodup := by
  rw [updateWhere, List.map_map]
  have hboth := (List.pairwise_map.mp hkeys).and (List.pairwise_map.mp hv)
  refine List.pairwise_map.mpr (hboth.imp_of_mem fun {a b} ha hb hab => ?_)
  obtain ⟨hkey, hval⟩ := hab
  by_cases hpa : p a = true
  · by_cases hpb : p b = true
    · exact absurd ((hp a ha hpa).trans (hp b hb hpb).symm) hkey
    · have hne := hc b hb fun hgb => hkey ((hp a ha hpa).trans hgb.symm)
      simpa [hpa, hpb, hf] using hne.symm
  · by_cases hpb : p b = true
    · have hne := hc a ha fun hga => hkey (hga.trans (hp b hb hpb).symm)
      simpa [hpa, hpb, hf] using hne
    · simpa [hpa, hpb] using hval

end

/-- What is drawn once is drawn at one position. -/
theorem position_unique {α β : Type} {f : α → Option β} {xs : List α} (h : (xs.filterMap f).Nodup)
    {i j : ℕ} {x y : α} {c : β} (hi : xs[i]? = some x) (hj : xs[j]? = some y) (hx : f x = some c)
    (hy : f y = some c) : i = j := by
  induction xs generalizing i j with
  | nil => simp at hi
  | cons z xs ih =>
    have hrest : (xs.filterMap f).Nodup :=
      h.sublist ((List.sublist_cons_self z xs).filterMap f)
    have hhead : ∀ {a : α} {k : ℕ}, f z = some c → xs[k]? = some a → f a ≠ some c := by
      intro a k hz hk ha
      rw [List.filterMap_cons_some hz, List.nodup_cons] at h
      exact h.1 (List.mem_filterMap.mpr ⟨a, List.mem_of_getElem? hk, ha⟩)
    cases i with
    | zero =>
      cases j with
      | zero => rfl
      | succ j =>
        cases hi
        exact absurd hy (hhead hx hj)
    | succ i =>
      cases j with
      | zero =>
        cases hj
        exact absurd hx (hhead hy hi)
      | succ j => rw [ih hrest hi hj]

/-- In two lists in pairs every element has its partner. -/
theorem exists_of_forall₂ {α β : Type} {R : α → β → Prop} {xs : List α} {ys : List β}
    (h : List.Forall₂ R xs ys) {x : α} (hx : x ∈ xs) : ∃ y ∈ ys, R x y := by
  induction h with
  | nil => cases hx
  | cons hr _ ih =>
    rcases List.mem_cons.mp hx with rfl | hx
    · exact ⟨_, List.mem_cons_self, hr⟩
    · obtain ⟨y, hy, hxy⟩ := ih hx
      exact ⟨y, List.mem_cons_of_mem _ hy, hxy⟩

end TaskTipsCloud

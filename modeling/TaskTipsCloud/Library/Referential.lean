import Mathlib

/-!
# Foreign keys

Tables of rows, where a row may refer to a row of another table. A deletion is refused when a row
that stays refers to a row that goes, unless the foreign key clears such references. Rows that one
owner has in several tables go without a refusal, when each table is emptied of them after the
tables that refer to it.
-/

namespace TaskTipsCloud

/-- A foreign key of the rows of a table. -/
structure ForeignKey {T : Type} (Row : T → Type) (c : T) where
  parent : T
  {Key : Type}
  [decEq : DecidableEq Key]
  /-- What a row refers to. With `NULL` in one of its columns, it refers to nothing. -/
  references : Row c → Option Key
  key : Row parent → Key
  /-- For `ON DELETE SET NULL`, a row without its reference. -/
  cleared : Option (Row c → Row c)

/-- The rows of each table. -/
abbrev Tables {T : Type} (Row : T → Type) := ∀ t, List (Row t)

/-- The foreign keys of each table. -/
abbrev ForeignKeys {T : Type} (Row : T → Type) := ∀ t, List (ForeignKey Row t)

namespace ForeignKey

variable {T : Type} {Row : T → Type} {c : T}

/-- Whether what a row refers to is there. -/
def found (k : ForeignKey Row c) (db : Tables Row) (x : Row c) : Bool :=
  have := k.decEq
  (k.references x).all fun v => (db k.parent).any fun y => k.key y == v

/-- Whether what the rows refer to is there. -/
def holds (k : ForeignKey Row c) (db : Tables Row) : Bool := (db c).all (k.found db)

variable {k : ForeignKey Row c} {db : Tables Row} {x : Row c}

/-- A row has its parent when it refers to none or to one that is there. -/
theorem found_iff : k.found db x = true ↔
    ∀ v, k.references x = some v → ∃ y ∈ db k.parent, k.key y = v := by
  cases h : k.references x <;> simp [found, h]

/-- A foreign key holds when each row has its parent. -/
theorem holds_iff : k.holds db = true ↔ ∀ x ∈ db c, k.found db x = true := List.all_eq_true

/-- Rows that refer to the same parent have it together. -/
theorem found_congr {y : Row c} (h : k.references x = k.references y) :
    k.found db x = k.found db y := by
  rw [found, found, h]

/-- A row of which the reference is cleared, if what it refers to is not there. -/
def release (db : Tables Row) (k : ForeignKey Row c) (x : Row c) : Row c :=
  match k.cleared with
  | some f => if k.found db x then x else f x
  | none => x

/-- A key that is not cleared changes no row. -/
theorem release_of_cleared_none (h : k.cleared = none) : k.release db x = x := by
  rw [release, h]

end ForeignKey

section

variable {T : Type} [DecidableEq T] {Row : T → Type}

/-- The rows of which one table has lost those that are selected. -/
def Tables.without (db : Tables Row) (q : ∀ t, Row t → Bool) (t : T) : Tables Row := fun c =>
  if c = t then (db c).filter (!q c ·) else db c

/-- The references to a table that are cleared. -/
def releaseRow (keys : ForeignKeys Row) (t : T) (db : Tables Row) {c : T} (x : Row c) : Row c :=
  ((keys c).filter (·.parent = t)).foldl (fun x k => k.release db x) x

/-- The tables after the rows of one that are selected have gone, and the references to them with
them. -/
def Tables.deleting (db : Tables Row) (keys : ForeignKeys Row) (q : ∀ t, Row t → Bool) (t : T) :
    Tables Row := fun c => (db.without q t c).map (releaseRow keys t (db.without q t))

/-- `DELETE FROM t WHERE q`. It is refused when a foreign key does not hold afterwards. -/
def Tables.delete [Fintype T] (db : Tables Row) (keys : ForeignKeys Row) (q : ∀ t, Row t → Bool)
    (t : T) : Option (Tables Row) :=
  if ∀ c, ∀ k ∈ keys c, k.holds (db.deleting keys q t) = true then some (db.deleting keys q t)
  else none

/-- The deletions from several tables, one after the other. -/
def Tables.deleteAll [Fintype T] (keys : ForeignKeys Row) (q : ∀ t, Row t → Bool) :
    List T → Tables Row → Option (Tables Row)
  | [], db => some db
  | t :: ts, db => (db.delete keys q t).bind (Tables.deleteAll keys q ts)

variable {keys : ForeignKeys Row} {q : ∀ t, Row t → Bool} {db : Tables Row} {t c : T}

/-- Every foreign key holds. -/
def Tables.Consistent (keys : ForeignKeys Row) (db : Tables Row) : Prop :=
  ∀ c, ∀ k ∈ keys c, k.holds db = true

/-- Each key is checked on each of its rows. -/
instance [Fintype T] : Decidable (db.Consistent keys) :=
  inferInstanceAs (Decidable (∀ c, ∀ k ∈ keys c, k.holds db = true))

/-- What the declarations of the foreign keys have in common: clearing a reference leaves the other
references of the row, and rows of which references are cleared are referred to by nothing. -/
structure ForeignKeys.Clearing (keys : ForeignKeys Row) : Prop where
  clears : ∀ c, ∀ k ∈ keys c, ∀ f, k.cleared = some f → ∀ x, k.references (f x) = none
  others : ∀ c, ∀ k ∈ keys c, ∀ f, k.cleared = some f → ∀ k' ∈ keys c, ∀ x,
    k'.references (f x) = none ∨ k'.references (f x) = k'.references x
  leaves : ∀ c, ∀ k ∈ keys c, k.cleared.isSome → ∀ c', ∀ k' ∈ keys c', k'.parent ≠ c

/-- No reference of the rows of a table is cleared. -/
def ForeignKeys.IsFirm (keys : ForeignKeys Row) (c : T) : Prop := ∀ k ∈ keys c, k.cleared = none

/-- A row stays when no key to the table clears it. -/
theorem releaseRow_of_forall (h : ∀ k ∈ keys c, k.parent = t → k.cleared = none) (x : Row c) :
    releaseRow keys t db x = x := by
  unfold releaseRow
  have hnone : ∀ k ∈ (keys c).filter (·.parent = t), k.cleared = none := fun k hk =>
    h k (List.mem_of_mem_filter hk) (of_decide_eq_true (List.mem_filter.mp hk).2)
  generalize (keys c).filter (·.parent = t) = ks at hnone
  induction ks with
  | nil => rfl
  | cons k ks ih =>
    rw [List.foldl_cons, ForeignKey.release_of_cleared_none (hnone k List.mem_cons_self)]
    exact ih fun k' hk' => hnone k' (List.mem_cons_of_mem _ hk')

/-- Rows of which no reference to the table is cleared only go. -/
theorem deleting_of_forall (h : ∀ k ∈ keys c, k.parent = t → k.cleared = none) :
    db.deleting keys q t c = db.without q t c := by
  unfold Tables.deleting
  rw [List.map_congr_left fun x _ => releaseRow_of_forall h x, List.map_id']

/-- A table whose keys clear nothing only loses the rows that are deleted. -/
theorem ForeignKeys.IsFirm.deleting (h : keys.IsFirm c) :
    db.deleting keys q t c = db.without q t c :=
  deleting_of_forall fun k hk _ => h k hk

omit [DecidableEq T] in
/-- Rows that others refer to keep their references. -/
theorem ForeignKeys.Clearing.isFirm (hkeys : keys.Clearing) {c' : T} {k : ForeignKey Row c'}
    (hk : k ∈ keys c') : keys.IsFirm k.parent := by
  intro k' hk'
  by_contra hne
  exact hkeys.leaves k.parent k' hk' (Option.isSome_iff_ne_none.mpr hne) c' k hk rfl

omit [DecidableEq T] in
/-- A reference of a row is as before after others are cleared, or it is cleared. -/
theorem ForeignKeys.Clearing.references_foldl (hkeys : keys.Clearing) {k : ForeignKey Row c}
    (hk : k ∈ keys c) {ks : List (ForeignKey Row c)} (hall : ∀ k' ∈ ks, k' ∈ keys c) (x : Row c) :
    k.references (ks.foldl (fun x k => k.release db x) x) = none ∨
      k.references (ks.foldl (fun x k => k.release db x) x) = k.references x := by
  induction ks generalizing x with
  | nil => exact .inr rfl
  | cons k' ks ih =>
    rw [List.foldl_cons]
    -- The first key clears its reference or leaves the row; the others come after it.
    have hstep : k.references (k'.release db x) = none ∨
        k.references (k'.release db x) = k.references x := by
      unfold ForeignKey.release
      split
      · next f hf =>
        split
        · exact .inr rfl
        · exact hkeys.others c k' (hall k' List.mem_cons_self) f hf k hk x
      · exact .inr rfl
    rcases ih (fun k'' hk'' => hall k'' (List.mem_cons_of_mem _ hk'')) (k'.release db x) with h | h
    · exact .inl h
    · exact hstep.imp h.trans h.trans

/-- A key to a table is one of the keys. -/
theorem mem_of_mem_keysTo {k : ForeignKey Row c} (h : k ∈ (keys c).filter (·.parent = t)) :
    k ∈ keys c ∧ k.parent = t :=
  ⟨List.mem_of_mem_filter h, of_decide_eq_true (List.mem_filter.mp h).2⟩

/-- A row refers to the same parent after a deletion, or to none. -/
theorem ForeignKeys.Clearing.references (hkeys : keys.Clearing) {k : ForeignKey Row c}
    (hk : k ∈ keys c) (x : Row c) : k.references (releaseRow keys t db x) = none ∨
      k.references (releaseRow keys t db x) = k.references x :=
  hkeys.references_foldl hk (fun _ h => (mem_of_mem_keysTo h).1) x

/-- A reference that a foreign key clears is found after all, or it is cleared. -/
theorem ForeignKeys.Clearing.released (hkeys : keys.Clearing) {k : ForeignKey Row c}
    (hk : k ∈ keys c) (hparent : k.parent = t) {f : Row c → Row c} (hf : k.cleared = some f)
    (x : Row c) : k.references (releaseRow keys t db x) = none ∨ k.found db x = true := by
  by_cases hfound : k.found db x = true
  · exact .inr hfound
  · refine .inl ?_
    have hmem : k ∈ (keys c).filter (·.parent = t) :=
      List.mem_filter.mpr ⟨hk, decide_eq_true hparent⟩
    obtain ⟨before, after, hsplit⟩ := List.append_of_mem hmem
    have hall : ∀ k' ∈ before ++ k :: after, k' ∈ keys c := fun k' hk' =>
      (mem_of_mem_keysTo (hsplit ▸ hk')).1
    unfold releaseRow
    rw [hsplit, List.foldl_append, List.foldl_cons]
    -- Before its turn the reference is as it was or cleared; afterwards it stays cleared.
    have hearlier : k.references (before.foldl (fun x k => k.release db x) x) = none ∨
        k.references (before.foldl (fun x k => k.release db x) x) = k.references x :=
      hkeys.references_foldl hk (fun k' hk' => hall k' (List.mem_append_left _ hk')) x
    have hturn : k.references (k.release db (before.foldl (fun x k => k.release db x) x)) =
        none := by
      unfold ForeignKey.release
      rw [hf]
      dsimp only
      split
      · next h =>
        rcases hearlier with hnone | hsame
        · exact hnone
        · exact absurd (ForeignKey.found_congr hsame ▸ h) hfound
      · exact hkeys.clears c k hk f hf _
    have hafter : ∀ k' ∈ after, k' ∈ keys c := fun k' hk' =>
      hall k' (List.mem_append_right _ (List.mem_cons_of_mem _ hk'))
    exact (hkeys.references_foldl hk hafter _).elim id fun h => h.trans hturn

/-! ## Emptying tables in order -/

/-- A row that refers to a selected row is selected, where no references are cleared. -/
def Tables.Agrees (keys : ForeignKeys Row) (q : ∀ t, Row t → Bool) (ts : List T)
    (db : Tables Row) : Prop :=
  ∀ c, keys.IsFirm c → ∀ k ∈ keys c, k.parent ∈ ts → ∀ x ∈ db c, ∀ y ∈ db k.parent,
    k.references x = some (k.key y) → q k.parent y = true → q c x = true

/-- Each table comes after the tables that refer to it, of which some are empty before. -/
def Ordered (keys : ForeignKeys Row) (emptied : List T) : List T → Prop
  | [] => True
  | t :: ts =>
    ((∀ k ∈ keys t, k.cleared.isNone) ∧ ∀ c, ∀ k ∈ keys c, k.parent = t → k.cleared.isNone →
      c ∈ t :: emptied ∧ ∀ k' ∈ keys c, k'.cleared.isNone) ∧ Ordered keys (t :: emptied) ts

/-- Each table is compared with those before it. -/
instance decidableOrdered [Fintype T] (keys : ForeignKeys Row) :
    ∀ emptied ts, Decidable (Ordered keys emptied ts)
  | _, [] => .isTrue trivial
  | emptied, t :: ts =>
    have := decidableOrdered keys (t :: emptied) ts
    inferInstanceAs (Decidable (_ ∧ _))

/-- Of some tables no selected row is there. -/
def Tables.Emptied (q : ∀ t, Row t → Bool) (ts : List T) (db : Tables Row) : Prop :=
  ∀ t ∈ ts, ∀ x ∈ db t, q t x = false

/-- The rows that are left, and those of the other tables. -/
theorem mem_rows_without {x : Row c} :
    x ∈ db.without q t c ↔ x ∈ db c ∧ (c = t → q c x = false) := by
  unfold Tables.without
  split
  · next h => simp [h]
  · next h => simp [h]

/-- No row is added. -/
theorem rows_without_subset {x : Row c} (h : x ∈ db.without q t c) : x ∈ db c :=
  (mem_rows_without.mp h).1

/-- A deletion leaves the foreign keys, when the rows that refer to the table are not selected. -/
theorem Tables.Consistent.deleting (hdb : db.Consistent keys) (hkeys : keys.Clearing)
    (hrefer : ∀ c, ∀ k ∈ keys c, k.parent = t → k.cleared = none → ∀ x ∈ db.without q t c,
      ∀ y ∈ db k.parent, k.references x = some (k.key y) → q k.parent y = false) :
    (db.deleting keys q t).Consistent keys := by
  intro c k hk
  rw [ForeignKey.holds_iff]
  intro x' hx'
  obtain ⟨x, hx, rfl⟩ := List.mem_map.mp hx'
  rw [ForeignKey.found_iff]
  intro v hv
  -- What the row still refers to, it referred to before.
  have hbefore : k.references x = some v := by
    rcases hkeys.references hk x with h | h
    · rw [h] at hv
      cases hv
    · exact h ▸ hv
  have hfound : k.found db x = true :=
    ForeignKey.holds_iff.mp (hdb c k hk) x (rows_without_subset hx)
  obtain ⟨y, hy, hkey⟩ := ForeignKey.found_iff.mp hfound v hbefore
  rw [(hkeys.isFirm hk).deleting]
  by_cases hparent : k.parent = t
  · cases hf : k.cleared with
    | none =>
      have hstays : q k.parent y = false :=
        hrefer c k hk hparent hf x hx y hy (by rw [hbefore, hkey])
      exact ⟨y, mem_rows_without.mpr ⟨hy, fun _ => hstays⟩, hkey⟩
    | some f =>
      rcases hkeys.released hk hparent hf x with h | h
      · rw [h] at hv
        cases hv
      · exact ForeignKey.found_iff.mp h v hbefore
  · exact ⟨y, mem_rows_without.mpr ⟨hy, fun h => absurd h hparent⟩, hkey⟩

/-- The tables after some of them have been emptied of what is selected. -/
def Tables.emptied (keys : ForeignKeys Row) (q : ∀ t, Row t → Bool) (ts : List T)
    (db : Tables Row) : Tables Row := ts.foldl (fun db t => db.deleting keys q t) db

/-- A deletion keeps the agreement. -/
theorem Tables.Agrees.deleting (h : db.Agrees keys q ts) (hkeys : keys.Clearing) :
    (db.deleting keys q t).Agrees keys q ts := by
  intro c hc k hk hparent x hx y hy
  rw [hc.deleting] at hx
  rw [(hkeys.isFirm hk).deleting] at hy
  exact h c hc k hk hparent x (rows_without_subset hx) y (rows_without_subset hy)

/-- In order, the deletions are not refused, and the foreign keys hold after them. -/
theorem deleteAll_of_ordered [Fintype T] (hkeys : keys.Clearing) {ts emptied : List T}
    (hordered : Ordered keys emptied ts) (hfirm : ∀ t ∈ emptied, keys.IsFirm t)
    (hdb : db.Consistent keys) (hemptied : db.Emptied q emptied) (hagrees : db.Agrees keys q ts) :
    Tables.deleteAll keys q ts db = some (db.emptied keys q ts) ∧
      (db.emptied keys q ts).Consistent keys := by
  induction ts generalizing db emptied with
  | nil => exact ⟨rfl, hdb⟩
  | cons t ts ih =>
    obtain ⟨⟨hfirst, hearlier⟩, hordered⟩ := hordered
    have htable : keys.IsFirm t := fun k hk => Option.isNone_iff_eq_none.mp (hfirst k hk)
    have hconsistent : (db.deleting keys q t).Consistent keys := by
      refine hdb.deleting hkeys fun c k hk hparent hcleared x hx y hy hrefers => ?_
      obtain ⟨hmem, hnone⟩ := hearlier c k hk hparent (Option.isNone_iff_eq_none.mpr hcleared)
      have hc : keys.IsFirm c := fun k' hk' => Option.isNone_iff_eq_none.mp (hnone k' hk')
      -- A selected row would be referred to by a selected row, which is gone.
      by_contra hy'
      have hx' : q c x = true := hagrees c hc k hk (by simp [hparent]) x (rows_without_subset hx)
        y hy hrefers (Bool.eq_true_of_not_eq_false hy')
      have hgone : q c x = false := by
        rcases List.mem_cons.mp hmem with h | h
        · exact (mem_rows_without.mp hx).2 h
        · exact hemptied c h x (rows_without_subset hx)
      rw [hgone] at hx'
      cases hx'
    have hdelete : db.delete keys q t = some (db.deleting keys q t) := if_pos hconsistent
    have hnext : (db.deleting keys q t).Emptied q (t :: emptied) := by
      intro t' ht' x hx
      rcases List.mem_cons.mp ht' with rfl | ht'
      · rw [htable.deleting] at hx
        exact (mem_rows_without.mp hx).2 rfl
      · rw [(hfirm t' ht').deleting] at hx
        exact hemptied t' ht' x (rows_without_subset hx)
    have hagrees' : db.Agrees keys q ts := fun c hc k hk hparent =>
      hagrees c hc k hk (List.mem_cons_of_mem _ hparent)
    obtain ⟨hrest, hconsistent'⟩ := ih hordered (List.forall_mem_cons.mpr ⟨htable, hfirm⟩)
      hconsistent hnext (hagrees'.deleting hkeys)
    refine ⟨?_, hconsistent'⟩
    rw [Tables.deleteAll, hdelete]
    exact hrest

/-- A table of which no reference is cleared loses what is selected of it, if it is among them. -/
theorem emptied_of_forall {ts : List T}
    (h : ∀ k ∈ keys c, k.parent ∈ ts → k.cleared = none) :
    db.emptied keys q ts c = if c ∈ ts then (db c).filter (!q c ·) else db c := by
  unfold Tables.emptied
  induction ts generalizing db with
  | nil => rfl
  | cons t ts ih =>
    rw [List.foldl_cons, ih fun k hk hparent => h k hk (List.mem_cons_of_mem _ hparent),
      deleting_of_forall fun k hk hparent => h k hk (hparent ▸ List.mem_cons_self)]
    unfold Tables.without
    by_cases hc : c = t <;> by_cases hts : c ∈ ts <;>
      simp [hc, hts, List.filter_filter]

/-- Tables are emptied one after the other. -/
theorem emptied_append {ts ts' : List T} :
    db.emptied keys q (ts ++ ts') = (db.emptied keys q ts).emptied keys q ts' :=
  List.foldl_append

end

end TaskTipsCloud

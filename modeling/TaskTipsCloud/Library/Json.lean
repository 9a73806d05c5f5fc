import Mathlib

/-!
# JSON values

A JSON value, whose numbers are integers or floating-point numbers given by their bits, and whose
objects keep their members in the order in which they were written, each name once. The readers are
those that a program uses to turn a value into a record: a member by its name, a value of one type,
an integer in a range, and a member that may be absent or `null`.
-/

namespace TaskTipsCloud

/-- A JSON value. -/
inductive Json where
  | null
  | bool (b : Bool)
  | num (n : ℤ)
  | float (bits : UInt64)
  | str (s : String)
  | arr (items : List Json)
  | obj (members : List (String × Json))

namespace Json

/-- The value of an option, or `null`. -/
def ofOption {α : Type} (f : α → Json) : Option α → Json
  | some a => f a
  | none => .null

/-- The member of an object with the name `key`. -/
def get? (j : Json) (key : String) : Option Json :=
  match j with
  | .obj members => (members.find? (·.1 == key)).map (·.2)
  | _ => none

/-- The items of an array. -/
def arr? : Json → Option (List Json)
  | .arr items => some items
  | _ => none

/-- A string. -/
def str? : Json → Option String
  | .str s => some s
  | _ => none

/-- A truth value. -/
def bool? : Json → Option Bool
  | .bool b => some b
  | _ => none

/-- An integer from `lo` to `hi`. -/
def int? (lo hi : ℤ) : Json → Option ℤ
  | .num n => if lo ≤ n ∧ n ≤ hi then some n else none
  | _ => none

/-- An integer of 32 bits. -/
def i32? : Json → Option ℤ := int? (-2 ^ 31) (2 ^ 31 - 1)

/-- An integer of 64 bits. -/
def i64? : Json → Option ℤ := int? (-2 ^ 63) (2 ^ 63 - 1)

/-- A member that is absent or `null`, or that `f` reads. -/
def optional {α : Type} (j : Json) (key : String) (f : Json → Option α) : Option (Option α) :=
  match j.get? key with
  | none => some none
  | some .null => some none
  | some v => (f v).map some

/-- Members with the first that has the name `key` replaced. -/
def setMember (key : String) (v : Json) : List (String × Json) → List (String × Json)
  | [] => []
  | m :: members => if m.1 = key then (key, v) :: members else m :: setMember key v members

/-- An object with the member `key` replaced by `v`; any other value is left as it is. -/
def set (j : Json) (key : String) (v : Json) : Json :=
  match j with
  | .obj members => .obj (setMember key v members)
  | _ => j

/-- A value is written as itself. -/
@[simp] theorem ofOption_some {α : Type} (f : α → Json) (a : α) : ofOption f (some a) = f a := rfl

/-- No value is written as `null`. -/
@[simp] theorem ofOption_none {α : Type} (f : α → Json) : ofOption f none = .null := rfl

/-- A member is the first one of its name, or one of the others. -/
@[simp] theorem get?_obj_cons (key name : String) (v : Json) (members : List (String × Json)) :
    (Json.obj ((name, v) :: members)).get? key =
      if name == key then some v else (Json.obj members).get? key := by
  by_cases h : name == key <;> simp [get?, List.find?, h]

/-- An object without members has none. -/
@[simp] theorem get?_obj_nil (key : String) : (Json.obj []).get? key = none := rfl

/-- A member that is set is there, when it was there before. -/
theorem get?_set (j v : Json) (key name : String) :
    (j.set key v).get? name = if name = key then (j.get? key).map fun _ => v else j.get? name := by
  cases j with
  | obj members =>
    rw [set]
    induction members with
    | nil => split <;> rfl
    | cons m members ih =>
      obtain ⟨a, b⟩ := m
      rw [setMember]
      by_cases hkey : a = key <;> by_cases hname : name = key <;> by_cases ha : a = name <;>
        simp_all
  | _ => rw [set] <;> simp [get?]

/-- A member that is replaced by itself. -/
theorem set_of_get? {j v : Json} {key : String} (h : j.get? key = some v) : j.set key v = j := by
  cases j with
  | obj members =>
    rw [set]
    congr 1
    induction members with
    | nil => rfl
    | cons m members ih =>
      obtain ⟨a, b⟩ := m
      rw [setMember]
      by_cases hkey : a = key
      · have hv : b = v := by simpa [hkey] using h
        rw [if_pos hkey, hkey, hv]
      · rw [if_neg hkey, ih (by simpa [hkey] using h)]
  | _ => rfl

/-- An array has its items. -/
@[simp] theorem arr?_arr (items : List Json) : (Json.arr items).arr? = some items := rfl

/-- A text is itself. -/
@[simp] theorem str?_str (s : String) : (Json.str s).str? = some s := rfl

/-- A truth value is itself. -/
@[simp] theorem bool?_bool (b : Bool) : (Json.bool b).bool? = some b := rfl

/-- A number of 32 bits is itself. -/
theorem i32?_num {n : ℤ} (h : -2 ^ 31 ≤ n ∧ n ≤ 2 ^ 31 - 1) : (Json.num n).i32? = some n :=
  if_pos h

/-- A number of 64 bits is itself. -/
theorem i64?_num {n : ℤ} (h : -2 ^ 63 ≤ n ∧ n ≤ 2 ^ 63 - 1) : (Json.num n).i64? = some n :=
  if_pos h

/-- Reading back a member that was written from an option. -/
theorem optional_ofOption {α : Type} {j : Json} {key : String} {f : Json → Option α}
    {g : α → Json} {o : Option α} (hget : j.get? key = some (ofOption g o))
    (hnull : ∀ a, o = some a → g a ≠ .null) (hread : ∀ a, o = some a → f (g a) = some a) :
    j.optional key f = some o := by
  unfold optional
  rw [hget]
  cases o with
  | none => rfl
  | some a =>
    have hne : g a ≠ .null := hnull a rfl
    have hfa : f (g a) = some a := hread a rfl
    rw [ofOption_some]
    cases hg : g a with
    | null => exact absurd hg hne
    | bool | num | float | str | arr | obj =>
      rw [hg] at hfa
      simp only [hfa, Option.map_some]

end Json

end TaskTipsCloud

import TaskTipsCloud.Library.Json
import TaskTipsCloud.Library.Segments

/-!
# The compact text of flat objects

Objects whose members are `null`, integers and texts without commas are written without blanks, and
a reader that splits the text at the commas and each member at its first colon reads them back.
-/

namespace TaskTipsCloud

namespace JsonText

/-- The quote. -/
def quote : Char := Char.ofNat 34

/-- What objects start with. -/
def opening : Char := Char.ofNat 123

/-- What objects end with. -/
def closing : Char := Char.ofNat 125

/-- A text in quotes. -/
def stringText (s : String) : List Char := quote :: s.toList ++ [quote]

/-- A value without members, as it is written. -/
def valueText : Json → List Char
  | .num n => n.repr.toList
  | .str s => stringText s
  | _ => "null".toList

/-- A member, as it is written. -/
def memberText (m : String × Json) : List Char := stringText m.1 ++ ':' :: valueText m.2

/-- An object, as it is written. -/
def objectText (members : List (String × Json)) : List Char :=
  opening :: [','].intercalate (members.map memberText) ++ [closing]

/-- What stands between two characters. -/
def readBetween (start stop : Char) : List Char → Option (List Char)
  | c :: cs => if c = start ∧ cs.getLast? = some stop then some cs.dropLast else none
  | [] => none

/-- Reads a text in quotes. -/
def readString (cs : List Char) : Option String := (readBetween quote quote cs).map String.ofList

/-- Reads the digits of a number. -/
def readNat (cs : List Char) : Option ℕ :=
  if cs ≠ [] ∧ cs.all Char.isDigit then some (Nat.ofDigitChars 10 cs 0) else none

/-- Reads an integer. -/
def readInt : List Char → Option ℤ
  | '-' :: cs => (readNat cs).map fun n : ℕ => -(n : ℤ)
  | cs => (readNat cs).map Int.ofNat

/-- Reads a value without members. -/
def readValue (cs : List Char) : Option Json :=
  if cs = "null".toList then some .null
  else (readString cs).elim ((readInt cs).map .num) fun s => some (.str s)

/-- Reads a member. -/
def readMember (cs : List Char) : Option (String × Json) := do
  let (name, value) ← splitOnce ':' cs
  return (← readString name, ← readValue value)

/-- Reads an object with members. -/
def readObject (cs : List Char) : Option Json := do
  let inner ← readBetween opening closing cs
  return .obj (← (inner.splitOn ',').mapM readMember)

/-- A value that the reader reads. -/
inductive PlainValue : Json → Prop
  | null : PlainValue .null
  | num (n : ℤ) : PlainValue (.num n)
  | str {s : String} (h : ',' ∉ s.toList) : PlainValue (.str s)

/-- A member that the reader reads. -/
structure PlainMember (m : String × Json) : Prop where
  comma : ',' ∉ m.1.toList
  colon : ':' ∉ m.1.toList
  value : PlainValue m.2

/-- What stands between two characters is read. -/
theorem readBetween_append (start stop : Char) (cs : List Char) :
    readBetween start stop (start :: cs ++ [stop]) = some cs := by
  simp [readBetween]

/-- A text is read back. -/
theorem readString_stringText (s : String) : readString (stringText s) = some s := by
  rw [readString, stringText, readBetween_append, Option.map_some, String.ofList_toList]

/-- The characters of an integer. -/
theorem mem_repr {n : ℤ} {c : Char} (h : c ∈ n.repr.toList) : c = '-' ∨ c.isDigit = true := by
  have hnat {k : ℕ} (hk : c ∈ k.repr.toList) : c.isDigit = true := by
    rw [Nat.repr_eq_ofList_toDigits, String.toList_ofList] at hk
    exact Nat.isDigit_of_mem_toDigits (by decide) (by decide) hk
  cases n with
  | ofNat k => exact .inr (hnat h)
  | negSucc k =>
    have hsplit : (Int.negSucc k).repr.toList = '-' :: (k + 1).repr.toList := by
      simp [Int.repr]
    rw [hsplit] at h
    rcases List.mem_cons.mp h with hc | hc
    · exact .inl hc
    · exact .inr (hnat hc)

/-- A natural number is read back. -/
theorem readNat_repr (n : ℕ) : readNat n.repr.toList = some n := by
  have hdigits : n.repr.toList = Nat.toDigits 10 n := by
    rw [Nat.repr_eq_ofList_toDigits, String.toList_ofList]
  have hall : (Nat.toDigits 10 n).all Char.isDigit = true := List.all_eq_true.mpr fun c hc =>
    Nat.isDigit_of_mem_toDigits (by decide) (by decide) hc
  rw [hdigits, readNat, if_pos ⟨Nat.toDigits_ne_nil, hall⟩, Nat.ofDigitChars_ten_toDigits]

/-- An integer is read back. -/
theorem readInt_repr (n : ℤ) : readInt n.repr.toList = some n := by
  cases n with
  | ofNat k =>
    have hne : ∀ cs, k.repr.toList ≠ '-' :: cs := fun cs h => by
      have hdash : '-' ∈ k.repr.toList := h ▸ List.mem_cons_self
      rw [Nat.repr_eq_ofList_toDigits, String.toList_ofList] at hdash
      have hdigit := Nat.isDigit_of_mem_toDigits (by decide) (by decide) hdash
      revert hdigit
      decide
    show readInt k.repr.toList = _
    unfold readInt
    split
    · next cs h => exact absurd h (hne cs)
    · rw [readNat_repr, Option.map_some]
  | negSucc k =>
    have hsplit : (Int.negSucc k).repr.toList = '-' :: (k + 1).repr.toList := by
      simp [Int.repr]
    rw [hsplit, readInt, readNat_repr, Option.map_some]
    rfl

/-- A plain value is read back. -/
theorem readValue_valueText {v : Json} (h : PlainValue v) : readValue (valueText v) = some v := by
  cases h with
  | null => rfl
  | num n =>
    have hchars {c : Char} (hc : c ∈ n.repr.toList) : c ≠ 'n' ∧ c ≠ quote := by
      rcases mem_repr hc with rfl | hdigit
      · decide
      · constructor <;> rintro rfl <;> revert hdigit <;> decide
    have hnull : n.repr.toList ≠ "null".toList := fun h => by
      have hn : 'n' ∈ n.repr.toList := by
        rw [h]
        decide
      exact (hchars hn).1 rfl
    have hstring : readString n.repr.toList = none := by
      cases hcs : n.repr.toList with
      | nil => rfl
      | cons c cs =>
        have hc : c ≠ quote := (hchars (hcs ▸ List.mem_cons_self)).2
        rw [readString, readBetween, if_neg fun h => hc h.1, Option.map_none]
    rw [valueText, readValue, if_neg hnull, hstring, Option.elim_none, readInt_repr,
      Option.map_some]
  | @str s hs =>
    have hnull : stringText s ≠ "null".toList := fun h => by
      have hquote : quote = 'n' := (List.cons.inj h).1
      revert hquote
      decide
    rw [valueText, readValue, if_neg hnull, readString_stringText, Option.elim_some]

/-- A plain member is read back. -/
theorem readMember_memberText {m : String × Json} (h : PlainMember m) :
    readMember (memberText m) = some m := by
  have hcolon : ':' ∉ stringText m.1 := by
    have hquote : ':' ≠ quote := by decide
    simp [stringText, hquote, h.colon]
  rw [readMember, memberText, splitOnce_append hcolon]
  simp [readString_stringText, readValue_valueText h.value]

/-- A plain member has no comma. -/
theorem notMem_memberText {m : String × Json} (h : PlainMember m) : ',' ∉ memberText m := by
  have hquote : ',' ≠ quote := by decide
  have hvalue : ',' ∉ valueText m.2 := by
    have hplain := h.value
    generalize m.2 = v at hplain
    cases hplain with
    | null =>
      show ',' ∉ "null".toList
      decide
    | num n => exact fun hc => by rcases mem_repr hc with hc | hc <;> revert hc <;> decide
    | str hs => simp [valueText, stringText, hquote, hs]
  simp [memberText, stringText, hquote, h.comma, hvalue]

/-- An object that is written is read back. -/
theorem readObject_objectText {members : List (String × Json)} (hne : members ≠ [])
    (h : ∀ m ∈ members, PlainMember m) : readObject (objectText members) = some (.obj members) := by
  have hsplit : ([','].intercalate (members.map memberText)).splitOn ',' =
      members.map memberText :=
    List.splitOn_intercalate ',' (List.forall_mem_map.mpr fun m hm => notMem_memberText (h m hm))
      (by simpa using hne)
  have hread : (members.map memberText).mapM readMember = some members := by
    clear hsplit hne
    induction members with
    | nil => rfl
    | cons m members ih =>
      rw [List.map_cons, List.mapM_cons, readMember_memberText (h m List.mem_cons_self),
        ih fun m' hm => h m' (List.mem_cons_of_mem _ hm)]
      rfl
  rw [readObject, objectText, readBetween_append]
  simp [hsplit, hread]

end JsonText

end TaskTipsCloud

import Mathlib

/-!
# UUIDs and their text

A UUID is a 128-bit value. Its text is the hyphenated one: thirty-two hexadecimal digits in groups
of 8, 4, 4, 4 and 12. Reading the text of a UUID gives it back.
-/

namespace TaskTipsCloud

/-- A UUID. -/
abbrev Uuid := BitVec 128

namespace Uuid

/-- The last `k` hexadecimal digits of `n`, highest first. -/
def hexDigits : ℕ → ℕ → List ℕ
  | 0, _ => []
  | k + 1, n => hexDigits k (n / 16) ++ [n % 16]

/-- The character of a hexadecimal digit. -/
def hexChar (n : ℕ) : Char := "0123456789abcdef".toList.getD n '0'

/-- The value of a hexadecimal digit. -/
def hexValue (c : Char) : Option ℕ :=
  if '0' ≤ c ∧ c ≤ '9' then some (c.toNat - '0'.toNat)
  else if 'a' ≤ c ∧ c ≤ 'f' then some (c.toNat - 'a'.toNat + 10)
  else if 'A' ≤ c ∧ c ≤ 'F' then some (c.toNat - 'A'.toNat + 10)
  else none

/-- The lengths of the groups. -/
def groups : List ℕ := [8, 4, 4, 4, 12]

/-- The characters in groups of the given lengths, with hyphens between them. -/
def hyphenate : List ℕ → List Char → List Char
  | [], _ => []
  | [n], cs => cs.take n
  | n :: ns, cs => cs.take n ++ '-' :: hyphenate ns (cs.drop n)

/-- The characters of groups of exactly the given lengths with hyphens between them. -/
def unhyphenate : List ℕ → List Char → Option (List Char)
  | [], cs => if cs = [] then some [] else none
  | [n], cs => if cs.length = n then some cs else none
  | n :: ns, cs =>
    match cs.drop n with
    | '-' :: rest => (unhyphenate ns rest).map (cs.take n ++ ·)
    | _ => none

/-- The text of a UUID. -/
def text (u : Uuid) : String :=
  String.ofList (hyphenate groups ((hexDigits 32 u.toNat).map hexChar))

/-- The number that hexadecimal digits stand for. -/
def ofHex (ds : List ℕ) : ℕ := ds.foldl (fun n d => n * 16 + d) 0

/-- The digits in a text of a UUID: without hyphens, with them, in braces, or as a URN. -/
def digitsOf (cs : List Char) : Option (List Char) :=
  if cs.length = 32 then some cs
  else if cs.length = 36 then unhyphenate groups cs
  else if cs.length = 38 ∧ cs.head? = some (Char.ofNat 123) ∧
      cs.getLast? = some (Char.ofNat 125) then
    unhyphenate groups (cs.drop 1).dropLast
  else if cs.length = 45 ∧ cs.take 9 = "urn:uuid:".toList then unhyphenate groups (cs.drop 9)
  else none

/-- Reads a text of a UUID. -/
def parse (s : String) : Option Uuid := do
  let cs ← digitsOf s.toList
  let ds ← cs.mapM hexValue
  return BitVec.ofNat 128 (ofHex ds)

/-- A number is written with the given width. -/
@[simp] theorem length_hexDigits (k n : ℕ) : (hexDigits k n).length = k := by
  induction k generalizing n with
  | zero => rfl
  | succ k ih => simp [hexDigits, ih]

/-- The digits are hexadecimal. -/
theorem lt_of_mem_hexDigits {k n d : ℕ} (h : d ∈ hexDigits k n) : d < 16 := by
  induction k generalizing n with
  | zero => simp [hexDigits] at h
  | succ k ih =>
    simp only [hexDigits, List.mem_append, List.mem_singleton] at h
    rcases h with h | rfl
    · exact ih h
    · omega

/-- The last `k` digits of `n` stand for `n` modulo `16 ^ k`. -/
theorem ofHex_hexDigits (k n : ℕ) : ofHex (hexDigits k n) = n % 16 ^ k := by
  induction k generalizing n with
  | zero => simp [hexDigits, ofHex, Nat.mod_one]
  | succ k ih =>
    have hlast : ofHex (hexDigits k (n / 16) ++ [n % 16]) =
        ofHex (hexDigits k (n / 16)) * 16 + n % 16 := by simp [ofHex]
    rw [hexDigits, hlast, ih, pow_succ, mul_comm (16 ^ k), Nat.mod_mul]
    ring

/-- A digit is read back. -/
theorem hexValue_hexChar : ∀ d, d < 16 → hexValue (hexChar d) = some d := by decide

/-- Reading the characters of digits gives the digits back. -/
theorem mapM_hexValue (ds : List ℕ) (h : ∀ d ∈ ds, d < 16) :
    (ds.map hexChar).mapM hexValue = some ds := by
  induction ds with
  | nil => rfl
  | cons d ds ih =>
    have hd : hexValue (hexChar d) = some d := hexValue_hexChar d (h d List.mem_cons_self)
    have hds := ih fun x hx => h x (List.mem_cons_of_mem _ hx)
    simp [List.mapM_cons, hd, hds]

/-- Groups that are written from enough characters are read back. -/
theorem unhyphenate_hyphenate (ns : List ℕ) (cs : List Char) (h : cs.length = ns.sum) :
    unhyphenate ns (hyphenate ns cs) = some cs := by
  induction ns generalizing cs with
  | nil =>
    have hcs : cs = [] := List.eq_nil_of_length_eq_zero h
    simp [hyphenate, unhyphenate, hcs]
  | cons n ns ih =>
    cases ns with
    | nil =>
      have hlen : cs.length = n := by simpa using h
      simp [hyphenate, unhyphenate, ← hlen]
    | cons m ms =>
      simp only [List.sum_cons] at h ih
      have htake : (cs.take n).length = n := by simp; omega
      have hrest : (cs.drop n).length = m + ms.sum := by simp; omega
      rw [hyphenate, unhyphenate, List.drop_left' htake, List.take_left' htake]
      · simp only [ih _ hrest, Option.map_some, List.take_append_drop]
      · simp
      · simp

/-- The groups of 32 digits have 36 characters with the hyphens. -/
theorem length_hyphenate_groups {cs : List Char} (h : cs.length = 32) :
    (hyphenate groups cs).length = 36 := by
  simp only [groups, hyphenate, List.length_append, List.length_cons, List.length_take,
    List.length_drop, h]
  decide

/-- The characters between the hyphens are the given ones. -/
theorem mem_hyphenate {ns : List ℕ} {cs : List Char} {c : Char} (h : c ∈ hyphenate ns cs) :
    c = '-' ∨ c ∈ cs := by
  induction ns generalizing cs with
  | nil => simp [hyphenate] at h
  | cons n ns ih =>
    cases ns with
    | nil => exact .inr (List.mem_of_mem_take h)
    | cons m ms =>
      simp only [hyphenate, List.mem_append, List.mem_cons] at h
      rcases h with h | rfl | h
      · exact .inr (List.mem_of_mem_take h)
      · exact .inl rfl
      · exact (ih h).imp_right List.mem_of_mem_drop

/-- A digit is written in lower case. -/
theorem hexChar_mem : ∀ d, d < 16 → hexChar d ∈ "0123456789abcdef".toList := by decide

/-- The text of a UUID consists of lower-case hexadecimal digits and hyphens. -/
theorem mem_text {u : Uuid} {c : Char} (h : c ∈ u.text.toList) :
    c = '-' ∨ c ∈ "0123456789abcdef".toList := by
  rw [text, String.toList_ofList] at h
  refine (mem_hyphenate h).imp_right fun hc => ?_
  obtain ⟨d, hd, rfl⟩ := List.mem_map.mp hc
  exact hexChar_mem d (lt_of_mem_hexDigits hd)

/-- Reading the text of a UUID gives it back. -/
theorem parse_text (u : Uuid) : parse (text u) = some u := by
  have hlen : ((hexDigits 32 u.toNat).map hexChar).length = groups.sum := by
    simp [groups]
  have hdigits := mapM_hexValue (hexDigits 32 u.toNat) fun d hd => lt_of_mem_hexDigits hd
  have hvalue : ofHex (hexDigits 32 u.toNat) = u.toNat := by
    rw [ofHex_hexDigits]
    exact Nat.mod_eq_of_lt u.isLt
  unfold parse text
  have hlength : (hyphenate groups ((hexDigits 32 u.toNat).map hexChar)).length = 36 :=
    length_hyphenate_groups (by simp)
  rw [String.toList_ofList, digitsOf, if_neg (by omega), if_pos hlength,
    unhyphenate_hyphenate _ _ hlen]
  simp [hdigits, hvalue]

end Uuid

end TaskTipsCloud

import TaskTipsCloud.Library.Calendar

/-!
# Texts of instants

The texts of instants in UTC with a fraction of any length up to nanoseconds, as RFC 3339 has them,
and a reader of such texts.
-/

namespace TaskTipsCloud

namespace DateTimeText

open Calendar

/-! ## Digits -/

/-- The decimal digits of a number in a width. -/
def decimal : ℕ → ℕ → List Char
  | 0, _ => []
  | w + 1, n => decimal w (n / 10) ++ [Nat.digitChar (n % 10)]

/-- Digits without the zeros at the end. -/
def dropZeros (digits : List Char) : List Char := digits.rdropWhile (· = '0')

/-- The nanoseconds of a fraction of a second. -/
def nanosOf (digits : List Char) : ℕ :=
  Nat.ofDigitChars 10 ((digits ++ List.replicate 9 '0').take 9) 0

/-- A number is written with the given width. -/
theorem length_decimal (w n : ℕ) : (decimal w n).length = w := by
  induction w generalizing n with
  | zero => rfl
  | succ w ih => rw [decimal, List.length_append, ih, List.length_singleton]

/-- The characters of digits are digits. -/
theorem isDigit_digitChar : ∀ n, n < 10 → (Nat.digitChar n).isDigit = true := by decide

/-- A number is written in digits. -/
theorem isDigit_of_mem_decimal {w n : ℕ} {c : Char} (h : c ∈ decimal w n) : c.isDigit = true := by
  induction w generalizing n with
  | zero => cases h
  | succ w ih =>
    rcases List.mem_append.mp h with h | h
    · exact ih h
    · rw [List.mem_singleton.mp h]
      exact isDigit_digitChar _ (Nat.mod_lt _ (by decide))

/-- The digits of a number are those of its value below the width. -/
theorem ofDigitChars_decimal (w n : ℕ) : Nat.ofDigitChars 10 (decimal w n) 0 = n % 10 ^ w := by
  induction w generalizing n with
  | zero => rw [decimal, Nat.ofDigitChars_nil, Nat.pow_zero, Nat.mod_one]
  | succ w ih =>
    rw [decimal, Nat.ofDigitChars_append, ih,
      Nat.ofDigitChars_cons_digitChar_of_lt_ten (Nat.mod_lt _ (by decide)), Nat.ofDigitChars_nil,
      Nat.pow_succ', Nat.mod_mul, Nat.add_comm]

/-- Digits of which only zeros are left out are a fraction of the same nanoseconds. -/
theorem nanosOf_take {n k : ℕ} (hn : n < 10 ^ 9) (h : ∀ c ∈ (decimal 9 n).drop k, c = '0') :
    nanosOf ((decimal 9 n).take k) = n := by
  have hlength := length_decimal 9 n
  have hsplit : ((decimal 9 n).take k ++ List.replicate 9 '0').take 9 = decimal 9 n := by
    have hzeros : (decimal 9 n).drop k = List.replicate (9 - k) '0' :=
      List.eq_replicate_iff.mpr ⟨by rw [List.length_drop, hlength], h⟩
    conv_rhs => rw [← List.take_append_drop k (decimal 9 n), hzeros]
    rw [List.take_append, List.take_take, List.length_take, hlength, List.take_replicate]
    congr 1
    · rw [Nat.min_comm]
      rcases Nat.le_total k 9 with hk | hk
      · rw [Nat.min_eq_left hk]
      · rw [Nat.min_eq_right hk, List.take_of_length_le (by omega),
          List.take_of_length_le (by omega)]
    · congr 1
      omega
  rw [nanosOf, hsplit, ofDigitChars_decimal, Nat.mod_eq_of_lt hn]

/-- Zeros that are left out do not matter to what is left without the zeros at the end. -/
theorem dropZeros_take {digits : List Char} {k : ℕ} (h : ∀ c ∈ digits.drop k, c = '0') :
    dropZeros (digits.take k) = dropZeros digits := by
  conv_rhs => rw [← List.take_append_drop k digits]
  generalize digits.drop k = zeros at h
  generalize digits.take k = digits'
  induction zeros using List.reverseRecOn with
  | nil => rw [List.append_nil]
  | append_singleton zeros c ih =>
    have hc : c = '0' := h c (by simp)
    rw [ih fun c hmem => h c (List.mem_append_left _ hmem), dropZeros, dropZeros,
      ← List.append_assoc, List.rdropWhile_concat_pos _ _ _ (by rw [hc]; rfl)]

/-! ## Texts -/

/-- The text of a date. -/
def dateText (d : Date) : List Char :=
  decimal 4 d.year ++ '-' :: (decimal 2 d.month ++ '-' :: decimal 2 d.day)

/-- The text of a time, to the second. -/
def clockText (c : Clock) : List Char :=
  decimal 2 c.hour ++ ':' :: (decimal 2 c.minute ++ ':' :: decimal 2 c.second)

/-- A fraction, if it has digits. -/
def fraction : List Char → List Char
  | [] => []
  | digits => '.' :: digits

/-- The RFC 3339 text of an instant in UTC, with the digits of its fraction. -/
def utcText (d : Date) (c : Clock) (digits : List Char) : List Char :=
  dateText d ++ 'T' :: (clockText c ++ (fraction digits ++ ['Z']))

/-- A text in UTC without the zeros at the end of its fraction. -/
def trimFraction (cs : List Char) : List Char :=
  if cs.getLast? = some 'Z' ∧ '.' ∈ cs then
    (dropZeros cs.dropLast).rdropWhile (· = '.') ++ ['Z']
  else cs

/-- Dropping zeros leaves digits of the number. -/
theorem isDigit_of_mem_dropZeros {digits : List Char} {c : Char} (h : c ∈ dropZeros digits) :
    c ∈ digits := (List.rdropWhile_prefix _ _).subset h

/-- Only zeros at the end are dropped. -/
theorem dropZeros_append_cons {cs digits : List Char} {c : Char} (hc : c ≠ '0') :
    dropZeros (cs ++ c :: digits) = cs ++ c :: dropZeros digits := by
  induction digits using List.reverseRecOn with
  | nil => exact List.rdropWhile_concat_neg _ _ _ (by simpa using hc)
  | append_singleton digits d ih =>
    have hsplit : cs ++ c :: (digits ++ [d]) = (cs ++ c :: digits) ++ [d] := by simp
    unfold dropZeros at ih ⊢
    rw [hsplit, List.rdropWhile_concat, List.rdropWhile_concat]
    split
    · exact ih
    · simp

/-- The characters of a date and a time are digits and signs. -/
theorem notMem_dateText {d : Date} {c : Char} (hdigit : c.isDigit = false) (hdash : c ≠ '-') :
    c ∉ dateText d := by
  have hnot {w n : ℕ} : c ∉ decimal w n := fun h => by
    rw [isDigit_of_mem_decimal h] at hdigit
    cases hdigit
  simp [dateText, hnot, hdash]

/-- The text of a time has digits and colons only. -/
theorem notMem_clockText {c : Clock} {x : Char} (hdigit : x.isDigit = false) (hcolon : x ≠ ':') :
    x ∉ clockText c := by
  have hnot {w n : ℕ} : x ∉ decimal w n := fun h => by
    rw [isDigit_of_mem_decimal h] at hdigit
    cases hdigit
  simp [clockText, hnot, hcolon]

/-- Without the zeros, a text in UTC is the one with the zeros left out. -/
theorem trimFraction_utcText {d : Date} {c : Clock} {digits : List Char}
    (h : ∀ x ∈ digits, x.isDigit = true) :
    trimFraction (utcText d c digits) = utcText d c (dropZeros digits) := by
  have hdate : '.' ∉ dateText d := notMem_dateText (by decide) (by decide)
  have hclock : '.' ∉ clockText c := notMem_clockText (by decide) (by decide)
  cases digits with
  | nil =>
    have hnone : '.' ∉ utcText d c [] := by simp [utcText, fraction, hdate, hclock]
    rw [trimFraction, if_neg fun h => hnone h.2]
    rfl
  | cons x digits =>
    have hsplit : utcText d c (x :: digits) =
        (dateText d ++ 'T' :: clockText c) ++ '.' :: (x :: digits) ++ ['Z'] := by
      simp [utcText, fraction]
    rw [hsplit, trimFraction, if_pos ⟨List.getLast?_concat, by simp⟩, List.dropLast_concat,
      dropZeros_append_cons (by decide)]
    have hdigits : ∀ y ∈ dropZeros (x :: digits), y.isDigit = true := fun y hy =>
      h y (isDigit_of_mem_dropZeros hy)
    generalize dropZeros (x :: digits) = rest at hdigits
    have hstem : (dateText d ++ 'T' :: clockText c).rdropWhile (· = '.') =
        dateText d ++ 'T' :: clockText c := by
      refine List.rdropWhile_eq_self_iff.mpr fun hne hdot => ?_
      have hmem := List.getLast_mem hne
      rw [of_decide_eq_true hdot] at hmem
      simp [hdate, hclock] at hmem
    cases rest using List.reverseRecOn with
    | nil =>
      rw [List.rdropWhile_concat_pos _ _ _ (by decide), hstem]
      simp [utcText, fraction]
    | append_singleton rest y =>
      have hy : y ≠ '.' := fun hdot => by
        have hdigit := hdigits y (by simp)
        rw [hdot] at hdigit
        exact absurd hdigit (by decide)
      have hlast : (dateText d ++ 'T' :: clockText c) ++ '.' :: (rest ++ [y]) =
          ((dateText d ++ 'T' :: clockText c) ++ '.' :: rest) ++ [y] := by simp
      rw [hlast, List.rdropWhile_concat_neg _ _ _ (by simpa using hy)]
      cases rest <;> simp [utcText, fraction]

/-! ## Reading -/

/-- Reads digits in a width. -/
def readDigits (w : ℕ) (cs : List Char) : Option (ℕ × List Char) :=
  if (cs.take w).length = w ∧ (cs.take w).all Char.isDigit then
    some (Nat.ofDigitChars 10 (cs.take w) 0, cs.drop w)
  else none

/-- Reads a character. -/
def readChar (c : Char) : List Char → Option (List Char)
  | x :: cs => if x = c then some cs else none
  | [] => none

/-- Reads what separates the date from the time: any character of one byte. -/
def readSeparator : List Char → Option (List Char)
  | x :: cs => if x.toNat < 128 then some cs else none
  | [] => none

/-- Reads a fraction, if there is one. -/
def readFraction (cs : List Char) : Option (ℕ × List Char) :=
  match readChar '.' cs with
  | none => some (0, cs)
  | some cs =>
    if cs.takeWhile Char.isDigit = [] then none
    else some (nanosOf (cs.takeWhile Char.isDigit), cs.dropWhile Char.isDigit)

/-- Reads hours and minutes up to the end. -/
def readMinutes (cs : List Char) : Option ℤ := do
  let (hour, cs) ← readDigits 2 cs
  let (minute, cs) ← readDigits 2 (← readChar ':' cs)
  if cs = [] ∧ hour < 24 ∧ minute < 60 then some ((hour * 60 + minute) * 60 : ℕ) else none

/-- Reads an offset up to the end, in seconds. -/
def readOffset : List Char → Option ℤ
  | c :: cs =>
    if c = 'Z' ∨ c = 'z' then if cs = [] then some 0 else none
    else if c = '+' then readMinutes cs
    else if c = '-' then (readMinutes cs).map Neg.neg
    else none
  | [] => none

/-- The date of a year, a month and a day. -/
def dateOf (year month day : ℕ) : Option Date :=
  if h : (1 ≤ month ∧ month ≤ 12) ∧ 1 ≤ day ∧ day ≤ daysInMonth year month then
    some ⟨year, month, day, h.1.1, h.1.2, h.2.1, h.2.2⟩
  else none

/-- The time of an hour, a minute, a second and nanoseconds. -/
def clockOf (hour minute second nanosecond : ℕ) : Option Clock :=
  if h : (hour < 24 ∧ minute < 60) ∧ second < 60 ∧ nanosecond < 10 ^ 9 then
    some ⟨hour, minute, second, nanosecond, h.1.1, h.1.2, h.2.1, h.2.2⟩
  else none

/-- Reads the date, the time and the offset of a text. A leap second is no time here. -/
def readText (cs : List Char) : Option (Date × Clock × ℤ) := do
  let (year, cs) ← readDigits 4 cs
  let (month, cs) ← readDigits 2 (← readChar '-' cs)
  let (day, cs) ← readDigits 2 (← readChar '-' cs)
  let (hour, cs) ← readDigits 2 (← readSeparator cs)
  let (minute, cs) ← readDigits 2 (← readChar ':' cs)
  let (second, cs) ← readDigits 2 (← readChar ':' cs)
  let (nanosecond, cs) ← readFraction cs
  return (← dateOf year month day, ← clockOf hour minute second nanosecond, ← readOffset cs)

/-- The digits that were written are read. -/
theorem readDigits_decimal {w n : ℕ} (h : n < 10 ^ w) (cs : List Char) :
    readDigits w (decimal w n ++ cs) = some (n, cs) := by
  have htake : (decimal w n ++ cs).take w = decimal w n := List.take_left' (length_decimal w n)
  have hdrop : (decimal w n ++ cs).drop w = cs := List.drop_left' (length_decimal w n)
  have hall : (decimal w n).all Char.isDigit = true :=
    List.all_eq_true.mpr fun c hc => isDigit_of_mem_decimal hc
  rw [readDigits, htake, hdrop, if_pos ⟨length_decimal w n, hall⟩, ofDigitChars_decimal,
    Nat.mod_eq_of_lt h]

/-- The fraction that was written is read. -/
theorem readFraction_fraction {digits : List Char} (h : ∀ x ∈ digits, x.isDigit = true) {c : Char}
    (hc : c.isDigit = false) (hdot : c ≠ '.') (cs : List Char) :
    readFraction (fraction digits ++ c :: cs) = some (nanosOf digits, c :: cs) := by
  cases digits with
  | nil =>
    rw [fraction, List.nil_append, readFraction, readChar, if_neg hdot]
    rfl
  | cons x digits =>
    have htake : (x :: digits ++ c :: cs).takeWhile Char.isDigit = x :: digits := by
      rw [List.takeWhile_append_of_pos h, List.takeWhile_cons_of_neg (by rw [hc]; decide),
        List.append_nil]
    have hdrop : (x :: digits ++ c :: cs).dropWhile Char.isDigit = c :: cs := by
      rw [List.dropWhile_append_of_pos h, List.dropWhile_cons_of_neg (by rw [hc]; decide)]
    have hread :
        readChar '.' ('.' :: (x :: digits ++ c :: cs)) = some (x :: digits ++ c :: cs) := by
      rw [readChar, if_pos rfl]
    show readFraction ('.' :: (x :: digits ++ c :: cs)) = _
    rw [readFraction, hread]
    simp only [htake, hdrop]
    exact if_neg (List.cons_ne_nil x digits)

/-- The numbers of a date give it back. -/
theorem dateOf_date (d : Date) : dateOf d.year d.month d.day = some d :=
  dif_pos ⟨⟨d.month_pos, d.month_le⟩, d.day_pos, d.day_le⟩

/-- The numbers of a time give it back. -/
theorem clockOf_clock (c : Clock) : clockOf c.hour c.minute c.second c.nanosecond = some c :=
  dif_pos ⟨⟨c.hour_lt, c.minute_lt⟩, c.second_lt, c.nanosecond_lt⟩

/-- A month has at most 31 days. -/
theorem daysInMonth_le (y m : ℕ) : daysInMonth y m ≤ 31 := by
  unfold daysInMonth
  split
  · split <;> decide
  all_goals decide

/-- A text in UTC is read. -/
theorem readText_utcText {d : Date} {c : Clock} {digits : List Char} (hyear : d.year < 10 ^ 4)
    (h : ∀ x ∈ digits, x.isDigit = true) (hnanos : nanosOf digits = c.nanosecond) :
    readText (utcText d c digits) = some (d, c, 0) := by
  have hday := d.day_le
  have hmonths := daysInMonth_le d.year d.month
  have hmonth := d.month_le
  have hhour := c.hour_lt
  have hminute := c.minute_lt
  have hsecond := c.second_lt
  have hfraction := readFraction_fraction h (c := 'Z') (by decide) (by decide) []
  have hsep (cs : List Char) : readSeparator ('T' :: cs) = some cs := rfl
  have hchar (cs : List Char) (x : Char) : readChar x (x :: cs) = some cs := if_pos rfl
  -- The parts of the text in the order in which they are read.
  have htext : utcText d c digits = decimal 4 d.year ++ '-' :: (decimal 2 d.month ++ '-' ::
      (decimal 2 d.day ++ 'T' :: (decimal 2 c.hour ++ ':' :: (decimal 2 c.minute ++ ':' ::
        (decimal 2 c.second ++ (fraction digits ++ ['Z'])))))) := by
    simp [utcText, dateText, clockText]
  have hthen {α β : Type} {x : Option α} {v : α} {f : α → Option β} (hx : x = some v) :
      x.bind f = f v := by
    rw [hx]
    rfl
  rw [htext]
  refine (hthen (readDigits_decimal hyear _)).trans ?_
  refine (hthen (hchar _ _)).trans ((hthen (readDigits_decimal (by omega) _)).trans ?_)
  refine (hthen (hchar _ _)).trans ((hthen (readDigits_decimal (by omega) _)).trans ?_)
  refine (hthen (hsep _)).trans ((hthen (readDigits_decimal (by omega) _)).trans ?_)
  refine (hthen (hchar _ _)).trans ((hthen (readDigits_decimal (by omega) _)).trans ?_)
  refine (hthen (hchar _ _)).trans ((hthen (readDigits_decimal (by omega) _)).trans ?_)
  refine (hthen hfraction).trans ((hthen (dateOf_date d)).trans ?_)
  rw [hnanos]
  refine (hthen (clockOf_clock c)).trans ?_
  rfl

/-- Reading digits leaves the rest of the text. -/
theorem suffix_of_readDigits {w n : ℕ} {cs rest : List Char}
    (h : readDigits w cs = some (n, rest)) : rest <:+ cs := by
  unfold readDigits at h
  split at h
  · cases h
    exact List.drop_suffix _ _
  · cases h

/-- Reading a character leaves the rest of the text. -/
theorem suffix_of_readChar {c : Char} {cs rest : List Char} (h : readChar c cs = some rest) :
    rest <:+ cs := by
  cases cs with
  | nil => cases h
  | cons x cs =>
    rw [readChar] at h
    split at h
    · cases h
      exact List.suffix_cons _ _
    · cases h

/-- Reading the separator leaves the rest of the text. -/
theorem suffix_of_readSeparator {cs rest : List Char} (h : readSeparator cs = some rest) :
    rest <:+ cs := by
  cases cs with
  | nil => cases h
  | cons x cs =>
    rw [readSeparator] at h
    split at h
    · cases h
      exact List.suffix_cons _ _
    · cases h

/-- Reading a fraction leaves the rest of the text. -/
theorem suffix_of_readFraction {n : ℕ} {cs rest : List Char}
    (h : readFraction cs = some (n, rest)) : rest <:+ cs := by
  unfold readFraction at h
  split at h
  · cases h
    exact List.suffix_refl _
  · next cs' hdot =>
    split at h
    · cases h
    · cases h
      exact (List.dropWhile_suffix _).trans (suffix_of_readChar hdot)

/-- What is read ends with an offset. -/
theorem suffix_of_readText {cs : List Char} {r : Date × Clock × ℤ} (h : readText cs = some r) :
    ∃ rest, rest <:+ cs ∧ readOffset rest = some r.2.2 := by
  obtain ⟨⟨_, cs₁⟩, h₁, h⟩ := Option.bind_eq_some_iff.mp h
  obtain ⟨cs₂, h₂, h⟩ := Option.bind_eq_some_iff.mp h
  obtain ⟨⟨_, cs₃⟩, h₃, h⟩ := Option.bind_eq_some_iff.mp h
  obtain ⟨cs₄, h₄, h⟩ := Option.bind_eq_some_iff.mp h
  obtain ⟨⟨_, cs₅⟩, h₅, h⟩ := Option.bind_eq_some_iff.mp h
  obtain ⟨cs₆, h₆, h⟩ := Option.bind_eq_some_iff.mp h
  obtain ⟨⟨_, cs₇⟩, h₇, h⟩ := Option.bind_eq_some_iff.mp h
  obtain ⟨cs₈, h₈, h⟩ := Option.bind_eq_some_iff.mp h
  obtain ⟨⟨_, cs₉⟩, h₉, h⟩ := Option.bind_eq_some_iff.mp h
  obtain ⟨cs₁₀, h₁₀, h⟩ := Option.bind_eq_some_iff.mp h
  obtain ⟨⟨_, cs₁₁⟩, h₁₁, h⟩ := Option.bind_eq_some_iff.mp h
  obtain ⟨⟨_, cs₁₂⟩, h₁₂, h⟩ := Option.bind_eq_some_iff.mp h
  obtain ⟨_, -, h⟩ := Option.bind_eq_some_iff.mp h
  obtain ⟨_, -, h⟩ := Option.bind_eq_some_iff.mp h
  obtain ⟨o, ho, hr⟩ := Option.bind_eq_some_iff.mp h
  cases hr
  refine ⟨cs₁₂, ?_, ho⟩
  exact (suffix_of_readFraction h₁₂).trans <| (suffix_of_readDigits h₁₁).trans <|
    (suffix_of_readChar h₁₀).trans <| (suffix_of_readDigits h₉).trans <|
    (suffix_of_readChar h₈).trans <| (suffix_of_readDigits h₇).trans <|
    (suffix_of_readSeparator h₆).trans <| (suffix_of_readDigits h₅).trans <|
    (suffix_of_readChar h₄).trans <| (suffix_of_readDigits h₃).trans <|
    (suffix_of_readChar h₂).trans (suffix_of_readDigits h₁)

/-- Reading digits takes as many characters. -/
theorem length_of_readDigits {w n : ℕ} {cs rest : List Char}
    (h : readDigits w cs = some (n, rest)) : cs.length = w + rest.length := by
  unfold readDigits at h
  split at h
  · next hdigits =>
    cases h
    have hle := hdigits.1
    rw [List.length_take] at hle
    rw [List.length_drop]
    omega
  · cases h

/-- Reading a character takes one. -/
theorem length_of_readChar {c : Char} {cs rest : List Char} (h : readChar c cs = some rest) :
    cs.length = rest.length + 1 := by
  cases cs with
  | nil => cases h
  | cons x cs =>
    rw [readChar] at h
    split at h
    · cases h
      rfl
    · cases h

/-- An offset in minutes has five characters. -/
theorem length_of_readMinutes {cs : List Char} {o : ℤ} (h : readMinutes cs = some o) :
    cs.length = 5 := by
  simp only [readMinutes, Option.bind_eq_bind, Option.bind_eq_some_iff] at h
  obtain ⟨⟨_, cs₁⟩, h₁, cs₂, h₂, ⟨_, cs₃⟩, h₃, h⟩ := h
  split at h
  · next hend =>
    have hnil : cs₃ = [] := hend.1
    rw [length_of_readDigits h₁, length_of_readChar h₂, length_of_readDigits h₃, hnil]
    rfl
  · cases h

/-- An offset is a `Z`, or a sign with five characters after it. -/
theorem eq_of_readOffset {cs : List Char} {o : ℤ} (h : readOffset cs = some o) :
    cs = ['Z'] ∨ cs = ['z'] ∨
      ∃ rest, (cs = '+' :: rest ∨ cs = '-' :: rest) ∧ rest.length = 5 := by
  cases cs with
  | nil => cases h
  | cons c cs =>
    rw [readOffset] at h
    split at h
    · next hz =>
      split at h
      · next hnil =>
        rw [hnil]
        rcases hz with rfl | rfl
        · exact .inl rfl
        · exact .inr (.inl rfl)
      · cases h
    · split at h
      · next hplus => exact .inr (.inr ⟨cs, .inl (by rw [hplus]), length_of_readMinutes h⟩)
      · split at h
        · next hminus =>
          obtain ⟨o', ho', -⟩ := Option.map_eq_some_iff.mp h
          exact .inr (.inr ⟨cs, .inr (by rw [hminus]), length_of_readMinutes ho'⟩)
        · cases h

/-- An offset with seconds is not read. -/
theorem readText_seconds (cs : List Char) : readText (cs ++ " +00:00:00".toList) = none := by
  by_contra hne
  obtain ⟨r, hr⟩ := Option.ne_none_iff_exists'.mp hne
  obtain ⟨rest, hsuffix, hoffset⟩ := suffix_of_readText hr
  have hlast {tail : List Char} (htail : tail <:+ " +00:00:00".toList)
      (hlength : rest.length = tail.length) : rest = tail :=
    (List.suffix_of_suffix_length_le hsuffix (htail.trans (List.suffix_append _ _))
      (Nat.le_of_eq hlength)).eq_of_length hlength
  have hone (hlength : rest.length = 1) : rest = ['0'] := hlast (by decide) hlength
  have hsix (hlength : rest.length = 6) : rest = ":00:00".toList := hlast (by decide) hlength
  rcases eq_of_readOffset hoffset with hz | hz | ⟨five, hsign | hsign, hfive⟩
  · have h := hone (by rw [hz]; rfl)
    rw [hz] at h
    exact absurd h (by decide)
  · have h := hone (by rw [hz]; rfl)
    rw [hz] at h
    exact absurd h (by decide)
  · have h := hsix (by rw [hsign, List.length_cons, hfive])
    rw [hsign] at h
    exact absurd (List.cons.inj h).1 (by decide)
  · have h := hsix (by rw [hsign, List.length_cons, hfive])
    rw [hsign] at h
    exact absurd (List.cons.inj h).1 (by decide)

end DateTimeText

end TaskTipsCloud

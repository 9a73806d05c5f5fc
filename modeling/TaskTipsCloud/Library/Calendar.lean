import Mathlib

/-!
# The calendar

The dates of the Gregorian calendar from the year 0 on, numbered from its first day, and the times
of a day in nanoseconds. Every number is that of one date.
-/

namespace TaskTipsCloud

namespace Calendar

/-- Whether a year has a 29 February. -/
def IsLeap (y : ℕ) : Prop := y % 4 = 0 ∧ (y % 100 ≠ 0 ∨ y % 400 = 0)

/-- It is decided by division. -/
instance (y : ℕ) : Decidable (IsLeap y) := inferInstanceAs (Decidable (_ ∧ _))

/-- The days of a month. -/
def daysInMonth (y : ℕ) : ℕ → ℕ
  | 2 => if IsLeap y then 29 else 28
  | 4 | 6 | 9 | 11 => 30
  | _ => 31

/-- The days of the first months of a year. -/
def daysBeforeMonth (y : ℕ) : ℕ → ℕ
  | 0 => 0
  | m + 1 => daysBeforeMonth y m + daysInMonth y (m + 1)

/-- The days from the start of the year 0 to that of another. -/
def daysBeforeYear (y : ℕ) : ℕ := 365 * y + (y + 3) / 4 - (y + 99) / 100 + (y + 399) / 400

/-- The days of a year. -/
def daysInYear (y : ℕ) : ℕ := daysBeforeMonth y 12

/-- A leap year has a day more. -/
theorem daysInYear_eq (y : ℕ) : daysInYear y = if IsLeap y then 366 else 365 := by
  simp only [daysInYear, daysBeforeMonth, daysInMonth]
  split <;> rfl

/-- A year begins as many days after the one before it as that has. -/
theorem daysBeforeYear_succ (y : ℕ) : daysBeforeYear (y + 1) = daysBeforeYear y + daysInYear y := by
  -- One more multiple of 4, of 100 and of 400 is counted after a year that is one.
  have h4 : (y + 1 + 3) / 4 = (y + 3) / 4 + if y % 4 = 0 then 1 else 0 := by split <;> omega
  have h100 : (y + 1 + 99) / 100 = (y + 99) / 100 + if y % 100 = 0 then 1 else 0 := by
    split <;> omega
  have h400 : (y + 1 + 399) / 400 = (y + 399) / 400 + if y % 400 = 0 then 1 else 0 := by
    split <;> omega
  have hle : (y + 99) / 100 ≤ 365 * y := by omega
  have hcentury : y % 100 = 0 → y % 4 = 0 := by omega
  have hera : y % 400 = 0 → y % 100 = 0 := by omega
  rw [daysInYear_eq, daysBeforeYear, daysBeforeYear, h4, h100, h400]
  generalize (y + 3) / 4 = fours at *
  generalize (y + 99) / 100 = centuries at *
  generalize (y + 399) / 400 = eras at *
  by_cases hfour : y % 4 = 0 <;> by_cases hhundred : y % 100 = 0 <;>
    by_cases hboth : y % 400 = 0 <;>
    simp [IsLeap, hfour, hhundred, hboth] at hcentury hera ⊢ <;> omega

/-- A year has at least 365 days. -/
theorem le_daysBeforeYear (y : ℕ) : 365 * y ≤ daysBeforeYear y := by
  unfold daysBeforeYear
  omega

/-- Later years begin later. -/
theorem daysBeforeYear_mono {x y : ℕ} (h : x ≤ y) : daysBeforeYear x ≤ daysBeforeYear y := by
  induction h with
  | refl => exact le_rfl
  | step _ ih =>
    rw [daysBeforeYear_succ]
    omega

/-- A date. -/
structure Date where
  year : ℕ
  month : ℕ
  day : ℕ
  month_pos : 1 ≤ month
  month_le : month ≤ 12
  day_pos : 1 ≤ day
  day_le : day ≤ daysInMonth year month

/-- The days from the start of the year 0 to a date. -/
def Date.number (d : Date) : ℕ :=
  daysBeforeYear d.year + daysBeforeMonth d.year (d.month - 1) + (d.day - 1)

/-- The year of a day. -/
def yearOf (n : ℕ) : ℕ := Nat.findGreatest (fun y => daysBeforeYear y ≤ n) (n / 365)

/-- The number of months that end before a day of a year. -/
def monthsBefore (y k : ℕ) : ℕ := Nat.findGreatest (fun m => daysBeforeMonth y m ≤ k) 11

/-- The year of a day has begun on it. -/
theorem daysBeforeYear_yearOf_le (n : ℕ) : daysBeforeYear (yearOf n) ≤ n :=
  Nat.findGreatest_spec (P := fun y => daysBeforeYear y ≤ n) (Nat.zero_le _) (Nat.zero_le n)

/-- The year after it has not. -/
theorem lt_daysBeforeYear_yearOf_succ (n : ℕ) : n < daysBeforeYear (yearOf n + 1) := by
  by_contra h
  have hle := Nat.not_lt.mp h
  have hbound : yearOf n + 1 ≤ n / 365 := by
    have := le_daysBeforeYear (yearOf n + 1)
    omega
  exact Nat.findGreatest_is_greatest (Nat.lt_succ_self _) hbound hle

/-- The month of a day has begun on it. -/
theorem daysBeforeMonth_monthsBefore_le (y k : ℕ) : daysBeforeMonth y (monthsBefore y k) ≤ k :=
  Nat.findGreatest_spec (P := fun m => daysBeforeMonth y m ≤ k) (Nat.zero_le _) (Nat.zero_le k)

/-- The month after it has not. -/
theorem lt_daysBeforeMonth_monthsBefore_succ {y k : ℕ} (h : k < daysInYear y) :
    k < daysBeforeMonth y (monthsBefore y k + 1) := by
  have hle : monthsBefore y k ≤ 11 := Nat.findGreatest_le _
  rcases Nat.lt_or_ge (monthsBefore y k) 11 with hlt | hge
  · by_contra hge
    exact Nat.findGreatest_is_greatest (Nat.lt_succ_self _) hlt (Nat.not_lt.mp hge)
  · have hlast : monthsBefore y k = 11 := le_antisymm hle hge
    rw [hlast]
    exact h

/-- The day of its year. -/
def dayOfYear (n : ℕ) : ℕ := n - daysBeforeYear (yearOf n)

/-- The day is one of its year. -/
theorem dayOfYear_lt (n : ℕ) : dayOfYear n < daysInYear (yearOf n) := by
  have hle := daysBeforeYear_yearOf_le n
  have hlt := lt_daysBeforeYear_yearOf_succ n
  rw [daysBeforeYear_succ] at hlt
  unfold dayOfYear
  omega

/-- The date with a number. -/
def Date.ofNumber (n : ℕ) : Date where
  year := yearOf n
  month := monthsBefore (yearOf n) (dayOfYear n) + 1
  day := dayOfYear n - daysBeforeMonth (yearOf n) (monthsBefore (yearOf n) (dayOfYear n)) + 1
  month_pos := Nat.le_add_left 1 _
  month_le := Nat.succ_le_succ (Nat.findGreatest_le _)
  day_pos := Nat.le_add_left 1 _
  day_le := by
    have hlt := lt_daysBeforeMonth_monthsBefore_succ (dayOfYear_lt n)
    have hle := daysBeforeMonth_monthsBefore_le (yearOf n) (dayOfYear n)
    rw [daysBeforeMonth] at hlt
    omega

/-- A date is made from its number. -/
theorem Date.number_ofNumber (n : ℕ) : (Date.ofNumber n).number = n := by
  have hmonth := daysBeforeMonth_monthsBefore_le (yearOf n) (dayOfYear n)
  have hyear := daysBeforeYear_yearOf_le n
  have hday : dayOfYear n = n - daysBeforeYear (yearOf n) := rfl
  simp only [Date.number, Date.ofNumber, Nat.add_sub_cancel]
  omega

/-- The years before some year are those of the days before its first. -/
theorem yearOf_lt {n y : ℕ} (h : n < daysBeforeYear y) : yearOf n < y := by
  by_contra hge
  have hle := daysBeforeYear_mono (Nat.not_lt.mp hge)
  have hstart := daysBeforeYear_yearOf_le n
  omega

/-- A time of a day. -/
structure Clock where
  hour : ℕ
  minute : ℕ
  second : ℕ
  nanosecond : ℕ
  hour_lt : hour < 24
  minute_lt : minute < 60
  second_lt : second < 60
  nanosecond_lt : nanosecond < 10 ^ 9

/-- The nanoseconds from the start of a day. -/
def Clock.nanos (c : Clock) : ℕ :=
  ((c.hour * 60 + c.minute) * 60 + c.second) * 10 ^ 9 + c.nanosecond

/-- The time that is some nanoseconds after the start of a day. -/
def Clock.ofNanos (n : ℕ) : Clock where
  hour := n / (3600 * 10 ^ 9) % 24
  minute := n / (60 * 10 ^ 9) % 60
  second := n / 10 ^ 9 % 60
  nanosecond := n % 10 ^ 9
  hour_lt := Nat.mod_lt _ (by decide)
  minute_lt := Nat.mod_lt _ (by decide)
  second_lt := Nat.mod_lt _ (by decide)
  nanosecond_lt := Nat.mod_lt _ (by decide)

/-- A time of day is made from its nanoseconds. -/
theorem Clock.nanos_ofNanos {n : ℕ} (h : n < 86400 * 10 ^ 9) : (Clock.ofNanos n).nanos = n := by
  simp only [Clock.nanos, Clock.ofNanos]
  omega

end Calendar

end TaskTipsCloud

/-!
# The proleptic Gregorian calendar

Dates of the Gregorian calendar continued to all years, numbered by days from 1970-01-01.

* `Date.dayNumber` counts the days; `Date.ofDayNumber` finds the date of a day.
* `daysBeforeYear_succ`: a year has 365 days, or 366 if it is a leap year.
* `year_spec`: `yearOfDay` finds the year that a day lies in.
-/

namespace ImagePipeline.Instant

/-- Whether a year has a twenty-ninth of February. -/
def isLeap (y : Int) : Bool :=
  y % 4 == 0 && (y % 100 != 0 || y % 400 == 0)

/-- The lengths of the months of a year. -/
def monthLengths (y : Int) : List Nat :=
  [31, if isLeap y then 29 else 28, 31, 30, 31, 30, 31, 31, 30, 31, 30, 31]

/-- The length of a month, counted from one; beyond December nothing. -/
def monthLength (y : Int) (m : Nat) : Nat :=
  if m = 0 then 0 else (monthLengths y).getD (m - 1) 0

/-- The days from 0001-01-01 to the first of January of a year. -/
def daysBeforeYear (y : Int) : Int :=
  365 * (y - 1) + (y - 1) / 4 - (y - 1) / 100 + (y - 1) / 400

theorem daysBeforeYear_succ (y : Int) :
    daysBeforeYear (y + 1) = daysBeforeYear y + if isLeap y then 366 else 365 := by
  simp only [daysBeforeYear, isLeap, Bool.and_eq_true, Bool.or_eq_true, beq_iff_eq, bne_iff_ne,
    ne_eq]
  split <;> omega

/-- The number of 1970-01-01, counted from 0001-01-01. -/
def epochDay : Int := 719162

theorem daysBeforeYear_epoch : daysBeforeYear 1970 = epochDay := by decide

/-- A date of the calendar. -/
structure Date where
  /-- The year; the year before 1 is 0. -/
  year : Int
  /-- The month, from one. -/
  month : Nat
  /-- The day of the month, from one. -/
  day : Nat
deriving DecidableEq, Repr

/-- Whether the month exists and has the day. -/
def Date.exists (d : Date) : Bool :=
  1 ≤ d.month && d.month ≤ 12 && 1 ≤ d.day && d.day ≤ monthLength d.year d.month

/-- The days of a year before a month. -/
def daysBeforeMonth (y : Int) (m : Nat) : Nat :=
  ((monthLengths y).take (m - 1)).foldl (· + ·) 0

/-- The days from 1970-01-01 to a date. -/
def Date.dayNumber (d : Date) : Int :=
  daysBeforeYear d.year + daysBeforeMonth d.year d.month + (d.day - 1) - epochDay

/-- The year of a day that is counted from 0001-01-01. The mean length of a year leads to it or
to the year before. -/
def yearOfDay (n : Int) : Int :=
  let y := 400 * n / 146097 + 1
  if daysBeforeYear (y + 1) ≤ n then y + 1 else y

theorem year_spec (n : Int) :
    daysBeforeYear (yearOfDay n) ≤ n ∧ n < daysBeforeYear (yearOfDay n + 1) := by
  have low : daysBeforeYear (400 * n / 146097 + 1) ≤ n := by
    simp only [daysBeforeYear]; omega
  have high : n < daysBeforeYear (400 * n / 146097 + 1 + 1 + 1) := by
    simp only [daysBeforeYear]; omega
  simp only [yearOfDay]
  split <;> omega

/-- The month, from zero, and the day of the month, from zero, of a day of the year. -/
def locate : List Nat → Nat → Nat × Nat
  | [], r => (0, r)
  | length :: lengths, r =>
    if r < length then (0, r)
    else
      let (m, d) := locate lengths (r - length)
      (m + 1, d)

/-- The date of a day that is counted from 1970-01-01. -/
def Date.ofDayNumber (n : Int) : Date :=
  let n := n + epochDay
  let y := yearOfDay n
  let (m, d) := locate (monthLengths y) (n - daysBeforeYear y).toNat
  ⟨y, m + 1, d + 1⟩

end ImagePipeline.Instant

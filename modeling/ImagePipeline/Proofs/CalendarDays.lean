import ImagePipeline.Instant.Calendar
import Mathlib.Tactic.IntervalCases

/-!
# Days and dates

The days are counted one by one: the day after a date has the next number.  Every number is that of
exactly one date of the calendar, whatever its sign, so going from dates to numbers and back loses
nothing.

* `Date.next`: the day after, by the lengths of the months; `dayNumber_next` counts it.
* `locate_eq_iff`: the month and the day of the month of a day of the year.
* `Date.exists_ofDayNumber`, `Date.dayNumber_ofDayNumber`, `Date.ofDayNumber_dayNumber`: numbers and
  dates correspond.
-/

namespace ImagePipeline.Instant

variable {y : Int} {m n : Nat}

/-! ## Months -/

theorem Date.exists_iff {d : Date} : d.exists = true ↔
    1 ≤ d.month ∧ d.month ≤ 12 ∧ 1 ≤ d.day ∧ d.day ≤ monthLength d.year d.month := by
  simp [Date.exists, and_assoc]

theorem monthLength_le (h : m ≤ 12) : monthLength y m ≤ 31 := by
  unfold monthLength monthLengths
  interval_cases m <;> (simp; try split <;> omega)

theorem monthLength_pos (h : 1 ≤ m) (h' : m ≤ 12) : 1 ≤ monthLength y m := by
  unfold monthLength monthLengths
  interval_cases m <;> (simp; try split <;> omega)

/-- The days of a month come after those of the months before. -/
theorem daysBeforeMonth_succ (h : 1 ≤ m) (h' : m ≤ 12) :
    daysBeforeMonth y (m + 1) = daysBeforeMonth y m + monthLength y m := by
  unfold daysBeforeMonth monthLength monthLengths
  interval_cases m <;> simp

theorem daysBeforeMonth_eq_sum (y : Int) (m : Nat) :
    daysBeforeMonth y (m + 1) = ((monthLengths y).take m).sum := by
  rw [daysBeforeMonth, Nat.add_sub_cancel, List.sum_eq_foldl]

/-- The days of a year are those of its months. -/
theorem daysBeforeYear_succ_eq (y : Int) :
    daysBeforeYear (y + 1) = daysBeforeYear y + ((monthLengths y).sum : Nat) := by
  rw [daysBeforeYear_succ]
  unfold monthLengths
  split <;> rfl

/-! ## The day after -/

namespace Date

variable {d d' : Date}

/-- The day after: the next of the month, or the first of the month after, or of the year after. -/
def next (d : Date) : Date :=
  if d.day < monthLength d.year d.month then ⟨d.year, d.month, d.day + 1⟩
  else if d.month < 12 then ⟨d.year, d.month + 1, 1⟩
  else ⟨d.year + 1, 1, 1⟩

/-- The day after a date of the calendar is one of the calendar. -/
theorem exists_next (h : d.exists = true) : d.next.exists = true := by
  obtain ⟨hmonth, hmonth', hday, hday'⟩ := exists_iff.1 h
  unfold next
  split
  next hlt => exact exists_iff.2 ⟨hmonth, hmonth', by simp, hlt⟩
  split
  next hlt => exact exists_iff.2 ⟨by simp, hlt, le_rfl, monthLength_pos (by simp) hlt⟩
  next => exact exists_iff.2 ⟨le_rfl, by simp, le_rfl, monthLength_pos le_rfl (by simp)⟩

/-- The days are counted one by one. -/
theorem dayNumber_next (h : d.exists = true) : d.next.dayNumber = d.dayNumber + 1 := by
  obtain ⟨hmonth, hmonth', hday, hday'⟩ := exists_iff.1 h
  unfold next
  split
  next => simp only [dayNumber]; omega
  next hlast =>
    have hsucc := daysBeforeMonth_succ (y := d.year) hmonth hmonth'
    split
    next => simp only [dayNumber, hsucc]; omega
    next hdecember =>
      have hmonth : d.month = 12 := by omega
      have hend : daysBeforeMonth d.year (12 + 1) = (monthLengths d.year).sum :=
        daysBeforeMonth_eq_sum d.year 12
      have hfirst : daysBeforeMonth (d.year + 1) 1 = 0 := rfl
      rw [hmonth] at hsucc hlast hday'
      simp only [dayNumber, hmonth, daysBeforeYear_succ_eq, hfirst]
      omega

theorem dayNumber_epoch : dayNumber ⟨1970, 1, 1⟩ = 0 := by decide

end Date

/-! ## The date of a day -/

/-- Years begin one after the other. -/
theorem daysBeforeYear_lt_iff {y' : Int} : daysBeforeYear y < daysBeforeYear y' ↔ y < y' := by
  simp only [daysBeforeYear]
  omega

/-- A day lies in one year only. -/
theorem yearOfDay_eq {n : Int} (h : daysBeforeYear y ≤ n) (h' : n < daysBeforeYear (y + 1)) :
    yearOfDay n = y := by
  obtain ⟨hlow, hhigh⟩ := year_spec n
  have h₁ := daysBeforeYear_lt_iff.1 (Int.lt_of_le_of_lt hlow h')
  have h₂ := daysBeforeYear_lt_iff.1 (Int.lt_of_le_of_lt h hhigh)
  omega

/-- Months are counted off as long as they are over. -/
theorem locate_eq_iff {lengths : List Nat} {r d : Nat} (hr : r < lengths.sum) :
    locate lengths r = (m, d) ↔
      m < lengths.length ∧ d < lengths.getD m 0 ∧ (lengths.take m).sum + d = r := by
  induction lengths generalizing r m with
  | nil => simp at hr
  | cons l ls ih =>
    rw [List.sum_cons] at hr
    rw [locate]
    split
    next hlt =>
      cases m with
      | zero => simp; omega
      | succ m => simp; omega
    next hge =>
      cases m with
      | zero => simp; omega
      | succ m =>
        have hrest := ih (m := m) (r := r - l) (by omega)
        rcases hfound : locate ls (r - l) with ⟨m', d'⟩
        rw [hfound, Prod.mk.injEq] at hrest
        simp only [Prod.mk.injEq, Nat.add_right_cancel_iff, hrest, List.length_cons,
          List.getD_cons_succ, List.take_succ_cons, List.sum_cons]
        omega

namespace Date

variable {d : Date}

/-- The date of a day is the one that has its number. -/
theorem ofDayNumber_eq_iff {n : Int} :
    ofDayNumber n = d ↔ d.exists = true ∧ d.dayNumber = n := by
  constructor
  · rintro rfl
    obtain ⟨hlow, hhigh⟩ := year_spec (n + epochDay)
    unfold ofDayNumber
    dsimp only
    generalize yearOfDay (n + epochDay) = y at hlow hhigh
    rw [daysBeforeYear_succ_eq] at hhigh
    have hr : (n + epochDay - daysBeforeYear y).toNat < (monthLengths y).sum := by omega
    rcases hfound : locate (monthLengths y) (n + epochDay - daysBeforeYear y).toNat with ⟨m, dd⟩
    obtain ⟨hm, hdd, htotal⟩ := (locate_eq_iff hr).1 hfound
    have hlength : monthLength y (m + 1) = (monthLengths y).getD m 0 := rfl
    refine ⟨exists_iff.2 ⟨by simp, hm, by simp, hlength ▸ hdd⟩, ?_⟩
    simp only [dayNumber, daysBeforeMonth_eq_sum]
    omega
  · rintro ⟨h, rfl⟩
    obtain ⟨hmonth, hmonth', hday, hday'⟩ := exists_iff.1 h
    obtain ⟨y, m, dd⟩ := d
    dsimp only at hmonth hmonth' hday hday'
    obtain ⟨m, rfl⟩ := Nat.exists_eq_add_of_le' hmonth
    obtain ⟨dd, rfl⟩ := Nat.exists_eq_add_of_le' hday
    have hsucc := daysBeforeMonth_succ (y := y) hmonth hmonth'
    have hparts := congrArg List.sum (List.take_append_drop (m + 1) (monthLengths y))
    rw [List.sum_append, ← daysBeforeMonth_eq_sum] at hparts
    have hr : (dayNumber ⟨y, m + 1, dd + 1⟩ + epochDay - daysBeforeYear y).toNat =
        ((monthLengths y).take m).sum + dd := by
      simp only [dayNumber, daysBeforeMonth_eq_sum]
      omega
    have hinside : ((monthLengths y).take m).sum + dd < (monthLengths y).sum := by
      rw [← daysBeforeMonth_eq_sum]
      omega
    have hyear : yearOfDay (dayNumber ⟨y, m + 1, dd + 1⟩ + epochDay) = y := by
      refine yearOfDay_eq ?_ ?_
      · simp only [dayNumber]
        omega
      · simp only [daysBeforeYear_succ_eq, dayNumber, daysBeforeMonth_eq_sum]
        omega
    have hfound := (locate_eq_iff hinside).2 ⟨hmonth', hday', rfl⟩
    unfold ofDayNumber
    dsimp only
    rw [hyear, hr, hfound]

theorem exists_ofDayNumber (n : Int) : (ofDayNumber n).exists = true :=
  (ofDayNumber_eq_iff.1 rfl).1

theorem dayNumber_ofDayNumber (n : Int) : (ofDayNumber n).dayNumber = n :=
  (ofDayNumber_eq_iff.1 rfl).2

theorem ofDayNumber_dayNumber (h : d.exists = true) : ofDayNumber d.dayNumber = d :=
  ofDayNumber_eq_iff.2 ⟨h, rfl⟩

end Date

end ImagePipeline.Instant

import Mathlib.Order.Monotone.Basic
import Mathlib.Tactic.IntervalCases

/-!
# The Gregorian calendar

Days are numbered from 0000-01-01 of the proleptic Gregorian calendar. The year and the day in
it are read off a day of a 400-year cycle that begins on the first of March (`yearOfEra_spec`),
and the month and its day off the day of a year that begins there (`validDate_march`,
`dayNumber_march`).
-/

namespace Calendar

/-- A leap year. -/
def IsLeap (y : Nat) : Prop := y % 4 = 0 ∧ (y % 100 ≠ 0 ∨ y % 400 = 0)

instance (y : Nat) : Decidable (IsLeap y) := inferInstanceAs (Decidable (_ ∧ _))

/-- The days of a year. -/
def yearLength (y : Nat) : Nat := if IsLeap y then 366 else 365

/-- The days of a month. -/
def monthLength (y : Nat) : Nat → Nat
  | 2 => if IsLeap y then 29 else 28
  | 4 | 6 | 9 | 11 => 30
  | _ => 31

/-- The days before a year. -/
def daysBeforeYear : Nat → Nat
  | 0 => 0
  | y + 1 => daysBeforeYear y + yearLength y

/-- The days of a year before a month. -/
def daysBeforeMonth (y : Nat) : Nat → Nat
  | 0 => 0
  | 1 => 0
  | m + 2 => daysBeforeMonth y (m + 1) + monthLength y (m + 1)

/-- The number of days before a date. -/
def dayNumber (y m d : Nat) : Nat := daysBeforeYear y + daysBeforeMonth y m + (d - 1)

/-- A date of the calendar. -/
structure ValidDate (y m d : Nat) : Prop where
  month_pos : 1 ≤ m
  month_le : m ≤ 12
  day_pos : 1 ≤ d
  day_le : d ≤ monthLength y m

/-! ## Years -/

/-- The days up to the end of a year. -/
theorem daysBeforeYear_succ (y : Nat) :
    daysBeforeYear (y + 1) = 365 * (y + 1) + y / 4 - y / 100 + y / 400 + 1 := by
  induction y with
  | zero => rfl
  | succ y ih =>
    rw [daysBeforeYear, ih, yearLength]
    split
    · rename_i hleap
      unfold IsLeap at hleap
      omega
    · rename_i hleap
      unfold IsLeap at hleap
      omega

theorem daysBeforeYear_mono : Monotone daysBeforeYear :=
  monotone_nat_of_le_succ fun y => by rw [daysBeforeYear]; omega

/-! ## Months -/

theorem daysBeforeMonth_mono (y : Nat) : Monotone (daysBeforeMonth y) := by
  refine monotone_nat_of_le_succ fun m => ?_
  cases m with
  | zero => exact le_refl _
  | succ m => rw [daysBeforeMonth]; omega

/-- The months fill the year. -/
theorem daysBeforeMonth_thirteen (y : Nat) : daysBeforeMonth y 13 = yearLength y := by
  unfold yearLength
  simp only [daysBeforeMonth, monthLength]
  split <;> rfl

theorem ValidDate.lt_nextMonth {y m d : Nat} (h : ValidDate y m d) :
    daysBeforeMonth y m + (d - 1) < daysBeforeMonth y (m + 1) := by
  have hpos := h.day_pos
  have hle := h.day_le
  obtain ⟨k, rfl⟩ : ∃ k, m = k + 1 := ⟨m - 1, by have := h.month_pos; omega⟩
  rw [daysBeforeMonth]
  omega

theorem ValidDate.lt_nextYear {y m d : Nat} (h : ValidDate y m d) :
    dayNumber y m d < daysBeforeYear (y + 1) := by
  have hmonth := h.lt_nextMonth
  have hyear := daysBeforeMonth_mono y (show m + 1 ≤ 13 by have := h.month_le; omega)
  rw [daysBeforeMonth_thirteen] at hyear
  rw [dayNumber, daysBeforeYear]
  omega

/-! ## Cycles of 400 years -/

/-- A day of the cycle, by its century, its four-year cycle, its year there and its day. The
last day of a four-year cycle, and of the whole cycle, is a leap day. -/
theorem exists_cycle {doe : Nat} (h : doe < 146097) :
    ∃ century cycle year day, doe = 36524 * century + 1461 * cycle + 365 * year + day ∧
      cycle ≤ 24 ∧ year ≤ 3 ∧
      ((century ≤ 3 ∧ day < 365) ∨ (century ≤ 3 ∧ cycle ≤ 23 ∧ year = 3 ∧ day = 365) ∨
        (century = 3 ∧ cycle = 24 ∧ year = 3 ∧ day = 365)) := by
  by_cases hlast : doe = 146096
  · exact ⟨3, 24, 3, 365, by omega⟩
  · by_cases hleap : doe % 36524 % 1461 = 1460
    · exact ⟨doe / 36524, doe % 36524 / 1461, 3, 365, by omega⟩
    · exact ⟨doe / 36524, doe % 36524 / 1461, doe % 36524 % 1461 / 365, doe % 36524 % 1461 % 365,
        by omega⟩

/-- The year of the cycle and the day of that year. The day has the number 365 in leap years
only, as the year then ends with February 29. -/
theorem yearOfEra_spec {doe : Nat} (h : doe < 146097) :
    let yoe := (doe - doe / 1460 + doe / 36524 - doe / 146096) / 365
    let doy := doe - (365 * yoe + yoe / 4 - yoe / 100)
    doe = 365 * yoe + yoe / 4 - yoe / 100 + doy ∧ yoe < 400 ∧ doy ≤ 365 ∧
      (doy = 365 → IsLeap (yoe + 1)) := by
  intro yoe doy
  obtain ⟨century, cycle, year, day, hdoe, hcycle, hyear, hday⟩ := exists_cycle h
  have hyoe : yoe = 100 * century + 4 * cycle + year := by
    subst hdoe
    rcases hday with ⟨he, ht⟩ | ⟨he, hq, rfl, rfl⟩ | ⟨rfl, rfl, rfl, rfl⟩
    · have hc : (36524 * century + 1461 * cycle + 365 * year + day) / 36524 = century := by omega
      have hf : (36524 * century + 1461 * cycle + 365 * year + day) / 146096 = 0 := by omega
      show (_ - _ + _ - _) / 365 = _
      rw [hc, hf]
      interval_cases century <;> interval_cases year <;> omega
    · have hc : (36524 * century + 1461 * cycle + 365 * 3 + 365) / 36524 = century := by omega
      have hf : (36524 * century + 1461 * cycle + 365 * 3 + 365) / 146096 = 0 := by omega
      show (_ - _ + _ - _) / 365 = _
      rw [hc, hf]
      interval_cases century <;> omega
    · show (_ - _ + _ - _) / 365 = _
      omega
  have h4 : yoe / 4 = 25 * century + cycle := by omega
  have h100 : yoe / 100 = century := by omega
  have hdoy : doy = day := by
    show doe - (365 * yoe + yoe / 4 - yoe / 100) = day
    rw [h4, h100, hyoe, hdoe]
    omega
  rw [h4, h100, hdoy, hyoe]
  refine ⟨by omega, by omega, by omega, fun hleap => ?_⟩
  unfold IsLeap
  omega

/-! ## Years from the first of March

The months of such a year have, up to rounding, 153 days every five months. Its first ten
months lie in the calendar year and the last two in the next one. -/

variable {y doy mp : Nat}

theorem validDate_march (hleap : doy = 365 → IsLeap (y + 1)) (hdoy : doy ≤ 365)
    (hmp : mp = (5 * doy + 2) / 153) :
    let month := if mp < 10 then mp + 3 else mp - 9
    ValidDate (y + if month ≤ 2 then 1 else 0) month (doy - (153 * mp + 2) / 5 + 1) := by
  have hlo : 153 * mp ≤ 5 * doy + 2 := by omega
  have hhi : 5 * doy + 2 < 153 * mp + 153 := by omega
  have hmp : mp ≤ 11 := by omega
  interval_cases mp
  all_goals
    refine ⟨by decide, by decide, by omega, ?_⟩
    simp only [monthLength, Nat.reduceLT, Nat.reduceAdd, Nat.reduceSub, Nat.reduceLeDiff,
      ↓reduceIte]
  case «11» =>
    -- February has a 29th in leap years.
    by_cases h : doy = 365
    · rw [if_pos (hleap h)]
      omega
    · split <;> omega
  all_goals omega

theorem dayNumber_march (hdoy : doy ≤ 365) (hmp : mp = (5 * doy + 2) / 153) :
    let month := if mp < 10 then mp + 3 else mp - 9
    dayNumber (y + if month ≤ 2 then 1 else 0) month (doy - (153 * mp + 2) / 5 + 1) =
      365 * y + y / 4 - y / 100 + y / 400 + doy + 60 := by
  have hlo : 153 * mp ≤ 5 * doy + 2 := by omega
  have hhi : 5 * doy + 2 < 153 * mp + 153 := by omega
  have hmp : mp ≤ 11 := by omega
  have hyear := daysBeforeYear_succ y
  have hnext : daysBeforeYear (y + 1) = daysBeforeYear y + yearLength y := rfl
  have hlength : yearLength y = if IsLeap y then 366 else 365 := rfl
  unfold dayNumber
  by_cases hl : IsLeap y
  · rw [if_pos hl] at hlength
    interval_cases mp
    all_goals
      simp only [Nat.reduceLT, Nat.reduceAdd, Nat.reduceSub, Nat.reduceLeDiff, Nat.add_zero,
        ↓reduceIte, daysBeforeMonth, monthLength, if_pos hl]
      omega
  · rw [if_neg hl] at hlength
    interval_cases mp
    all_goals
      simp only [Nat.reduceLT, Nat.reduceAdd, Nat.reduceSub, Nat.reduceLeDiff, Nat.add_zero,
        ↓reduceIte, daysBeforeMonth, monthLength, if_neg hl]
      omega

end Calendar

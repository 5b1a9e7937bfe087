import OpenVAS.Schedules.Basic

/-! Months as `months_between` counts them and `add_months` adds them, in terms
of the month of a time and its position in that month. -/
namespace Schedules

open Calendar

/-- The month of a time, counted from March of the year 0. -/
def month (time : Int) : Int := monthOf (time / 86400)

/-- Seconds from the start of its month to a time. -/
def position (time : Int) : Int := time - 86400 * monthStart (month time)

theorem time_eq (time : Int) : time = 86400 * monthStart (month time) + position time := by
  rw [position]
  omega

theorem position_bounds (time : Int) :
    0 ≤ position time ∧
      position time < 86400 * (monthStart (month time + 1) - monthStart (month time)) := by
  obtain ⟨hLow, hHigh⟩ := monthOf_spec (time / 86400)
  rw [position, month]
  omega

/-- The position in terms of the fields of the broken-down time. -/
theorem position_eq (time : Int) :
    position time = 86400 * ((localtime time).mday - 1) + 3600 * (localtime time).hour +
      60 * (localtime time).min + (localtime time).sec := by
  simp only [position, month, localtime]
  omega

theorem localtime_month (time : Int) :
    12 * ((localtime time).year + 1900) + (localtime time).mon - 2 = month time := by
  simp only [month, localtime]
  omega

/-- The fields that are limited have their limits. -/
theorem localtime_bounds (time : Int) :
    (0 ≤ (localtime time).mon ∧ (localtime time).mon < 12) ∧
      (0 ≤ (localtime time).hour ∧ (localtime time).hour < 24) ∧
      (0 ≤ (localtime time).min ∧ (localtime time).min < 60) ∧
      (0 ≤ (localtime time).sec ∧ (localtime time).sec < 60) := by
  simp only [localtime]
  omega

theorem addMonths_eq (time months : Int) :
    addMonths time months = 86400 * monthStart (month time + months) + position time := by
  have hMonth := localtime_month time
  have hPosition := position_eq time
  have hIndex : 12 * ((localtime time).year + 1900) + ((localtime time).mon + months) - 2 =
      month time + months := by
    omega
  simp only [addMonths, mktime, hIndex]
  omega

theorem addMonths_strictMono (time : Int) : StrictMono (addMonths time) := by
  intro a b h
  have hStart := monthStart_strictMono (show month time + a < month time + b by omega)
  rw [addMonths_eq, addMonths_eq]
  omega

theorem addMonths_zero (time : Int) : addMonths time 0 = time := by
  rw [addMonths_eq, Int.add_zero, ← time_eq]

/-- Two positions are ordered as their fields are. -/
theorem earlierInMonth_iff (time1 time2 : Int) :
    earlierInMonth (localtime time1) (localtime time2) = true ↔ position time1 < position time2 := by
  obtain ⟨-, hHour1, hMin1, hSec1⟩ := localtime_bounds time1
  obtain ⟨-, hHour2, hMin2, hSec2⟩ := localtime_bounds time2
  rw [position_eq time1, position_eq time2]
  simp only [earlierInMonth, Bool.or_eq_true, Bool.and_eq_true, decide_eq_true_eq]
  omega

theorem monthsWithinYear_eq (time1 time2 : Int) :
    monthsWithinYear (localtime time1) (localtime time2) =
      if (localtime time1).mon = (localtime time2).mon then 0
      else (localtime time2).mon - (localtime time1).mon -
        if position time2 < position time1 then 1 else 0 := by
  obtain ⟨-, hHour1, hMin1, hSec1⟩ := localtime_bounds time1
  obtain ⟨-, hHour2, hMin2, hSec2⟩ := localtime_bounds time2
  rw [position_eq time1, position_eq time2, monthsWithinYear]
  by_cases hMon : (localtime time1).mon = (localtime time2).mon
  · rw [if_pos hMon, if_pos hMon]
  · rw [if_neg hMon, if_neg hMon]
    repeat' split
    all_goals omega

/-- The number of full months from one time to a later one. -/
def fullMonths (time1 time2 : Int) : Int :=
  month time2 - month time1 - if position time2 < position time1 then 1 else 0

/-- A later year, in a month that is no later, at the same position: the last full
month ends at the second time, and `months_between` overlooks it. -/
def Overlooked (time1 time2 : Int) : Prop :=
  position time1 = position time2 ∧ (localtime time1).year < (localtime time2).year ∧
    (localtime time2).mon ≤ (localtime time1).mon

instance (time1 time2 : Int) : Decidable (Overlooked time1 time2) :=
  inferInstanceAs (Decidable (_ ∧ _))

/-- Months that `months_between` counts. -/
def countedMonths (time1 time2 : Int) : Int :=
  fullMonths time1 time2 - if Overlooked time1 time2 then 1 else 0

theorem month_le {time1 time2 : Int} (h : time1 < time2) : month time1 ≤ month time2 := by
  by_contra hNot
  have hStart := monthStart_strictMono.monotone (show month time2 + 1 ≤ month time1 by omega)
  have hFirst := position_bounds time1
  have hSecond := position_bounds time2
  have hEq1 := time_eq time1
  have hEq2 := time_eq time2
  omega

theorem position_lt_of_month_eq {time1 time2 : Int} (h : time1 < time2)
    (hMonth : month time1 = month time2) : position time1 < position time2 := by
  have hEq1 := time_eq time1
  have hEq2 := time_eq time2
  rw [hMonth] at hEq1
  omega

theorem monthsBetween_of_not_lt {time1 time2 : Int} (h : ¬ time1 < time2) :
    monthsBetween time1 time2 = .error .monthsBetween := by
  rw [monthsBetween, if_pos h]

theorem monthsBetween_eq {time1 time2 : Int} (h : time1 < time2) :
    monthsBetween time1 time2 = .ok (countedMonths time1 time2) := by
  have hMonth1 := localtime_month time1
  have hMonth2 := localtime_month time2
  obtain ⟨hMon1, -⟩ := localtime_bounds time1
  obtain ⟨hMon2, -⟩ := localtime_bounds time2
  have hLe := month_le h
  have hSame := position_lt_of_month_eq h
  rw [monthsBetween, if_neg (not_not_intro h)]
  simp only [earlierInMonth_iff, monthsWithinYear_eq, countedMonths, fullMonths, Overlooked]
  congr 1
  repeat' split
  all_goals omega

/-! Adding the counted months. -/

/-- A time in the first 28 days of its month has its position in every month. -/
theorem position_fits {time : Int} (hDay : (localtime time).mday ≤ 28) (n : Int) :
    position time < 86400 * (monthStart (n + 1) - monthStart n) := by
  obtain ⟨-, hHour, hMin, hSec⟩ := localtime_bounds time
  have hStep := (monthStart_step n).1
  rw [position_eq]
  omega

/-- As many months as are full can be added, and no more. -/
theorem addMonths_le_iff {time1 time2 : Int} (hDay : (localtime time1).mday ≤ 28) (n : Int) :
    addMonths time1 n ≤ time2 ↔ n ≤ fullMonths time1 time2 := by
  have hFits := position_fits hDay (month time1 + n)
  have hFirst := position_bounds time1
  have hSecond := position_bounds time2
  have hEq := time_eq time2
  rw [addMonths_eq, fullMonths]
  rcases lt_trichotomy (month time1 + n) (month time2) with hLess | hSame | hMore
  · have hStart := monthStart_strictMono.monotone (show month time1 + n + 1 ≤ month time2 by omega)
    split <;> omega
  · rw [hSame]
    split <;> omega
  · have hStart := monthStart_strictMono.monotone (show month time2 + 1 ≤ month time1 + n by omega)
    split <;> omega

theorem fullMonths_nonneg {time1 time2 : Int} (h : time1 < time2) : 0 ≤ fullMonths time1 time2 := by
  have hLe := month_le h
  have hSame := position_lt_of_month_eq h
  rw [fullMonths]
  split <;> omega

/-- The full months are the largest number of months that can be added. -/
theorem fullMonths_isGreatest {time1 time2 : Int} (h : time1 < time2)
    (hDay : (localtime time1).mday ≤ 28) :
    IsGreatest {n | 0 ≤ n ∧ addMonths time1 n ≤ time2} (fullMonths time1 time2) := by
  refine ⟨⟨fullMonths_nonneg h, (addMonths_le_iff hDay _).mpr (le_refl _)⟩, ?_⟩
  intro n hn
  exact (addMonths_le_iff hDay n).mp hn.2

/-- `months_between` counts the largest number of months that can be added exactly when no
month is overlooked. -/
theorem monthsBetween_isGreatest_iff {time1 time2 : Int} (h : time1 < time2)
    (hDay : (localtime time1).mday ≤ 28) :
    (∃ n, monthsBetween time1 time2 = .ok n ∧
      IsGreatest {n | 0 ≤ n ∧ addMonths time1 n ≤ time2} n) ↔
      ¬ (position time1 = position time2 ∧ (localtime time1).year < (localtime time2).year ∧
        (localtime time2).mon ≤ (localtime time1).mon) := by
  have hGreatest := fullMonths_isGreatest h hDay
  change _ ↔ ¬ Overlooked time1 time2
  rw [monthsBetween_eq h, countedMonths]
  constructor
  · intro hCounted hOverlooked
    obtain ⟨n, hn, hLargest⟩ := hCounted
    rw [if_pos hOverlooked, Except.ok.injEq] at hn
    have hEq := hLargest.unique hGreatest
    omega
  · intro hNot
    rw [if_neg hNot, sub_zero]
    exact ⟨_, rfl, hGreatest⟩

theorem monthsBetween_isGreatest_iff_february :
    (∃ n, monthsBetween 1264982400 1270080000 = .ok n ∧
      IsGreatest {n | 0 ≤ n ∧ addMonths 1264982400 n ≤ 1270080000} n) ↔
      ¬ (position 1264982400 = position 1270080000 ∧
        (localtime 1264982400).year < (localtime 1270080000).year ∧
        (localtime 1270080000).mon ≤ (localtime 1264982400).mon) :=
  monthsBetween_isGreatest_iff (by decide) (by decide)

/-- From 15 October 2009 to 15 March 2010: five months can be added, and four are counted. -/
theorem monthsBetween_october :
    monthsBetween 1255564800 1268611200 = .ok 4 ∧ (localtime 1255564800).mday ≤ 28 ∧
      addMonths 1255564800 5 ≤ 1268611200 ∧
      ¬ ∃ n, monthsBetween 1255564800 1268611200 = .ok n ∧
        IsGreatest {n | 0 ≤ n ∧ addMonths 1255564800 n ≤ 1268611200} n := by
  have hFour : monthsBetween 1255564800 1268611200 = .ok 4 := by decide
  have hFive : addMonths 1255564800 5 ≤ 1268611200 := by decide
  refine ⟨hFour, by decide, hFive, ?_⟩
  rintro ⟨n, hn, hLargest⟩
  rw [hFour, Except.ok.injEq] at hn
  have hLe : (5 : Int) ≤ n := hLargest.2 ⟨by decide, hFive⟩
  omega

end Schedules

import Mathlib.Tactic.IntervalCases
import OpenVAS.Lib.Gregorian

/-! The Julian dates of `nasl_isotime.c`. -/
namespace Isotime

open Gregorian

/-- `JD_DIFF`. -/
def jdDiff : Nat := 1721060

def daysPerYear (y : Nat) : Nat :=
  let s := if y % 100 = 0 ∧ y % 400 ≠ 0 then false else decide (y % 4 = 0)
  if s then 366 else 365

/-- There is no other month; the code aborts then. -/
def daysPerMonth (y m : Nat) : Nat :=
  match m with
  | 1 | 3 | 5 | 7 | 8 | 10 | 12 => 31
  | 2 =>
      let s := if y % 100 = 0 ∧ y % 400 ≠ 0 then false else decide (y % 4 = 0)
      if s then 29 else 28
  | 4 | 6 | 9 | 11 => 30
  | _ => 0

/-- The formula, in an order in which nothing gets negative. -/
def date2jd (year month day : Nat) : Nat :=
  let jd := 365 * year + 31 * month + day + jdDiff - 31
  let (year, jd) := if month < 3 then (year - 1, jd) else (year, jd - (4 * month + 23) / 10)
  jd + year / 4 - ((year / 100 + 1) * 3) / 4

/-- The loop over the years. -/
def yearLoop (jd : Nat) : Nat → Nat → Option Nat
  | 0, _ => none
  | fuel + 1, y =>
      if (jd : Int) - date2jd y 1 1 > daysPerYear y then yearLoop jd fuel (y + 1) else some y

/-- The loop over the months, up to which `delta` days are left. -/
def monthLoop (jd : Nat) : Nat → Nat → Nat → Option (Nat × Nat × Int)
  | 0, _, _ => none
  | fuel + 1, y, m =>
      let delta := (jd : Int) - date2jd y m 1
      if delta > daysPerMonth y m then
        let (y, m) := if m + 1 > 12 then (y + 1, 1) else (y, m + 1)
        monthLoop jd fuel y m
      else some (y, m, delta)

/-- `none` is the return value 0, for which year, month and day are left as they are. Neither loop
takes more rounds than there are days. -/
def jd2date (jd : Nat) : Option (Nat × Nat × Nat) :=
  if jd = 0 then none
  else if jd < 1721425 ∨ jd > 2843085 then none
  else do
    let y ← yearLoop jd (jd + 1) ((jd - jdDiff) / 366)
    let delta := (jd : Int) - date2jd y 1 1
    let (y, m, delta) ← monthLoop jd (jd + 1) y ((delta / 31).toNat + 1)
    let d := (delta + 1).toNat
    let (m, d) := if d > daysPerMonth y m then (m + 1, 1) else (m, d)
    let (y, m) := if m > 12 then (y + 1, 1) else (y, m)
    return (y, m, d)

/-! The formula, month by month. -/

theorem leapTest_eq (y : Nat) :
    (if y % 100 = 0 ∧ y % 400 ≠ 0 then false else decide (y % 4 = 0)) = isLeap y := by
  unfold isLeap
  split
  · rename_i hCentury
    simp [hCentury.1, hCentury.2]
  · rename_i hOther
    by_cases hCentury : y % 100 = 0
    · have hFour : y % 400 = 0 := by
        by_contra hNot
        exact hOther ⟨hCentury, hNot⟩
      simp [hFour]
    · simp [hCentury]

theorem daysPerYear_eq (y : Nat) : daysPerYear y = if isLeap y then 366 else 365 := by
  rw [daysPerYear, leapTest_eq]

theorem daysPerMonth_eq {m : Nat} (hPos : 1 ≤ m) (hLe : m ≤ 12) (y : Nat) :
    daysPerMonth y m = daysInMonth y m := by
  by_cases hFebruary : m = 2
  · subst hFebruary
    change (if (if y % 100 = 0 ∧ y % 400 ≠ 0 then false else decide (y % 4 = 0)) then 29 else 28) = _
    rw [leapTest_eq]
    rfl
  · interval_cases m <;> first | rfl | exact absurd rfl hFebruary

/-- The leap days of the formula. -/
theorem leapDays_step {y : Nat} (hYear : 1 ≤ y) :
    y / 4 + ((y - 1) / 100 + 1) * 3 / 4 =
      (y - 1) / 4 + (y / 100 + 1) * 3 / 4 + (if isLeap y then 1 else 0) := by
  have hLeap : isLeap y = true ↔ y % 4 = 0 ∧ (y % 100 ≠ 0 ∨ y % 400 = 0) := by
    simp [isLeap]
  have hHundred : y / 100 = 4 * (y / 400) + y / 100 % 4 := by omega
  have hCentury : y / 100 % 4 < 4 := Nat.mod_lt _ (by decide)
  generalize hRest : y / 100 % 4 = r at hHundred hCentury
  by_cases hFirst : y % 100 = 0
  · have hBefore : (y - 1) / 100 = y / 100 - 1 := by omega
    rw [hBefore, hHundred]
    split
    · rename_i hYes
      have hDiv := hLeap.mp hYes
      interval_cases r <;> omega
    · rename_i hNo
      have hDiv := (not_congr hLeap).mp hNo
      interval_cases r <;> omega
  · have hBefore : (y - 1) / 100 = y / 100 := by omega
    rw [hBefore]
    split
    · rename_i hYes
      have hDiv := hLeap.mp hYes
      omega
    · rename_i hNo
      have hDiv := (not_congr hLeap).mp hNo
      omega

theorem date2jd_early {month : Nat} (h : month < 3) (year day : Nat) :
    date2jd year month day =
      365 * year + 31 * month + day + jdDiff - 31 + (year - 1) / 4 - (((year - 1) / 100 + 1) * 3) / 4 := by
  simp only [date2jd, if_pos h]

theorem date2jd_late {month : Nat} (h : ¬ month < 3) (year day : Nat) :
    date2jd year month day =
      365 * year + 31 * month + day + jdDiff - 31 - (4 * month + 23) / 10 + year / 4 -
        ((year / 100 + 1) * 3) / 4 := by
  simp only [date2jd, if_neg h]

theorem date2jd_day (year month day n : Nat) : date2jd year month (day + n) = date2jd year month day + n := by
  have hDiff : 1000 ≤ jdDiff := by decide
  by_cases hEarly : month < 3
  · rw [date2jd_early hEarly, date2jd_early hEarly]
    omega
  · rw [date2jd_late hEarly, date2jd_late hEarly]
    omega

/-- Each month starts where the one before it ends. -/
theorem date2jd_month {y m : Nat} (hYear : 1 ≤ y) (hPos : 1 ≤ m) (hLess : m < 12) :
    date2jd y (m + 1) 1 = date2jd y m 1 + daysInMonth y m := by
  have hStep := leapDays_step hYear
  have hDiff : 1000 ≤ jdDiff := by decide
  by_cases hJanuary : m = 1
  · subst hJanuary
    rw [@date2jd_early (1 + 1) (by decide), @date2jd_early 1 (by decide)]
    change _ = _ + 31
    omega
  by_cases hFebruary : m = 2
  · subst hFebruary
    rw [@date2jd_late (2 + 1) (by decide), @date2jd_early 2 (by decide)]
    simp only [daysInMonth]
    split at hStep
    · rename_i hLeap
      rw [if_pos hLeap]
      omega
    · rename_i hLeap
      rw [if_neg hLeap]
      omega
  · have hMonth : daysInMonth y m + (4 * (m + 1) + 23) / 10 = 31 + (4 * m + 23) / 10 := by
      rw [← daysPerMonth_eq hPos (by omega)]
      interval_cases m <;> first | rfl | exact absurd rfl hFebruary | exact absurd rfl hJanuary
    rw [date2jd_late (by omega), date2jd_late (by omega)]
    omega

/-- So does each year. -/
theorem date2jd_newYear (y : Nat) : date2jd (y + 1) 1 1 = date2jd y 12 1 + 31 := by
  have hDiff : 1000 ≤ jdDiff := by decide
  rw [@date2jd_early 1 (by decide), @date2jd_late 12 (by decide), Nat.add_sub_cancel]
  omega

theorem date2jd_year {y : Nat} (hYear : 1 ≤ y) :
    date2jd (y + 1) 1 1 = date2jd y 1 1 + daysPerYear y := by
  have hStep := leapDays_step hYear
  have hDiff : 1000 ≤ jdDiff := by decide
  rw [@date2jd_early 1 (by decide), @date2jd_early 1 (by decide), Nat.add_sub_cancel, daysPerYear_eq]
  split at hStep
  · rename_i hLeap
    rw [if_pos hLeap]
    omega
  · rename_i hLeap
    rw [if_neg hLeap]
    omega

/-! The number of a date. -/

/-- What `date2jd` makes of a date. -/
def julian (d : Date) : Nat := date2jd d.year d.month d.day

theorem julian_next {d : Date} (hYear : 1 ≤ d.year) : julian d.next = julian d + 1 := by
  have hDayLe := d.dayLe
  have hDayPos := d.dayPos
  have hDay : julian d + 1 = date2jd d.year d.month 1 + d.day := by
    have hSplit := date2jd_day d.year d.month 1 (d.day - 1)
    rw [Nat.add_sub_cancel' hDayPos] at hSplit
    unfold julian
    omega
  by_cases hInside : d.day < daysInMonth d.year d.month
  · obtain ⟨hNextYear, hMonth, hNext⟩ := Date.next_of_day hInside
    rw [julian, hNextYear, hMonth, hNext, date2jd_day]
    rfl
  have hLast : d.day = daysInMonth d.year d.month := Nat.le_antisymm hDayLe (Nat.le_of_not_lt hInside)
  by_cases hOther : d.month < 12
  · obtain ⟨hNextYear, hMonth, hNext⟩ := Date.next_of_month hInside hOther
    rw [hDay, julian, hNextYear, hMonth, hNext, date2jd_month hYear d.monthPos hOther, hLast]
  · obtain ⟨hNextYear, hMonth, hNext⟩ := Date.next_of_year hInside hOther
    have hDecember : d.month = 12 := Nat.le_antisymm d.monthLe (Nat.le_of_not_lt hOther)
    rw [hDay, julian, hNextYear, hMonth, hNext, date2jd_newYear, hLast, hDecember]
    rfl

theorem julian_addDays {d : Date} (hYear : 1 ≤ d.year) (n : Nat) :
    julian (d.addDays n) = julian d + n := by
  induction n generalizing d with
  | zero => rfl
  | succ n ih =>
      have hNext := Date.year_le_of_stamp (Nat.le_of_lt d.stamp_lt_next)
      rw [Date.addDays_succ, ih (Nat.le_trans hYear hNext), julian_next hYear]
      omega

theorem julian_le {d e : Date} (hYear : 1 ≤ d.year) (h : d.stamp ≤ e.stamp) : julian d ≤ julian e := by
  obtain ⟨n, rfl⟩ := Date.exists_addDays h
  rw [julian_addDays hYear]
  exact Nat.le_add_right _ _

/-- Dates are ordered as their numbers are. -/
theorem stamp_le_iff {d e : Date} (hd : 1 ≤ d.year) (he : 1 ≤ e.year) :
    d.stamp ≤ e.stamp ↔ julian d ≤ julian e := by
  refine ⟨julian_le hd, fun h => ?_⟩
  by_contra hNot
  obtain ⟨n, hn⟩ := Date.exists_addDays (Nat.le_of_lt (Nat.lt_of_not_le hNot))
  have hNumber : julian d = julian e + n := by
    rw [← hn, julian_addDays he]
  obtain rfl : n = 0 := by omega
  rw [← hn] at hNot
  exact hNot (Nat.le_refl _)

theorem eq_of_julian {d e : Date} (hd : 1 ≤ d.year) (he : 1 ≤ e.year) (h : julian d = julian e) : d = e :=
  Date.ext_of_stamp (Nat.le_antisymm ((stamp_le_iff hd he).mpr (Nat.le_of_eq h))
    ((stamp_le_iff he hd).mpr (Nat.le_of_eq h.symm)))

/-- A leap day of a common year gets the number of the first of March. -/
theorem date2jd_addYears (d : Date) (n : Nat) :
    date2jd (d.year + n) d.month d.day = julian (d.addYears n) := by
  unfold Date.addYears
  split
  · rfl
  · rename_i hNoDay
    obtain ⟨hMonth, hDay, hLeap⟩ := Date.leapDay hNoDay
    have hYear : 1 ≤ d.year + n := by
      rcases Nat.eq_zero_or_pos (d.year + n) with hZero | hPos
      · rw [hZero] at hLeap
        exact absurd hLeap (by decide)
      · exact hPos
    have hMarch := @date2jd_month (d.year + n) 2 hYear (by decide) (by decide)
    have hFebruary : daysInMonth (d.year + n) 2 = 28 := by
      simp [daysInMonth, hLeap]
    rw [hMonth, hDay, date2jd_day _ 2 1 28]
    change _ = date2jd (d.year + n) (2 + 1) 1
    rw [hMarch, hFebruary]

/-! The search for the date of a number. -/

/-- The year found starts at the number or before it, and ends there or behind it. -/
theorem yearLoop_spec {jd fuel y : Nat} (hYear : 1 ≤ y) (hStart : date2jd y 1 1 ≤ jd)
    (hFuel : jd - date2jd y 1 1 < fuel) :
    ∃ y', yearLoop jd fuel y = some y' ∧ y ≤ y' ∧ date2jd y' 1 1 ≤ jd ∧
      jd ≤ date2jd y' 1 1 + daysPerYear y' := by
  induction fuel generalizing y with
  | zero => omega
  | succ fuel ih =>
      rw [yearLoop]
      split
      · rename_i hMore
        have hNext := date2jd_year hYear
        have hDays : 1 ≤ daysPerYear y := by
          rw [daysPerYear_eq]
          split <;> decide
        obtain ⟨y', hRun, hLe, hFound⟩ := @ih (y + 1) (by omega) (by omega) (by omega)
        exact ⟨y', hRun, by omega, hFound⟩
      · rename_i hEnough
        exact ⟨y, rfl, Nat.le_refl y, hStart, by omega⟩

/-- So does the month. -/
theorem monthLoop_spec {jd fuel y m : Nat} (hYear : 1 ≤ y) (hPos : 1 ≤ m) (hLe : m ≤ 12)
    (hStart : date2jd y m 1 ≤ jd) (hFuel : jd - date2jd y m 1 < fuel) :
    ∃ y' m', monthLoop jd fuel y m = some (y', m', ((jd - date2jd y' m' 1 : Nat) : Int)) ∧
      1 ≤ y' ∧ 1 ≤ m' ∧ m' ≤ 12 ∧ date2jd y' m' 1 ≤ jd ∧
      jd ≤ date2jd y' m' 1 + daysInMonth y' m' := by
  induction fuel generalizing y m with
  | zero => omega
  | succ fuel ih =>
      have hDays := daysPerMonth_eq hPos hLe y
      have hBounds := (daysInMonth_bounds y m).1
      rw [monthLoop]
      simp only [hDays]
      split
      · rename_i hMore
        split
        · rename_i hDecember
          obtain rfl : m = 12 := by omega
          have hNext := date2jd_newYear y
          have hThirtyOne : daysInMonth y 12 = 31 := rfl
          exact @ih (y + 1) 1 (by omega) (by omega) (by omega) (by omega) (by omega)
        · rename_i hOther
          have hNext := @date2jd_month y m hYear hPos (by omega)
          exact @ih y (m + 1) hYear (by omega) (by omega) (by omega) (by omega)
      · rename_i hEnough
        refine ⟨y, m, ?_, hYear, hPos, hLe, hStart, by omega⟩
        rw [Int.ofNat_sub hStart]

theorem date2jd_month_le {y m : Nat} (hYear : 1 ≤ y) (hPos : 1 ≤ m) (hLe : m ≤ 12) :
    date2jd y m 1 ≤ date2jd y 1 1 + 31 * (m - 1) := by
  induction m, hPos using Nat.le_induction with
  | base => exact Nat.le_refl _
  | succ m hPos ih =>
      have hStep := @date2jd_month y m hYear hPos (by omega)
      have hBounds := (daysInMonth_bounds y m).2
      have hBefore := ih (by omega)
      omega

/-- The first guess of the month, counted without a sign. -/
theorem toNat_months {jd start : Nat} (h : start ≤ jd) :
    (((jd : Int) - start) / 31).toNat = (jd - start) / 31 := by
  omega

/-- What is left to do when both loops have found theirs. -/
theorem jd2date_found {jd y y' m : Nat} {delta : Int} (hLow : 1721425 ≤ jd) (hHigh : jd ≤ 2843085)
    (hYear : yearLoop jd (jd + 1) ((jd - jdDiff) / 366) = some y)
    (hMonth : monthLoop jd (jd + 1) y ((((jd : Int) - date2jd y 1 1) / 31).toNat + 1) =
      some (y', m, delta)) :
    jd2date jd =
      let (m, d) := if (delta + 1).toNat > daysPerMonth y' m then (m + 1, 1) else (m, (delta + 1).toNat)
      let (y, m) := if m > 12 then (y' + 1, 1) else (y', m)
      some (y, m, d) := by
  rw [jd2date, if_neg (by omega), if_neg (by omega), hYear, Option.bind_eq_bind, Option.bind_some]
  change Option.bind (monthLoop jd (jd + 1) y ((((jd : Int) - date2jd y 1 1) / 31).toNat + 1)) _ = _
  rw [hMonth, Option.bind_some]
  rfl

/-- Within its limits the search ends at a date of that number. -/
theorem jd2date_sound {jd : Nat} (hLow : 2299161 ≤ jd) (hHigh : jd ≤ 2843085) :
    ∃ d : Date, jd2date jd = some (d.year, d.month, d.day) ∧ julian d = jd ∧ 1 ≤ d.year := by
  have hDiff : jdDiff = 1721060 := rfl
  have hFirst : 1 ≤ (jd - jdDiff) / 366 := by omega
  have hStart : date2jd ((jd - jdDiff) / 366) 1 1 ≤ jd := by
    rw [date2jd_early (by decide)]
    omega
  obtain ⟨y, hYearRun, hYearLe, hYearStart, hYearEnd⟩ :=
    @yearLoop_spec jd (jd + 1) _ hFirst hStart (by omega)
  have hYear : 1 ≤ y := Nat.le_trans hFirst hYearLe
  have hDays : daysPerYear y ≤ 366 := by
    rw [daysPerYear_eq]
    split <;> decide
  have hMonthLe := @date2jd_month_le y ((jd - date2jd y 1 1) / 31 + 1) hYear (by omega) (by omega)
  obtain ⟨y', m, hMonthRun, hYear', hPos, hLe, hMonthStart, hMonthEnd⟩ :=
    @monthLoop_spec jd (jd + 1) y ((jd - date2jd y 1 1) / 31 + 1) hYear (by omega) (by omega)
      (by omega) (by omega)
  have hInt := toNat_months hYearStart
  have hBounds := (daysInMonth_bounds y' m).1
  have hNumber := date2jd_day y' m 1 (jd - date2jd y' m 1)
  generalize hLeft : jd - date2jd y' m 1 = left at hMonthRun hNumber
  rw [jd2date_found (by omega) (by omega) hYearRun (hInt.symm ▸ hMonthRun),
    Int.toNat_natCast_add_one, daysPerMonth_eq hPos hLe]
  by_cases hInside : left + 1 ≤ daysInMonth y' m
  · have hSame : (if left + 1 > daysInMonth y' m then (m + 1, 1) else (m, left + 1)) = (m, left + 1) :=
      if_neg (by omega)
    rw [hSame]
    dsimp only
    rw [if_neg (by omega)]
    refine ⟨⟨y', m, left + 1, hPos, hLe, by omega, hInside⟩, rfl, ?_, hYear'⟩
    change date2jd y' m (left + 1) = jd
    rw [Nat.add_comm, hNumber]
    omega
  have hNextMonth : (if left + 1 > daysInMonth y' m then (m + 1, 1) else (m, left + 1)) = (m + 1, 1) :=
    if_pos (by omega)
  rw [hNextMonth]
  dsimp only
  by_cases hDecember : m = 12
  · subst hDecember
    have hNext := date2jd_newYear y'
    have hThirtyOne : daysInMonth y' 12 = 31 := rfl
    have hNextBounds : 1 ≤ daysInMonth (y' + 1) 1 := (by decide : 1 ≤ 31)
    refine ⟨⟨y' + 1, 1, 1, Nat.le_refl 1, by decide, Nat.le_refl 1, hNextBounds⟩, rfl, ?_, Nat.le_add_left 1 y'⟩
    change date2jd (y' + 1) 1 1 = jd
    omega
  · have hNext := @date2jd_month y' m hYear' hPos (by omega)
    have hNextBounds := (daysInMonth_bounds y' (m + 1)).1
    rw [if_neg (by omega)]
    refine ⟨⟨y', m + 1, 1, by omega, by omega, Nat.le_refl 1, by omega⟩, rfl, ?_, hYear'⟩
    change date2jd y' (m + 1) 1 = jd
    omega

/-- The first day of the calendar. -/
def firstDay : Date := ⟨1582, 10, 15, by decide, by decide, by decide, by decide⟩

/-- The day of the number 2843085. -/
def lastDay : Date := .newYear 3072

theorem julian_firstDay : julian firstDay = 2299161 := by decide +kernel

theorem julian_lastDay : julian lastDay = 2843085 := by decide +kernel

theorem year_pos {d : Date} (hFirst : 15821015 ≤ d.stamp) : 1 ≤ d.year :=
  Nat.le_trans (by decide) (@Date.year_le_of_stamp firstDay d hFirst)

/-- From the first day of the calendar on, the date comes back exactly up to 1 January 3072. -/
theorem jd2date_julian {d : Date} (hFirst : 15821015 ≤ d.stamp) :
    jd2date (julian d) = if d.stamp ≤ 30720101 then some (d.year, d.month, d.day) else none := by
  have hYear := year_pos hFirst
  have hLow : 2299161 ≤ julian d := by
    rw [← julian_firstDay]
    exact @julian_le firstDay d (by decide) hFirst
  split
  · rename_i hWithin
    have hHigh : julian d ≤ 2843085 := by
      rw [← julian_lastDay]
      exact @julian_le d lastDay hYear hWithin
    obtain ⟨e, hRun, hNumber, hFound⟩ := jd2date_sound hLow hHigh
    rw [hRun, eq_of_julian hFound hYear hNumber]
  · rename_i hBeyond
    have hHigh : ¬ julian d ≤ 2843085 := by
      rw [← julian_lastDay]
      exact fun h => hBeyond ((@stamp_le_iff d lastDay hYear (by decide)).mpr h)
    rw [jd2date, if_neg (by omega), if_pos (by omega)]

end Isotime

import Mathlib

/-! The Gregorian calendar in terms of months. A month is counted from March of
the year 0, so that the day that a leap year adds is the last of its year, and a
time is a month and a position in it. -/
namespace Calendar

/-- Leap days before a year that starts in March. -/
def leapDays (year : Int) : Int := year / 4 - year / 100 + year / 400

/-- Days of a year before a month, the first of which is March. -/
def daysBefore (month : Int) : Int := (153 * month + 2) / 5

/-- Days from the epoch to the start of a month. -/
def monthStart (n : Int) : Int :=
  365 * (n / 12) + leapDays (n / 12) + daysBefore (n % 12) - 719468

theorem leapDays_eq (year : Int) :
    leapDays year = 24 * (year / 100) + year / 100 / 4 + year % 100 / 4 := by
  have hCentury : year / 400 = year / 100 / 4 := by
    rw [Int.ediv_ediv_of_nonneg (by decide)]
    rfl
  rw [leapDays, hCentury]
  omega

theorem leapDays_step (year : Int) :
    leapDays year ≤ leapDays (year + 1) ∧ leapDays (year + 1) ≤ leapDays year + 1 := by
  rw [leapDays_eq, leapDays_eq]
  by_cases hLast : year % 100 = 99
  · have hDiv : (year + 1) / 100 = year / 100 + 1 := by omega
    have hMod : (year + 1) % 100 = 0 := by omega
    rw [hDiv, hMod, hLast]
    omega
  · have hDiv : (year + 1) / 100 = year / 100 := by omega
    have hMod : (year + 1) % 100 = year % 100 + 1 := by omega
    rw [hDiv, hMod]
    omega

/-- 400 years have 97 leap days. -/
theorem leapDays_linear (year : Int) :
    97 * year - 600 ≤ 400 * leapDays year ∧ 400 * leapDays year ≤ 97 * year + 297 := by
  rw [leapDays_eq]
  omega

/-- A month has 28 to 31 days. -/
theorem monthStart_step (n : Int) :
    monthStart n + 28 ≤ monthStart (n + 1) ∧ monthStart (n + 1) ≤ monthStart n + 31 := by
  have hLow : 0 ≤ n % 12 := Int.emod_nonneg n (by decide)
  have hHigh : n % 12 < 12 := Int.emod_lt_of_pos n (by decide)
  by_cases hLast : n % 12 = 11
  · have hDiv : (n + 1) / 12 = n / 12 + 1 := by omega
    have hMod : (n + 1) % 12 = 0 := by omega
    have hStep := leapDays_step (n / 12)
    simp only [monthStart, daysBefore, hDiv, hMod, hLast]
    omega
  · have hDiv : (n + 1) / 12 = n / 12 := by omega
    have hMod : (n + 1) % 12 = n % 12 + 1 := by omega
    simp only [monthStart, daysBefore, hDiv, hMod]
    omega

/-- Each month starts less than a month from where it would if all were of one
length, of which 400 years have 4800. -/
theorem monthStart_linear (n : Int) :
    146097 * n - 9120 ≤ 4800 * (monthStart n + 719468) ∧
      4800 * (monthStart n + 719468) ≤ 146097 * n + 14097 := by
  have hLeap := leapDays_linear (n / 12)
  simp only [monthStart, daysBefore]
  omega

theorem monthStart_strictMono : StrictMono monthStart :=
  strictMono_int_of_lt_succ fun n => by
    have hStep := monthStart_step n
    omega

/-- The month of a day. -/
def monthOf (day : Int) : Int :=
  let n := 4800 * (day + 719468) / 146097
  if day < monthStart n then n - 1 else if monthStart (n + 1) ≤ day then n + 1 else n

theorem monthOf_spec (day : Int) :
    monthStart (monthOf day) ≤ day ∧ day < monthStart (monthOf day + 1) := by
  simp only [monthOf]
  split
  · rename_i hBelow
    have hPrevious := monthStart_linear (4800 * (day + 719468) / 146097 - 1)
    refine ⟨by omega, ?_⟩
    rw [Int.sub_add_cancel]
    exact hBelow
  · rename_i hBelow
    split
    · rename_i hAbove
      have hNext := monthStart_linear (4800 * (day + 719468) / 146097 + 1 + 1)
      exact ⟨hAbove, by omega⟩
    · rename_i hAbove
      exact ⟨by omega, by omega⟩

end Calendar

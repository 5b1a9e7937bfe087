import Mathlib.Order.Monotone.Basic

/-! Dates of the Gregorian calendar, day by day. -/
namespace Gregorian

def isLeap (year : Nat) : Bool := year % 4 = 0 && (year % 100 ≠ 0 || year % 400 = 0)

def daysInMonth (year month : Nat) : Nat :=
  match month with
  | 2 => if isLeap year then 29 else 28
  | 4 | 6 | 9 | 11 => 30
  | _ => 31

theorem daysInMonth_bounds (year month : Nat) : 28 ≤ daysInMonth year month ∧ daysInMonth year month ≤ 31 := by
  unfold daysInMonth
  split
  · split <;> omega
  · omega
  · omega
  · omega
  · omega
  · omega

/-- Only a day of February is missing in some years. -/
theorem daysInMonth_of_ne {month : Nat} (h : month ≠ 2) (year year' : Nat) :
    daysInMonth year month = daysInMonth year' month := by
  unfold daysInMonth
  split
  · exact absurd rfl h
  · rfl
  · rfl
  · rfl
  · rfl
  · rfl

structure Date where
  year : Nat
  month : Nat
  day : Nat
  monthPos : 1 ≤ month
  monthLe : month ≤ 12
  dayPos : 1 ≤ day
  dayLe : day ≤ daysInMonth year month

/-- The eight digits `yyyymmdd` as a number, by which dates are ordered. -/
def Date.stamp (d : Date) : Nat := 10000 * d.year + 100 * d.month + d.day

def Date.next (d : Date) : Date :=
  if h : d.day < daysInMonth d.year d.month then
    ⟨d.year, d.month, d.day + 1, d.monthPos, d.monthLe, Nat.succ_pos _, h⟩
  else if hMonth : d.month < 12 then
    ⟨d.year, d.month + 1, 1, Nat.succ_pos _, hMonth, Nat.le_refl _,
      Nat.le_trans (by decide) (daysInMonth_bounds _ _).1⟩
  else ⟨d.year + 1, 1, 1, Nat.le_refl _, by decide, Nat.le_refl _,
    Nat.le_trans (by decide) (daysInMonth_bounds _ _).1⟩

/-- The first day of a year. -/
def Date.newYear (year : Nat) : Date :=
  ⟨year, 1, 1, Nat.le_refl _, by decide, Nat.le_refl _,
    Nat.le_trans (by decide) (daysInMonth_bounds _ _).1⟩

/-- The same day some years later, or the day after it where there is no such day. -/
def Date.addYears (d : Date) (n : Nat) : Date :=
  if h : d.day ≤ daysInMonth (d.year + n) d.month then
    ⟨d.year + n, d.month, d.day, d.monthPos, d.monthLe, d.dayPos, h⟩
  else ⟨d.year + n, 3, 1, by decide, by decide, Nat.le_refl _,
    Nat.le_trans (by decide) (daysInMonth_bounds _ _).1⟩

def Date.addDays (d : Date) (n : Nat) : Date := Date.next^[n] d

theorem Date.ext_of_stamp {d e : Date} (h : d.stamp = e.stamp) : d = e := by
  have hd := (daysInMonth_bounds d.year d.month).2
  have he := (daysInMonth_bounds e.year e.month).2
  obtain ⟨y, m, n, h1, h2, h3, h4⟩ := d
  obtain ⟨y', m', n', h1', h2', h3', h4'⟩ := e
  simp only [Date.stamp] at h hd he
  obtain rfl : y = y' := by omega
  obtain rfl : m = m' := by omega
  obtain rfl : n = n' := by omega
  rfl

/-! The days in their order. -/

theorem Date.next_of_day {d : Date} (h : d.day < daysInMonth d.year d.month) :
    d.next.year = d.year ∧ d.next.month = d.month ∧ d.next.day = d.day + 1 := by
  rw [Date.next, dif_pos h]
  exact ⟨rfl, rfl, rfl⟩

theorem Date.next_of_month {d : Date} (h : ¬ d.day < daysInMonth d.year d.month) (hMonth : d.month < 12) :
    d.next.year = d.year ∧ d.next.month = d.month + 1 ∧ d.next.day = 1 := by
  rw [Date.next, dif_neg h, dif_pos hMonth]
  exact ⟨rfl, rfl, rfl⟩

theorem Date.next_of_year {d : Date} (h : ¬ d.day < daysInMonth d.year d.month) (hMonth : ¬ d.month < 12) :
    d.next.year = d.year + 1 ∧ d.next.month = 1 ∧ d.next.day = 1 := by
  rw [Date.next, dif_neg h, dif_neg hMonth]
  exact ⟨rfl, rfl, rfl⟩

theorem Date.stamp_lt_next (d : Date) : d.stamp < d.next.stamp := by
  have hBounds := (daysInMonth_bounds d.year d.month).2
  have hDay := d.dayLe
  have hMonthLe := d.monthLe
  unfold Date.stamp
  by_cases hInside : d.day < daysInMonth d.year d.month
  · obtain ⟨hYear, hMonth, hNext⟩ := Date.next_of_day hInside
    omega
  by_cases hOther : d.month < 12
  · obtain ⟨hYear, hMonth, hNext⟩ := Date.next_of_month hInside hOther
    omega
  · obtain ⟨hYear, hMonth, hNext⟩ := Date.next_of_year hInside hOther
    omega

/-- No date is between a date and the next one. -/
theorem Date.next_stamp_le {d e : Date} (h : d.stamp < e.stamp) : d.next.stamp ≤ e.stamp := by
  have hBounds := (daysInMonth_bounds e.year e.month).2
  have hDay := e.dayLe
  have hDayPos := e.dayPos
  have hMonthLe := e.monthLe
  have hMonthPos := e.monthPos
  have hOwn := d.dayLe
  have hOwnBounds := (daysInMonth_bounds d.year d.month).1
  unfold Date.stamp at h ⊢
  by_cases hInside : d.day < daysInMonth d.year d.month
  · obtain ⟨hYear, hMonth, hNext⟩ := Date.next_of_day hInside
    omega
  -- The last day of a month: the other date is of another month.
  have hElse : ¬ (e.year = d.year ∧ e.month = d.month) := by
    rintro ⟨hYear, hMonth⟩
    rw [hYear, hMonth] at hDay
    omega
  by_cases hOther : d.month < 12
  · obtain ⟨hYear, hMonth, hNext⟩ := Date.next_of_month hInside hOther
    omega
  · obtain ⟨hYear, hMonth, hNext⟩ := Date.next_of_year hInside hOther
    omega

@[simp] theorem Date.addDays_zero (d : Date) : d.addDays 0 = d := rfl

theorem Date.addDays_succ (d : Date) (n : Nat) : d.addDays (n + 1) = d.next.addDays n := rfl

theorem Date.stamp_le_addDays (d : Date) (n : Nat) : d.stamp ≤ (d.addDays n).stamp := by
  induction n generalizing d with
  | zero => exact Nat.le_refl _
  | succ n ih =>
      rw [Date.addDays_succ]
      exact Nat.le_trans (Nat.le_of_lt d.stamp_lt_next) (ih d.next)

/-- Every later date is some days later. -/
theorem Date.exists_addDays {d e : Date} (h : d.stamp ≤ e.stamp) : ∃ n, d.addDays n = e := by
  induction hGap : e.stamp - d.stamp using Nat.strong_induction_on generalizing d with
  | _ gap ih =>
      by_cases hSame : d.stamp = e.stamp
      · exact ⟨0, Date.ext_of_stamp hSame⟩
      have hNext := Date.next_stamp_le (Nat.lt_of_le_of_ne h hSame)
      have hLess := d.stamp_lt_next
      obtain ⟨n, hn⟩ := ih (e.stamp - d.next.stamp) (by omega) hNext rfl
      exact ⟨n + 1, hn⟩

theorem Date.year_le_of_stamp {d e : Date} (h : d.stamp ≤ e.stamp) : d.year ≤ e.year := by
  have hMonthLe := e.monthLe
  have hDay := e.dayLe
  have hBounds := (daysInMonth_bounds e.year e.month).2
  unfold Date.stamp at h
  omega

/-- A day that a year does not have is the last of February. -/
theorem Date.leapDay {d : Date} {year : Nat} (h : ¬ d.day ≤ daysInMonth year d.month) :
    d.month = 2 ∧ d.day = 29 ∧ isLeap year = false := by
  have hDay := d.dayLe
  by_cases hMonth : d.month = 2
  · rw [hMonth] at h hDay
    simp only [daysInMonth] at h hDay
    refine ⟨hMonth, ?_⟩
    cases hLeap : isLeap year with
    | true =>
        rw [hLeap, if_pos rfl] at h
        split at hDay <;> omega
    | false =>
        rw [hLeap, if_neg Bool.false_ne_true] at h
        refine ⟨?_, rfl⟩
        split at hDay <;> omega
  · rw [daysInMonth_of_ne hMonth year d.year] at h
    exact absurd hDay h

@[simp] theorem Date.addYears_zero (d : Date) : d.addYears 0 = d := dif_pos d.dayLe

theorem Date.year_addYears (d : Date) (n : Nat) : (d.addYears n).year = d.year + n := by
  unfold Date.addYears
  split <;> rfl

theorem Date.stamp_le_addYears (d : Date) (n : Nat) : d.stamp ≤ (d.addYears n).stamp := by
  unfold Date.addYears
  split
  · unfold Date.stamp
    simp only
    omega
  · rename_i hNoDay
    obtain ⟨hMonth, hDay, -⟩ := Date.leapDay hNoDay
    unfold Date.stamp
    simp only
    omega

/-! Times of day. -/

/-- A minute may end with a leap second. -/
structure Time where
  date : Date
  hour : Nat
  minute : Nat
  second : Nat
  hourLt : hour < 24
  minuteLt : minute < 60
  secondLe : second ≤ 60

def Time.addYears (t : Time) (n : Nat) : Time := { t with date := t.date.addYears n }

def Time.addDays (t : Time) (n : Nat) : Time := { t with date := t.date.addDays n }

/-- Seconds since the start of the day. -/
def Time.ofDay (t : Time) : Nat := 3600 * t.hour + 60 * t.minute + t.second

/-- Something added to a leap second is added to the first second of the next minute. -/
def Time.addSeconds (t : Time) (n : Nat) : Time :=
  if n = 0 then t
  else
    { date := t.date.addDays ((t.ofDay + n) / 86400)
      hour := (t.ofDay + n) % 86400 / 3600
      minute := (t.ofDay + n) % 3600 / 60
      second := (t.ofDay + n) % 60
      hourLt := by omega
      minuteLt := by omega
      secondLe := by omega }

@[simp] theorem Time.addYears_zero (t : Time) : t.addYears 0 = t := by
  rw [Time.addYears, Date.addYears_zero]

@[simp] theorem Time.addDays_zero (t : Time) : t.addDays 0 = t := rfl

@[simp] theorem Time.addSeconds_zero (t : Time) : t.addSeconds 0 = t := rfl

theorem Time.stamp_le_addSeconds (t : Time) (n : Nat) : t.date.stamp ≤ (t.addSeconds n).date.stamp := by
  unfold Time.addSeconds
  split
  · exact Nat.le_refl _
  · exact t.date.stamp_le_addDays _

end Gregorian

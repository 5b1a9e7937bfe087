import Mathlib.Order.Bounds.Basic
import OpenVAS.Schedules.Months

/-! What a round of the scheduler does: when it passes its assertions, when the
next time it stores is the first occurrence after the present, and when clients
are shown that time. -/
namespace Schedules

open Calendar CString
open Otp (TaskStatus)

/-! Occurrences. -/

/-- The least value of an increasing sequence above a bound is the one below
which all values are within the bound. -/
theorem isLeast_above_iff {f : Nat → Int} (hMono : StrictMono f) {bound x : Int} :
    IsLeast {t | bound < t ∧ ∃ i, t = f i} x ↔ ∃ j, x = f j ∧ ∀ i, f i ≤ bound ↔ i < j := by
  constructor
  · rintro ⟨⟨hAbove, j, rfl⟩, hLeast⟩
    refine ⟨j, rfl, fun i => ⟨fun hLe => ?_, fun hLt => ?_⟩⟩
    · by_contra hNot
      have hGe := hMono.monotone (Nat.le_of_not_lt hNot)
      omega
    · by_contra hNot
      have hGe := hLeast ⟨Int.lt_of_not_ge hNot, i, rfl⟩
      have hSmall := hMono hLt
      omega
  · rintro ⟨j, rfl, hBelow⟩
    refine ⟨⟨?_, j, rfl⟩, ?_⟩
    · exact Int.lt_of_not_ge fun hLe => Nat.lt_irrefl j ((hBelow j).mp hLe)
    · rintro t ⟨hAbove, i, rfl⟩
      apply hMono.monotone
      by_contra hNot
      have hLe := (hBelow i).mpr (Nat.lt_of_not_le hNot)
      omega

namespace TaskSchedule

def Periodic (r : TaskSchedule) : Prop := r.period ≠ 0 ∨ r.periodMonths ≠ 0

/-- The times of a periodic schedule, before the correction. -/
def occurrence (r : TaskSchedule) (i : Nat) : Int :=
  if r.period ≠ 0 then r.firstTime + i * r.period else addMonths r.firstTime (i * r.periodMonths)

theorem occurrence_strictMono {r : TaskSchedule} (h : r.Periodic) : StrictMono r.occurrence := by
  intro i j hLt
  simp only [occurrence]
  by_cases hPeriod : r.period = 0
  · have hMonths : 0 < r.periodMonths := Nat.pos_of_ne_zero (h.resolve_left fun hNot => hNot hPeriod)
    simp only [hPeriod, ne_eq, not_true_eq_false, if_false]
    apply addMonths_strictMono
    exact_mod_cast Nat.mul_lt_mul_of_pos_right hLt hMonths
  · simp only [ne_eq, hPeriod, not_false_eq_true, if_true]
    have hScaled : (i * r.period : Int) < j * r.period := by
      exact_mod_cast Nat.mul_lt_mul_of_pos_right hLt (Nat.pos_of_ne_zero hPeriod)
    omega

end TaskSchedule

/-- The first time of a schedule that comes after the present, with the correction. -/
def IsNextOccurrence (clock : Clock) (r : TaskSchedule) (time : Int) : Prop :=
  IsLeast {t | clock.now < t ∧ ∃ i, t = r.occurrence i + clock.correction r} time

theorem isNextOccurrence_iff {clock : Clock} {r : TaskSchedule} (h : r.Periodic) {time : Int} :
    IsNextOccurrence clock r time ↔ ∃ j, time = r.occurrence j + clock.correction r ∧
      ∀ i, r.occurrence i + clock.correction r ≤ clock.now ↔ i < j := by
  have hMono : StrictMono fun i => r.occurrence i + clock.correction r := by
    intro i j hLt
    have hStep := TaskSchedule.occurrence_strictMono h hLt
    show _ + _ < _ + _
    omega
  exact isLeast_above_iff hMono

/-! Assertions. -/

/-- The assertions that a row meets, in terms of its own times. -/
structure Safe (clock : Clock) (r : TaskSchedule) : Prop where
  period : startDue clock r = true → r.period ≠ 0 → r.firstTime ≤ clock.now
  months : startDue clock r = true → r.period = 0 → r.periodMonths ≠ 0 →
    r.firstTime < clock.now ∧
      (r.duration ≠ 0 → r.firstTime + clock.correction r < clock.now)
  stop : startDue clock r = false → r.period = 0 → r.periodMonths ≠ 0 → r.duration ≠ 0 →
    r.runStatus = .running ∨ r.runStatus = .requested →
    r.firstTime + clock.correction r < clock.now

variable {clock : Clock} {r : TaskSchedule}

theorem monthsBetween_ok_iff (time1 time2 : Int) :
    (∃ n, monthsBetween time1 time2 = .ok n) ↔ time1 < time2 := by
  constructor
  · rintro ⟨n, hOk⟩
    by_contra hNot
    rw [monthsBetween_of_not_lt hNot] at hOk
    cases hOk
  · exact fun h => ⟨_, monthsBetween_eq h⟩

/-- The time stored for a period in seconds. -/
theorem handleStart_period (hPeriod : r.period ≠ 0) (hFirst : r.firstTime ≤ clock.now) :
    ∃ within, handleStart clock r = .ok (r.firstTime +
      ((clock.now - r.firstTime) / r.period + 1) * r.period, within) := by
  have hDiv : (clock.now - r.firstTime).tdiv r.period = (clock.now - r.firstTime) / r.period :=
    Int.tdiv_eq_ediv_of_nonneg (by omega)
  simp only [handleStart, ne_eq, hPeriod, not_false_eq_true, if_true, hFirst, not_true_eq_false,
    if_false, hDiv]
  exact ⟨_, rfl⟩

theorem handleStart_period_error (hPeriod : r.period ≠ 0) (hFirst : ¬ r.firstTime ≤ clock.now) :
    handleStart clock r = .error .firstTime := by
  simp only [handleStart, ne_eq, hPeriod, not_false_eq_true, if_true, hFirst]

/-- The time stored for a period in months. -/
theorem handleStart_months (hPeriod : r.period = 0) (hMonths : r.periodMonths ≠ 0)
    (hFirst : r.firstTime < clock.now)
    (hDuration : r.duration ≠ 0 → r.firstTime + clock.correction r < clock.now) :
    ∃ within, handleStart clock r =
      .ok (addMonths r.firstTime (countedMonths r.firstTime clock.now + 1), within) := by
  simp only [handleStart, ne_eq, hPeriod, not_true_eq_false, if_false, hMonths, not_false_eq_true,
    if_true, Int.le_of_lt hFirst, monthsBetween_eq hFirst]
  by_cases hZero : r.duration = 0
  · simp only [hZero, not_true_eq_false, if_false]
    exact ⟨_, rfl⟩
  · simp only [hZero, not_false_eq_true, if_true, monthsBetween_eq (hDuration hZero)]
    exact ⟨_, rfl⟩

theorem handleStart_months_error (hPeriod : r.period = 0) (hMonths : r.periodMonths ≠ 0)
    (h : ¬ (r.firstTime < clock.now ∧
      (r.duration ≠ 0 → r.firstTime + clock.correction r < clock.now))) :
    ∃ fault, handleStart clock r = .error fault := by
  simp only [handleStart, ne_eq, hPeriod, not_true_eq_false, if_false, hMonths, not_false_eq_true,
    if_true]
  by_cases hLe : r.firstTime ≤ clock.now
  · simp only [hLe, not_true_eq_false, if_false]
    by_cases hFirst : r.firstTime < clock.now
    · have hBoth : r.duration ≠ 0 ∧ ¬ r.firstTime + clock.correction r < clock.now := by
        constructor
        · exact fun hZero => h ⟨hFirst, fun hNot => absurd hZero hNot⟩
        · exact fun hLt => h ⟨hFirst, fun _ => hLt⟩
      simp only [monthsBetween_eq hFirst, hBoth.1, not_false_eq_true, if_true,
        monthsBetween_of_not_lt hBoth.2]
      exact ⟨_, rfl⟩
    · rw [monthsBetween_of_not_lt hFirst]
      exact ⟨_, rfl⟩
  · simp only [hLe, not_false_eq_true, if_true]
    exact ⟨_, rfl⟩

theorem handleStart_ok_iff :
    (∃ result, handleStart clock r = .ok result) ↔
      (r.period ≠ 0 → r.firstTime ≤ clock.now) ∧
        (r.period = 0 → r.periodMonths ≠ 0 → r.firstTime < clock.now ∧
          (r.duration ≠ 0 → r.firstTime + clock.correction r < clock.now)) := by
  by_cases hPeriod : r.period = 0
  · by_cases hMonths : r.periodMonths = 0
    · simp [handleStart, hPeriod, hMonths]
    · simp only [ne_eq, hPeriod, hMonths, not_true_eq_false, not_false_eq_true, true_implies,
        false_implies, true_and]
      constructor
      · rintro ⟨result, hOk⟩
        by_contra hNot
        obtain ⟨fault, hError⟩ := handleStart_months_error hPeriod hMonths hNot
        rw [hError] at hOk
        cases hOk
      · rintro ⟨hFirst, hDuration⟩
        obtain ⟨within, hOk⟩ := handleStart_months hPeriod hMonths hFirst hDuration
        exact ⟨_, hOk⟩
  · simp only [ne_eq, hPeriod, not_false_eq_true, true_implies, false_implies, and_true]
    constructor
    · rintro ⟨result, hOk⟩
      by_contra hNot
      rw [handleStart_period_error hPeriod hNot] at hOk
      cases hOk
    · intro hFirst
      obtain ⟨within, hOk⟩ := handleStart_period hPeriod hFirst
      exact ⟨_, hOk⟩

theorem stopDue_ok_iff :
    (∃ due, stopDue clock r = .ok due) ↔
      (r.period = 0 → r.periodMonths ≠ 0 → r.duration ≠ 0 →
        r.runStatus = .running ∨ r.runStatus = .requested →
        r.firstTime + clock.correction r < clock.now) := by
  by_cases hDuration : r.duration = 0
  · simp [stopDue, hDuration]
  · by_cases hPeriod : r.period = 0
    · by_cases hMonths : r.periodMonths = 0
      · simp [stopDue, hPeriod, hMonths, hDuration]
      · by_cases hRunning : r.runStatus = .running ∨ r.runStatus = .requested
        · simp only [stopDue, hPeriod, hMonths, hDuration, hRunning, ne_eq, not_true_eq_false,
            not_false_eq_true, false_and, true_and, if_false, if_true, true_implies]
          rw [← monthsBetween_ok_iff]
          cases monthsBetween (r.firstTime + clock.correction r) clock.now with
          | error fault => simp [bind, Except.bind]
          | ok n => simp [bind, Except.bind, pure, Except.pure]
        · simp [stopDue, hPeriod, hMonths, hDuration, hRunning]
    · simp [stopDue, hPeriod, hDuration]

theorem scheduleTask_ok_iff : (∃ result, scheduleTask clock r = .ok result) ↔ Safe clock r := by
  cases hDue : startDue clock r with
  | true =>
      have hBind : (∃ result, scheduleTask clock r = .ok result) ↔
          ∃ result, handleStart clock r = .ok result := by
        simp only [scheduleTask, hDue, if_true]
        cases handleStart clock r with
        | error fault => simp [bind, Except.bind]
        | ok result => simp [bind, Except.bind, pure, Except.pure]
      rw [hBind, handleStart_ok_iff]
      constructor
      · exact fun h => ⟨fun _ => h.1, fun _ => h.2, fun hNot => by rw [hDue] at hNot; cases hNot⟩
      · exact fun h => ⟨h.period hDue, h.months hDue⟩
  | false =>
      have hBind : (∃ result, scheduleTask clock r = .ok result) ↔
          ∃ due, stopDue clock r = .ok due := by
        simp only [scheduleTask, hDue, Bool.false_eq_true, if_false]
        cases stopDue clock r with
        | error fault => simp [bind, Except.bind]
        | ok due => simp [bind, Except.bind, pure, Except.pure]
      rw [hBind, stopDue_ok_iff]
      constructor
      · exact fun h => ⟨fun hNot => (by rw [hDue] at hNot; cases hNot),
          fun hNot => (by rw [hDue] at hNot; cases hNot), fun _ => h⟩
      · exact fun h => h.stop hDue

/-- A list of tasks as the loop builds it. -/
def Named (list : List CString) : Prop := ∃ tasks, takeTasks list = .ok tasks

theorem named_prependTask {list : List CString} (h : Named list) (r : TaskSchedule) :
    Named (prependTask r list) := by
  obtain ⟨tasks, hOk⟩ := h
  exact ⟨(r.ownerName, r.ownerUuid, r.taskUuid) :: tasks, by simp [prependTask, takeTasks, hOk]⟩

/-- The loop comes to its end when each of its rows does, and its lists name tasks. -/
theorem collect_ok_iff (round : Round) (hStarts : Named round.starts) (hStops : Named round.stops)
    (rows : List TaskSchedule) :
    (∃ result, collect clock round rows = .ok result ∧ Named result.starts ∧ Named result.stops) ↔
      ∀ r ∈ rows, Safe clock r := by
  induction rows generalizing round with
  | nil =>
      simp only [List.not_mem_nil, false_implies, implies_true, iff_true]
      exact ⟨round, rfl, hStarts, hStops⟩
  | cons r rows ih =>
      rw [List.forall_mem_cons, ← scheduleTask_ok_iff]
      cases hTask : scheduleTask clock r with
      | error fault => simp [collect, hTask, bind, Except.bind]
      | ok result =>
          obtain ⟨r', action⟩ := result
          have hLists : ∀ (wanted : Action) {list : List CString}, Named list →
              Named (if action = wanted then prependTask r' list else list) := by
            intro wanted list hList
            split
            · exact named_prependTask hList r'
            · exact hList
          have hRest := ih ⟨round.rows ++ [r'],
            if action = .start then prependTask r' round.starts else round.starts,
            if action = .stop then prependTask r' round.stops else round.stops⟩
            (hLists _ hStarts) (hLists _ hStops)
          simp only [collect, hTask, bind, Except.bind]
          rw [hRest]
          simp

/-- A round passes its assertions exactly when the times of each of its rows do. -/
theorem manageSchedule_ok_iff (clock : Clock) (rows : List TaskSchedule) :
    (∃ result, manageSchedule clock rows = .ok result) ↔ ∀ r ∈ rows, Safe clock r := by
  rw [← collect_ok_iff ⟨[], [], []⟩ ⟨[], rfl⟩ ⟨[], rfl⟩ rows]
  simp only [manageSchedule]
  cases collect clock ⟨[], [], []⟩ rows with
  | error fault => simp [bind, Except.bind]
  | ok round =>
      constructor
      · rintro ⟨result, hOk⟩
        refine ⟨round, rfl, ?_⟩
        cases hStarts : takeTasks round.starts with
        | error fault => simp [bind, Except.bind, hStarts] at hOk
        | ok starts =>
            cases hStops : takeTasks round.stops with
            | error fault => simp [bind, Except.bind, hStarts, hStops] at hOk
            | ok stops => exact ⟨⟨starts, hStarts⟩, ⟨stops, hStops⟩⟩
      · rintro ⟨result, hRound, ⟨starts, hStarts⟩, ⟨stops, hStops⟩⟩
        obtain rfl := Except.ok.inj hRound
        exact ⟨(round.rows, starts, stops), by simp [bind, Except.bind, pure, Except.pure, hStarts, hStops]⟩

theorem collect_rows {round result : Round} {rows : List TaskSchedule}
    (h : collect clock round rows = .ok result) :
    ∃ rows', result.rows = round.rows ++ rows' ∧
      List.Forall₂ (fun r r' => ∃ action, scheduleTask clock r = .ok (r', action)) rows rows' := by
  induction rows generalizing round with
  | nil =>
      obtain rfl := Except.ok.inj h
      exact ⟨[], (List.append_nil _).symm, List.Forall₂.nil⟩
  | cons r rows ih =>
      cases hTask : scheduleTask clock r with
      | error fault => simp [collect, hTask, bind, Except.bind] at h
      | ok handled =>
          obtain ⟨r', action⟩ := handled
          simp only [collect, hTask, bind, Except.bind] at h
          obtain ⟨rows', hRows, hRest⟩ := ih h
          refine ⟨r' :: rows', ?_, List.Forall₂.cons ⟨action, hTask⟩ hRest⟩
          rw [hRows, List.append_assoc]
          rfl

/-- A round stores for each of its rows what its loop makes of that row alone. -/
theorem manageSchedule_rows {rows rows' : List TaskSchedule}
    {starts stops : List (CString × CString × CString)}
    (h : manageSchedule clock rows = .ok (rows', starts, stops)) :
    List.Forall₂ (fun r r' => ∃ action, scheduleTask clock r = .ok (r', action)) rows rows' := by
  simp only [manageSchedule] at h
  cases hCollect : collect clock ⟨[], [], []⟩ rows with
  | error fault => simp [hCollect, bind, Except.bind] at h
  | ok round =>
      obtain ⟨stored, hStored, hRows⟩ := collect_rows hCollect
      cases hStarts : takeTasks round.starts with
      | error fault => simp [hCollect, hStarts, bind, Except.bind] at h
      | ok startTasks =>
          cases hStops : takeTasks round.stops with
          | error fault => simp [hCollect, hStarts, hStops, bind, Except.bind] at h
          | ok stopTasks =>
              simp only [hCollect, hStarts, hStops, bind, Except.bind] at h
              obtain ⟨rfl, -⟩ := Prod.mk.inj (Except.ok.inj h)
              rw [hStored]
              exact hRows

/-- A task that runs each month for an hour, was started by hand, and whose first
time is still to come. -/
def earlyTask : TaskSchedule :=
  { taskUuid := lit "t", ownerUuid := lit "u", ownerName := lit "n", runStatus := .running
    nextTime := 2000, period := 0, periodMonths := 1, firstTime := 2000, duration := 3600
    timezone := none, initialOffset := 0 }

theorem manageSchedule_earlyTask :
    manageSchedule ⟨1000, fun _ => 0⟩ [earlyTask] = .error .monthsBetween := rfl

/-! Starting once. -/

/-- A task that has been handled is not due again, and if its schedule is periodic,
the stored time is the next occurrence. -/
def StartsOnce (clock : Clock) (r : TaskSchedule) : Prop :=
  ∃ r' action, scheduleTask clock r = .ok (r', action) ∧
    (∀ status, startDue clock { r' with runStatus := status } = false) ∧
    (r.Periodic → IsNextOccurrence clock r (r'.nextTime + clock.correction r))

/-- No occurrence is moved across the present. -/
structure Uncrossed (clock : Clock) (r : TaskSchedule) : Prop where
  /-- By the correction. -/
  period : r.period ≠ 0 → r.firstTime ≤ clock.now ∧ ∀ i : Nat,
    r.firstTime + i * r.period + clock.correction r ≤ clock.now ↔
      r.firstTime + i * r.period ≤ clock.now
  /-- By the correction or the lengths of the months, and the next month is one in
  which the schedule has an occurrence. -/
  months : r.period = 0 → r.periodMonths ≠ 0 → r.firstTime < clock.now ∧
    (r.duration ≠ 0 → r.firstTime + clock.correction r < clock.now) ∧
    (r.periodMonths : Int) ∣ countedMonths r.firstTime clock.now + 1 ∧ ∀ i : Nat,
      addMonths r.firstTime (i * r.periodMonths) + clock.correction r ≤ clock.now ↔
        (i * r.periodMonths : Int) ≤ countedMonths r.firstTime clock.now

theorem countedMonths_nonneg {time1 time2 : Int} (h : time1 < time2) :
    0 ≤ countedMonths time1 time2 := by
  have hLe := month_le h
  have hSame := position_lt_of_month_eq h
  have hMonth1 := localtime_month time1
  have hMonth2 := localtime_month time2
  obtain ⟨hMon1, -⟩ := localtime_bounds time1
  obtain ⟨hMon2, -⟩ := localtime_bounds time2
  simp only [countedMonths, fullMonths, Overlooked]
  repeat' split
  all_goals omega

/-- The counted months and one more lead to the present or beyond. -/
theorem le_addMonths_countedMonths (first now : Int) :
    now ≤ addMonths first (countedMonths first now + 1) := by
  have hNow := time_eq now
  have hBounds := position_bounds now
  have hStep := (monthStart_step (month now)).1
  have hFirst := (position_bounds first).1
  rw [addMonths_eq]
  by_cases hLater : position now < position first
  · have hNotOverlooked : ¬ Overlooked first now := fun hOver => by
      have hSame := hOver.1
      omega
    have hCount : month first + (countedMonths first now + 1) = month now := by
      rw [countedMonths, fullMonths, if_pos hLater, if_neg hNotOverlooked]
      omega
    rw [hCount]
    omega
  · by_cases hOver : Overlooked first now
    · have hSame := hOver.1
      have hCount : month first + (countedMonths first now + 1) = month now := by
        rw [countedMonths, fullMonths, if_neg hLater, if_pos hOver]
        omega
      rw [hCount]
      omega
    · have hCount : month first + (countedMonths first now + 1) = month now + 1 := by
        rw [countedMonths, fullMonths, if_neg hLater, if_neg hOver]
        omega
      rw [hCount]
      omega

/-! The time that is stored. -/

/-- The time that is computed for a periodic task that is due. -/
def followingTime (clock : Clock) (r : TaskSchedule) : Int :=
  if r.period ≠ 0 then r.firstTime + ((clock.now - r.firstTime) / r.period + 1) * r.period
  else addMonths r.firstTime (countedMonths r.firstTime clock.now + 1)

/-- The assertions that are met for a task that is due. -/
def Asserted (clock : Clock) (r : TaskSchedule) : Prop :=
  (r.period ≠ 0 → r.firstTime ≤ clock.now) ∧
    (r.period = 0 → r.periodMonths ≠ 0 → r.firstTime < clock.now ∧
      (r.duration ≠ 0 → r.firstTime + clock.correction r < clock.now))

/-- The time is too late for 32 bits, and those that are stored are another occurrence, which the
correction makes the next one. -/
structure Wrapped (clock : Clock) (r : TaskSchedule) : Prop where
  asserted : Asserted clock r
  late : 2 ^ 31 ≤ followingTime clock r
  early : ∃ j, (-2 ^ 31 ≤ r.occurrence j ∧ r.occurrence j < 2 ^ 31) ∧
    2 ^ 32 ∣ followingTime clock r - r.occurrence j ∧
    ∀ i, r.occurrence i + clock.correction r ≤ clock.now ↔ i < j

/-- A due task that is handled keeps everything but its next time. -/
theorem scheduleTask_due (hDue : startDue clock r = true) {next : Int} {within : Bool}
    (hStart : handleStart clock r = .ok (next, within)) :
    scheduleTask clock r =
      .ok (setTaskScheduleNextTime r next, if within then .start else .nothing) := by
  simp [scheduleTask, hDue, hStart, bind, Except.bind, pure, Except.pure]

/-- What is stored has 32 bits, and differs by their multiples. -/
theorem storedTime_eq_iff (time other : Int) :
    (setTaskScheduleNextTime r time).nextTime = other ↔
      (-2 ^ 31 ≤ other ∧ other < 2 ^ 31) ∧ 2 ^ 32 ∣ time - other := by
  rw [setTaskScheduleNextTime, Int32.toInt_ofInt, Int.bmod_eq_iff (by decide)]
  simp only [Int32.size]
  omega

theorem storedTime_of_lt {time : Int} (hLow : 0 ≤ time) (hHigh : time < 2 ^ 31) :
    (setTaskScheduleNextTime r time).nextTime = time :=
  (storedTime_eq_iff time time).mpr ⟨⟨by omega, hHigh⟩, by rw [Int.sub_self]; exact Int.dvd_zero _⟩

theorem handleStart_following (hPeriodic : r.Periodic) (h : Asserted clock r) :
    ∃ within, handleStart clock r = .ok (followingTime clock r, within) := by
  rw [followingTime]
  by_cases hPeriod : r.period = 0
  · have hMonths := hPeriodic.resolve_left (not_not_intro hPeriod)
    rw [if_neg (not_not_intro hPeriod)]
    exact handleStart_months hPeriod hMonths (h.2 hPeriod hMonths).1 (h.2 hPeriod hMonths).2
  · rw [if_pos hPeriod]
    exact handleStart_period hPeriod (h.1 hPeriod)

/-- The time of a task that is due is not before the present, and so not before 1970. -/
theorem le_followingTime (clock : Clock) (r : TaskSchedule) : clock.now ≤ followingTime clock r := by
  rw [followingTime]
  split
  · rename_i hPeriod
    have hAbove := Int.lt_ediv_add_one_mul_self (clock.now - r.firstTime)
      (show 0 < (r.period : Int) by omega)
    omega
  · exact le_addMonths_countedMonths r.firstTime clock.now

theorem now_pos_of_due (hDue : startDue clock r = true) : 0 < clock.now := by
  simp only [startDue, Bool.and_eq_true, decide_eq_true_eq] at hDue
  omega

/-- A time after the present is not due. -/
theorem startDue_of_lt {status : TaskStatus} (h : clock.now < r.nextTime + clock.correction r) :
    startDue clock { r with runStatus := status } = false := by
  have hNot : ¬ r.nextTime + clock.correction { r with runStatus := status } ≤ clock.now :=
    Int.not_le.mpr h
  simp only [startDue, hNot, decide_false, Bool.and_false]

/-- For a periodic schedule, the stored time decides. -/
theorem startsOnce_iff_stored (hDue : startDue clock r = true) (hPeriodic : r.Periodic) :
    StartsOnce clock r ↔ Asserted clock r ∧ IsNextOccurrence clock r
      ((setTaskScheduleNextTime r (followingTime clock r)).nextTime + clock.correction r) := by
  by_cases hAsserted : Asserted clock r
  · obtain ⟨within, hStart⟩ := handleStart_following hPeriodic hAsserted
    have hTask := scheduleTask_due hDue hStart
    constructor
    · rintro ⟨r', action, hOk, -, hNext⟩
      rw [hTask] at hOk
      obtain ⟨rfl, -⟩ := Prod.mk.inj (Except.ok.inj hOk)
      exact ⟨hAsserted, hNext hPeriodic⟩
    · rintro ⟨-, hNext⟩
      refine ⟨_, _, hTask, fun status => ?_, fun _ => hNext⟩
      exact startDue_of_lt (r := setTaskScheduleNextTime r (followingTime clock r)) hNext.1.1
  · refine iff_of_false ?_ fun h => hAsserted h.1
    rintro ⟨r', action, hOk, -⟩
    refine hAsserted (handleStart_ok_iff.mp ?_)
    cases hStart : handleStart clock r with
    | error fault => simp [scheduleTask, hDue, hStart, bind, Except.bind] at hOk
    | ok result => exact ⟨result, rfl⟩

/-! The next occurrence. -/

theorem isNextOccurrence_period (hPeriod : r.period ≠ 0) (hFirst : r.firstTime ≤ clock.now) :
    IsNextOccurrence clock r (followingTime clock r + clock.correction r) ↔ ∀ i : Nat,
      r.firstTime + i * r.period + clock.correction r ≤ clock.now ↔
        r.firstTime + i * r.period ≤ clock.now := by
  have hPos : 0 < (r.period : Int) := by omega
  obtain ⟨e, hElapsed⟩ := Int.eq_ofNat_of_zero_le
    (Int.ediv_nonneg (Int.sub_nonneg_of_le hFirst) (Int.le_of_lt hPos))
  have hOccurrence : ∀ i : Nat, r.occurrence i = r.firstTime + i * r.period :=
    fun i => if_pos hPeriod
  -- The present is behind occurrence `e` and in front of the next one.
  have hBelow : ∀ i : Nat, r.firstTime + i * r.period ≤ clock.now ↔ i < e + 1 := by
    intro i
    have hDiv := Int.le_ediv_iff_mul_le (a := (i : Int)) (b := clock.now - r.firstTime) hPos
    rw [hElapsed] at hDiv
    omega
  rw [isNextOccurrence_iff (Or.inl hPeriod), followingTime, if_pos hPeriod]
  simp only [hOccurrence, hElapsed]
  constructor
  · rintro ⟨j, hTime, hAll⟩ i
    have hSame : (e + 1 : Int) * r.period = j * r.period := by
      omega
    have hIndex := Int.eq_of_mul_eq_mul_right (Int.ne_of_gt hPos) hSame
    rw [hAll i, hBelow i]
    omega
  · intro hAll
    refine ⟨e + 1, by push_cast; omega, fun i => ?_⟩
    rw [hAll i, hBelow i]

theorem isNextOccurrence_months (hPeriod : r.period = 0) (hMonths : r.periodMonths ≠ 0)
    (hFirst : r.firstTime < clock.now) :
    IsNextOccurrence clock r (followingTime clock r + clock.correction r) ↔
      (r.periodMonths : Int) ∣ countedMonths r.firstTime clock.now + 1 ∧ ∀ i : Nat,
        addMonths r.firstTime (i * r.periodMonths) + clock.correction r ≤ clock.now ↔
          (i * r.periodMonths : Int) ≤ countedMonths r.firstTime clock.now := by
  have hCounted := countedMonths_nonneg hFirst
  have hOccurrence : ∀ i : Nat, r.occurrence i = addMonths r.firstTime (i * r.periodMonths) :=
    fun i => if_neg (not_not_intro hPeriod)
  have hPos : 0 < (r.periodMonths : Int) := by omega
  rw [isNextOccurrence_iff (Or.inr hMonths), followingTime, if_neg (not_not_intro hPeriod)]
  simp only [hOccurrence]
  constructor
  · rintro ⟨j, hTime, hAll⟩
    have hIndex : countedMonths r.firstTime clock.now + 1 = j * r.periodMonths :=
      (addMonths_strictMono r.firstTime).injective (by omega)
    refine ⟨⟨j, by rw [hIndex, Int.mul_comm]⟩, fun i => ?_⟩
    have hScaled := Int.mul_lt_mul_right (b := (i : Int)) (c := j) hPos
    rw [hAll i]
    omega
  · rintro ⟨⟨q, hIndex⟩, hAll⟩
    have hNonneg : 0 ≤ q := by
      by_contra hNot
      have hNeg := Int.mul_neg_of_pos_of_neg hPos (Int.not_le.mp hNot)
      omega
    obtain ⟨j, rfl⟩ := Int.eq_ofNat_of_zero_le hNonneg
    refine ⟨j, by rw [hIndex, Int.mul_comm], fun i => ?_⟩
    have hScaled := Int.mul_lt_mul_right (b := (i : Int)) (c := j) hPos
    rw [Int.mul_comm] at hIndex
    rw [hAll i]
    omega

/-- The time that is computed is the next occurrence when none is moved across the present. -/
theorem isNextOccurrence_following_iff (hPeriodic : r.Periodic) :
    Asserted clock r ∧ IsNextOccurrence clock r (followingTime clock r + clock.correction r) ↔
      Uncrossed clock r := by
  by_cases hPeriod : r.period = 0
  · have hMonths := hPeriodic.resolve_left (not_not_intro hPeriod)
    constructor
    · rintro ⟨hAsserted, hNext⟩
      obtain ⟨hFirst, hDuration⟩ := hAsserted.2 hPeriod hMonths
      exact ⟨fun hNot => absurd hPeriod hNot, fun _ _ => ⟨hFirst, hDuration,
        (isNextOccurrence_months hPeriod hMonths hFirst).mp hNext⟩⟩
    · intro h
      obtain ⟨hFirst, hDuration, hNext⟩ := h.months hPeriod hMonths
      exact ⟨⟨fun hNot => absurd hPeriod hNot, fun _ _ => ⟨hFirst, hDuration⟩⟩,
        (isNextOccurrence_months hPeriod hMonths hFirst).mpr hNext⟩
  · constructor
    · rintro ⟨hAsserted, hNext⟩
      exact ⟨fun _ => ⟨hAsserted.1 hPeriod,
        (isNextOccurrence_period hPeriod (hAsserted.1 hPeriod)).mp hNext⟩,
        fun hZero => absurd hZero hPeriod⟩
    · intro h
      obtain ⟨hFirst, hNext⟩ := h.period hPeriod
      exact ⟨⟨fun _ => hFirst, fun hZero => absurd hZero hPeriod⟩,
        (isNextOccurrence_period hPeriod hFirst).mpr hNext⟩

/-- A time that is too late for 32 bits is stored as an earlier one. -/
theorem isNextOccurrence_late_iff (hPeriodic : r.Periodic) (hLate : 2 ^ 31 ≤ followingTime clock r) :
    Asserted clock r ∧ IsNextOccurrence clock r
        ((setTaskScheduleNextTime r (followingTime clock r)).nextTime + clock.correction r) ↔
      Wrapped clock r := by
  have hStored : IsNextOccurrence clock r
      ((setTaskScheduleNextTime r (followingTime clock r)).nextTime + clock.correction r) ↔
      ∃ j, (setTaskScheduleNextTime r (followingTime clock r)).nextTime = r.occurrence j ∧
        ∀ i, r.occurrence i + clock.correction r ≤ clock.now ↔ i < j := by
    rw [isNextOccurrence_iff hPeriodic]
    refine exists_congr fun j => and_congr_left fun _ => ?_
    omega
  rw [hStored]
  simp only [storedTime_eq_iff, and_assoc]
  constructor
  · rintro ⟨hAsserted, j, hLow, hHigh, hSame, hAll⟩
    exact ⟨hAsserted, hLate, j, ⟨hLow, hHigh⟩, hSame, hAll⟩
  · rintro ⟨hAsserted, -, j, ⟨hLow, hHigh⟩, hSame, hAll⟩
    exact ⟨hAsserted, j, hLow, hHigh, hSame, hAll⟩

/-- A due task starts once exactly when no occurrence is moved across the present and the time fits
32 bits, or when both go wrong and make up for each other. -/
theorem startsOnce_iff (hDue : startDue clock r = true) :
    StartsOnce clock r ↔
      (Uncrossed clock r ∧ (r.Periodic → followingTime clock r < 2 ^ 31)) ∨
        (r.Periodic ∧ Wrapped clock r) := by
  by_cases hPeriodic : r.Periodic
  · rw [startsOnce_iff_stored hDue hPeriodic]
    by_cases hLate : 2 ^ 31 ≤ followingTime clock r
    · rw [isNextOccurrence_late_iff hPeriodic hLate]
      constructor
      · exact fun h => .inr ⟨hPeriodic, h⟩
      · rintro (⟨-, hFits⟩ | ⟨-, h⟩)
        · exact absurd (hFits hPeriodic) (Int.not_lt.mpr hLate)
        · exact h
    · rw [← isNextOccurrence_following_iff hPeriodic]
      have hFits := Int.not_le.mp hLate
      constructor
      · rintro ⟨hAsserted, hNext⟩
        have hPos := le_followingTime clock r
        rw [storedTime_of_lt (by have hNow := now_pos_of_due hDue; omega) hFits] at hNext
        exact .inl ⟨⟨hAsserted, hNext⟩, fun _ => hFits⟩
      · rintro (⟨⟨hAsserted, hNext⟩, -⟩ | ⟨-, h⟩)
        · have hPos := le_followingTime clock r
          rw [storedTime_of_lt (by have hNow := now_pos_of_due hDue; omega) hFits]
          exact ⟨hAsserted, hNext⟩
        · exact absurd h.late hLate
  · obtain ⟨hPeriod, hMonths⟩ := not_or.mp hPeriodic
    have hStart : handleStart clock r = .ok (0, true) := by
      simp [handleStart, not_not.mp hPeriod, not_not.mp hMonths]
    refine iff_of_true ⟨_, _, scheduleTask_due hDue hStart, fun status => ?_,
      fun h => absurd h hPeriodic⟩ (.inl ⟨⟨fun h => absurd h hPeriod, fun _ h => absurd h hMonths⟩,
      fun h => absurd h hPeriodic⟩)
    simp [startDue, setTaskScheduleNextTime]

/-- A daily task that has been done and is due at noon of its second day. -/
def dailyTask : TaskSchedule :=
  { taskUuid := lit "t", ownerUuid := lit "u", ownerName := lit "n", runStatus := .done
    nextTime := 186400, period := 86400, periodMonths := 0, firstTime := 100000, duration := 0
    timezone := some (lit "Europe/Berlin"), initialOffset := 3600 }

theorem startsOnce_iff_dailyTask :
    startDue ⟨186400, fun _ => 3600⟩ dailyTask = true ∧
      (StartsOnce ⟨186400, fun _ => 3600⟩ dailyTask ↔
        (Uncrossed ⟨186400, fun _ => 3600⟩ dailyTask ∧
          (dailyTask.Periodic → followingTime ⟨186400, fun _ => 3600⟩ dailyTask < 2 ^ 31)) ∨
        (dailyTask.Periodic ∧ Wrapped ⟨186400, fun _ => 3600⟩ dailyTask)) :=
  ⟨by decide, startsOnce_iff (by decide)⟩

/-- In summer the task is due an hour earlier, while the time stored for it is
still the one that it has: it is due again at once. -/
theorem dailyTask_due_again :
    let clock : Clock := ⟨182800, fun _ => 7200⟩
    startDue clock dailyTask = true ∧
      scheduleTask clock dailyTask = .ok (dailyTask, .start) ∧
      startDue clock { dailyTask with runStatus := .stopped } = true ∧
      ¬ StartsOnce clock dailyTask := by
  intro clock
  have hTask : scheduleTask clock dailyTask = .ok (dailyTask, .start) := rfl
  have hAgain : startDue clock { dailyTask with runStatus := .stopped } = true := by decide
  refine ⟨by decide, hTask, hAgain, ?_⟩
  rintro ⟨r', action, hOk, hNot, -⟩
  rw [hTask] at hOk
  obtain ⟨rfl, -⟩ := Prod.mk.inj (Except.ok.inj hOk)
  rw [hNot] at hAgain
  cases hAgain

/-! The time that clients are shown. -/

theorem succ_le_nextMultiple (count : Int) {period : Int} (hPos : 0 < period) :
    count + 1 ≤ (count / period + 1) * period :=
  Int.lt_ediv_add_one_mul_self count hPos

/-- `next_time` for a period in months is the first multiple of the period above
the counted months. -/
theorem nextTime_months {first now : Int} {periodMonths : Nat} (h : first < now)
    (hMonths : periodMonths ≠ 0) :
    nextTime now first 0 periodMonths =
      .ok (addMonths first ((countedMonths first now / periodMonths + 1) * periodMonths)) := by
  have hPos : 0 < periodMonths := Nat.pos_of_ne_zero hMonths
  have hDiv : (countedMonths first now).tdiv periodMonths = countedMonths first now / periodMonths :=
    Int.tdiv_eq_ediv_of_nonneg (countedMonths_nonneg h)
  have hAbove := succ_le_nextMultiple (countedMonths first now) (Int.natCast_pos.mpr hPos)
  have hNow := le_addMonths_countedMonths first now
  have hReached := (addMonths_strictMono first).monotone hAbove
  simp only [nextTime, Int.not_le.mpr h, ge_iff_le, if_false, Nat.lt_irrefl, hPos, if_true,
    monthsBetween_eq h, bind, Except.bind, hDiv, Int.le_trans hNow hReached]
  rfl

/-- With a period of nineteen years the time that is computed is after January 2038, and one in
1906 is stored. -/
example :
    let distant : TaskSchedule :=
      { dailyTask with nextTime := 1700000000, firstTime := 1700000000, period := 604800000 }
    scheduleTask ⟨1700000100, fun _ => 3600⟩ distant =
        .ok ({ distant with nextTime := -1990167296 }, .start) ∧
      nextTime 1700000100 1700000000 604800000 0 = .ok 2304800000 :=
  ⟨rfl, rfl⟩

end Schedules

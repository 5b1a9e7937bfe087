import OpenVAS.Schedules.Rounds

/-! The time that clients are shown for a schedule. The occurrences of a schedule in months
are in order, but where a month is too short for the day of the first time, its occurrence
falls into the month behind, in which `months_between` does not count it yet. -/
namespace Schedules

open Calendar

/-- An occurrence that is not before the present, with no other between them. -/
def IsUpcoming (now : Int) (r : TaskSchedule) (time : Int) : Prop :=
  (∃ k, time = r.occurrence k) ∧ now ≤ time ∧
    ∀ k, ¬ (now < r.occurrence k ∧ r.occurrence k < time)

/-- The month before has an occurrence, and is so short that this falls into the current month,
behind the present. -/
def Delayed (now first : Int) (periodMonths : Nat) : Prop :=
  (periodMonths : Int) ∣ month now - 1 - month first ∧
    position now + 86400 * (monthStart (month now) - monthStart (month now - 1)) < position first

section Upcoming

variable {now : Int} {r : TaskSchedule}

theorem occurrence_zero (r : TaskSchedule) : r.occurrence 0 = r.firstTime := by
  rw [TaskSchedule.occurrence]
  split
  · simp
  · simp [addMonths_zero]

/-- An occurrence is upcoming when the one before is not behind the present. -/
theorem isUpcoming_succ_iff (h : r.Periodic) {k : Nat} (hNow : now ≤ r.occurrence (k + 1)) :
    IsUpcoming now r (r.occurrence (k + 1)) ↔ r.occurrence k ≤ now := by
  have hMono := TaskSchedule.occurrence_strictMono h
  constructor
  · intro hUpcoming
    by_contra hAfter
    exact hUpcoming.2.2 k ⟨not_le.mp hAfter, hMono (Nat.lt_succ_self k)⟩
  · intro hBefore
    refine ⟨⟨k + 1, rfl⟩, hNow, fun j hBetween => ?_⟩
    have hLow : k < j := hMono.lt_iff_lt.mp (lt_of_le_of_lt hBefore hBetween.1)
    have hHigh : j < k + 1 := hMono.lt_iff_lt.mp hBetween.2
    omega

theorem isUpcoming_first (h : r.Periodic) (hNow : now ≤ r.firstTime) :
    IsUpcoming now r r.firstTime := by
  have hMono := TaskSchedule.occurrence_strictMono h
  refine ⟨⟨0, (occurrence_zero r).symm⟩, hNow, fun k hBetween => ?_⟩
  have hLess : k < 0 := hMono.lt_iff_lt.mp (by rw [occurrence_zero]; exact hBetween.2)
  exact Nat.not_lt_zero k hLess

end Upcoming

/-! Months. -/

/-- Behind a month that is too short, the months up to it are full, and none is overlooked. -/
theorem countedMonths_of_short {time1 time2 : Int}
    (hShort : position time2 + 86400 * (monthStart (month time2) - monthStart (month time2 - 1)) <
      position time1) :
    countedMonths time1 time2 = month time2 - 1 - month time1 := by
  have hStep := (monthStart_step (month time2 - 1)).1
  rw [Int.sub_add_cancel] at hStep
  have hEarlier : position time2 < position time1 := by omega
  have hNot : ¬ Overlooked time1 time2 := fun h => absurd h.1 (ne_of_gt hEarlier)
  rw [countedMonths, fullMonths, if_pos hEarlier, if_neg hNot]
  omega

/-- Months that are counted lead behind the second time only from a month that is too short. -/
theorem lt_addMonths_iff {time1 time2 n : Int} (hn : n ≤ countedMonths time1 time2) :
    time2 < addMonths time1 n ↔
      n = month time2 - 1 - month time1 ∧
        position time2 + 86400 * (monthStart (month time2) - monthStart (month time2 - 1)) <
          position time1 := by
  have hEq := time_eq time2
  have hFull : n ≤ fullMonths time1 time2 := by
    rw [countedMonths] at hn
    split at hn <;> omega
  rw [fullMonths] at hFull
  rw [addMonths_eq]
  constructor
  · intro hAfter
    have hFirst := position_bounds time1
    have hSecond := position_bounds time2
    have hLast : n = month time2 - 1 - month time1 := by
      by_contra hNot
      rcases lt_or_ge n (month time2 - month time1) with hLess | hSame
      · have hLength := (monthStart_step (month time1)).2
        have hStep := (monthStart_step (month time1 + n)).1
        have hNext := (monthStart_step (month time1 + n + 1)).1
        have hStart := monthStart_strictMono.monotone
          (show month time1 + n + 1 + 1 ≤ month time2 by omega)
        omega
      · have hMonth : month time1 + n = month time2 := by
          split at hFull <;> omega
        rw [hMonth] at hAfter
        split at hFull <;> omega
    refine ⟨hLast, ?_⟩
    have hMonth : month time1 + n = month time2 - 1 := by omega
    rw [hMonth] at hAfter
    omega
  · rintro ⟨rfl, hShort⟩
    have hMonth : month time1 + (month time2 - 1 - month time1) = month time2 - 1 := by omega
    rw [hMonth]
    omega

theorem lt_addMonths_multiple_iff {now first : Int} {periodMonths : Nat} (hMonths : periodMonths ≠ 0) :
    now < addMonths first (countedMonths first now / periodMonths * periodMonths) ↔
      Delayed now first periodMonths := by
  have hPos : (periodMonths : Int) ≠ 0 := by omega
  rw [lt_addMonths_iff (Int.ediv_mul_le _ hPos), Delayed]
  refine and_congr_left fun hShort => ?_
  rw [countedMonths_of_short hShort]
  constructor
  · intro h
    exact ⟨_, (Int.mul_comm _ _ ▸ h).symm⟩
  · exact Int.ediv_mul_cancel

/-- The time that clients are shown is upcoming except where an occurrence is delayed by a
short month. -/
theorem nextTime_isUpcoming_iff {now : Int} {r : TaskSchedule} (h : r.Periodic) :
    (∃ time, nextTime now r.firstTime r.period r.periodMonths = .ok time ∧
      IsUpcoming now r time) ↔
      ¬ (r.period = 0 ∧ r.firstTime < now ∧ Delayed now r.firstTime r.periodMonths) := by
  by_cases hFirst : now ≤ r.firstTime
  · have hNext : nextTime now r.firstTime r.period r.periodMonths = .ok r.firstTime := by
      rw [nextTime, if_pos hFirst]
    exact ⟨fun _ hDelayed => absurd hDelayed.2.1 (not_lt.mpr hFirst),
      fun _ => ⟨r.firstTime, hNext, isUpcoming_first h hFirst⟩⟩
  · have hLess : r.firstTime < now := not_le.mp hFirst
    by_cases hPeriod : r.period = 0
    · have hMonths : r.periodMonths ≠ 0 := h.resolve_left (not_not_intro hPeriod)
      have hCounted := Int.ediv_nonneg (countedMonths_nonneg hLess)
        (Int.natCast_nonneg r.periodMonths)
      obtain ⟨k, hk⟩ := Int.eq_ofNat_of_zero_le hCounted
      have hNext : nextTime now r.firstTime r.period r.periodMonths =
          .ok (r.occurrence (k + 1)) := by
        rw [hPeriod, nextTime_months hLess hMonths, hk, TaskSchedule.occurrence,
          if_neg (not_not_intro hPeriod)]
        rfl
      have hAbove : countedMonths r.firstTime now + 1 ≤ (k + 1 : Int) * r.periodMonths := by
        have hLt := Int.lt_ediv_add_one_mul_self (countedMonths r.firstTime now)
          (show 0 < (r.periodMonths : Int) by omega)
        rw [hk] at hLt
        exact Int.add_one_le_of_lt hLt
      have hNow : now ≤ r.occurrence (k + 1) := by
        rw [TaskSchedule.occurrence, if_neg (not_not_intro hPeriod)]
        exact le_trans (le_addMonths_countedMonths r.firstTime now)
          ((addMonths_strictMono r.firstTime).monotone (by exact_mod_cast hAbove))
      have hBefore : r.occurrence k =
          addMonths r.firstTime (countedMonths r.firstTime now / r.periodMonths * r.periodMonths) := by
        rw [hk, TaskSchedule.occurrence, if_neg (not_not_intro hPeriod)]
      rw [hNext]
      simp only [Except.ok.injEq, exists_eq_left', isUpcoming_succ_iff h hNow, hBefore,
        ← lt_addMonths_multiple_iff hMonths, hPeriod, hLess, true_and, not_lt]
    · have hPos : 0 < (r.period : Int) := by omega
      have hElapsed : 0 ≤ now - r.firstTime := by omega
      obtain ⟨k, hk⟩ := Int.eq_ofNat_of_zero_le (Int.ediv_nonneg hElapsed hPos.le)
      have hNext : nextTime now r.firstTime r.period r.periodMonths =
          .ok (r.occurrence (k + 1)) := by
        rw [nextTime, if_neg hFirst, if_pos (Nat.pos_of_ne_zero hPeriod),
          Int.tdiv_eq_ediv_of_nonneg hElapsed, hk, TaskSchedule.occurrence, if_pos hPeriod]
        rfl
      have hBelow := Int.ediv_mul_le (now - r.firstTime) hPos.ne'
      have hAbove := Int.lt_ediv_add_one_mul_self (now - r.firstTime) hPos
      rw [hk] at hBelow hAbove
      have hBefore : r.occurrence k ≤ now := by
        rw [TaskSchedule.occurrence, if_pos hPeriod]
        omega
      have hNow : now ≤ r.occurrence (k + 1) := by
        rw [TaskSchedule.occurrence, if_pos hPeriod]
        push_cast
        omega
      exact ⟨fun _ hDelayed => hPeriod hDelayed.1,
        fun _ => ⟨_, hNext, (isUpcoming_succ_iff h hNow).mpr hBefore⟩⟩

/-- A task on the last day of each month. -/
def monthEndTask : TaskSchedule :=
  { dailyTask with period := 0, periodMonths := 1, firstTime := 1264896000 }

theorem nextTime_isUpcoming_iff_dailyTask :
    (∃ time, nextTime 200000 dailyTask.firstTime dailyTask.period dailyTask.periodMonths = .ok time ∧
      IsUpcoming 200000 dailyTask time) ↔
      ¬ (dailyTask.period = 0 ∧ dailyTask.firstTime < 200000 ∧
        Delayed 200000 dailyTask.firstTime dailyTask.periodMonths) :=
  nextTime_isUpcoming_iff (.inl (by decide))

/-- On 2 March 2010 the occurrence of February, which falls on 3 March, is passed over. -/
theorem nextTime_monthEndTask :
    nextTime 1267488000 monthEndTask.firstTime monthEndTask.period monthEndTask.periodMonths =
        .ok (monthEndTask.occurrence 2) ∧
      1267488000 < monthEndTask.occurrence 1 ∧
      ¬ ∃ time, nextTime 1267488000 monthEndTask.firstTime monthEndTask.period
          monthEndTask.periodMonths = .ok time ∧ IsUpcoming 1267488000 monthEndTask time := by
  have hNext : nextTime 1267488000 monthEndTask.firstTime monthEndTask.period
      monthEndTask.periodMonths = .ok (monthEndTask.occurrence 2) := by decide
  have hAfter : 1267488000 < monthEndTask.occurrence 1 := by decide
  refine ⟨hNext, hAfter, ?_⟩
  rintro ⟨time, hTime, hUpcoming⟩
  rw [hNext, Except.ok.injEq] at hTime
  exact hUpcoming.2.2 1 ⟨hAfter, hTime ▸ by decide⟩

end Schedules

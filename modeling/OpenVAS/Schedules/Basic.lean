import OpenVAS.Lib.Calendar
import OpenVAS.Otp.Basic

/-! The scheduler of the manager: the rows that `manage_schedule` goes through,
the times it stores for them, and the tasks it starts and stops. The daemon runs
in UTC, which is what `localtime` and `mktime` follow. -/
namespace Schedules

open Calendar CString
open Otp (TaskStatus)

/-- The fields of `struct tm` that the scheduler uses. -/
structure Tm where
  year : Int
  mon : Int
  mday : Int
  hour : Int
  min : Int
  sec : Int
  deriving DecidableEq, Repr

def localtime (time : Int) : Tm :=
  let day := time / 86400
  let second := time % 86400
  let n := monthOf day
  ⟨(n + 2) / 12 - 1900, (n + 2) % 12, day - monthStart n + 1, second / 3600, second % 3600 / 60,
    second % 60⟩

/-- The month may be out of its range, and counts years then; a day behind the
end of its month is one of the next. -/
def mktime (broken : Tm) : Int :=
  86400 * (monthStart (12 * (broken.year + 1900) + broken.mon - 2) + (broken.mday - 1)) +
    (3600 * broken.hour + 60 * broken.min + broken.sec)

/-- Assertions of the scheduler. -/
inductive Fault where
  /-- `first <= now` in `manage_schedule`. -/
  | firstTime
  /-- `time1 < time2` in `months_between`. -/
  | monthsBetween
  /-- `starts->next` and its like in `manage_schedule`. -/
  | list
  deriving DecidableEq, Repr

/-- The macro `MONTHS_WITHIN_YEAR`. -/
def monthsWithinYear (broken1 broken2 : Tm) : Int :=
  if broken1.mon = broken2.mon then 0
  else (broken2.mon - broken1.mon) -
    if broken1.mday = broken2.mday then
      if broken1.hour = broken2.hour then
        if broken1.min = broken2.min then
          if broken1.sec = broken2.sec then 0 else if broken2.sec < broken1.sec then 1 else 0
        else if broken2.min < broken1.min then 1 else 0
      else if broken2.hour < broken1.hour then 1 else 0
    else if broken2.mday < broken1.mday then 1 else 0

/-- Whether the first time is earlier in its month. -/
def earlierInMonth (broken1 broken2 : Tm) : Bool :=
  broken1.mday < broken2.mday || (broken1.mday = broken2.mday &&
    (broken1.hour < broken2.hour || (broken1.hour = broken2.hour &&
      (broken1.min < broken2.min || (broken1.min = broken2.min && broken1.sec < broken2.sec)))))

def monthsBetween (time1 time2 : Int) : Except Fault Int :=
  if ¬ time1 < time2 then .error .monthsBetween
  else
    let broken1 := localtime time1
    let broken2 := localtime time2
    .ok <|
      if broken1.year = broken2.year then monthsWithinYear broken1 broken2
      else if broken1.mon < broken2.mon ∨
          (broken1.mon = broken2.mon ∧ earlierInMonth broken1 broken2) then
        (broken2.year - broken1.year) * 12 + monthsWithinYear broken1 broken2
      else
        (broken2.year - broken1.year - 1) * 12 + (11 - broken1.mon) + broken2.mon +
          if earlierInMonth broken1 broken2 then 1 else 0

/-- The `int` in which `tm_mon` is added to does not overflow here. -/
def addMonths (time months : Int) : Int :=
  let broken := localtime time
  mktime { broken with mon := broken.mon + months }

/-- `next_time`, which clients are shown, for periods that are values of an `int`, as its
parameters are. -/
def nextTime (now first : Int) (period periodMonths : Nat) : Except Fault Int :=
  if first ≥ now then .ok first
  else if 0 < period then .ok (first + ((now - first).tdiv period + 1) * period)
  else if 0 < periodMonths then do
    let periodsDiff := (← monthsBetween first now).tdiv periodMonths
    if addMonths first ((periodsDiff + 1) * periodMonths) ≥ now then
      return addMonths first ((periodsDiff + 1) * periodMonths)
    else return addMonths first (periodsDiff * periodMonths)
  else .ok 0

/-- A row of the task schedule iterator. Periods and durations have been checked
not to be negative. -/
structure TaskSchedule where
  taskUuid : CString
  ownerUuid : CString
  ownerName : CString
  runStatus : TaskStatus
  nextTime : Int
  period : Nat
  periodMonths : Nat
  firstTime : Int
  duration : Nat
  timezone : Option CString
  initialOffset : Int
  deriving DecidableEq, Repr

/-- What a round finds: the time, and the offset of each timezone at that time. -/
structure Clock where
  now : Int
  currentOffset : Option CString → Int

/-- The correction for daylight saving. -/
def Clock.correction (clock : Clock) (r : TaskSchedule) : Int :=
  r.initialOffset - clock.currentOffset r.timezone

/-- `task_schedule_iterator_start_due`. -/
def startDue (clock : Clock) (r : TaskSchedule) : Bool :=
  let startTime := r.nextTime + clock.correction r
  r.nextTime ≠ 0 &&
    (r.runStatus = .done || r.runStatus = .internalError || r.runStatus = .new ||
      r.runStatus = .stopped) &&
    (0 < startTime && startTime ≤ clock.now)

/-- `task_schedule_iterator_stop_due`. -/
def stopDue (clock : Clock) (r : TaskSchedule) : Except Fault Bool :=
  let running := r.runStatus = .running ∨ r.runStatus = .requested
  let first := r.firstTime + clock.correction r
  if r.period ≠ 0 ∧ r.duration ≠ 0 then
    let start := first + (clock.now - first).tdiv r.period * r.period
    .ok (running ∧ start + r.duration < clock.now)
  else if r.periodMonths ≠ 0 ∧ r.duration ≠ 0 then
    if running then do
      let start := addMonths first (← monthsBetween first clock.now)
      return start + r.duration < clock.now
    else .ok false
  else if r.duration ≠ 0 then .ok (running ∧ first + r.duration < clock.now)
  else .ok false

inductive Action where
  | start | stop | nothing
  deriving DecidableEq, Repr

/-- What the loop of `manage_schedule` does for a task that is due: the next time
that it gives to `set_task_schedule_next_time`, and whether the task is within its duration. -/
def handleStart (clock : Clock) (r : TaskSchedule) : Except Fault (Int × Bool) :=
  let first := r.firstTime + clock.correction r
  if r.period ≠ 0 then
    if ¬ r.firstTime ≤ clock.now then .error .firstTime
    else
      let next := r.firstTime + ((clock.now - r.firstTime).tdiv r.period + 1) * r.period
      .ok (next, ¬ (r.duration ≠ 0 ∧ (clock.now - first).tmod r.period > r.duration))
  else if r.periodMonths ≠ 0 then
    if ¬ r.firstTime ≤ clock.now then .error .firstTime
    else do
      let next := addMonths r.firstTime ((← monthsBetween r.firstTime clock.now) + 1)
      if r.duration ≠ 0 then
        let start := addMonths first (← monthsBetween first clock.now)
        return (next, ¬ clock.now - start > r.duration)
      else return (next, true)
  else .ok (0, true)

/-- `set_task_schedule_next_time`, which prints the time with `%i`: 32 bits of it are stored. -/
def setTaskScheduleNextTime (r : TaskSchedule) (time : Int) : TaskSchedule :=
  { r with nextTime := (Int32.ofInt time).toInt }

/-- The body of the loop over the rows. -/
def scheduleTask (clock : Clock) (r : TaskSchedule) : Except Fault (TaskSchedule × Action) :=
  if startDue clock r then do
    let (next, within) ← handleStart clock r
    return (setTaskScheduleNextTime r next, if within then .start else .nothing)
  else do
    return (r, if ← stopDue clock r then .stop else .nothing)

/-- The names and identifiers of a task in front of a list, as three prepends leave them. -/
def prependTask (r : TaskSchedule) (list : List CString) : List CString :=
  r.ownerName :: r.ownerUuid :: r.taskUuid :: list

/-- The rows with their new next times, and the lists of tasks to start and stop. -/
structure Round where
  rows : List TaskSchedule
  starts : List CString
  stops : List CString
  deriving DecidableEq, Repr

/-- The loop over the rows, in one transaction. -/
def collect (clock : Clock) (round : Round) : List TaskSchedule → Except Fault Round
  | [] => .ok round
  | r :: rs => do
      let (r', action) ← scheduleTask clock r
      collect clock
        { rows := round.rows ++ [r']
          starts := if action = .start then prependTask r' round.starts else round.starts
          stops := if action = .stop then prependTask r' round.stops else round.stops } rs

/-- The tasks that a list names, with the owners they are run for. -/
def takeTasks : List CString → Except Fault (List (CString × CString × CString))
  | [] => .ok []
  | owner :: ownerUuid :: taskUuid :: list => do
      return (owner, ownerUuid, taskUuid) :: (← takeTasks list)
  | _ => .error .list

/-- One round: the rows as they are stored, the tasks that are started and those
that are stopped. -/
def manageSchedule (clock : Clock) (rows : List TaskSchedule) :
    Except Fault (List TaskSchedule × List (CString × CString × CString) ×
      List (CString × CString × CString)) := do
  let round ← collect clock ⟨[], [], []⟩ rows
  return (round.rows, ← takeTasks round.starts, ← takeTasks round.stops)

end Schedules

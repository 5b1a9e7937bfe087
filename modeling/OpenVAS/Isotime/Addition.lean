import OpenVAS.Isotime.JulianDays
import OpenVAS.Text.Basic

/-! `isotime_add`: years, days and seconds are added to a text of the form `yyyymmddThhmmss`. -/
namespace Isotime

open CString Gregorian Text

def isotimeSize : Nat := 16

def digitp (c : UInt8) : Bool := ch '0' ≤ c && c ≤ ch '9'

def atoi1 (p : CString) (i : Nat) : Nat := (byteAt p i).toNat - (ch '0').toNat

def atoi2 (p : CString) (i : Nat) : Nat := atoi1 p i * 10 + atoi1 p (i + 1)

def atoi4 (p : CString) (i : Nat) : Nat := atoi2 p i * 100 + atoi2 p (i + 2)

/-- `true` is the return value 1, for what is no timestamp. -/
def checkIsotime (atime : CString) : Bool :=
  byteAt atime 0 == 0 || (List.range 8).any (fun i => !digitp (byteAt atime i)) ||
    byteAt atime 8 != ch 'T' || (List.range' 9 6).any fun i => !digitp (byteAt atime i)

/-- What a timestamp says. -/
structure Fields where
  year : Nat
  month : Nat
  day : Nat
  hour : Nat
  minute : Nat
  sec : Nat

def readFields (atime : CString) : Fields where
  year := atoi4 atime 0
  month := atoi2 atime 4
  day := atoi2 atime 6
  hour := atoi2 atime 9
  minute := atoi2 atime 11
  sec := atoi2 atime 13

/-- `%0wd` of a number of at most that many digits. -/
def padded : Nat → Nat → CString
  | 0, _ => []
  | w + 1, n => padded w (n / 10) ++ [UInt8.ofNat (48 + n % 10)]

/-- `"%04d%02d%02dT%02d%02d%02d"`. -/
def printFields (f : Fields) : CString :=
  padded 4 f.year ++ padded 2 f.month ++ padded 2 f.day ++ [ch 'T'] ++ padded 2 f.hour ++
    padded 2 f.minute ++ padded 2 f.sec

/-- What the three functions share. `advance` gives the Julian date and the time of day. The return
value of `jd2date` is not looked at. -/
def addToIsotime (limit : Int) (advance : Fields → Nat → Nat × Nat × Nat × Nat) (atime : CString)
    (n : Int) : Option CString :=
  if checkIsotime atime then none
  else if n < 0 ∨ limit ≤ n then none
  else
    let f := readFields atime
    if f.year < 1582 ∨ (f.year = 1582 ∧ f.month < 10) ∨ (f.year = 1582 ∧ f.month = 10 ∧ f.day < 15) then none
    else
      let (jd, hour, minute, sec) := advance f n.toNat
      let (year, month, day) := (jd2date jd).getD (f.year, f.month, f.day)
      if year > 9999 ∨ month > 12 ∨ day > 31 ∨ month < 1 ∨ day < 1 then none
      else some (printFields ⟨year, month, day, hour, minute, sec⟩)

def addYearsToIsotime (atime : CString) (nyears : Int) : Option CString :=
  addToIsotime 9999 (fun f n => (date2jd (f.year + n) f.month f.day, f.hour, f.minute, f.sec)) atime nyears

def addDaysToIsotime (atime : CString) (ndays : Int) : Option CString :=
  addToIsotime (9999 * 366) (fun f n => (date2jd f.year f.month f.day + n, f.hour, f.minute, f.sec))
    atime ndays

/-- The sum of the seconds is an `int` for seconds of at most 61. -/
def addSecondsToIsotime (atime : CString) (nseconds : Int) : Option CString :=
  addToIsotime (0x7fffffff - 61)
    (fun f n =>
      let sec := f.sec + n
      let minute := f.minute + sec / 60
      let hour := f.hour + minute / 60
      (date2jd f.year f.month f.day + hour / 24, hour % 24, minute % 60, sec % 60))
    atime nseconds

/-- What `nasl_isotime_add` does with its copy of the text. -/
def additions (timebuf : CString) (nyears ndays nseconds : Int) : Option CString := do
  let timebuf ← (if nyears ≠ 0 then addYearsToIsotime timebuf nyears else some timebuf)
  let timebuf ← (if ndays ≠ 0 then addDaysToIsotime timebuf ndays else some timebuf)
  let timebuf ← (if nseconds ≠ 0 then addSecondsToIsotime timebuf nseconds else some timebuf)
  -- If nothing was added, explicitly add 0 years.
  if nyears = 0 ∧ ndays = 0 ∧ nseconds = 0 then addYearsToIsotime timebuf 0 else some timebuf

def naslIsotimeAdd (lexic : Lexic) : Option CString :=
  match getStrVarByNum lexic 0 with
  | none => none
  | some string =>
      if getVarSizeByNum lexic 0 < isotimeSize - 1 ∨ checkIsotime string then none
      else
        additions (string.take (isotimeSize - 1)) (getIntLocalVarByName lexic "years" 0).toInt
          (getIntLocalVarByName lexic "days" 0).toInt (getIntLocalVarByName lexic "seconds" 0).toInt

/-! What is to come out. -/

def fields (t : Time) : Fields := ⟨t.date.year, t.date.month, t.date.day, t.hour, t.minute, t.second⟩

def text (t : Time) : CString := printFields (fields t)

/-- There are no years of five digits. -/
def fits (t : Time) : Option Time := if t.date.year ≤ 9999 then some t else none

/-- The time after the years, then the days, then the seconds. -/
def plus (t : Time) (years days seconds : Nat) : Option Time := do
  let t ← fits (t.addYears years)
  let t ← fits (t.addDays days)
  fits (t.addSeconds seconds)

/-- The dates that are passed through. Too many years or days are refused. -/
def passes (t : Time) (years days seconds : Nat) : List Date :=
  t.date :: if years < 9999 then
    (t.addYears years).date :: if days < 9999 * 366 then
      [((t.addYears years).addDays days).date, (((t.addYears years).addDays days).addSeconds seconds).date]
    else []
  else []

/-! The text of a time is read as that time. -/

/-- The last digit of a number. -/
def digit (n : Nat) : UInt8 := UInt8.ofNat (48 + n % 10)

theorem digit_toNat (n : Nat) : (digit n).toNat = 48 + n % 10 :=
  Nat.mod_eq_of_lt (by omega)

theorem digitp_digit (n : Nat) : digitp (digit n) = true := by
  have hNat := digit_toNat n
  have hLow : ch '0' ≤ digit n := UInt8.le_iff_toNat_le.mpr (by rw [hNat]; exact Nat.le_add_right 48 _)
  have hHigh : digit n ≤ ch '9' := UInt8.le_iff_toNat_le.mpr (by
    rw [hNat]
    change _ ≤ 57
    omega)
  rw [digitp, decide_eq_true hLow, decide_eq_true hHigh]
  rfl

theorem digit_ne_zero (n : Nat) : (digit n == 0) = false := by
  have hNat := digit_toNat n
  rw [beq_eq_false_iff_ne]
  intro hZero
  rw [hZero] at hNat
  change 0 = _ at hNat
  omega

theorem printFields_eq (f : Fields) :
    printFields f =
      [digit (f.year / 10 / 10 / 10), digit (f.year / 10 / 10), digit (f.year / 10), digit f.year,
        digit (f.month / 10), digit f.month, digit (f.day / 10), digit f.day, ch 'T',
        digit (f.hour / 10), digit f.hour, digit (f.minute / 10), digit f.minute,
        digit (f.sec / 10), digit f.sec] := rfl

theorem length_printFields (f : Fields) : (printFields f).length = 15 := rfl

/-- The fields that the format has room for. -/
structure Fields.Printable (f : Fields) : Prop where
  year : f.year < 10000
  month : f.month < 100
  day : f.day < 100
  hour : f.hour < 100
  minute : f.minute < 100
  sec : f.sec < 100

theorem atoi2_digits {p : CString} {i m n : Nat} (hFirst : byteAt p i = digit m)
    (hSecond : byteAt p (i + 1) = digit n) : atoi2 p i = m % 10 * 10 + n % 10 := by
  rw [atoi2, atoi1, atoi1, hFirst, hSecond, digit_toNat, digit_toNat]
  change (48 + m % 10 - 48) * 10 + (48 + n % 10 - 48) = _
  rw [Nat.add_sub_cancel_left, Nat.add_sub_cancel_left]

theorem atoi2_pair {p : CString} {i n : Nat} (h : n < 100) (hFirst : byteAt p i = digit (n / 10))
    (hSecond : byteAt p (i + 1) = digit n) : atoi2 p i = n := by
  rw [atoi2_digits hFirst hSecond]
  omega

theorem readFields_print {f : Fields} (h : f.Printable) (rest : CString) :
    readFields (printFields f ++ rest) = f := by
  have hYear := h.year
  rw [printFields_eq, readFields, atoi4,
    @atoi2_digits _ 0 (f.year / 10 / 10 / 10) (f.year / 10 / 10) rfl rfl,
    @atoi2_digits _ 2 (f.year / 10) f.year rfl rfl]
  have hYears : (f.year / 10 / 10 / 10 % 10 * 10 + f.year / 10 / 10 % 10) * 100 +
      (f.year / 10 % 10 * 10 + f.year % 10) = f.year := by
    omega
  rw [hYears, @atoi2_pair _ 4 _ h.month rfl rfl, @atoi2_pair _ 6 _ h.day rfl rfl,
    @atoi2_pair _ 9 _ h.hour rfl rfl, @atoi2_pair _ 11 _ h.minute rfl rfl,
    @atoi2_pair _ 13 _ h.sec rfl rfl]

theorem checkIsotime_print (f : Fields) (rest : CString) : checkIsotime (printFields f ++ rest) = false := by
  simp [checkIsotime, printFields_eq, List.range, List.range.loop, List.range', digitp_digit, digit_ne_zero]

theorem printable {t : Time} (h : t.date.year ≤ 9999) : (fields t).Printable where
  year := Nat.lt_succ_of_le h
  month := Nat.lt_of_le_of_lt t.date.monthLe (by decide)
  day := Nat.lt_of_le_of_lt (Nat.le_trans t.date.dayLe (daysInMonth_bounds _ _).2) (by decide)
  hour := Nat.lt_trans t.hourLt (by decide)
  minute := Nat.lt_trans t.minuteLt (by decide)
  sec := Nat.lt_of_le_of_lt t.secondLe (by decide)

/-! One addition. -/

/-- The code and the calendar agree on which dates there are. -/
theorem accepted {d : Date} (h : d.year ≤ 9999) :
    ¬ (d.year > 9999 ∨ d.month > 12 ∨ d.day > 31 ∨ d.month < 1 ∨ d.day < 1) := by
  have hMonthPos := d.monthPos
  have hMonthLe := d.monthLe
  have hDayPos := d.dayPos
  have hDayLe := d.dayLe
  have hBounds := (daysInMonth_bounds d.year d.month).2
  omega

theorem not_early {d : Date} (hFirst : 15821015 ≤ d.stamp) :
    ¬ (d.year < 1582 ∨ (d.year = 1582 ∧ d.month < 10) ∨ (d.year = 1582 ∧ d.month = 10 ∧ d.day < 15)) := by
  have hMonthLe := d.monthLe
  have hDayLe := d.dayLe
  have hBounds := (daysInMonth_bounds d.year d.month).2
  unfold Date.stamp at hFirst
  omega

/-- Up to the last day of the search the addition is right, and behind it the date stays as it is. -/
theorem addToIsotime_text {t e : Time} (hFirst : 15821015 ≤ t.date.stamp) (hYear : t.date.year ≤ 9999)
    (hLater : t.date.stamp ≤ e.date.stamp) {limit : Int} {n : Nat} (hLimit : n < limit)
    {advance : Fields → Nat → Nat × Nat × Nat × Nat}
    (hAdvance : advance (fields t) n = (julian e.date, e.hour, e.minute, e.second)) :
    addToIsotime limit advance (text t) n =
      some (text (if e.date.stamp ≤ 30720101 then e else { e with date := t.date })) := by
  have hCheck := checkIsotime_print (fields t) []
  have hRead := readFields_print (printable hYear) []
  rw [List.append_nil] at hCheck hRead
  have hSearch := jd2date_julian (Nat.le_trans hFirst hLater)
  rw [addToIsotime, text, hCheck, if_neg Bool.false_ne_true, if_neg (by omega), hRead]
  by_cases hWithin : e.date.stamp ≤ 30720101
  · have hLast : e.date.year ≤ 9999 :=
      Nat.le_trans (@Date.year_le_of_stamp e.date lastDay hWithin) (by decide)
    rw [if_pos hWithin] at hSearch ⊢
    simp only [Int.toNat_natCast, hAdvance, hSearch]
    exact (if_neg (not_early hFirst)).trans (if_neg (accepted hLast))
  · rw [if_neg hWithin] at hSearch ⊢
    simp only [Int.toNat_natCast, hAdvance, hSearch]
    exact (if_neg (not_early hFirst)).trans (if_neg (accepted hYear))

/-! The three additions as far as the search goes, also of nothing. -/

theorem year_within {d : Date} (h : d.stamp ≤ 30720101) : d.year ≤ 9999 :=
  Nat.le_trans (@Date.year_le_of_stamp d lastDay h) (by decide)

theorem addYearsToIsotime_text {t : Time} (hFirst : 15821015 ≤ t.date.stamp) {n : Nat} (hLimit : n < 9999)
    (hWithin : (t.addYears n).date.stamp ≤ 30720101) :
    addYearsToIsotime (text t) n = some (text (t.addYears n)) := by
  have hLater : t.date.stamp ≤ (t.addYears n).date.stamp := t.date.stamp_le_addYears n
  have hYear := year_within (Nat.le_trans hLater hWithin)
  rw [addYearsToIsotime, addToIsotime_text hFirst hYear hLater (by omega) (Prod.ext (date2jd_addYears t.date n) rfl),
    if_pos hWithin]

theorem addDaysToIsotime_text {t : Time} (hFirst : 15821015 ≤ t.date.stamp) {n : Nat}
    (hLimit : n < 9999 * 366) (hWithin : (t.addDays n).date.stamp ≤ 30720101) :
    addDaysToIsotime (text t) n = some (text (t.addDays n)) := by
  have hLater : t.date.stamp ≤ (t.addDays n).date.stamp := t.date.stamp_le_addDays n
  have hYear := year_within (Nat.le_trans hLater hWithin)
  have hNumber : julian (t.addDays n).date = julian t.date + n :=
    julian_addDays (year_pos hFirst) n
  rw [addDaysToIsotime, addToIsotime_text hFirst hYear hLater (by omega) (Prod.ext hNumber.symm rfl),
    if_pos hWithin]

/-- Carrying from one field to the next is division of the whole time of day. -/
theorem carried (t : Time) (n : Nat) :
    (t.hour + (t.minute + (t.second + n) / 60) / 60) / 24 = (t.ofDay + n) / 86400 ∧
      (t.hour + (t.minute + (t.second + n) / 60) / 60) % 24 = (t.ofDay + n) % 86400 / 3600 ∧
      (t.minute + (t.second + n) / 60) % 60 = (t.ofDay + n) % 3600 / 60 ∧
      (t.second + n) % 60 = (t.ofDay + n) % 60 := by
  unfold Time.ofDay
  omega

theorem addSecondsToIsotime_text {t : Time} (hFirst : 15821015 ≤ t.date.stamp) {n : Nat} (hPos : n ≠ 0)
    (hLimit : n < 0x7fffffff - 61) (hWithin : (t.addSeconds n).date.stamp ≤ 30720101) :
    addSecondsToIsotime (text t) n = some (text (t.addSeconds n)) := by
  have hLater := t.stamp_le_addSeconds n
  have hYear := year_within (Nat.le_trans hLater hWithin)
  have hNumber : julian (t.addSeconds n).date = julian t.date + (t.ofDay + n) / 86400 := by
    rw [Time.addSeconds, if_neg hPos]
    exact julian_addDays (year_pos hFirst) _
  obtain ⟨hDays, hHour, hMinute, hSecond⟩ := carried t n
  rw [addSecondsToIsotime, addToIsotime_text hFirst hYear hLater (by omega), if_pos hWithin]
  simp only [Time.addSeconds, if_neg hPos] at hNumber ⊢
  rw [hNumber]
  exact Prod.ext (congrArg (julian t.date + ·) hDays) (Prod.ext hHour (Prod.ext hMinute hSecond))

/-! All of it. -/

/-- So many days lead beyond the last year. -/
theorem tooManyDays {t : Time} (hFirst : 15821015 ≤ t.date.stamp) {n : Nat} (h : 9999 * 366 ≤ n) :
    ¬ (t.addDays n).date.year ≤ 9999 := by
  intro hYear
  have hStamp : (t.addDays n).date.stamp ≤ 99991231 := by
    have hMonth := (t.addDays n).date.monthLe
    have hDay := (t.addDays n).date.dayLe
    have hBounds := (daysInMonth_bounds (t.addDays n).date.year (t.addDays n).date.month).2
    unfold Date.stamp
    omega
  have hLater : 15821015 ≤ (t.addDays n).date.stamp :=
    Nat.le_trans hFirst (t.date.stamp_le_addDays n)
  have hHigh := @julian_le (t.addDays n).date ⟨9999, 12, 31, by decide, by decide, by decide, by decide⟩
    (year_pos hLater) hStamp
  have hLow := @julian_le firstDay t.date (by decide) hFirst
  have hNumber : julian (t.addDays n).date = julian t.date + n := julian_addDays (year_pos hFirst) n
  have hLast : julian ⟨9999, 12, 31, by decide, by decide, by decide, by decide⟩ = 5373484 := by decide
  have hStart : julian firstDay = 2299161 := by decide
  omega

/-- The dates that are passed through come one after the other. -/
theorem stamp_le_of_passes {t : Time} {years days seconds : Nat} {d : Date}
    (h : d ∈ passes t years days seconds) : t.date.stamp ≤ d.stamp := by
  have hYears := t.date.stamp_le_addYears years
  have hDays := (t.addYears years).date.stamp_le_addDays days
  have hSeconds := ((t.addYears years).addDays days).stamp_le_addSeconds seconds
  unfold passes at h
  rcases List.mem_cons.mp h with rfl | h
  · exact Nat.le_refl _
  split at h
  · rcases List.mem_cons.mp h with rfl | h
    · exact hYears
    split at h
    · rcases List.mem_cons.mp h with rfl | h
      · exact Nat.le_trans hYears hDays
      · rw [List.mem_singleton.mp h]
        exact Nat.le_trans hYears (Nat.le_trans hDays hSeconds)
    · exact absurd h List.not_mem_nil
  · exact absurd h List.not_mem_nil

theorem fits_within {t : Time} (h : t.date.stamp ≤ 30720101) : fits t = some t :=
  if_pos (year_within h)

theorem addToIsotime_refused {limit n : Int} (h : limit ≤ n)
    (advance : Fields → Nat → Nat × Nat × Nat × Nat) (atime : CString) :
    addToIsotime limit advance atime n = none := by
  rw [addToIsotime, if_pos (Or.inr h)]
  split <;> rfl

/-- Adding nothing is left out. -/
theorem yearsStep {t : Time} (hFirst : 15821015 ≤ t.date.stamp) {n : Nat} (hLimit : n < 9999)
    (hWithin : (t.addYears n).date.stamp ≤ 30720101) :
    (if (n : Int) ≠ 0 then addYearsToIsotime (text t) n else some (text t)) = some (text (t.addYears n)) := by
  split
  · exact addYearsToIsotime_text hFirst hLimit hWithin
  · rename_i hNone
    obtain rfl : n = 0 := by omega
    rw [Time.addYears_zero]

theorem daysStep {t : Time} (hFirst : 15821015 ≤ t.date.stamp) {n : Nat} (hLimit : n < 9999 * 366)
    (hWithin : (t.addDays n).date.stamp ≤ 30720101) :
    (if (n : Int) ≠ 0 then addDaysToIsotime (text t) n else some (text t)) = some (text (t.addDays n)) := by
  split
  · exact addDaysToIsotime_text hFirst hLimit hWithin
  · rename_i hNone
    obtain rfl : n = 0 := by omega
    rw [Time.addDays_zero]

theorem secondsStep {t : Time} (hFirst : 15821015 ≤ t.date.stamp) {n : Nat}
    (hLimit : n < 0x7fffffff - 61) (hWithin : (t.addSeconds n).date.stamp ≤ 30720101) :
    (if (n : Int) ≠ 0 then addSecondsToIsotime (text t) n else some (text t)) =
      some (text (t.addSeconds n)) := by
  split
  · rename_i hSome
    exact addSecondsToIsotime_text hFirst (by omega) hLimit hWithin
  · rename_i hNone
    obtain rfl : n = 0 := by omega
    rw [Time.addSeconds_zero]

/-- The three steps, with the explicit addition of 0 years if there is none. -/
theorem additions_accepted {t : Time} (hFirst : 15821015 ≤ t.date.stamp) {years days seconds : Nat}
    (hYears : years < 9999) (hDays : days < 9999 * 366) (hSeconds : seconds < 0x7fffffff - 61)
    (hFirstStep : (t.addYears years).date.stamp ≤ 30720101)
    (hSecondStep : ((t.addYears years).addDays days).date.stamp ≤ 30720101)
    (hThirdStep : (((t.addYears years).addDays days).addSeconds seconds).date.stamp ≤ 30720101) :
    additions (text t) years days seconds =
      some (text (((t.addYears years).addDays days).addSeconds seconds)) := by
  have hLater := Nat.le_trans hFirst (t.date.stamp_le_addYears years)
  have hLatest := Nat.le_trans hLater ((t.addYears years).date.stamp_le_addDays days)
  have hLast := Nat.le_trans hLatest (((t.addYears years).addDays days).stamp_le_addSeconds seconds)
  rw [additions, yearsStep hFirst hYears hFirstStep]
  simp only [Option.bind_eq_bind, Option.bind_some]
  rw [daysStep hLater hDays hSecondStep, Option.bind_some, secondsStep hLatest hSeconds hThirdStep,
    Option.bind_some]
  split
  · have hZero := @addYearsToIsotime_text _ hLast 0 (by decide) (by rw [Time.addYears_zero]; exact hThirdStep)
    rw [Time.addYears_zero] at hZero
    exact hZero
  · rfl

theorem additions_text {t : Time} (hFirst : 15821015 ≤ t.date.stamp) {years days seconds : Nat}
    (hSeconds : seconds < 0x7fffffff - 61)
    (hWithin : ∀ d ∈ passes t years days seconds, d.stamp ≤ 30720101) :
    additions (text t) years days seconds = (plus t years days seconds).map text := by
  by_cases hYears : years < 9999
  · rw [passes, if_pos hYears] at hWithin
    have hFirstStep := hWithin (t.addYears years).date (List.mem_cons_of_mem _ List.mem_cons_self)
    have hLater := Nat.le_trans hFirst (t.date.stamp_le_addYears years)
    by_cases hDays : days < 9999 * 366
    · rw [if_pos hDays] at hWithin
      have hSecondStep := hWithin ((t.addYears years).addDays days).date (by simp)
      have hThirdStep := hWithin (((t.addYears years).addDays days).addSeconds seconds).date (by simp)
      rw [additions_accepted hFirst hYears hDays hSeconds hFirstStep hSecondStep hThirdStep, plus,
        fits_within hFirstStep, Option.bind_eq_bind, Option.bind_some, fits_within hSecondStep,
        Option.bind_some, fits_within hThirdStep]
      rfl
    · have hNone : addDaysToIsotime (text (t.addYears years)) days = none :=
        addToIsotime_refused (by omega) _ _
      have hBeyond : fits ((t.addYears years).addDays days) = none :=
        if_neg (tooManyDays hLater (Nat.le_of_not_lt hDays))
      rw [additions, yearsStep hFirst hYears hFirstStep, plus, fits_within hFirstStep]
      simp only [Option.bind_eq_bind, Option.bind_some]
      rw [if_pos (by omega), hNone, hBeyond]
      rfl
  · have hNone : addYearsToIsotime (text t) years = none := addToIsotime_refused (by omega) _ _
    have hBeyond : fits (t.addYears years) = none := by
      refine if_neg ?_
      change ¬ (t.date.addYears years).year ≤ 9999
      rw [Date.year_addYears]
      have hYear := year_pos hFirst
      omega
    rw [additions, plus, hBeyond, if_pos (by omega), hNone]
    rfl

/-- The copy that the additions work on. -/
theorem naslIsotimeAdd_eq {lexic : Lexic} {t : Time} {rest : CString}
    (hText : lexic.byNum 0 = some (.str (text t ++ rest))) :
    naslIsotimeAdd lexic =
      additions (text t) (getIntLocalVarByName lexic "years" 0).toInt
        (getIntLocalVarByName lexic "days" 0).toInt (getIntLocalVarByName lexic "seconds" 0).toInt := by
  have hSize : ¬ (text t ++ rest).length < isotimeSize - 1 := by
    rw [List.length_append, text, length_printFields]
    exact Nat.not_lt.mpr (Nat.le_add_right 15 _)
  have hCheck : ¬ checkIsotime (text t ++ rest) = true := by
    rw [text, checkIsotime_print]
    exact Bool.false_ne_true
  have hTake : (text t ++ rest).take (isotimeSize - 1) = text t :=
    List.take_left' (length_printFields _)
  simp only [naslIsotimeAdd, getStrVarByNum, getVarSizeByNum, hText, Packets.var2str, Packets.getVarSize]
  rw [if_neg (fun h => h.elim hSize hCheck), hTake]

/-- The sum is right, with `date2jd` and `jd2date` inverse to each other on the way, exactly as long as no
date after 1 January 3072 is passed through. -/
theorem naslIsotimeAdd_iff {lexic : Lexic} {t : Time} {rest : CString} {years days seconds : Nat}
    (hText : lexic.byNum 0 = some (.str (text t ++ rest)))
    (hFirst : 15821015 ≤ t.date.stamp)
    (hYears : (getIntLocalVarByName lexic "years" 0).toInt = years)
    (hDays : (getIntLocalVarByName lexic "days" 0).toInt = days)
    (hSeconds : (getIntLocalVarByName lexic "seconds" 0).toInt = seconds)
    (hLimit : seconds < 2 ^ 31 - 62) :
    (naslIsotimeAdd lexic = (plus t years days seconds).map text ∧
      ∀ d ∈ passes t years days seconds,
        jd2date (date2jd d.year d.month d.day) = some (d.year, d.month, d.day)) ↔
      ∀ d ∈ passes t years days seconds, d.stamp ≤ 30720101 := by
  have hSearch : ∀ d ∈ passes t years days seconds,
      (jd2date (date2jd d.year d.month d.day) = some (d.year, d.month, d.day) ↔ d.stamp ≤ 30720101) := by
    intro d hd
    have hFound := jd2date_julian (Nat.le_trans hFirst (stamp_le_of_passes hd))
    rw [julian] at hFound
    rw [hFound]
    simp
  constructor
  · rintro ⟨-, hInverse⟩ d hd
    exact (hSearch d hd).mp (hInverse d hd)
  · intro hWithin
    refine ⟨?_, fun d hd => (hSearch d hd).mpr (hWithin d hd)⟩
    rw [naslIsotimeAdd_eq hText, hYears, hDays, hSeconds]
    exact additions_text hFirst hLimit hWithin

/-- `isotime_add(t, years: y, days: d, seconds: s)`. -/
def adding (t : CString) (years days seconds : Int32) : Lexic where
  ctxVars := [some (.string t)]
  named name :=
    if name = "years" then some (.int years)
    else if name = "days" then some (.int days)
    else if name = "seconds" then some (.int seconds)
    else none

/-- 29 February 2000, one second before the end of the day. -/
def leapNight : Time :=
  ⟨⟨2000, 2, 29, by decide, by decide, by decide, by decide⟩, 23, 59, 59, by decide, by decide, by decide⟩

theorem naslIsotimeAdd_iff_leapNight :
    (naslIsotimeAdd (adding (text leapNight) 1 1 2) = (plus leapNight 1 1 2).map text ∧
      ∀ d ∈ passes leapNight 1 1 2,
        jd2date (date2jd d.year d.month d.day) = some (d.year, d.month, d.day)) ↔
      ∀ d ∈ passes leapNight 1 1 2, d.stamp ≤ 30720101 :=
  @naslIsotimeAdd_iff (adding (text leapNight) 1 1 2) leapNight [] 1 1 2 rfl (by decide) rfl rfl rfl (by decide)

/-- Two thousand years are added as if they were none, and nothing says so. -/
theorem naslIsotimeAdd_far :
    naslIsotimeAdd (adding (lit "20000229T235959") 2000 0 0) = some (lit "20000229T235959") ∧
      (plus leapNight 2000 0 0).map text = some (lit "40000229T235959") ∧
      ¬ naslIsotimeAdd (adding (text leapNight) 2000 0 0) = (plus leapNight 2000 0 0).map text := by
  decide +kernel

end Isotime

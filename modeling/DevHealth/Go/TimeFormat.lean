import DevHealth.Go.ClockText

/-! # Writing an instant as text

The date and the clock time of an instant in UTC, as `time.Time.Format` writes them. -/
set_option autoImplicit false
namespace DevHealth.Go

open Lib

/-- The days from the first of January of year 1 to that of 1970. -/
def epochDays : Int := 719162

/-- A day counted from the first of January of year 1, as its year and its day in the
year.  The century and the year of a cycle stop at 3: the last day of a cycle belongs to
its last part. -/
def yearDay (day : Int) : Int × Nat :=
  let cycle := day % 146097
  let century := min (cycle / 36524) 3
  let inCentury := cycle - 36524 * century
  let inFour := inCentury % 1461
  let single := min (inFour / 365) 3
  (400 * (day / 146097) + 100 * century + 4 * (inCentury / 1461) + single + 1,
    (inFour - 365 * single).toNat)

def isLeapYear (year : Int) : Bool :=
  decide (year % 4 = 0) && (decide (year % 100 ≠ 0) || decide (year % 400 = 0))

def monthDay (leap : Bool) (day : Nat) : Nat × Nat :=
  if leap = true ∧ day = 59 then (2, 29)
  else
    let day := if leap = true ∧ 59 < day then day - 1 else day
    let month := if daysBefore (day / 31 + 2) ≤ day ∧ day / 31 < 11 then day / 31 + 1 else day / 31
    (month + 1, day - daysBefore (month + 1) + 1)

structure Civil where
  year : Int
  month : Nat
  day : Nat
  hour : Nat
  minute : Nat
  second : Nat
  nanosecond : Nat
  deriving DecidableEq, Repr

def Time.civil (t : Time) : Civil :=
  let seconds := t.wall / nanosPerSecond
  let clock := (seconds % 86400).toNat
  let (year, inYear) := yearDay (seconds / 86400 + epochDays)
  let (month, day) := monthDay (isLeapYear year) inYear
  ⟨year, month, day, clock / 3600, clock / 60 % 60, clock % 60, (t.wall % nanosPerSecond).toNat⟩

/-- `appendInt`: the sign, then the digits with zeros before them up to the width. -/
def appendInt (n : Int) (width : Nat) : Bytes :=
  let digits := decimal n.natAbs
  (if n < 0 then ascii "-" else []) ++ List.replicate (width - digits.length) 0x30 ++ digits

/-- `2006-01-02 15:04:05.000`: digits of the fraction past the third are dropped. -/
def Civil.formatMillis (c : Civil) : Bytes :=
  appendInt c.year 4 ++ ascii "-" ++ appendInt c.month 2 ++ ascii "-" ++ appendInt c.day 2 ++
    ascii " " ++ appendInt c.hour 2 ++ ascii ":" ++ appendInt c.minute 2 ++ ascii ":" ++
    appendInt c.second 2 ++ ascii "." ++ appendInt (c.nanosecond / 1000000) 3

/-- `t.UTC().Format("2006-01-02 15:04:05.000")`. -/
def Time.formatMillis (t : Time) : Bytes := t.civil.formatMillis

example : (Time.ofNanos 1783681200123456789).formatMillis = ascii "2026-07-10 11:00:00.123" := by
  decide +kernel
example : (Time.ofNanos (-62198755200000000000)).formatMillis =
    ascii "-0001-01-01 00:00:00.000" := by decide +kernel

/-! ## The calendar and the day count -/

def yearStart (year : Int) : Int :=
  365 * (year - 1) + (year - 1) / 4 - (year - 1) / 100 + (year - 1) / 400

def leapDay (leap : Bool) : Nat := if leap then 1 else 0

theorem yearDay_spec (day : Int) : yearStart (yearDay day).1 + (yearDay day).2 = day ∧
      (yearDay day).2 < 365 + leapDay (isLeapYear (yearDay day).1) := by
  have cycleBounds : 0 ≤ day % 146097 ∧ day % 146097 < 146097 := by omega
  have split : 146097 * (day / 146097) + day % 146097 = day := Int.mul_ediv_add_emod ..
  simp only [yearDay, yearStart]
  generalize day / 146097 = cycles at split ⊢
  generalize day % 146097 = cycle at cycleBounds split ⊢
  have centuryBounds : 0 ≤ min (cycle / 36524) 3 ∧ min (cycle / 36524) 3 ≤ 3 ∧
      0 ≤ cycle - 36524 * min (cycle / 36524) 3 ∧
      (cycle - 36524 * min (cycle / 36524) 3 < 36524 ∨
        min (cycle / 36524) 3 = 3 ∧ cycle - 36524 * min (cycle / 36524) 3 ≤ 36524) := by omega
  generalize min (cycle / 36524) 3 = century at centuryBounds ⊢
  obtain ⟨inCentury, named⟩ : ∃ x, x = cycle - 36524 * century := ⟨_, rfl⟩
  rw [← named] at centuryBounds ⊢
  have fourBounds : 0 ≤ inCentury / 1461 ∧ inCentury / 1461 ≤ 24 ∧ 0 ≤ inCentury % 1461 ∧
      inCentury % 1461 < 1461 ∧
      1461 * (inCentury / 1461) + inCentury % 1461 = inCentury := by omega
  generalize inCentury / 1461 = fours at fourBounds ⊢
  generalize inCentury % 1461 = inFour at fourBounds ⊢
  have singleBounds : 0 ≤ min (inFour / 365) 3 ∧ min (inFour / 365) 3 ≤ 3 ∧
      0 ≤ inFour - 365 * min (inFour / 365) 3 ∧
      (inFour - 365 * min (inFour / 365) 3 < 365 ∨ min (inFour / 365) 3 = 3 ∧ inFour = 1460) := by omega
  generalize min (inFour / 365) 3 = single at singleBounds ⊢
  obtain ⟨year, yearEq⟩ : ∃ x, x = 400 * cycles + 100 * century + 4 * fours + single := ⟨_, rfl⟩
  rw [← yearEq]
  have byFour : year / 4 = 100 * cycles + 25 * century + fours := by omega
  have byHundred : year / 100 = 4 * cycles + century := by omega
  have byFourHundred : year / 400 = cycles := by omega
  have before : year + 1 - 1 = year := by omega
  rw [before, byFour, byHundred, byFourHundred]
  constructor
  · omega
  · by_cases last : inFour - 365 * single < 365
    · omega
    · have leap : isLeapYear (year + 1) = true := by
        simp only [isLeapYear, Bool.and_eq_true, Bool.or_eq_true, decide_eq_true_eq]
        omega
      rw [leap, leapDay, if_pos rfl]
      omega

theorem year_iff (day : Int) : 1 ≤ (yearDay day).1 ∧ (yearDay day).1 ≤ 9999 ↔ 0 ≤ day ∧ day < 3652059 := by
  obtain ⟨sum, within⟩ := yearDay_spec day
  generalize (yearDay day).1 = year at sum within ⊢
  have leap : year = 9999 → leapDay (isLeapYear year) = 0 := by
    rintro rfl
    rfl
  have small : leapDay (isLeapYear year) ≤ 1 := by
    rw [leapDay]
    split <;> omega
  -- The years at the two ends are evaluated, the others are far enough away.
  have ends : year ≤ -1 ∨ year = 0 ∨ year = 1 ∨ (2 ≤ year ∧ year ≤ 9998) ∨ year = 9999 ∨ year = 10000 ∨
      10001 ≤ year := by omega
  rw [yearStart] at sum
  rcases ends with low | rfl | rfl | between | rfl | rfl | high <;> omega

/-- An instant of the UTC years 1 to 9999. -/
def Time.WithinYears (t : Time) : Prop := 1 ≤ t.civil.year ∧ t.civil.year ≤ 9999

theorem Time.withinYears_iff (t : Time) :
    t.WithinYears ↔ -62135596800 ≤ t.unixSeconds ∧ t.unixSeconds < 253402300800 := by
  simp only [WithinYears, civil, year_iff, epochDays, unixSeconds]
  omega

/-- A month and a day in it, as the date of a day of a year. -/
def IsMonthDay (leap : Bool) (day : Nat) (date : Nat × Nat) : Prop :=
  (1 ≤ date.1 ∧ date.1 ≤ 12) ∧
    (1 ≤ date.2 ∧ date.2 ≤
      if date.1 = 2 then 28 + leapDay leap else 30 + (date.1 + date.1 / 8) % 2) ∧
    daysBefore date.1 + leapDay (leap && decide (2 < date.1)) + date.2 = day + 1

instance (leap : Bool) (day : Nat) (date : Nat × Nat) : Decidable (IsMonthDay leap day date) :=
  inferInstanceAs (Decidable (_ ∧ _ ∧ _))

theorem monthDay_spec (leap : Bool) (day : Nat) (within : day < 365 + leapDay leap) :
    IsMonthDay leap day (monthDay leap day) := by
  cases leap with
  | false =>
    have all : ∀ day : Fin 365, IsMonthDay false day (monthDay false day) := by decide +kernel
    exact all ⟨day, within⟩
  | true =>
    have all : ∀ day : Fin 366, IsMonthDay true day (monthDay true day) := by decide +kernel
    exact all ⟨day, within⟩

/-- A date of the calendar and a time of day. -/
structure Civil.Proper (c : Civil) : Prop where
  month : 1 ≤ c.month ∧ c.month ≤ 12
  day : 1 ≤ c.day ∧ c.day ≤ daysIn c.month c.year.toNat
  hour : c.hour < 24
  minute : c.minute < 60
  second : c.second < 60
  nanosecond : c.nanosecond < 1000000000

def Civil.instant (c : Civil) : Time :=
  date c.year.toNat c.month c.day c.hour c.minute c.second c.nanosecond

theorem isLeapYear_toNat {year : Int} (nonneg : 0 ≤ year) : isLeapYear year = isLeap year.toNat := by
  rw [Bool.eq_iff_iff]
  simp only [isLeapYear, isLeap, Bool.and_eq_true, Bool.or_eq_true, decide_eq_true_eq,
    beq_iff_eq, bne_iff_ne, ne_eq]
  omega

theorem daysIn_eq (month year : Nat) : daysIn month year =
      if month = 2 then 28 + leapDay (isLeap year) else 30 + (month + month / 8) % 2 := by
  rw [daysIn, leapDay]
  by_cases february : month = 2
  · rw [if_pos february, if_pos february]
    cases isLeap year <;> rfl
  · rw [if_neg february, if_neg february]

theorem dayNumber_eq (year month day : Nat) : dayNumber year month day = yearStart year + daysBefore month +
      leapDay (isLeap year && decide (2 < month)) + day - 1 - epochDays := by
  simp only [dayNumber, yearStart, leapDay, epochDays]
  split <;> push_cast <;> omega

/-- From year 0 on, the date and the time of day of an instant are proper, and they are
those of no other instant. -/
theorem Time.civil_spec (t : Time) (nonneg : 0 ≤ t.civil.year) :
    t.civil.Proper ∧ t.civil.instant = Time.ofNanos t.wall := by
  obtain ⟨day, dayEq⟩ : ∃ x, x = t.wall / nanosPerSecond / 86400 + epochDays := ⟨_, rfl⟩
  obtain ⟨sum, within⟩ := yearDay_spec day
  obtain ⟨months, days, place⟩ := monthDay_spec _ _ within
  have yearEq : t.civil.year = (yearDay day).1 := by rw [dayEq]; rfl
  have monthEq : t.civil.month = (monthDay (isLeapYear (yearDay day).1) (yearDay day).2).1 := by
    rw [dayEq]; rfl
  have dayOfMonth : t.civil.day = (monthDay (isLeapYear (yearDay day).1) (yearDay day).2).2 := by
    rw [dayEq]; rfl
  rw [← monthEq, ← dayOfMonth, ← yearEq, isLeapYear_toNat nonneg] at place
  rw [← monthEq, ← dayOfMonth, ← yearEq, isLeapYear_toNat nonneg, ← daysIn_eq] at days
  rw [← monthEq] at months
  rw [← yearEq] at sum
  have clock : t.civil.hour = (t.wall / nanosPerSecond % 86400).toNat / 3600 ∧
      t.civil.minute = (t.wall / nanosPerSecond % 86400).toNat / 60 % 60 ∧
      t.civil.second = (t.wall / nanosPerSecond % 86400).toNat % 60 ∧
      t.civil.nanosecond = (t.wall % nanosPerSecond).toNat := ⟨rfl, rfl, rfl, rfl⟩
  obtain ⟨hours, minutes, seconds, nanos⟩ := clock
  have secondsBound : 0 ≤ t.wall / nanosPerSecond % 86400 ∧
      t.wall / nanosPerSecond % 86400 < 86400 := by omega
  have nanosBound : 0 ≤ t.wall % nanosPerSecond ∧ t.wall % nanosPerSecond < 1000000000 := by
    simp only [nanosPerSecond]
    omega
  refine ⟨⟨months, days, by omega, by omega, by omega, by omega⟩, ?_⟩
  rw [Civil.instant, date]
  apply congrArg Time.ofNanos
  have number : dayNumber t.civil.year.toNat t.civil.month t.civil.day = t.wall / nanosPerSecond / 86400 := by
    rw [dayNumber_eq, Int.toNat_of_nonneg nonneg]
    omega
  rw [number, hours, minutes, seconds, nanos]
  simp only [nanosPerSecond] at secondsBound nanosBound ⊢
  omega

/-! ## Digits of a field -/

theorem decimal_length_le {n width : Nat} (positive : 0 < width) (small : n < 10 ^ width) :
    (decimal n).length ≤ width := by
  induction width generalizing n with
  | zero => omega
  | succ width ih =>
    rw [decimal_step]
    by_cases single : n < 10
    · rw [if_pos single, List.length_singleton]
      omega
    · rw [if_neg single, List.length_append, List.length_singleton]
      have more : 0 < width := by
        rcases Nat.eq_zero_or_pos width with rfl | more
        · omega
        · exact more
      have shorter := ih more (n := n / 10) (by rw [Nat.pow_succ] at small; omega)
      omega

theorem appendInt_field (n width : Nat) (positive : 0 < width) (small : n < 10 ^ width) :
    ∃ f : Field width, appendInt n width = f.digits ∧ f.value = n := by
  obtain ⟨digits, value, -⟩ := decimal_canonical n
  have short := decimal_length_le positive small
  have text : appendInt n width = List.replicate (width - (decimal n).length) 0x30 ++ decimal n := by
    simp [appendInt]
  have zeros : ∀ b ∈ List.replicate (width - (decimal n).length) (0x30 : UInt8), isDigit b = true := by
    intro b inside
    rw [List.eq_of_mem_replicate inside]
    decide
  have nothing : digitsValue (List.replicate (width - (decimal n).length) (0x30 : UInt8)) = 0 := by
    apply (digitsValue_eq_zero zeros).mpr
    rw [List.all_replicate]
    simp [isZeroDigit]
  refine ⟨⟨_, ?_, ?_⟩, text, ?_⟩
  · rw [List.length_append, List.length_replicate]
    omega
  · intro b inside
    rcases List.mem_append.mp inside with inside | inside
    · exact zeros b inside
    · exact digits b inside
  · rw [Field.value, digitsValue_append, nothing, value, Nat.zero_mul, Nat.zero_add]

theorem daysIn_le (month year : Nat) : daysIn month year ≤ 31 := by
  rw [daysIn_eq, leapDay]
  split
  · split <;> omega
  · omega

/-- A date and a time of day with the digits of their fields. -/
structure Civil.Written (c : Civil) (clock : ClockText) : Prop where
  year : clock.year.value = c.year.toNat
  month : clock.month.value = c.month
  day : clock.day.value = c.day
  hour : clock.hour.value = c.hour
  minute : clock.minute.value = c.minute
  second : clock.second.value = c.second

theorem Civil.formatMillis_fields {c : Civil} (proper : c.Proper) (low : 0 ≤ c.year) (high : c.year ≤ 9999) :
    ∃ (clock : ClockText) (milli : Field 3), c.Written clock ∧ milli.value = c.nanosecond / 1000000 ∧
      c.formatMillis = clock.text 0x20 ++ 0x2E :: milli.digits := by
  obtain ⟨months, days, hours, minutes, seconds, nanos⟩ := proper
  have shortMonth := daysIn_le c.month c.year.toNat
  have yearEq : c.year = (c.year.toNat : Int) := by omega
  have fraction : ((c.nanosecond : Int) / 1000000) = ((c.nanosecond / 1000000 : Nat) : Int) := by
    omega
  obtain ⟨year, yearText, yearValue⟩ := appendInt_field c.year.toNat 4 (by omega) (by omega)
  obtain ⟨month, monthText, monthValue⟩ := appendInt_field c.month 2 (by omega) (by omega)
  obtain ⟨day, dayText, dayValue⟩ := appendInt_field c.day 2 (by omega) (by omega)
  obtain ⟨hour, hourText, hourValue⟩ := appendInt_field c.hour 2 (by omega) (by omega)
  obtain ⟨minute, minuteText, minuteValue⟩ := appendInt_field c.minute 2 (by omega) (by omega)
  obtain ⟨second, secondText, secondValue⟩ := appendInt_field c.second 2 (by omega) (by omega)
  obtain ⟨milli, milliText, milliValue⟩ := appendInt_field (c.nanosecond / 1000000) 3 (by omega) (by omega)
  have marks : ascii "-" = [0x2D] ∧ ascii " " = [0x20] ∧ ascii ":" = [0x3A] ∧ ascii "." = [0x2E] := by decide
  obtain ⟨dash, space, colon, dot⟩ := marks
  refine ⟨⟨year, month, day, hour, minute, second⟩, milli,
    ⟨yearValue, monthValue, dayValue, hourValue, minuteValue, secondValue⟩, milliValue, ?_⟩
  rw [Civil.formatMillis, yearEq, fraction, yearText, monthText, dayText, hourText, minuteText,
    secondText, milliText, dash, space, colon, dot]
  simp [ClockText.text, ClockText.dateText, ClockText.timeText, ClockText.dash, ClockText.colon]

end DevHealth.Go

import DevHealth.Go.Calendar
import DevHealth.Lib.Decimal

/-! # Texts of a date and a time of day

A date and a time of day as digits in fields of a fixed width, and what the readers of
`time.Parse` find in such a text. -/
set_option autoImplicit false
namespace DevHealth.Go

open Lib

/-- As many digits as the field is wide. -/
structure Field (width : Nat) where
  digits : Bytes
  length_eq : digits.length = width
  all_digits : ∀ b ∈ digits, isDigit b = true

namespace Field

variable {width : Nat}

def value (f : Field width) : Nat := digitsValue f.digits

theorem value_lt (f : Field width) : f.value < 10 ^ width := by
  have small := digitsValue_lt f.all_digits
  rwa [f.length_eq] at small

theorem ext {f g : Field width} (same : f.digits = g.digits) : f = g := by
  obtain ⟨digits, length_eq, all_digits⟩ := f
  cases same
  rfl

end Field

def inRange (n low high : Nat) : Option Nat := if low ≤ n ∧ n ≤ high then some n else none

theorem inRange_bind {α : Type} (n low high : Nat) (f : Nat → Option α) :
    (inRange n low high >>= f) = if low ≤ n ∧ n ≤ high then f n else none := by
  rw [inRange]
  split <;> rfl

theorem cut_field {width : Nat} (front : Bytes) (f : Field width) (back : Bytes) {start : Nat}
    (place : front.length = start) :
    ((front ++ (f.digits ++ back)).drop start).take width = f.digits := by
  rw [← place, List.drop_left]
  nth_rewrite 1 [← f.length_eq]
  exact List.take_left

theorem parseUint_cut {width start : Nat} {s : Bytes} {f : Field width}
    (cut : (s.drop start).take width = f.digits) (low high : Nat) :
    parseUint s start width low high = inRange f.value low high := by
  have digits : f.digits.all isDigit = true := List.all_eq_true.mpr f.all_digits
  rw [parseUint, cut, inRange]
  simp only [digits, true_and]
  rfl

theorem byteAt_at (front back : Bytes) {i : Nat} (b : UInt8) (c : Char)
    (place : front.length = i) : byteAt (front ++ b :: back) i c = isByte c b := by
  rw [byteAt, ← place, List.getElem?_append_right (Nat.le_refl _), Nat.sub_self]
  rfl

structure ClockText where
  year : Field 4
  month : Field 2
  day : Field 2
  hour : Field 2
  minute : Field 2
  second : Field 2

namespace ClockText

def dash : UInt8 := 0x2D

def colon : UInt8 := 0x3A

def dateText (c : ClockText) : Bytes :=
  c.year.digits ++ dash :: (c.month.digits ++ dash :: c.day.digits)

def timeText (c : ClockText) : Bytes :=
  c.hour.digits ++ colon :: (c.minute.digits ++ colon :: c.second.digits)

/-- The text, with a byte between the date and the time of day. -/
def text (c : ClockText) (apart : UInt8) : Bytes := c.dateText ++ apart :: c.timeText

theorem dateText_length (c : ClockText) : c.dateText.length = 10 := by
  simp [dateText, Field.length_eq]

theorem text_length (c : ClockText) (apart : UInt8) : (c.text apart).length = 19 := by
  simp [text, dateText, timeText, Field.length_eq]

/-- A date of the calendar and a time of day, without a leap second. -/
structure Proper (c : ClockText) : Prop where
  month : 1 ≤ c.month.value ∧ c.month.value ≤ 12
  day : 1 ≤ c.day.value ∧ c.day.value ≤ daysIn c.month.value c.year.value
  hour : c.hour.value ≤ 23
  minute : c.minute.value ≤ 59
  second : c.second.value ≤ 59

instance (c : ClockText) : Decidable c.Proper :=
  decidable_of_iff ((1 ≤ c.month.value ∧ c.month.value ≤ 12) ∧
    (1 ≤ c.day.value ∧ c.day.value ≤ daysIn c.month.value c.year.value) ∧
    c.hour.value ≤ 23 ∧ c.minute.value ≤ 59 ∧ c.second.value ≤ 59)
    ⟨fun all => ⟨all.1, all.2.1, all.2.2.1, all.2.2.2.1, all.2.2.2.2⟩,
      fun proper => ⟨proper.month, proper.day, proper.hour, proper.minute, proper.second⟩⟩

/-- The start of its second. -/
def instant (c : ClockText) : Time :=
  date c.year.value c.month.value c.day.value c.hour.value c.minute.value c.second.value 0

variable (c : ClockText) (apart : UInt8) (rest : Bytes)

theorem cut_date : ((c.dateText ++ rest).drop 0).take 4 = c.year.digits ∧
      ((c.dateText ++ rest).drop 5).take 2 = c.month.digits ∧
      ((c.dateText ++ rest).drop 8).take 2 = c.day.digits := by
  have year := cut_field [] c.year (dash :: (c.month.digits ++ dash :: c.day.digits) ++ rest) rfl
  have month := cut_field (c.year.digits ++ [dash]) c.month (dash :: c.day.digits ++ rest) rfl
  have day := cut_field (c.year.digits ++ dash :: (c.month.digits ++ [dash])) c.day rest rfl
  simp only [List.length_append, List.length_cons, List.length_nil, Field.length_eq] at month day
  simp only [dateText, List.append_assoc, List.cons_append, List.nil_append] at *
  exact ⟨year, month, day⟩

theorem cut_time : ((c.text apart ++ rest).drop 11).take 2 = c.hour.digits ∧
      ((c.text apart ++ rest).drop 14).take 2 = c.minute.digits ∧
      ((c.text apart ++ rest).drop 17).take 2 = c.second.digits := by
  have hour := cut_field (c.dateText ++ [apart]) c.hour
    (colon :: (c.minute.digits ++ colon :: c.second.digits) ++ rest) rfl
  have minute := cut_field (c.dateText ++ apart :: (c.hour.digits ++ [colon])) c.minute
    (colon :: c.second.digits ++ rest) rfl
  have second := cut_field
    (c.dateText ++ apart :: (c.hour.digits ++ colon :: (c.minute.digits ++ [colon]))) c.second
    rest rfl
  simp only [List.length_append, List.length_cons, List.length_nil, Field.length_eq,
    dateText_length] at hour minute second
  simp only [text, timeText, List.append_assoc, List.cons_append, List.nil_append] at *
  exact ⟨hour, minute, second⟩

theorem read_date (low high : Nat) :
    parseUint (c.dateText ++ rest) 0 4 low high = inRange c.year.value low high ∧
      parseUint (c.dateText ++ rest) 5 2 low high = inRange c.month.value low high ∧
      parseUint (c.dateText ++ rest) 8 2 low high = inRange c.day.value low high := by
  obtain ⟨year, month, day⟩ := c.cut_date rest
  exact ⟨parseUint_cut year low high, parseUint_cut month low high, parseUint_cut day low high⟩

theorem read_time (low high : Nat) :
    parseUint (c.text apart ++ rest) 11 2 low high = inRange c.hour.value low high ∧
      parseUint (c.text apart ++ rest) 14 2 low high = inRange c.minute.value low high ∧
      parseUint (c.text apart ++ rest) 17 2 low high = inRange c.second.value low high := by
  obtain ⟨hour, minute, second⟩ := c.cut_time apart rest
  exact ⟨parseUint_cut hour low high, parseUint_cut minute low high, parseUint_cut second low high⟩

theorem read_marks : byteAt (c.text apart ++ rest) 4 '-' = true ∧ byteAt (c.text apart ++ rest) 7 '-' = true ∧
      (∀ mark, byteAt (c.text apart ++ rest) 10 mark = isByte mark apart) ∧
      byteAt (c.text apart ++ rest) 13 ':' = true ∧
      byteAt (c.text apart ++ rest) 16 ':' = true := by
  have first := byteAt_at c.year.digits (c.month.digits ++ dash :: c.day.digits ++
    apart :: c.timeText ++ rest) dash '-' rfl
  have second := byteAt_at (c.year.digits ++ dash :: c.month.digits) (c.day.digits ++
    apart :: c.timeText ++ rest) dash '-' rfl
  have middle : ∀ mark, byteAt (c.dateText ++ apart :: (c.timeText ++ rest)) 10 mark =
      isByte mark apart :=
    fun mark => byteAt_at c.dateText (c.timeText ++ rest) apart mark c.dateText_length
  have third := byteAt_at (c.dateText ++ apart :: c.hour.digits) (c.minute.digits ++
    colon :: c.second.digits ++ rest) colon ':' rfl
  have fourth := byteAt_at (c.dateText ++ apart :: (c.hour.digits ++ colon :: c.minute.digits))
    (c.second.digits ++ rest) colon ':' rfl
  simp only [List.length_append, List.length_cons, Field.length_eq,
    dateText_length] at first second third fourth
  simp only [text, timeText, dateText, List.append_assoc, List.cons_append] at *
  exact ⟨first, second, middle, third, fourth⟩

def fractionText (ds : Bytes) : Bytes := if ds = [] then [] else 0x2E :: ds

theorem read_fraction {ds zone : Bytes} (digits : ∀ b ∈ ds, isDigit b = true)
    (notPoint : byteAt zone 0 '.' = false) (notDigit : ∀ b ∈ zone.head?, isDigit b = false) :
    (if byteAt (fractionText ds ++ zone) 0 '.' then
        ((fractionText ds ++ zone).drop 1).takeWhile isDigit else []) = ds := by
  by_cases none : ds = []
  · rw [fractionText, if_pos none, List.nil_append, notPoint, if_neg Bool.false_ne_true, none]
  · rw [fractionText, if_neg none, List.cons_append, if_pos (by rfl), List.drop_succ_cons, List.drop_zero]
    exact (takeWhile_until digits notDigit).1

theorem drop_fraction (ds : Bytes) :
    (if ds = [] then fractionText ds ++ ascii "Z"
      else (fractionText ds ++ ascii "Z").drop (ds.length + 1)) = ascii "Z" := by
  by_cases none : ds = []
  · rw [if_pos none, fractionText, if_pos none, List.nil_append]
  · rw [if_neg none, fractionText, if_neg none, List.cons_append, List.drop_succ_cons, List.drop_left]

/-- `time.Parse` of a text in UTC accepts it when the date and the time of day are proper. -/
theorem parseRFC3339_utc {ds : Bytes} (digits : ∀ b ∈ ds, isDigit b = true) :
    parseRFC3339 (c.text 0x54 ++ (fractionText ds ++ ascii "Z")) =
      if c.Proper then some (c.instant.add (parseNanoseconds ds)) else none := by
  obtain ⟨first, second, middle, third, fourth⟩ := c.read_marks 0x54 (fractionText ds ++ ascii "Z")
  have year := c.year.value_lt
  have long : ¬ (c.text 0x54 ++ (fractionText ds ++ ascii "Z")).length < 19 := by
    rw [List.length_append, text_length]
    omega
  have rest : (c.text 0x54 ++ (fractionText ds ++ ascii "Z")).drop 19 = fractionText ds ++ ascii "Z" := by
    rw [← c.text_length 0x54, List.drop_left]
  have zone : parseZone (ascii "Z") = some 0 := rfl
  have notDigit : ∀ b ∈ (ascii "Z").head?, isDigit b = false := by decide
  rw [parseRFC3339, if_neg long]
  simp only [(c.read_time 0x54 _ _ _).1, (c.read_time 0x54 _ _ _).2.1,
    (c.read_time 0x54 _ _ _).2.2, first, second, middle, third, fourth, rest,
    read_fraction digits (by decide : byteAt (ascii "Z") 0 '.' = false) notDigit, drop_fraction,
    zone]
  rw [text, List.append_assoc]
  simp only [(c.read_date _ _ _).1, (c.read_date _ _ _).2.1, (c.read_date _ _ _).2.2, inRange_bind]
  by_cases proper : c.Proper
  · rw [if_pos ⟨by omega, by omega⟩, if_pos proper.month, if_pos proper.day,
      if_pos ⟨by omega, proper.hour⟩, if_pos ⟨by omega, proper.minute⟩,
      if_pos ⟨by omega, proper.second⟩, if_pos (by decide), if_pos proper]
    apply congrArg some
    simp [instant, date, Time.add, Time.ofNanos]
  · rw [if_neg proper]
    split_ifs with years months days hours minutes seconds
    · exact absurd ⟨months, days, hours.2, minutes.2, seconds.2⟩ proper
    all_goals rfl

end ClockText
end DevHealth.Go

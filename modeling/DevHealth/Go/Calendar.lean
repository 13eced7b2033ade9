import DevHealth.Go.Strings
import DevHealth.Go.Time

/-! # Dates of the Gregorian calendar and `time.RFC3339Nano` -/
set_option autoImplicit false
namespace DevHealth.Go

open Lib

def isLeap (year : Nat) : Bool := year % 4 == 0 && (year % 100 != 0 || year % 400 == 0)

def daysIn (month year : Nat) : Nat :=
  if month = 2 then if isLeap year then 29 else 28 else 30 + (month + month / 8) % 2

/-- The days of a year before a month, leap day left out. -/
def daysBefore (month : Nat) : Nat :=
  [0, 31, 59, 90, 120, 151, 181, 212, 243, 273, 304, 334].getD (month - 1) 0

/-- Days since the first of January 1970. -/
def dayNumber (year month day : Nat) : Int :=
  let before : Int := year - 1
  365 * before + before / 4 - before / 100 + before / 400 + daysBefore month +
    (if isLeap year && decide (2 < month) then 1 else 0) + day - 1 - 719162

/-- `time.Date` in UTC, for components in their ranges. -/
def date (year month day hour minute second nanos : Nat) : Time :=
  Time.ofNanos ((((dayNumber year month day * 24 + hour) * 60 + minute) * 60 + second) *
    nanosPerSecond + nanos)

def parseUint (s : Bytes) (start width low high : Nat) : Option Nat :=
  let ds := (s.drop start).take width
  if ds.all isDigit ∧ low ≤ digitsValue ds ∧ digitsValue ds ≤ high then some (digitsValue ds)
  else none

def byteAt (s : Bytes) (i : Nat) (c : Char) : Bool := s[i]?.any (isByte c)

/-- Nanoseconds of a fraction, its digits past the ninth dropped. -/
def parseNanoseconds (ds : Bytes) : Nat := digitsValue (ds.take 9) * 10 ^ (9 - ds.length)

def parseZone (zone : Bytes) : Option Int :=
  if zone = ascii "Z" then some 0
  else if zone.length ≠ 6 then none
  else do
    let hours ← parseUint zone 1 2 0 23
    let minutes ← parseUint zone 4 2 0 59
    if (byteAt zone 0 '-' || byteAt zone 0 '+') && byteAt zone 3 ':' then
      let seconds : Int := (hours * 60 + minutes) * 60
      some (if byteAt zone 0 '-' then -seconds else seconds)
    else none

/-- `parseRFC3339`: a date and time, an optional fraction, and a zone. -/
def parseRFC3339 (s : Bytes) : Option Time :=
  if s.length < 19 then none
  else do
    let year ← parseUint s 0 4 0 9999
    let month ← parseUint s 5 2 1 12
    let day ← parseUint s 8 2 1 (daysIn month year)
    let hour ← parseUint s 11 2 0 23
    let minute ← parseUint s 14 2 0 59
    let second ← parseUint s 17 2 0 59
    if byteAt s 4 '-' && byteAt s 7 '-' && byteAt s 10 'T' && byteAt s 13 ':' &&
        byteAt s 16 ':' then
      let rest := s.drop 19
      let ds := if byteAt rest 0 '.' then (rest.drop 1).takeWhile isDigit else []
      let zone := if ds = [] then rest else rest.drop (ds.length + 1)
      let offset ← parseZone zone
      some ((date year month day hour minute second (parseNanoseconds ds)).add
        (-offset * nanosPerSecond))
    else none

example : parseRFC3339 (ascii "2026-02-28T23:59:59.5+01:00") =
    some (Time.ofNanos 1772319599500000000) := by decide +kernel
example : parseRFC3339 (ascii "2026-02-29T00:00:00Z") = none := by decide +kernel

end DevHealth.Go

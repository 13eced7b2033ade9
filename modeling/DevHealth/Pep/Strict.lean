import DevHealth.Go.JsonStrict
import DevHealth.Go.TimeFormat
import DevHealth.Lib.Regex

/-! # Strict JSON of the decision point

The readings of a response that refuse what an ordinary decoder lets through:
repeated members, data after the value, deep nesting, numbers that are not plain
integers and instants outside the contract. -/
set_option autoImplicit false
namespace DevHealth.Pep

open Go Lib

def maxDepth : Nat := 16

/-- `walk(dec, depth)` refuses a depth past `maxDepth`, so it has this many levels left.
A closing bracket would fall through its switch to the last token. -/
def walk (d : Decoder) (depth : Nat) : Option Decoder :=
  strictValue (· == ·) closing (maxDepth + 1 - depth) d

/-- True when the document is refused. -/
def rejectDuplicates (body : Bytes) : Bool :=
  match walk (.start body) 0 with
  | none => true
  | some d => !d.atEnd

def digit : Regex UInt8 := .cls isDigit

/-- `[a-b]` -/
def range (low high : Char) : Regex UInt8 := .cls (between low high)

/-- `^(0|[1-9][0-9]*)$` -/
def integerToken : Regex UInt8 :=
  .alt (.lit (ascii "0")) (.seq (range '1' '9') (.star digit))

def parseRevision (raw : Bytes) : Option Nat :=
  if integerToken.accepts raw then (parseInt raw).map Int.toNat else none

/-- `([0-9]{3}[1-9]|[0-9]{2}[1-9][0-9]|[0-9][1-9][0-9]{2}|[1-9][0-9]{3})` -/
def yearPattern : Regex UInt8 :=
  .oneOf
    [.seq (.exactly digit 3) (range '1' '9'),
      .seq (.exactly digit 2) (.seq (range '1' '9') digit),
      .seq digit (.seq (range '1' '9') (.exactly digit 2)),
      .seq (range '1' '9') (.exactly digit 3)]

/-- `(0[1-9]|1[0-2])` -/
def monthPattern : Regex UInt8 :=
  .alt (.seq (.lit (ascii "0")) (range '1' '9')) (.seq (.lit (ascii "1")) (range '0' '2'))

/-- `(0[1-9]|[12][0-9]|3[01])` -/
def dayPattern : Regex UInt8 :=
  .oneOf
    [.seq (.lit (ascii "0")) (range '1' '9'), .seq (range '1' '2') digit,
      .seq (.lit (ascii "3")) (range '0' '1')]

/-- `([01][0-9]|2[0-3])` -/
def hourPattern : Regex UInt8 :=
  .alt (.seq (range '0' '1') digit) (.seq (.lit (ascii "2")) (range '0' '3'))

/-- `:[0-5][0-9]` -/
def sixtyPattern : Regex UInt8 := .seq (.lit (ascii ":")) (.seq (range '0' '5') digit)

/-- `(0[0-9]|1[0-9]|2[0-3])` -/
def zoneHourPattern : Regex UInt8 :=
  .oneOf
    [.seq (.lit (ascii "0")) digit, .seq (.lit (ascii "1")) digit,
      .seq (.lit (ascii "2")) (range '0' '3')]

/-- `(\.[0-9]{1,6})?` -/
def fractionPattern : Regex UInt8 := .opt (.seq (.lit (ascii ".")) (.repeated digit 1 6))

/-- `(Z|[+-](0[0-9]|1[0-9]|2[0-3]):[0-5][0-9])` -/
def zonePattern : Regex UInt8 :=
  .alt (.lit (ascii "Z")) (.seq (.cls isSign) (.seq zoneHourPattern sixtyPattern))

def expiresAtPattern : Regex UInt8 :=
  .seq yearPattern <| .seq (.lit (ascii "-")) <| .seq monthPattern <| .seq (.lit (ascii "-")) <|
    .seq dayPattern <| .seq (.lit (ascii "T")) <| .seq hourPattern <| .seq sixtyPattern <|
      .seq sixtyPattern <| .seq fractionPattern zonePattern

def minInstant : Time := date 1 1 1 0 0 0 0
def maxInstant : Time := date 9999 12 31 23 59 59 999999999

/-- A text of the pattern that `parseRFC3339` refuses has a day its month does not
have; the slower parser behind it refuses that too. -/
def parseExpiry (s : Bytes) : Option Time :=
  if !expiresAtPattern.accepts s then none
  else
    match parseRFC3339 s with
    | none => none
    | some t => if t.before minInstant || t.after maxInstant then none else some t

theorem integerToken_digits {w : Bytes} (token : w ∈ integerToken.lang) :
    w ≠ [] ∧ ∀ b ∈ w, isDigit b = true := by
  rw [integerToken, Regex.mem_lang_alt, Regex.mem_lang_lit, Regex.mem_lang_seq] at token
  rcases token with rfl | ⟨_, ⟨b, first, rfl⟩, rest, digits, rfl⟩
  · decide +kernel
  · refine ⟨by simp, ?_⟩
    intro c inside
    rcases List.mem_cons.mp inside with rfl | inside
    · simp only [between, isDigit, Bool.and_eq_true, decide_eq_true_eq] at first ⊢
      have low : '0'.toNat ≤ '1'.toNat := by decide
      omega
    · exact Regex.mem_lang_star_cls.mp digits c inside

theorem parseRevision_iff {raw : Bytes} {n : Nat} : parseRevision raw = some n ↔
      raw ∈ integerToken.lang ∧ digitsValue raw < 2 ^ 63 ∧ n = digitsValue raw := by
  rw [parseRevision, ← Regex.accepts_iff]
  split_ifs with token
  · have digits := integerToken_digits ((Regex.accepts_iff _ _).mp token)
    rw [parseInt_digits digits.1 digits.2]
    by_cases small : digitsValue raw < 2 ^ 63
    · simp only [small, if_true, Option.map_some, Int.toNat_natCast, Option.some.injEq, token, true_and]
      exact eq_comm
    · simp only [small, if_false, Option.map_none, token, false_and, and_false, reduceCtorEq]
  · simp [token]

theorem between_instants_iff (t : Time) :
    t.before minInstant = false ∧ t.after maxInstant = false ↔ t.WithinYears := by
  have first : minInstant = .ofNanos (-62135596800000000000) := by decide
  have last : maxInstant = .ofNanos 253402300799999999999 := by decide
  have line (wall : Int) : t.distance (.ofNanos wall) = t.wall - wall := by
    cases t with | mk w m => cases m <;> rfl
  simp only [Time.withinYears_iff, Time.before, Time.after, first, last, line, decide_eq_false_iff_not,
    Time.unixSeconds, nanosPerSecond]
  omega

theorem parseExpiry_iff {s : Bytes} {t : Time} :
    parseExpiry s = some t ↔ s ∈ expiresAtPattern.lang ∧ parseRFC3339 s = some t ∧ t.WithinYears := by
  rw [← Regex.accepts_iff, parseExpiry, ← between_instants_iff]
  cases expiresAtPattern.accepts s with
  | false => simp
  | true =>
    cases parseRFC3339 s with
    | none => simp
    | some found =>
      simp only [Bool.not_true, Bool.false_eq_true, if_false, true_and, Option.some.injEq,
        Option.ite_none_left_eq_some, Bool.or_eq_true, not_or, Bool.not_eq_true]
      constructor
      · rintro ⟨inside, rfl⟩
        exact ⟨rfl, inside⟩
      · rintro ⟨rfl, inside⟩
        exact ⟨inside, rfl⟩

theorem rejectDuplicates_iff (body : Bytes) : rejectDuplicates body = false ↔
      ∃ lead, ∃ t : Json .value, ∃ trail, body = lead ++ (t.text ++ trail) ∧ IsBlank lead ∧
        IsBlank trail ∧ Strict (· == ·) maxDepth 0 t := by
  have accepted : strictDocument (· == ·) closing (maxDepth + 1) body = true ↔ _ :=
    strictDocument_iff maxDepth body
  rw [← accepted]
  simp only [rejectDuplicates, walk, Nat.sub_zero, strictDocument]
  cases strictValue (· == ·) closing (maxDepth + 1) (.start body) with
  | none => simp
  | some d => simp

theorem nesting_of_depth {t : Json .value} (depth : t.depth ≤ maxDepth) : t.nesting ≤ maxNestingDepth :=
  (Json.nesting_le_depth t).trans ((Nat.succ_le_succ depth).trans (by decide))

end DevHealth.Pep

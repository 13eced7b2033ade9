import DevHealth.Lib.Json
import Mathlib.Data.List.TakeWhile

/-! # The scanner of `encoding/json`

`readScalar` reads a string, a number or a literal from the front of a text, as
far as it goes, and leaves what follows.  `skipSpace` passes over the white space
that the scanner ignores between tokens. -/
set_option autoImplicit false
namespace DevHealth.Go

open Lib

def skipSpace (s : Bytes) : Bytes := s.dropWhile isSpace

inductive Scalar where
  | null
  | bool (b : Bool)
  | num (digits : Bytes)
  | str (content : Bytes)
  deriving DecidableEq, Repr

/-- The string states of the scanner: inside the string, after a backslash, and with
so many hexadecimal digits of an escape still to come. -/
inductive StringState where
  | plain
  | escape
  | hex (left : Nat)

/-- From inside a string up to its closing quote: the content and what follows. -/
def scanString : StringState → Bytes → Option (Bytes × Bytes)
  | _, [] => none
  | .plain, b :: rest =>
    if b = quoteMark then some ([], rest)
    else if b = backslash then (scanString .escape rest).map fun (c, r) => (b :: c, r)
    else if b < 0x20 then none
    else (scanString .plain rest).map fun (c, r) => (b :: c, r)
  | .escape, b :: rest =>
    if isShortEscape b then (scanString .plain rest).map fun (c, r) => (b :: c, r)
    else if b = 0x75 then (scanString (.hex 3) rest).map fun (c, r) => (b :: c, r)
    else none
  | .hex left, b :: rest =>
    if isHex b then
      (scanString (match left with | 0 => .plain | n + 1 => .hex n) rest).map
        fun (c, r) => (b :: c, r)
    else none

def scanDigits (s : Bytes) : Option (Bytes × Bytes) :=
  match s.takeWhile isDigit with
  | [] => none
  | ds => some (ds, s.dropWhile isDigit)

def scanInteger : Bytes → Option (Bytes × Bytes)
  | [] => none
  | b :: rest =>
    if b = 0x30 then some ([b], rest)
    else if between '1' '9' b then some (b :: rest.takeWhile isDigit, rest.dropWhile isDigit)
    else none

def scanFraction : Bytes → Option (Bytes × Bytes)
  | [] => some ([], [])
  | b :: rest =>
    if b = 0x2E then (scanDigits rest).map fun (ds, r) => (b :: ds, r)
    else some ([], b :: rest)

def scanExponent : Bytes → Option (Bytes × Bytes)
  | [] => some ([], [])
  | b :: rest =>
    if isExponentMark b then
      match rest with
      | [] => none
      | c :: after =>
        if isSign c then (scanDigits after).map fun (ds, r) => (b :: c :: ds, r)
        else (scanDigits (c :: after)).map fun (ds, r) => (b :: ds, r)
    else some ([], b :: rest)

def scanUnsigned (s : Bytes) : Option (Bytes × Bytes) := do
  let (int, s₁) ← scanInteger s
  let (frac, s₂) ← scanFraction s₁
  let (exp, s₃) ← scanExponent s₂
  return (int ++ (frac ++ exp), s₃)

def scanNumber : Bytes → Option (Bytes × Bytes)
  | [] => none
  | b :: rest =>
    if b = 0x2D then (scanUnsigned rest).map fun (digits, r) => (b :: digits, r)
    else scanUnsigned (b :: rest)

def scanLiteral (literal s : Bytes) : Option Bytes := literal.isPrefixOf? s

def readScalar : Bytes → Option (Scalar × Bytes)
  | [] => none
  | b :: rest =>
    if b = quoteMark then (scanString .plain rest).map fun (c, r) => (.str c, r)
    else if b = 0x6E then (scanLiteral (ascii "null") (b :: rest)).map fun r => (.null, r)
    else if b = 0x74 then (scanLiteral (ascii "true") (b :: rest)).map fun r => (.bool true, r)
    else if b = 0x66 then (scanLiteral (ascii "false") (b :: rest)).map fun r => (.bool false, r)
    else (scanNumber (b :: rest)).map fun (digits, r) => (.num digits, r)

/-! ## White space -/

theorem skipSpace_blank {gap : Bytes} (blank : IsBlank gap) (s : Bytes) :
    skipSpace (gap ++ s) = skipSpace s := by
  induction gap with
  | nil => rfl
  | cons b gap ih =>
    have here : isSpace b = true := blank b (List.mem_cons_self ..)
    have rest : IsBlank gap := fun c member => blank c (List.mem_cons_of_mem _ member)
    simpa [skipSpace, List.dropWhile_cons, here] using ih rest

theorem skipSpace_cons {b : UInt8} (solid : isSpace b = false) (s : Bytes) : skipSpace (b :: s) = b :: s := by
  simp [skipSpace, solid]

theorem exists_blank_of_skipSpace (s : Bytes) : ∃ gap, IsBlank gap ∧ s = gap ++ skipSpace s :=
  ⟨s.takeWhile isSpace, fun _ member => List.mem_takeWhile_imp member, (List.takeWhile_append_dropWhile).symm⟩

theorem skipSpace_head {s rest : Bytes} {b : UInt8} (split : skipSpace s = b :: rest) :
    isSpace b = false := by
  by_contra space
  have head := List.head?_dropWhile_not isSpace s
  rw [skipSpace] at split
  simp [split, space] at head

/-! ## Strings -/

/-- What the scanner has still to read in each state. -/
def Remaining : StringState → Bytes → Prop
  | .plain, c => IsContent c
  | .escape, c => IsContent (backslash :: c)
  | .hex left, c => ∃ hs rest, c = hs ++ rest ∧ hs.length = left + 1 ∧
      (∀ h ∈ hs, isHex h = true) ∧ IsContent rest

theorem remaining_escape_unicode {c : Bytes} (remaining : Remaining (.hex 3) c) :
    IsContent (backslash :: 0x75 :: c) := by
  obtain ⟨hs, rest, rfl, four, hex, valid⟩ := remaining
  match hs, four with
  | [h₁, h₂, h₃, h₄], _ =>
    exact .unicode (hex h₁ (by simp)) (hex h₂ (by simp)) (hex h₃ (by simp)) (hex h₄ (by simp)) valid

theorem remaining_hex {left : Nat} {b : UInt8} {c : Bytes} (digit : isHex b = true)
    (remaining : Remaining (match left with | 0 => .plain | n + 1 => .hex n) c) :
    Remaining (.hex left) (b :: c) := by
  cases left with
  | zero => exact ⟨[b], c, rfl, rfl, by simpa using digit, remaining⟩
  | succ left =>
    obtain ⟨hs, rest, rfl, length, hex, valid⟩ := remaining
    refine ⟨b :: hs, rest, rfl, by simp [length], ?_, valid⟩
    intro h member
    rcases List.mem_cons.mp member with rfl | member
    · exact digit
    · exact hex h member

theorem scanString_sound (s : Bytes) : ∀ (state : StringState) (c r : Bytes),
    scanString state s = some (c, r) → s = c ++ quoteMark :: r ∧ Remaining state c := by
  induction s with
  | nil => intro state c r success; cases state <;> simp [scanString] at success
  | cons b rest ih =>
    intro state c r success
    have step : ∀ (after : StringState),
        ((scanString after rest).map fun (c, r) => (b :: c, r)) = some (c, r) →
        ∃ c', c = b :: c' ∧ rest = c' ++ quoteMark :: r ∧ Remaining after c' := by
      intro after mapped
      obtain ⟨⟨c', r'⟩, inner, same⟩ := Option.map_eq_some_iff.mp mapped
      cases same
      exact ⟨c', rfl, ih after c' r inner⟩
    cases state with
    | plain =>
      simp only [scanString] at success
      split_ifs at success with isQuote isBackslash control
      · cases success
        exact ⟨by rw [isQuote]; rfl, .nil⟩
      · obtain ⟨c', rfl, rfl, remaining⟩ := step .escape success
        exact ⟨rfl, by rw [isBackslash]; exact remaining⟩
      · obtain ⟨c', rfl, rfl, remaining⟩ := step .plain success
        exact ⟨rfl, .plain isQuote isBackslash (by simpa using control) remaining⟩
    | escape =>
      simp only [scanString] at success
      split_ifs at success with isShort isUnicode
      · obtain ⟨c', rfl, rfl, remaining⟩ := step .plain success
        exact ⟨rfl, .short isShort remaining⟩
      · obtain ⟨c', rfl, rfl, remaining⟩ := step (.hex 3) success
        exact ⟨rfl, by rw [isUnicode]; exact remaining_escape_unicode remaining⟩
    | hex left =>
      simp only [scanString] at success
      split_ifs at success with digit
      obtain ⟨c', rfl, rfl, remaining⟩ := step _ success
      exact ⟨rfl, remaining_hex digit remaining⟩

theorem scanString_complete {c : Bytes} (valid : IsContent c) (r : Bytes) :
    scanString .plain (c ++ quoteMark :: r) = some (c, r) := by
  induction valid with
  | nil => simp [scanString]
  | plain notQuote notBackslash printable _ ih =>
    simp [scanString, notQuote, notBackslash, printable, ih]
  | short isShort _ ih =>
    have ne : backslash ≠ quoteMark := by decide
    simp [scanString, isShort, ih, ne]
  | unicode a b c d _ ih =>
    have ne : backslash ≠ quoteMark := by decide
    have notShort : isShortEscape 0x75 = false := by decide
    simp [scanString, notShort, a, b, c, d, ih, ne]

/-! ## Numbers -/

theorem scanDigits_sound {s ds r : Bytes} (success : scanDigits s = some (ds, r)) :
    s = ds ++ r ∧ IsDigits ds := by
  unfold scanDigits at success
  split at success
  · cases success
  · rename_i some_digits
    cases success
    exact ⟨(List.takeWhile_append_dropWhile).symm, some_digits,
      fun b member => List.mem_takeWhile_imp member⟩

def NoDigit (r : Bytes) : Prop := ∀ b s, r = b :: s → isDigit b = false

theorem takeWhile_digits {ds r : Bytes} (digits : ∀ b ∈ ds, isDigit b = true)
    (ends : NoDigit r) : (ds ++ r).takeWhile isDigit = ds ∧ (ds ++ r).dropWhile isDigit = r := by
  have stops : r.takeWhile isDigit = [] ∧ r.dropWhile isDigit = r := by
    cases r with
    | nil => exact ⟨rfl, rfl⟩
    | cons b rest => simp [ends b rest rfl]
  rw [List.takeWhile_append_of_pos digits, List.dropWhile_append_of_pos digits, stops.1, stops.2]
  exact ⟨List.append_nil ds, rfl⟩

theorem scanDigits_complete {ds r : Bytes} (digits : IsDigits ds) (ends : NoDigit r) :
    scanDigits (ds ++ r) = some (ds, r) := by
  obtain ⟨taken, dropped⟩ := takeWhile_digits digits.2 ends
  unfold scanDigits
  rw [taken, dropped]
  split
  · exact absurd rfl digits.1
  · rfl

theorem scanInteger_sound {s int r : Bytes} (success : scanInteger s = some (int, r)) :
    s = int ++ r ∧ IsInteger int := by
  cases s with
  | nil => cases success
  | cons b rest =>
    simp only [scanInteger] at success
    split_ifs at success with isZero isLead
    · cases success
      exact ⟨rfl, by rw [isZero]; exact .zero⟩
    · cases success
      refine ⟨?_, .digits isLead fun c member => List.mem_takeWhile_imp member⟩
      rw [List.cons_append, List.takeWhile_append_dropWhile]

theorem scanInteger_complete {int r : Bytes} (integer : IsInteger int) (ends : NoDigit r) :
    scanInteger (int ++ r) = some (int, r) := by
  cases integer with
  | zero => simp [scanInteger]
  | @digits b rest isLead digits =>
    have notZero : b ≠ 0x30 := by
      rintro rfl
      exact absurd isLead (by decide)
    obtain ⟨taken, dropped⟩ := takeWhile_digits digits ends
    simp [scanInteger, notZero, isLead, taken, dropped]

theorem scanFraction_sound {s frac r : Bytes} (success : scanFraction s = some (frac, r)) :
    s = frac ++ r ∧ IsFraction frac := by
  cases s with
  | nil => cases success; exact ⟨rfl, .none⟩
  | cons b rest =>
    simp only [scanFraction] at success
    split_ifs at success with isDot
    · obtain ⟨⟨ds, r'⟩, scanned, same⟩ := Option.map_eq_some_iff.mp success
      cases same
      obtain ⟨rfl, digits⟩ := scanDigits_sound scanned
      exact ⟨rfl, by rw [isDot]; exact .digits digits⟩
    · cases success
      exact ⟨rfl, .none⟩

theorem scanFraction_complete {frac r : Bytes} (fraction : IsFraction frac) (ends : NoDigit r)
    (noDot : ∀ b s, r = b :: s → b ≠ 0x2E) : scanFraction (frac ++ r) = some (frac, r) := by
  cases fraction with
  | none =>
    cases r with
    | nil => rfl
    | cons b rest => simp [scanFraction, noDot b rest rfl]
  | digits digits => simp [scanFraction, scanDigits_complete digits ends]

theorem scanExponent_sound {s exp r : Bytes} (success : scanExponent s = some (exp, r)) :
    s = exp ++ r ∧ IsExponent exp := by
  cases s with
  | nil => cases success; exact ⟨rfl, .none⟩
  | cons b rest =>
    simp only [scanExponent] at success
    split_ifs at success with isMark
    · cases rest with
      | nil => cases success
      | cons c after =>
        simp only at success
        split_ifs at success with signed
        · obtain ⟨⟨ds, r'⟩, scanned, same⟩ := Option.map_eq_some_iff.mp success
          cases same
          obtain ⟨rfl, digits⟩ := scanDigits_sound scanned
          exact ⟨rfl, .signed isMark signed digits⟩
        · obtain ⟨⟨ds, r'⟩, scanned, same⟩ := Option.map_eq_some_iff.mp success
          cases same
          obtain ⟨whole, digits⟩ := scanDigits_sound scanned
          exact ⟨by rw [whole]; rfl, .plain isMark digits⟩
    · cases success
      exact ⟨rfl, .none⟩

theorem isSign_of_isDigit {b : UInt8} (digit : isDigit b = true) : isSign b = false := by
  simp only [isDigit, between, Bool.and_eq_true, decide_eq_true_eq] at digit
  have notPlus : b ≠ 0x2B := by rintro rfl; exact absurd digit (by decide)
  have notMinus : b ≠ 0x2D := by rintro rfl; exact absurd digit (by decide)
  simp [isSign, notPlus, notMinus]

theorem scanExponent_complete {exp r : Bytes} (exponent : IsExponent exp) (ends : Ends r) :
    scanExponent (exp ++ r) = some (exp, r) := by
  have noDigit : NoDigit r := fun b s split => (ends b s split).1
  cases exponent with
  | none =>
    cases r with
    | nil => rfl
    | cons b rest => simp [scanExponent, (ends b rest rfl).2.2]
  | @plain e ds isMark digits =>
    cases ds with
    | nil => exact absurd rfl digits.1
    | cons d ds =>
      have notSign := isSign_of_isDigit (digits.2 d (List.mem_cons_self ..))
      have scanned := scanDigits_complete digits noDigit
      simp only [List.cons_append] at scanned
      simp [scanExponent, isMark, notSign, scanned]
  | signed isMark signed digits =>
    simp [scanExponent, isMark, signed, scanDigits_complete digits noDigit]

theorem head_of_exponent {exp r : Bytes} (exponent : IsExponent exp) (ends : Ends r) :
    ∀ b s, exp ++ r = b :: s → isDigit b = false ∧ b ≠ 0x2E := by
  intro b s split
  have mark : ∀ e, isExponentMark e = true → isDigit e = false ∧ e ≠ 0x2E := by
    intro e isMark
    simp only [isExponentMark, Bool.or_eq_true, beq_iff_eq] at isMark
    rcases isMark with rfl | rfl <;> decide
  cases exponent with
  | none => exact ⟨(ends b s split).1, (ends b s split).2.1⟩
  | plain isMark _ | signed isMark _ _ => cases split; exact mark _ isMark

theorem head_of_fraction {frac r : Bytes} (fraction : IsFraction frac) (ends : NoDigit r) :
    NoDigit (frac ++ r) := by
  intro b s split
  cases fraction with
  | none => exact ends b s split
  | digits _ => cases split; decide

theorem scanUnsigned_sound {s digits r : Bytes} (success : scanUnsigned s = some (digits, r)) :
    s = digits ++ r ∧ IsUnsigned digits := by
  simp only [scanUnsigned, Option.bind_eq_bind, Option.bind_eq_some_iff] at success
  obtain ⟨⟨int, s₁⟩, first, ⟨frac, s₂⟩, second, ⟨exp, s₃⟩, third, same⟩ := success
  cases same
  obtain ⟨rfl, integer⟩ := scanInteger_sound first
  obtain ⟨rfl, fraction⟩ := scanFraction_sound second
  obtain ⟨rfl, exponent⟩ := scanExponent_sound third
  exact ⟨by simp, int, frac, exp, rfl, integer, fraction, exponent⟩

theorem scanUnsigned_complete {digits r : Bytes} (number : IsUnsigned digits) (ends : Ends r) :
    scanUnsigned (digits ++ r) = some (digits, r) := by
  obtain ⟨int, frac, exp, rfl, integer, fraction, exponent⟩ := number
  have head := head_of_exponent exponent ends
  have noDigit : NoDigit (exp ++ r) := fun b s split => (head b s split).1
  have first := scanInteger_complete integer (head_of_fraction fraction noDigit)
  have second := scanFraction_complete fraction noDigit fun b s split => (head b s split).2
  have third := scanExponent_complete exponent ends
  simp [scanUnsigned, first, second, third]

theorem head_of_unsigned {digits : Bytes} (number : IsUnsigned digits) :
    ∃ b s, digits = b :: s ∧ isDigit b = true := by
  obtain ⟨int, frac, exp, rfl, integer, _, _⟩ := number
  cases integer with
  | zero => exact ⟨_, _, rfl, by decide⟩
  | @digits b rest isLead _ =>
    refine ⟨_, _, rfl, ?_⟩
    simp only [between, isDigit, Bool.and_eq_true, decide_eq_true_eq] at isLead ⊢
    exact ⟨le_trans (by decide) isLead.1, isLead.2⟩

theorem scanNumber_sound {s digits r : Bytes} (success : scanNumber s = some (digits, r)) :
    s = digits ++ r ∧ IsNumber digits := by
  cases s with
  | nil => cases success
  | cons b rest =>
    simp only [scanNumber] at success
    split_ifs at success with isMinus
    · obtain ⟨⟨inner, r'⟩, scanned, same⟩ := Option.map_eq_some_iff.mp success
      cases same
      obtain ⟨rfl, number⟩ := scanUnsigned_sound scanned
      exact ⟨rfl, by rw [isMinus]; exact .negative number⟩
    · obtain ⟨whole, number⟩ := scanUnsigned_sound success
      exact ⟨whole, .unsigned number⟩

theorem scanNumber_complete {digits r : Bytes} (number : IsNumber digits) (ends : Ends r) :
    scanNumber (digits ++ r) = some (digits, r) := by
  cases number with
  | unsigned number =>
    have scanned := scanUnsigned_complete number ends
    obtain ⟨b, s, rfl, digit⟩ := head_of_unsigned number
    have notMinus : b ≠ 0x2D := by
      rintro rfl
      exact absurd digit (by decide)
    simpa [scanNumber, notMinus] using scanned
  | negative number => simp [scanNumber, scanUnsigned_complete number ends]

/-! ## Scalars -/

def scalarOf : Json .value → Option Scalar
  | .null => some .null
  | .bool b => some (.bool b)
  | .num digits _ => some (.num digits)
  | .str content _ => some (.str content)
  | .box _ => none

theorem scanLiteral_sound {literal s r : Bytes} (success : scanLiteral literal s = some r) :
    s = literal ++ r := by
  unfold scanLiteral at success
  exact (List.isPrefixOf?_eq_some_iff_append_eq.mp success).symm

theorem scanLiteral_complete (literal r : Bytes) : scanLiteral literal (literal ++ r) = some r :=
  List.isPrefixOf?_eq_some_iff_append_eq.mpr rfl

theorem readScalar_sound {s r : Bytes} {x : Scalar} (success : readScalar s = some (x, r)) :
    ∃ t : Json .value, s = t.text ++ r ∧ scalarOf t = some x := by
  cases s with
  | nil => cases success
  | cons b rest =>
    simp only [readScalar] at success
    split_ifs at success with isQuote isNull isTrue isFalse
    · obtain ⟨⟨c, r'⟩, scanned, same⟩ := Option.map_eq_some_iff.mp success
      cases same
      obtain ⟨rfl, valid⟩ := scanString_sound rest .plain c _ scanned
      exact ⟨.str c valid, by rw [isQuote]; simp [Json.text], rfl⟩
    · obtain ⟨r', scanned, same⟩ := Option.map_eq_some_iff.mp success
      cases same
      exact ⟨.null, scanLiteral_sound scanned, rfl⟩
    · obtain ⟨r', scanned, same⟩ := Option.map_eq_some_iff.mp success
      cases same
      exact ⟨.bool true, scanLiteral_sound scanned, rfl⟩
    · obtain ⟨r', scanned, same⟩ := Option.map_eq_some_iff.mp success
      cases same
      exact ⟨.bool false, scanLiteral_sound scanned, rfl⟩
    · obtain ⟨⟨digits, r'⟩, scanned, same⟩ := Option.map_eq_some_iff.mp success
      cases same
      obtain ⟨whole, number⟩ := scanNumber_sound scanned
      exact ⟨.num digits number, whole, rfl⟩

theorem head_of_number {digits : Bytes} (number : IsNumber digits) :
    ∃ b s, digits = b :: s ∧ (b = 0x2D ∨ isDigit b = true) := by
  cases number with
  | unsigned number =>
    obtain ⟨b, s, rfl, digit⟩ := head_of_unsigned number
    exact ⟨b, s, rfl, Or.inr digit⟩
  | negative number => exact ⟨_, _, rfl, Or.inl rfl⟩

theorem readScalar_complete {t : Json .value} {x : Scalar} (scalar : scalarOf t = some x)
    {r : Bytes} (ends : Ends r) : readScalar (t.text ++ r) = some (x, r) := by
  cases t with
  | box body => cases scalar
  | null =>
    cases scalar
    have read := scanLiteral_complete (ascii "null") r
    exact congrArg (Option.map fun r => (Scalar.null, r)) read
  | bool b =>
    cases scalar
    cases b with
    | false =>
      have read := scanLiteral_complete (ascii "false") r
      exact congrArg (Option.map fun r => (Scalar.bool false, r)) read
    | true =>
      have read := scanLiteral_complete (ascii "true") r
      exact congrArg (Option.map fun r => (Scalar.bool true, r)) read
  | str content valid =>
    cases scalar
    simp [readScalar, Json.text, scanString_complete valid r]
  | num digits valid =>
    cases scalar
    have read := scanNumber_complete valid ends
    obtain ⟨b, s, rfl, lead⟩ := head_of_number valid
    have notMark : b ≠ quoteMark ∧ b ≠ 0x6E ∧ b ≠ 0x74 ∧ b ≠ 0x66 := by
      refine ⟨?_, ?_, ?_, ?_⟩ <;> rintro rfl <;> exact absurd lead (by decide)
    simp only [List.cons_append] at read
    simp [readScalar, Json.text, notMark, read]

end DevHealth.Go

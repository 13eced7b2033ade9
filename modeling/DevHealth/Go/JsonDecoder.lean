import DevHealth.Go.JsonScan
import DevHealth.Go.Strings
import DevHealth.Go.Utf8

/-! # `json.Decoder`, token by token

The decoder keeps what it has not read, the state of the innermost container and
the states of the containers around it.  `Token` passes over white space, commas
and colons, and refuses a token that the state does not allow.  Scalars are read
by the scanner; a number that has no finite double is an error, and so is one container
too many inside of each other. -/
set_option autoImplicit false
namespace DevHealth.Go

open Lib

/-! ## Unquoting -/

def hexValue (b : UInt8) : Nat :=
  if isDigit b then b.toNat - 48 else if between 'a' 'f' b then b.toNat - 87 else b.toNat - 55

/-- `getu4`: the code unit of a `\uXXXX` at the front. -/
def getu4 : Bytes → Option Nat
  | 0x5C :: 0x75 :: a :: b :: c :: d :: _ =>
    if isHex a && isHex b && isHex c && isHex d then
      some (((hexValue a * 16 + hexValue b) * 16 + hexValue c) * 16 + hexValue d)
    else none
  | _ => none

/-- `utf16.DecodeRune`, with `none` for anything but a valid pair. -/
def decodePair (high low : Nat) : Option CodePoint :=
  if 0xD800 ≤ high ∧ high < 0xDC00 ∧ 0xDC00 ≤ low ∧ low < 0xE000 then
    some ((high - 0xD800) * 1024 + (low - 0xDC00) + 0x10000)
  else none

def shortEscape (b : UInt8) : UInt8 :=
  if b = 0x62 then 0x08
  else if b = 0x66 then 0x0C
  else if b = 0x6E then 0x0A
  else if b = 0x72 then 0x0D
  else if b = 0x74 then 0x09
  else b

/-- The loop of `unquoteBytes`; every round takes at least one byte.  Invalid UTF-8
and unpaired surrogates become U+FFFD. -/
def unquoteLoop : Nat → Bytes → Bytes
  | 0, _ => []
  | _, [] => []
  | fuel + 1, b :: rest =>
    if b = backslash then
      match getu4 (b :: rest) with
      | some unit =>
        let after := rest.drop 5
        if isSurrogate unit then
          match (getu4 after).bind (decodePair unit) with
          | some r => encodeRune r ++ unquoteLoop fuel (after.drop 6)
          | none => encodeRune runeError ++ unquoteLoop fuel after
        else encodeRune unit ++ unquoteLoop fuel after
      | none =>
        match rest with
        | [] => []
        | c :: rest => shortEscape c :: unquoteLoop fuel rest
    else if b.toNat < 0x80 then b :: unquoteLoop fuel rest
    else
      let (r, width) := decodeRune (b :: rest)
      encodeRune r ++ unquoteLoop fuel ((b :: rest).drop width)

def unquote (content : Bytes) : Bytes := unquoteLoop content.length content

/-! ## Numbers as doubles -/

/-- The smallest integer that rounds to infinity. -/
def doubleLimit : Nat := 2 ^ 1024 - 2 ^ 970

/-- `strconv.ParseFloat` has a result for the number: its value, mantissa digits
scaled by the exponent, is below the limit. -/
def fitsDouble (digits : Bytes) : Bool :=
  let unsigned := if digits.head? = some 0x2D then digits.drop 1 else digits
  let mantissa := unsigned.takeWhile fun b => !isExponentMark b
  let whole := mantissa.takeWhile isDigit
  let frac := (mantissa.dropWhile isDigit).drop 1
  let exp := (unsigned.dropWhile fun b => !isExponentMark b).drop 1
  let down := exp.head? = some 0x2D
  let power := digitsValue (exp.dropWhile isSign)
  let value := digitsValue (whole ++ frac)
  if down then decide (value < doubleLimit * 10 ^ (frac.length + power))
  else decide (value * 10 ^ power < doubleLimit * 10 ^ frac.length)

/-! ## Tokens -/

inductive TokenState where
  | topValue
  | arrayStart
  | arrayValue
  | arrayComma
  | objectStart
  | objectKey
  | objectColon
  | objectValue
  | objectComma
  deriving DecidableEq, Repr

def TokenState.allowsValue : TokenState → Bool
  | .topValue | .arrayStart | .arrayValue | .objectValue => true
  | _ => false

def TokenState.valueEnd : TokenState → TokenState
  | .arrayStart | .arrayValue => .arrayComma
  | .objectValue => .objectComma
  | state => state

structure Decoder where
  rest : Bytes
  state : TokenState
  stack : List TokenState
  deriving DecidableEq, Repr

inductive Token where
  | opens (box : Box)
  | closes (box : Box)
  | scalar (x : Scalar)
  deriving DecidableEq, Repr

inductive TokenError where
  | eof
  | malformed
  deriving DecidableEq, Repr

def Decoder.start (body : Bytes) : Decoder := ⟨body, .topValue, []⟩

def boxStart : Box → TokenState
  | .array => .arrayStart
  | .object => .objectStart

def boxComma : Box → TokenState
  | .array => .arrayComma
  | .object => .objectComma

/-- How many containers may be open at once. -/
def maxNestingDepth : Nat := 10000

def openBox (box : Box) (state : TokenState) (stack : List TokenState) (s : Bytes) :
    Except TokenError (Token × Decoder) :=
  if state.allowsValue && decide (stack.length < maxNestingDepth) then .ok (.opens box, ⟨s, boxStart box, state :: stack⟩)
  else .error .malformed

def closeBox (box : Box) (state : TokenState) (stack : List TokenState) (s : Bytes) :
    Except TokenError (Token × Decoder) :=
  if state = boxStart box ∨ state = boxComma box then
    match stack with
    | outer :: stack => .ok (.closes box, ⟨s, outer.valueEnd, stack⟩)
    | [] => .error .malformed
  else .error .malformed

/-- A name when the state asks for one, and a scalar value otherwise. -/
def scalarToken (state : TokenState) (stack : List TokenState) (s : Bytes) :
    Except TokenError (Token × Decoder) :=
  match readScalar s with
  | none => .error .malformed
  | some (.str content, r) =>
    if state = .objectStart ∨ state = .objectKey then
      .ok (.scalar (.str content), ⟨r, .objectColon, stack⟩)
    else if state.allowsValue then .ok (.scalar (.str content), ⟨r, state.valueEnd, stack⟩)
    else .error .malformed
  | some (.num digits, r) =>
    if state.allowsValue && fitsDouble digits then
      .ok (.scalar (.num digits), ⟨r, state.valueEnd, stack⟩)
    else .error .malformed
  | some (x, r) =>
    if state.allowsValue then .ok (.scalar x, ⟨r, state.valueEnd, stack⟩)
    else .error .malformed

/-- `Token`, with the loop over white space, colons and commas. -/
def tokenFrom (state : TokenState) (stack : List TokenState) :
    Bytes → Except TokenError (Token × Decoder)
  | [] => .error .eof
  | b :: s =>
    if isSpace b then tokenFrom state stack s
    else if b = 0x5B then openBox .array state stack s
    else if b = 0x5D then closeBox .array state stack s
    else if b = 0x7B then openBox .object state stack s
    else if b = 0x7D then closeBox .object state stack s
    else if b = colon then
      if state = .objectColon then tokenFrom .objectValue stack s else .error .malformed
    else if b = comma then
      if state = .arrayComma then tokenFrom .arrayValue stack s
      else if state = .objectComma then tokenFrom .objectKey stack s
      else .error .malformed
    else scalarToken state stack (b :: s)

attribute [grind =] tokenFrom

def Decoder.token (d : Decoder) : Except TokenError (Token × Decoder) :=
  tokenFrom d.state d.stack d.rest

/-- `More`: something other than a closing bracket is next. -/
def Decoder.more (d : Decoder) : Bool :=
  match skipSpace d.rest with
  | [] => false
  | b :: _ => b != 0x5D && b != 0x7D

/-! ## Reading a token from a text -/

variable {state : TokenState} {stack : List TokenState} {s : Bytes}

theorem tokenFrom_blank {gap : Bytes} (blank : IsBlank gap) :
    tokenFrom state stack (gap ++ s) = tokenFrom state stack s := by
  induction gap with
  | nil => rfl
  | cons b gap ih =>
    have here : isSpace b = true := blank b (List.mem_cons_self ..)
    have rest : IsBlank gap := fun c member => blank c (List.mem_cons_of_mem _ member)
    rw [List.cons_append, tokenFrom, if_pos here]
    exact ih rest

theorem tokenFrom_skipSpace : tokenFrom state stack s = tokenFrom state stack (skipSpace s) := by
  obtain ⟨gap, blank, split⟩ := exists_blank_of_skipSpace s
  conv_lhs => rw [split]
  exact tokenFrom_blank blank

theorem token_open (box : Box) (allowed : state.allowsValue = true) (room : stack.length < maxNestingDepth) :
    tokenFrom state stack (box.opens :: s) = .ok (.opens box, ⟨s, boxStart box, state :: stack⟩) := by
  cases box <;> simp [tokenFrom, Box.opens, isSpace, openBox, allowed, room]

theorem token_close (box : Box) {outer : TokenState} (inside : state = boxStart box ∨ state = boxComma box) :
    tokenFrom state (outer :: stack) (box.closes :: s) = .ok (.closes box, ⟨s, outer.valueEnd, stack⟩) := by
  cases box <;> simp [tokenFrom, Box.closes, isSpace, closeBox, inside]

theorem token_arrayComma : tokenFrom .arrayComma stack (comma :: s) = tokenFrom .arrayValue stack s := by
  simp [tokenFrom, comma, isSpace, colon]

theorem token_objectComma : tokenFrom .objectComma stack (comma :: s) = tokenFrom .objectKey stack s := by
  simp [tokenFrom, comma, isSpace, colon]

theorem token_colon : tokenFrom .objectColon stack (colon :: s) = tokenFrom .objectValue stack s := by
  simp [tokenFrom, isSpace, colon]

/-- The first byte of a scalar is no white space, bracket, comma or colon. -/
def isPunctuation (b : UInt8) : Bool :=
  isSpace b || b == 0x5B || b == 0x5D || b == 0x7B || b == 0x7D || b == colon || b == comma

theorem tokenFrom_scalar {b : UInt8} (solid : isPunctuation b = false) :
    tokenFrom state stack (b :: s) = scalarToken state stack (b :: s) := by
  simp only [isPunctuation, Bool.or_eq_false_iff, beq_eq_false_iff_ne] at solid
  obtain ⟨⟨⟨⟨⟨⟨space, a⟩, b⟩, c⟩, d⟩, e⟩, f⟩ := solid
  simp [tokenFrom, space, a, b, c, d, e, f]

theorem not_punctuation_of_number {b : UInt8} (lead : b = 0x2D ∨ isDigit b = true) :
    isPunctuation b = false := by
  rcases lead with rfl | digit
  · decide
  · rw [Bool.eq_false_iff]
    intro mark
    simp only [isPunctuation, isSpace, Bool.or_eq_true, beq_iff_eq] at mark
    rcases mark with ((((((((rfl | rfl) | rfl) | rfl) | rfl) | rfl) | rfl) | rfl) | rfl) | rfl <;>
      exact absurd digit (by decide)

theorem head_of_scalar {t : Json .value} {x : Scalar} (scalar : scalarOf t = some x) :
    ∃ b s, t.text = b :: s ∧ isPunctuation b = false := by
  cases t with
  | box body => cases scalar
  | null => exact ⟨_, _, rfl, by decide⟩
  | bool b => cases b <;> exact ⟨_, _, rfl, by decide⟩
  | str content valid => exact ⟨_, _, rfl, by decide⟩
  | num digits valid =>
    obtain ⟨b, s, rfl, lead⟩ := head_of_number valid
    exact ⟨b, s, rfl, not_punctuation_of_number lead⟩

def Scalar.fits : Scalar → Bool
  | .num digits => fitsDouble digits
  | _ => true

theorem token_scalar {t : Json .value} {x : Scalar} (scalar : scalarOf t = some x)
    (fits : x.fits = true) (allowed : state.allowsValue = true) {r : Bytes} (ends : Ends r) :
    tokenFrom state stack (t.text ++ r) = .ok (.scalar x, ⟨r, state.valueEnd, stack⟩) := by
  have read := readScalar_complete scalar ends
  obtain ⟨b, s, text, solid⟩ := head_of_scalar scalar
  have notName : ¬(state = .objectStart ∨ state = .objectKey) := by
    rintro (rfl | rfl) <;> cases allowed
  rw [text, List.cons_append] at read ⊢
  rw [tokenFrom_scalar solid, scalarToken, read]
  cases x with
  | str content => simp [notName, allowed]
  | num digits => simp [allowed, show fitsDouble digits = true from fits]
  | null => simp [allowed]
  | bool b => simp [allowed]

theorem token_name {content : Bytes} (valid : IsContent content) {r : Bytes}
    (asked : state = .objectStart ∨ state = .objectKey) :
    tokenFrom state stack (quoteMark :: (content ++ quoteMark :: r)) =
      .ok (.scalar (.str content), ⟨r, .objectColon, stack⟩) := by
  rw [tokenFrom_scalar (by decide), scalarToken, readScalar, if_pos rfl, scanString_complete valid r]
  simp [asked]

/-! ## What a token that was read says of the text -/

variable {tok : Token} {d : Decoder}

theorem tokenFrom_ok (success : tokenFrom state stack s = .ok (tok, d)) :
    ∃ gap b rest, IsBlank gap ∧ s = gap ++ b :: rest ∧ isSpace b = false ∧
      skipSpace s = b :: rest ∧ tokenFrom state stack (b :: rest) = .ok (tok, d) := by
  obtain ⟨gap, blank, split⟩ := exists_blank_of_skipSpace s
  rw [tokenFrom_skipSpace] at success
  cases found : skipSpace s with
  | nil => rw [found] at success; cases success
  | cons b rest =>
    rw [found] at success split
    exact ⟨gap, b, rest, blank, split, skipSpace_head found, rfl, success⟩

inductive ValueToken (state : TokenState) (stack : List TokenState) :
    Bytes → Token → Decoder → Prop
  | opens (box : Box) (s : Bytes) (room : stack.length < maxNestingDepth) :
      ValueToken state stack (box.opens :: s) (.opens box) ⟨s, boxStart box, state :: stack⟩
  | scalar {t : Json .value} {x : Scalar} (scalar : scalarOf t = some x) (fits : x.fits = true)
      (r : Bytes) : ValueToken state stack (t.text ++ r) (.scalar x) ⟨r, state.valueEnd, stack⟩
  | closes (box : Box) (s : Bytes) (d : Decoder)
      (inside : state = boxStart box ∨ state = boxComma box) :
      ValueToken state stack (box.closes :: s) (.closes box) d

theorem openBox_inv {box : Box} (success : openBox box state stack s = .ok (tok, d)) :
    stack.length < maxNestingDepth ∧ tok = .opens box ∧ d = ⟨s, boxStart box, state :: stack⟩ := by
  unfold openBox at success
  split_ifs at success with opens
  rw [Bool.and_eq_true, decide_eq_true_eq] at opens
  cases success
  exact ⟨opens.2, rfl, rfl⟩

theorem closeBox_inv {box : Box} (success : closeBox box state stack s = .ok (tok, d)) :
    tok = .closes box ∧ (state = boxStart box ∨ state = boxComma box) ∧
      ∀ outer stack', stack = outer :: stack' → d = ⟨s, outer.valueEnd, stack'⟩ := by
  unfold closeBox at success
  split at success
  · rename_i inside
    split at success
    · cases success
      refine ⟨rfl, inside, fun outer stack' same => ?_⟩
      cases same
      rfl
    · cases success
  · cases success

theorem scalarToken_value (allowed : state.allowsValue = true)
    (success : scalarToken state stack s = .ok (tok, d)) : ValueToken state stack s tok d := by
  have notName : ¬(state = .objectStart ∨ state = .objectKey) := by
    rintro (rfl | rfl) <;> cases allowed
  unfold scalarToken at success
  cases read : readScalar s with
  | none => rw [read] at success; cases success
  | some pair =>
    obtain ⟨x, r⟩ := pair
    obtain ⟨t, rfl, scalar⟩ := readScalar_sound read
    rw [read] at success
    cases x with
    | num digits =>
      simp only [allowed, Bool.true_and] at success
      split at success <;> cases success
      rename_i fits
      exact .scalar scalar fits r
    | str content =>
      simp only [notName, allowed, if_true, if_false] at success
      cases success
      exact .scalar scalar rfl r
    | null | bool b =>
      simp only [allowed, if_true] at success
      cases success
      exact .scalar scalar rfl r

theorem token_value_inv (allowed : state.allowsValue = true)
    (success : tokenFrom state stack s = .ok (tok, d)) :
    ∃ gap s', IsBlank gap ∧ s = gap ++ s' ∧ skipSpace s = s' ∧
      ValueToken state stack s' tok d := by
  obtain ⟨gap, b, rest, blank, split, solid, found, success⟩ := tokenFrom_ok success
  refine ⟨gap, b :: rest, blank, split, found, ?_⟩
  have notColon : state ≠ .objectColon := by rintro rfl; cases allowed
  have notArrayComma : state ≠ .arrayComma := by rintro rfl; cases allowed
  have notObjectComma : state ≠ .objectComma := by rintro rfl; cases allowed
  simp only [tokenFrom, solid, Bool.false_eq_true, if_false, notColon, notArrayComma,
    notObjectComma] at success
  split_ifs at success with isOpen isClose isBrace isEnd
  · obtain ⟨room, rfl, rfl⟩ := openBox_inv success
    rw [isOpen]
    exact .opens .array rest room
  · obtain ⟨rfl, inside, _⟩ := closeBox_inv success
    rw [isClose]
    exact .closes .array rest d inside
  · obtain ⟨room, rfl, rfl⟩ := openBox_inv success
    rw [isBrace]
    exact .opens .object rest room
  · obtain ⟨rfl, inside, _⟩ := closeBox_inv success
    rw [isEnd]
    exact .closes .object rest d inside
  · exact scalarToken_value allowed success

def Open (s : Bytes) : Prop := ∀ box : Box, ∀ rest, skipSpace s ≠ box.closes :: rest

theorem open_of_more (more : d.more = true) : Open d.rest := by
  intro box rest found
  cases box <;> simp [Decoder.more, found, Box.closes] at more

theorem tokenFrom_closes (box : Box) :
    tokenFrom state stack (box.closes :: s) = closeBox box state stack s := by
  cases box <;> simp [tokenFrom, Box.closes, isSpace]

theorem box_of_state {box other : Box} (here : state = boxStart box ∨ state = boxComma box)
    (there : state = boxStart other ∨ state = boxComma other) : box = other := by
  rcases here with rfl | rfl <;> rcases there with same | same <;> cases box <;> cases other <;>
    first | rfl | cases same

theorem token_close_inv {box : Box} {outer : TokenState} (ended : d.more = false)
    (inside : d.state = boxStart box ∨ d.state = boxComma box) (around : d.stack = outer :: stack)
    {after : Decoder} (success : d.token = .ok (tok, after)) :
    ∃ gap r, IsBlank gap ∧ d.rest = gap ++ box.closes :: r ∧ after = ⟨r, outer.valueEnd, stack⟩ := by
  obtain ⟨gap, b, rest, blank, split, solid, found, success⟩ := tokenFrom_ok success
  have isClose : ∃ other : Box, b = other.closes := by
    by_contra none
    have notBracket : b ≠ 0x5D := fun same => none ⟨.array, same⟩
    have notBrace : b ≠ 0x7D := fun same => none ⟨.object, same⟩
    simp [Decoder.more, found, notBracket, notBrace] at ended
  obtain ⟨other, rfl⟩ := isClose
  rw [tokenFrom_closes] at success
  obtain ⟨_, there, result⟩ := closeBox_inv success
  cases box_of_state inside there
  exact ⟨gap, rest, blank, split, result outer stack around⟩

theorem scalarToken_refused (notName : ¬(state = .objectStart ∨ state = .objectKey))
    (refused : state.allowsValue = false) : scalarToken state stack s ≠ .ok (tok, d) := by
  unfold scalarToken
  split <;> simp [notName, refused]

theorem token_objectColon_inv (success : tokenFrom .objectColon stack s = .ok (tok, d)) :
    ∃ gap s', IsBlank gap ∧ s = gap ++ colon :: s' ∧ tokenFrom .objectValue stack s' = .ok (tok, d) := by
  obtain ⟨gap, b, rest, blank, split, solid, _, success⟩ := tokenFrom_ok success
  simp only [tokenFrom, solid, Bool.false_eq_true, if_false, if_true, reduceCtorEq, openBox,
    closeBox, boxStart, boxComma, or_self, TokenState.allowsValue, Bool.false_and] at success
  split_ifs at success with _ _ _ _ isColon
  · exact ⟨gap, rest, blank, by rw [split, isColon], success⟩
  · exact absurd success (scalarToken_refused (by simp) rfl)

theorem token_comma_inv {box : Box} {after : TokenState}
    (pair : (box = .array ∧ after = .arrayValue) ∨ (box = .object ∧ after = .objectKey))
    (more : Open s) (success : tokenFrom (boxComma box) stack s = .ok (tok, d)) :
    ∃ gap s', IsBlank gap ∧ s = gap ++ comma :: s' ∧ tokenFrom after stack s' = .ok (tok, d) := by
  obtain ⟨gap, b, rest, blank, split, solid, found, success⟩ := tokenFrom_ok success
  have notBracket : b ≠ 0x5D := fun same => more .array rest (by rw [found, same]; rfl)
  have notBrace : b ≠ 0x7D := fun same => more .object rest (by rw [found, same]; rfl)
  have separator : b = comma ∧ tokenFrom after stack rest = .ok (tok, d) := by
    rcases pair with ⟨rfl, rfl⟩ | ⟨rfl, rfl⟩ <;>
      simp only [tokenFrom, solid, Bool.false_eq_true, if_false, if_true, notBracket, notBrace,
        boxComma, reduceCtorEq, openBox, TokenState.allowsValue, Bool.false_and] at success <;>
      split_ifs at success with _ _ _ isComma
    · exact ⟨isComma, success⟩
    · exact absurd success (scalarToken_refused (by simp) rfl)
    · exact ⟨isComma, success⟩
    · exact absurd success (scalarToken_refused (by simp) rfl)
  exact ⟨gap, rest, blank, by rw [split, separator.1], separator.2⟩

theorem scalarToken_name (asked : state = .objectStart ∨ state = .objectKey)
    (success : scalarToken state stack s = .ok (tok, d)) :
    ∃ content r, IsContent content ∧ s = quoteMark :: (content ++ quoteMark :: r) ∧
      tok = .scalar (.str content) ∧ d = ⟨r, .objectColon, stack⟩ := by
  have refused : state.allowsValue = false := by rcases asked with rfl | rfl <;> rfl
  unfold scalarToken at success
  cases read : readScalar s with
  | none => rw [read] at success; cases success
  | some pair =>
    obtain ⟨x, r⟩ := pair
    obtain ⟨t, rfl, scalar⟩ := readScalar_sound read
    rw [read] at success
    cases t with
    | str content valid =>
      cases scalar
      simp only [asked, if_true] at success
      cases success
      exact ⟨content, r, valid, by simp [Json.text], rfl, rfl⟩
    | null | bool b | num digits valid => cases scalar; simp [refused] at success
    | box body => cases scalar

theorem token_name_inv {x : Scalar} (asked : state = .objectStart ∨ state = .objectKey)
    (success : tokenFrom state stack s = .ok (.scalar x, d)) :
    ∃ gap content r, IsBlank gap ∧ IsContent content ∧ s = gap ++ quoteMark :: (content ++ quoteMark :: r) ∧
      x = .str content ∧ d = ⟨r, .objectColon, stack⟩ := by
  obtain ⟨gap, b, rest, blank, split, solid, found, success⟩ := tokenFrom_ok success
  have refused : state.allowsValue = false := by rcases asked with rfl | rfl <;> rfl
  have notColon : state ≠ .objectColon := by rcases asked with rfl | rfl <;> simp
  have notArrayComma : state ≠ .arrayComma := by rcases asked with rfl | rfl <;> simp
  have notObjectComma : state ≠ .objectComma := by rcases asked with rfl | rfl <;> simp
  simp only [tokenFrom, solid, Bool.false_eq_true, if_false, openBox, refused, Bool.false_and,
    notColon, notArrayComma, notObjectComma] at success
  split_ifs at success
  · cases (closeBox_inv success).1
  · cases (closeBox_inv success).1
  · obtain ⟨content, r, valid, text, same, rfl⟩ := scalarToken_name asked success
    cases same
    exact ⟨gap, content, r, blank, valid, by rw [split, text], rfl, rfl⟩

theorem openBox_ne_eof {box : Box} : openBox box state stack s ≠ .error .eof := by
  unfold openBox
  split <;> simp

theorem scalarToken_ne_eof : scalarToken state stack s ≠ .error .eof := by
  unfold scalarToken
  split
  · simp
  · split_ifs <;> simp
  · split_ifs <;> simp
  · split_ifs <;> simp

/-- Between two values at the top level, the end of the text is all that follows
when only white space is left. -/
theorem token_eof_iff : tokenFrom .topValue stack s = .error .eof ↔ IsBlank s := by
  constructor
  · intro ended
    induction s with
    | nil =>
      intro b member
      cases member
    | cons b s ih =>
      by_cases space : isSpace b = true
      · rw [tokenFrom, if_pos space] at ended
        intro c member
        rcases List.mem_cons.mp member with rfl | member
        · exact space
        · exact ih ended c member
      · exfalso
        simp only [tokenFrom, space, Bool.false_eq_true, reduceCtorEq, if_false, closeBox,
          boxStart, boxComma, or_self] at ended
        split_ifs at ended <;>
          first | exact scalarToken_ne_eof ended | exact openBox_ne_eof ended | cases ended
  · intro blank
    have read : tokenFrom .topValue stack (s ++ []) = tokenFrom .topValue stack [] := tokenFrom_blank blank
    rw [List.append_nil] at read
    exact read

end DevHealth.Go

import DevHealth.Go.Utf8

/-! # `strconv.Quote`

A double-quoted Go literal of any byte sequence: runes that print stand for
themselves, the quote and the backslash are escaped, invalid bytes are written in
hexadecimal.  Which runes print is a table of the Unicode version in use, so it is
an argument.  Whatever the table says, a quoted text can be read back. -/
set_option autoImplicit false
namespace DevHealth.Go

def hexDigit (n : Nat) : UInt8 := UInt8.ofNat (if n < 10 then 48 + n else 87 + n)

/-- The last `width` hexadecimal digits of `n`, most significant first. -/
def hexDigits : Nat → Nat → Bytes
  | 0, _ => []
  | width + 1, n => hexDigits width (n / 16) ++ [hexDigit (n % 16)]

def appendEscapedRune (isPrint : CodePoint → Bool) (r : CodePoint) : Bytes :=
  if r = 0x22 ∨ r = 0x5C then [0x5C, UInt8.ofNat r]
  else if isPrint r then encodeRune r
  else if r = 0x07 then ascii "\\a"
  else if r = 0x08 then ascii "\\b"
  else if r = 0x0C then ascii "\\f"
  else if r = 0x0A then ascii "\\n"
  else if r = 0x0D then ascii "\\r"
  else if r = 0x09 then ascii "\\t"
  else if r = 0x0B then ascii "\\v"
  else if r < 0x20 ∨ r = 0x7F then ascii "\\x" ++ hexDigits 2 r
  else if r < 0x10000 then ascii "\\u" ++ hexDigits 4 r
  else ascii "\\U" ++ hexDigits 8 r

/-- The loop of `appendQuotedWith`; every round takes at least one byte. -/
def quoteBody (isPrint : CodePoint → Bool) : Nat → Bytes → Bytes
  | 0, _ => []
  | _, [] => []
  | fuel + 1, b :: rest =>
    let (r, width) := decodeRune (b :: rest)
    (if width = 1 ∧ r = runeError then ascii "\\x" ++ hexDigits 2 b.toNat
      else appendEscapedRune isPrint r) ++
      quoteBody isPrint fuel ((b :: rest).drop width)

def quote (isPrint : CodePoint → Bool) (s : Bytes) : Bytes :=
  ascii "\"" ++ quoteBody isPrint s.length s ++ ascii "\""

/-! ## Reading back -/

/-- What one round of the loop writes: a byte that is not UTF-8, or a rune. -/
inductive Piece where
  | invalid (b : UInt8)
  | rune (r : Nat)
  deriving DecidableEq, Repr

def Piece.bytes : Piece → Bytes
  | .invalid b => [b]
  | .rune r => encodeRune r

def Piece.quoted (isPrint : CodePoint → Bool) : Piece → Bytes
  | .invalid b => ascii "\\x" ++ hexDigits 2 b.toNat
  | .rune r => appendEscapedRune isPrint r

def Piece.Valid : Piece → Prop
  | .invalid b => 0x80 ≤ b.toNat
  | .rune r => ValidRune r

def unhexDigit (b : UInt8) : Nat := if b.toNat < 58 then b.toNat - 48 else b.toNat - 87

def unhex (digits : Bytes) : Nat := digits.foldl (fun n b => n * 16 + unhexDigit b) 0

theorem unhexDigit_hexDigit {n : Nat} (small : n < 16) : unhexDigit (hexDigit n) = n := by
  have each : ∀ i : Fin 16, unhexDigit (hexDigit i.val) = i.val := by decide
  exact each ⟨n, small⟩

theorem length_hexDigits (width n : Nat) : (hexDigits width n).length = width := by
  induction width generalizing n with
  | zero => rfl
  | succ width ih => simp [hexDigits, ih]

theorem unhex_hexDigits {width n : Nat} (small : n < 16 ^ width) : unhex (hexDigits width n) = n := by
  induction width generalizing n with
  | zero =>
    rw [Nat.pow_zero, Nat.lt_one_iff] at small
    rw [small]
    rfl
  | succ width ih =>
    have high : n / 16 < 16 ^ width := by
      rw [Nat.pow_succ] at small
      exact Nat.div_lt_of_lt_mul (by omega)
    have rest := ih high
    rw [unhex] at rest
    rw [unhex, hexDigits, List.foldl_append, rest]
    simp only [List.foldl_cons, List.foldl_nil, unhexDigit_hexDigit (Nat.mod_lt n (by decide : 16 > 0))]
    omega

def readEscape : Bytes → Option (Piece × Bytes)
  | [] => none
  | b :: rest =>
    if b = 0x22 then some (.rune 0x22, rest)
    else if b = 0x5C then some (.rune 0x5C, rest)
    else if b = 0x61 then some (.rune 0x07, rest)
    else if b = 0x62 then some (.rune 0x08, rest)
    else if b = 0x66 then some (.rune 0x0C, rest)
    else if b = 0x6E then some (.rune 0x0A, rest)
    else if b = 0x72 then some (.rune 0x0D, rest)
    else if b = 0x74 then some (.rune 0x09, rest)
    else if b = 0x76 then some (.rune 0x0B, rest)
    else if b = 0x78 then
      let n := unhex (rest.take 2)
      some (if n < 0x80 then .rune n else .invalid (UInt8.ofNat n), rest.drop 2)
    else if b = 0x75 then some (.rune (unhex (rest.take 4)), rest.drop 4)
    else if b = 0x55 then some (.rune (unhex (rest.take 8)), rest.drop 8)
    else none

def readPiece : Bytes → Option (Piece × Bytes)
  | [] => none
  | b :: rest =>
    if b = 0x5C then readEscape rest
    else some (.rune (decodeRune (b :: rest)).1, (b :: rest).drop (decodeRune (b :: rest)).2)

theorem take_hexDigits (width n : Nat) (x : Bytes) :
    (hexDigits width n ++ x).take width = hexDigits width n ∧ (hexDigits width n ++ x).drop width = x := by
  have length := length_hexDigits width n
  exact ⟨List.take_left' length, List.drop_left' length⟩

theorem readPiece_invalid {b : UInt8} (large : 0x80 ≤ b.toNat) (x : Bytes) :
    readPiece (ascii "\\x" ++ hexDigits 2 b.toNat ++ x) = some (.invalid b, x) := by
  have byte := b.toNat_lt
  obtain ⟨digits, after⟩ := take_hexDigits 2 b.toNat x
  have value : unhex (hexDigits 2 b.toNat) = b.toNat := unhex_hexDigits (by omega)
  have notAscii : ¬b.toNat < 0x80 := by omega
  show readEscape (0x78 :: (hexDigits 2 b.toNat ++ x)) = _
  simp [readEscape, digits, after, value, notAscii]

theorem encodeRune_head {r : Nat} (valid : ValidRune r) :
    ∃ b tail, encodeRune r = b :: tail ∧ (b.toNat = r ∨ 0x80 ≤ b.toNat) := by
  obtain ⟨bound, plain⟩ := valid
  by_cases one : r < 0x80
  · exact ⟨_, _, encodeRune_ascii one, Or.inl (toNat_ofNat_small (by omega))⟩
  by_cases two : r < 0x800
  · refine ⟨_, _, encodeRune_two (by omega) two, Or.inr ?_⟩
    rw [toNat_ofNat_small (by omega)]
    omega
  by_cases three : r < 0x10000
  · refine ⟨_, _, encodeRune_three (by omega) three plain, Or.inr ?_⟩
    rw [toNat_ofNat_small (by omega)]
    omega
  · refine ⟨_, _, encodeRune_four (by omega) bound, Or.inr ?_⟩
    rw [toNat_ofNat_small (by omega)]
    omega

theorem encodeRune_plain_head {r : Nat} (valid : ValidRune r) (plain : ¬(r = 0x22 ∨ r = 0x5C)) :
    ∃ b tail, encodeRune r = b :: tail ∧ b ≠ 0x22 ∧ b ≠ 0x5C := by
  obtain ⟨b, tail, sequence, head⟩ := encodeRune_head valid
  refine ⟨b, tail, sequence, ?_, ?_⟩
  · rintro rfl
    rcases head with same | large
    · exact plain (Or.inl same.symm)
    · exact absurd large (by decide)
  · rintro rfl
    rcases head with same | large
    · exact plain (Or.inr same.symm)
    · exact absurd large (by decide)

theorem appendEscapedRune_cases (isPrint : CodePoint → Bool) {r : Nat} (valid : ValidRune r) :
    ¬(r = 0x22 ∨ r = 0x5C) ∧ appendEscapedRune isPrint r = encodeRune r ∨
      ∃ escape, appendEscapedRune isPrint r = 0x5C :: escape ∧
        ∀ x, readEscape (escape ++ x) = some (.rune r, x) := by
  have bound : r ≤ 0x10FFFF := valid.1
  unfold appendEscapedRune
  by_cases special : r = 0x22 ∨ r = 0x5C
  · right
    rw [if_pos special]
    rcases special with rfl | rfl
    · exact ⟨[0x22], rfl, fun _ => rfl⟩
    · exact ⟨[0x5C], rfl, fun _ => rfl⟩
  rw [if_neg special]
  by_cases prints : isPrint r = true
  · left
    rw [if_pos prints]
    exact ⟨special, rfl⟩
  right
  rw [if_neg prints]
  by_cases bell : r = 0x07
  · rw [if_pos bell, bell]
    exact ⟨[0x61], by decide, fun _ => rfl⟩
  rw [if_neg bell]
  by_cases back : r = 0x08
  · rw [if_pos back, back]
    exact ⟨[0x62], by decide, fun _ => rfl⟩
  rw [if_neg back]
  by_cases form : r = 0x0C
  · rw [if_pos form, form]
    exact ⟨[0x66], by decide, fun _ => rfl⟩
  rw [if_neg form]
  by_cases line : r = 0x0A
  · rw [if_pos line, line]
    exact ⟨[0x6E], by decide, fun _ => rfl⟩
  rw [if_neg line]
  by_cases carriage : r = 0x0D
  · rw [if_pos carriage, carriage]
    exact ⟨[0x72], by decide, fun _ => rfl⟩
  rw [if_neg carriage]
  by_cases tab : r = 0x09
  · rw [if_pos tab, tab]
    exact ⟨[0x74], by decide, fun _ => rfl⟩
  rw [if_neg tab]
  by_cases vertical : r = 0x0B
  · rw [if_pos vertical, vertical]
    exact ⟨[0x76], by decide, fun _ => rfl⟩
  rw [if_neg vertical]
  by_cases control : r < 0x20 ∨ r = 0x7F
  · rw [if_pos control]
    refine ⟨0x78 :: hexDigits 2 r, rfl, ?_⟩
    intro x
    have small : r < 0x80 := by omega
    have value : unhex (hexDigits 2 r) = r := unhex_hexDigits (by omega)
    obtain ⟨digits, after⟩ := take_hexDigits 2 r x
    simp [readEscape, digits, after, value, small]
  rw [if_neg control]
  by_cases short : r < 0x10000
  · rw [if_pos short]
    refine ⟨0x75 :: hexDigits 4 r, rfl, ?_⟩
    intro x
    have value : unhex (hexDigits 4 r) = r := unhex_hexDigits short
    obtain ⟨digits, after⟩ := take_hexDigits 4 r x
    simp [readEscape, digits, after, value]
  · rw [if_neg short]
    refine ⟨0x55 :: hexDigits 8 r, rfl, ?_⟩
    intro x
    have value : unhex (hexDigits 8 r) = r := unhex_hexDigits (by omega)
    obtain ⟨digits, after⟩ := take_hexDigits 8 r x
    simp [readEscape, digits, after, value]

theorem readPiece_rune (isPrint : CodePoint → Bool) {r : Nat} (valid : ValidRune r) (x : Bytes) :
    readPiece (appendEscapedRune isPrint r ++ x) = some (.rune r, x) := by
  rcases appendEscapedRune_cases isPrint valid with ⟨special, written⟩ | ⟨escape, written, reads⟩
  · obtain ⟨b, tail, sequence, -, notBackslash⟩ := encodeRune_plain_head valid special
    have read := decodeRune_encode valid x
    have after : (encodeRune r ++ x).drop (encodeRune r).length = x := List.drop_left
    rw [written]
    rw [sequence, List.cons_append] at read after ⊢
    simp only [readPiece, notBackslash, if_false, read, after]
  · rw [written]
    exact reads x

theorem readPiece_quoted (isPrint : CodePoint → Bool) {piece : Piece} (valid : piece.Valid)
    (x : Bytes) : readPiece (piece.quoted isPrint ++ x) = some (piece, x) := by
  cases piece with
  | invalid b => exact readPiece_invalid valid x
  | rune r => exact readPiece_rune isPrint valid x

theorem quoted_head (isPrint : CodePoint → Bool) {piece : Piece} (valid : piece.Valid) :
    ∃ b tail, piece.quoted isPrint = b :: tail ∧ b ≠ 0x22 := by
  cases piece with
  | invalid b => exact ⟨0x5C, _, rfl, by decide⟩
  | rune r =>
    have valid : ValidRune r := valid
    rcases appendEscapedRune_cases isPrint valid with ⟨special, written⟩ | ⟨escape, written, -⟩
    · obtain ⟨b, tail, sequence, notQuote, -⟩ := encodeRune_plain_head valid special
      exact ⟨b, tail, written.trans sequence, notQuote⟩
    · exact ⟨0x5C, escape, written, by decide⟩

theorem quoteBody_step (isPrint : CodePoint → Bool) (fuel : Nat) (b : UInt8) (rest : Bytes) :
    ∃ (piece : Piece) (after : Bytes), piece.Valid ∧ b :: rest = piece.bytes ++ after ∧
      after.length ≤ rest.length ∧
      quoteBody isPrint (fuel + 1) (b :: rest) = piece.quoted isPrint ++ quoteBody isPrint fuel after := by
  rcases decodeRune_read b rest with ⟨read, large⟩ | ⟨valid, width, after, text⟩
  · refine ⟨.invalid b, rest, large, rfl, Nat.le_refl _, ?_⟩
    simp [quoteBody, read, Piece.quoted]
  · have nonzero := (decodeRune_width b rest).1
    have isRune : ¬((decodeRune (b :: rest)).2 = 1 ∧ (decodeRune (b :: rest)).1 = runeError) := by
      rintro ⟨one, isError⟩
      rw [isError] at width
      rw [one] at width
      exact absurd width (by decide)
    have dropped : (b :: rest).drop (decodeRune (b :: rest)).2 = after := by
      calc (b :: rest).drop (decodeRune (b :: rest)).2 = (encodeRune (decodeRune (b :: rest)).1 ++ after).drop
              (encodeRune (decodeRune (b :: rest)).1).length := by rw [← text, ← width]
        _ = after := List.drop_left
    refine ⟨.rune (decodeRune (b :: rest)).1, after, valid, text, ?_, ?_⟩
    · rw [← dropped, List.length_drop, List.length_cons]
      omega
    · simp [quoteBody, isRune, dropped, Piece.quoted]

theorem quoteBody_closed (isPrint : CodePoint → Bool) {fuel : Nat} {s x x' : Bytes}
    (enough : s.length ≤ fuel) (same : 0x22 :: x = quoteBody isPrint fuel s ++ 0x22 :: x') :
    s = [] ∧ x = x' := by
  cases s with
  | nil =>
    have empty : quoteBody isPrint fuel [] = [] := by cases fuel <;> rfl
    rw [empty] at same
    exact ⟨rfl, (List.cons.inj same).2⟩
  | cons b rest =>
    cases fuel with
    | zero => exact absurd enough (Nat.not_succ_le_zero _)
    | succ fuel =>
      obtain ⟨piece, after, valid, -, -, written⟩ := quoteBody_step isPrint fuel b rest
      obtain ⟨c, tail, head, notQuote⟩ := quoted_head isPrint valid
      rw [written, head] at same
      exact absurd (List.cons.inj same).1.symm notQuote

theorem quoteBody_injective (isPrint : CodePoint → Bool) :
    ∀ (fuel fuel' : Nat) (s s' x x' : Bytes), s.length ≤ fuel → s'.length ≤ fuel' →
      quoteBody isPrint fuel s ++ 0x22 :: x = quoteBody isPrint fuel' s' ++ 0x22 :: x' →
      s = s' ∧ x = x' := by
  intro fuel
  induction fuel with
  | zero =>
    intro fuel' s s' x x' enough enough' same
    obtain ⟨rfl, rfl⟩ := quoteBody_closed isPrint enough' same
    have nothing : s = [] := List.length_eq_zero_iff.mp (Nat.le_zero.mp enough)
    exact ⟨nothing, rfl⟩
  | succ fuel ih =>
    intro fuel' s s' x x' enough enough' same
    cases s with
    | nil =>
      obtain ⟨rfl, rfl⟩ := quoteBody_closed isPrint enough' same
      exact ⟨rfl, rfl⟩
    | cons b rest =>
      cases s' with
      | nil =>
        have empty : quoteBody isPrint fuel' [] = [] := by cases fuel' <;> rfl
        rw [empty] at same
        exact absurd (quoteBody_closed isPrint enough same.symm).1 (List.cons_ne_nil _ _)
      | cons b' rest' =>
        cases fuel' with
        | zero => exact absurd enough' (Nat.not_succ_le_zero _)
        | succ fuel' =>
          obtain ⟨piece, after, valid, text, shorter, written⟩ := quoteBody_step isPrint fuel b rest
          obtain ⟨piece', after', valid', text', shorter', written'⟩ := quoteBody_step isPrint fuel' b' rest'
          rw [written, written', List.append_assoc, List.append_assoc] at same
          have read := readPiece_quoted isPrint valid (quoteBody isPrint fuel after ++ 0x22 :: x)
          rw [same, readPiece_quoted isPrint valid'] at read
          simp only [Option.some.injEq, Prod.mk.injEq] at read
          obtain ⟨rfl, following⟩ := read
          simp only [List.length_cons] at enough enough'
          obtain ⟨rfl, rfl⟩ := ih fuel' after after' x x' (by omega) (by omega) following.symm
          rw [text, text']
          exact ⟨rfl, rfl⟩

/-- A quoted text at the front of two equal texts is the same, and so is what follows. -/
theorem quote_append_injective {isPrint : CodePoint → Bool} {s s' x x' : Bytes}
    (same : quote isPrint s ++ x = quote isPrint s' ++ x') : s = s' ∧ x = x' := by
  have shape : ∀ s x : Bytes, quote isPrint s ++ x =
      0x22 :: (quoteBody isPrint s.length s ++ 0x22 :: x) := by
    intro s x
    have mark : ascii "\"" = [0x22] := by decide
    rw [quote, mark]
    simp
  rw [shape, shape] at same
  exact quoteBody_injective isPrint s.length s'.length s s' x x' (Nat.le_refl _) (Nat.le_refl _)
    (List.cons.inj same).2

end DevHealth.Go

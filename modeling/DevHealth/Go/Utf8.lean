import DevHealth.Go.Bytes

/-! # UTF-8 as package `unicode/utf8` reads and writes it

`decodeRune` reads one rune from the front of a byte sequence and says how many
bytes it took; an invalid start or continuation is `runeError` of width one.
`encodeRune` writes a rune, and writes `runeError` for a surrogate or a value out
of range. -/
set_option autoImplicit false
namespace DevHealth.Go

abbrev CodePoint := Nat

def runeError : CodePoint := 0xFFFD

def isSurrogate (r : CodePoint) : Bool := decide (0xD800 ≤ r) && decide (r < 0xE000)

/-- The accepted range of the second byte of a sequence that starts with `lead`,
and the length of the sequence; `none` for a byte that starts none. -/
def leadInfo (lead : Nat) : Option (Nat × Nat × Nat) :=
  if 0xC2 ≤ lead ∧ lead ≤ 0xDF then some (2, 0x80, 0xBF)
  else if lead = 0xE0 then some (3, 0xA0, 0xBF)
  else if lead = 0xED then some (3, 0x80, 0x9F)
  else if 0xE1 ≤ lead ∧ lead ≤ 0xEF then some (3, 0x80, 0xBF)
  else if lead = 0xF0 then some (4, 0x90, 0xBF)
  else if lead = 0xF4 then some (4, 0x80, 0x8F)
  else if 0xF1 ≤ lead ∧ lead ≤ 0xF3 then some (4, 0x80, 0xBF)
  else none

def isContinuation (b : UInt8) : Bool := decide (0x80 ≤ b.toNat) && decide (b.toNat ≤ 0xBF)

def decodeRune : Bytes → CodePoint × Nat
  | [] => (runeError, 0)
  | b0 :: rest =>
    if b0.toNat < 0x80 then (b0.toNat, 1)
    else
      match leadInfo b0.toNat, rest with
      | some (2, low, high), b1 :: _ =>
        if low ≤ b1.toNat ∧ b1.toNat ≤ high then
          (b0.toNat % 32 * 64 + b1.toNat % 64, 2)
        else (runeError, 1)
      | some (3, low, high), b1 :: b2 :: _ =>
        if low ≤ b1.toNat ∧ b1.toNat ≤ high ∧ isContinuation b2 then
          (b0.toNat % 16 * 4096 + b1.toNat % 64 * 64 + b2.toNat % 64, 3)
        else (runeError, 1)
      | some (4, low, high), b1 :: b2 :: b3 :: _ =>
        if low ≤ b1.toNat ∧ b1.toNat ≤ high ∧ isContinuation b2 ∧ isContinuation b3 then
          (b0.toNat % 8 * 262144 + b1.toNat % 64 * 4096 + b2.toNat % 64 * 64 +
            b3.toNat % 64, 4)
        else (runeError, 1)
      | _, _ => (runeError, 1)

def encodeRune (r : CodePoint) : Bytes :=
  if r < 0x80 then [UInt8.ofNat r]
  else if r < 0x800 then [UInt8.ofNat (0xC0 + r / 64), UInt8.ofNat (0x80 + r % 64)]
  else if isSurrogate r ∨ 0x10FFFF < r then [0xEF, 0xBF, 0xBD]
  else if r < 0x10000 then
    [UInt8.ofNat (0xE0 + r / 4096), UInt8.ofNat (0x80 + r / 64 % 64), UInt8.ofNat (0x80 + r % 64)]
  else
    [UInt8.ofNat (0xF0 + r / 262144), UInt8.ofNat (0x80 + r / 4096 % 64),
      UInt8.ofNat (0x80 + r / 64 % 64), UInt8.ofNat (0x80 + r % 64)]

theorem decodeRune_width (b : UInt8) (rest : Bytes) :
    0 < (decodeRune (b :: rest)).2 ∧ (decodeRune (b :: rest)).2 ≤ (b :: rest).length := by
  simp only [decodeRune]
  split
  · simp
  · split <;> first | (split <;> simp) | simp

/-! ## The runes of a string -/

/-- Every rune takes at least one byte, so the length of the text is fuel enough. -/
def runesLoop : Nat → Bytes → List CodePoint
  | 0, _ => []
  | _, [] => []
  | fuel + 1, b :: rest =>
    (decodeRune (b :: rest)).1 :: runesLoop fuel ((b :: rest).drop (decodeRune (b :: rest)).2)

def runes (s : Bytes) : List CodePoint := runesLoop s.length s

def isASCII (b : UInt8) : Bool := decide (b.toNat < 0x80)

theorem runes_ascii {s : Bytes} (ascii : ∀ b ∈ s, isASCII b = true) : runes s = s.map UInt8.toNat := by
  unfold runes
  induction s with
  | nil => rfl
  | cons b s ih =>
    have small : b.toNat < 0x80 := by simpa [isASCII] using ascii b (List.mem_cons_self ..)
    have read : decodeRune (b :: s) = (b.toNat, 1) := by simp [decodeRune, small]
    rw [List.length_cons, runesLoop, read]
    simp [ih fun c inside => ascii c (List.mem_cons_of_mem _ inside)]

theorem decodeRune_large {b : UInt8} {rest : Bytes} (large : 0x80 ≤ b.toNat) :
    (0x80 : Nat) ≤ (decodeRune (b :: rest)).1 := by
  have notSmall : ¬b.toNat < 0x80 := by omega
  simp only [decodeRune, notSmall, if_false]
  split
  · rename_i low high b1 tail info
    unfold leadInfo at info
    split_ifs at info <;> cases info
    split_ifs <;> simp only [runeError] <;> omega
  · rename_i low high b1 b2 tail info
    unfold leadInfo at info
    split_ifs at info <;> cases info <;> split_ifs <;> simp only [runeError] <;> omega
  · rename_i low high b1 b2 b3 tail info
    unfold leadInfo at info
    split_ifs at info <;> cases info <;> split_ifs <;> simp only [runeError] <;> omega
  · decide

theorem runes_all_ascii {p : CodePoint → Bool} (ascii : ∀ r : Nat, p r = true → r < 0x80) (s : Bytes) :
    (runes s).all p = s.all fun b => p b.toNat := by
  unfold runes
  induction s with
  | nil => rfl
  | cons b s ih =>
    rw [List.length_cons, runesLoop, List.all_cons, List.all_cons]
    by_cases small : b.toNat < 0x80
    · have read : decodeRune (b :: s) = (b.toNat, 1) := by simp [decodeRune, small]
      rw [read, List.drop_one, List.tail_cons, ih]
    · have fails : ∀ r : Nat, 0x80 ≤ r → p r = false := by
        intro r large
        rw [Bool.eq_false_iff]
        exact fun holds => absurd (ascii r holds) (by omega)
      rw [fails _ (decodeRune_large (by omega)), fails b.toNat (by omega)]
      rfl

/-! ## Reading and writing are inverse -/

/-- A code point that UTF-8 has a sequence for. -/
def ValidRune (r : Nat) : Prop := r ≤ 0x10FFFF ∧ isSurrogate r = false

theorem ofNat_of_toNat {n : Nat} {b : UInt8} (same : n = b.toNat) : UInt8.ofNat n = b := by
  rw [same, UInt8.ofNat_toNat]

theorem toNat_ofNat_small {n : Nat} (small : n < 256) : (UInt8.ofNat n).toNat = n := by
  rw [UInt8.toNat_ofNat']
  exact Nat.mod_eq_of_lt small

variable {r : Nat} {tail : Bytes}

theorem isSurrogate_false (apart : r < 0xD800 ∨ 0xE000 ≤ r) : isSurrogate r = false := by
  rcases apart with below | above
  · have fails : ¬0xD800 ≤ r := by omega
    rw [isSurrogate, decide_eq_false fails, Bool.false_and]
  · have fails : ¬r < 0xE000 := by omega
    rw [isSurrogate, decide_eq_false fails, Bool.and_false]

theorem apart_of_isSurrogate (plain : isSurrogate r = false) : r < 0xD800 ∨ 0xE000 ≤ r := by
  by_contra inside
  have low : 0xD800 ≤ r := by omega
  have high : r < 0xE000 := by omega
  rw [isSurrogate, decide_eq_true low, decide_eq_true high] at plain
  cases plain

theorem encodeRune_ascii (small : r < 0x80) : encodeRune r = [UInt8.ofNat r] := by
  rw [encodeRune, if_pos small]

theorem encodeRune_two (low : 0x80 ≤ r) (high : r < 0x800) :
    encodeRune r = [UInt8.ofNat (0xC0 + r / 64), UInt8.ofNat (0x80 + r % 64)] := by
  have notOne : ¬r < 0x80 := by omega
  rw [encodeRune, if_neg notOne, if_pos high]

theorem encodeRune_three (low : 0x800 ≤ r) (high : r < 0x10000) (valid : isSurrogate r = false) :
    encodeRune r = [UInt8.ofNat (0xE0 + r / 4096), UInt8.ofNat (0x80 + r / 64 % 64),
      UInt8.ofNat (0x80 + r % 64)] := by
  have notOne : ¬r < 0x80 := by omega
  have notTwo : ¬r < 0x800 := by omega
  have inRange : ¬(isSurrogate r = true ∨ 0x10FFFF < r) := by
    rw [valid]
    simp only [Bool.false_eq_true, false_or]
    omega
  rw [encodeRune, if_neg notOne, if_neg notTwo, if_neg inRange, if_pos high]

theorem encodeRune_four (low : 0x10000 ≤ r) (high : r ≤ 0x10FFFF) :
    encodeRune r = [UInt8.ofNat (0xF0 + r / 262144), UInt8.ofNat (0x80 + r / 4096 % 64),
      UInt8.ofNat (0x80 + r / 64 % 64), UInt8.ofNat (0x80 + r % 64)] := by
  have notOne : ¬r < 0x80 := by omega
  have notTwo : ¬r < 0x800 := by omega
  have notThree : ¬r < 0x10000 := by omega
  have plain : isSurrogate r = false := isSurrogate_false (Or.inr (by omega))
  have inRange : ¬(isSurrogate r = true ∨ 0x10FFFF < r) := by
    rw [plain]
    simp only [Bool.false_eq_true, false_or]
    omega
  rw [encodeRune, if_neg notOne, if_neg notTwo, if_neg inRange, if_neg notThree]

theorem isContinuation_tail (n : Nat) : isContinuation (UInt8.ofNat (0x80 + n % 64)) = true := by
  simp only [isContinuation, toNat_ofNat_small (show 0x80 + n % 64 < 256 by omega),
    Bool.and_eq_true, decide_eq_true_eq]
  omega

theorem decodeRune_encode (valid : ValidRune r) (x : Bytes) :
    decodeRune (encodeRune r ++ x) = (r, (encodeRune r).length) := by
  obtain ⟨bound, plain⟩ := valid
  have apart := apart_of_isSurrogate plain
  by_cases one : r < 0x80
  · rw [encodeRune_ascii one]
    have byte := toNat_ofNat_small (n := r) (by omega)
    simp [decodeRune, byte, one]
  by_cases two : r < 0x800
  · rw [encodeRune_two (by omega) two]
    have first := toNat_ofNat_small (n := 0xC0 + r / 64) (by omega)
    have second := toNat_ofNat_small (n := 0x80 + r % 64) (by omega)
    have lead : leadInfo (0xC0 + r / 64) = some (2, 0x80, 0xBF) := by
      rw [leadInfo, if_pos (by omega)]
    have notAscii : ¬(0xC0 + r / 64 < 0x80) := by omega
    simp only [List.cons_append, List.nil_append, decodeRune, first, second, notAscii, if_false, lead]
    have value : (0xC0 + r / 64) % 32 * 64 + (0x80 + r % 64) % 64 = r := by omega
    rw [if_pos (by omega), value]
    rfl
  by_cases three : r < 0x10000
  · rw [encodeRune_three (by omega) three plain]
    have first := toNat_ofNat_small (n := 0xE0 + r / 4096) (by omega)
    have second := toNat_ofNat_small (n := 0x80 + r / 64 % 64) (by omega)
    have third := toNat_ofNat_small (n := 0x80 + r % 64) (by omega)
    have notAscii : ¬(0xE0 + r / 4096 < 0x80) := by omega
    have lead : ∃ low high, leadInfo (0xE0 + r / 4096) = some (3, low, high) ∧
        low ≤ 0x80 + r / 64 % 64 ∧ 0x80 + r / 64 % 64 ≤ high := by
      rw [leadInfo, if_neg (by omega)]
      by_cases zero : 0xE0 + r / 4096 = 0xE0
      · rw [if_pos zero]
        exact ⟨_, _, rfl, by omega, by omega⟩
      · rw [if_neg zero]
        by_cases surrogates : 0xE0 + r / 4096 = 0xED
        · rw [if_pos surrogates]
          exact ⟨_, _, rfl, by omega, by omega⟩
        · rw [if_neg surrogates, if_pos (by omega)]
          exact ⟨_, _, rfl, by omega, by omega⟩
    obtain ⟨low, high, info, lowBound, highBound⟩ := lead
    simp only [List.cons_append, List.nil_append, decodeRune, first, second, third, notAscii, if_false,
      info, isContinuation_tail]
    have value : (0xE0 + r / 4096) % 16 * 4096 + (0x80 + r / 64 % 64) % 64 * 64 +
        (0x80 + r % 64) % 64 = r := by omega
    rw [if_pos ⟨lowBound, highBound, trivial⟩, value]
    rfl
  · rw [encodeRune_four (by omega) bound]
    have first := toNat_ofNat_small (n := 0xF0 + r / 262144) (by omega)
    have second := toNat_ofNat_small (n := 0x80 + r / 4096 % 64) (by omega)
    have third := toNat_ofNat_small (n := 0x80 + r / 64 % 64) (by omega)
    have fourth := toNat_ofNat_small (n := 0x80 + r % 64) (by omega)
    have notAscii : ¬(0xF0 + r / 262144 < 0x80) := by omega
    have lead : ∃ low high, leadInfo (0xF0 + r / 262144) = some (4, low, high) ∧
        low ≤ 0x80 + r / 4096 % 64 ∧ 0x80 + r / 4096 % 64 ≤ high := by
      rw [leadInfo, if_neg (by omega), if_neg (by omega), if_neg (by omega), if_neg (by omega)]
      by_cases zero : 0xF0 + r / 262144 = 0xF0
      · rw [if_pos zero]
        exact ⟨_, _, rfl, by omega, by omega⟩
      · rw [if_neg zero]
        by_cases last : 0xF0 + r / 262144 = 0xF4
        · rw [if_pos last]
          exact ⟨_, _, rfl, by omega, by omega⟩
        · rw [if_neg last, if_pos (by omega)]
          exact ⟨_, _, rfl, by omega, by omega⟩
    obtain ⟨low, high, info, lowBound, highBound⟩ := lead
    simp only [List.cons_append, List.nil_append, decodeRune, first, second, third, fourth, notAscii,
      if_false, info, isContinuation_tail]
    have value : (0xF0 + r / 262144) % 8 * 262144 + (0x80 + r / 4096 % 64) % 64 * 4096 +
        (0x80 + r / 64 % 64) % 64 * 64 + (0x80 + r % 64) % 64 = r := by omega
    rw [if_pos ⟨lowBound, highBound, trivial, trivial⟩, value]
    rfl

/-- The read of a rune: it is valid and its sequence starts the text. -/
def ReadsRune (s : Bytes) (r : Nat) (width : Nat) : Prop :=
  ValidRune r ∧ width = (encodeRune r).length ∧ ∃ after, s = encodeRune r ++ after

theorem readsRune_of (sequence : Bytes) (bound : r ≤ 0x10FFFF) (plain : isSurrogate r = false)
    (encoded : encodeRune r = sequence) :
    ReadsRune (sequence ++ tail) r sequence.length :=
  ⟨⟨bound, plain⟩, by rw [encoded], tail, by rw [encoded]⟩

theorem readsRune_two {b b1 : UInt8} {low high : Nat}
    (info : leadInfo b.toNat = some (2, low, high)) (accepted : low ≤ b1.toNat ∧ b1.toNat ≤ high) :
    ReadsRune (b :: b1 :: tail) (b.toNat % 32 * 64 + b1.toNat % 64) 2 := by
  have lead : 0xC2 ≤ b.toNat ∧ b.toNat ≤ 0xDF ∧ low = 0x80 ∧ high = 0xBF := by
    unfold leadInfo at info
    split_ifs at info <;> cases info
    omega
  refine readsRune_of [b, b1] (by omega) (isSurrogate_false (Or.inl (by omega))) ?_
  rw [encodeRune_two (by omega) (by omega), ofNat_of_toNat (b := b) (by omega),
    ofNat_of_toNat (b := b1) (by omega)]

theorem readsRune_three {b b1 b2 : UInt8} {low high : Nat} (info : leadInfo b.toNat = some (3, low, high))
    (accepted : low ≤ b1.toNat ∧ b1.toNat ≤ high ∧ isContinuation b2 = true) :
    ReadsRune (b :: b1 :: b2 :: tail) (b.toNat % 16 * 4096 + b1.toNat % 64 * 64 + b2.toNat % 64) 3 := by
  simp only [isContinuation, Bool.and_eq_true, decide_eq_true_eq] at accepted
  have lead : 0xE0 ≤ b.toNat ∧ b.toNat ≤ 0xEF ∧ 0x80 ≤ low ∧ high ≤ 0xBF ∧
      (b.toNat = 0xE0 → 0xA0 ≤ low) ∧ (b.toNat = 0xED → high ≤ 0x9F) := by
    unfold leadInfo at info
    split_ifs at info <;> cases info <;> omega
  have plain : isSurrogate (b.toNat % 16 * 4096 + b1.toNat % 64 * 64 + b2.toNat % 64) = false :=
    isSurrogate_false (by omega)
  refine readsRune_of [b, b1, b2] (by omega) plain ?_
  rw [encodeRune_three (by omega) (by omega) plain, ofNat_of_toNat (b := b) (by omega),
    ofNat_of_toNat (b := b1) (by omega), ofNat_of_toNat (b := b2) (by omega)]

theorem readsRune_four {b b1 b2 b3 : UInt8} {low high : Nat} (info : leadInfo b.toNat = some (4, low, high))
    (accepted : low ≤ b1.toNat ∧ b1.toNat ≤ high ∧ isContinuation b2 = true ∧ isContinuation b3 = true) :
    ReadsRune (b :: b1 :: b2 :: b3 :: tail)
      (b.toNat % 8 * 262144 + b1.toNat % 64 * 4096 + b2.toNat % 64 * 64 + b3.toNat % 64) 4 := by
  simp only [isContinuation, Bool.and_eq_true, decide_eq_true_eq] at accepted
  have lead : 0xF0 ≤ b.toNat ∧ b.toNat ≤ 0xF4 ∧ 0x80 ≤ low ∧ high ≤ 0xBF ∧
      (b.toNat = 0xF0 → 0x90 ≤ low) ∧ (b.toNat = 0xF4 → high ≤ 0x8F) := by
    unfold leadInfo at info
    split_ifs at info <;> cases info <;> omega
  refine readsRune_of [b, b1, b2, b3] (by omega) (isSurrogate_false (Or.inr (by omega))) ?_
  rw [encodeRune_four (by omega) (by omega), ofNat_of_toNat (b := b) (by omega),
    ofNat_of_toNat (b := b1) (by omega), ofNat_of_toNat (b := b2) (by omega),
    ofNat_of_toNat (b := b3) (by omega)]

/-- What is read is an invalid byte, or the sequence of a rune. -/
theorem decodeRune_read (b : UInt8) (rest : Bytes) :
    decodeRune (b :: rest) = (runeError, 1) ∧ 0x80 ≤ b.toNat ∨
      ReadsRune (b :: rest) (decodeRune (b :: rest)).1 (decodeRune (b :: rest)).2 := by
  by_cases one : b.toNat < 0x80
  · right
    simp only [decodeRune, one, if_true]
    refine readsRune_of [b] (by omega) (isSurrogate_false (Or.inl (by omega))) ?_
    rw [encodeRune_ascii one, UInt8.ofNat_toNat]
  have refused : (runeError, 1) = (runeError, 1) ∧ 0x80 ≤ b.toNat := ⟨rfl, by omega⟩
  simp only [decodeRune, one, if_false]
  split
  · rename_i info
    split
    · exact Or.inr (readsRune_two info (by assumption))
    · exact Or.inl refused
  · rename_i info
    split
    · exact Or.inr (readsRune_three info (by assumption))
    · exact Or.inl refused
  · rename_i info
    split
    · exact Or.inr (readsRune_four info (by assumption))
    · exact Or.inl refused
  · exact Or.inl refused

end DevHealth.Go

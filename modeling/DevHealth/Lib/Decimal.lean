import DevHealth.Go.Strings
import Mathlib.Data.List.Induction
import Mathlib.Data.Rat.Lemmas
import Mathlib.Algebra.Order.Field.Rat
import Mathlib.Algebra.Field.Rat
import Mathlib.Tactic.FieldSimp
import Mathlib.Tactic.Ring

/-! # Decimal numerals

The number that a JSON number text denotes: a sign, the digits of both sides of the point
and a power of ten.  Nothing is rounded.  Whether it is an integer shows in the digits that
the exponent leaves behind the point. -/
set_option autoImplicit false
namespace DevHealth.Lib

open Go

def isPoint (b : UInt8) : Bool := b == 0x2E

structure Decimal where
  negative : Bool
  whole : Bytes
  fraction : Bytes
  exponent : Int
  deriving DecidableEq, Repr

def exponentValue : Bytes → Int
  | [] => 0
  | b :: ds =>
    if b = 0x2D then -(digitsValue ds : Int)
    else if b = 0x2B then digitsValue ds
    else digitsValue (b :: ds)

def unsignedText (text : Bytes) : Bytes := if text.head? = some 0x2D then text.drop 1 else text

def decimalOf (text : Bytes) : Decimal :=
  let unsigned := unsignedText text
  let mantissa := unsigned.takeWhile fun b => !isExponentMark b
  { negative := text.head? = some 0x2D
    whole := mantissa.takeWhile fun b => !isPoint b
    fraction := (mantissa.dropWhile fun b => !isPoint b).drop 1
    exponent := exponentValue ((unsigned.dropWhile fun b => !isExponentMark b).drop 1) }

def Decimal.digits (d : Decimal) : Bytes := d.whole ++ d.fraction

/-- How many digits the exponent leaves behind the point. -/
def Decimal.places (d : Decimal) : Int := (d.fraction.length : Int) - d.exponent

def Decimal.value (d : Decimal) : ℚ :=
  (if d.negative then -1 else 1) * ((digitsValue d.digits : ℚ) * (10 : ℚ) ^ (-d.places))

def numberValue (text : Bytes) : ℚ := (decimalOf text).value

/-! ## Digits -/

def isZeroDigit (b : UInt8) : Bool := b == 0x30

theorem digitsValue_append (a b : Bytes) :
    digitsValue (a ++ b) = digitsValue a * 10 ^ b.length + digitsValue b := by
  induction b using List.reverseRecOn with
  | nil => simp [digitsValue]
  | append_singleton b x ih =>
    have last (s : Bytes) : digitsValue (s ++ [x]) = digitsValue s * 10 + (x.toNat - 48) := by
      simp [digitsValue, List.foldl_append]
    rw [← List.append_assoc, last, last, ih, List.length_append, List.length_singleton, Nat.pow_succ]
    ring

theorem digitsValue_lt {ds : Bytes} (digits : ∀ b ∈ ds, isDigit b = true) :
    digitsValue ds < 10 ^ ds.length := by
  induction ds using List.reverseRecOn with
  | nil => simp [digitsValue]
  | append_singleton ds x ih =>
    have before := ih fun b inside => digits b (List.mem_append_left _ inside)
    have last : x.toNat - 48 < 10 := by
      have digit := digits x (by simp)
      simp only [isDigit, between, Bool.and_eq_true, decide_eq_true_eq] at digit
      have nine : '9'.toNat = 57 := rfl
      omega
    rw [digitsValue_append, List.length_append, List.length_singleton, Nat.pow_succ]
    have single : digitsValue [x] = x.toNat - 48 := by simp [digitsValue]
    rw [single]
    omega

theorem digitsValue_eq_zero {ds : Bytes} (digits : ∀ b ∈ ds, isDigit b = true) :
    digitsValue ds = 0 ↔ ds.all isZeroDigit = true := by
  induction ds using List.reverseRecOn with
  | nil => simp [digitsValue]
  | append_singleton ds x ih =>
    have before := ih fun b inside => digits b (List.mem_append_left _ inside)
    have digit := digits x (by simp)
    simp only [isDigit, between, Bool.and_eq_true, decide_eq_true_eq] at digit
    have zero : '0'.toNat = 48 := rfl
    have single : digitsValue [x] = x.toNat - 48 := by simp [digitsValue]
    have last : x.toNat - 48 = 0 ↔ isZeroDigit x = true := by
      rw [isZeroDigit, beq_iff_eq, ← UInt8.toNat_inj]
      have value : (0x30 : UInt8).toNat = 48 := rfl
      omega
    rw [digitsValue_append, single, List.length_singleton, List.all_append, Bool.and_eq_true,
      ← before, List.all_cons, List.all_nil, Bool.and_true, ← last]
    omega

/-- A power of ten divides a numeral exactly when its last digits are zeros. -/
theorem pow_dvd_digitsValue {ds : Bytes} (digits : ∀ b ∈ ds, isDigit b = true) (n : Nat) :
    10 ^ n ∣ digitsValue ds ↔ (ds.drop (ds.length - n)).all isZeroDigit = true := by
  have lastDigits : ∀ b ∈ ds.drop (ds.length - n), isDigit b = true :=
    fun b inside => digits b (List.mem_of_mem_drop inside)
  have small := digitsValue_lt lastDigits
  rw [← digitsValue_eq_zero lastDigits]
  by_cases long : ds.length ≤ n
  · have all : ds.drop (ds.length - n) = ds := by
      rw [Nat.sub_eq_zero_of_le long, List.drop_zero]
    rw [all] at small ⊢
    constructor
    · intro divides
      apply Nat.eq_zero_of_dvd_of_lt divides
      exact small.trans_le (Nat.pow_le_pow_right (by decide) long)
    · intro zero
      rw [zero]
      exact Nat.dvd_zero _
  · have count : (ds.drop (ds.length - n)).length = n := by
      rw [List.length_drop]
      omega
    have split : digitsValue ds = digitsValue (ds.take (ds.length - n)) * 10 ^ n +
          digitsValue (ds.drop (ds.length - n)) := by
      have whole := digitsValue_append (ds.take (ds.length - n)) (ds.drop (ds.length - n))
      rwa [List.take_append_drop, count] at whole
    rw [count] at small
    rw [split, Nat.dvd_add_right (Dvd.intro_left _ rfl)]
    constructor
    · intro divides
      exact Nat.eq_zero_of_dvd_of_lt divides small
    · intro zero
      rw [zero]
      exact Nat.dvd_zero _

/-! ## Writing a natural number -/

def digitByte (d : Nat) : UInt8 := UInt8.ofNat (48 + d)

def decimalDigits : Nat → Nat → Bytes
  | 0, _ => []
  | fuel + 1, n =>
    if n < 10 then [digitByte n] else decimalDigits fuel (n / 10) ++ [digitByte (n % 10)]

def decimal (n : Nat) : Bytes := decimalDigits (n + 1) n

theorem decimalDigits_fuel (n : Nat) : ∀ fuel, n < fuel → decimalDigits fuel n = decimal n := by
  induction n using Nat.strongRecOn with
  | ind n ih =>
    intro fuel enough
    obtain ⟨fuel, rfl⟩ := Nat.exists_eq_succ_of_ne_zero (Nat.ne_of_gt (Nat.zero_lt_of_lt enough))
    rw [decimal, decimalDigits, decimalDigits]
    by_cases small : n < 10
    · rw [if_pos small, if_pos small]
    · rw [if_neg small, if_neg small, ih (n / 10) (by omega) fuel (by omega),
        ih (n / 10) (by omega) n (by omega)]

theorem decimal_step (n : Nat) :
    decimal n = if n < 10 then [digitByte n] else decimal (n / 10) ++ [digitByte (n % 10)] := by
  rw [decimal, decimalDigits]
  by_cases small : n < 10
  · rw [if_pos small, if_pos small]
  · rw [if_neg small, if_neg small, decimalDigits_fuel (n / 10) n (by omega)]

theorem digitByte_digit {b : UInt8} (digit : isDigit b = true) : digitByte (b.toNat - 48) = b := by
  simp only [isDigit, between, Bool.and_eq_true, decide_eq_true_eq] at digit
  have zero : '0'.toNat = 48 := rfl
  have back : 48 + (b.toNat - 48) = b.toNat := by omega
  rw [digitByte, back, UInt8.ofNat_toNat]

theorem decimal_digitsValue {ds : Bytes} (digits : ∀ b ∈ ds, isDigit b = true)
    (canonical : ds = [0x30] ∨ ∃ b ∈ ds.head?, b ≠ 0x30) : decimal (digitsValue ds) = ds := by
  induction ds using List.reverseRecOn with
  | nil =>
    rcases canonical with absent | ⟨b, absent, -⟩
    · cases absent
    · cases absent
  | append_singleton ds x ih =>
    have last := digits x (by simp)
    have lastSmall : x.toNat - 48 < 10 := by
      simp only [isDigit, between, Bool.and_eq_true, decide_eq_true_eq] at last
      have nine : '9'.toNat = 57 := rfl
      omega
    have value : digitsValue (ds ++ [x]) = digitsValue ds * 10 + (x.toNat - 48) := by
      simp [digitsValue, List.foldl_append]
    cases ds with
    | nil =>
      rw [value, decimal_step]
      simp only [digitsValue, List.foldl_nil, Nat.zero_mul, Nat.zero_add, if_pos lastSmall,
        List.nil_append, digitByte_digit last]
    | cons b ds =>
      have leading : b ≠ 0x30 := by
        rcases canonical with absent | ⟨c, head, nonzero⟩
        · simp at absent
        · cases head
          exact nonzero
      have earlier : ∀ c ∈ b :: ds, isDigit c = true :=
        fun c inside => digits c (List.mem_append_left _ inside)
      have positive : digitsValue (b :: ds) ≠ 0 := by
        intro zero
        have zeros := (digitsValue_eq_zero earlier).mp zero
        simp only [List.all_cons, Bool.and_eq_true, isZeroDigit, beq_iff_eq] at zeros
        exact leading zeros.1
      have rest := ih earlier (Or.inr ⟨b, rfl, leading⟩)
      rw [value, decimal_step, if_neg (by omega)]
      have quotient : (digitsValue (b :: ds) * 10 + (x.toNat - 48)) / 10 = digitsValue (b :: ds) := by omega
      have remainder : (digitsValue (b :: ds) * 10 + (x.toNat - 48)) % 10 = x.toNat - 48 := by
        omega
      rw [quotient, remainder, rest, digitByte_digit last]

theorem digitByte_small {d : Nat} (small : d < 10) :
    isDigit (digitByte d) = true ∧ (digitByte d).toNat - 48 = d := by
  have each : ∀ i : Fin 10, isDigit (digitByte i.val) = true ∧
      (digitByte i.val).toNat - 48 = i.val := by decide
  exact each ⟨d, small⟩

theorem decimal_canonical (n : Nat) : (∀ b ∈ decimal n, isDigit b = true) ∧ digitsValue (decimal n) = n ∧
      (decimal n = [0x30] ∨ ∃ b, (decimal n).head? = some b ∧ b ≠ 0x30) := by
  induction n using Nat.strongRecOn with
  | ind n ih =>
    rw [decimal_step]
    by_cases small : n < 10
    · obtain ⟨digit, value⟩ := digitByte_small small
      rw [if_pos small]
      refine ⟨by simpa using digit, by simpa [digitsValue] using value, ?_⟩
      by_cases zero : n = 0
      · left
        rw [zero]
        rfl
      · right
        refine ⟨digitByte n, rfl, ?_⟩
        intro same
        rw [same] at value
        exact zero value.symm
    · obtain ⟨digits, value, canonical⟩ := ih (n / 10) (by omega)
      obtain ⟨digit, last⟩ := digitByte_small (Nat.mod_lt n (by decide : 10 > 0))
      rw [if_neg small]
      refine ⟨?_, ?_, Or.inr ?_⟩
      · intro b inside
        rcases List.mem_append.mp inside with inside | inside
        · exact digits b inside
        · rw [List.mem_singleton.mp inside]
          exact digit
      · have single : digitsValue [digitByte (n % 10)] = n % 10 := by
          simpa [digitsValue] using last
        rw [digitsValue_append, value, single, List.length_singleton]
        omega
      · rcases canonical with zero | ⟨b, head, nonzero⟩
        · rw [zero] at value
          have none : n / 10 = 0 := value.symm
          omega
        · refine ⟨b, ?_, nonzero⟩
          rw [List.head?_append, head]
          rfl

/-! ## Integers -/

def IsWhole (q : ℚ) : Prop := q.den = 1

instance (q : ℚ) : Decidable (IsWhole q) := inferInstanceAs (Decidable (q.den = 1))

theorem isWhole_iff {q : ℚ} : IsWhole q ↔ ∃ n : ℤ, q = n := by
  constructor
  · intro whole
    exact ⟨q.num, (Rat.den_eq_one_iff q).mp whole |>.symm⟩
  · rintro ⟨n, rfl⟩
    exact Rat.den_intCast n

theorem isWhole_neg {q : ℚ} : IsWhole (-q) ↔ IsWhole q := by
  rw [IsWhole, IsWhole, Rat.neg_den]

theorem isWhole_scaled (m : Nat) (places : Int) :
    IsWhole ((m : ℚ) * (10 : ℚ) ^ (-places)) ↔ 10 ^ places.toNat ∣ m := by
  rw [isWhole_iff]
  obtain ⟨n, rfl | rfl⟩ := Int.eq_nat_or_neg places
  · rw [zpow_neg, zpow_natCast, Int.toNat_natCast]
    have nonzero : (10 : ℚ) ^ n ≠ 0 := pow_ne_zero n (by decide)
    constructor
    · rintro ⟨k, same⟩
      have product : (m : ℚ) = k * 10 ^ n := by
        rw [← same, mul_assoc, inv_mul_cancel₀ nonzero, mul_one]
      have integers : (m : ℤ) = k * 10 ^ n := by exact_mod_cast product
      exact Int.natCast_dvd_natCast.mp ⟨k, by rw [integers]; push_cast; ring⟩
    · rintro ⟨k, rfl⟩
      refine ⟨k, ?_⟩
      push_cast
      rw [mul_comm ((10 : ℚ) ^ n) k, mul_assoc, mul_inv_cancel₀ nonzero, mul_one]
  · have none : (-(n : ℤ)).toNat = 0 := by omega
    rw [neg_neg, zpow_natCast, none, Nat.pow_zero]
    refine ⟨fun _ => one_dvd m, fun _ => ⟨(m : ℤ) * 10 ^ n, by push_cast; rfl⟩⟩

/-- A numeral denotes an integer exactly when the digits that stay behind the point are
zeros. -/
theorem Decimal.isWhole_value (d : Decimal) (digits : ∀ b ∈ d.digits, isDigit b = true) :
    IsWhole d.value ↔ (d.digits.drop (d.digits.length - d.places.toNat)).all isZeroDigit = true := by
  rw [← pow_dvd_digitsValue digits, ← isWhole_scaled, Decimal.value]
  cases d.negative with
  | false => rw [if_neg Bool.false_ne_true, one_mul]
  | true => rw [if_pos rfl, neg_one_mul, isWhole_neg]

/-! ## The parts of a number text -/

def exponentText (text : Bytes) : Bytes :=
  (unsignedText text).dropWhile fun b => !isExponentMark b

theorem digit_no_mark {b : UInt8} (digit : isDigit b = true) :
    isExponentMark b = false ∧ isPoint b = false ∧ b ≠ 0x2D ∧ b ≠ 0x2B := by
  refine ⟨?_, ?_, ?_, ?_⟩
  · apply Bool.eq_false_iff.mpr
    intro mark
    rcases Bool.or_eq_true_iff.mp mark with same | same
    · rw [beq_iff_eq.mp same] at digit
      cases digit
    · rw [beq_iff_eq.mp same] at digit
      cases digit
  · apply Bool.eq_false_iff.mpr
    intro point
    rw [beq_iff_eq.mp point] at digit
    cases digit
  · rintro rfl
    cases digit
  · rintro rfl
    cases digit

theorem integer_digits {s : Bytes} (integer : IsInteger s) : s ≠ [] ∧ ∀ b ∈ s, isDigit b = true := by
  cases integer with
  | zero => decide +kernel
  | @digits b rest first others =>
    refine ⟨List.cons_ne_nil _ _, ?_⟩
    intro c inside
    rcases List.mem_cons.mp inside with rfl | inside
    · simp only [isDigit, between, Bool.and_eq_true, decide_eq_true_eq] at first ⊢
      have one : '1'.toNat = 49 := rfl
      have zero : '0'.toNat = 48 := rfl
      omega
    · exact others c inside

theorem number_split {text : Bytes} (valid : IsNumber text) :
    ∃ int frac exp, unsignedText text = int ++ (frac ++ exp) ∧ IsInteger int ∧ IsFraction frac ∧
      IsExponent exp := by
  cases valid with
  | negative unsigned => exact unsigned
  | unsigned unsigned =>
    obtain ⟨int, frac, exp, rfl, integer, rest⟩ := unsigned
    refine ⟨int, frac, exp, ?_, integer, rest⟩
    obtain ⟨some_byte, digits⟩ := integer_digits integer
    obtain ⟨b, tail, rfl⟩ := List.exists_cons_of_ne_nil some_byte
    have notMinus := (digit_no_mark (digits b (List.mem_cons_self ..))).2.2.1
    simp [unsignedText, notMinus]

theorem takeWhile_until {p : UInt8 → Bool} {s rest : Bytes} (before : ∀ b ∈ s, p b = true)
    (stops : ∀ b ∈ rest.head?, p b = false) :
    (s ++ rest).takeWhile p = s ∧ (s ++ rest).dropWhile p = rest := by
  induction s with
  | nil =>
    cases rest with
    | nil => exact ⟨rfl, rfl⟩
    | cons b tail =>
      have stop := stops b rfl
      simp [stop]
  | cons b s ih =>
    have here := before b (List.mem_cons_self ..)
    obtain ⟨taken, dropped⟩ := ih fun c inside => before c (List.mem_cons_of_mem _ inside)
    simp [here, taken, dropped]

theorem exponent_head {exp : Bytes} (form : IsExponent exp) : ∀ b ∈ exp.head?, isExponentMark b = true := by
  intro b head
  cases form with
  | none => cases head
  | plain mark _ | signed mark _ _ =>
    cases head
    exact mark

theorem decimalOf_number {text : Bytes} (valid : IsNumber text) :
    (∀ b ∈ (decimalOf text).digits, isDigit b = true) ∧ IsExponent (exponentText text) := by
  obtain ⟨int, frac, exp, split, integer, fraction, exponent⟩ := number_split valid
  have intDigits := (integer_digits integer).2
  have mantissaMarks : ∀ b ∈ int ++ frac, (!isExponentMark b) = true := by
    intro b inside
    rcases List.mem_append.mp inside with inside | inside
    · simp [(digit_no_mark (intDigits b inside)).1]
    · cases fraction with
      | none => cases inside
      | digits ds =>
        rcases List.mem_cons.mp inside with rfl | inside
        · decide
        · simp [(digit_no_mark (ds.2 b inside)).1]
  have expHead : ∀ b ∈ exp.head?, (!isExponentMark b) = false := by
    intro b head
    simp [exponent_head exponent b head]
  obtain ⟨mantissa, power⟩ := takeWhile_until mantissaMarks expHead
  rw [List.append_assoc, ← split] at mantissa power
  have intPoints : ∀ b ∈ int, (!isPoint b) = true := by
    intro b inside
    simp [(digit_no_mark (intDigits b inside)).2.1]
  have fracHead : ∀ b ∈ frac.head?, (!isPoint b) = false := by
    intro b head
    cases fraction with
    | none => cases head
    | digits ds =>
      cases head
      rfl
  obtain ⟨whole, behind⟩ := takeWhile_until intPoints fracHead
  refine ⟨?_, ?_⟩
  · intro b inside
    simp only [Decimal.digits, decimalOf, mantissa, whole, behind] at inside
    rcases List.mem_append.mp inside with inside | inside
    · exact intDigits b inside
    · cases fraction with
      | none => cases inside
      | digits ds => exact ds.2 b inside
  · rw [exponentText, power]
    exact exponent

theorem decimalOf_length (text : Bytes) :
    (decimalOf text).whole.length + (decimalOf text).fraction.length ≤ text.length := by
  set mantissa := (unsignedText text).takeWhile fun b => !isExponentMark b with cut
  have parts : (mantissa.takeWhile fun b => !isPoint b).length +
      (mantissa.dropWhile fun b => !isPoint b).length = mantissa.length := by
    rw [← List.length_append, List.takeWhile_append_dropWhile]
  have short : mantissa.length ≤ (unsignedText text).length := (List.takeWhile_sublist _).length_le
  have unsigned : (unsignedText text).length ≤ text.length := by
    rw [unsignedText]
    split_ifs
    · simp
    · exact le_rfl
  have behind : (decimalOf text).fraction.length ≤ (mantissa.dropWhile fun b => !isPoint b).length := by
    simp [decimalOf, ← cut]
  have whole : (decimalOf text).whole.length = (mantissa.takeWhile fun b => !isPoint b).length := rfl
  omega

def formatInt (n : Int) : Bytes := (if n < 0 then ascii "-" else []) ++ decimal n.natAbs

theorem isInteger_decimal (n : Nat) : IsInteger (decimal n) := by
  obtain ⟨digits, -, canonical⟩ := decimal_canonical n
  rcases canonical with zero | ⟨b, head, nonzero⟩
  · rw [zero]
    exact .zero
  · cases shape : decimal n with
    | nil =>
      rw [shape] at head
      cases head
    | cons c rest =>
      rw [shape] at head digits
      cases head
      refine .digits ?_ fun c inside => digits c (List.mem_cons_of_mem _ inside)
      have digit := digits b (List.mem_cons_self ..)
      have different : b.toNat ≠ 48 := fun same => nonzero (UInt8.toNat_inj.mp same)
      simp only [isDigit, between, Bool.and_eq_true, decide_eq_true_eq] at digit ⊢
      have zero : '0'.toNat = 48 := rfl
      have one : '1'.toNat = 49 := rfl
      exact ⟨by omega, digit.2⟩

theorem isNumber_formatInt (n : Int) : IsNumber (formatInt n) := by
  have unsigned : IsUnsigned (decimal n.natAbs) :=
    ⟨decimal n.natAbs, [], [], by simp, isInteger_decimal _, .none, .none⟩
  rw [formatInt]
  split_ifs
  · exact .negative unsigned
  · exact .unsigned unsigned

end DevHealth.Lib

import DevHealth.Go.Bytes
import DevHealth.Lib.Fallible

/-! # Package `encoding/base64`: the raw URL alphabet

Decoding without padding, as `RawURLEncoding` does it: line breaks are skipped, any
other byte outside the alphabet is refused, and the strict decoder also refuses a last
character whose unused bits are not zero. -/
set_option autoImplicit false
namespace DevHealth.Go

open Lib

def isBase64URL (b : UInt8) : Bool :=
  between 'A' 'Z' b || between 'a' 'z' b || between '0' '9' b || b == 0x2D || b == 0x5F

/-- The six bits that a character of the alphabet stands for. -/
def sextet (b : UInt8) : Option Nat :=
  if between 'A' 'Z' b then some (b.toNat - 65)
  else if between 'a' 'z' b then some (b.toNat - 71)
  else if between '0' '9' b then some (b.toNat + 4)
  else if b = 0x2D then some 62
  else if b = 0x5F then some 63
  else none

/-- Four characters to three bytes; a group of two or three ends the text. -/
def joinSextets (strict : Bool) : List Nat → Option Bytes
  | [] => some []
  | [_] => none
  | [a, b] => if strict && b % 16 != 0 then none else some [UInt8.ofNat (a * 4 + b / 16)]
  | [a, b, c] =>
    if strict && c % 4 != 0 then none
    else some [UInt8.ofNat (a * 4 + b / 16), UInt8.ofNat (b % 16 * 16 + c / 4)]
  | a :: b :: c :: d :: rest =>
    (joinSextets strict rest).map fun out =>
      UInt8.ofNat (a * 4 + b / 16) :: UInt8.ofNat (b % 16 * 16 + c / 4) ::
        UInt8.ofNat (c % 4 * 64 + d) :: out

def isLineBreak (b : UInt8) : Bool := b == 0x0A || b == 0x0D

/-- `RawURLEncoding.DecodeString`, or that of `RawURLEncoding.Strict()`. -/
def rawURLDecode (strict : Bool) (s : Bytes) : Option Bytes :=
  ((s.filter fun b => !isLineBreak b).mapM sextet).bind (joinSextets strict)

theorem joinSextets_lenient : ∀ {sextets : List Nat} {out : Bytes}, joinSextets true sextets = some out →
      joinSextets false sextets = some out := by
  intro sextets
  fun_induction joinSextets true sextets with
  | case1 => exact id
  | case2 => exact id
  | case3 a b nonzero => intro out read; cases read
  | case4 a b nonzero => exact id
  | case5 a b c nonzero => intro out read; cases read
  | case6 a b c nonzero => exact id
  | case7 a b c d rest ih =>
    intro out read
    obtain ⟨tail, rest, rfl⟩ := Option.map_eq_some_iff.mp read
    rw [joinSextets, ih rest]
    rfl

theorem rawURLDecode_lenient {s out : Bytes} (read : rawURLDecode true s = some out) :
    rawURLDecode false s = some out := by
  obtain ⟨sextets, found, joined⟩ := Option.bind_eq_some_iff.mp read
  rw [rawURLDecode, found]
  exact joinSextets_lenient joined

theorem joinSextets_length : ∀ {sextets : List Nat} {strict : Bool} {out : Bytes},
      joinSextets strict sextets = some out → out.length ≤ sextets.length := by
  intro sextets strict
  fun_induction joinSextets strict sextets with
  | case1 =>
    intro out read
    cases read
    exact Nat.le_refl _
  | case2 | case3 a b nonzero => intro out read; cases read
  | case4 a b nonzero =>
    intro out read
    cases read
    exact Nat.le_succ 1
  | case5 a b c nonzero => intro out read; cases read
  | case6 a b c nonzero =>
    intro out read
    cases read
    exact Nat.le_succ 2
  | case7 a b c d rest ih =>
    intro out read
    obtain ⟨tail, rest, rfl⟩ := Option.map_eq_some_iff.mp read
    have shorter := ih rest
    simp only [List.length_cons]
    omega

theorem rawURLDecode_length {strict : Bool} {s out : Bytes} (read : rawURLDecode strict s = some out) :
    out.length ≤ s.length := by
  obtain ⟨sextets, found, joined⟩ := Option.bind_eq_some_iff.mp read
  have count : sextets.length = (s.filter fun b => !isLineBreak b).length := by
    have mapped := congrArg List.length (mapM_some found)
    simpa using mapped.symm
  calc out.length ≤ sextets.length := joinSextets_length joined
    _ = (s.filter fun b => !isLineBreak b).length := count
    _ ≤ s.length := List.length_filter_le _ _

/-! ## The strict decoder has one spelling for each text -/

def sextetChar (n : Nat) : UInt8 :=
  if n < 26 then UInt8.ofNat (n + 65)
  else if n < 52 then UInt8.ofNat (n + 71)
  else if n < 62 then UInt8.ofNat (n - 4)
  else if n = 62 then 0x2D
  else 0x5F

theorem sextet_inverse {b : UInt8} {n : Nat} (read : sextet b = some n) : sextetChar n = b ∧ n < 64 := by
  have each : ∀ i : Fin 256, (sextet (UInt8.ofNat i.val)).all
      (fun n => sextetChar n == UInt8.ofNat i.val && decide (n < 64)) = true := by
    decide +kernel
  have here := each ⟨b.toNat, b.toNat_lt⟩
  simp only [UInt8.ofNat_toNat, read, Option.all_some, Bool.and_eq_true, beq_iff_eq,
    decide_eq_true_eq] at here
  exact here

/-- The sextets that stand for bytes, the unused bits zero. -/
def splitBytes : Bytes → List Nat
  | [] => []
  | [x] => [x.toNat / 4, x.toNat % 4 * 16]
  | [x, y] => [x.toNat / 4, x.toNat % 4 * 16 + y.toNat / 16, y.toNat % 16 * 4]
  | x :: y :: z :: rest =>
    x.toNat / 4 :: (x.toNat % 4 * 16 + y.toNat / 16) :: (y.toNat % 16 * 4 + z.toNat / 64) ::
      z.toNat % 64 :: splitBytes rest

theorem splitBytes_join : ∀ {sextets : List Nat} {out : Bytes}, joinSextets true sextets = some out →
      (∀ n ∈ sextets, n < 64) → splitBytes out = sextets := by
  intro sextets
  -- The bytes of a group are below 256, so each sextet can be read off them.
  fun_induction joinSextets true sextets with
  | case1 =>
    intro out read _
    cases read
    rfl
  | case2 | case3 a b nonzero => intro out read; cases read
  | case4 a b zero =>
    intro out read small
    cases read
    simp only [List.mem_cons, List.not_mem_nil, or_false, forall_eq_or_imp, forall_eq] at small
    simp only [Bool.true_and, bne_iff_ne, ne_eq, not_not] at zero
    simp only [splitBytes, UInt8.toNat_ofNat', Nat.reducePow, List.cons.injEq, and_true]
    omega
  | case5 a b c nonzero => intro out read; cases read
  | case6 a b c zero =>
    intro out read small
    cases read
    simp only [List.mem_cons, List.not_mem_nil, or_false, forall_eq_or_imp, forall_eq] at small
    simp only [Bool.true_and, bne_iff_ne, ne_eq, not_not] at zero
    simp only [splitBytes, UInt8.toNat_ofNat', Nat.reducePow, List.cons.injEq, and_true]
    omega
  | case7 a b c d rest ih =>
    intro out read small
    obtain ⟨tail, joined, rfl⟩ := Option.map_eq_some_iff.mp read
    have others := ih joined fun n inside => small n (by simp [inside])
    simp only [List.mem_cons, forall_eq_or_imp] at small
    obtain ⟨smallA, smallB, smallC, smallD, -⟩ := small
    simp only [splitBytes, UInt8.toNat_ofNat', Nat.reducePow, others, List.cons.injEq, and_true]
    omega

def rawURLEncode (s : Bytes) : Bytes := (splitBytes s).map sextetChar

theorem filter_breaks {s : Bytes} (alphabet : ∀ b ∈ s, isBase64URL b = true) :
    (s.filter fun b => !isLineBreak b) = s := by
  apply List.filter_eq_self.mpr
  intro b inside
  have url := alphabet b inside
  by_cases breaks : isLineBreak b = true
  · simp only [isLineBreak, Bool.or_eq_true, beq_iff_eq] at breaks
    rcases breaks with rfl | rfl <;> exact absurd url (by decide)
  · simpa using breaks

theorem rawURLDecode_encode {s out : Bytes} (alphabet : ∀ b ∈ s, isBase64URL b = true)
    (read : rawURLDecode true s = some out) : s = rawURLEncode out := by
  rw [rawURLDecode, filter_breaks alphabet] at read
  obtain ⟨sextets, found, joined⟩ := Option.bind_eq_some_iff.mp read
  have small : ∀ n ∈ sextets, n < 64 := by
    intro n inside
    have mapped := mapM_some found
    have member : some n ∈ s.map sextet := by
      rw [mapped]
      exact List.mem_map_of_mem inside
    obtain ⟨b, -, sextetOf⟩ := List.mem_map.mp member
    exact (sextet_inverse sextetOf).2
  rw [rawURLEncode, splitBytes_join joined small]
  exact mapM_leftInverse (fun a b sextetOf => (sextet_inverse sextetOf).1) found

theorem rawURLDecode_injective {s s' out : Bytes} (alphabet : ∀ b ∈ s, isBase64URL b = true)
    (alphabet' : ∀ b ∈ s', isBase64URL b = true) (read : rawURLDecode true s = some out)
    (read' : rawURLDecode true s' = some out) : s = s' := by
  rw [rawURLDecode_encode alphabet read, rawURLDecode_encode alphabet' read']

/-! ## Encoding -/

theorem sextet_char {n : Nat} (small : n < 64) :
    sextet (sextetChar n) = some n ∧ isBase64URL (sextetChar n) = true := by
  have each : ∀ i : Fin 64, sextet (sextetChar i.val) = some i.val ∧
      isBase64URL (sextetChar i.val) = true := by
    decide +kernel
  exact each ⟨n, small⟩

theorem splitBytes_small (s : Bytes) : ∀ n ∈ splitBytes s, n < 64 := by
  fun_induction splitBytes s with
  | case1 => simp
  | case2 x =>
    have boundX := x.toNat_lt
    simp only [List.mem_cons, List.not_mem_nil, or_false, forall_eq_or_imp, forall_eq]
    omega
  | case3 x y =>
    have boundX := x.toNat_lt
    have boundY := y.toNat_lt
    simp only [List.mem_cons, List.not_mem_nil, or_false, forall_eq_or_imp, forall_eq]
    omega
  | case4 x y z rest ih =>
    have boundX := x.toNat_lt
    have boundY := y.toNat_lt
    have boundZ := z.toNat_lt
    simp only [List.mem_cons, forall_eq_or_imp]
    exact ⟨by omega, by omega, by omega, by omega, ih⟩

theorem splitBytes_length (s : Bytes) : (splitBytes s).length = (4 * s.length + 2) / 3 := by
  fun_induction splitBytes s with
  | case1 | case2 x | case3 x y => simp
  | case4 x y z rest ih =>
    simp only [List.length_cons, ih]
    omega

theorem ofNat_byte {n : Nat} {x : UInt8} (same : n = x.toNat) : UInt8.ofNat n = x := by
  rw [same, UInt8.ofNat_toNat]

/-- The sextets of a text leave no bit unused, so both decoders join them again. -/
theorem joinSextets_split (strict : Bool) (s : Bytes) : joinSextets strict (splitBytes s) = some s := by
  fun_induction splitBytes s with
  | case1 => rfl
  | case2 x =>
    have unused : x.toNat % 4 * 16 % 16 = 0 := by omega
    simp only [joinSextets, unused, bne_self_eq_false, Bool.and_false, Bool.false_eq_true, if_false]
    rw [ofNat_byte (x := x) (by omega)]
  | case3 x y =>
    have boundY := y.toNat_lt
    have unused : y.toNat % 16 * 4 % 4 = 0 := by omega
    simp only [joinSextets, unused, bne_self_eq_false, Bool.and_false, Bool.false_eq_true, if_false]
    rw [ofNat_byte (x := x) (by omega), ofNat_byte (x := y) (by omega)]
  | case4 x y z rest ih =>
    have boundY := y.toNat_lt
    have boundZ := z.toNat_lt
    rw [joinSextets, ih, Option.map_some, ofNat_byte (x := x) (by omega),
      ofNat_byte (x := y) (by omega), ofNat_byte (x := z) (by omega)]

theorem rawURLEncode_alphabet (s : Bytes) : ∀ b ∈ rawURLEncode s, isBase64URL b = true := by
  intro b inside
  obtain ⟨n, sextet, rfl⟩ := List.mem_map.mp inside
  exact (sextet_char (splitBytes_small s n sextet)).2

theorem rawURLDecode_rawURLEncode (strict : Bool) (s : Bytes) :
    rawURLDecode strict (rawURLEncode s) = some s := by
  have sextets : (rawURLEncode s).mapM sextet = some (splitBytes s) := by
    rw [rawURLEncode, List.mapM_map, mapM_total (g := id), List.map_id]
    intro n inside
    exact (sextet_char (splitBytes_small s n inside)).1
  rw [rawURLDecode, filter_breaks (rawURLEncode_alphabet s), sextets]
  exact joinSextets_split strict s

end DevHealth.Go

import Mathlib.Algebra.Group.Nat.Defs
import Mathlib.Data.List.Basic

/-! # Go strings and byte slices

A Go string is any sequence of bytes; nothing asks it to be UTF-8.  `ascii` reads
a Lean literal as the bytes of the Go literal with the same text. -/
set_option autoImplicit false
namespace DevHealth.Go

abbrev Bytes := List UInt8

instance : LawfulBEq Bytes := inferInstance

def ascii (text : String) : Bytes := text.toByteArray.data.toList

theorem ascii_injective : Function.Injective ascii := by
  intro s t same
  exact String.toByteArray_inj.mp (ByteArray.ext (Array.toList_inj.mp same))

/-- What holds of the bytes of a text is tried on these, not on all 256. -/
instance decidableForallBytes (p : UInt8 → Prop) [DecidablePred p] (s : Bytes) : Decidable (∀ b ∈ s, p b) :=
  List.decidableBAll p s

instance decidableForallByte (p : UInt8 → Prop) [DecidablePred p] (b : Option UInt8) : Decidable (∀ c ∈ b, p c) :=
  Option.decidableForallMem b

/-- The inclusive range of bytes between two characters. -/
def between (low high : Char) (b : UInt8) : Bool :=
  decide (low.toNat ≤ b.toNat) && decide (b.toNat ≤ high.toNat)

def isByte (c : Char) (b : UInt8) : Bool := decide (b.toNat = c.toNat)

def contains (list : List Bytes) (s : Bytes) : Bool := list.any (· == s)

theorem contains_iff (list : List Bytes) (s : Bytes) : contains list s = true ↔ s ∈ list := by
  simp [contains]

end DevHealth.Go

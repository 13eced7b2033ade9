import Mathlib.Data.List.Lex

/-! # The order of strings

Strings are ordered byte by byte, as `ORDER BY`, `max` and `argMax` order them. -/
set_option autoImplicit false
namespace DevHealth.Clickhouse.ByteOrder

scoped instance byteOrder : LinearOrder UInt8 where
  le_refl _ := UInt8.le_refl _
  le_trans _ _ _ := UInt8.le_trans
  lt_iff_le_not_ge a b := by
    rw [UInt8.not_le]
    exact ⟨fun less => ⟨UInt8.le_of_lt less, less⟩, fun both => both.2⟩
  le_antisymm _ _ := UInt8.le_antisymm
  le_total := UInt8.le_total
  toDecidableLE := inferInstance
  toDecidableEq := inferInstance
  toDecidableLT := inferInstance

end DevHealth.Clickhouse.ByteOrder

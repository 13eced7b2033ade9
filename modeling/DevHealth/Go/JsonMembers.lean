import DevHealth.Go.JsonUnmarshal
import Mathlib.Data.List.Nodup

/-! # The members of an object by name

What a reader that looks members up by name sees of an object, in terms of its tree. -/
set_option autoImplicit false
namespace DevHealth.Go

open Lib

def stringOf : Json .value → Option Bytes
  | .str content _ => some (unquote content)
  | _ => none

def boolOf : Json .value → Option Bool
  | .bool b => some b
  | _ => none

def named (body : Json (.body .object)) (name : Bytes) : Option (Json .value) :=
  (body.entries.reverse.find? fun e => unquote e.1 == name).map Prod.snd

def namedString (body : Json (.body .object)) (name : Bytes) : Option Bytes :=
  (named body name).bind stringOf

/-- The members as a map of raw messages. -/
def rawMembers {k : Kind} (t : Json k) : RawObject :=
  t.entries.map fun e => (unquote e.1, e.2.text)

theorem RawObject.isSome_get {o : RawObject} {name : Bytes} : (o.get name).isSome = true ↔ name ∈ o.keys := by
  simp [RawObject.get, RawObject.keys, Option.isSome_map, List.find?_isSome]

variable {body : Json (.body .object)} {name : Bytes} {v : Json .value}

theorem get_rawMembers (body : Json (.body .object)) (name : Bytes) :
    (rawMembers body).get name = (named body name).map Json.text := by
  simp only [RawObject.get, rawMembers, named, ← List.map_reverse, List.find?_map]
  simp only [Option.map_map]
  rfl

theorem keys_rawMembers {k : Kind} (t : Json k) : (rawMembers t).keys = memberNames t := by
  simp [RawObject.keys, rawMembers, memberNames]

theorem mem_entries_of_named (found : named body name = some v) :
    ∃ content, (content, v) ∈ body.entries ∧ unquote content = name := by
  simp only [named, Option.map_eq_some_iff, Prod.exists] at found
  obtain ⟨content, _, find, rfl⟩ := found
  have fits := List.find?_some find
  exact ⟨content, List.mem_reverse.mp (List.mem_of_find?_eq_some find), by simpa using fits⟩

theorem isSome_named : (named body name).isSome = true ↔ name ∈ memberNames body := by
  simp [named, memberNames]

theorem named_nesting (nests : body.nesting ≤ maxNestingDepth)
    (found : named body name = some v) : v.nesting ≤ maxNestingDepth := by
  obtain ⟨content, inside, _⟩ := mem_entries_of_named found
  exact (Json.entries_nesting inside).trans nests

theorem box_nesting {b : Box} {inner : Json (.body b)}
    (nests : (Json.box inner).nesting ≤ maxNestingDepth) : inner.nesting ≤ maxNestingDepth :=
  Nat.le_of_succ_le nests

theorem named_of_entry {content : Bytes} (distinct : (memberNames body).Nodup)
    (inside : (content, v) ∈ body.entries) : named body (unquote content) = some v := by
  have present : unquote content ∈ memberNames body := List.mem_map.mpr ⟨_, inside, rfl⟩
  obtain ⟨w, found⟩ := Option.isSome_iff_exists.mp (isSome_named.mpr present)
  obtain ⟨other, member, same⟩ := mem_entries_of_named found
  have equal : (other, w) = (content, v) := List.inj_on_of_nodup_map distinct member inside same
  rw [found, (Prod.mk.inj equal).2]

/-! ## Integers -/

theorem num_of_digits (digits : v.text ≠ [] ∧ ∀ b ∈ v.text, isDigit b = true) :
    ∃ ds valid, v = .num ds valid := by
  obtain ⟨-, all⟩ := digits
  cases v with
  | num ds valid => exact ⟨ds, valid, rfl⟩
  | null => exact absurd (all _ (List.mem_cons_self ..)) (by decide)
  | bool b => cases b <;> exact absurd (all _ (List.mem_cons_self ..)) (by decide)
  | str content valid => exact absurd (all _ (List.mem_cons_self ..)) (by decide)
  | @box b inner => cases b <;> exact absurd (all _ (List.mem_cons_self ..)) (by decide)

theorem fitsDouble_integer {digits : Bytes} (all : ∀ b ∈ digits, isDigit b = true)
    (small : digitsValue digits < 2 ^ 63) : fitsDouble digits = true := by
  have sign : digits.head? ≠ some 0x2D := by
    intro minus
    exact absurd (all _ (List.mem_of_head? minus)) (by decide)
  have plain : ∀ b ∈ digits, (!isExponentMark b) = true := by
    intro b inside
    have digit := all b inside
    by_contra mark
    simp only [Bool.not_eq_true, Bool.not_eq_false', isExponentMark, Bool.or_eq_true, beq_iff_eq] at mark
    rcases mark with rfl | rfl <;> cases digit
  have limit : 2 ^ 63 ≤ doubleLimit := by decide +kernel
  have whole : digits.takeWhile isDigit = digits := List.takeWhile_eq_self_iff.mpr all
  have mantissa : digits.takeWhile (fun b => !isExponentMark b) = digits :=
    List.takeWhile_eq_self_iff.mpr plain
  have noFraction : digits.dropWhile isDigit = [] := List.dropWhile_eq_nil_iff.mpr all
  have noExponent : digits.dropWhile (fun b => !isExponentMark b) = [] := List.dropWhile_eq_nil_iff.mpr plain
  simp [fitsDouble, sign, mantissa, whole, noFraction, noExponent, digitsValue] at small ⊢
  omega

end DevHealth.Go

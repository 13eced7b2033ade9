import DevHealth.Lib.Json
import Mathlib.Data.List.Sort

/-! # Packages `bytes`, `strings` and `strconv`

Trimming of white space as Unicode defines it, and decimal integers. -/
set_option autoImplicit false
namespace DevHealth.Go

open Lib

/-- The UTF-8 encodings of the runes that `unicode.IsSpace` accepts. -/
def spaceMarks : List Bytes :=
  [[0x09], [0x0A], [0x0B], [0x0C], [0x0D], [0x20], [0xC2, 0x85], [0xC2, 0xA0],
    [0xE1, 0x9A, 0x80], [0xE2, 0x80, 0x80], [0xE2, 0x80, 0x81], [0xE2, 0x80, 0x82],
    [0xE2, 0x80, 0x83], [0xE2, 0x80, 0x84], [0xE2, 0x80, 0x85], [0xE2, 0x80, 0x86],
    [0xE2, 0x80, 0x87], [0xE2, 0x80, 0x88], [0xE2, 0x80, 0x89], [0xE2, 0x80, 0x8A],
    [0xE2, 0x80, 0xA8], [0xE2, 0x80, 0xA9], [0xE2, 0x80, 0xAF], [0xE2, 0x81, 0x9F],
    [0xE3, 0x80, 0x80]]

def isSpaceRune (r : Nat) : Bool :=
  [0x09, 0x0A, 0x0B, 0x0C, 0x0D, 0x20, 0x85, 0xA0, 0x1680, 0x2000, 0x2001, 0x2002, 0x2003, 0x2004,
    0x2005, 0x2006, 0x2007, 0x2008, 0x2009, 0x200A, 0x2028, 0x2029, 0x202F, 0x205F, 0x3000].contains r

/-- Drop marks from the front as long as one is there. -/
def trimMarks (marks : List Bytes) : Nat → Bytes → Bytes
  | 0, s => s
  | fuel + 1, s =>
    match marks.find? fun mark => mark.isPrefixOf s with
    | some mark => trimMarks marks fuel (s.drop mark.length)
    | none => s

def trimSpace (s : Bytes) : Bytes :=
  let left := trimMarks spaceMarks s.length s
  (trimMarks (spaceMarks.map List.reverse) left.length left.reverse).reverse

def digitsValue (ds : Bytes) : Nat := ds.foldl (fun n b => n * 10 + (b.toNat - 48)) 0

def parseDigits (ds : Bytes) : Option Nat :=
  if ds ≠ [] ∧ ds.all isDigit then some (digitsValue ds) else none

def parseInt : Bytes → Option Int
  | [] => none
  | b :: rest =>
    if b = 0x2D then (parseDigits rest).bind fun n => if n ≤ 2 ^ 63 then some (-n) else none
    else
      (parseDigits (if b = 0x2B then rest else b :: rest)).bind fun n =>
        if n < 2 ^ 63 then some n else none

theorem parseInt_digits {w : Bytes} (some_byte : w ≠ []) (digits : ∀ b ∈ w, isDigit b = true) :
    parseInt w = if digitsValue w < 2 ^ 63 then some (digitsValue w : Int) else none := by
  cases w with
  | nil => exact absurd rfl some_byte
  | cons b rest =>
    have first := digits b (List.mem_cons_self ..)
    have minus : b ≠ 0x2D := by rintro rfl; cases first
    have plus : b ≠ 0x2B := by rintro rfl; cases first
    have all : (b :: rest).all isDigit = true := List.all_eq_true.mpr digits
    simp [parseInt, minus, plus, parseDigits, all]

theorem foldl_digits_ge (ds : Bytes) :
    ∀ n, n * 10 ^ ds.length ≤ ds.foldl (fun n b => n * 10 + (b.toNat - 48)) n := by
  induction ds with
  | nil => simp
  | cons b ds ih =>
    intro n
    calc n * 10 ^ (b :: ds).length = n * 10 * 10 ^ ds.length := by
          rw [List.length_cons, Nat.pow_succ']
          exact (Nat.mul_assoc ..).symm
      _ ≤ (n * 10 + (b.toNat - 48)) * 10 ^ ds.length := Nat.mul_le_mul_right _ (Nat.le_add_right _ _)
      _ ≤ _ := ih _

theorem digitsValue_ge {b : UInt8} {rest : Bytes} (first : between '1' '9' b = true) :
    10 ^ rest.length ≤ digitsValue (b :: rest) := by
  have one : 1 ≤ b.toNat - 48 := by
    simp only [between, Bool.and_eq_true, decide_eq_true_eq] at first
    have low : '1'.toNat = 49 := rfl
    omega
  calc 10 ^ rest.length ≤ (b.toNat - 48) * 10 ^ rest.length := Nat.le_mul_of_pos_left _ one
    _ ≤ digitsValue (b :: rest) := by
        have le := foldl_digits_ge rest (0 * 10 + (b.toNat - 48))
        simpa [digitsValue] using le

/-! ## Trimming a text with ink at both ends -/

def isInk (b : UInt8) : Bool := decide (0x21 ≤ b.toNat) && decide (b.toNat ≤ 0x7E)

/-- What trimming needs to know of a list of marks: none starts with ink, and the
white space between tokens is there as marks of one byte. -/
structure Trims (marks : List Bytes) : Prop where
  heads : ∀ mark ∈ marks, mark ≠ [] ∧ mark.head?.any isInk = false
  single : ∀ b, isSpace b = true → ∀ s,
    marks.find? (fun mark => mark.isPrefixOf (b :: s)) = some [b]

theorem trims_spaceMarks : Trims spaceMarks := by
  constructor
  · decide
  · intro b space s
    simp only [isSpace, Bool.or_eq_true, beq_iff_eq] at space
    rcases space with ((rfl | rfl) | rfl) | rfl <;> rfl

theorem trims_reversed : Trims (spaceMarks.map List.reverse) := by
  constructor
  · decide
  · intro b space s
    simp only [isSpace, Bool.or_eq_true, beq_iff_eq] at space
    rcases space with ((rfl | rfl) | rfl) | rfl <;> rfl

theorem trimMarks_ink {marks : List Bytes} (trims : Trims marks) {b : UInt8}
    (ink : isInk b = true) (fuel : Nat) (s : Bytes) : trimMarks marks fuel (b :: s) = b :: s := by
  have none : marks.find? (fun mark => mark.isPrefixOf (b :: s)) = none := by
    rw [List.find?_eq_none]
    intro mark member isPrefix
    obtain ⟨some_byte, blank⟩ := trims.heads mark member
    cases mark with
    | nil => exact some_byte rfl
    | cons c rest =>
      simp only [List.isPrefixOf_cons_cons, Bool.and_eq_true, beq_iff_eq] at isPrefix
      simp [isPrefix.1, ink] at blank
  cases fuel with
  | zero => rfl
  | succ fuel => simp only [trimMarks, none]

theorem trimMarks_blank {marks : List Bytes} (trims : Trims marks) {gap : Bytes} {b : UInt8}
    (blank : IsBlank gap) (ink : isInk b = true) (s : Bytes) :
    ∀ fuel, gap.length ≤ fuel → trimMarks marks fuel (gap ++ b :: s) = b :: s := by
  induction gap with
  | nil =>
    intro fuel _
    exact trimMarks_ink trims ink fuel s
  | cons c gap ih =>
    intro fuel enough
    obtain ⟨less, rfl⟩ : ∃ less, fuel = less + 1 := by
      rw [List.length_cons] at enough
      exact Nat.exists_eq_add_one.mpr (by omega)
    have here := trims.single c (blank c (List.mem_cons_self ..)) (gap ++ b :: s)
    simp only [List.cons_append, trimMarks, here, List.length_singleton, List.drop_one, List.tail_cons]
    apply ih
    · exact fun d member => blank d (List.mem_cons_of_mem _ member)
    · simpa using enough

theorem trimSpace_ink {lead text trail : Bytes} (leadBlank : IsBlank lead)
    (trailBlank : IsBlank trail) {first last : UInt8} {after before : Bytes}
    (starts : text = first :: after) (ends : text = before ++ [last]) (firstInk : isInk first = true)
    (lastInk : isInk last = true) : trimSpace (lead ++ (text ++ trail)) = text := by
  have left : trimMarks spaceMarks (lead ++ (text ++ trail)).length (lead ++ (text ++ trail)) =
      text ++ trail := by
    rw [starts, List.cons_append]
    exact trimMarks_blank trims_spaceMarks leadBlank firstInk _ _ (by simp)
  have reversed : (text ++ trail).reverse = trail.reverse ++ last :: before.reverse := by
    simp [ends]
  have right : trimMarks (spaceMarks.map List.reverse) (text ++ trail).length
      (trail.reverse ++ last :: before.reverse) = last :: before.reverse := by
    apply trimMarks_blank trims_reversed _ lastInk
    · simp only [List.length_append, List.length_reverse]
      omega
    · exact fun b member => trailBlank b (List.mem_reverse.mp member)
  simp only [trimSpace, left, reversed, right]
  simp [ends]

theorem trimSpace_all_ink {s : Bytes} (ink : ∀ b ∈ s, isInk b = true) : trimSpace s = s := by
  cases s with
  | nil => rfl
  | cons first after =>
    have nonempty : first :: after ≠ [] := List.cons_ne_nil _ _
    have blank : IsBlank [] := fun _ member => nomatch member
    have ends := (List.dropLast_append_getLast nonempty).symm
    have trimmed := trimSpace_ink blank blank rfl ends (ink _ (List.mem_cons_self ..))
      (ink _ (List.getLast_mem nonempty))
    simpa using trimmed

/-- `strings.Replace(s, old, new, 1)`, over any lexemes. -/
def replaceOnce {α : Type} [DecidableEq α] (old new : List α) : List α → List α
  | [] => if old = [] then new else []
  | a :: rest =>
    if old.isPrefixOf (a :: rest) then new ++ (a :: rest).drop old.length
    else a :: replaceOnce old new rest

def join {α : Type} (separator : List α) : List (List α) → List α
  | [] => []
  | [part] => part
  | part :: rest => part ++ separator ++ join separator rest

def trimSuffix (s tail : Bytes) : Bytes :=
  if tail.isSuffixOf s then s.take (s.length - tail.length) else s

def sortStrings (values : List Bytes) : List Bytes := values.insertionSort (· ≤ ·)

theorem mem_sortStrings {values : List Bytes} {s : Bytes} : s ∈ sortStrings values ↔ s ∈ values :=
  List.mem_insertionSort _

/-- `slices.Compact`: of equal neighbours one stays. -/
def compact {α : Type} [DecidableEq α] : List α → List α
  | a :: b :: rest => if a = b then compact (b :: rest) else a :: compact (b :: rest)
  | values => values

theorem mem_compact {α : Type} [DecidableEq α] {values : List α} {a : α} :
    a ∈ compact values ↔ a ∈ values := by
  fun_induction compact values with
  | case1 b rest ih =>
    rw [ih]
    simp
  | case2 b c rest different ih => simp [ih]
  | case3 values _ => rfl

theorem sorted_sortStrings (values : List Bytes) : (sortStrings values).Pairwise (· ≤ ·) :=
  List.pairwise_insertionSort _ values

theorem compact_sorted {values : List Bytes} (sorted : values.Pairwise (· ≤ ·)) :
    (compact values).Pairwise (· < ·) := by
  fun_induction compact values with
  | case1 b rest ih => exact ih (List.pairwise_cons.mp sorted).2
  | case2 a b rest different ih =>
    obtain ⟨first, others⟩ := List.pairwise_cons.mp sorted
    refine List.pairwise_cons.mpr ⟨?_, ih others⟩
    intro s inside
    have above : a < b := Std.lt_of_le_of_ne (first b (List.mem_cons_self ..)) different
    rcases List.mem_cons.mp (mem_compact.mp inside) with rfl | later
    · exact above
    · exact Std.lt_of_lt_of_le above ((List.pairwise_cons.mp others).1 s later)
  | case3 values short =>
    cases values with
    | nil => exact .nil
    | cons a rest =>
      cases rest with
      | nil => exact List.pairwise_singleton _ _
      | cons b rest => exact absurd rfl (short a b rest)

theorem sortStrings_strict {values : List Bytes} (distinct : values.Nodup) :
    (sortStrings values).Pairwise (· < ·) := by
  have apart : (sortStrings values).Pairwise (· ≠ ·) := (List.perm_insertionSort _ values).symm.nodup distinct
  refine ((sorted_sortStrings values).and apart).imp ?_
  intro a b both
  exact Std.lt_of_le_of_ne both.1 both.2

theorem sorted_ext {values values' : List Bytes} (sorted : values.Pairwise (· < ·))
    (sorted' : values'.Pairwise (· < ·)) (same : ∀ s, s ∈ values ↔ s ∈ values') : values = values' :=
  sorted.eq_of_mem_iff sorted' same

/-! ## Joined parts can be told apart -/

variable {α : Type} {mark : α}

/-- A part that can be read back from a joined text: not empty, and without the mark. -/
def Legible (mark : α) (part : List α) : Prop := part ≠ [] ∧ mark ∉ part

theorem join_cons {part : List α} {parts : List (List α)} (more : parts ≠ []) :
    join [mark] (part :: parts) = part ++ mark :: join [mark] parts := by
  cases parts with
  | nil => exact absurd rfl more
  | cons next rest => simp [join]

theorem join_ne_nil {part : List α} (parts : List (List α)) (solid : part ≠ []) :
    join [mark] (part :: parts) ≠ [] := by
  cases parts with
  | nil => exact solid
  | cons next rest => simp [join_cons, solid]

theorem mark_mem_join {part : List α} {parts : List (List α)} (more : parts ≠ []) :
    mark ∈ join [mark] (part :: parts) := by
  rw [join_cons more]
  exact List.mem_append_right _ (List.mem_cons_self ..)

theorem append_mark_inj {part part' rest rest' : List α} (unmarked : mark ∉ part)
    (unmarked' : mark ∉ part') (same : part ++ mark :: rest = part' ++ mark :: rest') :
    part = part' ∧ rest = rest' := by
  induction part generalizing part' with
  | nil =>
    cases part' with
    | nil => exact ⟨rfl, (List.cons.inj same).2⟩
    | cons a part' =>
      have first : mark = a := (List.cons.inj same).1
      exact absurd (first ▸ List.mem_cons_self ..) unmarked'
  | cons a part ih =>
    cases part' with
    | nil =>
      have first : a = mark := (List.cons.inj same).1
      exact absurd (first ▸ List.mem_cons_self ..) unmarked
    | cons b part' =>
      obtain ⟨rfl, others⟩ := List.cons.inj same
      have inside := ih (List.not_mem_of_not_mem_cons unmarked)
        (List.not_mem_of_not_mem_cons unmarked') others
      exact ⟨congrArg (a :: ·) inside.1, inside.2⟩

theorem join_inj {parts parts' : List (List α)} (legible : ∀ part ∈ parts, Legible mark part)
    (legible' : ∀ part ∈ parts', Legible mark part)
    (same : join [mark] parts = join [mark] parts') : parts = parts' := by
  induction parts generalizing parts' with
  | nil =>
    cases parts' with
    | nil => rfl
    | cons part' rest' =>
      have solid := (legible' part' (List.mem_cons_self ..)).1
      exact absurd same.symm (join_ne_nil rest' solid)
  | cons part rest ih =>
    obtain ⟨solid, unmarked⟩ := legible part (List.mem_cons_self ..)
    cases parts' with
    | nil => exact absurd same (join_ne_nil rest solid)
    | cons part' rest' =>
      have unmarked' := (legible' part' (List.mem_cons_self ..)).2
      rcases eq_or_ne rest [] with rfl | more <;> rcases eq_or_ne rest' [] with rfl | more'
      · exact congrArg (fun p => [p]) same
      · have marked : mark ∈ join [mark] [part] := same ▸ mark_mem_join more'
        exact absurd marked unmarked
      · have marked : mark ∈ join [mark] [part'] := same ▸ mark_mem_join more
        exact absurd marked unmarked'
      · rw [join_cons more, join_cons more'] at same
        obtain ⟨first, others⟩ := append_mark_inj unmarked unmarked' same
        have tails := ih (fun p inside => legible p (List.mem_cons_of_mem _ inside))
          (fun p inside => legible' p (List.mem_cons_of_mem _ inside)) others
        rw [first, tails]

def OnlySpace (s : Bytes) : Prop :=
  ∃ marks : List Bytes, (∀ mark ∈ marks, mark ∈ spaceMarks) ∧ s = marks.flatten

theorem spaceMarks_free : ∀ mark ∈ spaceMarks, ∀ other ∈ spaceMarks, mark <+: other → mark = other := by
  decide +kernel

theorem find_mark {mark : Bytes} (inside : mark ∈ spaceMarks) (s : Bytes) :
    (spaceMarks.find? fun m => m.isPrefixOf (mark ++ s)) = some mark := by
  cases found : spaceMarks.find? fun m => m.isPrefixOf (mark ++ s) with
  | none =>
    have missing := List.find?_eq_none.mp found mark inside
    rw [List.isPrefixOf_iff_prefix] at missing
    exact absurd (List.prefix_append mark s) missing
  | some other =>
    have member := List.mem_of_find?_eq_some found
    have starts := List.find?_some found
    simp only [List.isPrefixOf_iff_prefix] at starts
    -- no mark begins another
    rcases List.prefix_or_prefix_of_prefix starts (List.prefix_append mark s) with shorter | longer
    · rw [spaceMarks_free other member mark inside shorter]
    · rw [spaceMarks_free mark inside other member longer]

theorem trimMarks_flatten {marks : List Bytes} (all : ∀ mark ∈ marks, mark ∈ spaceMarks) :
    ∀ fuel, marks.flatten.length ≤ fuel → trimMarks spaceMarks fuel marks.flatten = [] := by
  induction marks with
  | nil =>
    intro fuel _
    cases fuel with
    | zero => rfl
    | succ fuel => rfl
  | cons mark marks ih =>
    intro fuel enough
    have inside := all mark (List.mem_cons_self ..)
    have positive : ∀ m ∈ spaceMarks, 0 < m.length := by decide
    have long := positive mark inside
    rw [List.flatten_cons, List.length_append] at enough
    cases fuel with
    | zero => omega
    | succ fuel =>
      rw [List.flatten_cons, trimMarks, find_mark inside]
      simp only [List.drop_left]
      exact ih (fun m member => all m (List.mem_cons_of_mem _ member)) fuel (by omega)

theorem trimSpace_onlySpace {s : Bytes} (spaces : OnlySpace s) : trimSpace s = [] := by
  obtain ⟨marks, all, rfl⟩ := spaces
  rw [trimSpace, trimMarks_flatten all _ (Nat.le_refl _)]
  rfl

theorem trimMarks_suffix (marks : List Bytes) (fuel : Nat) : ∀ s, trimMarks marks fuel s <:+ s := by
  induction fuel with
  | zero => exact fun s => List.suffix_refl s
  | succ fuel ih =>
    intro s
    rw [trimMarks]
    split
    · rename_i mark found
      exact (ih _).trans (List.drop_suffix _ _)
    · exact List.suffix_refl s

theorem trimMarks_done {marks : List Bytes} (positive : ∀ mark ∈ marks, 0 < mark.length) (fuel : Nat) :
    ∀ s, s.length ≤ fuel → ∀ mark ∈ marks, ¬ mark <+: trimMarks marks fuel s := by
  induction fuel with
  | zero =>
    intro s enough mark inside starts
    rw [List.length_eq_zero_iff.mp (Nat.le_zero.mp enough)] at starts
    have long := positive mark inside
    rw [List.prefix_nil.mp starts] at long
    exact Nat.lt_irrefl _ long
  | succ fuel ih =>
    intro s enough
    rw [trimMarks]
    split
    · rename_i mark found
      have long := positive mark (List.mem_of_find?_eq_some found)
      apply ih
      rw [List.length_drop]
      omega
    · rename_i none
      intro mark inside starts
      have missing := List.find?_eq_none.mp none mark inside
      exact missing (List.isPrefixOf_iff_prefix.mpr starts)

theorem trimSpace_starts (s : Bytes) : ∀ mark ∈ spaceMarks, ¬ mark <+: trimSpace s := by
  have positive : ∀ m ∈ spaceMarks, 0 < m.length := by decide
  have left := trimMarks_done positive s.length s (Nat.le_refl _)
  have kept : trimSpace s <+: trimMarks spaceMarks s.length s := by
    rw [trimSpace, ← List.reverse_suffix, List.reverse_reverse]
    exact trimMarks_suffix _ _ _
  exact fun mark inside starts => left mark inside (starts.trans kept)

end DevHealth.Go

import DevHealth.Go.Quote
import DevHealth.Go.Strings
import DevHealth.Lib.Search

/-! # Texts as runes

The runes of a text and the text of some runes.  The sequence of a rune is found at the
front of a text, and at its end, only where that rune stands, so trimming and replacing can
be done rune by rune. -/
set_option autoImplicit false
namespace DevHealth.Go

open Lib

/-! ## Reading and writing -/

/-- The text with U+FFFD for every byte that is not UTF-8. -/
def toValidUTF8 (s : Bytes) : Bytes := (runes s).flatMap encodeRune

def ValidUTF8 (s : Bytes) : Prop :=
  ∃ text : List CodePoint, (∀ r ∈ text, ValidRune r) ∧ s = text.flatMap encodeRune

def Piece.read : Piece → CodePoint
  | .invalid _ => runeError
  | .rune r => r

theorem Piece.read_valid {piece : Piece} (valid : piece.Valid) : ValidRune piece.read := by
  cases piece with
  | invalid b =>
    have replacement : runeError ≤ 0x10FFFF ∧ isSurrogate runeError = false := by decide
    exact replacement
  | rune r => exact valid

theorem front_piece (b : UInt8) (rest : Bytes) :
    ∃ (piece : Piece) (after : Bytes), piece.Valid ∧ b :: rest = piece.bytes ++ after ∧
      after.length ≤ rest.length ∧ decodeRune (b :: rest) = (piece.read, piece.bytes.length) := by
  have positive := (decodeRune_width b rest).1
  rcases decodeRune_read b rest with ⟨read, large⟩ | ⟨valid, width, after, text⟩
  · exact ⟨.invalid b, rest, large, rfl, Nat.le_refl _, read⟩
  · refine ⟨.rune (decodeRune (b :: rest)).1, after, valid, text, ?_, ?_⟩
    · have length := congrArg List.length text
      rw [List.length_append, List.length_cons, ← width] at length
      omega
    · rw [Piece.bytes, ← width]
      rfl

theorem runesLoop_fuel (s : Bytes) : ∀ fuel, s.length ≤ fuel → runesLoop fuel s = runes s := by
  induction length : s.length using Nat.strongRecOn generalizing s with
  | ind n ih =>
    intro fuel enough
    cases s with
    | nil => cases fuel <;> rfl
    | cons b rest =>
      obtain ⟨piece, after, -, text, shorter, read⟩ := front_piece b rest
      have dropped : (b :: rest).drop piece.bytes.length = after := by
        rw [text]
        exact List.drop_left
      rw [List.length_cons] at length
      cases fuel with
      | zero => omega
      | succ fuel =>
        rw [runes, List.length_cons, runesLoop, runesLoop, read]
        simp only [dropped]
        rw [ih after.length (by omega) after rfl fuel (by omega),
          ih after.length (by omega) after rfl rest.length shorter]

theorem runes_piece {b : UInt8} {rest after : Bytes} {piece : Piece} (text : b :: rest = piece.bytes ++ after)
    (read : decodeRune (b :: rest) = (piece.read, piece.bytes.length))
    (shorter : after.length ≤ rest.length) : runes (b :: rest) = piece.read :: runes after := by
  have dropped : (b :: rest).drop piece.bytes.length = after := by
    rw [text]
    exact List.drop_left
  rw [runes, List.length_cons, runesLoop, read]
  simp only [dropped]
  rw [runesLoop_fuel after rest.length shorter]

theorem encodeRune_nonempty {r : Nat} (valid : ValidRune r) : ∃ b tail, encodeRune r = b :: tail := by
  obtain ⟨b, tail, sequence, -⟩ := encodeRune_head valid
  exact ⟨b, tail, sequence⟩

theorem runes_encodeRune {r : Nat} (valid : ValidRune r) (x : Bytes) :
    runes (encodeRune r ++ x) = r :: runes x := by
  obtain ⟨b, tail, sequence⟩ := encodeRune_nonempty valid
  have read := decodeRune_encode valid x
  rw [sequence, List.cons_append] at read ⊢
  have text : b :: (tail ++ x) = (Piece.rune r).bytes ++ x := by
    rw [Piece.bytes, sequence]
    rfl
  apply runes_piece text
  · rw [read, Piece.bytes, sequence]
    rfl
  · rw [List.length_append]
    exact Nat.le_add_left ..

theorem runes_flatMap {text : List CodePoint} (valid : ∀ r ∈ text, ValidRune r) :
    runes (text.flatMap encodeRune) = text := by
  induction text with
  | nil => rfl
  | cons r text ih =>
    rw [List.flatMap_cons, runes_encodeRune (valid r (List.mem_cons_self ..)),
      ih fun r inside => valid r (List.mem_cons_of_mem _ inside)]

theorem runes_valid (s : Bytes) : ∀ r ∈ runes s, ValidRune r := by
  induction length : s.length using Nat.strongRecOn generalizing s with
  | ind n ih =>
    cases s with
    | nil =>
      intro r inside
      cases inside
    | cons b rest =>
      obtain ⟨piece, after, valid, text, shorter, read⟩ := front_piece b rest
      rw [runes_piece text read shorter]
      rw [List.length_cons] at length
      intro r inside
      rcases List.mem_cons.mp inside with rfl | inside
      · exact Piece.read_valid valid
      · exact ih after.length (by omega) after rfl r inside

theorem toValidUTF8_eq_iff {s : Bytes} : toValidUTF8 s = s ↔ ValidUTF8 s := by
  constructor
  · intro same
    exact ⟨runes s, runes_valid s, same.symm⟩
  · intro valid
    obtain ⟨text, each, rfl⟩ := valid
    rw [toValidUTF8, runes_flatMap each]

/-! ## Where a sequence can stand -/

theorem isContinuation_ofNat {n : Nat} (small : n < 64) : isContinuation (UInt8.ofNat (0x80 + n)) = true := by
  rw [isContinuation, toNat_ofNat_small (by omega)]
  simp only [Bool.and_eq_true, decide_eq_true_eq]
  omega

theorem not_continuation {n : Nat} (small : n < 256) (apart : n < 0x80 ∨ 0xC0 ≤ n) :
    isContinuation (UInt8.ofNat n) = false := by
  rw [isContinuation, toNat_ofNat_small small]
  simp only [Bool.and_eq_false_iff, decide_eq_false_iff_not]
  omega

theorem encodeRune_shape {r : Nat} (valid : ValidRune r) :
    ∃ b tail, encodeRune r = b :: tail ∧ isContinuation b = false ∧ ∀ c ∈ tail, isContinuation c = true := by
  obtain ⟨bound, plain⟩ := valid
  by_cases one : r < 0x80
  · exact ⟨_, _, encodeRune_ascii one, not_continuation (by omega) (.inl one), by simp⟩
  by_cases two : r < 0x800
  · refine ⟨_, _, encodeRune_two (by omega) two, not_continuation (by omega) (by omega), ?_⟩
    simp only [List.forall_mem_singleton]
    exact isContinuation_ofNat (by omega)
  by_cases three : r < 0x10000
  · refine ⟨_, _, encodeRune_three (by omega) three plain, not_continuation (by omega) (by omega), ?_⟩
    simp only [List.forall_mem_cons]
    exact ⟨isContinuation_ofNat (by omega), isContinuation_ofNat (by omega), by simp⟩
  · refine ⟨_, _, encodeRune_four (by omega) bound, not_continuation (by omega) (by omega), ?_⟩
    simp only [List.forall_mem_cons]
    exact ⟨isContinuation_ofNat (by omega), isContinuation_ofNat (by omega),
      isContinuation_ofNat (by omega), by simp⟩

/-- At the front of a text stands one sequence only. -/
theorem encodeRune_starts {k r : Nat} {x : Bytes} (validK : ValidRune k) (validR : ValidRune r)
    (starts : encodeRune k <+: encodeRune r ++ x) : k = r := by
  obtain ⟨y, same⟩ := starts
  have read := congrArg runes same
  rw [runes_encodeRune validK, runes_encodeRune validR] at read
  exact (List.cons.inj read).1

theorem encodeRune_inj {k r : Nat} (validK : ValidRune k) (validR : ValidRune r)
    (same : encodeRune k = encodeRune r) : k = r := by
  apply encodeRune_starts validK validR (x := [])
  rw [List.append_nil]
  exact same ▸ List.prefix_rfl

/-- And one at its end: a leading byte inside a sequence cannot be. -/
theorem encodeRune_suffix {k r : Nat} {x : Bytes} (validK : ValidRune k) (validR : ValidRune r)
    (ends : encodeRune k <:+ x ++ encodeRune r) : k = r := by
  obtain ⟨b, tail, sequence, leads, follow⟩ := encodeRune_shape validK
  obtain ⟨c, tail', sequence', leads', follow'⟩ := encodeRune_shape validR
  rcases List.suffix_or_suffix_of_suffix ends (List.suffix_append x (encodeRune r)) with inner | inner
  · -- The sequence of `k` is at the end of that of `r`.
    rw [sequence, sequence'] at inner
    rcases List.suffix_cons_iff.mp inner with same | inside
    · exact encodeRune_inj validK validR (by rw [sequence, sequence', same])
    · have continues := follow' b (inside.subset (List.mem_cons_self ..))
      rw [leads] at continues
      cases continues
  · rw [sequence, sequence'] at inner
    rcases List.suffix_cons_iff.mp inner with same | inside
    · exact encodeRune_inj validK validR (by rw [sequence, sequence', same])
    · have continues := follow c (inside.subset (List.mem_cons_self ..))
      rw [leads'] at continues
      cases continues

/-! ## Trimming -/

section Code

variable {code : CodePoint → Bytes}

/-- The code of one rune at the front of a text is that of its first rune. -/
def PrefixCode (code : CodePoint → Bytes) : Prop :=
  ∀ k r x, ValidRune k → ValidRune r → code k <+: code r ++ x → k = r

theorem prefixCode_encodeRune : PrefixCode encodeRune := fun _ _ _ => encodeRune_starts

theorem prefixCode_reversed : PrefixCode (List.reverse ∘ encodeRune) := by
  intro k r x validK validR starts
  apply encodeRune_suffix validK validR (x := x.reverse)
  rw [← List.reverse_prefix]
  simpa using starts

theorem find_code (codes : PrefixCode code) {marks : List CodePoint} (valid : ∀ k ∈ marks, ValidRune k)
    {r : CodePoint} (validR : ValidRune r) (x : Bytes) :
    (marks.map code).find? (fun mark => mark.isPrefixOf (code r ++ x)) =
      if r ∈ marks then some (code r) else none := by
  induction marks with
  | nil => rfl
  | cons k marks ih =>
    obtain ⟨validK, others⟩ := List.forall_mem_cons.mp valid
    rw [List.map_cons, List.find?_cons, ih others]
    by_cases same : r = k
    · have starts : (code k).isPrefixOf (code k ++ x) = true :=
        List.isPrefixOf_iff_prefix.mpr (List.prefix_append ..)
      rw [same, starts, if_pos (List.mem_cons_self ..)]
    · have apart : (code k).isPrefixOf (code r ++ x) = false := by
        by_contra starts
        rw [Bool.not_eq_false, List.isPrefixOf_iff_prefix] at starts
        exact same (codes k r x validK validR starts).symm
      rw [apart]
      simp [same]

theorem trimMarks_runes (codes : PrefixCode code) (solid : ∀ r, ValidRune r → code r ≠ [])
    {marks : List CodePoint} (valid : ∀ k ∈ marks, ValidRune k) {text : List CodePoint}
    (each : ∀ r ∈ text, ValidRune r) :
    ∀ fuel, (text.flatMap code).length ≤ fuel → trimMarks (marks.map code) fuel (text.flatMap code) =
        (text.dropWhile fun r => marks.contains r).flatMap code := by
  induction text with
  | nil =>
    intro fuel _
    have nothing : (marks.map code).find? (fun mark => mark.isPrefixOf []) = none := by
      rw [List.find?_eq_none]
      intro mark inside starts
      obtain ⟨k, listed, rfl⟩ := List.mem_map.mp inside
      rw [List.isPrefixOf_iff_prefix, List.prefix_nil] at starts
      exact solid k (valid k listed) starts
    cases fuel with
    | zero => rfl
    | succ fuel => simp [trimMarks, nothing, List.dropWhile_nil]
  | cons r text ih =>
    intro fuel enough
    obtain ⟨validR, others⟩ := List.forall_mem_cons.mp each
    have long := List.length_pos_iff.mpr (solid r validR)
    rw [List.flatMap_cons, List.length_append] at enough
    obtain ⟨less, rfl⟩ : ∃ less, fuel = less + 1 := Nat.exists_eq_add_one.mpr (by omega)
    rw [List.flatMap_cons, trimMarks, find_code codes valid validR]
    by_cases listed : r ∈ marks
    · simp only [if_pos listed, List.drop_left]
      rw [ih others less (by omega), List.dropWhile_cons_of_pos (by simpa using listed)]
    · simp only [if_neg listed]
      rw [List.dropWhile_cons_of_neg (by simpa using listed), List.flatMap_cons]

end Code

def trimRunes (p : CodePoint → Bool) (text : List CodePoint) : List CodePoint :=
  (text.dropWhile p).rdropWhile p

section Trim

variable {p q : CodePoint → Bool} (weaker : ∀ r, q r = true → p r = true)

include weaker

theorem dropWhile_rdropWhile (text : List CodePoint) :
    (text.rdropWhile q).dropWhile p = (text.dropWhile p).rdropWhile q := by
  induction text with
  | nil => rfl
  | cons r text ih =>
    rw [rdropWhile_cons]
    by_cases dropped : p r = true
    · rw [List.dropWhile_cons_of_pos dropped, ← ih]
      split_ifs with all
      · have nothing : text.rdropWhile q = [] := List.rdropWhile_eq_nil_iff.mpr all.2
        rw [nothing]
      · rw [List.dropWhile_cons_of_pos dropped]
    · have kept : ¬ (q r = true ∧ ∀ b ∈ text, q b = true) := fun all => dropped (weaker r all.1)
      rw [if_neg kept, List.dropWhile_cons_of_neg dropped, List.dropWhile_cons_of_neg dropped,
        rdropWhile_cons, if_neg kept]

theorem dropWhile_dropWhile (text : List CodePoint) : (text.dropWhile q).dropWhile p = text.dropWhile p := by
  induction text with
  | nil => rfl
  | cons r text ih =>
    by_cases dropped : q r = true
    · rw [List.dropWhile_cons_of_pos dropped, List.dropWhile_cons_of_pos (weaker r dropped), ih]
    · rw [List.dropWhile_cons_of_neg dropped]

theorem rdropWhile_rdropWhile (text : List CodePoint) :
    (text.rdropWhile q).rdropWhile p = text.rdropWhile p := by
  simp only [List.rdropWhile, List.reverse_reverse, dropWhile_dropWhile weaker]

theorem trimRunes_trimRunes (text : List CodePoint) : trimRunes p (trimRunes q text) = trimRunes p text := by
  rw [trimRunes, trimRunes, dropWhile_rdropWhile weaker, dropWhile_dropWhile weaker,
    rdropWhile_rdropWhile weaker, trimRunes]

end Trim

def spaceRunes : List CodePoint :=
  [0x09, 0x0A, 0x0B, 0x0C, 0x0D, 0x20, 0x85, 0xA0, 0x1680, 0x2000, 0x2001, 0x2002, 0x2003, 0x2004,
    0x2005, 0x2006, 0x2007, 0x2008, 0x2009, 0x200A, 0x2028, 0x2029, 0x202F, 0x205F, 0x3000]

theorem spaceMarks_eq : spaceMarks = spaceRunes.map encodeRune := by decide

theorem spaceRunes_valid : ∀ k ∈ spaceRunes, ValidRune k := by
  unfold ValidRune
  decide

theorem encodeRune_ne_nil {r : Nat} (valid : ValidRune r) : encodeRune r ≠ [] := by
  obtain ⟨b, tail, sequence⟩ := encodeRune_nonempty valid
  rw [sequence]
  exact List.cons_ne_nil _ _

theorem trimSpace_runes {text : List CodePoint} (each : ∀ r ∈ text, ValidRune r) :
    trimSpace (text.flatMap encodeRune) = (trimRunes isSpaceRune text).flatMap encodeRune := by
  have left : trimMarks spaceMarks (text.flatMap encodeRune).length (text.flatMap encodeRune) =
      (text.dropWhile isSpaceRune).flatMap encodeRune := by
    rw [spaceMarks_eq]
    exact trimMarks_runes prefixCode_encodeRune (fun _ => encodeRune_ne_nil) spaceRunes_valid each
      _ (Nat.le_refl _)
  have kept : ∀ r ∈ (text.dropWhile isSpaceRune).reverse, ValidRune r := by
    intro r inside
    exact each r ((List.dropWhile_sublist _).subset (List.mem_reverse.mp inside))
  have marks : spaceMarks.map List.reverse = spaceRunes.map (List.reverse ∘ encodeRune) := by
    rw [spaceMarks_eq, List.map_map]
  have right := trimMarks_runes prefixCode_reversed (fun r valid => by simpa using encodeRune_ne_nil valid)
    spaceRunes_valid kept
  simp only [trimSpace, left, marks]
  rw [List.reverse_flatMap, right, trimRunes, List.rdropWhile, List.flatMap_reverse]
  · rfl
  · rw [← List.reverse_flatMap, List.length_reverse]

end DevHealth.Go

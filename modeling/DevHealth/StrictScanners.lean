import DevHealth.Authverify.JwksLaws
import DevHealth.Pep.Strict

/-! # What the two strict scanners accept

`rejectDuplicates` and `singleDocumentWithoutDuplicateMembers` read the tokens of one value.
A token of a number is a float64, so both refuse a number that has none, although the text is
one value and repeats no name; and the decoder opens at most 10,000 containers inside of each
other. -/
set_option autoImplicit false
namespace DevHealth

open Go Lib

/-- One JSON value with white space around it, of which `ok` holds. -/
def OneValue (ok : Json .value → Prop) (body : Bytes) : Prop :=
  ∃ lead, ∃ t : Json .value, ∃ trail, body = lead ++ (t.text ++ trail) ∧ IsBlank lead ∧
    IsBlank trail ∧ ok t

/-- No value lies deeper than 16 levels, and no object has two names that are equal after
unescaping. -/
def CleanDecision (t : Json .value) : Prop := t.depth ≤ 16 ∧ t.NoRepeats (sameName (· == ·))

/-- No object has two names that are equal under case folding. -/
def CleanDocument (folding : CaseFolding) (t : Json .value) : Prop :=
  t.NoRepeats (sameName (equalFold folding))

structure ScannersExact (folding : CaseFolding) (body : Bytes) : Prop where
  pep : Pep.rejectDuplicates body = false ↔ OneValue CleanDecision body
  authverify : Authverify.singleDocumentWithoutDuplicateMembers folding body = true ↔
    OneValue (CleanDocument folding) body

/-- A number of the value lies outside the range of a float64. -/
def LargeNumber (t : Json .value) : Prop := ¬ t.AllNumbers fitsDouble

def DeeplyNested (t : Json .value) : Prop := 10000 < t.nesting

section Readable
variable {ok fits misfits : Json .value → Prop} {same : Bytes → Bytes → Bool} {body : Bytes} {accepted : Prop}

/-- A scanner that asks for a further property of the text is exact where that property is
not missing. -/
theorem exact_iff_fits (either : ∀ t, misfits t ↔ ¬fits t)
    (ofText : ∀ u t, shapeOf u = shapeOf t → ok u → fits u → fits t)
    (scan : accepted ↔ OneValue (fun t => ok t ∧ fits t) body) :
    (accepted ↔ OneValue ok body) ↔ ¬ OneValue (fun t => ok t ∧ misfits t) body := by
  constructor
  · intro exactly large
    obtain ⟨lead, t, trail, text, leadBlank, trailBlank, clean, misfit⟩ := large
    have read := scan.mp (exactly.mpr ⟨lead, t, trail, text, leadBlank, trailBlank, clean⟩)
    obtain ⟨lead', u, trail', text', leadBlank', trailBlank', clean', fits⟩ := read
    have shape := shapeOf_text leadBlank' trailBlank' leadBlank trailBlank (text'.symm.trans text)
    exact (either t).mp misfit (ofText u t shape clean' fits)
  · intro fitting
    constructor
    · intro read
      obtain ⟨lead, t, trail, text, leadBlank, trailBlank, clean, -⟩ := scan.mp read
      exact ⟨lead, t, trail, text, leadBlank, trailBlank, clean⟩
    · intro value
      obtain ⟨lead, t, trail, text, leadBlank, trailBlank, clean⟩ := value
      apply scan.mpr
      refine ⟨lead, t, trail, text, leadBlank, trailBlank, clean, ?_⟩
      by_contra misfit
      exact fitting ⟨lead, t, trail, text, leadBlank, trailBlank, clean, (either t).mpr misfit⟩

theorem numbers_of_shape {u t : Json .value} (shape : shapeOf u = shapeOf t) (names : u.NoRepeats same)
    (numbers : u.AllNumbers fitsDouble) : t.AllNumbers fitsDouble :=
  (strict_of_shape u.nesting u t (Nat.le_refl _) shape names numbers).2

end Readable

theorem rejectDuplicates_value (body : Bytes) : Pep.rejectDuplicates body = false ↔
      OneValue (fun t => CleanDecision t ∧ t.AllNumbers fitsDouble) body := by
  rw [Pep.rejectDuplicates_iff]
  constructor
  · intro found
    obtain ⟨lead, t, trail, text, leadBlank, trailBlank, strict⟩ := found
    exact ⟨lead, t, trail, text, leadBlank, trailBlank, ⟨strict.depth, strict.names⟩, strict.numbers⟩
  · intro found
    obtain ⟨lead, t, trail, text, leadBlank, trailBlank, ⟨depth, names⟩, numbers⟩ := found
    exact ⟨lead, t, trail, text, leadBlank, trailBlank, depth,
      (Nat.zero_add _).trans_le (Pep.nesting_of_depth depth), names, numbers⟩

theorem singleDocument_value (folding : CaseFolding) (body : Bytes) :
    Authverify.singleDocumentWithoutDuplicateMembers folding body = true ↔
      OneValue (fun t => CleanDocument folding t ∧ t.AllNumbers fitsDouble ∧ t.nesting ≤ maxNestingDepth)
        body := by
  constructor
  · intro accepted
    obtain ⟨lead, t, trail, text, leadBlank, trailBlank, strict⟩ :=
      (strictDocument_iff body.length body).mp accepted
    have nests := strict.nesting
    rw [Nat.zero_add] at nests
    exact ⟨lead, t, trail, text, leadBlank, trailBlank, strict.names, strict.numbers, nests⟩
  · intro found
    obtain ⟨lead, t, trail, rfl, leadBlank, trailBlank, names, numbers, nests⟩ := found
    exact (Authverify.single_text leadBlank trailBlank nests).mpr ⟨names, numbers⟩

/-- The scanners accept what they are documented to accept exactly on the texts that are not
an otherwise clean value with a number outside the range of a float64 or, for the second
one, with more than 10,000 containers open at once. -/
theorem scannersExact_iff (folding : CaseFolding) (body : Bytes) :
    ScannersExact folding body ↔
      ¬ OneValue (fun t => CleanDecision t ∧ LargeNumber t) body ∧
      ¬ OneValue (fun t => CleanDocument folding t ∧ (LargeNumber t ∨ DeeplyNested t)) body := by
  have large (t : Json .value) : LargeNumber t ↔ ¬t.AllNumbers fitsDouble := Iff.rfl
  have deep (t : Json .value) : LargeNumber t ∨ DeeplyNested t ↔
      ¬(t.AllNumbers fitsDouble ∧ t.nesting ≤ maxNestingDepth) := by
    rw [not_and_or, not_le]
    rfl
  have decision := exact_iff_fits large
    (fun u t shape clean => numbers_of_shape shape clean.2) (rejectDuplicates_value body)
  have document := exact_iff_fits deep
    (fun u t shape (clean : CleanDocument folding u) fits =>
      ⟨numbers_of_shape shape clean fits.1, nesting_of_shape _ u t fits.2 shape⟩)
    (singleDocument_value folding body)
  rw [← document]
  constructor
  · intro exactly
    exact ⟨decision.mp exactly.pep, exactly.authverify⟩
  · intro both
    exact ⟨decision.mpr both.1, both.2⟩

/-- A text passes both scanners when it is a shallow value with numbers that fit, and no object has
two names that are equal under case folding. -/
theorem both_scanners_accept (folding : CaseFolding) (body : Bytes) :
    Authverify.singleDocumentWithoutDuplicateMembers folding body = true ∧ Pep.rejectDuplicates body = false ↔
    OneValue (fun t => CleanDocument folding t ∧ t.depth ≤ 16 ∧ t.AllNumbers fitsDouble) body := by
  rw [rejectDuplicates_value, singleDocument_value]
  constructor
  · rintro ⟨⟨_, u, _, same, front, back, names, numbers, -⟩,
      lead, t, trail, text, leadBlank, trailBlank, clean, fits⟩
    -- the two trees of the text have the same names
    have shape := shapeOf_text front back leadBlank trailBlank (same.symm.trans text)
    have folded := (strict_of_shape u.nesting u t le_rfl shape names numbers).1
    exact ⟨lead, t, trail, text, leadBlank, trailBlank, folded, clean.1, fits⟩
  · rintro ⟨lead, t, trail, text, leadBlank, trailBlank, folded, shallow, fits⟩
    have value {ok : Json .value → Prop} (holds : ok t) : OneValue ok body :=
      ⟨lead, t, trail, text, leadBlank, trailBlank, holds⟩
    have names : t.NoRepeats (sameName (· == ·)) := folded.imp fun a b apart => by
      rw [sameName, beq_eq_false_iff_ne]
      intro equal
      rw [sameName, equal, equalFold_refl] at apart
      cases apart
    exact ⟨value ⟨folded, fits, Pep.nesting_of_depth shallow⟩, value ⟨⟨shallow, names⟩, fits⟩⟩

/-- `1e999` is a number, and both scanners refuse it. -/
theorem scanners_refuse_large : ¬ ScannersExact asciiFolding (ascii "1e999") := by
  intro exactly
  have number : IsNumber (ascii "1e999") :=
    .unsigned ⟨ascii "1", [], ascii "e999", rfl, .digits (by decide) (by decide), .none,
      .plain rfl ⟨by decide, by decide⟩⟩
  have value : OneValue CleanDecision (ascii "1e999") :=
    ⟨[], .num _ number, [], rfl, isBlank_nil, isBlank_nil, Nat.zero_le _, trivial⟩
  have refused : Pep.rejectDuplicates (ascii "1e999") = true := by decide +kernel
  rw [exactly.pep.mpr value] at refused
  cases refused

end DevHealth

import DevHealth.Readers.Selectors
import DevHealth.RepokeyLaws

/-! # What the selectors mean

The normal form of a list of slugs or owners is a strictly sorted list that only the set of
names decides, and normalising it again does nothing: what a normaliser accepts is lower
case without white space.  An owner selects the slugs that have it as their first segment. -/
set_option autoImplicit false
namespace DevHealth.Readers

open Go Lib Repokey

/-! ## The loop of the normalisers -/

section Names

variable {accept : Bytes → Option Bytes}

theorem mem_normalizeNames {values seen : List Bytes} {name : Bytes} :
    name ∈ normalizeNames accept values seen ↔ name ∉ seen ∧ ∃ raw ∈ values, accept raw = some name := by
  induction values generalizing seen with
  | nil => simp [normalizeNames]
  | cons raw values ih =>
    rw [normalizeNames]
    cases taken : accept raw with
    | none => simp [ih, taken]
    | some normalized =>
      rw [List.exists_mem_cons_iff, taken, Option.some.injEq]
      simp only
      split_ifs with known
      · rw [ih]
        constructor
        · exact fun both => ⟨both.1, .inr both.2⟩
        · intro both
          obtain ⟨new, rfl | later⟩ := both
          · exact absurd known new
          · exact ⟨new, later⟩
      · rw [List.mem_cons, ih, List.mem_cons, not_or]
        constructor
        · intro either
          obtain rfl | ⟨⟨-, new⟩, later⟩ := either
          · exact ⟨known, .inl rfl⟩
          · exact ⟨new, .inr later⟩
        · intro both
          obtain ⟨new, rfl | later⟩ := both
          · exact .inl rfl
          · by_cases same : name = normalized
            · exact .inl same
            · exact .inr ⟨⟨same, new⟩, later⟩

theorem nodup_normalizeNames (values seen : List Bytes) : (normalizeNames accept values seen).Nodup := by
  induction values generalizing seen with
  | nil => exact .nil
  | cons raw values ih =>
    rw [normalizeNames]
    cases accept raw with
    | none => exact ih seen
    | some normalized =>
      simp only
      split_ifs with known
      · exact ih seen
      · refine List.nodup_cons.mpr ⟨?_, ih _⟩
        intro again
        exact (mem_normalizeNames.mp again).1 (List.mem_cons_self ..)

/-- A normaliser whose result is the strictly sorted list of a set, and a fixed point. -/
structure IsNormalForm (normalize : List Bytes → List Bytes) : Prop where
  sorted : ∀ values, (normalize values).Pairwise (· < ·)
  ofSet : ∀ values values', (∀ s, s ∈ values ↔ s ∈ values') → normalize values = normalize values'
  idempotent : ∀ values, normalize (normalize values) = normalize values

theorem normalForm_of_fixed (fixed : ∀ raw name, accept raw = some name → accept name = some name) :
    IsNormalForm fun values => sortStrings (normalizeNames accept values []) := by
  have sorted : ∀ values, (sortStrings (normalizeNames accept values [])).Pairwise (· < ·) :=
    fun values => sortStrings_strict (nodup_normalizeNames values [])
  have members : ∀ values name, name ∈ sortStrings (normalizeNames accept values []) ↔
      ∃ raw ∈ values, accept raw = some name := by
    intro values name
    rw [mem_sortStrings, mem_normalizeNames]
    simp
  refine ⟨sorted, ?_, ?_⟩
  · intro values values' same
    apply sorted_ext (sorted values) (sorted values')
    intro name
    rw [members, members]
    simp only [same]
  · intro values
    apply sorted_ext (sorted _) (sorted _)
    intro name
    rw [members, members]
    constructor
    · intro found
      obtain ⟨again, inside, accepted⟩ := found
      obtain ⟨raw, given, first⟩ := (members values again).mp inside
      rw [fixed raw again first] at accepted
      cases accepted
      exact ⟨raw, given, first⟩
    · intro found
      obtain ⟨raw, given, accepted⟩ := found
      exact ⟨name, (members values name).mpr ⟨raw, given, accepted⟩, fixed raw name accepted⟩

end Names

/-! ## Accepted names are fixed -/

variable {mapping : CaseMapping}

/-- A visible ASCII character that is no capital: trimming and lower case leave it. -/
def IsPlain (b : UInt8) : Prop := isInk b = true ∧ ¬ (65 ≤ b.toNat ∧ b.toNat ≤ 90)

theorem plain_of_name {b : UInt8} (name : isNameByte b = true) : IsPlain b := by
  have chars : 'a'.toNat = 97 ∧ 'z'.toNat = 122 ∧ '0'.toNat = 48 ∧ '9'.toNat = 57 ∧ '.'.toNat = 46 ∧
      '_'.toNat = 95 ∧ '-'.toNat = 45 := ⟨rfl, rfl, rfl, rfl, rfl, rfl, rfl⟩
  simp only [isNameByte, between, isByte, Bool.or_eq_true, Bool.and_eq_true, decide_eq_true_eq] at name
  simp only [IsPlain, isInk, Bool.and_eq_true, decide_eq_true_eq]
  omega

theorem plain_slash : IsPlain slash := by
  unfold IsPlain
  decide

theorem toLower_plain {s : Bytes} (plain : ∀ b ∈ s, IsPlain b) : toLower mapping s = s := by
  apply toLower_fixed
  · intro b inside
    have ink := (plain b inside).1
    simp only [isInk, Bool.and_eq_true, decide_eq_true_eq] at ink
    omega
  · exact fun b inside => (plain b inside).2

theorem lower_trim_plain {s : Bytes} (plain : ∀ b ∈ s, IsPlain b) : toLower mapping (trimSpace s) = s := by
  rw [trimSpace_all_ink fun b inside => (plain b inside).1, toLower_plain plain]

theorem plain_of_group {s : Bytes} (group : IsGroup s) : ∀ b ∈ s, IsPlain b :=
  fun b inside => plain_of_name (group.name b inside)

theorem plain_of_slug {slug : Bytes} (valid : validSlug slug = true) : ∀ b ∈ slug, IsPlain b := by
  intro b inside
  rcases (validSlug_iff.mp valid).bytes b inside with name | rfl
  · exact plain_of_name name
  · exact plain_slash

theorem acceptSlug_fixed {raw slug : Bytes} (accepted : acceptSlug mapping raw = some slug) :
    acceptSlug mapping slug = some slug := by
  simp only [acceptSlug] at accepted ⊢
  split_ifs at accepted with valid
  cases accepted
  rw [lower_trim_plain (plain_of_slug valid), if_pos valid]

/-! ## Owners -/

theorem owner_accepts {s : Bytes} : repositoryOwnerPattern.accepts s = true ↔ IsGroup s := by
  rw [repositoryOwnerPattern, Regex.accepts_iff, mem_lang_group]

theorem group_ne_nil {s : Bytes} (group : IsGroup s) : s ≠ [] := List.length_pos_iff.mp group.nonempty

theorem acceptOwner_group {raw owner : Bytes} (accepted : acceptOwner mapping raw = some owner) :
    IsGroup owner := by
  simp only [acceptOwner] at accepted
  split_ifs at accepted with bad
  cases accepted
  rw [← owner_accepts]
  simpa using (not_or.mp (not_or.mp bad).2).2

theorem acceptOwner_of {raw s : Bytes} (group : IsGroup s)
    (written : trimSuffix (toLower mapping (trimSpace raw)) (ascii "/*") = s) :
    acceptOwner mapping raw = some s := by
  simp only [acceptOwner, written]
  rw [if_neg]
  simp only [not_or, Bool.not_eq_false]
  exact ⟨group_ne_nil group, group.no_slash, owner_accepts.mpr group⟩

theorem acceptOwner_self {owner : Bytes} (group : IsGroup owner) : acceptOwner mapping owner = some owner := by
  apply acceptOwner_of group
  rw [lower_trim_plain (plain_of_group group), trimSuffix, if_neg]
  intro wildcard
  have tail := List.isSuffixOf_iff_suffix.mp wildcard
  exact group.no_slash (tail.subset (by decide))

theorem acceptOwner_wildcard {owner : Bytes} (group : IsGroup owner) :
    acceptOwner mapping (owner ++ ascii "/*") = some owner := by
  have wildcard : ∀ b ∈ ascii "/*", IsPlain b := by
    unfold IsPlain
    decide
  have plain : ∀ b ∈ owner ++ ascii "/*", IsPlain b := by
    intro b inside
    rcases List.mem_append.mp inside with own | tail
    · exact plain_of_group group b own
    · exact wildcard b tail
  apply acceptOwner_of group
  rw [lower_trim_plain plain, trimSuffix, if_pos (List.isSuffixOf_iff_suffix.mpr (List.suffix_append ..))]
  simp

theorem firstSegment_eq {g rest : Bytes} (unmarked : slash ∉ g) : firstSegment (g ++ slash :: rest) = g := by
  rw [firstSegment, List.takeWhile_append_of_pos]
  · simp [slash]
  · intro b inside
    simp only [bne_iff_ne]
    rintro rfl
    exact unmarked inside

theorem firstSegment_iff {slug owner : Bytes} (valid : validSlug slug = true) (group : IsGroup owner) :
    firstSegment slug = owner ↔ owner ++ [slash] <+: slug := by
  obtain ⟨g, rest, rfl, first⟩ := owner_of_slug valid
  rw [firstSegment_eq first.no_slash]
  constructor
  · rintro rfl
    exact ⟨rest, by simp⟩
  · intro starts
    obtain ⟨tail, same⟩ := starts
    rw [List.append_assoc, List.singleton_append] at same
    exact (append_mark_inj group.no_slash first.no_slash same).1.symm

/-- The normal forms of slugs and owners, and what an owner selects. -/
theorem selectors_mean (mapping : CaseMapping) :
    IsNormalForm (normalizeRepositorySlugs mapping) ∧ IsNormalForm (normalizeRepositoryOwners mapping) ∧
      (∀ raw owner, acceptOwner mapping raw = some owner →
        acceptOwner mapping owner = some owner ∧ acceptOwner mapping (owner ++ ascii "/*") = some owner ∧
        ∀ slug, validSlug slug = true → (firstSegment slug = owner ↔ owner ++ ascii "/" <+: slug)) ∧
      ∀ slug, validSlug slug = true →
        acceptOwner mapping (firstSegment slug) = some (firstSegment slug) ∧
        granted [] (normalizeRepositoryOwners mapping [firstSegment slug]) slug = true := by
  refine ⟨normalForm_of_fixed fun _ _ => acceptSlug_fixed,
    normalForm_of_fixed fun _ _ accepted => acceptOwner_self (acceptOwner_group accepted), ?_, ?_⟩
  · intro raw owner accepted
    have group := acceptOwner_group accepted
    exact ⟨acceptOwner_self group, acceptOwner_wildcard group, fun slug valid => firstSegment_iff valid group⟩
  · intro slug valid
    obtain ⟨g, rest, rfl, group⟩ := owner_of_slug valid
    have accepted : acceptOwner mapping g = some g := acceptOwner_self group
    rw [firstSegment_eq group.no_slash]
    refine ⟨accepted, ?_⟩
    simp [granted, valid, selects, normalizeRepositoryOwners, normalizeNames, accepted,
      firstSegment_eq group.no_slash, mem_sortStrings]

end DevHealth.Readers

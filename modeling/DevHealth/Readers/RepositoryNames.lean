import DevHealth.Go.Runes
import DevHealth.Readers.SelectorsLaws

/-! # Repository names in Go and in SQL

`workItemRepoSlug` puts a stored name in the form that `normalizeRepositorySlugs` puts a
given one in.  The database trims spaces, then white space by a pattern, and its lower case
leaves two capitals that two replacements then see to. -/
set_option autoImplicit false
namespace DevHealth.Readers

open Go Lib Lib.Sql Clickhouse Repokey

/-! ## What the database does -/

/-- `\p{Zs}`, `\p{Zl}` and `\p{Zp}` -/
def isSeparator (r : Nat) : Bool :=
  r == 0x20 || r == 0xA0 || r == 0x1680 || (decide (0x2000 ≤ r) && decide (r ≤ 0x200A)) || r == 0x2028 ||
    r == 0x2029 || r == 0x202F || r == 0x205F || r == 0x3000

/-- `[\p{Zs}\p{Zl}\p{Zp}\t\n\r\v\f\x{85}]` -/
def isTrimmed (r : Nat) : Bool :=
  isSeparator r || r == 0x09 || r == 0x0A || r == 0x0D || r == 0x0B || r == 0x0C || r == 0x85

/-- `workItemRepositoryWhitespacePattern` as RE2 reads it. -/
def whitespacePattern : Pattern CodePoint := .ends isTrimmed

def kelvinSign : CodePoint := 0x212A
def dottedCapitalI : CodePoint := 0x130

/-- What Unicode says of the two capitals with an ASCII lower case: they have it, and are the
lower case of nothing. -/
structure IsUnicode (mapping : CaseMapping) : Prop where
  kelvin : mapping.lower kelvinSign = 0x6B
  dotted : mapping.lower dottedCapitalI = 0x69
  capitals : ∀ r, mapping.lower r ≠ kelvinSign ∧ mapping.lower r ≠ dottedCapitalI
  valid : ∀ r, ValidRune r → ValidRune (mapping.lower r)

/-- The functions of the database on valid texts: RE2, and lower case but for two capitals. -/
structure ReadsNames (mapping : CaseMapping) (engine : Engine) : Prop where
  whitespace : ∀ s, ValidUTF8 s → engine.replaceRegexpAll s workItemRepositoryWhitespacePattern [] =
    (whitespacePattern.replaceAll [] (runes s)).flatMap encodeRune
  lower : ∀ s, ValidUTF8 s → engine.lowerUTF8 s = (runes s).flatMap fun r =>
    encodeRune (if r = kelvinSign ∨ r = dottedCapitalI then r else mapping.lower r)
  slugPattern : ∀ slug, engine.search slug slugPatternText = slugPattern.accepts slug

/-! ## White space -/

theorem isTrimmed_eq : isTrimmed = isSpaceRune := by
  funext r
  rw [Bool.eq_iff_iff]
  simp only [isTrimmed, isSeparator, isSpaceRune, Bool.or_eq_true, Bool.and_eq_true, beq_iff_eq,
    decide_eq_true_eq, List.contains_eq_mem, List.mem_cons, List.not_mem_nil, or_false]
  omega

theorem trimMarks_byte (b : UInt8) (s : Bytes) :
    ∀ fuel, s.length ≤ fuel → trimMarks [[b]] fuel s = s.dropWhile (· == b) := by
  induction s with
  | nil =>
    intro fuel _
    cases fuel <;> rfl
  | cons c s ih =>
    intro fuel enough
    rw [List.length_cons] at enough
    obtain ⟨less, rfl⟩ : ∃ less, fuel = less + 1 := Nat.exists_eq_add_one.mpr (by omega)
    by_cases same : c = b
    · simp [trimMarks, same, ih less (by omega)]
    · simp [trimMarks, same, Ne.symm same]

theorem trimBoth_runes {text : List CodePoint} (each : ∀ r ∈ text, ValidRune r) :
    trimBoth (text.flatMap encodeRune) = (trimRunes (· == 0x20) text).flatMap encodeRune := by
  have valid : ∀ k ∈ [0x20], ValidRune k := by
    unfold ValidRune
    decide
  have space : ∀ r : CodePoint, [0x20].contains r = (r == 0x20) := by
    intro r
    rw [List.contains_cons, List.contains_nil, Bool.or_false]
  have front := trimMarks_runes prefixCode_encodeRune (fun _ => encodeRune_ne_nil) valid each _ (Nat.le_refl _)
  have kept : ∀ r ∈ (text.dropWhile (· == 0x20)).reverse, ValidRune r := by
    intro r inside
    exact each r ((List.dropWhile_sublist _).subset (List.mem_reverse.mp inside))
  have back := trimMarks_runes prefixCode_reversed (fun r valid => by simpa using encodeRune_ne_nil valid)
    valid kept _ (Nat.le_refl _)
  have mark : [0x20].map encodeRune = [[0x20]] := by decide
  have mark' : [0x20].map (List.reverse ∘ encodeRune) = [[0x20]] := by decide
  rw [mark, trimMarks_byte _ _ _ (Nat.le_refl _)] at front
  rw [mark', trimMarks_byte _ _ _ (Nat.le_refl _)] at back
  simp only [space] at front back
  rw [trimBoth, front, List.reverse_flatMap, back, trimRunes, List.rdropWhile, List.flatMap_reverse]

/-! ## Replacing a rune -/

theorem replaceLoop_skip {b : UInt8} {pattern new : Bytes} (leads : isContinuation b = false) {tail : Bytes}
    (follow : ∀ c ∈ tail, isContinuation c = true) (x : Bytes) (fuel : Nat) :
    replaceLoop (b :: pattern) new (fuel + tail.length) (tail ++ x) =
      tail ++ replaceLoop (b :: pattern) new fuel x := by
  induction tail with
  | nil => rfl
  | cons c tail ih =>
    obtain ⟨continues, others⟩ := List.forall_mem_cons.mp follow
    have apart : (b :: pattern).isPrefixOf (c :: (tail ++ x)) = false := by
      rw [List.isPrefixOf_cons_cons]
      have different : (b == c) = false := by
        rw [beq_eq_false_iff_ne]
        rintro rfl
        rw [leads] at continues
        cases continues
      rw [different, Bool.false_and]
    rw [List.length_cons, ← Nat.add_assoc, List.cons_append, replaceLoop, apart]
    simp [ih others]

theorem replaceLoop_rune {k : CodePoint} (validK : ValidRune k) (new : Bytes) {text : List CodePoint}
    (each : ∀ r ∈ text, ValidRune r) :
    ∀ fuel, (text.flatMap encodeRune).length ≤ fuel →
      replaceLoop (encodeRune k) new fuel (text.flatMap encodeRune) =
        text.flatMap fun r => if r = k then new else encodeRune r := by
  obtain ⟨lead, pattern, pattern_eq, leads, -⟩ := encodeRune_shape validK
  induction text with
  | nil =>
    intro fuel _
    cases fuel <;> rfl
  | cons r text ih =>
    intro fuel enough
    obtain ⟨validR, others⟩ := List.forall_mem_cons.mp each
    obtain ⟨b, tail, sequence, -, follow⟩ := encodeRune_shape validR
    rw [List.flatMap_cons, List.length_append] at enough
    rw [List.flatMap_cons, List.flatMap_cons]
    by_cases same : r = k
    · subst same
      have starts : (encodeRune r).isPrefixOf (encodeRune r ++ text.flatMap encodeRune) = true :=
        List.isPrefixOf_iff_prefix.mpr (List.prefix_append ..)
      have dropped : (encodeRune r ++ text.flatMap encodeRune).drop (encodeRune r).length =
          text.flatMap encodeRune := List.drop_left
      rw [if_pos rfl]
      rw [sequence, List.length_cons] at enough
      obtain ⟨less, rfl⟩ : ∃ less, fuel = less + 1 := Nat.exists_eq_add_one.mpr (by omega)
      rw [← ih others less (by omega)]
      rw [sequence, List.cons_append] at starts dropped ⊢
      rw [replaceLoop, if_pos starts, dropped]
    · have apart : ¬ (encodeRune k).isPrefixOf (encodeRune r ++ text.flatMap encodeRune) = true := by
        intro starts
        exact same (encodeRune_starts validK validR (List.isPrefixOf_iff_prefix.mp starts)).symm
      rw [if_neg same]
      rw [sequence, List.length_cons] at enough
      obtain ⟨less, rfl⟩ : ∃ less, fuel = less + tail.length + 1 := ⟨fuel - tail.length - 1, by omega⟩
      rw [← ih others less (by omega)]
      rw [sequence, List.cons_append] at apart ⊢
      rw [replaceLoop, if_neg apart, pattern_eq, replaceLoop_skip leads follow, List.cons_append]

theorem replaceAll_rune {a b : CodePoint} (validA : ValidRune a) {text : List CodePoint}
    (each : ∀ r ∈ text, ValidRune r) :
    replaceAll (text.flatMap encodeRune) (encodeRune a) (encodeRune b) =
      (text.map fun r => if r = a then b else r).flatMap encodeRune := by
  rw [replaceAll, if_neg (encodeRune_ne_nil validA), replaceLoop_rune validA _ each _ (Nat.le_refl _),
    List.flatMap_map]
  congr 1
  funext r
  split_ifs <;> rfl

/-! ## The two pipelines -/

section Agree

variable {mapping : CaseMapping} (unicode : IsUnicode mapping)

include unicode

/-- Lower case but for two capitals, and then these, is lower case. -/
theorem lower_in_steps (r : CodePoint) : (fun r => if r = dottedCapitalI then 0x69 else r)
      ((fun r => if r = kelvinSign then 0x6B else r)
        (if r = kelvinSign ∨ r = dottedCapitalI then r else mapping.lower r)) = mapping.lower r := by
  have apart : dottedCapitalI ≠ kelvinSign := by decide
  have ascii : (0x6B : CodePoint) ≠ dottedCapitalI := by decide
  by_cases isKelvin : r = kelvinSign
  · simp [isKelvin, ascii, unicode.kelvin]
  · by_cases isDotted : r = dottedCapitalI
    · simp [isDotted, apart, unicode.dotted]
    · simp [isKelvin, isDotted, unicode.capitals r]

theorem slugOf_eq {engine : Engine} (reads : ReadsNames mapping engine) {s : Bytes} (valid : ValidUTF8 s) :
    slugOf engine (some s) = toLower mapping (trimSpace s) := by
  obtain ⟨text, each, rfl⟩ := valid
  have trimmed : ∀ p, ∀ r ∈ trimRunes p text, ValidRune r := by
    intro p r inside
    rw [trimRunes] at inside
    exact each r ((List.dropWhile_sublist _).subset ((List.rdropWhile_prefix _ _).subset inside))
  have weaker : ∀ r : CodePoint, (r == 0x20) = true → isSpaceRune r = true := by
    intro r space
    rw [beq_iff_eq.mp space]
    rfl
  have two : ValidRune kelvinSign ∧ ValidRune dottedCapitalI := by
    unfold ValidRune
    decide
  have small : ValidRune 0x6B := by
    unfold ValidRune
    decide
  -- White space: spaces first, then the pattern.
  have stripped : engine.replaceRegexpAll (trimBoth (text.flatMap encodeRune))
      workItemRepositoryWhitespacePattern [] = (trimRunes isSpaceRune text).flatMap encodeRune := by
    rw [trimBoth_runes each, reads.whitespace _ ⟨_, trimmed _, rfl⟩, runes_flatMap (trimmed _),
      whitespacePattern, Pattern.replaceAll_ends, isTrimmed_eq, ← trimRunes, trimRunes_trimRunes weaker]
  -- Lower case: all but two capitals first, then each of them.
  have lowered : ∀ r ∈ (trimRunes isSpaceRune text).map fun r =>
      if r = kelvinSign ∨ r = dottedCapitalI then r else mapping.lower r, ValidRune r := by
    rw [List.forall_mem_map]
    intro r inside
    split_ifs
    · exact trimmed _ r inside
    · exact unicode.valid r (trimmed _ r inside)
  have kelvins : ∀ r ∈ ((trimRunes isSpaceRune text).map fun r =>
      if r = kelvinSign ∨ r = dottedCapitalI then r else mapping.lower r).map
        (fun r => if r = kelvinSign then 0x6B else r), ValidRune r := by
    rw [List.forall_mem_map]
    intro r inside
    split_ifs
    · exact small
    · exact lowered r inside
  have k : encodeRune kelvinSign = kelvin ∧ encodeRune 0x6B = ascii "k" := by decide
  have i : encodeRune dottedCapitalI = dottedI ∧ encodeRune 0x69 = ascii "i" := by decide
  rw [slugOf, Option.getD_some, stripped, reads.lower _ ⟨_, trimmed _, rfl⟩, runes_flatMap (trimmed _),
    ← List.flatMap_map, ← k.1, ← k.2, replaceAll_rune two.1 lowered, ← i.1, ← i.2,
    replaceAll_rune two.2 kelvins, trimSpace_runes each, toLower, runes_flatMap (trimmed _),
    List.map_map, List.map_map, List.flatMap_map]
  congr 1
  funext r
  exact congrArg encodeRune (lower_in_steps unicode r)

/-- Go and the database accept the same names with the same slug, and an exact grant matches
the names with its slug. -/
theorem names_agree {env : Env Column} (reads : ReadsNames mapping env.engine) {s : Bytes}
    (valid : ValidUTF8 s) (stored : env.column (Alias.r.dot .repo) = some (.str s)) :
    (∀ v, acceptSlug mapping s = some v ↔
        value env workItemRepoSlug = some (.str v) ∧ holds env workItemRepoSlugValid = true) ∧
      ∀ grants, env.param "granted_repo_slugs" = some (.array (normalizeRepositorySlugs mapping grants)) →
        env.param "granted_repo_owners" = some (.array []) →
        (holds env (sql [workItemRepoSlugValid, [.and], repositorySelectorMatch "granted"]) = true ↔
          ∃ g ∈ grants, ∃ v, acceptSlug mapping g = some v ∧ acceptSlug mapping s = some v) := by
  have column : env.column (Alias.r.dot .repo) = some (.ofOption .str (some s)) := stored
  have slug : Denotes env .prim workItemRepoSlug (.str (slugOf env.engine (some s))) :=
    repositorySlug_reads (Alias.r.dot .repo) column
  have truth : ∀ b, Truth.ofBool b = Truth.yes ↔ b = true := by
    intro b
    cases b <;> simp [Truth.ofBool]
  have same := slugOf_eq unicode reads valid
  have accepts : ∀ v, acceptSlug mapping s = some v ↔
      slugOf env.engine (some s) = v ∧ validSlug (slugOf env.engine (some s)) = true := by
    intro v
    simp only [acceptSlug, ← same]
    split_ifs with isSlug
    · simp [isSlug]
    · simp [isSlug]
  refine ⟨?_, ?_⟩
  · intro v
    have written : value env workItemRepoSlug = some (.str (slugOf env.engine (some s))) :=
      slug.disj_of_prim.value_eq
    have checked := (slugValid_reads slug (reads.slugPattern _)).disj_of_prim.holds_iff
    rw [accepts, written, workItemRepoSlugValid, checked, truth, Option.some.injEq, Value.str.injEq]
  · intro grants slugs owners
    have matched : Denotes env .conj
        (sql [workItemRepoSlugValid, [.and], repositorySelectorMatch "granted"]) _ :=
      grantedMatch_reads (Alias.r.dot .repo) (some s) column reads.slugPattern slugs owners
    have listed : slugOf env.engine (some s) ∈ normalizeRepositorySlugs mapping grants ↔
        ∃ g ∈ grants, acceptSlug mapping g = some (slugOf env.engine (some s)) := by
      rw [normalizeRepositorySlugs, mem_sortStrings, mem_normalizeNames]
      simp
    rw [matched.disj_of_conj.holds_iff, truth]
    simp only [granted, selects, Bool.and_eq_true, Bool.or_eq_true, decide_eq_true_eq, List.not_mem_nil,
      or_false, listed, accepts]
    constructor
    · intro both
      obtain ⟨isSlug, g, given, accepted⟩ := both
      exact ⟨g, given, _, accepted, rfl, isSlug⟩
    · intro found
      obtain ⟨g, given, v, accepted, rfl, isSlug⟩ := found
      exact ⟨isSlug, g, given, accepted⟩

end Agree

/-! ## A server -/

/-- The lower case of ASCII and of the two capitals. -/
def smallLower (r : Nat) : Nat :=
  if r = 0x212A then 0x6B else if r = 0x130 then 0x69 else if 65 ≤ r ∧ r ≤ 90 then r + 32 else r

theorem smallLower_ascii (r : Nat) (small : r < 0x80) : smallLower r = asciiLower r := by
  rw [smallLower, if_neg (by omega), if_neg (by omega), asciiLower]

def smallMapping : CaseMapping where
  lower := smallLower
  ascii := smallLower_ascii

theorem smallLower_capitals (r : Nat) : smallLower r ≠ 0x212A ∧ smallLower r ≠ 0x130 := by
  unfold smallLower
  split_ifs <;> omega

theorem smallLower_cases (r : Nat) : smallLower r < 0x80 ∨ smallLower r = r := by
  unfold smallLower
  split_ifs <;> omega

theorem smallMapping_unicode : IsUnicode smallMapping where
  kelvin := by decide
  dotted := by decide
  capitals := smallLower_capitals
  valid := by
    intro r valid
    rcases smallLower_cases r with small | same
    · exact ⟨by simp only [smallMapping]; omega, isSurrogate_false (.inl (by simp only [smallMapping]; omega))⟩
    · simp only [smallMapping, same]
      exact valid

/-- A server that reads names, with one name stored and one slug granted. -/
def namesEnv (stored granted : Bytes) : Env Column where
  engine :=
    { lowerUTF8 := fun s => (runes s).flatMap fun r =>
        encodeRune (if r = kelvinSign ∨ r = dottedCapitalI then r else smallMapping.lower r)
      replaceRegexpAll := fun s _ _ => (whitespacePattern.replaceAll [] (runes s)).flatMap encodeRune
      search := fun slug _ => slugPattern.accepts slug
      now := 1000
      joinUseNulls := false }
  column := fun _ => some (.str stored)
  param := fun name => some (.array (if name = "granted_repo_slugs" then
    normalizeRepositorySlugs smallMapping [granted] else []))
  subquery := fun _ => none

theorem namesEnv_reads (stored granted : Bytes) : ReadsNames smallMapping (namesEnv stored granted).engine where
  whitespace _ _ := rfl
  lower _ _ := rfl
  slugPattern _ := rfl

/-- A name with a Kelvin sign and a no-break space, and a grant in capitals. -/
theorem kelvinName_agrees :
    acceptSlug smallMapping (ascii "O/" ++ kelvin ++ [0xC2, 0xA0]) = some (ascii "o/k") ∧
      (value (namesEnv (ascii "O/" ++ kelvin ++ [0xC2, 0xA0]) (ascii "O/K")) workItemRepoSlug =
          some (.str (ascii "o/k")) ∧
        holds (namesEnv (ascii "O/" ++ kelvin ++ [0xC2, 0xA0]) (ascii "O/K")) workItemRepoSlugValid = true) ∧
      holds (namesEnv (ascii "O/" ++ kelvin ++ [0xC2, 0xA0]) (ascii "O/K"))
        (sql [workItemRepoSlugValid, [.and], repositorySelectorMatch "granted"]) = true := by
  have valid : ValidUTF8 (ascii "O/" ++ kelvin ++ [0xC2, 0xA0]) := by
    refine ⟨[0x4F, 0x2F, 0x212A, 0xA0], ?_, by decide⟩
    unfold ValidRune
    decide
  have agree := names_agree smallMapping_unicode (namesEnv_reads _ (ascii "O/K")) valid rfl
  have stored : acceptSlug smallMapping (ascii "O/" ++ kelvin ++ [0xC2, 0xA0]) = some (ascii "o/k") := by
    decide +kernel
  have given : acceptSlug smallMapping (ascii "O/K") = some (ascii "o/k") := by decide +kernel
  refine ⟨stored, (agree.1 _).mp stored, ?_⟩
  exact (agree.2 [ascii "O/K"] rfl rfl).mpr ⟨_, List.mem_singleton.mpr rfl, _, given, stored⟩

end DevHealth.Readers

import DevHealth.Authverify.Wire

/-! # The documents inside a token

The segments of a token, and what the readers of the verifiers take from the documents in
them, as predicates on the syntax tree of a document. -/
set_option autoImplicit false
namespace DevHealth.Authverify

open Go Lib

variable {body : Json (.body .object)} {name : Bytes} {raw : Bytes}
  {token header payload signature : Bytes}

/-! ## Segments -/

structure Segments (token header payload signature : Bytes) : Prop where
  split : token.splitOn 0x2E = [header, payload, signature]
  alphabet : ∀ part ∈ [header, payload, signature], ∀ b ∈ part, isBase64URL b = true

theorem ink_of_base64URL {b : UInt8} (url : isBase64URL b = true) : isInk b = true := by
  have low : '0'.toNat = 48 ∧ '9'.toNat = 57 ∧ 'A'.toNat = 65 ∧ 'Z'.toNat = 90 ∧ 'a'.toNat = 97 ∧
    'z'.toNat = 122 := by decide
  simp only [isBase64URL, between, Bool.or_eq_true, Bool.and_eq_true, decide_eq_true_eq, beq_iff_eq] at url
  simp only [isInk, Bool.and_eq_true, decide_eq_true_eq]
  rcases url with (((upper | lower) | digit) | rfl) | rfl
  · omega
  · omega
  · omega
  · decide
  · decide

theorem Segments.text (segments : Segments token header payload signature) :
    token = header ++ 0x2E :: (payload ++ 0x2E :: signature) := by
  have joined : [0x2E].intercalate (token.splitOn 0x2E) = token := List.intercalate_splitOn 0x2E
  rw [segments.split] at joined
  rw [← joined]
  simp [List.intercalate, List.intersperse]

theorem Segments.trimmed (segments : Segments token header payload signature) : trimSpace token = token := by
  apply trimSpace_all_ink
  intro b inside
  rw [segments.text] at inside
  simp only [List.mem_append, List.mem_cons] at inside
  have url := fun part member inPart => ink_of_base64URL (segments.alphabet part member b inPart)
  rcases inside with inHeader | rfl | inPayload | rfl | inSignature
  · exact url header (by simp) inHeader
  · decide
  · exact url payload (by simp) inPayload
  · decide
  · exact url signature (by simp) inSignature

theorem splitCompact_iff : splitCompact token = some (header, payload, signature) ↔
      token.length ≤ maxTokenBytes ∧ Segments token header payload signature := by
  constructor
  · intro split
    rw [splitCompact] at split
    split_ifs at split with long
    split at split
    · rename_i h p s parts
      split_ifs at split with alphabet
      cases split
      simp only [base64URLAlphabet, Bool.and_eq_true, List.all_eq_true] at alphabet
      simp only [Bool.or_eq_true, decide_eq_true_eq, not_or, Nat.not_lt] at long
      refine ⟨long.1, parts, ?_⟩
      simpa using ⟨alphabet.1.1, alphabet.1.2, alphabet.2⟩
    · cases split
  · rintro ⟨short, segments⟩
    have alphabet : ∀ part ∈ [header, payload, signature], base64URLAlphabet part = true :=
      fun part member => List.all_eq_true.mpr (segments.alphabet part member)
    simp [splitCompact, Nat.not_lt.mpr short, segments.trimmed, segments.split, alphabet]

theorem Segments.decoded_short (segments : Segments token header payload signature)
    (short : token.length ≤ maxTokenBytes) {part decoded : Bytes}
    (inside : part ∈ [header, payload, signature]) (read : rawURLDecode true part = some decoded) :
    decoded.length ≤ maxNestingDepth := by
  have text := congrArg List.length segments.text
  have le := rawURLDecode_length read
  have partShort : part.length ≤ token.length := by
    simp only [List.length_append, List.length_cons] at text
    simp only [List.mem_cons, List.not_mem_nil, or_false] at inside
    rcases inside with rfl | rfl | rfl <;> omega
  simp only [maxTokenBytes] at short
  simp only [maxNestingDepth]
  omega

/-! ## Members -/

/-- The values of the members are within the nesting limit. -/
def Shallow (body : Json (.body .object)) : Prop :=
  ∀ e ∈ body.entries, e.2.nesting ≤ maxNestingDepth

theorem Shallow.named {v : Json .value} (shallow : Shallow body) (found : named body name = some v) :
    v.nesting ≤ maxNestingDepth := by
  obtain ⟨content, inside, -⟩ := mem_entries_of_named found
  exact shallow _ inside

theorem anyString_iff (shallow : Shallow body) {s : Bytes} :
    ((rawMembers body).get name).bind anyString = some s ↔ namedString body name = some s := by
  rw [get_rawMembers, namedString]
  cases found : named body name with
  | none => rfl
  | some v =>
    have read := scanDocument_value v (shallow.named found)
    simp only [Option.map_some, Option.bind_some, anyString, read]
    cases v with
    | @box b inner => cases b <;> rfl
    | _ => rfl

theorem stringMember_iff (shallow : Shallow body) {pattern : Option (Regex UInt8)} {s : Bytes} :
    stringMember (rawMembers body) name pattern = some s ↔
      namedString body name = some s ∧ pattern.all (·.accepts s) = true := by
  rw [stringMember, Option.filter_eq_some_iff, anyString_iff shallow]
  cases pattern <;> simp

/-! ## Dates -/

/-- A member that is a plain integer in the range of the contract. -/
def DateMember (body : Json (.body .object)) (name : Bytes) (n : Int) : Prop :=
  ∃ digits valid, named body name = some (.num digits valid) ∧
    (∀ b ∈ digits, isDigit b = true) ∧ (digitsValue digits : Int) = n ∧ 1 ≤ n ∧ n ≤ maxNumericDate

theorem number_nonempty {digits : Bytes} (valid : IsNumber digits) : digits ≠ [] := by
  obtain ⟨b, rest, rfl, -⟩ := head_of_number valid
  exact List.cons_ne_nil _ _

theorem integer_of_digits {digits : Bytes} (valid : IsNumber digits)
    (all : ∀ b ∈ digits, isDigit b = true) : IsInteger digits := by
  cases valid with
  | negative unsigned => exact absurd (all _ (List.mem_cons_self ..)) (by decide)
  | unsigned unsigned =>
    obtain ⟨int, frac, exp, rfl, integer, fraction, exponent⟩ := unsigned
    have noFraction : frac = [] := by
      cases fraction with
      | none => rfl
      | digits ds => exact absurd (all 0x2E (by simp)) (by decide)
    have noExponent : exp = [] := by
      have notMark : ∀ e, isExponentMark e = true → isDigit e = true → False := by
        intro e mark digit
        simp only [isExponentMark, Bool.or_eq_true, beq_iff_eq] at mark
        rcases mark with rfl | rfl <;> exact absurd digit (by decide)
      cases exponent with
      | none => rfl
      | plain mark ds | signed mark sign ds => exact (notMark _ mark (all _ (by simp))).elim
    simpa [noFraction, noExponent] using integer

theorem date_length {digits : Bytes} (valid : IsNumber digits)
    (all : ∀ b ∈ digits, isDigit b = true) (high : (digitsValue digits : Int) ≤ maxNumericDate) :
    digits.length ≤ 12 := by
  cases integer_of_digits valid all with
  | zero => decide
  | @digits b rest first others =>
    have ge : 10 ^ rest.length ≤ digitsValue (b :: rest) := digitsValue_ge first
    have small : digitsValue (b :: rest) < 10 ^ 12 := by
      simp only [maxNumericDate] at high
      omega
    have lt : rest.length < 12 := (Nat.pow_lt_pow_iff_right (by decide)).mp (ge.trans_lt small)
    rw [List.length_cons]
    omega

theorem anyNumber_iff (shallow : Shallow body) {digits : Bytes} :
    ((rawMembers body).get name).bind anyNumber = some digits ↔
      ∃ valid, named body name = some (.num digits valid) := by
  rw [get_rawMembers]
  cases found : named body name with
  | none => simp
  | some v =>
    have read := scanDocument_value v (shallow.named found)
    simp only [Option.map_some, Option.bind_some, anyNumber, read]
    cases v with
    | num ds valid =>
      simp only [shapeOf, Option.some.injEq]
      constructor
      · rintro rfl
        exact ⟨valid, rfl⟩
      · rintro ⟨_, same⟩
        cases same
        rfl
    | @box b inner => cases b <;> simp [shapeOf]
    | _ => simp [shapeOf]

theorem digitsOnly_iff {digits : Bytes} :
    digitsOnly.accepts digits = true ↔ digits ≠ [] ∧ ∀ b ∈ digits, isDigit b = true := by
  rw [Regex.accepts_iff, digitsOnly, Regex.plus, Regex.mem_lang_seq]
  constructor
  · rintro ⟨_, ⟨b, first, rfl⟩, rest, others, rfl⟩
    refine ⟨by simp, ?_⟩
    intro c inside
    rcases List.mem_cons.mp inside with rfl | inside
    · exact first
    · exact Regex.mem_lang_star_cls.mp others c inside
  · rintro ⟨filled, all⟩
    cases digits with
    | nil => exact absurd rfl filled
    | cons b rest =>
      exact ⟨[b], ⟨b, all b (List.mem_cons_self ..), rfl⟩, rest,
        Regex.mem_lang_star_cls.mpr fun c inside => all c (List.mem_cons_of_mem _ inside), rfl⟩

theorem numericDate_iff (shallow : Shallow body) {n : Int} :
    numericDate (rawMembers body) name = some n ↔ DateMember body name n := by
  rw [numericDate]
  constructor
  · intro read
    cases found : ((rawMembers body).get name).bind anyNumber with
    | none =>
      rw [found] at read
      cases read
    | some digits =>
      rw [found] at read
      simp only [Option.ite_none_left_eq_some, Bool.or_eq_true, Bool.not_eq_true',
        decide_eq_true_eq, not_or, Bool.not_eq_false, Option.filter_eq_some_iff,
        Bool.and_eq_true] at read
      obtain ⟨⟨only, -⟩, parsed, low, high⟩ := read
      obtain ⟨valid, member⟩ := (anyNumber_iff shallow).mp found
      obtain ⟨filled, all⟩ := digitsOnly_iff.mp only
      rw [parseInt_digits filled all] at parsed
      split_ifs at parsed
      exact ⟨digits, valid, member, all, Option.some.inj parsed, low, high⟩
  · rintro ⟨digits, valid, member, all, rfl, low, high⟩
    have found := (anyNumber_iff shallow).mpr ⟨valid, member⟩
    have filled := number_nonempty valid
    have small : digitsValue digits < 2 ^ 63 := by
      simp only [maxNumericDate] at high
      omega
    have length := date_length valid all high
    have high' : (digitsValue digits : Int) ≤ maxNumericDate := high
    rw [found]
    simp [digitsOnly_iff.mpr ⟨filled, all⟩, Nat.not_lt.mpr length, parseInt_digits filled all, low, high']
    exact small

/-! ## Documents -/

/-- One object with white space around it whose members are exactly these. -/
structure Document (names : List Bytes) (raw : Bytes) (body : Json (.body .object)) : Prop where
  text : ∃ lead trail, raw = lead ++ ((Json.box body).text ++ trail) ∧ IsBlank lead ∧ IsBlank trail
  members : (memberNames body).Perm names

/-- One object with white space around it: no name twice, none that is not allowed, and all
that are required. -/
structure ClosedDocument (allowed required : List Bytes) (raw : Bytes)
    (body : Json (.body .object)) : Prop where
  text : ∃ lead trail, raw = lead ++ ((Json.box body).text ++ trail) ∧ IsBlank lead ∧ IsBlank trail
  distinct : (memberNames body).Nodup
  allowed : ∀ name ∈ memberNames body, name ∈ allowed
  required : ∀ name ∈ required, name ∈ memberNames body

theorem closedDocument_exact {names : List Bytes} (distinct : names.Nodup) :
    ClosedDocument names names raw body ↔ Document names raw body := by
  constructor
  · intro document
    exact ⟨document.text, (List.perm_ext_iff_of_nodup document.distinct distinct).mpr fun name =>
      ⟨document.allowed name, document.required name⟩⟩
  · intro document
    exact ⟨document.text, document.members.nodup_iff.mpr distinct,
      fun name => document.members.mem_iff.mp, fun name => document.members.mem_iff.mpr⟩

theorem Document.named_some {names : List Bytes} (document : Document names raw body)
    (inside : name ∈ names) : ∃ v, named body name = some v :=
  Option.isSome_iff_exists.mp (isSome_named.mpr (document.members.mem_iff.mpr inside))

theorem nesting_of_short {lead trail : Bytes} {t : Json .value} (text : raw = lead ++ (t.text ++ trail))
    (short : raw.length ≤ maxNestingDepth) : t.nesting ≤ maxNestingDepth := by
  have le := Json.nesting_le_text t
  rw [text, List.length_append, List.length_append] at short
  omega

theorem decodeObject_iff {folding : CaseFolding} (short : raw.length ≤ maxNestingDepth) {object : RawObject} :
    decodeObject folding raw = some object ↔ ∃ lead, ∃ body : Json (.body .object), ∃ trail,
        raw = lead ++ ((Json.box body).text ++ trail) ∧ IsBlank lead ∧ IsBlank trail ∧
        Strict (equalFold folding) raw.length 0 (Json.box body) ∧ object = rawMembers body := by
  have single : singleDocumentWithoutDuplicateMembers folding raw = true ↔ _ :=
    strictDocument_iff raw.length raw
  rw [decodeObject]
  constructor
  · intro read
    split_ifs at read with accepted
    obtain ⟨lead, t, trail, text, leadBlank, trailBlank, strict⟩ := single.mp accepted
    have bounded := nesting_of_short text short
    rw [text] at read
    obtain ⟨body, rfl, rfl⟩ := (decodeObject_text leadBlank trailBlank bounded).mp read
    exact ⟨lead, body, trail, text, leadBlank, trailBlank, strict, rfl⟩
  · rintro ⟨lead, body, trail, text, leadBlank, trailBlank, strict, rfl⟩
    rw [if_pos (single.mpr ⟨lead, .box body, trail, text, leadBlank, trailBlank, strict⟩)]
    have bounded := nesting_of_short text short
    rw [text]
    exact (decodeObject_text leadBlank trailBlank bounded).mpr ⟨body, rfl, rfl⟩

/-- Names in ASCII that differ even when their case is ignored. -/
def NamesApart (names : List Bytes) : Prop :=
  (∀ a ∈ names, ∀ b ∈ a, isASCII b = true) ∧
    (names.map fun a => (a.map UInt8.toNat).map asciiLower).Nodup

instance (names : List Bytes) : Decidable (NamesApart names) := inferInstanceAs (Decidable (_ ∧ _))

theorem NamesApart.nodup {names : List Bytes} (apart : NamesApart names) : names.Nodup := apart.2.of_map

/-- A string, a literal or a number that has a double. -/
def Plain (v : Json .value) : Prop := ∃ x, scalarOf v = some x ∧ x.fits = true

theorem Plain.strict {v : Json .value} (plain : Plain v) (same : Bytes → Bytes → Bool) :
    v.depth = 0 ∧ v.nesting = 0 ∧ v.NoRepeats same ∧ v.AllNumbers fitsDouble := by
  obtain ⟨x, scalar, fits⟩ := plain
  cases v with
  | box inner => cases scalar
  | num digits valid =>
    cases scalar
    exact ⟨rfl, rfl, trivial, fits⟩
  | _ => exact ⟨rfl, rfl, trivial, trivial⟩

/-- A value in which the strict scan finds no repeated name and no number too large. -/
def TameValue (folding : CaseFolding) (v : Json .value) : Prop :=
  v.NoRepeats (sameName (equalFold folding)) ∧ v.AllNumbers fitsDouble

def Tame (folding : CaseFolding) (body : Json (.body .object)) : Prop :=
  ∀ e ∈ body.entries, TameValue folding e.2

section
variable {allowed required : List Bytes} (document : ClosedDocument allowed required raw body)
include document

theorem ClosedDocument.entries_of_named {P : Json .value → Prop}
    (each : ∀ name ∈ allowed, ∀ v, named body name = some v → P v) :
    ∀ e ∈ body.entries, P e.2 := by
  rintro ⟨content, v⟩ inside
  have member : unquote content ∈ memberNames body := List.mem_map.mpr ⟨_, inside, rfl⟩
  exact each _ (document.allowed _ member) v (named_of_entry document.distinct inside)

theorem ClosedDocument.shallow (short : raw.length ≤ maxNestingDepth) : Shallow body := by
  intro e inside
  obtain ⟨lead, trail, text, -⟩ := document.text
  exact (Json.entries_nesting inside).trans (box_nesting (nesting_of_short text short))

theorem ClosedDocument.strict (apart : NamesApart allowed) (short : raw.length ≤ maxNestingDepth)
    {folding : CaseFolding} (tame : Tame folding body) : Strict (equalFold folding) raw.length 0 (Json.box body) := by
  have differ : (memberNames body).Pairwise fun a b => equalFold folding a b = false := by
    have lowered := List.inj_on_of_nodup_map apart.2
    refine document.distinct.imp_of_mem ?_
    intro a b inA inB different
    have allowedA := document.allowed a inA
    have allowedB := document.allowed b inB
    rw [equalFold_ascii folding (apart.1 a allowedA) (apart.1 b allowedB)]
    exact decide_eq_false fun same => different (lowered allowedA allowedB same)
  refine ⟨?_, ?_, ⟨?_, ?_⟩, ?_⟩
  · obtain ⟨lead, trail, rfl, -⟩ := document.text
    have depth := Json.depth_le_text (Json.box body)
    simp only [List.length_append]
    omega
  · obtain ⟨lead, trail, text, -⟩ := document.text
    exact (Nat.zero_add _).trans_le (nesting_of_short text short)
  · rw [memberNames, List.pairwise_map] at differ
    rw [List.pairwise_map]
    exact differ
  · refine Json.noRepeats_of_entries (t := body) ?_ fun e inside => (tame e inside).1
    intro scalar
    cases scalar
  · refine Json.allNumbers_of_entries (t := body) ?_ fun e inside => (tame e inside).2
    intro scalar
    cases scalar

end

theorem nodup_of_noRepeats {folding : CaseFolding} {body : Json (.body .object)}
    (distinct : (Json.box body).NoRepeats (sameName (equalFold folding))) :
    (memberNames body).Nodup := by
  have differ := distinct.1
  rw [List.pairwise_map] at differ
  rw [List.Nodup, memberNames, List.pairwise_map]
  refine differ.imp ?_
  intro a b different same
  rw [sameName, same, equalFold_refl] at different
  cases different

theorem decodeObject_closed {allowed required : List Bytes} (apart : NamesApart allowed)
    (folding : CaseFolding) (short : raw.length ≤ maxNestingDepth) {object : RawObject} :
    (decodeObject folding raw = some object ∧ closedSet object allowed required = true) ↔
      ∃ body, ClosedDocument allowed required raw body ∧ Tame folding body ∧ object = rawMembers body := by
  have closed_iff : ∀ body : Json (.body .object), closedSet (rawMembers body) allowed required = true ↔
        (∀ name ∈ memberNames body, name ∈ allowed) ∧ ∀ name ∈ required, name ∈ memberNames body := by
    intro body
    simp [closedSet, keys_rawMembers, contains_iff, RawObject.isSome_get]
  constructor
  · rintro ⟨read, closed⟩
    obtain ⟨lead, body, trail, text, leadBlank, trailBlank, strict, rfl⟩ := (decodeObject_iff short).mp read
    obtain ⟨within, present⟩ := (closed_iff body).mp closed
    refine ⟨body, ⟨⟨lead, trail, text, leadBlank, trailBlank⟩, nodup_of_noRepeats strict.names,
      within, present⟩, ?_, rfl⟩
    intro e inside
    exact ⟨Json.noRepeats_entry (t := body) strict.names.2 inside,
      Json.allNumbers_entry (t := body) strict.numbers inside⟩
  · rintro ⟨body, document, tame, rfl⟩
    obtain ⟨lead, trail, text, leadBlank, trailBlank⟩ := document.text
    exact ⟨(decodeObject_iff short).mpr ⟨lead, body, trail, text, leadBlank, trailBlank,
      document.strict apart short tame, rfl⟩, (closed_iff body).mpr ⟨document.allowed, document.required⟩⟩

section
variable {names : List Bytes} (document : Document names raw body) (apart : NamesApart names)
  (plain : ∀ name ∈ names, ∀ v, named body name = some v → Plain v)
include document apart plain

theorem Document.shallow : Shallow body := by
  have closed := (closedDocument_exact apart.nodup).mpr document
  intro e inside
  have flat := (closed.entries_of_named plain e inside).strict (· == ·)
  rw [flat.2.1]
  exact Nat.zero_le _

end

end DevHealth.Authverify

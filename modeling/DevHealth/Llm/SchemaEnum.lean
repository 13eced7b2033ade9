import DevHealth.Llm.SchemaStrip

/-! # Which enum values a list of types allows

The integer test works on the text of a number: it holds the exponent inside a bound that
no text reaches, and looks at the digits that the exponent leaves behind the point.  With
it the filter of `enumWithoutTypeList` is exact on scalars; it knows no other type. -/
set_option autoImplicit false
namespace DevHealth.Llm

open Go Lib

/-! ## The integer test -/

/-- Digits, with or without a sign before them. -/
def IsExponentDigits (after : Bytes) : Prop :=
  IsDigits after ∨ ∃ sign ds, isSign sign = true ∧ IsDigits ds ∧ after = sign :: ds

theorem clampedExponent_eq {after : Bytes} (form : IsExponentDigits after) :
    clampedExponent after = max (-exponentBound) (min exponentBound (exponentValue after)) := by
  have bound : exponentBound = 2 ^ 40 := rfl
  rcases form with ⟨some_digit, digits⟩ | ⟨sign, ds, isSigned, ⟨some_digit, digits⟩, rfl⟩
  · obtain ⟨b, rest, rfl⟩ := List.exists_cons_of_ne_nil some_digit
    obtain ⟨-, -, notMinus, notPlus⟩ := digit_no_mark (digits b (List.mem_cons_self ..))
    have value : exponentValue (b :: rest) = digitsValue (b :: rest) := by
      rw [exponentValue, if_neg notMinus, if_neg notPlus]
    have head : (b :: rest).head? ≠ some 0x2D := by simpa using notMinus
    rw [clampedExponent, parseInt_digits some_digit digits, value]
    by_cases small : digitsValue (b :: rest) < 2 ^ 63
    · rw [if_pos small]
    · rw [if_neg small]
      simp only [if_neg head]
      omega
  · have all : ds ≠ [] ∧ ds.all isDigit = true := ⟨some_digit, List.all_eq_true.mpr digits⟩
    have parsed : parseDigits ds = some (digitsValue ds) := if_pos all
    rcases Bool.or_eq_true_iff.mp isSigned with plus | minus
    · rw [beq_iff_eq.mp plus]
      have value : exponentValue (0x2B :: ds) = digitsValue ds := rfl
      have read : parseInt (0x2B :: ds) =
          if digitsValue ds < 2 ^ 63 then some (digitsValue ds : Int) else none := by
        simp [parseInt, parsed]
      rw [clampedExponent, read, value]
      by_cases small : digitsValue ds < 2 ^ 63
      · rw [if_pos small]
      · rw [if_neg small]
        have head : ((0x2B : UInt8) :: ds).head? ≠ some 0x2D := by simp
        simp only [if_neg head]
        omega
    · rw [beq_iff_eq.mp minus]
      have value : exponentValue (0x2D :: ds) = -(digitsValue ds : Int) := rfl
      have read : parseInt (0x2D :: ds) =
          if digitsValue ds ≤ 2 ^ 63 then some (-(digitsValue ds : Int)) else none := by
        simp [parseInt, parsed]
      rw [clampedExponent, read, value]
      by_cases small : digitsValue ds ≤ 2 ^ 63
      · rw [if_pos small]
      · rw [if_neg small]
        simp only [List.head?_cons, if_true]
        omega

def heldExponent (text : Bytes) : Int :=
  match exponentText text with
  | [] => 0
  | _ :: after => clampedExponent after

theorem heldExponent_eq {text : Bytes} (valid : IsNumber text) : heldExponent text =
      max (-exponentBound) (min exponentBound (decimalOf text).exponent) := by
  have form := (decimalOf_number valid).2
  have exponent : (decimalOf text).exponent = exponentValue ((exponentText text).drop 1) := rfl
  rw [exponent, heldExponent]
  generalize exponentText text = behind at form ⊢
  cases form with
  | none => rfl
  | plain mark digits => exact clampedExponent_eq (Or.inl digits)
  | signed mark sign digits => exact clampedExponent_eq (Or.inr ⟨_, _, sign, digits, rfl⟩)

theorem numberTextIsInteger_eq (text : Bytes) : numberTextIsInteger text =
      let d := decimalOf text
      let dropped : Int := (d.fraction.length : Int) - heldExponent text
      if dropped ≤ 0 then true
      else if dropped ≤ d.fraction.length then
        (d.fraction.drop (d.fraction.length - dropped.toNat)).all isZeroDigit
      else if !d.fraction.all isZeroDigit then false
      else
        (d.whole.drop (d.whole.length - (min (dropped - d.fraction.length) d.whole.length).toNat)).all
          isZeroDigit :=
  rfl

theorem numberText_whole {text : Bytes} (valid : IsNumber text) (short : text.length < 2 ^ 40) :
    numberTextIsInteger text = true ↔ IsWhole (numberValue text) := by
  have held := heldExponent_eq valid
  have digits := (decimalOf_number valid).1
  have lengths := decimalOf_length text
  have bound : exponentBound = 2 ^ 40 := rfl
  rw [numberValue, Decimal.isWhole_value _ digits, numberTextIsInteger_eq]
  set d := decimalOf text
  set e := heldExponent text
  have places : d.places = (d.fraction.length : Int) - d.exponent := rfl
  have total : d.digits.length = d.whole.length + d.fraction.length := List.length_append
  simp only
  by_cases none : (d.fraction.length : Int) - e ≤ 0
  · -- the exponent moves the point behind the last digit
    have zero : d.places.toNat = 0 := by omega
    rw [if_pos none, zero, Nat.sub_zero, List.drop_length]
    simp
  · rw [if_neg none]
    by_cases inside : (d.fraction.length : Int) - e ≤ d.fraction.length
    · -- the digits left behind the point are the last ones of the fraction
      have same : d.places = (d.fraction.length : Int) - e := by omega
      have skip : d.digits.length - d.places.toNat =
          d.whole.length + (d.fraction.length - d.places.toNat) := by omega
      rw [if_pos inside, skip, ← same, Decimal.digits, List.drop_append,
        List.drop_eq_nil_of_le (Nat.le_add_right _ _), List.nil_append, Nat.add_sub_cancel_left]
    · -- the whole fraction and some digits before it
      rw [if_neg inside]
      have skip : d.digits.length - d.places.toNat =
          d.whole.length - (min ((d.fraction.length : Int) - e - d.fraction.length)
            d.whole.length).toNat := by omega
      rw [skip, Decimal.digits, List.drop_append_of_le_length (Nat.sub_le _ _), List.all_append]
      cases d.fraction.all isZeroDigit <;> simp

/-- Whatever the size of the exponent, the test tells the integers among the numbers. -/
theorem numberTextIsInteger_iff {text : Bytes} (valid : IsNumber text)
    (short : text.length < 2 ^ 40) :
    numberTextIsInteger text = true ↔ ∃ n : ℤ, numberValue text = n :=
  (numberText_whole valid short).trans isWhole_iff

theorem numberTextIsInteger_far :
    ¬ ∃ n : ℤ, numberValue (ascii "-50e-99999999999999999999") = n := by
  have digits : IsDigits (ascii "99999999999999999999") := ⟨by decide, by decide⟩
  have form : IsUnsigned (ascii "50" ++ ([] ++ (0x65 :: 0x2D :: ascii "99999999999999999999"))) :=
    ⟨_, _, _, rfl, .digits (by decide) (by decide), .none, .signed rfl rfl digits⟩
  have number : IsNumber (ascii "-50e-99999999999999999999") := .negative form
  rw [← numberTextIsInteger_iff number (by decide)]
  decide

/-! ## The filter -/

/-- A number whose text is shorter than the bound of the test. -/
def ShortNumber : JsonValue → Prop
  | .num text _ => text.length < 2 ^ 40
  | _ => True

theorem jsonTypeAllows_scalar (name : JsonValue) {value : JsonValue} (scalar : value.isScalar = true)
    (short : ShortNumber value) : jsonTypeAllows name value = nameAllows name value := by
  cases name with
  | str name =>
    by_cases null : name = ascii "null"
    · subst null
      cases value <;> rfl
    by_cases string : name = ascii "string"
    · subst string
      cases value <;> rfl
    by_cases boolean : name = ascii "boolean"
    · subst boolean
      cases value <;> rfl
    by_cases number : name = ascii "number"
    · subst number
      cases value <;> rfl
    by_cases integer : name = ascii "integer"
    · subst integer
      cases value with
      | num text valid =>
        have whole : numberTextIsInteger text = decide (IsWhole (numberValue text)) := by
          rw [Bool.eq_iff_iff, numberText_whole valid short, decide_eq_true_eq]
        exact whole
      | _ => rfl
    · have refused : jsonTypeAllows (.str name) value = false := by
        simp only [jsonTypeAllows, if_neg null, if_neg string, if_neg boolean, if_neg number, if_neg integer]
      rw [refused]
      cases value with
      | arr _ | obj _ => cases scalar
      | _ => simp [nameAllows, hasType, null, string, boolean, number, integer]
  | _ => rfl

/-- The filter knows no objects and no arrays. -/
theorem jsonTypeAllows_compound (name : JsonValue) {value : JsonValue} (compound : value.isScalar = false) :
    jsonTypeAllows name value = false := by
  cases name with
  | str name =>
    cases value with
    | arr _ | obj _ =>
      simp only [jsonTypeAllows, schemaInteger]
      split_ifs <;> rfl
    | _ => cases compound
  | _ => rfl

theorem jsonTypeAllows_strip (name value : JsonValue) :
    jsonTypeAllows (stripSchema name) value = jsonTypeAllows name value := by
  cases name <;> rfl

theorem hasType_of_equal {v w : JsonValue} (same : v.equal w = true) (name : Bytes) :
    hasType name v = hasType name w := by
  cases v with
  | num text valid =>
    cases w with
    | num other _ =>
      have value : numberValue text = numberValue other := of_decide_eq_true same
      simp only [hasType, value]
    | _ => cases same
  | _ => cases w <;> first | rfl | cases same

theorem nameAllows_of_equal {v w : JsonValue} (same : v.equal w = true) (name : JsonValue) :
    nameAllows name v = nameAllows name w := by
  cases name with
  | str name => exact hasType_of_equal same name
  | _ => rfl

/-- An enum value that is an object or an array and that the list of types allows. -/
def CompoundAllowed (types values : List JsonValue) : Prop :=
  ∃ e ∈ values, e.isScalar = false ∧ typeAllows (.arr types) e = true

variable {types values : List JsonValue}

theorem mem_keptValues {e : JsonValue} (short : ShortNumber e) : e ∈ keptValues types values ↔
      e ∈ values ∧ e.isScalar = true ∧ typeAllows (.arr types) e = true := by
  rw [keptValues, List.mem_filter]
  refine and_congr_right fun _ => ?_
  cases scalar : e.isScalar with
  | true => simp [jsonTypeAllows_scalar _ scalar short, typeAllows]
  | false => simp [jsonTypeAllows_compound _ scalar]

/-- The rewritten enum accepts what the type list and the enum accepted, exactly when no
compound value was allowed. -/
theorem keptValues_exact (distinct : ∀ e ∈ values, e.Distinct) (short : ∀ e ∈ values, ShortNumber e) :
    (∀ v, (typeAllows (.arr types) v && enumAllows (.arr values) v) =
        enumAllows (.arr (keptValues types values)) v) ↔ ¬CompoundAllowed types values := by
  have allows_of_equal {v e : JsonValue} (same : v.equal e = true) :
      typeAllows (.arr types) v = typeAllows (.arr types) e := by
    simp only [typeAllows, nameAllows_of_equal same]
  constructor
  · rintro accepts ⟨e, inside, compound, allowed⟩
    have before : enumAllows (.arr values) e = true :=
      List.any_eq_true.mpr ⟨e, inside, JsonValue.equal_refl (distinct e inside)⟩
    have after := accepts e
    rw [before, allowed] at after
    obtain ⟨k, kept, same⟩ := List.any_eq_true.mp after.symm
    have scalar := ((mem_keptValues (short k (List.mem_filter.mp kept).1)).mp kept).2.1
    rw [← JsonValue.isScalar_of_equal same, compound] at scalar
    cases scalar
  · intro none v
    rw [Bool.eq_iff_iff, Bool.and_eq_true]
    constructor
    · rintro ⟨allowed, listed⟩
      obtain ⟨e, inside, same⟩ := List.any_eq_true.mp listed
      rw [allows_of_equal same] at allowed
      have scalar : e.isScalar = true := by
        by_contra compound
        exact none ⟨e, inside, Bool.eq_false_iff.mpr compound, allowed⟩
      exact List.any_eq_true.mpr ⟨e, (mem_keptValues (short e inside)).mpr ⟨inside, scalar, allowed⟩, same⟩
    · intro listed
      obtain ⟨e, kept, same⟩ := List.any_eq_true.mp listed
      have inside := (List.mem_filter.mp kept).1
      obtain ⟨-, -, allowed⟩ := (mem_keptValues (short e inside)).mp kept
      rw [allows_of_equal same]
      exact ⟨allowed, List.any_eq_true.mpr ⟨e, inside, same⟩⟩

theorem keptValues_strip (types values : List JsonValue) :
    keptValues (types.map stripSchema) values = keptValues types values := by
  have same (value : JsonValue) : (types.map stripSchema).any (fun name => jsonTypeAllows name value) =
      types.any fun name => jsonTypeAllows name value := by
    rw [List.any_map]
    exact congrArg _ (funext fun name => jsonTypeAllows_strip name value)
  simp only [keptValues, same]

/-! ## One node -/

variable {m : Members}

theorem typeListAndEnum_some (lists : typeListAndEnum m = some (types, values)) :
    memberAt m (ascii "type") = some (.arr types) ∧ memberAt m (ascii "enum") = some (.arr values) := by
  unfold typeListAndEnum at lists
  split at lists
  · rename_i hasTypes hasValues
    cases lists
    exact ⟨hasTypes, hasValues⟩
  · cases lists

theorem stripped_type : memberAt (describeDroppedBounds m (stripMembers m)) (ascii "type") =
      (memberAt m (ascii "type")).map stripSchema := by
  have notDescription : ascii "type" ≠ ascii "description" :=
    Keyword.name_ne (a := .type) (b := .description) (by decide)
  rw [memberAt_describe _ _ notDescription]
  exact memberAt_keyword .type (by decide) (by decide)

theorem stripped_enum : memberAt (describeDroppedBounds m (stripMembers m)) (ascii "enum") =
      memberAt m (ascii "enum") := by
  have notDescription : ascii "enum" ≠ ascii "description" :=
    Keyword.name_ne (a := .enum) (b := .description) (by decide)
  have same : stripInner (ascii "enum") = id := by
    funext inner
    rfl
  rw [memberAt_describe _ _ notDescription]
  refine (memberAt_keyword .enum (by decide) (by decide)).trans ?_
  show (memberAt m (ascii "enum")).map (stripInner (ascii "enum")) = _
  rw [same, Option.map_id]
  rfl

theorem typeListAndEnum_stripped : typeListAndEnum (describeDroppedBounds m (stripMembers m)) =
      (typeListAndEnum m).map fun (types, values) => (types.map stripSchema, values) := by
  rw [typeListAndEnum, typeListAndEnum, stripped_type, stripped_enum]
  cases memberAt m (ascii "type") with
  | none => rfl
  | some w =>
    cases w with
    | arr types =>
      rw [Option.map_some, stripSchema, stripItems_eq]
      cases memberAt m (ascii "enum") with
      | none => rfl
      | some values => cases values <;> rfl
    | obj n =>
      rw [Option.map_some, stripSchema]
      rfl
    | _ => rfl

theorem sent_type_enum : memberAt (anthropicSchema m) (ascii "type") =
        (match typeListAndEnum m with
          | none => (memberAt m (ascii "type")).map stripSchema
          | some _ => none) ∧
      memberAt (anthropicSchema m) (ascii "enum") =
        match typeListAndEnum m with
        | none => memberAt m (ascii "enum")
        | some (types, values) => some (.arr (keptValues types values)) := by
  rw [anthropicSchema, memberAt_enumWithoutTypeList, memberAt_enumWithoutTypeList,
    typeListAndEnum_stripped, stripped_type, stripped_enum]
  cases typeListAndEnum m with
  | none => exact ⟨rfl, rfl⟩
  | some lists =>
    obtain ⟨types, values⟩ := lists
    have apart : ascii "enum" ≠ ascii "type" := Keyword.name_ne (a := .enum) (b := .type) (by decide)
    simp only [Option.map_some, if_true, if_neg apart, keptValues_strip]
    exact ⟨trivial, trivial⟩

def byTypeAndEnum (m : Members) (v : JsonValue) : Bool :=
  (memberAt m (ascii "type")).all (fun w => typeAllows w v) &&
    (memberAt m (ascii "enum")).all fun w => enumAllows w v

theorem typeAllows_strip (w v : JsonValue) : typeAllows (stripSchema w) v = typeAllows w v := by
  cases w with
  | arr names =>
    rw [stripSchema, stripItems_eq]
    simp only [typeAllows, List.any_map]
    congr 1
    funext name
    cases name <;> rfl
  | obj n =>
    rw [stripSchema]
    rfl
  | _ => rfl

theorem byTypeAndEnum_kept (plain : typeListAndEnum m = none) (v : JsonValue) :
    byTypeAndEnum (anthropicSchema m) v = byTypeAndEnum m v := by
  obtain ⟨type, enum⟩ := sent_type_enum (m := m)
  rw [plain] at type enum
  simp only [byTypeAndEnum, type, enum, Option.all_map]
  congr 2
  funext w
  exact typeAllows_strip w v

/-- A node that is rewritten accepts the same exactly when its list of types allows no
compound value of its enum. -/
theorem byTypeAndEnum_exact (lists : typeListAndEnum m = some (types, values))
    (distinct : ∀ e ∈ values, e.Distinct) (short : ∀ e ∈ values, ShortNumber e) :
    (∀ v, byTypeAndEnum m v = byTypeAndEnum (anthropicSchema m) v) ↔ ¬CompoundAllowed types values := by
  rw [← keptValues_exact distinct short]
  obtain ⟨type, enum⟩ := sent_type_enum (m := m)
  rw [lists] at type enum
  have before := typeListAndEnum_some lists
  simp [byTypeAndEnum, type, enum, before.1, before.2, Option.all_some, Option.all_none]

end DevHealth.Llm

import DevHealth.Go.JsonEncode
import DevHealth.Lib.JsonSchema

/-! # The schema that is sent

`anthropicSchema` copies the caller's schema through JSON and drops the bounds that
structured outputs refuse; each dropped bound is worded into the description of its node,
and an enum beside a list of types is sent as an enum alone.  A schema that JSON can carry
is the value that the copy decodes to, with the text of its numbers. -/
set_option autoImplicit false
namespace DevHealth.Llm

open Go Lib

def anthropicUnsupportedKeywords : List Bytes :=
  [ascii "minimum", ascii "maximum", ascii "exclusiveMinimum", ascii "exclusiveMaximum",
    ascii "multipleOf", ascii "minLength", ascii "maxLength", ascii "maxItems", ascii "uniqueItems",
    ascii "minContains", ascii "maxContains", ascii "minProperties", ascii "maxProperties"]

def anthropicSchemaDataKeywords : List Bytes :=
  [ascii "default", ascii "const", ascii "enum", ascii "examples"]

/-! ## Numbers -/

/-- The float64 that `ParseFloat` reads is 0 or 1: the number lies no further from it than
half way to the next double, and at half way the even one wins. -/
def roundsToZeroOrOne (q : ℚ) : Bool :=
  decide (-(1 / 2 ^ 1075) ≤ q ∧ q ≤ 1 / 2 ^ 1075) ||
    decide (1 - 1 / 2 ^ 54 ≤ q ∧ q ≤ 1 + 1 / 2 ^ 53)

/-- `schemaNumber` gives 0 or 1. -/
def schemaNumberZeroOrOne : JsonValue → Bool
  | .num text _ => roundsToZeroOrOne (numberValue text)
  | _ => false

def exponentBound : Int := 2 ^ 40

/-- The exponent behind its mark, held inside the bound. -/
def clampedExponent (after : Bytes) : Int :=
  let parsed :=
    match parseInt after with
    | some n => n
    | none => if after.head? = some 0x2D then -exponentBound else exponentBound
  max (-exponentBound) (min exponentBound parsed)

def numberTextIsInteger (text : Bytes) : Bool :=
  let text := unsignedText text
  let exponent :=
    match text.dropWhile fun b => !isExponentMark b with
    | [] => 0
    | _ :: after => clampedExponent after
  let mantissa := text.takeWhile fun b => !isExponentMark b
  let whole := mantissa.takeWhile fun b => !isPoint b
  let fraction := (mantissa.dropWhile fun b => !isPoint b).drop 1
  let dropped : Int := (fraction.length : Int) - exponent
  if dropped ≤ 0 then true
  else if dropped ≤ fraction.length then
    (fraction.drop (fraction.length - dropped.toNat)).all isZeroDigit
  else if !fraction.all isZeroDigit then false
  else
    let rest := min (dropped - fraction.length) whole.length
    (whole.drop (whole.length - rest.toNat)).all isZeroDigit

def schemaInteger : JsonValue → Bool
  | .num text _ => numberTextIsInteger text
  | _ => false

def jsonTypeAllows (name value : JsonValue) : Bool :=
  match name with
  | .str name =>
    if name = ascii "null" then
      match value with
      | .null => true
      | _ => false
    else if name = ascii "string" then
      match value with
      | .str _ => true
      | _ => false
    else if name = ascii "boolean" then
      match value with
      | .bool _ => true
      | _ => false
    else if name = ascii "number" then
      match value with
      | .num _ _ => true
      | _ => false
    else if name = ascii "integer" then schemaInteger value
    else false
  | _ => false

/-! ## Maps -/

def setMember (m : Members) (key : Bytes) (value : JsonValue) : Members :=
  if (memberAt m key).isSome then m.map fun (k, v) => (k, if k = key then value else v)
  else m ++ [(key, value)]

def deleteMember (m : Members) (key : Bytes) : Members := m.filter fun (k, _) => k != key

/-! ## The description of a node -/

structure BoundPhrase where
  keyword : Bytes
  before : Bytes
  after : Bytes

def anthropicBoundPhrases : List BoundPhrase :=
  [⟨ascii "minLength", ascii "at least ", ascii " characters"⟩,
    ⟨ascii "maxLength", ascii "at most ", ascii " characters"⟩,
    ⟨ascii "minimum", ascii "at least ", []⟩,
    ⟨ascii "maximum", ascii "at most ", []⟩,
    ⟨ascii "exclusiveMinimum", ascii "greater than ", []⟩,
    ⟨ascii "exclusiveMaximum", ascii "less than ", []⟩,
    ⟨ascii "multipleOf", ascii "a multiple of ", []⟩,
    ⟨ascii "minItems", ascii "at least ", ascii " items"⟩,
    ⟨ascii "maxItems", ascii "at most ", ascii " items"⟩,
    ⟨ascii "uniqueItems", ascii "unique items", []⟩,
    ⟨ascii "minContains", ascii "at least ", ascii " matching items"⟩,
    ⟨ascii "maxContains", ascii "at most ", ascii " matching items"⟩,
    ⟨ascii "minProperties", ascii "at least ", ascii " properties"⟩,
    ⟨ascii "maxProperties", ascii "at most ", ascii " properties"⟩]

def boundValue : JsonValue → Bytes
  | .num text _ => text
  | value => marshal value

/-- The words for one bound that the stripped node no longer has. -/
def limitOf (original stripped : Members) (bound : BoundPhrase) : Option Bytes :=
  match memberAt original bound.keyword with
  | none => none
  | some value =>
    if (memberAt stripped bound.keyword).isSome then none
    else if bound.keyword = ascii "uniqueItems" then
      match value with
      | .bool true => some bound.before
      | _ => none
    else some (bound.before ++ boundValue value ++ bound.after)

def describeDroppedBounds (original stripped : Members) : Members :=
  let limits := anthropicBoundPhrases.filterMap (limitOf original stripped)
  if limits = [] then stripped
  else
    let text := ascii "Limits: " ++ List.intercalate (ascii "; ") limits ++ ascii "."
    let text :=
      match memberAt stripped (ascii "description") with
      | some (.str existing) => if existing = [] then text else existing ++ ascii " " ++ text
      | _ => text
    setMember stripped (ascii "description") (.str text)

/-! ## An enum beside a list of types -/

def keptValues (types values : List JsonValue) : List JsonValue :=
  values.filter fun value => types.any fun name => jsonTypeAllows name value

/-- `types` and `values` when both are lists. -/
def typeListAndEnum (schema : Members) : Option (List JsonValue × List JsonValue) :=
  match memberAt schema (ascii "type"), memberAt schema (ascii "enum") with
  | some (.arr types), some (.arr values) => some (types, values)
  | _, _ => none

def enumWithoutTypeList (schema : Members) : Members :=
  match typeListAndEnum schema with
  | none => schema
  | some (types, values) =>
    deleteMember (setMember schema (ascii "enum") (.arr (keptValues types values))) (ascii "type")

/-! ## The walk -/

/-- The keywords whose members are names, not keywords. -/
def holdsNames (key : Bytes) : Bool :=
  key == ascii "properties" || key == ascii "$defs" || key == ascii "definitions"

def dropsKeyword (key : Bytes) (value : JsonValue) : Bool :=
  contains anthropicUnsupportedKeywords key ||
    (key == ascii "minItems" && !schemaNumberZeroOrOne value)

mutual

def stripSchema : JsonValue → JsonValue
  | .obj m => .obj (enumWithoutTypeList (describeDroppedBounds m (stripMembers m)))
  | .arr items => .arr (stripItems items)
  | value => value

def stripItems : List JsonValue → List JsonValue
  | [] => []
  | item :: items => stripSchema item :: stripItems items

def stripMembers : List (Bytes × JsonValue) → List (Bytes × JsonValue)
  | [] => []
  | (key, inner) :: rest =>
    if dropsKeyword key inner then stripMembers rest
    else if contains anthropicSchemaDataKeywords key then (key, inner) :: stripMembers rest
    else if holdsNames key then (key, stripNamed inner) :: stripMembers rest
    else (key, stripSchema inner) :: stripMembers rest

/-- The value of a keyword that holds names: a map keeps them all, and anything else is
walked as elsewhere. -/
def stripNamed : JsonValue → JsonValue
  | .obj names => .obj (stripNames names)
  | .arr items => .arr (stripItems items)
  | value => value

/-- The loop over the names of `properties`, `$defs` or `definitions`. -/
def stripNames : List (Bytes × JsonValue) → List (Bytes × JsonValue)
  | [] => []
  | (name, property) :: rest => (name, stripSchema property) :: stripNames rest

end

/-- `anthropicSchema` of a schema that JSON can carry. -/
def anthropicSchema (schema : Members) : Members :=
  enumWithoutTypeList (describeDroppedBounds schema (stripMembers schema))

theorem stripSchema_obj (schema : Members) : stripSchema (.obj schema) = .obj (anthropicSchema schema) := by
  rw [stripSchema, anthropicSchema]

end DevHealth.Llm

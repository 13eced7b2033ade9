import DevHealth.Lib.JsonValue

/-! # JSON Schema

The keywords of draft 2019-09 that put no condition under a negation, and what they ask of
a value.  `validWithin` looks through at most so many levels of schemas and references; a
value is valid when some number of levels is enough, so a reference that only leads back to
itself accepts nothing.  What a dialect decides on its own is in `Dialect`: formats,
patterns, and schemas that use a keyword outside this vocabulary.

A place in a schema document is reached by the tokens of a JSON pointer.  Only places that
hold schemas can be the target of a reference. -/
set_option autoImplicit false
namespace DevHealth.Lib

open Go

/-! ## The vocabulary -/

inductive Keyword where
  | type | enum | const | properties | required | additionalProperties | items | anyOf | allOf
  | ref | format | pattern | minItems
  | minimum | maximum | exclusiveMinimum | exclusiveMaximum | multipleOf | minLength | maxLength
  | maxItems | uniqueItems | minContains | maxContains | minProperties | maxProperties
  | defs | definitions | description | title | default | examples | schema | id | comment
  deriving DecidableEq, Repr

namespace Keyword

def name : Keyword → Bytes
  | type => ascii "type"
  | enum => ascii "enum"
  | const => ascii "const"
  | properties => ascii "properties"
  | required => ascii "required"
  | additionalProperties => ascii "additionalProperties"
  | items => ascii "items"
  | anyOf => ascii "anyOf"
  | allOf => ascii "allOf"
  | ref => ascii "$ref"
  | format => ascii "format"
  | pattern => ascii "pattern"
  | minItems => ascii "minItems"
  | minimum => ascii "minimum"
  | maximum => ascii "maximum"
  | exclusiveMinimum => ascii "exclusiveMinimum"
  | exclusiveMaximum => ascii "exclusiveMaximum"
  | multipleOf => ascii "multipleOf"
  | minLength => ascii "minLength"
  | maxLength => ascii "maxLength"
  | maxItems => ascii "maxItems"
  | uniqueItems => ascii "uniqueItems"
  | minContains => ascii "minContains"
  | maxContains => ascii "maxContains"
  | minProperties => ascii "minProperties"
  | maxProperties => ascii "maxProperties"
  | defs => ascii "$defs"
  | definitions => ascii "definitions"
  | description => ascii "description"
  | title => ascii "title"
  | default => ascii "default"
  | examples => ascii "examples"
  | schema => ascii "$schema"
  | id => ascii "$id"
  | comment => ascii "$comment"

def all : List Keyword :=
  [type, enum, const, properties, required, additionalProperties, items, anyOf, allOf, ref, format,
    pattern, minItems, minimum, maximum, exclusiveMinimum, exclusiveMaximum, multipleOf, minLength,
    maxLength, maxItems, uniqueItems, minContains, maxContains, minProperties, maxProperties, defs,
    definitions, description, title, default, examples, schema, id, comment]

def ofName (key : Bytes) : Option Keyword := all.find? fun kw => kw.name == key

theorem mem_all (kw : Keyword) : kw ∈ all := by
  cases kw <;> decide

theorem ofName_name (kw : Keyword) : ofName kw.name = some kw := by
  cases kw <;> decide +kernel

theorem name_of_ofName {key : Bytes} {kw : Keyword} (found : ofName key = some kw) : kw.name = key :=
  beq_iff_eq.mp (List.find?_some (p := fun kw : Keyword => kw.name == key) found)

theorem name_injective : Function.Injective name := by
  intro a b same
  have found := ofName_name a
  rw [same, ofName_name b] at found
  exact (Option.some.inj found).symm

theorem name_ne {a b : Keyword} (apart : a ≠ b) : a.name ≠ b.name := name_injective.ne apart

end Keyword

/-! ## Places -/

/-- What the value at a place is: a schema, a map of schemas under names, or a list of
schemas. -/
inductive Place where
  | schema
  | named
  | listed
  deriving DecidableEq, Repr

/-- The decimal digits of an array index, without a leading zero. -/
def indexOf (token : Bytes) : Option Nat :=
  if token.all isDigit && (token == ascii "0" || (token.head?.any fun b => b != 0x30)) then
    some (digitsValue token)
  else none

theorem decimal_of_indexOf {token : Bytes} {i : Nat} (read : indexOf token = some i) : token = decimal i := by
  unfold indexOf at read
  split_ifs at read with form
  cases read
  obtain ⟨digits, canonical⟩ := Bool.and_eq_true_iff.mp form
  symm
  apply decimal_digitsValue (List.all_eq_true.mp digits)
  rcases Bool.or_eq_true_iff.mp canonical with zero | nonzero
  · exact Or.inl (beq_iff_eq.mp zero)
  · right
    cases token with
    | nil => cases nonzero
    | cons b rest =>
      have other : b ≠ 0x30 := by simpa using nonzero
      exact ⟨b, rfl, other⟩

theorem indexOf_decimal (i : Nat) : indexOf (decimal i) = some i := by
  obtain ⟨digits, value, canonical⟩ := decimal_canonical i
  have all : (decimal i).all isDigit = true := List.all_eq_true.mpr digits
  have lead : (decimal i == ascii "0" || (decimal i).head?.any fun b => b != 0x30) = true := by
    rcases canonical with zero | ⟨b, head, other⟩
    · rw [zero]
      rfl
    · have nonzero : ((decimal i).head?.any fun b => b != 0x30) = true := by
        rw [head]
        simpa using other
      rw [nonzero, Bool.or_true]
  rw [indexOf, all, lead, value]
  rfl

/-- What a schema keyword holds; `items` is one schema or a list of them. -/
def placeOf (kw : Keyword) (value : JsonValue) : Option Place :=
  match kw with
  | .properties | .defs | .definitions => some .named
  | .anyOf | .allOf => some .listed
  | .additionalProperties => some .schema
  | .items =>
    match value with
    | .arr _ => some .listed
    | _ => some .schema
  | _ => none

def descend : Place → JsonValue → Bytes → Option (Place × JsonValue)
  | .schema, .obj m, token =>
    (Keyword.ofName token).bind fun kw => (memberAt m token).bind fun value =>
      (placeOf kw value).map fun place => (place, value)
  | .named, .obj m, token => (memberAt m token).map fun value => (.schema, value)
  | .listed, .arr items, token =>
    (indexOf token).bind fun i => items[i]?.map fun value => (.schema, value)
  | _, _, _ => none

def locate (place : Place) (value : JsonValue) : List Bytes → Option (Place × JsonValue)
  | [] => some (place, value)
  | token :: path => (descend place value token).bind fun (p, v) => locate p v path

/-- A schema of the document, with the path that leads to it. -/
def SchemaAt (root : JsonValue) (path : List Bytes) (schema : JsonValue) : Prop :=
  locate .schema root path = some (.schema, schema)

theorem locate_append (path more : List Bytes) :
    ∀ (place : Place) (value : JsonValue), locate place value (path ++ more) =
      (locate place value path).bind fun (p, v) => locate p v more := by
  induction path with
  | nil =>
    intro place value
    rfl
  | cons token path ih =>
    intro place value
    simp only [List.cons_append, locate, Option.bind_assoc]
    congr 1
    funext ⟨p, v⟩
    exact ih p v

theorem SchemaAt.append {root value : JsonValue} {path more : List Bytes} {schema : JsonValue}
    (start : SchemaAt root path value) :
    SchemaAt root (path ++ more) schema ↔ SchemaAt value more schema := by
  rw [SchemaAt, locate_append, start]
  rfl

theorem SchemaAt.object {value : JsonValue} {path : List Bytes} {s : Members}
    (found : SchemaAt value path (.obj s)) : ∃ m, value = .obj m := by
  cases path with
  | nil =>
    cases found
    exact ⟨s, rfl⟩
  | cons token path =>
    cases value with
    | obj m => exact ⟨m, rfl⟩
    | _ => cases found

/-- A schema that holds no other schemas, or only `true` and `false`, is the only object of
its document. -/
theorem SchemaAt.flat {m s : Members} (flat : ∀ kw value, memberAt m kw.name = some value →
      placeOf kw value = none ∨ value.isScalar = true)
    {path : List Bytes} (found : SchemaAt (.obj m) path (.obj s)) : path = [] ∧ s = m := by
  cases path with
  | nil =>
    cases found
    exact ⟨rfl, rfl⟩
  | cons token path =>
    obtain ⟨⟨place, inner⟩, step, rest⟩ := Option.bind_eq_some_iff.mp found
    obtain ⟨kw, read, holding⟩ := Option.bind_eq_some_iff.mp step
    obtain ⟨value, member, placed⟩ := Option.bind_eq_some_iff.mp holding
    obtain ⟨_, holds, same⟩ := Option.map_eq_some_iff.mp placed
    cases same
    obtain rfl := Keyword.name_of_ofName read
    rcases flat kw inner member with nowhere | scalar
    · rw [holds] at nowhere
      cases nowhere
    · -- a scalar is no object, and nothing is below it
      cases path with
      | nil =>
        cases rest
        cases scalar
      | cons token path =>
        cases inner with
        | arr _ | obj _ => cases scalar
        | _ => cases place <;> cases rest

theorem descend_distinct {place next : Place} {value inner : JsonValue} {token : Bytes}
    (distinct : value.Distinct) (step : descend place value token = some (next, inner)) :
    inner.Distinct := by
  cases distinct with
  | obj _ each =>
    cases place with
    | schema =>
      obtain ⟨kw, -, holding⟩ := Option.bind_eq_some_iff.mp step
      obtain ⟨_, found, placed⟩ := Option.bind_eq_some_iff.mp holding
      obtain ⟨_, -, same⟩ := Option.map_eq_some_iff.mp placed
      cases same
      exact each (token, inner) (mem_of_memberAt found)
    | named =>
      obtain ⟨_, found, same⟩ := Option.map_eq_some_iff.mp step
      cases same
      exact each (token, inner) (mem_of_memberAt found)
    | listed => cases step
  | arr each =>
    cases place with
    | listed =>
      obtain ⟨i, -, under⟩ := Option.bind_eq_some_iff.mp step
      obtain ⟨_, found, same⟩ := Option.map_eq_some_iff.mp under
      cases same
      exact each inner (List.mem_of_getElem? found)
    | _ => cases step
  | _ => cases place <;> cases step

theorem SchemaAt.distinct {root schema : JsonValue} {path : List Bytes} (distinct : root.Distinct)
    (found : SchemaAt root path schema) : schema.Distinct := by
  have every (path : List Bytes) : ∀ (place : Place) (value : JsonValue), value.Distinct →
      ∀ {last : Place} {s : JsonValue}, locate place value path = some (last, s) → s.Distinct := by
    induction path with
    | nil =>
      intro place value distinct last s located
      cases located
      exact distinct
    | cons token path ih =>
      intro place value distinct last s located
      obtain ⟨⟨next, inner⟩, step, rest⟩ := Option.bind_eq_some_iff.mp located
      exact ih next inner (descend_distinct distinct step) rest
  exact every path .schema root distinct found

section Children

variable {root w s : JsonValue} {path : List Bytes} {m names : Members} {kw : Keyword}

theorem SchemaAt.single (start : SchemaAt root path (.obj m)) (found : memberAt m kw.name = some w)
    (holds : placeOf kw w = some .schema) : SchemaAt root (path ++ [kw.name]) w := by
  rw [start.append]
  simp [SchemaAt, locate, descend, Keyword.ofName_name, found, holds]

theorem SchemaAt.named (start : SchemaAt root path (.obj m)) (found : memberAt m kw.name = some (.obj names))
    (holds : placeOf kw (.obj names) = some .named) {name : Bytes}
    (under : memberAt names name = some s) : SchemaAt root (path ++ [kw.name, name]) s := by
  rw [start.append]
  simp [SchemaAt, locate, descend, Keyword.ofName_name, found, holds, under]

theorem SchemaAt.listed (start : SchemaAt root path (.obj m)) {items : List JsonValue}
    (found : memberAt m kw.name = some (.arr items))
    (holds : placeOf kw (.arr items) = some .listed) {i : Nat} (under : items[i]? = some s) :
    SchemaAt root (path ++ [kw.name, decimal i]) s := by
  rw [start.append]
  simp [SchemaAt, locate, descend, Keyword.ofName_name, found, holds, under, indexOf_decimal]

end Children

/-! ## References -/

def percentDigit (b : UInt8) : Option UInt8 :=
  if between '0' '9' b then some (b - 48)
  else if between 'a' 'f' b then some (b - 87)
  else if between 'A' 'F' b then some (b - 55)
  else none

/-- The bytes of a URI fragment, with `%` followed by two hexadecimal digits undone. -/
def percentDecode : Bytes → Option Bytes
  | [] => some []
  | [b] => if b = 0x25 then none else some [b]
  | [b, c] => if b = 0x25 then none else if c = 0x25 then none else some [b, c]
  | b :: c :: d :: rest =>
    if b = 0x25 then do
      let high ← percentDigit c
      let low ← percentDigit d
      let tail ← percentDecode rest
      return (16 * high + low) :: tail
    else (percentDecode (c :: d :: rest)).map (b :: ·)

/-- `~0` for a tilde and `~1` for a slash. -/
def unescapeToken : Bytes → Option Bytes
  | [] => some []
  | [b] => if b = 0x7E then none else some [b]
  | b :: c :: rest =>
    if b = 0x7E then
      if c = 0x30 then (unescapeToken rest).map (0x7E :: ·)
      else if c = 0x31 then (unescapeToken rest).map (0x2F :: ·)
      else none
    else (unescapeToken (c :: rest)).map (b :: ·)

/-- The path of a local reference: a JSON pointer behind the `#`. -/
def pointerOf : Bytes → Option (List Bytes)
  | [] => none
  | b :: fragment =>
    if b = 0x23 then do
      let pointer ← percentDecode fragment
      match pointer with
      | [] => some []
      | slash :: rest =>
        if slash = 0x2F then (rest.splitOn 0x2F).mapM unescapeToken else none
    else none

def resolve (root : JsonValue) (ref : Bytes) : Option JsonValue := do
  let path ← pointerOf ref
  match locate .schema root path with
  | some (.schema, schema) => some schema
  | _ => none

/-! ## What a schema accepts -/

def hasType (name : Bytes) : JsonValue → Bool
  | .null => name == ascii "null"
  | .bool _ => name == ascii "boolean"
  | .num text _ =>
    name == ascii "number" || (name == ascii "integer" && decide (IsWhole (numberValue text)))
  | .str _ => name == ascii "string"
  | .arr _ => name == ascii "array"
  | .obj _ => name == ascii "object"

def nameAllows : JsonValue → JsonValue → Bool
  | .str name, v => hasType name v
  | _, _ => false

/-- One name, or a list of names of which one fits. -/
def typeAllows : JsonValue → JsonValue → Bool
  | .arr names, v => names.any fun name => nameAllows name v
  | name, v => nameAllows name v

def enumAllows : JsonValue → JsonValue → Bool
  | .arr values, v => values.any fun value => v.equal value
  | _, _ => false

structure Dialect where
  format : Bytes → JsonValue → Bool
  pattern : Bytes → Bytes → Bool
  /-- A schema that uses another keyword, in its document. -/
  foreign : JsonValue → Members → JsonValue → Bool

def codePoints (s : Bytes) : Nat := s.countP fun b => !(decide (0x80 ≤ b) && decide (b < 0xC0))

def distinctItems : List JsonValue → Bool
  | [] => true
  | x :: xs => xs.all (fun y => !x.equal y) && distinctItems xs

/-- A bound on a quantity that only some values have. -/
def bounded (bound : ℚ → ℚ → Bool) (quantity : JsonValue → Option ℚ) (w v : JsonValue) : Bool :=
  match w with
  | .num text _ => (quantity v).all (bound (numberValue text))
  | _ => false

def numeric : JsonValue → Option ℚ
  | .num text _ => some (numberValue text)
  | _ => none

def textLength : JsonValue → Option ℚ
  | .str s => some (codePoints s)
  | _ => none

def itemCount : JsonValue → Option ℚ
  | .arr items => some items.length
  | _ => none

def memberCount : JsonValue → Option ℚ
  | .obj m => some m.length
  | _ => none

def membersOf : JsonValue → Members
  | .obj m => m
  | _ => []

def itemsOf : JsonValue → List JsonValue
  | .arr items => items
  | _ => []

def declares (schema : Members) (name : Bytes) : Bool :=
  match memberAt schema (ascii "properties") with
  | some (.obj properties) => (memberAt properties name).isSome
  | _ => false

def propertiesAllow (check : JsonValue → JsonValue → Bool) : JsonValue → JsonValue → Bool
  | .obj properties, v =>
    (membersOf v).all fun (name, x) => (memberAt properties name).all fun s => check s x
  | _, _ => false

def isMember (m : Members) : JsonValue → Bool
  | .str name => (memberAt m name).isSome
  | _ => false

def requiredAllows : JsonValue → JsonValue → Bool
  | .arr names, .obj m => names.all (isMember m)
  | .arr _, _ => true
  | _, _ => false

def itemsAllow (check : JsonValue → JsonValue → Bool) : JsonValue → JsonValue → Bool
  | .arr schemas, v => (schemas.zip (itemsOf v)).all fun (s, x) => check s x
  | s, v => (itemsOf v).all (check s)

def someAllows (check : JsonValue → JsonValue → Bool) : JsonValue → JsonValue → Bool
  | .arr schemas, v => schemas.any fun s => check s v
  | _, _ => false

def eachAllows (check : JsonValue → JsonValue → Bool) : JsonValue → JsonValue → Bool
  | .arr schemas, v => schemas.all fun s => check s v
  | _, _ => false

def refAllows (root : JsonValue) (check : JsonValue → JsonValue → Bool) : JsonValue → JsonValue → Bool
  | .str ref, v => (resolve root ref).any fun s => check s v
  | _, _ => false

def formatAllows (D : Dialect) : JsonValue → JsonValue → Bool
  | .str format, v => D.format format v
  | _, _ => false

def patternAllows (D : Dialect) : JsonValue → JsonValue → Bool
  | .str pattern, .str s => D.pattern pattern s
  | .str _, _ => true
  | _, _ => false

def uniqueAllows : JsonValue → JsonValue → Bool
  | .bool b, v => !b || distinctItems (itemsOf v)
  | _, _ => false

/-- What one keyword of a schema asks of a value.  A value of the wrong form for its
keyword accepts nothing; `minContains` and `maxContains` count the matches of `contains`,
which is not in this vocabulary, and the rest only annotates. -/
def asserts (D : Dialect) (root : JsonValue) (check : JsonValue → JsonValue → Bool) (schema : Members)
    (kw : Keyword) (w v : JsonValue) : Bool :=
  match kw with
  | .type => typeAllows w v
  | .enum => enumAllows w v
  | .const => v.equal w
  | .properties => propertiesAllow check w v
  | .required => requiredAllows w v
  | .additionalProperties => (membersOf v).all fun (name, x) => declares schema name || check w x
  | .items => itemsAllow check w v
  | .anyOf => someAllows check w v
  | .allOf => eachAllows check w v
  | .ref => refAllows root check w v
  | .format => formatAllows D w v
  | .pattern => patternAllows D w v
  | .minItems => bounded (fun bound x => decide (bound ≤ x)) itemCount w v
  | .maxItems => bounded (fun bound x => decide (x ≤ bound)) itemCount w v
  | .minimum => bounded (fun bound x => decide (bound ≤ x)) numeric w v
  | .maximum => bounded (fun bound x => decide (x ≤ bound)) numeric w v
  | .exclusiveMinimum => bounded (fun bound x => decide (bound < x)) numeric w v
  | .exclusiveMaximum => bounded (fun bound x => decide (x < bound)) numeric w v
  | .multipleOf => bounded (fun bound x => decide (IsWhole (x / bound))) numeric w v
  | .minLength => bounded (fun bound x => decide (bound ≤ x)) textLength w v
  | .maxLength => bounded (fun bound x => decide (x ≤ bound)) textLength w v
  | .minProperties => bounded (fun bound x => decide (bound ≤ x)) memberCount w v
  | .maxProperties => bounded (fun bound x => decide (x ≤ bound)) memberCount w v
  | .uniqueItems => uniqueAllows w v
  | _ => true

def inVocabulary (schema : Members) : Bool := schema.all fun (key, _) => (Keyword.ofName key).isSome

def validWithin (D : Dialect) (root : JsonValue) : Nat → JsonValue → JsonValue → Bool
  | 0, _, _ => false
  | _ + 1, .bool b, _ => b
  | levels + 1, .obj schema, v =>
    if inVocabulary schema then
      Keyword.all.all fun kw => (memberAt schema kw.name).all fun w =>
        asserts D root (validWithin D root levels) schema kw w v
    else D.foreign root schema v
  | _ + 1, _, _ => false

def Valid (D : Dialect) (root v : JsonValue) : Prop := ∃ levels, validWithin D root levels root v = true

end DevHealth.Lib

import DevHealth.Lib.Fallible
import DevHealth.Lib.Regex
import DevHealth.Llm.Schema

/-! # The limits of structured outputs

`anthropicSchemaFit` walks the schema that would be sent and reports the first documented
limit that it breaks, with the path of the node.  The walk stops past 64 levels, so its
depth is the number of levels that are left. -/
set_option autoImplicit false
namespace DevHealth.Llm

open Go Lib

def anthropicMaxOptionalParameters : Nat := 24
def anthropicMaxUnionParameters : Nat := 16

def anthropicStructuredKeywords : List Bytes :=
  [ascii "type", ascii "properties", ascii "required", ascii "additionalProperties", ascii "items",
    ascii "enum", ascii "const", ascii "anyOf", ascii "allOf", ascii "$ref", ascii "$defs",
    ascii "definitions", ascii "description", ascii "title", ascii "default", ascii "examples",
    ascii "format", ascii "minItems", ascii "pattern", ascii "$schema", ascii "$id", ascii "$comment"]

def anthropicStringFormats : List Bytes :=
  [ascii "date-time", ascii "time", ascii "date", ascii "duration", ascii "email",
    ascii "hostname", ascii "uri", ascii "ipv4", ascii "ipv6", ascii "uuid"]

/-- `\\[1-9]|\(\?[=!<]|\\[bB]`, anywhere in the text. -/
def anthropicUnsupportedPattern : Regex UInt8 :=
  .seq (.star (.cls fun _ => true)) <| .seq
    (.oneOf
      [.seq (.lit (ascii "\\")) (.cls (between '1' '9')),
        .seq (.lit (ascii "(?")) (.cls fun b => isByte '=' b || isByte '!' b || isByte '<' b),
        .seq (.lit (ascii "\\")) (.cls fun b => isByte 'b' b || isByte 'B' b)])
    (.star (.cls fun _ => true))

structure FitCounts where
  optional : Nat
  unions : Nat
  deriving DecidableEq, Repr

def sortedKeys (m : Members) : List Bytes := sortStrings (m.map Prod.fst)

def typed (schema : Members) : Bool :=
  [ascii "type", ascii "anyOf", ascii "allOf", ascii "enum", ascii "const", ascii "$ref"].any
    fun key => (memberAt schema key).isSome

def isUnion (schema : Members) : Bool :=
  (memberAt schema (ascii "anyOf")).isSome ||
    match memberAt schema (ascii "type") with
    | some (.arr _) => true
    | _ => false

/-! ## The checks of one node -/

def atPath (reason path : Bytes) : Bytes := reason ++ ascii ": " ++ path

def checkKeywords (path : Bytes) : List Bytes → Except Bytes Unit
  | [] => .ok ()
  | key :: keys => do
      ensure (contains anthropicStructuredKeywords key)
        (atPath (ascii "unsupported_keyword " ++ key) path)
      checkKeywords path keys

def checkRef (schema : Members) (path : Bytes) : Except Bytes Unit :=
  match memberAt schema (ascii "$ref") with
  | some (.str ref) => ensure ((ascii "#").isPrefixOf ref) (atPath (ascii "external_ref") path)
  | _ => .ok ()

def checkFormat (schema : Members) (path : Bytes) : Except Bytes Unit :=
  match memberAt schema (ascii "format") with
  | some (.str format) =>
    ensure (contains anthropicStringFormats format)
      (atPath (ascii "string_format " ++ format) path)
  | _ => .ok ()

def checkPattern (schema : Members) (path : Bytes) : Except Bytes Unit :=
  match memberAt schema (ascii "pattern") with
  | some (.str pattern) =>
    ensure (!anthropicUnsupportedPattern.accepts pattern) (atPath (ascii "pattern") path)
  | _ => .ok ()

def checkEnum (schema : Members) (path : Bytes) : Except Bytes Unit :=
  match memberAt schema (ascii "enum") with
  | some (.arr values) => ensure (values.all JsonValue.isScalar) (atPath (ascii "complex_enum") path)
  | _ => .ok ()

/-- `schema["properties"] != nil` -/
def hasProperties (schema : Members) : Bool :=
  match memberAt schema (ascii "properties") with
  | none | some .null => false
  | some _ => true

def isObject (schema : Members) : Bool :=
  (match memberAt schema (ascii "type") with
    | some (.str name) => name == ascii "object"
    | _ => false) || hasProperties schema

/-- `additionalProperties` is there and is `false`. -/
def closesObject (schema : Members) : Bool :=
  match memberAt schema (ascii "additionalProperties") with
  | some (.bool false) => true
  | _ => false

def checkAdditional (schema : Members) (path : Bytes) : Except Bytes Unit :=
  ensure (!isObject schema || closesObject schema)
    (atPath (ascii "additional_properties_not_false") path)

def checkNode (schema : Members) (path : Bytes) : Except Bytes Unit := do
  checkKeywords path (sortedKeys schema)
  checkRef schema path
  checkFormat schema path
  checkPattern schema path
  checkEnum schema path
  checkAdditional schema path

/-! ## The nodes below -/

def isRequired (schema : Members) (name : Bytes) : Bool :=
  match memberAt schema (ascii "required") with
  | some (.arr names) => names.any fun value =>
    match value with
    | .str text => text == name
    | _ => false
  | _ => false

/-- A node below this one, with what it adds to the path. -/
structure Child where
  label : Bytes
  tokens : List Bytes
  node : JsonValue

/-- A keyword whose value is one schema, when it is a map. -/
def singleChild (schema : Members) (key : Bytes) : List Child :=
  match memberAt schema key with
  | some (.obj child) => [⟨ascii "." ++ key, [key], .obj child⟩]
  | _ => []

def listedChildren (schema : Members) (key : Bytes) : List Child :=
  match memberAt schema key with
  | some (.arr list) => list.zipIdx.map fun (child, i) =>
    ⟨ascii "." ++ key ++ ascii "[" ++ decimal i ++ ascii "]", [key, decimal i], child⟩
  | _ => []

def namedChildren (schema : Members) (key : Bytes) : List Child :=
  match memberAt schema key with
  | some (.obj names) => (sortedKeys names).filterMap fun name =>
    (memberAt names name).map fun child =>
      ⟨ascii "." ++ key ++ ascii "." ++ name, [key, name], child⟩
  | _ => []

/-- The nodes below, apart from the properties, in the order of the walk. -/
def otherChildren (schema : Members) : List Child :=
  singleChild schema (ascii "items") ++ (singleChild schema (ascii "additionalProperties") ++
    (listedChildren schema (ascii "anyOf") ++ (listedChildren schema (ascii "allOf") ++
      (namedChildren schema (ascii "$defs") ++ namedChildren schema (ascii "definitions")))))

abbrev Visit := JsonValue → Bytes → FitCounts → Except Bytes FitCounts

def fitChildren (visit : Visit) (path : Bytes) :
    List Child → FitCounts → Except Bytes FitCounts
  | [], counts => .ok counts
  | child :: children, counts => do
      let counts ← visit child.node (path ++ child.label) counts
      fitChildren visit path children counts

def FitCounts.count (counts : FitCounts) (isOptional inUnion : Bool) : FitCounts :=
  ⟨if isOptional then counts.optional + 1 else counts.optional,
    if inUnion then counts.unions + 1 else counts.unions⟩

def fitProperties (visit : Visit) (schema properties : Members) (path : Bytes) :
    List Bytes → FitCounts → Except Bytes FitCounts
  | [], counts => .ok counts
  | name :: names, counts =>
    let propertyPath := path ++ ascii "." ++ name
    match memberAt properties name with
    | some (.obj child) => do
        ensure (typed child) (atPath (ascii "property_without_type") propertyPath)
        let counts ← visit (.obj child) propertyPath
          (counts.count (!isRequired schema name) (isUnion child))
        fitProperties visit schema properties path names counts
    | _ => .error (atPath (ascii "property_not_a_schema") propertyPath)

def fitNode : Nat → Visit
  | 0, _, path, _ => .error (atPath (ascii "depth") path)
  | left + 1, .obj schema, path, counts => do
      checkNode schema path
      let counts ←
        match memberAt schema (ascii "properties") with
        | some (.obj properties) =>
          fitProperties (fitNode left) schema properties path (sortedKeys properties) counts
        | _ => .ok counts
      fitChildren (fitNode left) path (otherChildren schema) counts
  | _ + 1, _, _, counts => .ok counts

def overLimit (name : String) (count limit : Nat) : Bytes :=
  ascii name ++ ascii ": " ++ decimal count ++ ascii " over the limit of " ++ decimal limit

/-- The levels of the walk: the depths 0 to 64. -/
def fitLevels : Nat := 65

def anthropicSchemaFit (schema : Members) : Except Bytes Unit := do
  let counts ← fitNode fitLevels (.obj schema) (ascii "$") ⟨0, 0⟩
  ensure (decide (counts.optional ≤ anthropicMaxOptionalParameters))
    (overLimit "optional_parameters" counts.optional anthropicMaxOptionalParameters)
  ensure (decide (counts.unions ≤ anthropicMaxUnionParameters))
    (overLimit "union_parameters" counts.unions anthropicMaxUnionParameters)

example : anthropicSchemaFit [(ascii "type", .str (ascii "object"))] =
    .error (ascii "additional_properties_not_false: $") := by decide +kernel

end DevHealth.Llm

import DevHealth.Llm.SchemaSent
import Mathlib.Logic.Relation

/-! # The limits over a whole schema

`anthropicSchemaFit` against the documented limits, which are about every schema of the
document and about its references.  The walk compares a type with `object` only when it is
one name, never follows a reference, and leaves out an `items` that is a list;
`withinLimits_iff` says what a schema has to keep to for the limits to hold all the same. -/
set_option autoImplicit false
namespace DevHealth.Llm

open Go Lib

/-! ## The limits -/

def isObjectName : JsonValue → Bool
  | .str name => name == ascii "object"
  | _ => false

def typeIsObject (schema : Members) : Bool :=
  match memberAt schema (ascii "type") with
  | some (.arr _) | none => false
  | some name => isObjectName name

def listsObject (schema : Members) : Bool :=
  match memberAt schema (ascii "type") with
  | some (.arr names) => names.any isObjectName
  | _ => false

structure Acceptable (schema : Members) : Prop where
  keywords : ∀ key, (memberAt schema key).isSome = true → key ∈ anthropicStructuredKeywords
  object : typeIsObject schema = true ∨ listsObject schema = true ∨ hasProperties schema = true →
    memberAt schema (ascii "additionalProperties") = some (.bool false)
  localRef : ∀ ref, memberAt schema (ascii "$ref") = some (.str ref) →
    (ascii "#").isPrefixOf ref = true
  enum : ∀ values, memberAt schema (ascii "enum") = some (.arr values) →
    ∀ value ∈ values, value.isScalar = true
  format : ∀ format, memberAt schema (ascii "format") = some (.str format) →
    format ∈ anthropicStringFormats

/-- A reference at the first place or below it leads to the second. -/
def RefEdge (root : JsonValue) (p q : List Bytes) : Prop :=
  (∃ below schema ref, SchemaAt root (p ++ below) (.obj schema) ∧
    memberAt schema (ascii "$ref") = some (.str ref) ∧ pointerOf ref = some q) ∧
      ∃ target, SchemaAt root q target

def AcyclicRefs (root : JsonValue) : Prop := ∀ p, ¬Relation.TransGen (RefEdge root) p p

def Counted (test : PropertyTest) (root : JsonValue) (path : List Bytes) : Prop :=
  ∃ before schema properties name value, path = before ++ [ascii "properties", name] ∧
    SchemaAt root before (.obj schema) ∧
    memberAt schema (ascii "properties") = some (.obj properties) ∧
    memberAt properties name = some value ∧ test schema name value = true

def AtMost (n : Nat) (P : List Bytes → Prop) : Prop :=
  ∀ paths : List (List Bytes), paths.Nodup → (∀ path ∈ paths, P path) → paths.length ≤ n

structure WithinLimits (schema : Members) : Prop where
  nodes : ∀ path s, SchemaAt (.obj schema) path (.obj s) → Acceptable s
  acyclic : AcyclicRefs (.obj schema)
  optional : AtMost anthropicMaxOptionalParameters (Counted optionalProperty (.obj schema))
  unions : AtMost anthropicMaxUnionParameters (Counted unionProperty (.obj schema))

/-! ## What the copy keeps of a node -/

theorem stripSchema_scalar {value w : JsonValue} (scalar : w.isScalar = true) :
    stripSchema value = w ↔ value = w := by
  cases value with
  | obj m =>
    rw [stripSchema_obj]
    constructor <;> (intro same; subst same; cases scalar)
  | arr items =>
    rw [stripSchema]
    constructor <;> (intro same; subst same; cases scalar)
  | _ => rfl

variable {m : Members}

theorem sent_scalar (kw : Keyword) (kept : kw ∉ dropped) (plain : kw ∉ special)
    (walked : stripInner kw.name = stripSchema) {w : JsonValue} (scalar : w.isScalar = true) :
    memberAt (anthropicSchema m) kw.name = some w ↔ memberAt m kw.name = some w := by
  rw [memberAt_anthropicSchema kw kept plain, walked, Option.map_eq_some_iff]
  simp [stripSchema_scalar scalar]

theorem sent_ref (ref : Bytes) : memberAt (anthropicSchema m) (ascii "$ref") = some (.str ref) ↔
    memberAt m (ascii "$ref") = some (.str ref) :=
  sent_scalar .ref (by decide) (by decide) (by funext v; rfl) rfl

theorem sent_format (format : Bytes) : memberAt (anthropicSchema m) (ascii "format") = some (.str format) ↔
      memberAt m (ascii "format") = some (.str format) :=
  sent_scalar .format (by decide) (by decide) (by funext v; rfl) rfl

theorem sent_closed : memberAt (anthropicSchema m) (ascii "additionalProperties") = some (.bool false) ↔
      memberAt m (ascii "additionalProperties") = some (.bool false) :=
  sent_scalar .additionalProperties (by decide) (by decide) (by funext v; rfl) rfl

theorem isObjectName_strip (value : JsonValue) : isObjectName (stripSchema value) = isObjectName value := by
  cases value with
  | obj m =>
    rw [stripSchema_obj]
    rfl
  | _ => rfl

theorem sent_type_test {f : Option JsonValue → Bool} (absent : f none = false)
    (walks : ∀ w, f (some (stripSchema w)) = f (some w)) :
    f (memberAt (anthropicSchema m) (ascii "type")) =
      (f (memberAt m (ascii "type")) && (typeListAndEnum m).isNone) := by
  rw [sent_type_enum.1]
  cases typeListAndEnum m with
  | some pair => simp [absent]
  | none =>
    cases memberAt m (ascii "type") with
    | none => simp [absent]
    | some w => simp [walks]

theorem sent_typeIsObject : typeIsObject (anthropicSchema m) = typeIsObject m := by
  have test : typeIsObject (anthropicSchema m) = (typeIsObject m && (typeListAndEnum m).isNone) := by
    refine sent_type_test (f := fun type =>
      match type with
      | some (.arr _) | none => false
      | some name => isObjectName name) rfl ?_
    intro w
    cases w with
    | obj n =>
      rw [stripSchema_obj]
      rfl
    | _ => rfl
  rw [test]
  cases lists : typeListAndEnum m with
  | none => simp
  | some pair => rw [typeIsObject, (typeListAndEnum_some lists).1]; rfl

theorem sent_listsObject :
    listsObject (anthropicSchema m) = (listsObject m && (typeListAndEnum m).isNone) := by
  refine sent_type_test (f := fun type =>
    match type with
    | some (.arr names) => names.any isObjectName
    | _ => false) rfl ?_
  intro w
  cases w with
  | arr names =>
    simp [stripSchema, stripItems_eq, List.any_map, Function.comp_def, isObjectName_strip]
  | obj n => rw [stripSchema_obj]
  | _ => rfl

theorem sent_hasProperties : hasProperties (anthropicSchema m) = hasProperties m := by
  rw [hasProperties, hasProperties, sent_properties]
  cases memberAt m (ascii "properties") with
  | none => rfl
  | some w => cases w <;> rfl

/-! ## The condition -/

/-- A schema whose copy is acceptable, said of the schema itself: a list of types goes into
the enum beside it, and an enum beside a list of types loses all that is not a scalar. -/
structure Sendable (m : Members) : Prop where
  keywords : ∀ key, (memberAt m key).isSome = true →
    key ∈ anthropicStructuredKeywords ∨ key ∈ anthropicUnsupportedKeywords
  object : typeIsObject m = true ∨ (listsObject m = true ∧ typeListAndEnum m = none) ∨
      hasProperties m = true →
    memberAt m (ascii "additionalProperties") = some (.bool false)
  localRef : ∀ ref, memberAt m (ascii "$ref") = some (.str ref) → (ascii "#").isPrefixOf ref = true
  enum : typeListAndEnum m = none → ∀ values, memberAt m (ascii "enum") = some (.arr values) →
    ∀ value ∈ values, value.isScalar = true
  format : ∀ format, memberAt m (ascii "format") = some (.str format) →
    format ∈ anthropicStringFormats

theorem keptValues_isScalar {types values : List JsonValue} {value : JsonValue}
    (kept : value ∈ keptValues types values) : value.isScalar = true := by
  by_contra compound
  obtain ⟨name, -, allowed⟩ := List.any_eq_true.mp (List.mem_filter.mp kept).2
  rw [jsonTypeAllows_compound name (Bool.eq_false_iff.mpr compound)] at allowed
  cases allowed

theorem sent_enum_isScalar : (∀ values, memberAt (anthropicSchema m) (ascii "enum") = some (.arr values) →
        ∀ value ∈ values, value.isScalar = true) ↔
      (typeListAndEnum m = none → ∀ values, memberAt m (ascii "enum") = some (.arr values) →
        ∀ value ∈ values, value.isScalar = true) := by
  rw [sent_type_enum.2]
  cases typeListAndEnum m with
  | none => simp
  | some pair =>
    constructor
    · intro _ none
      cases none
    · rintro _ values same value inside
      cases same
      exact keptValues_isScalar inside

theorem acceptable_sent : Acceptable (anthropicSchema m) ↔ Sendable m := by
  have object : typeIsObject (anthropicSchema m) = true ∨ listsObject (anthropicSchema m) = true ∨
        hasProperties (anthropicSchema m) = true ↔
      typeIsObject m = true ∨ (listsObject m = true ∧ typeListAndEnum m = none) ∨ hasProperties m = true := by
    rw [sent_typeIsObject, sent_listsObject, sent_hasProperties, Bool.and_eq_true, Option.isNone_iff_eq_none]
  constructor
  · intro sent
    refine ⟨sent_keywords.mp sent.keywords, ?_, ?_, sent_enum_isScalar.mp sent.enum, ?_⟩
    · intro declared
      exact sent_closed.mp (sent.object (object.mpr declared))
    · intro ref found
      exact sent.localRef ref ((sent_ref ref).mpr found)
    · intro format found
      exact sent.format format ((sent_format format).mpr found)
  · intro own
    refine ⟨sent_keywords.mpr own.keywords, ?_, ?_, sent_enum_isScalar.mpr own.enum, ?_⟩
    · intro declared
      exact sent_closed.mpr (own.object (object.mp declared))
    · intro ref found
      exact own.localRef ref ((sent_ref ref).mp found)
    · intro format found
      exact own.format format ((sent_format format).mp found)

def unionSent : PropertyTest := fun _ _ value =>
  match value with
  | .obj child => (memberAt child (ascii "anyOf")).isSome ||
      ((match memberAt child (ascii "type") with
        | some (.arr _) => true
        | _ => false) && (typeListAndEnum child).isNone)
  | _ => false

theorem isUnion_sent : isUnion (anthropicSchema m) = unionSent [] [] (.obj m) := by
  have anyOf : (memberAt (anthropicSchema m) (ascii "anyOf")).isSome =
      (memberAt m (ascii "anyOf")).isSome := by
    rw [show ascii "anyOf" = Keyword.anyOf.name from rfl,
      memberAt_anthropicSchema .anyOf (by decide) (by decide), Option.isSome_map]
  rw [isUnion, anyOf, unionSent]
  congr 1
  refine sent_type_test (f := fun type =>
    match type with
    | some (.arr _) => true
    | _ => false) rfl ?_
  intro w
  cases w with
  | obj n => rw [stripSchema_obj]
  | _ => rfl

theorem unionProperty_sent (m : Members) (name : Bytes) (value : JsonValue) :
    unionProperty (anthropicSchema m) name (stripSchema value) = unionSent m name value := by
  cases value with
  | obj child =>
    rw [stripSchema_obj]
    exact isUnion_sent
  | _ => rfl

theorem isRequired_sent (name : Bytes) : isRequired (anthropicSchema m) name = isRequired m name := by
  have walked : memberAt (anthropicSchema m) (ascii "required") =
      (memberAt m (ascii "required")).map stripSchema :=
    memberAt_anthropicSchema .required (by decide) (by decide)
  rw [isRequired, isRequired, walked]
  cases memberAt m (ascii "required") with
  | none => rfl
  | some w =>
    cases w with
    | arr names =>
      simp only [Option.map_some, stripSchema, stripItems_eq, List.any_map]
      congr 1
      funext value
      cases value with
      | obj n => simp only [Function.comp_apply, stripSchema_obj]
      | _ => rfl
    | obj n =>
      rw [Option.map_some, stripSchema_obj]
    | _ => rfl

theorem optionalProperty_sent (m : Members) (name : Bytes) (value : JsonValue) :
    optionalProperty (anthropicSchema m) name (stripSchema value) = optionalProperty m name value := by
  rw [optionalProperty, isRequired_sent]
  rfl

variable {S : Members}

theorem counted_copy {test own : PropertyTest}
    (agree : ∀ m name value, test (anthropicSchema m) name (stripSchema value) = own m name value)
    {path : List Bytes} :
    Counted test (.obj (anthropicSchema S)) path ↔ Counted own (.obj S) path := by
  constructor
  · rintro ⟨before, _, properties, name, value, rfl, found, declared, under, picked⟩
    obtain ⟨m, here, rfl⟩ := schemaAt_sent.mp found
    rw [sent_properties] at declared
    obtain ⟨w, original, same⟩ := Option.map_eq_some_iff.mp declared
    cases w with
    | obj names =>
      rw [stripNamed, stripNames_eq] at same
      cases same
      rw [memberAt_map fun _ property => stripSchema property] at under
      obtain ⟨inner, beneath, rfl⟩ := Option.map_eq_some_iff.mp under
      rw [agree] at picked
      exact ⟨before, m, names, name, inner, rfl, here, original, beneath, picked⟩
    | _ => cases same
  · rintro ⟨before, m, names, name, inner, rfl, found, declared, under, picked⟩
    refine ⟨before, anthropicSchema m, stripNames names, name, stripSchema inner, rfl,
      schemaAt_sent.mpr ⟨m, found, rfl⟩, ?_, ?_, ?_⟩
    · rw [sent_properties, declared]
      rfl
    · rw [stripNames_eq, memberAt_map fun _ property => stripSchema property, under]
      rfl
    · rw [agree]
      exact picked

theorem counted_sent :
    Counted optionalProperty (.obj (anthropicSchema S)) = Counted optionalProperty (.obj S) ∧
      Counted unionProperty (.obj (anthropicSchema S)) = Counted unionSent (.obj S) := by
  constructor
  · funext path
    exact propext (counted_copy optionalProperty_sent)
  · funext path
    exact propext (counted_copy unionProperty_sent)

theorem refEdge_sent {p q : List Bytes} : RefEdge (.obj (anthropicSchema S)) p q ↔ RefEdge (.obj S) p q := by
  refine and_congr ?_ ?_
  · constructor
    · rintro ⟨below, _, ref, found, refers, leads⟩
      obtain ⟨m, here, rfl⟩ := schemaAt_sent.mp found
      exact ⟨below, m, ref, here, (sent_ref ref).mp refers, leads⟩
    · rintro ⟨below, m, ref, found, refers, leads⟩
      exact ⟨below, anthropicSchema m, ref, schemaAt_sent.mpr ⟨m, found, rfl⟩,
        (sent_ref ref).mpr refers, leads⟩
  · rw [← stripSchema_obj]
    constructor
    · rintro ⟨target, found⟩
      obtain ⟨value, here, -⟩ := schemaAt_strip.mp found
      exact ⟨value, here⟩
    · rintro ⟨value, found⟩
      exact ⟨stripSchema value, schemaAt_strip.mpr ⟨value, found, rfl⟩⟩

theorem acyclicRefs_sent : AcyclicRefs (.obj (anthropicSchema S)) ↔ AcyclicRefs (.obj S) := by
  have same : RefEdge (.obj (anthropicSchema S)) = RefEdge (.obj S) := by
    funext p q
    exact propext refEdge_sent
  rw [AcyclicRefs, same, AcyclicRefs]

/-- What the walk does not look at: `object` in a list of types, where references lead, and
the schemas of a tuple, with the properties of the document when there are such schemas. -/
structure LimitsKept (S : Members) : Prop where
  listedObjects : ∀ path m, SchemaAt (.obj S) path (.obj m) → listsObject m = true →
    typeListAndEnum m = none → memberAt m (ascii "additionalProperties") = some (.bool false)
  acyclic : AcyclicRefs (.obj S)
  tuples : ∀ path m, SchemaAt (.obj S) path (.obj m) → BelowTuple (.obj S) path → Sendable m
  counts : (∃ path m, SchemaAt (.obj S) path (.obj m) ∧ BelowTuple (.obj S) path) →
    AtMost anthropicMaxOptionalParameters (Counted optionalProperty (.obj S)) ∧
      AtMost anthropicMaxUnionParameters (Counted unionSent (.obj S))

/-! ## The fit against the limits -/

theorem closesObject_iff : closesObject m = true ↔
    memberAt m (ascii "additionalProperties") = some (.bool false) := by
  unfold closesObject
  split
  · rename_i found
    simp [found]
  · rename_i other
    constructor
    · intro closed
      cases closed
    · intro found
      exact absurd found (by simpa using other)

theorem isObject_of_declared (declared : typeIsObject m = true ∨ hasProperties m = true) :
    isObject m = true := by
  rw [isObject, Bool.or_eq_true]
  refine declared.imp_left ?_
  intro type
  unfold typeIsObject at type
  split at type
  · cases type
  · cases type
  · rename_i name _ found
    rw [found]
    cases name <;> exact type

theorem NodeFits.acceptable (fits : NodeFits m)
    (listed : listsObject m = true → memberAt m (ascii "additionalProperties") = some (.bool false)) :
    Acceptable m := by
  refine ⟨fits.keywords, ?_, fits.localRef, fits.enum, fits.format⟩
  rintro (type | lists | properties)
  · exact closesObject_iff.mp (fits.additional (isObject_of_declared (Or.inl type)))
  · exact listed lists
  · exact closesObject_iff.mp (fits.additional (isObject_of_declared (Or.inr properties)))

theorem fit_counts {schema : Members} (fits : anthropicSchemaFit schema = .ok ()) :
    (countedPaths optionalProperty fitLevels (.obj schema)).length ≤ anthropicMaxOptionalParameters ∧
      (countedPaths unionProperty fitLevels (.obj schema)).length ≤ anthropicMaxUnionParameters := by
  simp only [anthropicSchemaFit, bind_ok, ensure_ok, decide_eq_true_eq] at fits
  obtain ⟨counts, walked, _, optional, unions⟩ := fits
  rw [fitNode_counts fitLevels walked] at optional unions
  simp only [FitCounts.plus, Nat.zero_add] at optional unions
  exact ⟨optional, unions⟩

/-- With no schema in a tuple, a counter bounds the properties of the whole document. -/
theorem atMost_of_length {schema : Members} {test : PropertyTest} {n : Nat}
    (visited : Visited fitLevels (.obj schema))
    (none : ∀ path s, SchemaAt (.obj schema) path (.obj s) → ¬BelowTuple (.obj schema) path)
    (few : (countedPaths test fitLevels (.obj schema)).length ≤ n) :
    AtMost n (Counted test (.obj schema)) := by
  intro paths distinct counted
  refine le_trans (List.Subperm.length_le (List.subperm_of_subset distinct ?_)) few
  intro path inside
  obtain ⟨before, s, properties, name, value, rfl, found, declared, under, picked⟩ := counted path inside
  exact (visited_counted test visited found declared under picked).resolve_right (none before s found)

/-- A schema whose copy fits is sent within the limits, exactly when it keeps to them where
the walk does not look. -/
theorem withinLimits_iff (fits : anthropicSchemaFit (anthropicSchema S) = .ok ()) :
    WithinLimits (anthropicSchema S) ↔ LimitsKept S := by
  obtain ⟨sameOptional, sameUnions⟩ := counted_sent (S := S)
  constructor
  · intro within
    have node {path : List Bytes} {m : Members} (found : SchemaAt (.obj S) path (.obj m)) :
        Sendable m :=
      acceptable_sent.mp (within.nodes path _ (schemaAt_sent.mpr ⟨m, found, rfl⟩))
    refine ⟨?_, acyclicRefs_sent.mp within.acyclic, ?_, ?_⟩
    · intro path m found lists alone
      exact (node found).object (Or.inr (Or.inl ⟨lists, alone⟩))
    · intro path m found _
      exact node found
    · intro _
      rw [← sameOptional, ← sameUnions]
      exact ⟨within.optional, within.unions⟩
  · intro kept
    have counts : AtMost anthropicMaxOptionalParameters
          (Counted optionalProperty (.obj (anthropicSchema S))) ∧
        AtMost anthropicMaxUnionParameters (Counted unionProperty (.obj (anthropicSchema S))) := by
      by_cases tuples : ∃ path m, SchemaAt (.obj S) path (.obj m) ∧ BelowTuple (.obj S) path
      · rw [sameOptional, sameUnions]
        exact kept.counts tuples
      · have none (path : List Bytes) (s : Members)
            (found : SchemaAt (.obj (anthropicSchema S)) path (.obj s)) :
            ¬BelowTuple (.obj (anthropicSchema S)) path := by
          intro below
          obtain ⟨m, here, -⟩ := schemaAt_sent.mp found
          exact tuples ⟨path, m, here, belowTuple_sent.mp below⟩
        obtain ⟨optional, unions⟩ := fit_counts fits
        exact ⟨atMost_of_length (fit_visited fits) none optional,
          atMost_of_length (fit_visited fits) none unions⟩
    refine ⟨?_, acyclicRefs_sent.mpr kept.acyclic, counts.1, counts.2⟩
    intro path s found
    obtain ⟨m, here, rfl⟩ := schemaAt_sent.mp found
    rcases sent_fits fits here with checked | below
    · apply checked.acceptable
      intro lists
      rw [sent_listsObject, Bool.and_eq_true, Option.isNone_iff_eq_none] at lists
      exact sent_closed.mpr (kept.listedObjects path m here lists.1 lists.2)
    · exact acceptable_sent.mpr (kept.tuples path m here below)

/-- The schema `{"type": ["object", "null"], "additionalProperties": false}` -/
def closedOrNull : Members :=
  [(ascii "type", .arr [.str (ascii "object"), .str (ascii "null")]),
    (ascii "additionalProperties", .bool false)]

theorem closedOrNull_flat (kw : Keyword) (value : JsonValue)
    (found : memberAt closedOrNull kw.name = some value) :
    placeOf kw value = none ∨ value.isScalar = true := by
  cases kw with
  | additionalProperties =>
    cases found
    exact Or.inr rfl
  | _ => first | exact Or.inl rfl | cases found

theorem closedOrNull_within : anthropicSchemaFit (anthropicSchema closedOrNull) = .ok () ∧
    WithinLimits (anthropicSchema closedOrNull) := by
  have fits : anthropicSchemaFit (anthropicSchema closedOrNull) = .ok () := by decide +kernel
  refine ⟨fits, (withinLimits_iff fits).mpr ⟨?_, ?_, ?_, ?_⟩⟩
  · intro path m found _ _
    obtain ⟨-, rfl⟩ := found.flat closedOrNull_flat
    rfl
  · intro p cycle
    -- the last reference of the cycle is one of the only schema, which has none
    obtain ⟨_, -, ⟨_, schema, ref, found, refers, -⟩, -⟩ := Relation.TransGen.tail'_iff.mp cycle
    obtain ⟨-, rfl⟩ := found.flat closedOrNull_flat
    cases refers
  · rintro path m found ⟨before, token, after, _, _, same, -⟩
    obtain ⟨rfl, -⟩ := found.flat closedOrNull_flat
    simp at same
  · rintro ⟨path, m, found, before, token, after, _, _, same, -⟩
    obtain ⟨rfl, -⟩ := found.flat closedOrNull_flat
    simp at same

/-- The schema `{"type": ["object", "null"]}` -/
def openOrNull : Members := [(ascii "type", .arr [.str (ascii "object"), .str (ascii "null")])]

/-- The schema `{"$ref": "#"}` -/
def selfReference : Members := [(ascii "$ref", .str (ascii "#"))]

/-- The schema `{"type": "array", "items": [{"type": "object"}]}` -/
def openTuple : Members :=
  [(ascii "type", .str (ascii "array")),
    (ascii "items", .arr [.obj [(ascii "type", .str (ascii "object"))]])]

/-- An open object under a list of types, a recursive reference and an open object in a tuple
all fit. -/
theorem limits_not_kept :
    (anthropicSchemaFit (anthropicSchema openOrNull) = .ok () ∧
      ¬WithinLimits (anthropicSchema openOrNull)) ∧
    (anthropicSchemaFit (anthropicSchema selfReference) = .ok () ∧
      ¬WithinLimits (anthropicSchema selfReference)) ∧
    (anthropicSchemaFit (anthropicSchema openTuple) = .ok () ∧
      ¬WithinLimits (anthropicSchema openTuple)) := by
  refine ⟨⟨by decide +kernel, ?_⟩, ⟨by decide +kernel, ?_⟩, ⟨by decide +kernel, ?_⟩⟩
  · intro within
    have closed := (within.nodes [] _ rfl).object (Or.inr (Or.inl rfl))
    cases closed
  · intro within
    refine within.acyclic [] (.single ⟨⟨[], _, ascii "#", rfl, rfl, ?_⟩, ⟨_, rfl⟩⟩)
    decide +kernel
  · intro within
    have closed := (within.nodes [ascii "items", ascii "0"]
      [(ascii "type", .str (ascii "object"))] rfl).object (Or.inl rfl)
    cases closed

end DevHealth.Llm

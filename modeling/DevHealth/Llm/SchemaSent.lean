import DevHealth.Llm.SchemaRelaxes
import DevHealth.Llm.SchemaWalk

/-! # A schema that is sent

The fit and the copy together: a schema whose copy fits uses no keyword that the rewriting
could not carry over, so the copy relaxes it.  The one exception is an enum that lists an
object or an array under a list of types: the filter of `enumWithoutTypeList` knows neither
type and drops the value. -/
set_option autoImplicit false
namespace DevHealth.Llm

open Go Lib

/-! ## Keywords -/

def accepted : List Keyword :=
  [.type, .properties, .required, .additionalProperties, .items, .enum, .const, .anyOf, .allOf, .ref,
    .defs, .definitions, .description, .title, .default, .examples, .format, .minItems, .pattern,
    .schema, .id, .comment]

theorem structured_eq : anthropicStructuredKeywords = accepted.map Keyword.name := rfl

theorem known_of_mem {kws : List Keyword} {key : Bytes} (inside : key ∈ kws.map Keyword.name) :
    (Keyword.ofName key).isSome = true := by
  obtain ⟨kw, -, rfl⟩ := List.mem_map.mp inside
  exact Option.isSome_of_eq_some (Keyword.ofName_name kw)

theorem special_structured {kw : Keyword} (inside : kw ∈ special) :
    kw.name ∈ anthropicStructuredKeywords := by
  have each : ∀ kw ∈ special, kw ∈ accepted := by decide
  rw [structured_eq]
  exact List.mem_map_of_mem (each kw inside)

theorem sent_keywords {m : Members} :
    (∀ key, (memberAt (anthropicSchema m) key).isSome = true → key ∈ anthropicStructuredKeywords) ↔
      ∀ key, (memberAt m key).isSome = true →
        key ∈ anthropicStructuredKeywords ∨ key ∈ anthropicUnsupportedKeywords := by
  constructor
  · intro sent key present
    by_cases dropped : key ∈ anthropicUnsupportedKeywords
    · exact Or.inr dropped
    · left
      by_cases plain : key ∈ special.map Keyword.name
      · obtain ⟨kw, inside, rfl⟩ := List.mem_map.mp plain
        exact special_structured inside
      · apply sent
        rw [memberAt_sent dropped plain, Option.isSome_map]
        exact present
  · intro own key present
    rcases sent_key present with rfl | original
    · have inside : Keyword.description ∈ special := by decide
      exact special_structured inside
    · refine (own key original).resolve_right ?_
      intro dropped
      rw [sent_unsupported dropped] at present
      cases present

/-- When the copy of a node fits, the node is written in the vocabulary. -/
theorem inVocabulary_of_fits {m : Members} (fits : NodeFits (anthropicSchema m)) : inVocabulary m = true := by
  rw [inVocabulary_iff]
  intro key present
  rcases sent_keywords.mp fits.keywords key present with structured | unsupported
  · rw [structured_eq] at structured
    exact known_of_mem structured
  · rw [unsupported_eq] at unsupported
    exact known_of_mem unsupported

/-! ## Nodes -/

theorem fit_visited {schema : Members} (fits : anthropicSchemaFit schema = .ok ()) :
    Visited fitLevels (.obj schema) := by
  simp only [anthropicSchemaFit, bind_ok] at fits
  obtain ⟨counts, walked, -⟩ := fits
  exact ⟨_, _, counts, walked⟩

theorem stripSchema_eq_obj {value : JsonValue} {sent : Members} (copied : stripSchema value = .obj sent) :
    ∃ m, value = .obj m ∧ sent = anthropicSchema m := by
  cases value with
  | obj m =>
    rw [stripSchema_obj] at copied
    cases copied
    exact ⟨m, rfl, rfl⟩
  | _ => cases copied

theorem stripSchema_eq_arr {value : JsonValue} {list : List JsonValue}
    (copied : stripSchema value = .arr list) :
    ∃ items, value = .arr items := by
  cases value with
  | arr items => exact ⟨items, rfl⟩
  | obj m =>
    rw [stripSchema_obj] at copied
    cases copied
  | _ => cases copied

section Document

variable {S : Members} {path : List Bytes}

theorem schemaAt_sent {sent : Members} : SchemaAt (.obj (anthropicSchema S)) path (.obj sent) ↔
      ∃ m, SchemaAt (.obj S) path (.obj m) ∧ sent = anthropicSchema m := by
  rw [← stripSchema_obj, schemaAt_strip]
  constructor
  · rintro ⟨value, found, copied⟩
    obtain ⟨m, rfl, rfl⟩ := stripSchema_eq_obj copied.symm
    exact ⟨m, found, rfl⟩
  · rintro ⟨m, found, rfl⟩
    exact ⟨.obj m, found, (stripSchema_obj m).symm⟩

theorem belowTuple_sent : BelowTuple (.obj (anthropicSchema S)) path ↔ BelowTuple (.obj S) path := by
  have walked (m : Members) : memberAt (anthropicSchema m) (ascii "items") =
      (memberAt m (ascii "items")).map stripSchema :=
    memberAt_anthropicSchema .items (by decide) (by decide)
  constructor
  · rintro ⟨before, token, after, _, list, rfl, found, items⟩
    obtain ⟨m, here, rfl⟩ := schemaAt_sent.mp found
    rw [walked] at items
    obtain ⟨value, original, copied⟩ := Option.map_eq_some_iff.mp items
    obtain ⟨list, rfl⟩ := stripSchema_eq_arr copied
    exact ⟨before, token, after, m, list, rfl, here, original⟩
  · rintro ⟨before, token, after, m, list, rfl, found, items⟩
    refine ⟨before, token, after, anthropicSchema m, list.map stripSchema, rfl,
      schemaAt_sent.mpr ⟨m, found, rfl⟩, ?_⟩
    rw [walked, items, Option.map_some, stripSchema, stripItems_eq]

/-- The checks have passed on the copy of every node, but for those of a tuple. -/
theorem sent_fits (fits : anthropicSchemaFit (anthropicSchema S) = .ok ()) {m : Members}
    (found : SchemaAt (.obj S) path (.obj m)) :
    NodeFits (anthropicSchema m) ∨ BelowTuple (.obj S) path := by
  have copied : SchemaAt (.obj (anthropicSchema S)) path (.obj (anthropicSchema m)) :=
    schemaAt_sent.mpr ⟨m, found, rfl⟩
  exact (visited_fits (fit_visited fits) copied).imp_right belowTuple_sent.mp

end Document

/-! ## The copy accepts what the document accepts -/

/-- No list of types allows an object or an array that the enum beside it lists. -/
def PlainEnums (S : Members) : Prop :=
  ∀ path m types values, SchemaAt (.obj S) path (.obj m) →
    typeListAndEnum m = some (types, values) → ¬CompoundAllowed types values

/-- The numbers of an enum beside a list of types are of a length that a machine can hold. -/
def ShortEnums (S : Members) : Prop :=
  ∀ path m types values, SchemaAt (.obj S) path (.obj m) →
    typeListAndEnum m = some (types, values) → ∀ e ∈ values, ShortNumber e

/-- The schemas of a tuple, which the walk does not visit, keep to the vocabulary. -/
def TuplesKnown (S : Members) : Prop :=
  ∀ path m, SchemaAt (.obj S) path (.obj m) → BelowTuple (.obj S) path → inVocabulary m = true

/-- Where a list of types went into the enum, both accept the same. -/
def EnumsExact (S : Members) : Prop :=
  ∀ path m, SchemaAt (.obj S) path (.obj m) → (typeListAndEnum m).isSome = true →
    ∀ v, byTypeAndEnum m v = byTypeAndEnum (anthropicSchema m) v

variable {S : Members}

theorem enum_distinct {m : Members} (distinct : (JsonValue.obj m).Distinct) {types values : List JsonValue}
    (lists : typeListAndEnum m = some (types, values)) : ∀ e ∈ values, e.Distinct := by
  cases distinct with
  | obj _ each =>
    have listed := each _ (mem_of_memberAt (typeListAndEnum_some lists).2)
    cases listed with
    | arr items => exact items

theorem enumsExact_iff (distinct : (JsonValue.obj S).Distinct) (short : ShortEnums S) :
    EnumsExact S ↔ PlainEnums S := by
  have exact_iff {path : List Bytes} {m : Members} (found : SchemaAt (.obj S) path (.obj m))
      {types values : List JsonValue} (lists : typeListAndEnum m = some (types, values)) :=
    byTypeAndEnum_exact lists (enum_distinct (found.distinct distinct) lists)
      (short path m types values found lists)
  constructor
  · intro exact path m types values found lists
    apply (exact_iff found lists).mp
    exact exact path m found (by rw [lists]; rfl)
  · intro plain path m found rewritten
    obtain ⟨⟨types, values⟩, lists⟩ := Option.isSome_iff_exists.mp rewritten
    exact (exact_iff found lists).mpr (plain path m types values found lists)

theorem fit_tame (distinct : (JsonValue.obj S).Distinct)
    (fits : anthropicSchemaFit (anthropicSchema S) = .ok ()) (tuples : TuplesKnown S)
    (same : EnumsExact S) (path : List Bytes) (m : Members)
    (found : SchemaAt (.obj S) path (.obj m)) : Tame m := by
  refine ⟨?_, ?_, ?_⟩
  · rcases sent_fits fits found with checked | below
    · exact inVocabulary_of_fits checked
    · exact tuples path m found below
  · cases found.distinct distinct with
    | obj names _ => exact names
  · intro v accepted
    cases lists : typeListAndEnum m with
    | none =>
      rw [byTypeAndEnum_kept lists]
      exact accepted
    | some pair =>
      rw [← same path m found (by rw [lists]; rfl)]
      exact accepted

/-- A schema whose copy fits is only relaxed by the rewriting, and its rewritten enums accept
what they accepted, exactly when no rewritten enum had an object or an array to lose. -/
theorem sent_relaxes_iff (D : Dialect) (distinct : (JsonValue.obj S).Distinct)
    (fits : anthropicSchemaFit (anthropicSchema S) = .ok ()) (short : ShortEnums S)
    (tuples : TuplesKnown S) :
    ((∀ v, Valid D (.obj S) v → Valid D (.obj (anthropicSchema S)) v) ∧ EnumsExact S) ↔
      PlainEnums S := by
  rw [← enumsExact_iff distinct short]
  constructor
  · intro both
    exact both.2
  · intro same
    refine ⟨?_, same⟩
    intro v valid
    rw [← stripSchema_obj]
    exact valid_relax (fit_tame distinct fits tuples same) valid

/-- The schema `{"type": ["string", "null"], "enum": ["high", null]}` -/
def nullableLevel : Members :=
  [(ascii "type", .arr [.str (ascii "string"), .str (ascii "null")]),
    (ascii "enum", .arr [.str (ascii "high"), .null])]

theorem nullableLevel_flat (kw : Keyword) (value : JsonValue)
    (found : memberAt nullableLevel kw.name = some value) :
    placeOf kw value = none ∨ value.isScalar = true := by
  cases kw <;> first | exact Or.inl rfl | cases found

theorem nullableLevel_distinct : (JsonValue.obj nullableLevel).Distinct := by
  have text (s : Bytes) : (JsonValue.str s).Distinct := .str s
  refine .obj (by decide +kernel) ?_
  simp only [nullableLevel, List.forall_mem_cons, List.not_mem_nil, false_imp_iff, implies_true, and_true]
  exact ⟨.arr (by simp [text]), .arr (by simp [text, JsonValue.Distinct.null])⟩

theorem nullableLevel_relaxed : anthropicSchemaFit (anthropicSchema nullableLevel) = .ok () ∧
    ∀ D, (∀ v, Valid D (.obj nullableLevel) v → Valid D (.obj (anthropicSchema nullableLevel)) v) ∧
      EnumsExact nullableLevel := by
  have fits : anthropicSchemaFit (anthropicSchema nullableLevel) = .ok () := by decide +kernel
  refine ⟨fits, ?_⟩
  intro D
  apply (sent_relaxes_iff D nullableLevel_distinct fits ?_ ?_).mpr
  · rintro path m types values found lists ⟨e, inside, compound, -⟩
    obtain ⟨-, rfl⟩ := found.flat nullableLevel_flat
    cases lists
    simp only [List.mem_cons, List.not_mem_nil, or_false] at inside
    rcases inside with rfl | rfl <;> cases compound
  · intro path m types values found lists e inside
    obtain ⟨-, rfl⟩ := found.flat nullableLevel_flat
    cases lists
    simp only [List.mem_cons, List.not_mem_nil, or_false] at inside
    rcases inside with rfl | rfl <;> trivial
  · rintro path m found ⟨before, token, after, _, _, same, -⟩
    obtain ⟨rfl, -⟩ := found.flat nullableLevel_flat
    simp at same

/-- The schema `{"type": ["object", "null"], "enum": [{"a": null}, null]}` -/
def objectOrNull : Members :=
  [(ascii "type", .arr [.str (ascii "object"), .str (ascii "null")]),
    (ascii "enum", .arr [.obj [(ascii "a", .null)], .null])]

/-- The object of the enum is accepted by the schema and not by the one that is sent, which
is `{"enum": [null]}`. -/
theorem objectOrNull_tightened : anthropicSchemaFit (anthropicSchema objectOrNull) = .ok () ∧
    ∀ D, Valid D (.obj objectOrNull) (.obj [(ascii "a", .null)]) ∧
      ¬Valid D (.obj (anthropicSchema objectOrNull)) (.obj [(ascii "a", .null)]) := by
  have sent : anthropicSchema objectOrNull = [(ascii "enum", .arr [.null])] := rfl
  refine ⟨by decide +kernel, fun D => ⟨⟨1, ?_⟩, ?_⟩⟩
  · rw [validWithin_typeAndEnum (by decide +kernel)]
    · decide +kernel
    · intro kw present
      cases kw <;> first | exact Or.inl rfl | exact Or.inr rfl | cases present
  · rintro ⟨levels, valid⟩
    cases levels with
    | zero => cases valid
    | succ levels =>
      rw [sent, validWithin_typeAndEnum (by decide +kernel)] at valid
      · cases valid
      · intro kw present
        cases kw <;> first | exact Or.inl rfl | exact Or.inr rfl | cases present

end DevHealth.Llm

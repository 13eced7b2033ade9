import DevHealth.Llm.Schema

/-! # What the copy keeps

The copy of a schema has the places of the schema: a path leads to a schema in one exactly
when it does in the other, and there the second is the copy of the first. -/
set_option autoImplicit false
namespace DevHealth.Llm

open Go Lib

/-! ## The loops -/

theorem stripItems_eq (items : List JsonValue) : stripItems items = items.map stripSchema := by
  induction items with
  | nil => rfl
  | cons item items ih => rw [stripItems, List.map_cons, ih]

theorem stripNames_eq (names : Members) :
    stripNames names = names.map fun (name, property) => (name, stripSchema property) := by
  induction names with
  | nil => rfl
  | cons entry names ih =>
    obtain ⟨name, property⟩ := entry
    rw [stripNames, List.map_cons, ih]

def stripInner (key : Bytes) (inner : JsonValue) : JsonValue :=
  if contains anthropicSchemaDataKeywords key then inner
  else if holdsNames key then stripNamed inner
  else stripSchema inner

theorem stripMembers_eq (m : Members) :
    stripMembers m = (m.filter fun (key, inner) => !dropsKeyword key inner).map
      fun (key, inner) => (key, stripInner key inner) := by
  induction m with
  | nil => rfl
  | cons entry m ih =>
    obtain ⟨key, inner⟩ := entry
    simp only [stripMembers, List.filter_cons, ih]
    by_cases drops : dropsKeyword key inner = true
    · simp [drops]
    · simp only [Bool.not_eq_true] at drops
      simp only [drops, Bool.false_eq_true, if_false, Bool.not_false, if_true, List.map_cons, stripInner]
      split_ifs <;> rfl

/-! ## One node -/

variable {m : Members} {key : Bytes}

theorem memberAt_setMember (m : Members) (key other : Bytes) (value : JsonValue) :
    memberAt (setMember m key value) other = if other = key then some value else memberAt m other := by
  unfold setMember
  by_cases present : (memberAt m key).isSome = true
  · rw [if_pos present, memberAt_map fun k v => if k = key then value else v]
    by_cases here : other = key
    · rw [if_pos here, here]
      obtain ⟨v, found⟩ := Option.isSome_iff_exists.mp present
      simp [found]
    · rw [if_neg here]
      simp [here]
  · rw [if_neg present, memberAt_append, memberAt_cons]
    by_cases here : other = key
    · rw [here, Option.not_isSome_iff_eq_none.mp present, if_pos rfl, if_pos rfl]
      rfl
    · rw [if_neg here, if_neg here]
      simp [memberAt]

theorem memberAt_deleteMember (m : Members) (key other : Bytes) :
    memberAt (deleteMember m key) other = if other = key then none else memberAt m other := by
  unfold deleteMember
  by_cases here : other = key
  · rw [if_pos here]
    exact memberAt_filter_none fun v => by simp [here]
  · rw [if_neg here]
    exact memberAt_filter fun v => by simp [here]

theorem memberAt_describe (original stripped : Members) (other : key ≠ ascii "description") :
    memberAt (describeDroppedBounds original stripped) key = memberAt stripped key := by
  simp only [describeDroppedBounds]
  split_ifs
  · rfl
  · rw [memberAt_setMember, if_neg other]

theorem memberAt_enumWithoutTypeList (m : Members) (key : Bytes) : memberAt (enumWithoutTypeList m) key =
      match typeListAndEnum m with
      | none => memberAt m key
      | some (types, values) =>
        if key = ascii "type" then none
        else if key = ascii "enum" then some (.arr (keptValues types values))
        else memberAt m key := by
  cases found : typeListAndEnum m with
  | none => rw [enumWithoutTypeList, found]
  | some lists =>
    obtain ⟨types, values⟩ := lists
    rw [enumWithoutTypeList, found]
    simp only [memberAt_deleteMember, memberAt_setMember]

/-- The keywords that the copy treats as it treats none of the others. -/
def special : List Keyword := [.type, .enum, .description, .minItems]

def dropped : List Keyword :=
  [.minimum, .maximum, .exclusiveMinimum, .exclusiveMaximum, .multipleOf, .minLength, .maxLength,
    .maxItems, .uniqueItems, .minContains, .maxContains, .minProperties, .maxProperties]

theorem unsupported_eq : anthropicUnsupportedKeywords = dropped.map Keyword.name := rfl

theorem unsupported_iff {kw : Keyword} : kw.name ∈ anthropicUnsupportedKeywords ↔ kw ∈ dropped := by
  rw [unsupported_eq, List.mem_map_of_injective Keyword.name_injective]

theorem memberAt_stripMembers {key : Bytes} (supported : key ∉ anthropicUnsupportedKeywords)
    (other : key ≠ ascii "minItems") :
    memberAt (stripMembers m) key = (memberAt m key).map (stripInner key) := by
  have kept : contains anthropicUnsupportedKeywords key = false :=
    Bool.eq_false_iff.mpr fun inside => supported ((contains_iff _ _).mp inside)
  rw [stripMembers_eq, memberAt_map, memberAt_filter]
  intro inner
  simp [dropsKeyword, kept, other]

theorem memberAt_keyword (kw : Keyword) (kept : kw ∉ dropped) (other : kw ≠ .minItems) :
    memberAt (stripMembers m) kw.name = (memberAt m kw.name).map (stripInner kw.name) := by
  apply memberAt_stripMembers
  · rwa [unsupported_iff]
  · exact Keyword.name_ne other

theorem memberAt_sent {key : Bytes} (supported : key ∉ anthropicUnsupportedKeywords)
    (plain : key ∉ special.map Keyword.name) :
    memberAt (anthropicSchema m) key = (memberAt m key).map (stripInner key) := by
  have apart (other : Keyword) (inside : other ∈ special) : key ≠ other.name := by
    intro same
    exact plain (List.mem_map.mpr ⟨other, inside, same.symm⟩)
  have notDescription : key ≠ ascii "description" := apart .description (by decide)
  have notType : key ≠ ascii "type" := apart .type (by decide)
  have notEnum : key ≠ ascii "enum" := apart .enum (by decide)
  have notMin : key ≠ ascii "minItems" := apart .minItems (by decide)
  rw [anthropicSchema, memberAt_enumWithoutTypeList]
  split
  · rw [memberAt_describe _ _ notDescription, memberAt_stripMembers supported notMin]
  · rw [if_neg notType, if_neg notEnum, memberAt_describe _ _ notDescription,
      memberAt_stripMembers supported notMin]

theorem memberAt_anthropicSchema (kw : Keyword) (kept : kw ∉ dropped) (plain : kw ∉ special) :
    memberAt (anthropicSchema m) kw.name = (memberAt m kw.name).map (stripInner kw.name) := by
  apply memberAt_sent
  · rwa [unsupported_iff]
  · rwa [List.mem_map_of_injective Keyword.name_injective]

theorem sent_properties : memberAt (anthropicSchema m) (ascii "properties") =
    (memberAt m (ascii "properties")).map stripNamed :=
  memberAt_anthropicSchema .properties (by decide) (by decide)

/-! ## Places -/

def stripAt : Place → JsonValue → JsonValue
  | .named, value => stripNamed value
  | _, value => stripSchema value

theorem placeOf_strip (kw : Keyword) (value : JsonValue) :
    placeOf kw (stripSchema value) = placeOf kw value := by
  cases kw with
  | items => cases value <;> rfl
  | _ => rfl

theorem structural_strip {kw : Keyword} {place : Place} {value : JsonValue}
    (holds : placeOf kw value = some place) :
    kw ∉ dropped ∧ kw ∉ special ∧ stripInner kw.name value = stripAt place value ∧
      placeOf kw (stripInner kw.name value) = some place := by
  cases kw with
  | properties | defs | definitions | anyOf | allOf | additionalProperties =>
    cases holds
    exact ⟨by decide, by decide, rfl, rfl⟩
  | items =>
    refine ⟨by decide, by decide, ?_, ?_⟩
    · cases value <;> cases holds <;> rfl
    · exact (placeOf_strip .items value).trans holds
  | _ => cases holds

theorem placeOf_isSome (kw : Keyword) (v w : JsonValue) : (placeOf kw v).isSome = (placeOf kw w).isSome := by
  cases kw with
  | items => cases v <;> cases w <;> rfl
  | _ => rfl

theorem keyword_strip (m : Members) (kw : Keyword) :
    ((memberAt (anthropicSchema m) kw.name).bind fun v => (placeOf kw v).map fun p => (p, v)) =
      ((memberAt m kw.name).bind fun v => (placeOf kw v).map fun p => (p, v)).map
        fun (p, v) => (p, stripAt p v) := by
  cases structural : placeOf kw .null with
  | none =>
    have nowhere (v : JsonValue) : placeOf kw v = none := by
      have same := placeOf_isSome kw v .null
      rw [structural] at same
      exact Option.isSome_eq_false_iff.mp same |> Option.isNone_iff_eq_none.mp
    simp [nowhere]
  | some place =>
    obtain ⟨supported, plain, -⟩ := structural_strip structural
    rw [memberAt_anthropicSchema kw supported plain]
    cases memberAt m kw.name with
    | none => rfl
    | some inner =>
      cases here : placeOf kw inner with
      | none =>
        have same := placeOf_isSome kw inner .null
        rw [here, structural] at same
        cases same
      | some p =>
        obtain ⟨-, -, walked, kept⟩ := structural_strip here
        rw [walked] at kept
        simp [here, walked, kept]

theorem descend_strip (place : Place) (value : JsonValue) (token : Bytes) :
    descend place (stripAt place value) token =
      (descend place value token).map fun (p, v) => (p, stripAt p v) := by
  cases place with
  | schema =>
    cases value with
    | obj m =>
      show descend .schema (stripSchema (.obj m)) token = _
      rw [stripSchema_obj]
      simp only [descend]
      cases known : Keyword.ofName token with
      | none => rfl
      | some kw =>
        rw [← Keyword.name_of_ofName known]
        exact keyword_strip m kw
    | _ => rfl
  | named =>
    cases value with
    | obj m =>
      show (memberAt (stripNames m) token).map _ = _
      rw [stripNames_eq, memberAt_map fun _ property => stripSchema property]
      simp only [descend, Option.map_map]
      rfl
    | _ => rfl
  | listed =>
    cases value with
    | arr items =>
      show descend .listed (.arr (stripItems items)) token = _
      rw [stripItems_eq]
      simp only [descend]
      cases indexOf token with
      | none => rfl
      | some i =>
        simp only [Option.bind_some, List.getElem?_map]
        cases items[i]? <;> rfl
    | _ => rfl

theorem locate_strip (path : List Bytes) :
    ∀ (place : Place) (value : JsonValue), locate place (stripAt place value) path =
      (locate place value path).map fun (p, v) => (p, stripAt p v) := by
  induction path with
  | nil =>
    intro place value
    rfl
  | cons token path ih =>
    intro place value
    rw [locate, locate, descend_strip]
    cases descend place value token with
    | none => rfl
    | some next => exact ih next.1 next.2

/-- A path leads to a schema of the copy exactly when it leads to one of the original, of
which the first is the copy. -/
theorem schemaAt_strip {root : JsonValue} {path : List Bytes} {sent : JsonValue} :
    SchemaAt (stripSchema root) path sent ↔ ∃ schema, SchemaAt root path schema ∧
      sent = stripSchema schema := by
  have moved := locate_strip path .schema root
  rw [SchemaAt, show stripSchema root = stripAt .schema root from rfl, moved]
  constructor
  · intro found
    obtain ⟨⟨place, schema⟩, here, same⟩ := Option.map_eq_some_iff.mp found
    cases same
    exact ⟨schema, here, rfl⟩
  · rintro ⟨schema, here, rfl⟩
    rw [SchemaAt] at here
    rw [here]
    rfl

theorem resolve_strip (root : JsonValue) (ref : Bytes) :
    resolve (stripSchema root) ref = (resolve root ref).map stripSchema := by
  unfold resolve
  cases pointerOf ref with
  | none => rfl
  | some path =>
    have moved := locate_strip path .schema root
    simp only [Option.bind_eq_bind, Option.bind_some]
    rw [show stripSchema root = stripAt .schema root from rfl, moved]
    cases locate .schema root path with
    | none => rfl
    | some found =>
      obtain ⟨place, schema⟩ := found
      cases place <;> rfl

/-- The copy has the places of the schema, and a reference leads to the copy of what it led to. -/
theorem strip_keeps_places (root : JsonValue) : (∀ path sent, SchemaAt (stripSchema root) path sent ↔
      ∃ schema, SchemaAt root path schema ∧ sent = stripSchema schema) ∧
    ∀ ref, resolve (stripSchema root) ref = (resolve root ref).map stripSchema :=
  ⟨fun _ _ => schemaAt_strip, resolve_strip root⟩

/-! ## The copy of a copy -/

def Settled (e : Bytes × JsonValue) : Prop :=
  dropsKeyword e.1 e.2 = false ∧ stripInner e.1 e.2 = e.2

theorem anthropicSchema_fixed (settled : ∀ e ∈ m, Settled e) (alone : typeListAndEnum m = none) :
    anthropicSchema m = m := by
  have same : stripMembers m = m := by
    rw [stripMembers_eq, List.filter_eq_self.mpr fun e inside => by simp [(settled e inside).1]]
    refine (List.map_congr_left fun e inside => ?_).trans (List.map_id m)
    exact Prod.ext rfl (settled e inside).2
  have quiet : anthropicBoundPhrases.filterMap (limitOf m m) = [] := by
    rw [List.filterMap_eq_nil_iff]
    intro bound _
    unfold limitOf
    cases memberAt m bound.keyword <;> simp
  rw [anthropicSchema, same, describeDroppedBounds, if_pos quiet, enumWithoutTypeList, alone]

theorem settled_setMember {value : JsonValue} (settled : ∀ e ∈ m, Settled e)
    (fresh : Settled (key, value)) : ∀ e ∈ setMember m key value, Settled e := by
  unfold setMember
  split_ifs
  · rw [List.forall_mem_map]
    rintro ⟨k, v⟩ inside
    by_cases here : k = key
    · simpa [here] using fresh
    · simpa [here] using settled _ inside
  · simpa [or_imp, forall_and] using ⟨fun k v => settled (k, v), fresh⟩

theorem settled_sent (settled : ∀ e ∈ stripMembers m, Settled e) : ∀ e ∈ anthropicSchema m, Settled e := by
  have described : ∀ e ∈ describeDroppedBounds m (stripMembers m), Settled e := by
    simp only [describeDroppedBounds]
    split_ifs
    · exact settled
    · exact settled_setMember settled ⟨rfl, rfl⟩
  unfold anthropicSchema enumWithoutTypeList
  split
  · exact described
  · intro e inside
    exact settled_setMember described ⟨rfl, rfl⟩ e (List.mem_of_mem_filter inside)

theorem sent_alone (m : Members) : typeListAndEnum (anthropicSchema m) = none := by
  rw [anthropicSchema]
  cases found : typeListAndEnum (describeDroppedBounds m (stripMembers m)) with
  | none => rwa [enumWithoutTypeList, found]
  | some lists =>
    rw [typeListAndEnum, memberAt_enumWithoutTypeList, found]
    rfl

/-- A second walk changes nothing, at a schema or under names. -/
def Twice (v : JsonValue) : Prop :=
  stripSchema (stripSchema v) = stripSchema v ∧ stripNamed (stripNamed v) = stripNamed v

theorem settled_stripMembers (twice : ∀ e ∈ m, Twice e.2) : ∀ e ∈ stripMembers m, Settled e := by
  rw [stripMembers_eq, List.forall_mem_map]
  rintro ⟨key, inner⟩ inside
  obtain ⟨inside, kept⟩ := List.mem_filter.mp inside
  have number : schemaNumberZeroOrOne (stripInner key inner) = schemaNumberZeroOrOne inner := by
    unfold stripInner
    split_ifs <;> cases inner <;> rfl
  refine ⟨by simpa [dropsKeyword, number, imp_iff_not_or] using kept, ?_⟩
  obtain ⟨schema, named⟩ := twice _ inside
  simp only [stripInner]
  split_ifs
  · rfl
  · exact named
  · exact schema

theorem strip_twice (v : JsonValue) : Twice v := by
  cases v with
  | arr items =>
    have each : (items.map stripSchema).map stripSchema = items.map stripSchema := by
      rw [List.map_map]
      exact List.map_congr_left fun v inside => (strip_twice v).1
    simp only [Twice, stripSchema, stripNamed, stripItems_eq, each, and_self]
  | obj m =>
    have each : ∀ e ∈ m, Twice e.2 := fun e inside => strip_twice e.2
    have names : stripNames (stripNames m) = stripNames m := by
      rw [stripNames_eq, stripNames_eq, List.map_map]
      exact List.map_congr_left fun e inside => Prod.ext rfl (each e inside).1
    have fixed := anthropicSchema_fixed (settled_sent (settled_stripMembers each)) (sent_alone m)
    simp only [Twice, stripSchema_obj, fixed, stripNamed, names, and_self]
  | _ => exact ⟨rfl, rfl⟩
termination_by sizeOf v
decreasing_by
  · have := List.sizeOf_lt_of_mem inside
    simp
    omega
  · have := List.sizeOf_lt_of_mem inside
    cases e
    simp at this ⊢
    omega

/-- Copying the copy changes nothing; nowhere does it hold a dropped keyword or an enum beside a
list of types. -/
theorem stripSchema_settles (root : JsonValue) : stripSchema (stripSchema root) = stripSchema root ∧
      ∀ path m, SchemaAt (stripSchema root) path (.obj m) →
        (∀ e ∈ m, dropsKeyword e.1 e.2 = false) ∧ typeListAndEnum m = none := by
  refine ⟨(strip_twice root).1, ?_⟩
  intro path m here
  obtain ⟨schema, -, same⟩ := schemaAt_strip.mp here
  cases schema with
  | obj original =>
    rw [stripSchema_obj] at same
    cases same
    have settled := settled_sent (m := original) (settled_stripMembers fun e _ => strip_twice e.2)
    exact ⟨fun e inside => (settled e inside).1, sent_alone original⟩
  | _ => cases same

end DevHealth.Llm

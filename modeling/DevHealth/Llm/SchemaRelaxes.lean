import DevHealth.Llm.SchemaEnum

/-! # The copy only relaxes

Whatever a schema accepts, its copy accepts too: every keyword of the copy asks for
something that a keyword of the original asked for.  The references of both documents lead
to the same places, so the induction is on the levels that are looked through. -/
set_option autoImplicit false
namespace DevHealth.Llm

open Go Lib

variable {D : Dialect} {root v : JsonValue} {path : List Bytes} {m : Members}

/-! ## What is not kept -/

theorem sent_unsupported {key : Bytes} (unsupported : key ∈ anthropicUnsupportedKeywords) :
    memberAt (anthropicSchema m) key = none := by
  have apart (other : Keyword) (kept : other ∉ dropped) : key ≠ other.name := by
    rintro rfl
    exact kept (unsupported_iff.mp unsupported)
  have notDescription : key ≠ ascii "description" := apart .description (by decide)
  have notEnum : key ≠ ascii "enum" := apart .enum (by decide)
  have notType : key ≠ ascii "type" := apart .type (by decide)
  have gone : memberAt (describeDroppedBounds m (stripMembers m)) key = none := by
    rw [memberAt_describe _ _ notDescription, stripMembers_eq, memberAt_map, memberAt_filter_none]
    · rfl
    · intro inner
      have drops : dropsKeyword key inner = true := by
        rw [dropsKeyword, (contains_iff _ _).mpr unsupported, Bool.true_or]
      simp [drops]
  rw [anthropicSchema, memberAt_enumWithoutTypeList]
  split
  · exact gone
  · rw [if_neg notType, if_neg notEnum]
    exact gone

variable {w : JsonValue}

theorem sent_minItems (distinct : (m.map Prod.fst).Nodup)
    (found : memberAt (anthropicSchema m) (ascii "minItems") = some w) :
    ∃ inner, memberAt m (ascii "minItems") = some inner ∧ w = stripSchema inner := by
  have apart (other : Keyword) (differs : Keyword.minItems ≠ other) : ascii "minItems" ≠ other.name :=
    Keyword.name_ne (a := .minItems) differs
  have notType : ascii "minItems" ≠ ascii "type" := apart .type (by decide)
  have notEnum : ascii "minItems" ≠ ascii "enum" := apart .enum (by decide)
  have notDescription : ascii "minItems" ≠ ascii "description" := apart .description (by decide)
  have stripped : memberAt (stripMembers m) (ascii "minItems") = some w := by
    rw [anthropicSchema, memberAt_enumWithoutTypeList] at found
    split at found
    · rwa [memberAt_describe _ _ notDescription] at found
    · rwa [if_neg notType, if_neg notEnum, memberAt_describe _ _ notDescription] at found
  have member := mem_of_memberAt stripped
  rw [stripMembers_eq] at member
  obtain ⟨⟨key, inner⟩, kept, same⟩ := List.mem_map.mp member
  cases same
  exact ⟨inner, memberAt_of_mem distinct (List.mem_filter.mp kept).1, rfl⟩

theorem key_of_stripMembers {key : Bytes} (present : (memberAt (stripMembers m) key).isSome = true) :
    (memberAt m key).isSome = true := by
  rw [memberAt_isSome, stripMembers_eq, List.map_map] at present
  obtain ⟨⟨k, w⟩, kept, rfl⟩ := List.mem_map.mp present
  exact memberAt_isSome.mpr (List.mem_map.mpr ⟨(k, w), (List.mem_filter.mp kept).1, rfl⟩)

theorem sent_key {key : Bytes} (present : (memberAt (anthropicSchema m) key).isSome = true) :
    key = ascii "description" ∨ (memberAt m key).isSome = true := by
  by_cases described : key = ascii "description"
  · exact Or.inl described
  · right
    rw [anthropicSchema, memberAt_enumWithoutTypeList, typeListAndEnum_stripped,
      memberAt_describe _ _ described] at present
    cases lists : typeListAndEnum m with
    | none =>
      rw [lists] at present
      exact key_of_stripMembers present
    | some pair =>
      rw [lists] at present
      simp only [Option.map_some] at present
      split_ifs at present with isType isEnum
      · cases present
      · rw [isEnum, (typeListAndEnum_some lists).2]
        rfl
      · exact key_of_stripMembers present

theorem inVocabulary_iff : inVocabulary m = true ↔
    ∀ key, (memberAt m key).isSome = true → (Keyword.ofName key).isSome = true := by
  rw [inVocabulary, List.all_eq_true]
  constructor
  · intro known key present
    obtain ⟨w, found⟩ := Option.isSome_iff_exists.mp present
    exact known (key, w) (mem_of_memberAt found)
  · rintro known ⟨key, w⟩ inside
    exact known key (memberAt_isSome.mpr (List.mem_map.mpr ⟨(key, w), inside, rfl⟩))

theorem sent_inVocabulary (known : inVocabulary m = true) : inVocabulary (anthropicSchema m) = true := by
  rw [inVocabulary_iff] at known ⊢
  intro key present
  rcases sent_key present with rfl | original
  · exact Option.isSome_of_eq_some (Keyword.ofName_name .description)
  · exact known key original

/-! ## One keyword -/

theorem membersOf_all {v : JsonValue} {p q : Bytes × JsonValue → Bool}
    (imp : ∀ entry, p entry = true → q entry = true)
    (all : (membersOf v).all p = true) : (membersOf v).all q = true :=
  List.all_eq_true.mpr fun entry inside => imp entry (List.all_eq_true.mp all entry inside)

/-- The copies of the schemas of a document accept at least what these accept. -/
def Relaxes (root : JsonValue) (check check' : JsonValue → JsonValue → Bool) : Prop :=
  ∀ path s x, SchemaAt root path s → check s x = true → check' (stripSchema s) x = true

variable {check check' : JsonValue → JsonValue → Bool}

theorem properties_relax (start : SchemaAt root path (.obj m))
    (relaxes : Relaxes root check check') (found : memberAt m Keyword.properties.name = some w)
    (allows : propertiesAllow check w v = true) :
    propertiesAllow check' (stripNamed w) v = true := by
  cases w with
  | obj names =>
    rw [stripNamed, stripNames_eq]
    refine membersOf_all ?_ allows
    rintro ⟨name, x⟩ valid
    simp only [memberAt_map fun _ property => stripSchema property] at valid ⊢
    cases under : memberAt names name with
    | none => rfl
    | some s =>
      rw [under] at valid
      exact relaxes _ s x (start.named found rfl under) valid
  | _ => cases allows

theorem declares_sent (name : Bytes) : declares (anthropicSchema m) name = declares m name := by
  rw [declares, declares, sent_properties]
  cases memberAt m (ascii "properties") with
  | none => rfl
  | some w =>
    cases w with
    | obj names =>
      simp [stripNamed, stripNames_eq, memberAt_map fun _ property => stripSchema property]
    | _ => rfl

theorem items_relax (start : SchemaAt root path (.obj m)) (relaxes : Relaxes root check check')
    (found : memberAt m Keyword.items.name = some w) (allows : itemsAllow check w v = true) :
    itemsAllow check' (stripSchema w) v = true := by
  have single (place : placeOf .items w = some .schema) (allows : (itemsOf v).all (check w) = true) :
      (itemsOf v).all (check' (stripSchema w)) = true :=
    List.all_eq_true.mpr fun x inside =>
      relaxes _ w x (start.single found place) (List.all_eq_true.mp allows x inside)
  cases w with
  | arr schemas =>
    have each := List.all_eq_true.mp allows
    rw [stripSchema, stripItems_eq, itemsAllow, List.zip_map_left, List.all_map]
    refine List.all_eq_true.mpr ?_
    rintro ⟨s, x⟩ inside
    obtain ⟨i, under⟩ := List.mem_iff_getElem?.mp (List.of_mem_zip inside).1
    exact relaxes _ s x (start.listed found rfl under) (each (s, x) inside)
  | obj n =>
    have walked := single rfl allows
    rw [stripSchema] at walked ⊢
    exact walked
  | _ => exact single rfl allows

theorem listed_relax {kw : Keyword} (start : SchemaAt root path (.obj m))
    (relaxes : Relaxes root check check') {schemas : List JsonValue}
    (found : memberAt m kw.name = some (.arr schemas))
    (holds : placeOf kw (.arr schemas) = some .listed) {s : JsonValue} (inside : s ∈ schemas)
    (valid : check s v = true) : check' (stripSchema s) v = true := by
  obtain ⟨i, under⟩ := List.mem_iff_getElem?.mp inside
  exact relaxes _ s v (start.listed found holds under) valid

theorem anyOf_relax (start : SchemaAt root path (.obj m)) (relaxes : Relaxes root check check')
    (found : memberAt m Keyword.anyOf.name = some w) (allows : someAllows check w v = true) :
    someAllows check' (stripSchema w) v = true := by
  cases w with
  | arr schemas =>
    obtain ⟨s, inside, valid⟩ := List.any_eq_true.mp allows
    rw [stripSchema, stripItems_eq, someAllows, List.any_map]
    exact List.any_eq_true.mpr ⟨s, inside, listed_relax start relaxes found rfl inside valid⟩
  | _ => cases allows

theorem allOf_relax (start : SchemaAt root path (.obj m)) (relaxes : Relaxes root check check')
    (found : memberAt m Keyword.allOf.name = some w) (allows : eachAllows check w v = true) :
    eachAllows check' (stripSchema w) v = true := by
  cases w with
  | arr schemas =>
    have each := List.all_eq_true.mp allows
    rw [stripSchema, stripItems_eq, eachAllows, List.all_map]
    exact List.all_eq_true.mpr fun s inside =>
      listed_relax start relaxes found rfl inside (each s inside)
  | _ => cases allows

theorem ref_relax (relaxes : Relaxes root check check') (allows : refAllows root check w v = true) :
    refAllows (stripSchema root) check' (stripSchema w) v = true := by
  cases w with
  | str ref =>
    show ((resolve (stripSchema root) ref).any fun s => check' s v) = true
    rw [resolve_strip]
    cases target : resolve root ref with
    | none => simp [refAllows, target] at allows
    | some s =>
      simp only [refAllows, target, Option.any_some, Option.map_some] at allows ⊢
      unfold resolve at target
      obtain ⟨path, -, located⟩ := Option.bind_eq_some_iff.mp target
      split at located
      · rename_i here
        cases located
        exact relaxes path s v here allows
      · cases located
  | _ => cases allows

theorem required_relax (allows : requiredAllows w v = true) : requiredAllows (stripSchema w) v = true := by
  cases w with
  | arr names =>
    rw [stripSchema, stripItems_eq]
    cases v with
    | obj n =>
      have each := List.all_eq_true.mp allows
      rw [requiredAllows, List.all_map]
      refine List.all_eq_true.mpr fun name inside => ?_
      have present := each name inside
      cases name with
      | str text => exact present
      | _ => cases present
    | _ => rfl
  | _ => cases allows

theorem text_relax {allow : JsonValue → JsonValue → Bool}
    (texts : ∀ w, allow w v = true → ∃ text, w = .str text) (allows : allow w v = true) :
    allow (stripSchema w) v = true := by
  obtain ⟨text, rfl⟩ := texts w allows
  exact allows

theorem bounded_relax {bound : ℚ → ℚ → Bool} {quantity : JsonValue → Option ℚ}
    (allows : bounded bound quantity w v = true) :
    bounded bound quantity (stripSchema w) v = true := by
  cases w with
  | num text valid => exact allows
  | _ => cases allows

/-! ## One node and the whole document -/

theorem sent_plain (kw : Keyword) (kept : kw ∉ dropped) (plain : kw ∉ special)
    (found : memberAt (anthropicSchema m) kw.name = some w) :
    ∃ inner, memberAt m kw.name = some inner ∧ w = stripInner kw.name inner := by
  rw [memberAt_anthropicSchema kw kept plain] at found
  obtain ⟨inner, original, rfl⟩ := Option.map_eq_some_iff.mp found
  exact ⟨inner, original, rfl⟩

structure Tame (m : Members) : Prop where
  vocabulary : inVocabulary m = true
  distinct : (m.map Prod.fst).Nodup
  typeAndEnum : ∀ v, byTypeAndEnum m v = true → byTypeAndEnum (anthropicSchema m) v = true

theorem byTypeAndEnum_iff : byTypeAndEnum m v = true ↔
    (∀ w, memberAt m (ascii "type") = some w → typeAllows w v = true) ∧
      ∀ w, memberAt m (ascii "enum") = some w → enumAllows w v = true := by
  rw [byTypeAndEnum, Bool.and_eq_true]
  refine and_congr ?_ ?_
  · cases memberAt m (ascii "type") <;> simp
  · cases memberAt m (ascii "enum") <;> simp

/-- Every keyword that is sent asks for something the original asked for. -/
theorem asserts_relax (start : SchemaAt root path (.obj m)) (tame : Tame m)
    (relaxes : Relaxes root check check')
    (valid : ∀ kw w, memberAt m kw.name = some w → asserts D root check m kw w v = true)
    (kw : Keyword) (found : memberAt (anthropicSchema m) kw.name = some w) :
    asserts D (stripSchema root) check' (anthropicSchema m) kw w v = true := by
  have pair : byTypeAndEnum (anthropicSchema m) v = true := by
    apply tame.typeAndEnum
    exact byTypeAndEnum_iff.mpr ⟨fun w => valid .type w, fun w => valid .enum w⟩
  cases kw with
  | type => exact (byTypeAndEnum_iff.mp pair).1 w found
  | enum => exact (byTypeAndEnum_iff.mp pair).2 w found
  | minItems =>
    obtain ⟨inner, original, rfl⟩ := sent_minItems tame.distinct found
    have allows := valid .minItems inner original
    simp only [asserts] at allows ⊢
    exact bounded_relax allows
  | const =>
    obtain ⟨inner, original, same⟩ := sent_plain .const (by decide) (by decide) found
    rw [same]
    exact valid .const inner original
  | properties =>
    obtain ⟨inner, original, rfl⟩ := sent_plain .properties (by decide) (by decide) found
    exact properties_relax start relaxes original (valid .properties inner original)
  | required =>
    obtain ⟨inner, original, rfl⟩ := sent_plain .required (by decide) (by decide) found
    exact required_relax (valid .required inner original)
  | additionalProperties =>
    obtain ⟨inner, original, rfl⟩ := sent_plain .additionalProperties (by decide) (by decide) found
    refine membersOf_all ?_ (valid .additionalProperties inner original)
    rintro ⟨name, x⟩ allowed
    simp only [declares_sent, Bool.or_eq_true] at allowed ⊢
    refine allowed.imp_right fun accepted => ?_
    exact relaxes _ inner x (start.single original rfl) accepted
  | items =>
    obtain ⟨inner, original, rfl⟩ := sent_plain .items (by decide) (by decide) found
    exact items_relax start relaxes original (valid .items inner original)
  | anyOf =>
    obtain ⟨inner, original, rfl⟩ := sent_plain .anyOf (by decide) (by decide) found
    exact anyOf_relax start relaxes original (valid .anyOf inner original)
  | allOf =>
    obtain ⟨inner, original, rfl⟩ := sent_plain .allOf (by decide) (by decide) found
    exact allOf_relax start relaxes original (valid .allOf inner original)
  | ref =>
    obtain ⟨inner, original, rfl⟩ := sent_plain .ref (by decide) (by decide) found
    exact ref_relax relaxes (valid .ref inner original)
  | format =>
    obtain ⟨inner, original, rfl⟩ := sent_plain .format (by decide) (by decide) found
    refine text_relax ?_ (valid .format inner original)
    intro w allows
    cases w with
    | str text => exact ⟨text, rfl⟩
    | _ => cases allows
  | pattern =>
    obtain ⟨inner, original, rfl⟩ := sent_plain .pattern (by decide) (by decide) found
    refine text_relax ?_ (valid .pattern inner original)
    intro w allows
    cases w with
    | str text => exact ⟨text, rfl⟩
    | _ => cases allows
  | defs | definitions | description | title | default | examples | schema | id | comment
  | minContains | maxContains => rfl
  | _ =>
    rw [sent_unsupported (unsupported_iff.mpr (by decide))] at found
    cases found

theorem validWithin_obj {levels : Nat} (known : inVocabulary m = true) :
    validWithin D root (levels + 1) (.obj m) v = true ↔ ∀ kw w, memberAt m kw.name = some w →
        asserts D root (validWithin D root levels) m kw w v = true := by
  rw [validWithin, if_pos known, List.all_eq_true]
  constructor
  · intro all kw w found
    have here := all kw (Keyword.mem_all kw)
    rw [found] at here
    exact here
  · intro each kw _
    cases found : memberAt m kw.name with
    | none => rfl
    | some w => exact each kw w found

theorem validWithin_typeAndEnum {levels : Nat} (known : inVocabulary m = true)
    (only : ∀ kw : Keyword, (memberAt m kw.name).isSome = true → kw = .type ∨ kw = .enum) :
    validWithin D root (levels + 1) (.obj m) v = true ↔ byTypeAndEnum m v = true := by
  rw [validWithin_obj known, byTypeAndEnum_iff]
  constructor
  · intro each
    exact ⟨fun w => each .type w, fun w => each .enum w⟩
  · rintro ⟨type, enum⟩ kw w found
    rcases only kw (by rw [found]; rfl) with rfl | rfl
    · exact type w found
    · exact enum w found

/-- With every node tame, the copy accepts what the document accepts, level by level. -/
theorem validWithin_relax (tame : ∀ path m, SchemaAt root path (.obj m) → Tame m) (levels : Nat) :
    Relaxes root (validWithin D root levels) (validWithin D (stripSchema root) levels) := by
  induction levels with
  | zero =>
    intro path s x _ valid
    cases valid
  | succ levels ih =>
    intro path s x start valid
    cases s with
    | bool b => exact valid
    | obj m =>
      have node := tame path m start
      rw [stripSchema_obj, validWithin_obj (sent_inVocabulary node.vocabulary)]
      intro kw w found
      exact asserts_relax start node ih ((validWithin_obj node.vocabulary).mp valid) kw found
    | _ => cases valid

theorem valid_relax (tame : ∀ path m, SchemaAt root path (.obj m) → Tame m) {v : JsonValue}
    (valid : Valid D root v) : Valid D (stripSchema root) v := by
  obtain ⟨levels, accepted⟩ := valid
  exact ⟨levels, validWithin_relax tame levels [] root v rfl accepted⟩

end DevHealth.Llm

import DevHealth.Llm.SchemaFit

/-! # What the walk has seen

A walk that ends without a reason has checked every node it came to, and its counters are
the numbers of the properties it passed.  It comes to every schema of the document but
those below an `items` that is a list: `schemaAt_child` says how a path starts. -/
set_option autoImplicit false
namespace DevHealth.Llm

open Go Lib

/-! ## One node -/

structure NodeFits (schema : Members) : Prop where
  keywords : ∀ key, (memberAt schema key).isSome = true → key ∈ anthropicStructuredKeywords
  localRef : ∀ ref, memberAt schema (ascii "$ref") = some (.str ref) →
    (ascii "#").isPrefixOf ref = true
  format : ∀ format, memberAt schema (ascii "format") = some (.str format) →
    format ∈ anthropicStringFormats
  enum : ∀ values, memberAt schema (ascii "enum") = some (.arr values) →
    ∀ value ∈ values, value.isScalar = true
  additional : isObject schema = true → closesObject schema = true

variable {path : Bytes} {left : Nat}

theorem checkKeywords_ok {keys : List Bytes} {u : Unit} (passed : checkKeywords path keys = .ok u) :
    ∀ key ∈ keys, key ∈ anthropicStructuredKeywords := by
  induction keys with
  | nil =>
    intro key inside
    cases inside
  | cons key keys ih =>
    simp only [checkKeywords, bind_ok, ensure_ok] at passed
    obtain ⟨_, known, rest⟩ := passed
    intro other inside
    rcases List.mem_cons.mp inside with rfl | inside
    · exact (contains_iff _ _).mp known
    · exact ih rest other inside

theorem checkNode_ok {schema : Members} {u : Unit} (passed : checkNode schema path = .ok u) :
    NodeFits schema := by
  simp only [checkNode, bind_ok] at passed
  obtain ⟨_, keywords, _, ref, _, format, _, -, _, enum, additional⟩ := passed
  refine ⟨?_, ?_, ?_, ?_, ?_⟩
  · intro key present
    apply checkKeywords_ok keywords
    rw [sortedKeys, mem_sortStrings]
    exact memberAt_isSome.mp present
  · intro text found
    rw [checkRef, found] at ref
    exact ensure_ok.mp ref
  · intro text found
    rw [checkFormat, found] at format
    exact (contains_iff _ _).mp (ensure_ok.mp format)
  · intro values found
    rw [checkEnum, found] at enum
    exact List.all_eq_true.mp (ensure_ok.mp enum)
  · intro object
    rw [checkAdditional, ensure_ok, object] at additional
    exact additional

/-! ## The nodes that are visited -/

def children (schema : Members) : List Child :=
  namedChildren schema (ascii "properties") ++ otherChildren schema

def Visited (left : Nat) (node : JsonValue) : Prop :=
  ∃ path counts out, fitNode left node path counts = .ok out

theorem fitChildren_visits {list : List Child} :
    ∀ {counts out : FitCounts}, fitChildren (fitNode left) path list counts = .ok out →
      ∀ c ∈ list, Visited left c.node := by
  induction list with
  | nil =>
    intro counts out _ c inside
    cases inside
  | cons child list ih =>
    intro counts out passed c inside
    simp only [fitChildren, bind_ok] at passed
    obtain ⟨mid, here, rest⟩ := passed
    rcases List.mem_cons.mp inside with rfl | inside
    · exact ⟨_, _, _, here⟩
    · exact ih rest c inside

variable {names : List Bytes} {key : Bytes}

theorem fitProperties_cons {visit : Visit} {schema properties : Members} {path name : Bytes}
    {counts out : FitCounts}
    (passed : fitProperties visit schema properties path (name :: names) counts = .ok out) :
    ∃ child mid, memberAt properties name = some (.obj child) ∧ visit (.obj child) (path ++ ascii "." ++ name)
        (counts.count (!isRequired schema name) (isUnion child)) = .ok mid ∧
      fitProperties visit schema properties path names mid = .ok out := by
  simp only [fitProperties] at passed
  split at passed
  · rename_i child found
    simp only [bind_ok] at passed
    obtain ⟨_, -, mid, here, rest⟩ := passed
    exact ⟨child, mid, found, here, rest⟩
  · cases passed

theorem fitProperties_visits {schema properties : Members} : ∀ {counts out : FitCounts},
      fitProperties (fitNode left) schema properties path names counts = .ok out →
      ∀ name ∈ names, ∃ child, memberAt properties name = some (.obj child) ∧ Visited left (.obj child) := by
  induction names with
  | nil =>
    intro counts out _ name inside
    cases inside
  | cons first names ih =>
    intro counts out passed name inside
    obtain ⟨child, mid, found, here, rest⟩ := fitProperties_cons passed
    rcases List.mem_cons.mp inside with rfl | inside
    · exact ⟨child, found, _, _, _, here⟩
    · exact ih rest name inside

theorem mem_sortedKeys {m : Members} {name : Bytes} {value : JsonValue}
    (under : memberAt m name = some value) : name ∈ sortedKeys m := by
  rw [sortedKeys, mem_sortStrings, ← memberAt_isSome, under]
  rfl

theorem mem_namedChildren {schema : Members} {c : Child} : c ∈ namedChildren schema key ↔ ∃ names name value,
      memberAt schema key = some (.obj names) ∧ memberAt names name = some value ∧
        c = ⟨ascii "." ++ key ++ ascii "." ++ name, [key, name], value⟩ := by
  unfold namedChildren
  split
  · rename_i names found
    simp only [found, List.mem_filterMap, Option.map_eq_some_iff, Option.some.injEq, JsonValue.obj.injEq]
    constructor
    · rintro ⟨name, -, value, under, rfl⟩
      exact ⟨names, name, value, rfl, under, rfl⟩
    · rintro ⟨_, name, value, rfl, under, rfl⟩
      exact ⟨name, mem_sortedKeys under, value, under, rfl⟩
  · rename_i other
    constructor
    · intro inside
      cases inside
    · rintro ⟨names, _, _, found, -⟩
      exact absurd found (other names)

def propertiesOf (schema : Members) : Members :=
  match memberAt schema (ascii "properties") with
  | some (.obj properties) => properties
  | _ => []

theorem propertiesOf_map {schema properties : Members}
    (found : memberAt schema (ascii "properties") = some (.obj properties)) :
    propertiesOf schema = properties := by
  rw [propertiesOf, found]

theorem propertiesOf_other {schema : Members}
    (other : ∀ properties, memberAt schema (ascii "properties") = some (.obj properties) → False) :
    propertiesOf schema = [] := by
  unfold propertiesOf
  split
  · rename_i properties found
    exact (other properties found).elim
  · rfl

/-- The three parts of a visit: the checks, the properties, the other nodes. -/
theorem fitNode_parts {schema : Members} {counts out : FitCounts}
    (passed : fitNode (left + 1) (.obj schema) path counts = .ok out) :
    checkNode schema path = .ok () ∧ ∃ mid, fitProperties (fitNode left) schema (propertiesOf schema) path
          (sortedKeys (propertiesOf schema)) counts = .ok mid ∧
        fitChildren (fitNode left) path (otherChildren schema) mid = .ok out := by
  simp only [fitNode, bind_ok] at passed
  obtain ⟨_, node, rest⟩ := passed
  refine ⟨node, ?_⟩
  split at rest
  · rename_i properties found
    rw [propertiesOf_map found]
    exact bind_ok.mp rest
  · rename_i other
    rw [propertiesOf_other other]
    exact ⟨counts, rfl, rest⟩

theorem fitNode_ok {schema : Members} (visited : Visited (left + 1) (.obj schema)) :
    NodeFits schema ∧ ∀ c ∈ children schema, Visited left c.node := by
  obtain ⟨path, counts, out, passed⟩ := visited
  obtain ⟨node, mid, properties, others⟩ := fitNode_parts passed
  refine ⟨checkNode_ok node, ?_⟩
  intro c inside
  rcases List.mem_append.mp inside with property | other
  · obtain ⟨names, name, value, found, under, rfl⟩ := mem_namedChildren.mp property
    rw [propertiesOf_map found] at properties
    obtain ⟨child, same, below⟩ := fitProperties_visits properties name (mem_sortedKeys under)
    rw [under] at same
    cases same
    exact below
  · exact fitChildren_visits others c other

/-! ## Paths -/

theorem mem_singleChild {schema child : Members} (found : memberAt schema key = some (.obj child)) :
    ⟨ascii "." ++ key, [key], .obj child⟩ ∈ singleChild schema key := by
  rw [singleChild, found]
  exact List.mem_singleton_self _

theorem mem_listedChildren {schema : Members} {list : List JsonValue} {i : Nat}
    {child : JsonValue} (found : memberAt schema key = some (.arr list))
    (under : list[i]? = some child) :
    ⟨ascii "." ++ key ++ ascii "[" ++ decimal i ++ ascii "]", [key, decimal i], child⟩ ∈
      listedChildren schema key := by
  rw [listedChildren, found]
  exact List.mem_map.mpr ⟨(child, i), List.mk_mem_zipIdx_iff_getElem?.mpr under, rfl⟩

section Keywords

variable {schema : Members} {kw : Keyword} {value : JsonValue} {c : Child}

theorem single_visited (holds : placeOf kw value = some .schema)
    (inside : c ∈ singleChild schema kw.name) : c ∈ children schema := by
  apply List.mem_append_right
  cases kw with
  | items => exact List.mem_append_left _ inside
  | additionalProperties => exact List.mem_append_right _ (List.mem_append_left _ inside)
  | _ => cases holds

theorem named_visited (holds : placeOf kw value = some .named)
    (inside : c ∈ namedChildren schema kw.name) : c ∈ children schema := by
  cases kw with
  | properties => exact List.mem_append_left _ inside
  | defs | definitions =>
    simp only [children, otherChildren, List.mem_append]
    tauto
  | items => cases value <;> cases holds
  | _ => cases holds

theorem listed_visited (holds : placeOf kw value = some .listed) (other : kw ≠ .items)
    (inside : c ∈ listedChildren schema kw.name) : c ∈ children schema := by
  cases kw with
  | anyOf | allOf =>
    simp only [children, otherChildren, List.mem_append]
    tauto
  | items => exact absurd rfl other
  | _ => cases holds

end Keywords

/-- At an element of an `items` that is a list, or below one. -/
def BelowTuple (root : JsonValue) (path : List Bytes) : Prop :=
  ∃ before token after m list, path = before ++ ascii "items" :: token :: after ∧
    SchemaAt root before (.obj m) ∧ memberAt m (ascii "items") = some (.arr list)

theorem schemaAt_child {schema s : Members} {token : Bytes} {rest : List Bytes}
    (found : SchemaAt (.obj schema) (token :: rest) (.obj s)) :
    (∃ c ∈ children schema, ∃ after, token :: rest = c.tokens ++ after ∧
        SchemaAt (.obj schema) c.tokens c.node ∧ SchemaAt c.node after (.obj s)) ∨
      BelowTuple (.obj schema) (token :: rest) := by
  have here : SchemaAt (.obj schema) [] (.obj schema) := rfl
  obtain ⟨⟨place, value⟩, step, below⟩ := Option.bind_eq_some_iff.mp found
  obtain ⟨kw, read, holding⟩ := Option.bind_eq_some_iff.mp step
  obtain ⟨_, member, placed⟩ := Option.bind_eq_some_iff.mp holding
  obtain ⟨_, holds, same⟩ := Option.map_eq_some_iff.mp placed
  cases same
  obtain rfl := Keyword.name_of_ofName read
  cases place with
  | schema =>
    obtain ⟨m, rfl⟩ := SchemaAt.object below
    exact Or.inl ⟨_, single_visited holds (mem_singleChild member), rest, rfl,
      here.single member holds, below⟩
  | named =>
    cases rest with
    | nil => cases below
    | cons name after =>
      obtain ⟨⟨place, child⟩, step, deeper⟩ := Option.bind_eq_some_iff.mp below
      cases value with
      | obj names =>
        obtain ⟨child, under, same⟩ := Option.map_eq_some_iff.mp step
        cases same
        have inside := mem_namedChildren.mpr ⟨names, name, child, member, under, rfl⟩
        exact Or.inl ⟨_, named_visited holds inside, after, rfl, here.named member holds under, deeper⟩
      | _ => cases step
  | listed =>
    cases rest with
    | nil => cases below
    | cons index after =>
      obtain ⟨⟨place, child⟩, step, deeper⟩ := Option.bind_eq_some_iff.mp below
      cases value with
      | arr list =>
        by_cases items : kw = .items
        · subst items
          exact Or.inr ⟨[], index, after, schema, list, rfl, here, member⟩
        · obtain ⟨i, read, step⟩ := Option.bind_eq_some_iff.mp step
          obtain ⟨child, under, same⟩ := Option.map_eq_some_iff.mp step
          cases same
          obtain rfl := decimal_of_indexOf read
          exact Or.inl ⟨_, listed_visited holds items (mem_listedChildren member under),
            after, rfl, here.listed member holds under, deeper⟩
      | _ => cases step

theorem BelowTuple.append {root node : JsonValue} {start path : List Bytes}
    (leads : SchemaAt root start node) (below : BelowTuple node path) :
    BelowTuple root (start ++ path) := by
  obtain ⟨before, token, after, m, list, rfl, found, items⟩ := below
  exact ⟨start ++ before, token, after, m, list, by rw [List.append_assoc], leads.append.mpr found, items⟩

/-- Every schema of a document that the walk has passed is checked, but for those of a
tuple. -/
theorem visited_fits : ∀ {node : JsonValue} {path : List Bytes} {s : Members}, Visited left node →
      SchemaAt node path (.obj s) → NodeFits s ∨ BelowTuple node path := by
  induction left with
  | zero =>
    rintro node path s ⟨_, _, _, passed⟩ _
    cases passed
  | succ left ih =>
    intro node path s visited found
    obtain ⟨m, rfl⟩ := found.object
    obtain ⟨fits, below⟩ := fitNode_ok visited
    cases path with
    | nil =>
      cases found
      exact Or.inl fits
    | cons token rest =>
      rcases schemaAt_child found with ⟨c, inside, after, same, leads, found⟩ | tuple
      · rw [same]
        exact (ih (below c inside) found).imp_right (BelowTuple.append leads)
      · exact Or.inr tuple

/-! ## Counters -/

/-- A property of a schema, by the schema it is declared in, its name and its own schema. -/
abbrev PropertyTest := Members → Bytes → JsonValue → Bool

def optionalProperty : PropertyTest := fun schema name _ => !isRequired schema name

def unionProperty : PropertyTest := fun _ _ value =>
  match value with
  | .obj child => isUnion child
  | _ => false

section Counters

variable (test : PropertyTest)

def ownTest (schema properties : Members) (name : Bytes) : Bool :=
  (memberAt properties name).any (test schema name)

def ownPaths (schema : Members) : List (List Bytes) :=
  ((sortedKeys (propertiesOf schema)).filter (ownTest test schema (propertiesOf schema))).map
    fun name => [ascii "properties", name]

/-- The paths of the properties that the walk passes and the test picks, in its order but for
the properties of a node, which come before all that is below them. -/
def countedPaths : Nat → JsonValue → List (List Bytes)
  | 0, _ => []
  | left + 1, .obj schema =>
    ownPaths test schema ++ (children schema).flatMap fun c =>
      (countedPaths left c.node).map (c.tokens ++ ·)
  | _ + 1, _ => []

def weight (left : Nat) (list : List Child) : Nat :=
  (list.map fun c => (countedPaths test left c.node).length).sum

theorem countedPaths_length (left : Nat) (schema : Members) :
    (countedPaths test (left + 1) (.obj schema)).length =
      (ownPaths test schema).length + weight test left (children schema) := by
  simp [countedPaths, weight, List.length_flatMap]

theorem weight_cons (left : Nat) (c : Child) (list : List Child) :
    weight test left (c :: list) = (countedPaths test left c.node).length + weight test left list := by
  simp [weight]

theorem weight_append (left : Nat) (list more : List Child) :
    weight test left (list ++ more) = weight test left list + weight test left more := by
  simp [weight]

end Counters

def FitCounts.plus (counts : FitCounts) (optional unions : Nat) : FitCounts :=
  ⟨counts.optional + optional, counts.unions + unions⟩

theorem FitCounts.plus_plus (counts : FitCounts) (a b c d : Nat) :
    (counts.plus a b).plus c d = counts.plus (a + c) (b + d) := by
  simp [FitCounts.plus, Nat.add_assoc]

theorem FitCounts.count_eq (counts : FitCounts) (isOptional inUnion : Bool) :
    counts.count isOptional inUnion = counts.plus isOptional.toNat inUnion.toNat := by
  cases isOptional <;> cases inUnion <;> rfl

def Counts (left : Nat) : Prop :=
  ∀ {node : JsonValue} {path : Bytes} {counts out : FitCounts},
    fitNode left node path counts = .ok out →
      out = counts.plus (countedPaths optionalProperty left node).length
        (countedPaths unionProperty left node).length

theorem fitChildren_counts (each : Counts left) {list : List Child} :
    ∀ {counts out : FitCounts}, fitChildren (fitNode left) path list counts = .ok out →
      out = counts.plus (weight optionalProperty left list) (weight unionProperty left list) := by
  induction list with
  | nil =>
    intro counts out passed
    cases passed
    rfl
  | cons child list ih =>
    intro counts out passed
    simp only [fitChildren, bind_ok] at passed
    obtain ⟨mid, here, rest⟩ := passed
    rw [ih rest, each here, FitCounts.plus_plus, weight_cons, weight_cons]

def propertyChild (properties : Members) (name : Bytes) : Option Child :=
  (memberAt properties name).map fun child =>
    ⟨ascii "." ++ ascii "properties" ++ ascii "." ++ name, [ascii "properties", name], child⟩

theorem namedChildren_properties (schema : Members) : namedChildren schema (ascii "properties") =
      (sortedKeys (propertiesOf schema)).filterMap (propertyChild (propertiesOf schema)) := by
  unfold namedChildren
  split
  · rename_i properties found
    rw [propertiesOf_map found]
    rfl
  · rename_i other
    rw [propertiesOf_other other]
    rfl

theorem fitProperties_counts (each : Counts left) {schema properties : Members} :
    ∀ {counts out : FitCounts}, fitProperties (fitNode left) schema properties path names counts = .ok out →
      out = counts.plus ((names.filter (ownTest optionalProperty schema properties)).length +
          weight optionalProperty left (names.filterMap (propertyChild properties)))
        ((names.filter (ownTest unionProperty schema properties)).length +
          weight unionProperty left (names.filterMap (propertyChild properties))) := by
  induction names with
  | nil =>
    intro counts out passed
    cases passed
    rfl
  | cons name names ih =>
    intro counts out passed
    obtain ⟨child, mid, found, here, rest⟩ := fitProperties_cons passed
    have own (test : PropertyTest) : (List.filter (ownTest test schema properties)
        (name :: names)).length = (test schema name (.obj child)).toNat +
          (names.filter (ownTest test schema properties)).length := by
      rw [List.filter_cons, ownTest, found, Option.any_some]
      cases test schema name (.obj child) with
      | true => simp [Nat.add_comm]
      | false => simp
    have node : propertyChild properties name = some
        ⟨ascii "." ++ ascii "properties" ++ ascii "." ++ name, [ascii "properties", name], .obj child⟩ := by
      rw [propertyChild, found]
      rfl
    rw [ih rest, each here, FitCounts.count_eq, FitCounts.plus_plus, FitCounts.plus_plus, own, own,
      List.filterMap_cons_some node, weight_cons, weight_cons]
    show counts.plus _ _ = counts.plus _ _
    congr 1 <;> simp only [optionalProperty, unionProperty] <;> omega

theorem fitNode_counts (left : Nat) : Counts left := by
  induction left with
  | zero =>
    intro node path counts out passed
    cases passed
  | succ left ih =>
    intro node path counts out passed
    cases node with
    | obj schema =>
      obtain ⟨-, mid, properties, others⟩ := fitNode_parts passed
      rw [fitChildren_counts ih others, fitProperties_counts ih properties, FitCounts.plus_plus,
        countedPaths_length, countedPaths_length, children, weight_append, weight_append,
        namedChildren_properties, ownPaths, ownPaths, List.length_map, List.length_map]
      congr 1 <;> omega
    | _ =>
      cases passed
      rfl

/-- A property that the test picks is on a path that is counted, but for those of a tuple. -/
theorem visited_counted (test : PropertyTest) :
    ∀ {node : JsonValue} {path : List Bytes} {schema properties : Members} {name : Bytes}
      {value : JsonValue}, Visited left node → SchemaAt node path (.obj schema) →
      memberAt schema (ascii "properties") = some (.obj properties) →
      memberAt properties name = some value → test schema name value = true →
      path ++ [ascii "properties", name] ∈ countedPaths test left node ∨ BelowTuple node path := by
  induction left with
  | zero =>
    rintro node path schema properties name value ⟨_, _, _, passed⟩
    cases passed
  | succ left ih =>
    intro node path schema properties name value visited found declared under picked
    obtain ⟨m, rfl⟩ := found.object
    obtain ⟨-, below⟩ := fitNode_ok visited
    cases path with
    | nil =>
      cases found
      left
      have chosen : ownTest test schema properties name = true := by
        rw [ownTest, under]
        exact picked
      apply List.mem_append_left
      rw [ownPaths, propertiesOf_map declared]
      exact List.mem_map.mpr ⟨name, List.mem_filter.mpr ⟨mem_sortedKeys under, chosen⟩, rfl⟩
    | cons token rest =>
      rcases schemaAt_child found with ⟨c, inside, after, same, leads, deeper⟩ | tuple
      · rw [same]
        refine (ih (below c inside) deeper declared under picked).imp ?_ (BelowTuple.append leads)
        intro counted
        apply List.mem_append_right
        rw [List.append_assoc]
        exact List.mem_flatMap.mpr ⟨c, inside, List.mem_map.mpr ⟨_, counted, rfl⟩⟩
      · exact Or.inr tuple

end DevHealth.Llm

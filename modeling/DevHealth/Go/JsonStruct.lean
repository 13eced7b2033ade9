import DevHealth.Go.Fold
import DevHealth.Go.JsonDecode
import Mathlib.Data.List.Pairwise

/-! # `encoding/json` into structs

Decoding of raw values into strings, slices and structs.  A target takes the value that is
there and the input: `null` leaves a string or a struct as it is.  The decoder of Go
remembers a value of the wrong type and goes on; the call fails in the end either way, so
here it fails at once.

The input of a target is the raw bytes of a value, and for the proofs also the tree of these
bytes; `Reads` relates the two. -/
set_option autoImplicit false
namespace DevHealth.Go

open Lib

variable {ι α σ : Type}

/-- A place of some type: its value before, the input, and its value after. -/
abbrev Target (ι α : Type) := α → ι → Option α

/-- The elements are decoded over those that are there, further ones over a zero value. -/
def intoElements (zero : α) (element : Target ι α) : List α → List ι → Option (List α)
  | _, [] => some []
  | current, input :: rest => do
      let first ← element (current.headD zero) input
      let others ← intoElements zero element current.tail rest
      return first :: others

theorem intoElements_nil (zero : α) (element : Target ι α) (inputs : List ι) :
    intoElements zero element [] inputs = inputs.mapM (element zero) := by
  induction inputs with
  | nil => rfl
  | cons input rest ih =>
    rw [intoElements, List.mapM_cons, List.tail_nil, ih]
    rfl

structure StructField (ι σ : Type) where
  name : Bytes
  set : Target ι σ

def StructField.of (name : String) (get : σ → α) (put : σ → α → σ) (target : Target ι α) :
    StructField ι σ :=
  ⟨ascii name, fun s input => (target (get s) input).map (put s)⟩

theorem StructField.set_of {name : String} {get : σ → α} {put : σ → α → σ} {target : Target ι α}
    {s s' : σ} {input : ι} :
    (StructField.of name get put target).set s input = some s' ↔
      ∃ v, target (get s) input = some v ∧ put s v = s' :=
  Option.map_eq_some_iff

/-- A member goes to the field of its name, or else to the first field whose name differs
from it in case only. -/
def fieldOf (folding : CaseFolding) (fields : List (StructField ι σ)) (name : Bytes) :
    Option (StructField ι σ) :=
  (fields.find? fun f => f.name == name).or
    (fields.find? fun f => equalFold folding f.name name)

/-- One member; `strict` is `DisallowUnknownFields`. -/
def intoField (folding : CaseFolding) (strict : Bool) (fields : List (StructField ι σ))
    (current : σ) (member : Bytes × ι) : Option σ :=
  match fieldOf folding fields (unquote member.1) with
  | some f => f.set current member.2
  | none => if strict then none else some current

theorem intoField_strict {folding : CaseFolding} {fields : List (StructField ι σ)} {s s' : σ}
    {member : Bytes × ι} (read : intoField folding true fields s member = some s') :
    ∃ f, fieldOf folding fields (unquote member.1) = some f ∧ f.set s member.2 = some s' := by
  rw [intoField] at read
  split at read
  · rename_i f found
    exact ⟨f, found, read⟩
  · cases read

/-! ## Raw bytes -/

def intoString : Target RawMessage Bytes := fun current raw =>
  match scanDocument raw with
  | some (.scalar (.str content)) => some (unquote content)
  | some (.scalar .null) => some current
  | _ => none

/-- `null` makes the slice nil. -/
def intoSlice (zero : α) (element : Target RawMessage α) : Target RawMessage (List α) :=
  fun current raw =>
    match scanDocument raw with
    | some (.box .array entries) => intoElements zero element current (entries.map Prod.snd)
    | some (.scalar .null) => some []
    | _ => none

def intoStruct (folding : CaseFolding) (strict : Bool)
    (fields : List (StructField RawMessage σ)) : Target RawMessage σ := fun current raw =>
  match scanDocument raw with
  | some (.box .object entries) => entries.foldlM (intoField folding strict fields) current
  | some (.scalar .null) => some current
  | _ => none

def intoRaw : Target RawMessage RawMessage := fun _ raw => some raw

/-- An `int` takes a number that is written as one. -/
def intoInt : Target RawMessage Int := fun current raw =>
  match scanDocument raw with
  | some (.scalar (.num digits)) => parseInt digits
  | some (.scalar .null) => some current
  | _ => none

/-- `null` makes the pointer nil; a nil pointer is set to a zero value first. -/
def intoPointer (zero : α) (target : Target RawMessage α) : Target RawMessage (Option α) :=
  fun current raw =>
    match scanDocument raw with
    | some (.scalar .null) => some none
    | _ => (target (current.getD zero) raw).map some

/-! ## Trees -/

def treeString : Target (Json .value) Bytes := fun current t =>
  match t with
  | .str content _ => some (unquote content)
  | .null => some current
  | _ => none

def treeSlice (zero : α) (element : Target (Json .value) α) :
    Target (Json .value) (List α) := fun current t =>
  match t with
  | @Json.box .array body => intoElements zero element current (body.entries.map Prod.snd)
  | .null => some []
  | _ => none

def treeStruct (folding : CaseFolding) (strict : Bool)
    (fields : List (StructField (Json .value) σ)) : Target (Json .value) σ := fun current t =>
  match t with
  | @Json.box .object body => body.entries.foldlM (intoField folding strict fields) current
  | .null => some current
  | _ => none

/-- The target does on the text of a tree what the other does on the tree. -/
def Reads (target : Target RawMessage α) (tree : Target (Json .value) α) : Prop :=
  ∀ current (t : Json .value), t.nesting ≤ maxNestingDepth → target current t.text = tree current t

/-- Fields of the same names, and one target for each. -/
def FieldReads (f : StructField RawMessage σ) (g : StructField (Json .value) σ) : Prop :=
  f.name = g.name ∧ Reads f.set g.set

theorem reads_string : Reads intoString treeString := by
  intro current t nests
  rw [intoString, scanDocument_value t nests]
  cases t with
  | box body => rfl
  | _ => rfl

variable {tree : Target (Json .value) α} {target : Target RawMessage α}

theorem FieldReads.of (name : String) (get : σ → α) (put : σ → α → σ) (reads : Reads target tree) :
    FieldReads (StructField.of name get put target) (StructField.of name get put tree) := by
  refine ⟨rfl, ?_⟩
  intro current t nests
  simp only [StructField.of, reads _ t nests]

theorem reads_elements {zero : α} (reads : Reads target tree) {values : List (Json .value)}
    (nests : ∀ t ∈ values, t.nesting ≤ maxNestingDepth) (current : List α) :
    intoElements zero target current (values.map Json.text) =
      intoElements zero tree current values := by
  induction values generalizing current with
  | nil => rfl
  | cons t values ih =>
    have first := reads (current.headD zero) t (nests t (List.mem_cons_self ..))
    have others := ih (fun u inside => nests u (List.mem_cons_of_mem _ inside)) current.tail
    simp only [List.map_cons, intoElements, first, others]

theorem entries_within {b : Box} {body : Json (.body b)} (nests : (Json.box body).nesting ≤ maxNestingDepth) :
    ∀ e ∈ body.entries, e.2.nesting ≤ maxNestingDepth :=
  fun _ inside => (Json.entries_nesting inside).trans (box_nesting nests)

theorem reads_slice {zero : α} (reads : Reads target tree) :
    Reads (intoSlice zero target) (treeSlice zero tree) := by
  intro current t nests
  rw [intoSlice, scanDocument_value t nests]
  cases t with
  | @box b body =>
    cases b with
    | object => rfl
    | array =>
      have within : ∀ t ∈ body.entries.map Prod.snd, t.nesting ≤ maxNestingDepth := by
        intro t inside
        obtain ⟨e, member, rfl⟩ := List.mem_map.mp inside
        exact entries_within nests e member
      have texts : (rawEntries body).map Prod.snd = (body.entries.map Prod.snd).map Json.text := by
        simp [rawEntries]
      simp only [shapeOf, treeSlice, texts]
      exact reads_elements reads within current
  | _ => rfl

variable {trees : List (StructField (Json .value) σ)} {name : Bytes}

theorem reads_find {fields : List (StructField RawMessage σ)}
    (same : List.Forall₂ FieldReads fields trees) (p : Bytes → Bool) :
    Option.Rel FieldReads (fields.find? fun f => p f.name) (trees.find? fun f => p f.name) := by
  induction same with
  | nil => exact Option.Rel.none
  | @cons f g fields trees both rest ih =>
    rw [List.find?_cons, List.find?_cons, ← both.1]
    cases p f.name with
    | true => exact Option.Rel.some both
    | false => exact ih

theorem reads_fieldOf (folding : CaseFolding) {fields : List (StructField RawMessage σ)}
    (same : List.Forall₂ FieldReads fields trees) (name : Bytes) :
    Option.Rel FieldReads (fieldOf folding fields name) (fieldOf folding trees name) := by
  have exactly := reads_find same fun n => n == name
  have folded := reads_find same fun n => equalFold folding n name
  rw [fieldOf, fieldOf]
  generalize (fields.find? fun f => f.name == name) = f at exactly ⊢
  generalize (trees.find? fun f => f.name == name) = g at exactly ⊢
  cases exactly with
  | none => exact folded
  | some both => exact Option.Rel.some both

theorem reads_members (folding : CaseFolding) (strict : Bool)
    {fields : List (StructField RawMessage σ)} (same : List.Forall₂ FieldReads fields trees)
    {entries : List (Bytes × Json .value)} (nests : ∀ e ∈ entries, e.2.nesting ≤ maxNestingDepth)
    (current : σ) :
    (entries.map fun e => (e.1, e.2.text)).foldlM (intoField folding strict fields) current =
      entries.foldlM (intoField folding strict trees) current := by
  induction entries generalizing current with
  | nil => rfl
  | cons e entries ih =>
    have first : intoField folding strict fields current (e.1, e.2.text) =
        intoField folding strict trees current e := by
      rw [intoField, intoField]
      have field := reads_fieldOf folding same (unquote e.1)
      generalize fieldOf folding fields (unquote e.1) = f at field ⊢
      generalize fieldOf folding trees (unquote e.1) = g at field ⊢
      cases field with
      | none => rfl
      | some both => exact both.2 current e.2 (nests e (List.mem_cons_self ..))
    rw [List.map_cons, List.foldlM_cons, List.foldlM_cons, first]
    apply congrArg
    funext next
    exact ih (fun u inside => nests u (List.mem_cons_of_mem _ inside)) next

theorem reads_struct (folding : CaseFolding) (strict : Bool)
    {fields : List (StructField RawMessage σ)} (same : List.Forall₂ FieldReads fields trees) :
    Reads (intoStruct folding strict fields) (treeStruct folding strict trees) := by
  intro current t nests
  rw [intoStruct, scanDocument_value t nests]
  cases t with
  | @box b body =>
    cases b with
    | array => rfl
    | object => exact reads_members folding strict same (entries_within nests) current
  | _ => rfl

/-! ## What becomes of one field

With no two members of one name a field is set at most once, by the member of its name. -/

section Field

variable {folding : CaseFolding} {strict : Bool} {fields : List (StructField ι σ)}

/-- No two fields whose names differ in case only. -/
def FieldsApart (folding : CaseFolding) (fields : List (StructField ι σ)) : Prop :=
  fields.Pairwise fun f g => equalFold folding f.name g.name = false

theorem fieldsApart_of_lower (isAscii : ∀ f ∈ fields, ∀ b ∈ f.name, isASCII b = true)
    (distinct : (fields.map fun f => (f.name.map UInt8.toNat).map asciiLower).Nodup) :
    FieldsApart folding fields := by
  rw [List.Nodup, List.pairwise_map] at distinct
  refine distinct.imp_of_mem ?_
  intro f g inF inG differ
  rw [equalFold_ascii folding (isAscii f inF) (isAscii g inG)]
  exact decide_eq_false differ

theorem FieldsApart.eq (apart : FieldsApart folding fields) {f g : StructField ι σ} (inside : f ∈ fields)
    (inside' : g ∈ fields) (same : equalFold folding f.name g.name = true) : f = g := by
  by_contra different
  have symmetric : Std.Symm fun f g : StructField ι σ => equalFold folding f.name g.name = false :=
    ⟨fun f g differ => by rw [equalFold_comm]; exact differ⟩
  have differ := apart.forall inside inside' different
  rw [same] at differ
  cases differ

theorem fieldOf_iff (apart : FieldsApart folding fields) {f : StructField ι σ} :
    fieldOf folding fields name = some f ↔ f ∈ fields ∧ equalFold folding f.name name = true := by
  have found : ∀ g, fieldOf folding fields name = some g →
      g ∈ fields ∧ equalFold folding g.name name = true := by
    intro g is
    rcases Option.or_eq_some_iff.mp is with exact' | ⟨-, folded⟩
    · have same : g.name = name := by simpa using List.find?_some exact'
      exact ⟨List.mem_of_find?_eq_some exact', same ▸ equalFold_refl folding _⟩
    · have same := List.find?_some folded
      exact ⟨List.mem_of_find?_eq_some folded, same⟩
  refine ⟨found f, ?_⟩
  intro both
  cases is : fieldOf folding fields name with
  | none =>
    have nothing := List.find?_eq_none.mp (Option.or_eq_none_iff.mp is).2 f both.1
    exact absurd both.2 nothing
  | some g =>
    obtain ⟨inside, folded⟩ := found g is
    rw [equalFold_comm] at folded
    rw [apart.eq both.1 inside (equalFold_trans both.2 folded)]

def memberOf (folding : CaseFolding) (name : Bytes) (members : List (Bytes × ι)) : Option ι :=
  (members.find? fun m => equalFold folding name (unquote m.1)).map Prod.snd

/-- `part` is the part of the struct that the field of a name sets, and no other. -/
def IsPart (fields : List (StructField ι σ)) (name : Bytes) (part : σ → α) (target : Target ι α) : Prop :=
  ∀ f ∈ fields, ∀ s input s', f.set s input = some s' →
    (f.name = name ∧ target (part s) input = some (part s')) ∨ (f.name ≠ name ∧ part s' = part s)

theorem part_kept {part : σ → α} {target : Target ι α} (isPart : IsPart fields name part target)
    (apart : FieldsApart folding fields) (members : List (Bytes × ι)) :
    ∀ s s', (∀ m ∈ members, equalFold folding name (unquote m.1) = false) →
      members.foldlM (intoField folding strict fields) s = some s' → part s' = part s := by
  induction members with
  | nil =>
    intro s s' _ read
    cases read
    rfl
  | cons m members ih =>
    intro s s' others read
    rw [List.foldlM_cons, Option.bind_eq_bind, Option.bind_eq_some_iff] at read
    obtain ⟨next, first, rest⟩ := read
    rw [ih next s' (fun m inside => others m (List.mem_cons_of_mem _ inside)) rest]
    rw [intoField] at first
    split at first
    · rename_i f found
      obtain ⟨inside, folded⟩ := (fieldOf_iff apart).mp found
      have different : f.name ≠ name := by
        intro same
        have differ := others m (List.mem_cons_self ..)
        rw [← same, folded] at differ
        cases differ
      rcases isPart f inside s m.2 next first with ⟨same, -⟩ | ⟨-, kept⟩
      · exact absurd same different
      · exact kept
    · split_ifs at first
      cases first
      rfl

theorem part_of_members {part : σ → α} {target : Target ι α}
    (isPart : IsPart fields name part target) (apart : FieldsApart folding fields)
    (known : ∃ f ∈ fields, f.name = name) (members : List (Bytes × ι)) :
    ∀ s s', (members.map Prod.fst).Pairwise (fun a b => sameName (equalFold folding) a b = false) →
      members.foldlM (intoField folding strict fields) s = some s' →
      (memberOf folding name members).elim (some (part s)) (target (part s)) = some (part s') := by
  induction members with
  | nil =>
    intro s s' _ read
    cases read
    rfl
  | cons m members ih =>
    intro s s' distinct read
    rw [List.map_cons, List.pairwise_cons] at distinct
    rw [List.foldlM_cons, Option.bind_eq_bind, Option.bind_eq_some_iff] at read
    obtain ⟨next, first, rest⟩ := read
    by_cases own : equalFold folding name (unquote m.1) = true
    · obtain ⟨f, inside, rfl⟩ := known
      have found := (fieldOf_iff apart).mpr ⟨inside, own⟩
      have others : ∀ m' ∈ members, equalFold folding f.name (unquote m'.1) = false := by
        intro m' member
        have differ := distinct.1 m'.1 (List.mem_map_of_mem member)
        by_contra same
        rw [Bool.not_eq_false] at same
        rw [equalFold_comm] at own
        rw [sameName, equalFold_trans own same] at differ
        cases differ
      rw [part_kept isPart apart members next s' others rest]
      rw [intoField, found] at first
      rcases isPart f inside s m.2 next first with ⟨-, set⟩ | ⟨different, -⟩
      · simpa [memberOf, List.find?_cons, own] using set
      · exact absurd rfl different
    · have here : ∀ m' ∈ [m], equalFold folding name (unquote m'.1) = false := by
        intro m' member
        rw [List.mem_singleton.mp member]
        exact Bool.eq_false_of_not_eq_true own
      have kept : part next = part s := by
        apply part_kept isPart apart [m] s next here
        rw [List.foldlM_cons, first]
        rfl
      have later := ih next s' distinct.2 rest
      rw [kept] at later
      rw [Bool.not_eq_true] at own
      simpa [memberOf, List.find?_cons, own] using later

def lastMemberOf (folding : CaseFolding) (name : Bytes) (members : List (Bytes × ι)) : Option ι :=
  memberOf folding name members.reverse

theorem lastMemberOf_cons (folding : CaseFolding) (name : Bytes) (m : Bytes × ι)
    (members : List (Bytes × ι)) :
    lastMemberOf folding name (m :: members) =
      (lastMemberOf folding name members).or (memberOf folding name [m]) := by
  simp [lastMemberOf, memberOf, Option.map_or]

theorem part_of_last {fields : List (StructField RawMessage σ)} {part : σ → RawMessage}
    (isPart : IsPart fields name part intoRaw) (apart : FieldsApart folding fields)
    (known : ∃ f ∈ fields, f.name = name) (members : List (Bytes × RawMessage)) :
    ∀ s s', members.foldlM (intoField folding strict fields) s = some s' →
      part s' = (lastMemberOf folding name members).getD (part s) := by
  induction members with
  | nil =>
    intro s s' read
    cases read
    rfl
  | cons m members ih =>
    intro s s' read
    rw [List.foldlM_cons, Option.bind_eq_bind, Option.bind_eq_some_iff] at read
    obtain ⟨next, first, rest⟩ := read
    have one : [m].foldlM (intoField folding strict fields) s = some next := by
      rw [List.foldlM_cons, first]
      rfl
    have single := part_of_members isPart apart known [m] s next (List.pairwise_singleton _ _) one
    have here : part next = (memberOf folding name [m]).getD (part s) := by
      cases found : memberOf folding name [m] with
      | none =>
        rw [found] at single
        exact (Option.some.inj single).symm
      | some raw =>
        rw [found] at single
        exact (Option.some.inj single).symm
    rw [ih next s' rest, here, lastMemberOf_cons]
    cases lastMemberOf folding name members <;> rfl

theorem members_total {fields : List (StructField ι σ)}
    (total : ∀ f ∈ fields, ∀ s input, ∃ s', f.set s input = some s') (members : List (Bytes × ι)) :
    ∀ s, ∃ s', members.foldlM (intoField folding false fields) s = some s' := by
  induction members with
  | nil => exact fun s => ⟨s, rfl⟩
  | cons m members ih =>
    intro s
    have first : ∃ next, intoField folding false fields s m = some next := by
      rw [intoField]
      split
      · rename_i f found
        have inside : f ∈ fields := by
          rcases Option.or_eq_some_iff.mp found with own | ⟨-, folded⟩
          · exact List.mem_of_find?_eq_some own
          · exact List.mem_of_find?_eq_some folded
        exact total f inside s m.2
      · exact ⟨s, rfl⟩
    obtain ⟨next, first⟩ := first
    obtain ⟨s', rest⟩ := ih next
    refine ⟨s', ?_⟩
    rw [List.foldlM_cons, first]
    exact rest

end Field

end DevHealth.Go

import DevHealth.Lib.Decimal

/-! # JSON values

The value of a JSON text: numbers keep their text and the proof that it is one, strings are
unescaped, an object is the list of its members.  `JsonValue.equal` is equality as JSON means
it: numbers by what they denote, objects without regard to the order of their members. -/
set_option autoImplicit false
namespace DevHealth.Lib

open Go

inductive JsonValue where
  | null
  | bool (b : Bool)
  | num (text : Bytes) (valid : IsNumber text)
  | str (s : Bytes)
  | arr (items : List JsonValue)
  | obj (members : List (Bytes × JsonValue))

abbrev Members := List (Bytes × JsonValue)

def memberAt (m : Members) (key : Bytes) : Option JsonValue := List.lookup key m

namespace JsonValue

/-- No object in the value has two members of one name. -/
inductive Distinct : JsonValue → Prop
  | null : Distinct .null
  | bool (b : Bool) : Distinct (.bool b)
  | num (text : Bytes) (valid : IsNumber text) : Distinct (.num text valid)
  | str (s : Bytes) : Distinct (.str s)
  | arr {items : List JsonValue} : (∀ v ∈ items, Distinct v) → Distinct (.arr items)
  | obj {members : List (Bytes × JsonValue)} : (members.map Prod.fst).Nodup →
      (∀ entry ∈ members, Distinct entry.2) → Distinct (.obj members)

def isScalar : JsonValue → Bool
  | .arr _ | .obj _ => false
  | _ => true

mutual

def equal : JsonValue → JsonValue → Bool
  | .null, .null => true
  | .bool a, .bool b => a == b
  | .num a _, .num b _ => decide (numberValue a = numberValue b)
  | .str a, .str b => a == b
  | .arr xs, .arr ys => equalItems xs ys
  | .obj ms, .obj ns => ms.length == ns.length && equalMembers ms ns
  | _, _ => false

def equalItems : List JsonValue → List JsonValue → Bool
  | [], [] => true
  | x :: xs, y :: ys => equal x y && equalItems xs ys
  | _, _ => false

/-- Every member of the first list has an equal one in the second. -/
def equalMembers : List (Bytes × JsonValue) → List (Bytes × JsonValue) → Bool
  | [], _ => true
  | (k, v) :: rest, ns =>
    (match List.lookup k ns with
      | some w => equal v w
      | none => false) && equalMembers rest ns

end

end JsonValue

theorem JsonValue.isScalar_of_equal {v w : JsonValue} (same : v.equal w = true) :
    v.isScalar = w.isScalar := by
  cases v <;> cases w <;> first | rfl | cases same

/-! ## Members -/

theorem memberAt_cons (key k : Bytes) (v : JsonValue) (m : Members) :
    memberAt ((k, v) :: m) key = if key = k then some v else memberAt m key := by
  rw [memberAt, List.lookup_cons]
  by_cases same : key = k
  · rw [if_pos same, beq_iff_eq.mpr same]
  · rw [if_neg same, beq_eq_false_iff_ne.mpr same, memberAt]

variable {m : Members} {key : Bytes}

theorem mem_of_memberAt {v : JsonValue} (found : memberAt m key = some v) : (key, v) ∈ m := by
  induction m with
  | nil => cases found
  | cons entry m ih =>
    obtain ⟨k, w⟩ := entry
    rw [memberAt_cons] at found
    by_cases same : key = k
    · rw [if_pos same] at found
      cases found
      rw [same]
      exact List.mem_cons_self ..
    · rw [if_neg same] at found
      exact List.mem_cons_of_mem _ (ih found)

theorem memberAt_of_mem (distinct : (m.map Prod.fst).Nodup) {v : JsonValue}
    (inside : (key, v) ∈ m) : memberAt m key = some v := by
  induction m with
  | nil => cases inside
  | cons entry m ih =>
    obtain ⟨k, w⟩ := entry
    obtain ⟨fresh, rest⟩ := List.nodup_cons.mp distinct
    rw [memberAt_cons]
    rcases List.mem_cons.mp inside with same | inside
    · cases same
      rw [if_pos rfl]
    · have apart : key ≠ k := by
        intro same
        exact fresh (List.mem_map.mpr ⟨(key, v), inside, same⟩)
      rw [if_neg apart]
      exact ih rest inside

theorem memberAt_isSome : (memberAt m key).isSome = true ↔ key ∈ m.map Prod.fst := by
  induction m with
  | nil => simp [memberAt]
  | cons entry m ih =>
    obtain ⟨k, w⟩ := entry
    rw [memberAt_cons, List.map_cons, List.mem_cons]
    by_cases same : key = k
    · simp [same]
    · simp [same, ih]

theorem memberAt_map (f : Bytes → JsonValue → JsonValue) (m : Members) (key : Bytes) :
    memberAt (m.map fun (k, v) => (k, f k v)) key = (memberAt m key).map (f key) := by
  induction m with
  | nil => rfl
  | cons entry m ih =>
    obtain ⟨k, w⟩ := entry
    rw [List.map_cons, memberAt_cons, memberAt_cons, ih]
    by_cases same : key = k
    · rw [if_pos same, if_pos same, same]
      rfl
    · rw [if_neg same, if_neg same]

theorem memberAt_append (m n : Members) (key : Bytes) :
    memberAt (m ++ n) key = (memberAt m key).or (memberAt n key) := by
  induction m with
  | nil => simp [memberAt]
  | cons entry m ih =>
    obtain ⟨k, w⟩ := entry
    rw [List.cons_append, memberAt_cons, memberAt_cons, ih]
    by_cases same : key = k
    · simp [same]
    · simp [same]

theorem memberAt_filter {p : Bytes × JsonValue → Bool} (keeps : ∀ v, p (key, v) = true) :
    memberAt (m.filter p) key = memberAt m key := by
  induction m with
  | nil => rfl
  | cons entry m ih =>
    obtain ⟨k, w⟩ := entry
    rw [List.filter_cons, memberAt_cons]
    by_cases same : key = k
    · subst same
      rw [if_pos (keeps w), memberAt_cons, if_pos rfl, if_pos rfl]
    · rw [if_neg same]
      split_ifs
      · rw [memberAt_cons, if_neg same, ih]
      · exact ih

theorem memberAt_filter_none {p : Bytes × JsonValue → Bool} (drops : ∀ v, p (key, v) = false) :
    memberAt (m.filter p) key = none := by
  apply Option.not_isSome_iff_eq_none.mp
  rw [memberAt_isSome]
  intro inside
  obtain ⟨⟨k, v⟩, kept, rfl⟩ := List.mem_map.mp inside
  have passed := (List.mem_filter.mp kept).2
  rw [drops v] at passed
  cases passed

/-! ## Equality -/

theorem JsonValue.equalItems_refl {items : List JsonValue} (each : ∀ v ∈ items, v.equal v = true) :
    JsonValue.equalItems items items = true := by
  induction items with
  | nil => rfl
  | cons v items ih =>
    rw [JsonValue.equalItems, each v (List.mem_cons_self ..),
      ih fun w inside => each w (List.mem_cons_of_mem _ inside)]
    rfl

theorem JsonValue.equalMembers_subset {m n : Members} (distinct : (n.map Prod.fst).Nodup)
    (inside : ∀ entry ∈ m, entry ∈ n) (each : ∀ entry ∈ n, entry.2.equal entry.2 = true) :
    JsonValue.equalMembers m n = true := by
  induction m with
  | nil => rfl
  | cons entry m ih =>
    obtain ⟨k, v⟩ := entry
    have here := inside (k, v) (List.mem_cons_self ..)
    have found : List.lookup k n = some v := memberAt_of_mem distinct here
    have same : v.equal v = true := each (k, v) here
    rw [JsonValue.equalMembers, found, ih fun entry member => inside entry (List.mem_cons_of_mem _ member)]
    simp [same]

theorem JsonValue.equal_refl {v : JsonValue} (distinct : v.Distinct) : v.equal v = true := by
  induction distinct with
  | null => rfl
  | bool b | num text valid | str s => simp [JsonValue.equal]
  | arr _ ih => exact JsonValue.equalItems_refl ih
  | obj names _ ih =>
    rw [JsonValue.equal, JsonValue.equalMembers_subset names (fun _ inside => inside) ih]
    simp

end DevHealth.Lib

import Mathlib.Algebra.BigOperators.Group.List.Basic
import Mathlib.Data.List.Dedup
import Mathlib.Data.List.Nodup

/-! # Relations with repeated rows

The clauses of a query over lists of rows: joins on a condition, grouping by a key and
counting over a partition.  The order of the rows has no meaning; a table that is read
one row for each sorting key is a list whose keys have no repeats. -/
set_option autoImplicit false
namespace DevHealth.Lib.Relation

variable {α β κ : Type}

/-- A table with one row for each key. -/
structure Keyed (key : α → κ) where
  rows : List α
  unique : (rows.map key).Nodup

def Keyed.empty {key : α → κ} : Keyed key := ⟨[], List.nodup_nil⟩

def innerJoin (on : α → β → Bool) (xs : List α) (ys : List β) : List (α × β) :=
  xs.flatMap fun x => (ys.filter (on x)).map fun y => (x, y)

/-- A left row that matches nothing stands alone. -/
def leftJoin (on : α → β → Bool) (xs : List α) (ys : List β) : List (α × Option β) :=
  xs.flatMap fun x =>
    match ys.filter (on x) with
    | [] => [(x, none)]
    | y :: more => (y :: more).map fun y => (x, some y)

def groupBy [DecidableEq κ] (key : α → κ) (aggregate : κ → List α → β) (xs : List α) : List β :=
  (xs.map key).dedup.map fun k => aggregate k (xs.filter fun x => key x = k)

/-- `countIf(counts) OVER (PARTITION BY key)`, at the row `x`. -/
def countOver [DecidableEq κ] (key : α → κ) (counts : α → Bool) (xs : List α) (x : α) : Nat :=
  xs.countP fun y => decide (key y = key x) && counts y

/-! ## Selections -/

/-- Some of the rows, in their order: what one or more conditions leave. -/
def SelectedFrom (rows l : List α) : Prop := ∃ p : α → Bool, l = rows.filter p

theorem SelectedFrom.filter {rows l : List α} (selected : SelectedFrom rows l) (q : α → Bool) :
    SelectedFrom rows (l.filter q) := by
  obtain ⟨p, rfl⟩ := selected
  exact ⟨_, List.filter_filter⟩

theorem SelectedFrom.ext {rows l m : List α} (left : SelectedFrom rows l) (right : SelectedFrom rows m)
    (same : ∀ x, x ∈ l ↔ x ∈ m) : l = m := by
  obtain ⟨p, rfl⟩ := left
  obtain ⟨q, rfl⟩ := right
  apply List.filter_congr
  intro x inside
  have both := same x
  rw [List.mem_filter, List.mem_filter, and_iff_right inside, and_iff_right inside] at both
  rw [Bool.eq_iff_iff]
  exact both

theorem eq_toList {l : List α} {o : Option α} (unique : l.Nodup) (same : ∀ x, x ∈ l ↔ o = some x) : l = o.toList := by
  cases o with
  | none =>
    rw [Option.toList_none, List.eq_nil_iff_forall_not_mem]
    intro x inside
    cases (same x).mp inside
  | some y =>
    cases l with
    | nil => cases (same y).mpr rfl
    | cons x rest =>
      have first := Option.some.inj ((same x).mp List.mem_cons_self)
      have nothing : rest = [] := by
        rw [List.eq_nil_iff_forall_not_mem]
        intro z inside
        have again := Option.some.inj ((same z).mp (List.mem_cons_of_mem _ inside))
        rw [List.nodup_cons] at unique
        exact unique.1 (first ▸ again ▸ inside)
      rw [nothing, first, Option.toList_some]

/-! ## Joins -/

variable {xs : List α} {on : α → β → Bool} {ys : List β} {x : α}

theorem mem_innerJoin {y : β} : (x, y) ∈ innerJoin on xs ys ↔ x ∈ xs ∧ y ∈ ys ∧ on x y = true := by
  simp only [innerJoin, List.mem_flatMap, List.mem_map, List.mem_filter, Prod.mk.injEq]
  constructor
  · rintro ⟨x, left, y, ⟨right, matched⟩, rfl, rfl⟩
    exact ⟨left, right, matched⟩
  · rintro ⟨left, right, matched⟩
    exact ⟨x, left, y, ⟨right, matched⟩, rfl, rfl⟩

theorem mem_leftJoin {o : Option β} : (x, o) ∈ leftJoin on xs ys ↔
      x ∈ xs ∧ ((∃ y ∈ ys, on x y = true ∧ o = some y) ∨ o = none ∧ ys.filter (on x) = []) := by
  have each : ∀ a, (x, o) ∈ (match ys.filter (on a) with
      | [] => [(a, none)]
      | y :: more => (y :: more).map fun y => (a, some y)) ↔
      a = x ∧ ((∃ y ∈ ys.filter (on a), o = some y) ∨ o = none ∧ ys.filter (on a) = []) := by
    intro a
    cases ys.filter (on a) with
    | nil =>
      simp only [List.mem_singleton, Prod.mk.injEq, List.not_mem_nil, false_and, exists_false, false_or, and_true]
      rw [eq_comm]
    | cons first more =>
      simp only [List.mem_map, Prod.mk.injEq, reduceCtorEq, and_false, or_false]
      constructor
      · rintro ⟨y, inside, rfl, rfl⟩
        exact ⟨rfl, y, inside, rfl⟩
      · rintro ⟨rfl, y, inside, rfl⟩
        exact ⟨y, inside, rfl, rfl⟩
  rw [leftJoin, List.mem_flatMap]
  constructor
  · rintro ⟨a, inside, found⟩
    obtain ⟨rfl, matched⟩ := (each a).mp found
    refine ⟨inside, ?_⟩
    rcases matched with ⟨y, kept, same⟩ | unmatched
    · obtain ⟨stored, joined⟩ := List.mem_filter.mp kept
      exact .inl ⟨y, stored, joined, same⟩
    · exact .inr unmatched
  · rintro ⟨inside, matched⟩
    refine ⟨x, inside, (each x).mpr ⟨rfl, ?_⟩⟩
    rcases matched with ⟨y, stored, joined, same⟩ | unmatched
    · exact .inl ⟨y, List.mem_filter.mpr ⟨stored, joined⟩, same⟩
    · exact .inr unmatched

theorem nodup_innerJoin (left : xs.Nodup) (right : ys.Nodup) : (innerJoin on xs ys).Nodup := by
  rw [innerJoin, List.nodup_flatMap]
  refine ⟨fun x _ => (right.filter _).map fun y z same => (Prod.mk.inj same).2, ?_⟩
  refine left.imp ?_
  intro x y differ row first second
  obtain ⟨z, -, rfl⟩ := List.mem_map.mp first
  obtain ⟨z', -, same⟩ := List.mem_map.mp second
  exact differ (Prod.mk.inj same).1.symm

theorem flatMap_filter {f : α → List β} {p : α → Bool} {q : β → Bool}
    (same : ∀ x ∈ xs, ∀ y ∈ f x, q y = p x) :
    (xs.filter p).flatMap f = (xs.flatMap f).filter q := by
  induction xs with
  | nil => rfl
  | cons x xs ih =>
    have rest := ih fun y inside => same y (List.mem_cons_of_mem _ inside)
    have first := same x (List.mem_cons_self ..)
    rw [List.flatMap_cons, List.filter_append, ← rest]
    by_cases kept : p x = true
    · rw [List.filter_cons_of_pos kept, List.flatMap_cons,
        List.filter_eq_self.mpr fun y found => (first y found).trans kept]
    · have dropped : (f x).filter q = [] :=
        List.filter_eq_nil_iff.mpr fun y found => by rwa [first y found]
      rw [List.filter_cons_of_neg kept, dropped, List.nil_append]

theorem filter_innerJoin (on : α → β → Bool) (p : α → Bool) (xs : List α) (ys : List β) :
    (innerJoin on xs ys).filter (fun pair => p pair.1) = innerJoin on (xs.filter p) ys := by
  refine (flatMap_filter fun x _ pair inside => ?_).symm
  obtain ⟨y, -, rfl⟩ := List.mem_map.mp inside
  rfl

theorem innerJoin_congr {ys zs : List β} (same : ∀ x ∈ xs, ys.filter (on x) = zs.filter (on x)) :
    innerJoin on xs ys = innerJoin on xs zs := by
  simp only [innerJoin]
  exact List.flatMap_congr fun x inside => by rw [same x inside]

theorem leftJoin_eq (one : ∀ x ∈ xs, (ys.filter (on x)).length ≤ 1) :
    leftJoin on xs ys = xs.map fun x => (x, ys.find? (on x)) := by
  rw [leftJoin, List.map_eq_flatMap]
  refine List.flatMap_congr fun x inside => ?_
  have few := one x inside
  rw [← List.head?_filter]
  rcases found : ys.filter (on x) with _ | ⟨y, _ | ⟨z, more⟩⟩
  · rfl
  · rfl
  · rw [found] at few
    simp at few

theorem matches_le_one (key : β → κ) (unique : (ys.map key).Nodup) {p : β → Bool} {k : κ}
    (asks : ∀ y ∈ ys, p y = true → key y = k) :
    (ys.filter p).length ≤ 1 := by
  have kept : ((ys.filter p).map key).Nodup := unique.sublist (List.filter_sublist.map key)
  have all : ∀ k' ∈ (ys.filter p).map key, k' = k := by
    intro k' inside
    obtain ⟨y, found, rfl⟩ := List.mem_map.mp inside
    obtain ⟨row, matched⟩ := List.mem_filter.mp found
    exact asks y row matched
  rw [← List.length_map key]
  rcases same : (ys.filter p).map key with _ | ⟨a, _ | ⟨b, more⟩⟩
  · simp
  · simp
  · rw [same] at kept all
    have equal : a = b := (all a (by simp)).trans (all b (by simp)).symm
    simp [equal] at kept

theorem countP_eq_one (unique : xs.Nodup) {p : α → Bool} (inside : x ∈ xs) (counted : p x = true) :
    xs.countP p = 1 ↔ ∀ y ∈ xs, p y = true → y = x := by
  rw [List.countP_eq_length_filter]
  have found : x ∈ xs.filter p := List.mem_filter.mpr ⟨inside, counted⟩
  constructor
  · intro one y other also
    obtain ⟨z, only⟩ := List.length_eq_one_iff.mp one
    have first : x ∈ [z] := only ▸ found
    have second : y ∈ [z] := only ▸ List.mem_filter.mpr ⟨other, also⟩
    rw [List.mem_singleton.mp first, List.mem_singleton.mp second]
  · intro only
    have few := matches_le_one id (by rwa [List.map_id]) only
    have some_row := List.length_pos_of_mem found
    omega

theorem countOver_zero [DecidableEq κ] {key : α → κ} {counts : α → Bool} :
    countOver key counts xs x = 0 ↔ ∀ y ∈ xs, key y = key x → counts y = false := by
  rw [countOver, List.countP_eq_zero]
  refine forall_congr' fun y => forall_congr' fun _ => ?_
  rw [Bool.and_eq_true, decide_eq_true_eq, not_and, Bool.not_eq_true]

/-! ## Groups -/

variable [DecidableEq κ] {key : α → κ} {aggregate : κ → List α → β}

theorem mem_groupBy {g : β} : g ∈ groupBy key aggregate xs ↔
      ∃ k, (∃ x ∈ xs, key x = k) ∧ g = aggregate k (xs.filter fun x => key x = k) := by
  simp only [groupBy, List.mem_map, List.mem_dedup]
  constructor
  · rintro ⟨k, ⟨x, inside, same⟩, rfl⟩
    exact ⟨k, ⟨x, inside, same⟩, rfl⟩
  · rintro ⟨k, ⟨x, inside, same⟩, rfl⟩
    exact ⟨k, ⟨x, inside, same⟩, rfl⟩

theorem groupBy_unique {keyOf : β → κ} (keeps : ∀ k g, keyOf (aggregate k g) = k) (xs : List α) :
    ((groupBy key aggregate xs).map keyOf).Nodup := by
  have keys : (groupBy key aggregate xs).map keyOf = (xs.map key).dedup := by
    rw [groupBy, List.map_map]
    refine (List.map_congr_left fun k _ => ?_).trans (List.map_id _)
    exact keeps k _
  rw [keys]
  exact List.nodup_dedup _

theorem groupBy_unique_on {γ : Type} {f : β → γ}
    (tells : ∀ x ∈ xs, ∀ y ∈ xs, f (aggregate (key x) (xs.filter fun z => key z = key x)) = f (aggregate (key y) (xs.filter fun z => key z = key y)) → key x = key y) :
    ((groupBy key aggregate xs).map f).Nodup := by
  rw [groupBy, List.map_map]
  apply (List.nodup_dedup _).map_on
  intro k inK k' inK' same
  obtain ⟨x, inX, rfl⟩ := List.mem_map.mp (List.mem_dedup.mp inK)
  obtain ⟨y, inY, rfl⟩ := List.mem_map.mp (List.mem_dedup.mp inK')
  exact tells x inX y inY same

theorem filter_groupBy {keyOf : β → κ} (keeps : ∀ k g, keyOf (aggregate k g) = k) (xs : List α) (k : κ) :
    (groupBy key aggregate xs).filter (fun g => keyOf g = k) =
      if k ∈ xs.map key then [aggregate k (xs.filter fun x => key x = k)] else [] := by
  have chosen : ((fun g => decide (keyOf g = k)) ∘ fun k => aggregate k (xs.filter fun x => key x = k)) =
      fun k' => decide (k' = k) := by
    funext k'
    simp only [Function.comp_apply, keeps]
  rw [groupBy, List.filter_map, chosen]
  split_ifs with present
  · have single : (xs.map key).dedup.filter (fun k' => decide (k' = k)) = [k] := by
      have count := List.count_dedup (xs.map key) k
      rw [if_pos present] at count
      have repeated : (xs.map key).dedup.filter (fun k' => decide (k' = k)) =
          List.replicate ((xs.map key).dedup.count k) k := by
        rw [← List.filter_beq]
        rfl
      rw [repeated, count]
      rfl
    rw [single]
    rfl
  · have nothing : (xs.map key).dedup.filter (fun k' => decide (k' = k)) = [] := by
      rw [List.filter_eq_nil_iff]
      intro k' inside same
      rw [decide_eq_true_eq] at same
      exact present (same ▸ List.mem_dedup.mp inside)
    rw [nothing, List.map_nil]

theorem sum_groupBy {M : Type} [AddMonoid M] (keyOf : β → κ) (value : β → M) {f : α → M}
    (keeps : ∀ k g, keyOf (aggregate k g) = k) (sums : ∀ k g, value (aggregate k g) = (g.map f).sum) (xs : List α)
    (k : κ) :
    (((groupBy key aggregate xs).filter fun g => keyOf g = k).map value).sum =
      ((xs.filter fun x => key x = k).map f).sum := by
  rw [filter_groupBy keeps]
  split_ifs with present
  · rw [List.map_singleton, List.sum_singleton, sums]
  · have nothing : (xs.filter fun x => key x = k) = [] := by
      rw [List.filter_eq_nil_iff]
      intro x inside same
      exact present (List.mem_map.mpr ⟨x, inside, of_decide_eq_true same⟩)
    rw [nothing]
    rfl

theorem find_groupBy {keyOf : β → κ} (keeps : ∀ k g, keyOf (aggregate k g) = k) (xs : List α) (k : κ) :
    (groupBy key aggregate xs).find? (fun g => keyOf g = k) =
      if k ∈ xs.map key then some (aggregate k (xs.filter fun x => key x = k)) else none := by
  rw [← List.head?_filter, filter_groupBy keeps]
  split_ifs <;> rfl

theorem find_groupBy_congr (keyOf : β → κ) (keeps : ∀ k g, keyOf (aggregate k g) = k) {xs ys : List α} {k : κ}
    (same : (xs.filter fun x => key x = k) = ys.filter fun y => key y = k) :
    (groupBy key aggregate xs).find? (fun g => keyOf g = k) =
      (groupBy key aggregate ys).find? (fun g => keyOf g = k) := by
  have present : ∀ zs : List α, k ∈ zs.map key ↔ (zs.filter fun z => key z = k) ≠ [] := by
    intro zs
    rw [List.mem_map, ne_eq, List.filter_eq_nil_iff]
    push Not
    simp
  rw [find_groupBy keeps, find_groupBy keeps, same]
  exact if_congr (by rw [present, present, same]) rfl rfl

theorem filter_dedup (q : κ → Bool) (ks : List κ) : (ks.filter q).dedup = ks.dedup.filter q := by
  induction ks with
  | nil => rfl
  | cons k ks ih =>
    by_cases kept : q k = true
    · rw [List.filter_cons_of_pos kept]
      by_cases again : k ∈ ks
      · rw [List.dedup_cons_of_mem again, List.dedup_cons_of_mem (List.mem_filter.mpr ⟨again, kept⟩), ih]
      · rw [List.dedup_cons_of_notMem again, List.filter_cons_of_pos kept,
          List.dedup_cons_of_notMem fun inside => again (List.mem_filter.mp inside).1, ih]
    · rw [List.filter_cons_of_neg kept, ih]
      by_cases again : k ∈ ks
      · rw [List.dedup_cons_of_mem again]
      · rw [List.dedup_cons_of_notMem again, List.filter_cons_of_neg kept]

theorem groupBy_filter (keyOf : β → κ) (keeps : ∀ k g, keyOf (aggregate k g) = k) (q : κ → Bool)
    (xs : List α) :
    groupBy key aggregate (xs.filter fun x => q (key x)) =
      (groupBy key aggregate xs).filter fun g => q (keyOf g) := by
  have keys : (xs.filter fun x => q (key x)).map key = (xs.map key).filter q := by
    rw [List.filter_map]
    rfl
  have kept : ((fun g => q (keyOf g)) ∘ fun k => aggregate k (xs.filter fun x => key x = k)) = q := by
    funext k
    simp only [Function.comp_apply, keeps]
  rw [groupBy, groupBy, keys, filter_dedup, List.filter_map, kept]
  refine List.map_congr_left fun k inside => ?_
  rw [List.filter_filter]
  congr 1
  refine List.filter_congr fun x _ => ?_
  by_cases same : key x = k
  · simp [same, (List.mem_filter.mp inside).2]
  · simp [same]

end DevHealth.Lib.Relation

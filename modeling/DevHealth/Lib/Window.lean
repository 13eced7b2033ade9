import DevHealth.Lib.Relation
import Mathlib.Data.List.MinMax

/-! # Window functions

`row_number()` and `dense_rank()` over a partition, highest rank first.  Rows of equal rank
are numbered in the order in which they stand.  The rows numbered one are the `latest` of
their keys, those ranked one the `top` of theirs. -/
set_option autoImplicit false
namespace DevHealth.Lib.Relation

variable {α κ ω : Type} [DecidableEq κ] [LinearOrder ω] {key : α → κ} {rank : α → ω}

/-- A row of the partition that is numbered before one of the given rank wherever it stands. -/
def outranks (key : α → κ) (rank : α → ω) (x y : α) : Bool := decide (key y = key x ∧ rank x < rank y)

/-- A row of the partition that is numbered before one of the same rank when it stands before it. -/
def ties (key : α → κ) (rank : α → ω) (x y : α) : Bool := decide (key y = key x ∧ rank y = rank x)

/-- The numbers of the rows `rest`, of all rows, when `before` stands before them. -/
def numberFrom (key : α → κ) (rank : α → ω) (all before : List α) : List α → List (α × Nat)
  | [] => []
  | x :: rest =>
    (x, all.countP (outranks key rank x) + before.countP (ties key rank x) + 1) ::
      numberFrom key rank all (before ++ [x]) rest

/-- `row_number() OVER (PARTITION BY key ORDER BY rank DESC)`, beside each row. -/
def rowNumbers (key : α → κ) (rank : α → ω) (rows : List α) : List (α × Nat) := numberFrom key rank rows [] rows

def latest (key : α → κ) (rank : α → ω) (rows : List α) : List α :=
  ((rowNumbers key rank rows).filter fun row => row.2 = 1).map Prod.fst

/-- `dense_rank() OVER (PARTITION BY key ORDER BY rank DESC)`, at the row `x`. -/
def denseRank (key : α → κ) (rank : α → ω) (rows : List α) (x : α) : Nat :=
  ((rows.filter (outranks key rank x)).map rank).dedup.length + 1

def top (key : α → κ) (rank : α → ω) (rows : List α) : List α := rows.filter fun x => denseRank key rank rows x = 1

/-- No row of the key has a higher rank. -/
def IsHighest (key : α → κ) (rank : α → ω) (rows : List α) (x : α) : Prop :=
  ∀ y ∈ rows, key y = key x → rank y ≤ rank x

instance (rows : List α) (x : α) : Decidable (IsHighest key rank rows x) :=
  inferInstanceAs (Decidable (∀ y ∈ rows, key y = key x → rank y ≤ rank x))

/-- A table of an engine that keeps, for each key, a row of the highest version: the rows it
holds before the merges, and those that `FINAL` reads. -/
structure Replacing (key : α → κ) (version : α → ω) where
  rows : List α
  final : List α
  unique : (final.map key).Nodup
  kept : ∀ x ∈ final, x ∈ rows ∧ IsHighest key version rows x
  covers : ∀ x ∈ rows, ∃ y ∈ final, key y = key x

/-- A table that holds one row of each key is read as it is. -/
def Replacing.merged {version : α → ω} (rows : List α) (unique : (rows.map key).Nodup) : Replacing key version where
  rows := rows
  final := rows
  unique := unique
  kept := by
    intro x inside
    refine ⟨inside, ?_⟩
    intro y other same
    rw [List.inj_on_of_nodup_map unique other inside same]
  covers := fun x inside => ⟨x, inside, rfl⟩

variable {rows : List α} {x : α}

theorem filter_outranks_nil : rows.filter (outranks key rank x) = [] ↔ IsHighest key rank rows x := by
  rw [List.filter_eq_nil_iff]
  refine forall_congr' fun y => forall_congr' fun _ => ?_
  rw [outranks, decide_eq_true_eq, not_and, not_lt]

theorem denseRank_one : denseRank key rank rows x = 1 ↔ IsHighest key rank rows x := by
  rw [← filter_outranks_nil, denseRank]
  constructor
  · intro one
    have empty : ((rows.filter (outranks key rank x)).map rank).dedup = [] := List.length_eq_zero_iff.mp (by omega)
    rw [List.dedup_eq_nil, List.map_eq_nil_iff] at empty
    exact empty
  · intro empty
    rw [empty]
    rfl

theorem mem_top : x ∈ top key rank rows ↔ x ∈ rows ∧ IsHighest key rank rows x := by
  rw [top, List.mem_filter, decide_eq_true_eq, denseRank_one]

/-- `argMax(column, rank)`, of the rows of a group. -/
def argMax {β : Type} (column : α → β) (rank : α → ω) (rows : List α) : Option β := (rows.argmax rank).map column

omit [DecidableEq κ] in
theorem argMax_eq_none {β : Type} {column : α → β} : argMax column rank rows = none ↔ rows = [] := by
  rw [argMax, Option.map_eq_none_iff, List.argmax_eq_none]

omit [DecidableEq κ] in
theorem argMax_highest {β : Type} {column : α → β} {c : β} (found : argMax column rank rows = some c) :
    ∃ x ∈ rows, column x = c ∧ ∀ y ∈ rows, rank y ≤ rank x := by
  obtain ⟨x, best, rfl⟩ := Option.map_eq_some_iff.mp found
  exact ⟨x, List.argmax_mem best, rfl, fun y inside => List.le_of_mem_argmax inside best⟩

omit [DecidableEq κ] in
/-- Where the rank tells the columns apart, `argMax` is the column of any row of the highest rank. -/
theorem argMax_eq_some {β : Type} {column : α → β}
    (tells : ∀ x ∈ rows, ∀ y ∈ rows, rank x = rank y → column x = column y) {c : β} :
    argMax column rank rows = some c ↔ ∃ x ∈ rows, column x = c ∧ ∀ y ∈ rows, rank y ≤ rank x := by
  constructor
  · exact argMax_highest
  · rintro ⟨x, inside, rfl, highest⟩
    cases best : argMax column rank rows with
    | none =>
      rw [argMax_eq_none.mp best] at inside
      cases inside
    | some c =>
      obtain ⟨y, found, rfl, top⟩ := argMax_highest best
      exact congrArg some (tells y found x inside (le_antisymm (highest y found) (top x inside)))

/-! ## The latest rows -/

def latestFrom (key : α → κ) (rank : α → ω) (all before rest : List α) : List α :=
  ((numberFrom key rank all before rest).filter fun row => row.2 = 1).map Prod.fst

/-- A row is numbered one when none is ranked above it and none of its rank stands before it. -/
def IsFirst (key : α → κ) (rank : α → ω) (all before : List α) (x : α) : Prop :=
  IsHighest key rank all x ∧ ∀ y ∈ before, ¬ (key y = key x ∧ rank y = rank x)

instance (all before : List α) (x : α) : Decidable (IsFirst key rank all before x) :=
  inferInstanceAs (Decidable (_ ∧ ∀ y ∈ before, ¬ (key y = key x ∧ rank y = rank x)))

theorem number_one {all before : List α} :
    all.countP (outranks key rank x) + before.countP (ties key rank x) + 1 = 1 ↔
      IsFirst key rank all before x := by
  have above : all.countP (outranks key rank x) = 0 ↔ IsHighest key rank all x := by
    rw [← filter_outranks_nil, List.countP_eq_length_filter, List.length_eq_zero_iff]
  have same : before.countP (ties key rank x) = 0 ↔ ∀ y ∈ before, ¬ (key y = key x ∧ rank y = rank x) := by
    rw [List.countP_eq_zero]
    refine forall_congr' fun y => forall_congr' fun _ => ?_
    rw [ties, decide_eq_true_eq]
  rw [IsFirst, ← above, ← same]
  omega

theorem latestFrom_cons (all before rest : List α) (x : α) : latestFrom key rank all before (x :: rest) =
      if IsFirst key rank all before x then x :: latestFrom key rank all (before ++ [x]) rest
      else latestFrom key rank all (before ++ [x]) rest := by
  rw [latestFrom, numberFrom, List.filter_cons]
  simp only [decide_eq_true_eq, number_one]
  split_ifs with first
  · rfl
  · rfl

theorem mem_latestFrom {all before rest : List α} (inside : x ∈ latestFrom key rank all before rest) :
    x ∈ rest ∧ IsHighest key rank all x ∧ ∀ y ∈ before, ¬ (key y = key x ∧ rank y = rank x) := by
  induction rest generalizing before with
  | nil => cases inside
  | cons first rest ih =>
    rw [latestFrom_cons] at inside
    have later : x ∈ latestFrom key rank all (before ++ [first]) rest → x ∈ first :: rest ∧
        IsHighest key rank all x ∧ ∀ y ∈ before, ¬ (key y = key x ∧ rank y = rank x) := by
      intro inside
      obtain ⟨found, highest, alone⟩ := ih inside
      exact ⟨List.mem_cons_of_mem _ found, highest, fun y earlier => alone y (List.mem_append_left _ earlier)⟩
    split_ifs at inside with isFirst
    · rcases List.mem_cons.mp inside with rfl | inside
      · exact ⟨List.mem_cons_self, isFirst⟩
      · exact later inside
    · exact later inside

theorem latestFrom_unique {all before rest : List α} (part : ∀ x ∈ rest, x ∈ all) :
    ((latestFrom key rank all before rest).map key).Nodup := by
  induction rest generalizing before with
  | nil => exact List.nodup_nil
  | cons first rest ih =>
    have later : ((latestFrom key rank all (before ++ [first]) rest).map key).Nodup :=
      ih fun x inside => part x (List.mem_cons_of_mem _ inside)
    rw [latestFrom_cons]
    split_ifs with isFirst
    · rw [List.map_cons, List.nodup_cons]
      refine ⟨?_, later⟩
      intro repeated
      obtain ⟨x, inside, same⟩ := List.mem_map.mp repeated
      obtain ⟨found, highest, alone⟩ := mem_latestFrom inside
      have below := highest first (part first List.mem_cons_self) same.symm
      have above := isFirst.1 x (part x (List.mem_cons_of_mem _ found)) same
      exact alone first (List.mem_append_right _ List.mem_cons_self) ⟨same.symm, le_antisymm below above⟩
    · exact later

theorem latest_unique (key : α → κ) (rank : α → ω) (rows : List α) : ((latest key rank rows).map key).Nodup :=
  latestFrom_unique fun _ inside => inside

theorem mem_latest (inside : x ∈ latest key rank rows) : x ∈ rows ∧ IsHighest key rank rows x := by
  obtain ⟨found, highest, -⟩ := mem_latestFrom inside
  exact ⟨found, highest⟩

/-- Where no two rows of a key have the same rank, the latest rows are the highest. -/
theorem latest_eq_filter (distinct : (rows.map fun x => (key x, rank x)).Nodup) :
    latest key rank rows = rows.filter fun x => IsHighest key rank rows x := by
  suffices each : ∀ before rest : List α, ((before ++ rest).map fun x => (key x, rank x)).Nodup →
      latestFrom key rank rows before rest = rest.filter fun x => IsHighest key rank rows x from
    each [] rows distinct
  intro before rest distinct
  induction rest generalizing before with
  | nil => rfl
  | cons first rest ih =>
    have alone : ∀ y ∈ before, ¬ (key y = key first ∧ rank y = rank first) := by
      intro y earlier same
      rw [List.map_append, List.nodup_append] at distinct
      apply distinct.2.2 _ (List.mem_map_of_mem earlier) _ (List.mem_map_of_mem List.mem_cons_self)
      rw [same.1, same.2]
    rw [latestFrom_cons, ih (before ++ [first]) (by rwa [List.append_assoc])]
    rw [List.filter_cons]
    by_cases highest : IsHighest key rank rows first
    · rw [if_pos ⟨highest, alone⟩, if_pos (decide_eq_true highest)]
    · have other : ¬ decide (IsHighest key rank rows first) = true := by rwa [decide_eq_true_eq]
      rw [if_neg fun isFirst => highest isFirst.1, if_neg other]

theorem exists_highest (key : α → κ) (rank : α → ω) (inside : x ∈ rows) :
    ∃ y ∈ rows, key y = key x ∧ rank x ≤ rank y ∧ IsHighest key rank rows y := by
  have own : x ∈ rows.filter fun y => key y = key x := List.mem_filter.mpr ⟨inside, decide_eq_true rfl⟩
  cases best : (rows.filter fun y => key y = key x).argmax rank with
  | none =>
    rw [List.argmax_eq_none] at best
    rw [best] at own
    cases own
  | some y =>
    obtain ⟨found, same⟩ := List.mem_filter.mp (List.argmax_mem best)
    rw [decide_eq_true_eq] at same
    refine ⟨y, found, same, List.le_of_mem_argmax own best, ?_⟩
    intro z other sameZ
    apply List.le_of_mem_argmax _ best
    rw [List.mem_filter, decide_eq_true_eq]
    exact ⟨other, sameZ.trans same⟩

theorem mem_latest_iff :
    x ∈ latest key rank rows ↔ ∃ row ∈ rowNumbers key rank rows, row.2 = 1 ∧ row.1 = x := by
  rw [latest, List.mem_map]
  refine exists_congr fun row => ?_
  rw [List.mem_filter, decide_eq_true_eq, and_assoc]

theorem numbered_eq {a b : α × Nat} (inA : a ∈ rowNumbers key rank rows) (oneA : a.2 = 1)
    (inB : b ∈ rowNumbers key rank rows) (oneB : b.2 = 1) (same : key a.1 = key b.1) : a = b := by
  have latestA : a.1 ∈ latest key rank rows := mem_latest_iff.mpr ⟨a, inA, oneA, rfl⟩
  have latestB : b.1 ∈ latest key rank rows := mem_latest_iff.mpr ⟨b, inB, oneB, rfl⟩
  exact Prod.ext (List.inj_on_of_nodup_map (latest_unique key rank rows) latestA latestB same) (oneA.trans oneB.symm)

theorem exists_latestFrom {all before rest : List α} {y : α} (inside : y ∈ rest) (highest : IsHighest key rank all y)
    (alone : ∀ x ∈ before, ¬ (key x = key y ∧ rank x = rank y)) :
    ∃ x ∈ latestFrom key rank all before rest, key x = key y := by
  induction rest generalizing before with
  | nil => cases inside
  | cons first rest ih =>
    rw [latestFrom_cons]
    by_cases tied : key first = key y ∧ rank first = rank y
    · have isFirst : IsFirst key rank all before first := by
        refine ⟨?_, ?_⟩
        · intro z other same
          rw [tied.2]
          exact highest z other (same.trans tied.1)
        · intro x earlier same
          exact alone x earlier ⟨same.1.trans tied.1, same.2.trans tied.2⟩
      rw [if_pos isFirst]
      exact ⟨first, List.mem_cons_self, tied.1⟩
    · have later : y ∈ rest := by
        rcases List.mem_cons.mp inside with rfl | later
        · exact absurd ⟨rfl, rfl⟩ tied
        · exact later
      have still : ∀ x ∈ before ++ [first], ¬ (key x = key y ∧ rank x = rank y) := by
        intro x earlier
        rcases List.mem_append.mp earlier with earlier | earlier
        · exact alone x earlier
        · rw [List.mem_singleton.mp earlier]
          exact tied
      obtain ⟨x, found, same⟩ := ih later still
      split_ifs
      · exact ⟨x, List.mem_cons_of_mem _ found, same⟩
      · exact ⟨x, found, same⟩

theorem exists_latest (key : α → κ) (rank : α → ω) (inside : x ∈ rows) :
    ∃ row ∈ rowNumbers key rank rows, row.2 = 1 ∧ key row.1 = key x := by
  obtain ⟨y, found, same, -, highest⟩ := exists_highest key rank inside
  obtain ⟨z, first, sameZ⟩ : ∃ z ∈ latest key rank rows, key z = key y :=
    exists_latestFrom found highest fun _ none => absurd none List.not_mem_nil
  obtain ⟨row, numbered, one, rfl⟩ := mem_latest_iff.mp first
  exact ⟨row, numbered, one, sameZ.trans same⟩

theorem mem_of_numbered {row : α × Nat} (inside : row ∈ rowNumbers key rank rows)
    (one : row.2 = 1) : row.1 ∈ rows :=
  (mem_latest (mem_latest_iff.mpr ⟨row, inside, one, rfl⟩)).1

/-! ## Row limits -/

/-- What an `ORDER BY` on a key and a `LIMIT` leave of the rows does not depend on how rows of equal
keys are ordered, whatever the order of the keys is. -/
structure DeterministicCut {γ : Type} (rows : List α) (sortKey : α → κ) (output : α → γ) : Prop where
  total : ∀ x ∈ rows, ∀ y ∈ rows, sortKey x = sortKey y → output x = output y
  cut : ∀ le : κ → κ → Prop, (∀ a b, le a b → le b a → a = b) → ∀ (limit : Nat) (l m : List α),
    l.Perm rows → m.Perm rows → l.Pairwise (fun x y => le (sortKey x) (sortKey y)) →
    m.Pairwise (fun x y => le (sortKey x) (sortKey y)) → (l.map output).take limit = (m.map output).take limit

omit [DecidableEq κ] in
/-- Rows with the same keys in the same order have the same outputs, when a key has one output. -/
theorem map_eq_of_keys {γ : Type} {sortKey : α → κ} {output : α → γ} {l m : List α}
    (keys : l.map sortKey = m.map sortKey)
    (total : ∀ x ∈ l, ∀ y ∈ m, sortKey x = sortKey y → output x = output y) : l.map output = m.map output := by
  induction l generalizing m with
  | nil =>
    cases m with
    | nil => rfl
    | cons y m => cases keys
  | cons x l ih =>
    cases m with
    | nil => cases keys
    | cons y m =>
      rw [List.map_cons, List.map_cons, List.cons.injEq] at keys
      rw [List.map_cons, List.map_cons, total x List.mem_cons_self y List.mem_cons_self keys.1]
      rw [ih keys.2 fun a inA b inB => total a (List.mem_cons_of_mem _ inA) b (List.mem_cons_of_mem _ inB)]

omit [DecidableEq κ] in
theorem deterministicCut_iff {γ : Type} {sortKey : α → κ} {output : α → γ} :
    DeterministicCut rows sortKey output ↔
      ∀ x ∈ rows, ∀ y ∈ rows, sortKey x = sortKey y → output x = output y := by
  constructor
  · exact DeterministicCut.total
  · intro total
    refine ⟨total, ?_⟩
    intro le antisymm limit l m permL permM sortedL sortedM
    -- both orders list the same keys, and a key has one output
    have keys : l.map sortKey = m.map sortKey :=
      List.Perm.eq_of_pairwise (fun a b _ _ => antisymm a b) (List.pairwise_map.mpr sortedL)
        (List.pairwise_map.mpr sortedM) ((permL.trans permM.symm).map sortKey)
    rw [map_eq_of_keys keys fun x inX y inY => total x (permL.mem_iff.mp inX) y (permM.mem_iff.mp inY)]

end DevHealth.Lib.Relation

import Mathlib.Data.List.Basic
import Mathlib.Data.List.Induction
import Mathlib.Tactic.SplitIfs

/-! # The first element of each key

A list with only the first element for each key, in the order of the list.  An element
that comes after one with its key does not matter. -/
set_option autoImplicit false
namespace DevHealth.Lib

variable {α κ : Type} [DecidableEq κ] {key : α → κ}

def firsts (key : α → κ) (l : List α) : List α := l.eraseDupsBy fun a b => key a == key b

theorem firsts_cons (key : α → κ) (a : α) (l : List α) :
    firsts key (a :: l) = a :: firsts key (l.filter fun b => key b ≠ key a) := by
  rw [firsts, List.eraseDupsBy_cons, firsts]
  simp only [beq_eq_false_iff_ne]

theorem firsts_concat (key : α → κ) (l : List α) (x : α) :
    firsts key (l ++ [x]) = if ∃ a ∈ l, key a = key x then firsts key l else firsts key l ++ [x] := by
  induction length : l.length using Nat.strongRecOn generalizing l with
  | ind n ih =>
    cases l with
    | nil =>
      rw [List.nil_append, firsts_cons]
      simp [firsts]
    | cons a l =>
      rw [List.cons_append, firsts_cons, firsts_cons, List.filter_append]
      by_cases same : key x = key a
      · simp [same]
      · have shorter : (l.filter fun b => key b ≠ key a).length < n := by
          have bound := List.length_filter_le (fun b => decide (key b ≠ key a)) l
          rw [List.length_cons] at length
          omega
        have known : (∃ b ∈ l.filter fun b => key b ≠ key a, key b = key x) ↔
            ∃ b ∈ a :: l, key b = key x := by
          constructor
          · intro found
            obtain ⟨b, inside, equal⟩ := found
            exact ⟨b, List.mem_cons_of_mem _ (List.mem_of_mem_filter inside), equal⟩
          · intro found
            obtain ⟨b, inside, equal⟩ := found
            rcases List.mem_cons.mp inside with rfl | later
            · exact absurd equal.symm same
            · refine ⟨b, List.mem_filter.mpr ⟨later, ?_⟩, equal⟩
              simpa [equal] using same
        have kept : [x].filter (fun b => decide (key b ≠ key a)) = [x] := by simp [same]
        rw [kept, ih _ shorter _ rfl]
        simp only [known]
        split_ifs with found
        · rfl
        · rfl

theorem exists_mem_firsts {l : List α} {k : κ} : (∃ a ∈ firsts key l, key a = k) ↔ ∃ a ∈ l, key a = k := by
  induction l using List.reverseRecOn with
  | nil => rfl
  | append_singleton l x ih =>
    rw [firsts_concat]
    split_ifs with known
    · rw [ih]
      constructor
      · intro found
        obtain ⟨a, inside, equal⟩ := found
        exact ⟨a, List.mem_append_left _ inside, equal⟩
      · intro found
        obtain ⟨a, inside, rfl⟩ := found
        rcases List.mem_append.mp inside with earlier | last
        · exact ⟨a, earlier, rfl⟩
        · rw [List.mem_singleton.mp last]
          exact known
    · simp only [List.mem_append, List.mem_singleton, or_and_right, exists_or, ih]

inductive Repeats (key : α → κ) : List α → List α → Prop
  | insert {before after : List α} {first x : α} : first ∈ before → key first = key x →
      Repeats key (before ++ after) (before ++ x :: after)

omit [DecidableEq κ] in
theorem Repeats.exists_iff {l m : List α} (more : Repeats key l m) {k : κ} :
    (∃ a ∈ m, key a = k) ↔ ∃ a ∈ l, key a = k := by
  cases more with
  | insert inside same =>
    rename_i before after first x
    simp only [List.mem_append, List.mem_cons]
    constructor
    · intro found
      obtain ⟨a, earlier | rfl | later, equal⟩ := found
      · exact ⟨a, .inl earlier, equal⟩
      · exact ⟨first, .inl inside, same.trans equal⟩
      · exact ⟨a, .inr later, equal⟩
    · intro found
      obtain ⟨a, earlier | later, equal⟩ := found
      · exact ⟨a, .inl earlier, equal⟩
      · exact ⟨a, .inr (.inr later), equal⟩

theorem firsts_insert {before : List α} {x : α} (known : ∃ a ∈ before, key a = key x) (after : List α) :
    firsts key (before ++ x :: after) = firsts key (before ++ after) := by
  obtain ⟨first, inside, same⟩ := known
  induction after using List.reverseRecOn with
  | nil => rw [firsts_concat, if_pos ⟨first, inside, same⟩, List.append_nil]
  | append_singleton after a ih =>
    have more : Repeats key (before ++ after) (before ++ x :: after) := .insert inside same
    rw [← List.cons_append, ← List.append_assoc, ← List.append_assoc, firsts_concat, firsts_concat, ih]
    simp only [more.exists_iff]

theorem Repeats.firsts_eq {l m : List α} (more : Repeats key l m) : firsts key m = firsts key l := by
  cases more with
  | insert inside same => exact firsts_insert ⟨_, inside, same⟩ _

end DevHealth.Lib

import Mathlib.Data.List.DropRight

/-! # Searching with a regular expression

The part of RE2 that a search with anchors uses.  A matcher tries its alternatives in the
order they are written, takes as many rounds of a repeat as it can, and goes back when what
follows does not match; the first match from the left is the one that counts.  Replacing
goes on behind each match. -/
set_option autoImplicit false
namespace DevHealth.Lib

variable {α β : Type}

theorem rdropWhile_cons (p : α → Bool) (a : α) (l : List α) :
    (a :: l).rdropWhile p = if p a = true ∧ ∀ b ∈ l, p b = true then [] else a :: l.rdropWhile p := by
  induction l using List.reverseRecOn with
  | nil => simp [List.rdropWhile_singleton]
  | append_singleton l x ih =>
    rw [← List.cons_append, List.rdropWhile_concat, List.rdropWhile_concat]
    by_cases last : p x = true
    · rw [if_pos last, if_pos last, ih]
      simp only [List.mem_append, List.mem_singleton, or_imp, forall_and, forall_eq, last, and_true]
    · have some : ¬ (p a = true ∧ ∀ b ∈ l ++ [x], p b = true) := by
        intro all
        exact last (all.2 x (by simp))
      simp [if_neg last, if_neg some]

inductive Pattern (α : Type) where
  | cls (p : α → Bool) : Pattern α
  | seq (r s : Pattern α) : Pattern α
  | alt (r s : Pattern α) : Pattern α
  | plus (r : Pattern α) : Pattern α
  /-- `^` -/
  | start : Pattern α
  /-- `$` -/
  | finish : Pattern α

namespace Pattern

/-- What is left of a text, and whether that is all of it. -/
structure Position (α : Type) where
  atStart : Bool
  rest : List α

/-- A matcher hands the place it comes to to what follows, which may refuse it. -/
abbrev Matcher (α β : Type) := Position α → (Position α → Option β) → Option β

/-- One round, then as many more as there are.  A round that takes nothing is the last. -/
def rounds (f : Matcher α β) : Nat → Matcher α β
  | 0, here, k => f here k
  | fuel + 1, here, k =>
    f here fun next =>
      (if next.rest.length < here.rest.length then rounds f fuel next k else none) <|> k next

def matchThen : Pattern α → Matcher α β
  | cls p, here, k =>
    match here.rest with
    | [] => none
    | a :: rest => if p a then k ⟨false, rest⟩ else none
  | seq r s, here, k => matchThen r here fun next => matchThen s next k
  | alt r s, here, k => matchThen r here k <|> matchThen s here k
  | plus r, here, k => rounds (matchThen r) here.rest.length here k
  | start, here, k => if here.atStart then k here else none
  | finish, here, k => if here.rest = [] then k here else none

/-- The text behind a match at this place. -/
def matchAt (r : Pattern α) (here : Position α) : Option (List α) := matchThen r here fun next => some next.rest

/-- Each round reads at least one character; a match that takes nothing is passed by. -/
def replaceLoop (r : Pattern α) (replacement : List α) : Nat → Position α → List α
  | 0, here => here.rest
  | _ + 1, ⟨_, []⟩ => []
  | fuel + 1, ⟨atStart, a :: rest⟩ =>
    match matchAt r ⟨atStart, a :: rest⟩ with
    | some after =>
      if after.length ≤ rest.length then replacement ++ replaceLoop r replacement fuel ⟨false, after⟩
      else a :: replaceLoop r replacement fuel ⟨false, rest⟩
    | none => a :: replaceLoop r replacement fuel ⟨false, rest⟩

def replaceAll (r : Pattern α) (replacement text : List α) : List α :=
  replaceLoop r replacement text.length ⟨true, text⟩

/-! ## A class at either end -/

variable {p : α → Bool}

/-- `^[p]+|[p]+$` -/
def ends (p : α → Bool) : Pattern α :=
  .alt (.seq .start (.plus (.cls p))) (.seq (.plus (.cls p)) .finish)

theorem rounds_cls (fuel : Nat) (atStart : Bool) (a : α) (rest : List α) (k : Position α → Option β) :
    rounds (matchThen (.cls p)) (fuel + 1) ⟨atStart, a :: rest⟩ k =
      if p a = true then rounds (matchThen (.cls p)) fuel ⟨false, rest⟩ k <|> k ⟨false, rest⟩ else none := by
  have shorter : rest.length < (a :: rest).length := Nat.lt_succ_self _
  rw [rounds, matchThen]
  simp only [if_pos shorter]

theorem rounds_take (fuel : Nat) : ∀ (here : Position α), here.rest.length ≤ fuel →
    rounds (matchThen (.cls p)) fuel here (fun next => some next.rest) =
      match here.rest with
      | [] => none
      | a :: rest => if p a then some (rest.dropWhile p) else none := by
  induction fuel with
  | zero =>
    intro here short
    have empty : here.rest = [] := List.length_eq_zero_iff.mp (Nat.le_zero.mp short)
    simp only [rounds, matchThen, empty]
  | succ fuel ih =>
    intro here short
    obtain ⟨atStart, text⟩ := here
    cases text with
    | nil => rfl
    | cons a rest =>
      rw [List.length_cons] at short
      rw [rounds_cls, ih ⟨false, rest⟩ (Nat.le_of_succ_le_succ short)]
      simp only
      split_ifs with first
      · cases rest with
        | nil => rfl
        | cons b rest =>
          by_cases second : p b = true
          · simp [second]
          · simp [second]
      · rfl

theorem rounds_finish (fuel : Nat) : ∀ (here : Position α), here.rest.length ≤ fuel →
    rounds (matchThen (.cls p)) fuel here (fun next => if next.rest = [] then some next.rest else none) =
      if here.rest ≠ [] ∧ ∀ a ∈ here.rest, p a = true then some [] else none := by
  induction fuel with
  | zero =>
    intro here short
    have empty : here.rest = [] := List.length_eq_zero_iff.mp (Nat.le_zero.mp short)
    simp [rounds, matchThen, empty]
  | succ fuel ih =>
    intro here short
    obtain ⟨atStart, text⟩ := here
    cases text with
    | nil => simp [rounds, matchThen]
    | cons a rest =>
      rw [List.length_cons] at short
      rw [rounds_cls, ih ⟨false, rest⟩ (Nat.le_of_succ_le_succ short)]
      cases rest with
      | nil => simp
      | cons b rest =>
        by_cases first : p a = true
        · simp [first]
        · simp [first]

theorem matchAt_ends_inside (a : α) (rest : List α) :
    matchAt (ends p) ⟨false, a :: rest⟩ = if ∀ b ∈ a :: rest, p b = true then some [] else none := by
  have finish := rounds_finish (p := p) _ ⟨false, a :: rest⟩ (Nat.le_refl _)
  simp only [matchAt, ends, matchThen] at finish ⊢
  simpa using finish

theorem matchAt_ends_start (a : α) (rest : List α) :
    matchAt (ends p) ⟨true, a :: rest⟩ = if p a = true then some (rest.dropWhile p) else none := by
  have take := rounds_take (p := p) _ ⟨true, a :: rest⟩ (Nat.le_refl _)
  have finish := rounds_finish (p := p) _ ⟨true, a :: rest⟩ (Nat.le_refl _)
  simp only [matchAt, ends, matchThen] at take finish ⊢
  rw [take, finish]
  by_cases first : p a = true
  · simp [first]
  · simp [first]

/-- Behind the start of a text only its end can match. -/
theorem replaceLoop_inside (fuel : Nat) : ∀ text : List α, text.length ≤ fuel →
    replaceLoop (ends p) [] fuel ⟨false, text⟩ = text.rdropWhile p := by
  induction fuel with
  | zero =>
    intro text short
    rw [List.length_eq_zero_iff.mp (Nat.le_zero.mp short)]
    rfl
  | succ fuel ih =>
    intro text short
    cases text with
    | nil => rfl
    | cons a rest =>
      rw [List.length_cons] at short
      rw [replaceLoop, matchAt_ends_inside, rdropWhile_cons]
      simp only [List.forall_mem_cons]
      split_ifs with all
      · simp [ih [] (Nat.zero_le _)]
      · simp only [ih rest (by omega)]

theorem replaceAll_ends (text : List α) : replaceAll (ends p) [] text = (text.dropWhile p).rdropWhile p := by
  cases text with
  | nil => rfl
  | cons a rest =>
    rw [replaceAll, List.length_cons, replaceLoop, matchAt_ends_start]
    have shorter := (List.dropWhile_sublist p (l := rest)).length_le
    split_ifs with first
    · simp only [if_pos shorter, List.nil_append]
      rw [replaceLoop_inside _ _ shorter, List.dropWhile_cons_of_pos first]
    · have kept : ¬ (p a = true ∧ ∀ b ∈ rest, p b = true) := fun all => first all.1
      simp only
      rw [replaceLoop_inside _ _ (Nat.le_refl _), List.dropWhile_cons_of_neg first, rdropWhile_cons,
        if_neg kept]

end Pattern
end DevHealth.Lib

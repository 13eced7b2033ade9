import Mathlib.Computability.Language

/-! # Anchored regular expressions

The fragment of RE2 that a fully anchored pattern over single-byte classes uses:
classes, concatenation, alternation, optional parts, bounded and unbounded
repeats.  `accepts` is a backtracking matcher with an explicit continuation;
`lang` is the language of the expression, and `accepts_iff` says that the matcher
decides membership. -/
set_option autoImplicit false
namespace DevHealth.Lib

universe u
variable {α : Type u}

inductive Regex (α : Type u) where
  | eps : Regex α
  | cls (p : α → Bool) : Regex α
  | seq (r s : Regex α) : Regex α
  | alt (r s : Regex α) : Regex α
  | star (r : Regex α) : Regex α

variable {w : List α} {p : α → Bool}

namespace Regex

/-- `r?` -/
def opt (r : Regex α) : Regex α := alt r eps

/-- `r+` -/
def plus (r : Regex α) : Regex α := seq r (star r)

/-- `r{n}` -/
def exactly (r : Regex α) : Nat → Regex α
  | 0 => eps
  | n + 1 => seq r (exactly r n)

/-- `r{0,n}` -/
def upTo (r : Regex α) : Nat → Regex α
  | 0 => eps
  | n + 1 => alt (seq r (upTo r n)) eps

/-- `r{m,n}` for `m ≤ n` -/
def repeated (r : Regex α) (m n : Nat) : Regex α := seq (exactly r m) (upTo r (n - m))

def lit [DecidableEq α] : List α → Regex α
  | [] => eps
  | a :: rest => seq (cls fun b => decide (b = a)) (lit rest)

/-- `(r₁|r₂|…)`; the empty list matches nothing. -/
def oneOf : List (Regex α) → Regex α
  | [] => cls fun _ => false
  | r :: rest => alt r (oneOf rest)

def lang : Regex α → Language α
  | eps => 1
  | cls p => {w | ∃ a, p a = true ∧ w = [a]}
  | seq r s => lang r * lang s
  | alt r s => lang r + lang s
  | star r => KStar.kstar (lang r)

/-- Iterate a matcher.  Each round must consume something, so the length of the
text is fuel enough. -/
def iterate (f : List α → (List α → Bool) → Bool) :
    Nat → List α → (List α → Bool) → Bool
  | 0, w, k => k w
  | fuel + 1, w, k =>
    k w || f w fun rest => decide (rest.length < w.length) && iterate f fuel rest k

/-- Match a leading part of the text and hand what is left to the continuation. -/
def matchThen : Regex α → List α → (List α → Bool) → Bool
  | eps, w, k => k w
  | cls _, [], _ => false
  | cls p, a :: w, k => p a && k w
  | seq r s, w, k => matchThen r w fun rest => matchThen s rest k
  | alt r s, w, k => matchThen r w k || matchThen s w k
  | star r, w, k => iterate (matchThen r) w.length w k

/-- `^r$` against the whole text. -/
def accepts (r : Regex α) (w : List α) : Bool := matchThen r w List.isEmpty

/-- What a matcher of the language `l` does: some leading part is in `l` and the
continuation takes the rest. -/
def Matches (l : Language α) (f : List α → (List α → Bool) → Bool) : Prop :=
  ∀ w k, f w k = true ↔ ∃ x y, w = x ++ y ∧ x ∈ l ∧ k y = true

theorem iterate_sound {l : Language α} {f : List α → (List α → Bool) → Bool}
    (matcher : Matches l f) : ∀ (fuel : Nat) (w : List α) (k : List α → Bool),
      iterate f fuel w k = true → ∃ x y, w = x ++ y ∧ x ∈ KStar.kstar l ∧ k y = true := by
  intro fuel
  induction fuel with
  | zero => exact fun w k success => ⟨[], w, rfl, Language.nil_mem_kstar l, success⟩
  | succ fuel ih =>
    intro w k success
    rcases Bool.or_eq_true_iff.mp success with stop | round
    · exact ⟨[], w, rfl, Language.nil_mem_kstar l, stop⟩
    · obtain ⟨x, rest, rfl, member, tail⟩ := (matcher _ _).mp round
      obtain ⟨y, z, rfl, members, done⟩ := ih rest k (Bool.and_eq_true_iff.mp tail).2
      refine ⟨x ++ y, z, (List.append_assoc x y z).symm, ?_, done⟩
      obtain ⟨parts, rfl, each⟩ := Language.mem_kstar.mp members
      refine Language.mem_kstar.mpr ⟨x :: parts, rfl, ?_⟩
      intro part here
      rcases List.mem_cons.mp here with rfl | here
      · exact member
      · exact each part here

/-- Empty factors are skipped: the fuel only has to cover the text. -/
theorem iterate_complete {l : Language α} {f : List α → (List α → Bool) → Bool}
    (matcher : Matches l f) (k : List α → Bool) : ∀ (parts : List (List α)) (y : List α)
      (fuel : Nat), (∀ part ∈ parts, part ∈ l) → parts.flatten.length ≤ fuel → k y = true →
      iterate f fuel (parts.flatten ++ y) k = true := by
  intro parts
  induction parts with
  | nil =>
    intro y fuel _ _ done
    cases fuel <;> simp [iterate, done]
  | cons part parts ih =>
    intro y fuel each enough done
    have tail : ∀ part ∈ parts, part ∈ l := fun p here => each p (List.mem_cons_of_mem _ here)
    by_cases blank : part = []
    · subst blank
      simpa using ih y fuel tail (by simpa using enough) done
    · have positive : 0 < part.length := List.length_pos_iff.mpr blank
      simp only [List.flatten_cons, List.length_append] at enough
      cases fuel with
      | zero => omega
      | succ fuel =>
        simp only [iterate, List.flatten_cons, List.append_assoc, Bool.or_eq_true]
        refine Or.inr ((matcher _ _).mpr ⟨part, parts.flatten ++ y, rfl,
          each part (List.mem_cons_self ..), ?_⟩)
        have shorter : (parts.flatten ++ y).length < (part ++ (parts.flatten ++ y)).length := by
          simp only [List.length_append]
          omega
        simp only [shorter, decide_true, Bool.true_and]
        exact ih y fuel tail (by omega) done

theorem matchThen_matches (r : Regex α) : Matches (lang r) (matchThen r) := by
  induction r with
  | eps =>
    intro w k
    constructor
    · exact fun done => ⟨[], w, rfl, Language.mem_one [] |>.mpr rfl, done⟩
    · rintro ⟨x, y, rfl, blank, done⟩
      rw [lang, Language.mem_one] at blank
      simpa [matchThen, blank] using done
  | cls p =>
    intro w k
    constructor
    · intro success
      cases w with
      | nil => simp [matchThen] at success
      | cons a w =>
        obtain ⟨here, done⟩ := Bool.and_eq_true_iff.mp success
        exact ⟨[a], w, rfl, ⟨a, here, rfl⟩, done⟩
    · rintro ⟨x, y, rfl, ⟨a, here, rfl⟩, done⟩
      simp [matchThen, here, done]
  | seq r s first second =>
    intro w k
    constructor
    · intro success
      obtain ⟨x, rest, rfl, inFirst, success⟩ := (first _ _).mp success
      obtain ⟨y, z, rfl, inSecond, done⟩ := (second _ _).mp success
      exact ⟨x ++ y, z, (List.append_assoc x y z).symm,
        Language.mem_mul.mpr ⟨x, inFirst, y, inSecond, rfl⟩, done⟩
    · rintro ⟨x, z, rfl, member, done⟩
      obtain ⟨u, inFirst, v, inSecond, rfl⟩ := Language.mem_mul.mp member
      refine (first _ _).mpr ⟨u, v ++ z, List.append_assoc u v z, inFirst, ?_⟩
      exact (second _ _).mpr ⟨v, z, rfl, inSecond, done⟩
  | alt r s left right =>
    intro w k
    simp only [matchThen, Bool.or_eq_true, lang, Language.mem_add]
    rw [left, right]
    constructor
    · rintro (⟨x, y, split, member, done⟩ | ⟨x, y, split, member, done⟩)
      · exact ⟨x, y, split, Or.inl member, done⟩
      · exact ⟨x, y, split, Or.inr member, done⟩
    · rintro ⟨x, y, split, member | member, done⟩
      · exact Or.inl ⟨x, y, split, member, done⟩
      · exact Or.inr ⟨x, y, split, member, done⟩
  | star r round =>
    intro w k
    constructor
    · exact iterate_sound round w.length w k
    · rintro ⟨x, y, rfl, member, done⟩
      obtain ⟨parts, rfl, each⟩ := Language.mem_kstar.mp member
      exact iterate_complete round k parts y _ each (by simp) done

theorem accepts_iff (r : Regex α) (w : List α) : accepts r w = true ↔ w ∈ lang r := by
  rw [accepts, matchThen_matches r w]
  constructor
  · rintro ⟨x, y, rfl, member, blank⟩
    rw [List.isEmpty_iff] at blank
    simpa [blank] using member
  · exact fun member => ⟨w, [], by simp, member, rfl⟩

/-! ## Words of a language -/

theorem mem_lang_seq {r s : Regex α} :
    w ∈ lang (seq r s) ↔ ∃ x ∈ lang r, ∃ y ∈ lang s, x ++ y = w := Language.mem_mul

theorem mem_lang_alt {r s : Regex α} : w ∈ lang (alt r s) ↔ w ∈ lang r ∨ w ∈ lang s := Language.mem_add _ _ _

theorem mem_lang_eps : w ∈ lang (eps : Regex α) ↔ w = [] := Iff.rfl

theorem mem_lang_cls : w ∈ lang (cls p) ↔ ∃ a, p a = true ∧ w = [a] := Iff.rfl

theorem mem_lang_opt {r : Regex α} : w ∈ lang (opt r) ↔ w ∈ lang r ∨ w = [] := by
  rw [opt, mem_lang_alt, mem_lang_eps]

theorem mem_lang_lit [DecidableEq α] {s w : List α} : w ∈ lang (lit s) ↔ w = s := by
  induction s generalizing w with
  | nil => exact Iff.rfl
  | cons a s ih =>
    rw [lit, mem_lang_seq]
    constructor
    · rintro ⟨_, ⟨b, same, rfl⟩, rest, inside, rfl⟩
      rw [decide_eq_true_eq] at same
      rw [same, ih.mp inside]
      rfl
    · rintro rfl
      exact ⟨[a], ⟨a, by simp, rfl⟩, s, ih.mpr rfl, rfl⟩

theorem mem_lang_star_cls : w ∈ lang (star (cls p)) ↔ ∀ a ∈ w, p a = true := by
  constructor
  · intro member
    obtain ⟨parts, rfl, each⟩ := Language.mem_kstar.mp member
    intro a inside
    obtain ⟨part, inParts, inPart⟩ := List.mem_flatten.mp inside
    obtain ⟨b, holds, rfl⟩ := each part inParts
    rw [List.mem_singleton.mp inPart]
    exact holds
  · intro all
    refine Language.mem_kstar.mpr ⟨w.map fun a => [a], ?_, ?_⟩
    · induction w with
      | nil => rfl
      | cons a w ih => simpa using ih fun b inside => all b (List.mem_cons_of_mem _ inside)
    · intro part member
      obtain ⟨a, inside, rfl⟩ := List.mem_map.mp member
      exact ⟨a, all a inside, rfl⟩

theorem mem_lang_exactly_cls {n : Nat} :
    w ∈ (exactly (cls p) n).lang ↔ w.length = n ∧ ∀ a ∈ w, p a = true := by
  induction n generalizing w with
  | zero =>
    constructor
    · intro empty
      have nothing : w = [] := empty
      subst nothing
      exact ⟨rfl, fun a inside => by cases inside⟩
    · intro both
      exact List.length_eq_zero_iff.mp both.1
  | succ n ih =>
    rw [exactly, mem_lang_seq]
    constructor
    · intro found
      obtain ⟨_, ⟨a, fits, rfl⟩, v, rest, rfl⟩ := found
      obtain ⟨long, all⟩ := ih.mp rest
      refine ⟨by rw [List.length_append, long, List.length_singleton]; omega, ?_⟩
      intro b inside
      rcases List.mem_cons.mp inside with rfl | inside
      · exact fits
      · exact all b inside
    · intro both
      obtain ⟨long, all⟩ := both
      cases w with
      | nil => cases long
      | cons a rest =>
        refine ⟨[a], ⟨a, all a (List.mem_cons_self ..), rfl⟩, rest, ?_, rfl⟩
        exact ih.mpr ⟨Nat.succ.inj long, fun b inside => all b (List.mem_cons_of_mem _ inside)⟩

theorem mem_lang_upTo_cls {n : Nat} : w ∈ (upTo (cls p) n).lang ↔ w.length ≤ n ∧ ∀ a ∈ w, p a = true := by
  induction n generalizing w with
  | zero =>
    rw [upTo, mem_lang_eps, Nat.le_zero, List.length_eq_zero_iff]
    constructor
    · intro empty
      rw [empty]
      exact ⟨rfl, fun a inside => by cases inside⟩
    · exact And.left
  | succ n ih =>
    rw [upTo, mem_lang_alt, mem_lang_seq, mem_lang_eps]
    cases w with
    | nil => simp
    | cons a w =>
      rw [List.length_cons, Nat.add_le_add_iff_right, List.forall_mem_cons]
      constructor
      · intro found
        obtain ⟨_, ⟨b, fits, rfl⟩, v, rest, same⟩ | empty := found
        · cases same
          obtain ⟨short, all⟩ := ih.mp rest
          exact ⟨short, fits, all⟩
        · cases empty
      · intro both
        obtain ⟨short, fits, all⟩ := both
        exact .inl ⟨[a], ⟨a, fits, rfl⟩, w, ih.mpr ⟨short, all⟩, rfl⟩

end Regex
end DevHealth.Lib

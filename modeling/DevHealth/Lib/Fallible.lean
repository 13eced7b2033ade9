import Mathlib.Data.List.Forall2

/-! # Readers that refuse

A check or a lookup that fails with a given error, the rules for what a sequence of them
returns, the rule for the errors it can end in, and what it is to answer with the first
check that fails. -/
set_option autoImplicit false
namespace DevHealth.Lib

variable {ε α β : Type}

def ensure (holds : Bool) (e : ε) : Except ε Unit := if holds then .ok () else .error e

def obtainOr (found : Option α) (e : ε) : Except ε α :=
  match found with
  | some a => .ok a
  | none => .error e

@[simp] theorem bind_ok {x : Except ε α} {f : α → Except ε β} {b : β} :
    (x >>= f) = .ok b ↔ ∃ a, x = .ok a ∧ f a = .ok b := by
  cases x with
  | ok a =>
    constructor
    · intro success
      exact ⟨a, rfl, success⟩
    · rintro ⟨a, same, success⟩
      cases same
      exact success
  | error e =>
    constructor
    · intro success
      cases success
    · rintro ⟨a, absent, -⟩
      cases absent

@[simp] theorem pure_ok {a b : α} : (pure a : Except ε α) = .ok b ↔ a = b :=
  ⟨fun same => Except.ok.inj same, fun same => congrArg Except.ok same⟩

@[simp] theorem ensure_ok {holds : Bool} {e : ε} {u : Unit} : ensure holds e = .ok u ↔ holds = true := by
  cases holds <;> simp [ensure]

@[simp] theorem obtainOr_ok {found : Option α} {e : ε} {a : α} :
    obtainOr found e = .ok a ↔ found = some a := by
  cases found <;> simp [obtainOr]

variable {f : α → Option β} {list : List α} {e : ε}

theorem bind_error {x : Except ε α} {f : α → Except ε β} :
    (x >>= f) = .error e ↔ x = .error e ∨ ∃ a, x = .ok a ∧ f a = .error e := by
  cases x with
  | ok a =>
    constructor
    · intro failed
      exact Or.inr ⟨a, rfl, failed⟩
    · rintro (absent | ⟨a, same, failed⟩)
      · cases absent
      · cases same
        exact failed
  | error e' =>
    constructor
    · intro failed
      cases failed
      exact Or.inl rfl
    · rintro (same | ⟨a, absent, -⟩)
      · cases same
        rfl
      · cases absent

theorem ensure_error {holds : Bool} {e e' : ε} : ensure holds e = .error e' ↔ holds = false ∧ e = e' := by
  cases holds <;> simp [ensure]

theorem obtainOr_error {found : Option α} {e e' : ε} :
    obtainOr found e = .error e' ↔ found = none ∧ e = e' := by
  cases found <;> simp [obtainOr]

def Refuses (P : ε → Prop) (x : Except ε α) : Prop := ∀ e, x = .error e → P e

theorem refuses_bind {P : ε → Prop} {x : Except ε α} {f : α → Except ε β} (first : Refuses P x)
    (rest : ∀ a, x = .ok a → Refuses P (f a)) : Refuses P (x >>= f) := by
  intro e failed
  cases read : x with
  | error e' =>
    rw [read] at failed
    cases failed
    exact first e read
  | ok a =>
    rw [read] at failed
    exact rest a read e failed

theorem refuses_ensure {P : ε → Prop} {holds : Bool} (kind : P e) : Refuses P (ensure holds e) := by
  intro e' failed
  cases holds with
  | true => cases failed
  | false =>
    cases failed
    exact kind

theorem refuses_obtainOr {P : ε → Prop} {found : Option α} (kind : P e) : Refuses P (obtainOr found e) := by
  intro e' failed
  cases found with
  | some a => cases failed
  | none =>
    cases failed
    exact kind

/-- The answer of checks made in order: the error of the first that does not hold. -/
def FirstFailing : List (Prop × ε) → Except ε α → Prop
  | [], answer => ∃ a, answer = .ok a
  | (holds, e) :: later, answer => (¬holds ∧ answer = .error e) ∨ (holds ∧ FirstFailing later answer)

theorem FirstFailing.ensure {holds : Prop} {b : Bool} {later : List (Prop × ε)}
    {rest : Unit → Except ε α} (decides : b = true ↔ holds)
    (after : holds → FirstFailing later (rest ())) :
    FirstFailing ((holds, e) :: later) (ensure b e >>= rest) := by
  cases b with
  | true =>
    have true_of : holds := decides.mp rfl
    exact Or.inr ⟨true_of, after true_of⟩
  | false =>
    left
    exact ⟨fun yes => Bool.false_ne_true (decides.mpr yes), rfl⟩

theorem firstFailing_ok {checks : List (Prop × ε)} {a : α} :
    FirstFailing checks (.ok a) ↔ ∀ c ∈ checks, c.1 := by
  induction checks with
  | nil => simp [FirstFailing]
  | cons c later ih => simp [FirstFailing, ih]

theorem FirstFailing.mem_of_error {checks : List (Prop × ε)} {answer : Except ε α}
    (first : FirstFailing checks answer) (failed : answer = .error e) : ∃ c ∈ checks, c.2 = e := by
  induction checks with
  | nil =>
    obtain ⟨a, ok⟩ := first
    rw [ok] at failed
    cases failed
  | cons c later ih =>
    rcases first with ⟨-, here⟩ | ⟨-, after⟩
    · rw [here] at failed
      cases failed
      exact ⟨c, List.mem_cons_self .., rfl⟩
    · obtain ⟨c', inside, same⟩ := ih after
      exact ⟨c', List.mem_cons_of_mem _ inside, same⟩

theorem FirstFailing.of_append {a b : List (Prop × ε)} {answer : Except ε α}
    (first : FirstFailing (a ++ b) answer) (hold : ∀ c ∈ a, c.1) : FirstFailing b answer := by
  induction a with
  | nil => exact first
  | cons c later ih =>
    rcases first with ⟨fails, -⟩ | ⟨-, after⟩
    · exact absurd (hold c (List.mem_cons_self ..)) fails
    · exact ih after fun c' inside => hold c' (List.mem_cons_of_mem _ inside)

/-- A check that fails decides the answer, whatever comes after it. -/
theorem FirstFailing.unique_of_fails {a b b' : List (Prop × ε)} {x y : Except ε α}
    (first : FirstFailing (a ++ b) x) (second : FirstFailing (a ++ b') y)
    (fails : ¬∀ c ∈ a, c.1) : ∃ e, x = .error e ∧ y = .error e := by
  induction a with
  | nil => exact absurd nofun fails
  | cons c later ih =>
    rcases first with ⟨no, here⟩ | ⟨yes, after⟩
    · rcases second with ⟨-, there⟩ | ⟨yes, -⟩
      · exact ⟨c.2, here, there⟩
      · exact absurd yes no
    · rcases second with ⟨no, -⟩ | ⟨-, after'⟩
      · exact absurd yes no
      · apply ih after after'
        intro hold
        apply fails
        intro c' inside
        rcases List.mem_cons.mp inside with rfl | inside
        · exact yes
        · exact hold c' inside

theorem mapM_forall {out : List β} (read : list.mapM f = some out) :
    List.Forall₂ (fun a b => f a = some b) list out := by
  induction list generalizing out with
  | nil =>
    cases read
    exact .nil
  | cons a list ih =>
    simp only [List.mapM_cons, Option.bind_eq_bind, Option.bind_eq_some_iff, Option.pure_def,
      Option.some.injEq] at read
    obtain ⟨b, first, rest, tail, rfl⟩ := read
    exact .cons first (ih tail)

theorem mapM_some {out : List β} (read : list.mapM f = some out) : list.map f = out.map some := by
  have each := mapM_forall read
  clear read
  induction each with
  | nil => rfl
  | cons first _ ih => rw [List.map_cons, List.map_cons, first, ih]

theorem mapM_total {g : α → β} (each : ∀ a ∈ list, f a = some (g a)) : list.mapM f = some (list.map g) := by
  induction list with
  | nil => rfl
  | cons a list ih =>
    rw [List.forall_mem_cons] at each
    rw [List.mapM_cons, each.1, ih each.2]
    rfl

theorem mapM_leftInverse {g : β → α} (inverse : ∀ a b, f a = some b → g b = a) {out : List β}
    (read : list.mapM f = some out) : list = out.map g := by
  have each := mapM_forall read
  clear read
  induction each with
  | nil => rfl
  | cons first _ ih => rw [List.map_cons, inverse _ _ first, ← ih]

theorem mapM_perm {list list' : List α} (perm : list.Perm list') :
    ∀ {out : List β}, list.mapM f = some out → ∃ out', list'.mapM f = some out' ∧ out.Perm out' := by
  induction perm with
  | nil =>
    intro out read
    exact ⟨out, read, .refl _⟩
  | cons a _ ih =>
    intro out read
    simp only [List.mapM_cons, Option.bind_eq_bind, Option.bind_eq_some_iff, Option.pure_def,
      Option.some.injEq] at read
    obtain ⟨b, first, rest, tail, rfl⟩ := read
    obtain ⟨rest', read', perm⟩ := ih tail
    exact ⟨b :: rest', by simp [first, read'], perm.cons b⟩
  | swap a a' list =>
    intro out read
    simp only [List.mapM_cons, Option.bind_eq_bind, Option.bind_eq_some_iff, Option.pure_def,
      Option.some.injEq] at read
    obtain ⟨b, first, _, ⟨b', second, rest, tail, rfl⟩, rfl⟩ := read
    exact ⟨b' :: b :: rest, by simp [first, second, tail], .swap ..⟩
  | trans _ _ ih ih' =>
    intro out read
    obtain ⟨out', read', perm⟩ := ih read
    obtain ⟨out'', read'', perm'⟩ := ih' read'
    exact ⟨out'', read'', perm.trans perm'⟩

end DevHealth.Lib

import DevHealth.Lib.Run
import Mathlib.Logic.Function.Basic

/-! # Concurrent calls on one shared state

Any number of calls share a state.  A call begins with its arguments and then moves by
sections, each of which runs undisturbed; between two sections of a call any other call
may move.  The input of a section is what the environment supplies for it: the clock, an
answer, an ended wait.  Every event is recorded with the call that made it.

`RunWhere.calls` is the rule for invariants: a fact about the shared state and, for every
call, a fact about where it stands.  The mover keeps both, and leaves the facts of the
calls beside it standing. -/
set_option autoImplicit false
namespace DevHealth.Lib

abbrev CallId := Nat

structure Record (ε : Type) where
  call : CallId
  event : ε
  deriving DecidableEq, Repr

structure Calls (σ π : Type) where
  shared : σ
  pcs : CallId → Option π

inductive Move (ι α : Type) where
  | start (call : CallId) (args : ι)
  | advance (call : CallId) (input : α)
  deriving DecidableEq, Repr

structure Behaviour (σ π ι α ε : Type) where
  begin : ι → π × ε
  advance : CallId → σ → π → α → Option (σ × π × ε)

variable {σ π ι α ε : Type}

def Calls.idle (start : σ) : Calls σ π := ⟨start, fun _ => none⟩

def Calls.place (s : Calls σ π) (shared : σ) (call : CallId) (pc : π) : Calls σ π :=
  ⟨shared, Function.update s.pcs call (some pc)⟩

@[simp] theorem Calls.place_same (s : Calls σ π) (shared : σ) (call : CallId) (pc : π) :
    (s.place shared call pc).pcs call = some pc := by
  simp [Calls.place]

theorem Calls.place_other (s : Calls σ π) (shared : σ) {call other : CallId} (pc : π)
    (beside : other ≠ call) : (s.place shared call pc).pcs other = s.pcs other := by
  simp [Calls.place, beside]

namespace Behaviour

def step (b : Behaviour σ π ι α ε) (s : Calls σ π) : Move ι α → Option (Calls σ π × Record ε)
  | .start call args =>
    match s.pcs call with
    | some _ => none
    | none => some (s.place s.shared call (b.begin args).1, ⟨call, (b.begin args).2⟩)
  | .advance call input =>
    match s.pcs call with
    | none => none
    | some pc => (b.advance call s.shared pc input).map fun (shared, pc', e) =>
      (s.place shared call pc', ⟨call, e⟩)

/-- What a step does: a call that was not there begins, or one that was moves. -/
inductive Stepped (b : Behaviour σ π ι α ε) (s : Calls σ π) : Calls σ π → Record ε → Prop
  | began (call : CallId) (args : ι) (fresh : s.pcs call = none) :
      Stepped b s (s.place s.shared call (b.begin args).1) ⟨call, (b.begin args).2⟩
  | moved (call : CallId) (pc pc' : π) (input : α) (shared : σ) (e : ε)
      (stood : s.pcs call = some pc)
      (moves : b.advance call s.shared pc input = some (shared, pc', e)) :
      Stepped b s (s.place shared call pc') ⟨call, e⟩

variable {b : Behaviour σ π ι α ε} {s t : Calls σ π} {m : Move ι α} {r : Record ε}

theorem stepped (success : b.step s m = some (t, r)) : b.Stepped s t r := by
  cases m with
  | start call args =>
    simp only [step] at success
    split at success
    · cases success
    · rename_i fresh
      cases success
      exact .began call args fresh
  | advance call input =>
    simp only [step] at success
    split at success
    · cases success
    · rename_i pc stood
      obtain ⟨⟨shared, pc', e⟩, moves, same⟩ := Option.map_eq_some_iff.mp success
      cases same
      exact .moved call pc pc' input shared e stood moves

theorem moved_of_step {call : CallId} {e : ε} (success : b.step s m = some (t, ⟨call, e⟩))
    (later : ∀ args, (b.begin args).2 ≠ e) :
    ∃ pc pc' input, s.pcs call = some pc ∧ t.pcs call = some pc' ∧
      b.advance call s.shared pc input = some (t.shared, pc', e) := by
  have happened := stepped success
  generalize whole : (⟨call, e⟩ : Record ε) = r at happened
  cases happened with
  | began call' args fresh => exact absurd (congrArg Record.event whole).symm (later args)
  | moved call' pc pc' input shared e' stood moves =>
    simp only [Record.mk.injEq] at whole
    obtain ⟨rfl, rfl⟩ := whole
    exact ⟨pc, pc', input, stood, s.place_same .., moves⟩

theorem Stepped.beside (happened : b.Stepped s t r) {other : CallId} (beside : other ≠ r.call) :
    t.pcs other = s.pcs other := by
  cases happened with
  | began call args fresh
  | moved call pc pc' input shared e stood moves => exact s.place_other _ _ beside

end Behaviour

variable {b : Behaviour σ π ι α ε} {cond : Calls σ π → Record ε → Prop} {start : σ}
  {es : List (Record ε)} {s : Calls σ π}

theorem Run.called (run : Run b.step (Calls.idle start) es s) {call : CallId} (fresh : s.pcs call = none) (args : ι) {pc : π}
    {e : ε} (begins : b.begin args = (pc, e)) : Run b.step (Calls.idle start) (es ++ [⟨call, e⟩]) (s.place s.shared call pc) := by
  have success : b.step s (.start call args) = some (s.place s.shared call pc, ⟨call, e⟩) := by
    simp [Behaviour.step, fresh, begins]
  exact run.snoc success trivial

theorem Run.moved {shared shared' : σ} {call : CallId} {pc pc' : π} {e : ε}
    (run : Run b.step (Calls.idle start) es (s.place shared call pc)) (input : α)
    (moves : b.advance call shared pc input = some (shared', pc', e)) :
    Run b.step (Calls.idle start) (es ++ [⟨call, e⟩]) (s.place shared' call pc') := by
  have success : b.step (s.place shared call pc) (.advance call input) =
      some (s.place shared' call pc', ⟨call, e⟩) := by
    simp [Behaviour.step, Calls.place, moves]
  exact run.snoc success trivial

theorem RunWhere.silent (run : RunWhere b.step cond (Calls.idle start) es s) {call : CallId}
    (fresh : s.pcs call = none) : ∀ r ∈ es, r.call ≠ call := by
  induction run with
  | refl => simp
  | @snoc es s t m r before success meets ih =>
    intro r' inside same
    have happened := Behaviour.stepped success
    rcases List.mem_append.mp inside with old | new
    · by_cases mover : call = r.call
      · cases happened with
        | began call' args unused => exact ih (mover ▸ unused) r' old same
        | moved call' pc pc' input shared e stood moves =>
          subst mover
          simp at fresh
      · rw [happened.beside mover] at fresh
        exact ih fresh r' old same
    · obtain rfl := List.mem_singleton.mp new
      subst same
      cases happened <;> simp at fresh

theorem RunWhere.recorded (run : RunWhere b.step cond (Calls.idle start) es s) {call : CallId}
    {pc : π} (stood : s.pcs call = some pc) : ∃ r ∈ es, r.call = call := by
  induction run generalizing pc with
  | refl => cases stood
  | @snoc es s t m r before success meets ih =>
    by_cases mover : call = r.call
    · exact ⟨r, by simp, mover.symm⟩
    · rw [(Behaviour.stepped success).beside mover] at stood
      obtain ⟨r', inside, same⟩ := ih stood
      exact ⟨r', List.mem_append_left _ inside, same⟩

/-! ## Work in progress -/

/-- The call has started something and has not ended it since. -/
def Working (starts ends : ε → Prop) (es : List (Record ε)) (call : CallId) : Prop :=
  ∃ before e between, es = before ++ ⟨call, e⟩ :: between ∧ starts e ∧
    ∀ e', ⟨call, e'⟩ ∈ between → ¬ends e'

variable {starts ends : ε → Prop} {call other : CallId} {e e' : ε}

theorem not_working_nil : ¬Working starts ends [] call := by
  rintro ⟨before, e, between, split, -⟩
  simp at split

theorem working_snoc (going : Working starts ends (es ++ [⟨other, e⟩]) call) :
    (call = other ∧ starts e) ∨ (Working starts ends es call ∧ (call = other → ¬ends e)) := by
  obtain ⟨before, e', between, split, started, unended⟩ := going
  rcases snoc_eq_append_cons.mp split with ⟨-, -, last⟩ | ⟨rest, rfl, rfl⟩
  · cases last
    exact Or.inl ⟨rfl, started⟩
  · refine Or.inr ⟨⟨before, e', rest, rfl, started, ?_⟩, ?_⟩
    · intro e'' inside
      exact unended e'' (List.mem_append_left _ inside)
    · rintro rfl
      exact unended e (by simp)

theorem Working.mem (going : Working starts ends es call) : ∃ e, ⟨call, e⟩ ∈ es ∧ starts e := by
  obtain ⟨before, e, between, rfl, started, -⟩ := going
  exact ⟨e, by simp, started⟩

theorem ended_or_working (before between : List (Record ε)) (started : starts e) :
    (∃ e', ⟨call, e'⟩ ∈ between ∧ ends e') ∨ Working starts ends (before ++ ⟨call, e⟩ :: between) call := by
  by_cases ended : ∃ e', ⟨call, e'⟩ ∈ between ∧ ends e'
  · exact Or.inl ended
  · refine Or.inr ⟨before, e, between, rfl, started, ?_⟩
    intro e' inside finished
    exact ended ⟨e', inside, finished⟩

/-! ## The rule -/

/-- The shared state and every call that has begun satisfy their facts. -/
structure Standing (Common : List (Record ε) → σ → Prop)
    (Own : List (Record ε) → σ → CallId → π → Prop) (es : List (Record ε)) (s : Calls σ π) :
    Prop where
  common : Common es s.shared
  own : ∀ call pc, s.pcs call = some pc → Own es s.shared call pc

variable {Common : List (Record ε) → σ → Prop} {Own : List (Record ε) → σ → CallId → π → Prop}

/-- The rule of invariants for concurrent calls. -/
theorem RunWhere.calls (initial : Common [] start)
    (begun : ∀ es s call args, RunWhere b.step cond (Calls.idle start) es s →
      Standing Common Own es s → (∀ r ∈ es, r.call ≠ call) →
      Common (es ++ [⟨call, (b.begin args).2⟩]) s.shared ∧
        Own (es ++ [⟨call, (b.begin args).2⟩]) s.shared call (b.begin args).1)
    (advanced : ∀ es s call pc input shared pc' e, RunWhere b.step cond (Calls.idle start) es s →
      Standing Common Own es s → s.pcs call = some pc →
      b.advance call s.shared pc input = some (shared, pc', e) → cond s ⟨call, e⟩ →
      Common (es ++ [⟨call, e⟩]) shared ∧ Own (es ++ [⟨call, e⟩]) shared call pc')
    (beside : ∀ es s t r other pc, RunWhere b.step cond (Calls.idle start) es s →
      Standing Common Own es s → b.Stepped s t r → cond s r → other ≠ r.call →
      s.pcs other = some pc → Own (es ++ [r]) t.shared other pc)
    (run : RunWhere b.step cond (Calls.idle start) es s) : Standing Common Own es s := by
  refine RunWhere.invariant ?_ ?_ run
  · refine ⟨initial, ?_⟩
    intro call pc stood
    cases stood
  · intro es s m t r before held success meets
    have happened := Behaviour.stepped success
    have others : ∀ other pc, other ≠ r.call → t.pcs other = some pc → Own (es ++ [r]) t.shared other pc := by
      intro other pc away stood
      rw [happened.beside away] at stood
      exact beside es s t r other pc before held happened meets away stood
    cases happened with
    | began call args fresh =>
      obtain ⟨common, own⟩ := begun es s call args before held (before.silent fresh)
      refine ⟨common, ?_⟩
      intro other pc stood
      by_cases mover : other = call
      · subst mover
        rw [Calls.place_same] at stood
        cases stood
        exact own
      · exact others other pc mover stood
    | moved call pc pc' input shared e stood moves =>
      obtain ⟨common, own⟩ := advanced es s call pc input shared pc' e before held stood moves meets
      refine ⟨common, ?_⟩
      intro other pc'' stands
      by_cases mover : other = call
      · subst mover
        rw [Calls.place_same] at stands
        cases stands
        exact own
      · exact others other pc'' mover stands

end DevHealth.Lib

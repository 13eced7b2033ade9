import Mathlib.Data.List.Induction

/-! # Runs of a labelled transition system

A system is a partial step function: a state and an action (the scheduler's
choice together with everything the environment supplies) give the next state
and the event an observer records.  A run is the list of recorded events, oldest
first.  `RunWhere` also asks a condition of every step, on the state before it
and its event; a plain run asks nothing.  The rules below carry an invariant of
the history along a run. -/
set_option autoImplicit false
namespace DevHealth.Lib

universe u v w
variable {σ : Type u} {α : Type v} {ε : Type w}

inductive RunWhere (step : σ → α → Option (σ × ε)) (cond : σ → ε → Prop) (start : σ) :
    List ε → σ → Prop
  | refl : RunWhere step cond start [] start
  | snoc {events : List ε} {state next : σ} {action : α} {event : ε} :
      RunWhere step cond start events state → step state action = some (next, event) →
      cond state event → RunWhere step cond start (events ++ [event]) next

/-- Every finite run, with no condition on its steps. -/
def Run (step : σ → α → Option (σ × ε)) (start : σ) (events : List ε) (state : σ) : Prop :=
  RunWhere step (fun _ _ => True) start events state

variable {step : σ → α → Option (σ × ε)} {cond : σ → ε → Prop} {start state : σ}
  {events : List ε}

theorem RunWhere.weaken {other : σ → ε → Prop} (imp : ∀ s e, cond s e → other s e)
    (run : RunWhere step cond start events state) : RunWhere step other start events state := by
  induction run with
  | refl => exact .refl
  | snoc _ stepped meets ih => exact .snoc ih stepped (imp _ _ meets)

theorem RunWhere.run (run : RunWhere step cond start events state) : Run step start events state :=
  run.weaken fun _ _ _ => trivial

theorem RunWhere.strengthen {other : σ → ε → Prop}
    (imp : ∀ before s e after, events = before ++ e :: after → RunWhere step cond start before s →
      cond s e → other s e)
    (run : RunWhere step cond start events state) : RunWhere step other start events state := by
  induction run with
  | refl => exact .refl
  | @snoc es s t a e before stepped meets ih =>
    have earlier : RunWhere step other start es s := by
      apply ih
      intro before' s' e' after split
      exact imp before' s' e' (after ++ [e]) (by rw [split]; simp)
    exact .snoc earlier stepped (imp es s e [] rfl before meets)

/-- The rule of invariants: what the start satisfies and every permitted step
preserves holds at the end of the run. -/
theorem RunWhere.invariant {inv : List ε → σ → Prop} (initial : inv [] start)
    (preserved : ∀ es s a t e, RunWhere step cond start es s → inv es s →
      step s a = some (t, e) → cond s e → inv (es ++ [e]) t)
    (run : RunWhere step cond start events state) : inv events state := by
  induction run with
  | refl => exact initial
  | snoc before stepped meets ih => exact preserved _ _ _ _ _ before ih stepped meets

theorem Run.invariant {inv : List ε → σ → Prop} (initial : inv [] start)
    (preserved : ∀ es s a t e, inv es s → step s a = some (t, e) → inv (es ++ [e]) t)
    (run : Run step start events state) : inv events state :=
  RunWhere.invariant initial (fun es s a t e _ held stepped _ => preserved es s a t e held stepped) run

theorem RunWhere.last {event : ε} (run : RunWhere step cond start (events ++ [event]) state) :
    ∃ s a, RunWhere step cond start events s ∧ step s a = some (state, event) ∧ cond s event := by
  generalize whole : events ++ [event] = es at run
  cases run with
  | refl => simp at whole
  | @snoc es s t a e earlier stepped meets =>
    obtain ⟨rfl, rfl⟩ := List.append_singleton_inj.mp whole
    exact ⟨s, a, earlier, stepped, meets⟩

/-- A run cut at a recorded event: the run up to it, and the step that recorded it. -/
theorem RunWhere.split {before after : List ε} {event : ε}
    (run : RunWhere step cond start (before ++ event :: after) state) :
    ∃ s a t, RunWhere step cond start before s ∧ step s a = some (t, event) ∧ cond s event ∧
      RunWhere step cond start (before ++ [event]) t := by
  induction after using List.reverseRecOn generalizing state with
  | nil =>
    obtain ⟨s, a, earlier, stepped, meets⟩ := run.last
    exact ⟨s, a, state, earlier, stepped, meets, .snoc earlier stepped meets⟩
  | append_singleton after last ih =>
    rw [← List.cons_append, ← List.append_assoc] at run
    obtain ⟨s, a, earlier, -, -⟩ := run.last
    exact ih earlier

/-- Run a list of actions and collect the events, as long as every step passes the
check. -/
def exec (step : σ → α → Option (σ × ε)) (check : σ → ε → Bool) :
    σ → List α → Option (σ × List ε)
  | s, [] => some (s, [])
  | s, a :: rest =>
    match step s a with
    | none => none
    | some (t, e) =>
      if check s e then (exec step check t rest).map fun (u, es) => (u, e :: es) else none

theorem runWhere_of_exec_from {check : σ → ε → Bool}
    (checked : ∀ s e, check s e = true → cond s e) (actions : List α) :
    ∀ (s t : σ) (before es : List ε), RunWhere step cond start before s →
      exec step check s actions = some (t, es) → RunWhere step cond start (before ++ es) t := by
  induction actions with
  | nil =>
    intro s t before es run success
    cases success
    simpa using run
  | cons a actions ih =>
    intro s t before es run success
    simp only [exec] at success
    cases stepped : step s a with
    | none => simp [stepped] at success
    | some pair =>
      obtain ⟨mid, e⟩ := pair
      rw [stepped] at success
      by_cases ok : check s e = true
      · simp only [ok, if_true] at success
        obtain ⟨⟨u, tail⟩, rest, result⟩ := Option.map_eq_some_iff.mp success
        cases result
        have longer := ih mid u (before ++ [e]) tail (.snoc run stepped (checked s e ok)) rest
        simpa using longer
      · simp [ok] at success

theorem runWhere_of_exec {check : σ → ε → Bool} (checked : ∀ s e, check s e = true → cond s e)
    {actions : List α} (success : exec step check start actions = some (state, events)) :
    RunWhere step cond start events state := by
  simpa using runWhere_of_exec_from checked actions start state [] events .refl success

theorem exists_run (actions : List α)
    (success : (exec step (fun _ _ => true) start actions).map Prod.snd = some events) :
    ∃ s, Run step start events s := by
  obtain ⟨⟨s, es⟩, executed, rfl⟩ := Option.map_eq_some_iff.mp success
  exact ⟨s, runWhere_of_exec (fun _ _ _ => trivial) executed⟩

/-! ## Positions in a history -/

theorem snoc_eq_append_cons {es before after : List ε} {e x : ε} : es ++ [e] = before ++ x :: after ↔
      (after = [] ∧ es = before ∧ e = x) ∨ ∃ rest, after = rest ++ [e] ∧ es = before ++ x :: rest := by
  induction after using List.reverseRecOn with
  | nil =>
    constructor
    · intro whole
      obtain ⟨same, last⟩ := List.append_singleton_inj.mp whole
      exact Or.inl ⟨rfl, same, last⟩
    · rintro (⟨_, rfl, rfl⟩ | ⟨rest, blank, _⟩)
      · rfl
      · simp at blank
  | append_singleton rest last _ =>
    constructor
    · intro whole
      have regroup : es ++ [e] = (before ++ x :: rest) ++ [last] := by simpa using whole
      obtain ⟨same, rfl⟩ := List.append_singleton_inj.mp regroup
      exact Or.inr ⟨rest, rfl, same⟩
    · rintro (⟨blank, _⟩ | ⟨rest', split, rfl⟩)
      · simp at blank
      · obtain ⟨rfl, rfl⟩ := List.append_singleton_inj.mp split
        simp

end DevHealth.Lib

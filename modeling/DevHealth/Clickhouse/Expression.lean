import DevHealth.Clickhouse.Value

/-! # The value of an expression over a row

An expression is read from its text by the operator precedence of the grammar and
evaluated with NULL as the third truth value.  `Denotes` says that a text is an
expression of a level with a value; its rules follow the grammar, so the value of a text
that is put together from parts is put together from theirs. -/
set_option autoImplicit false
namespace DevHealth.Clickhouse

open Go Lib.Sql

/-- What an expression can name: the columns of a row, the bound parameters and the
strings a subquery selects.  A name that is not there is an error of the statement. -/
structure Env (κ : Type) where
  engine : Engine
  column : κ → Option Value
  param : String → Option Value
  subquery : String → Option (List Bytes)

variable {κ : Type}

abbrev Text (κ : Type) := List (Token κ Func)

abbrev Meaning : Level → Type
  | .args => List Value
  | .disj | .conj | .neg | .comp | .prim => Value

/-- A connective of two conditions; both must be conditions. -/
def connect (f : Truth → Truth → Truth) (x y : Option Value) : Option Value := do
  let s ← x.bind Value.truth
  let t ← y.bind Value.truth
  some (.ofTruth (f s t))

def eval (env : Env κ) : {l : Level} → Expr κ Func l → Option (Meaning l)
  | _, .column c => env.column c
  | _, .param name => env.param name
  | _, .str s => some (.str s)
  | _, .int n => some (.int n)
  | _, .subquery select => (env.subquery select).map Value.array
  | _, .paren e => eval (l := .disj) env e
  | _, .array items => do
      let values ← eval env items
      let strings ← values.mapM asStr
      some (.array strings)
  | _, .call f items => do
      let values ← eval env items
      call env.engine f values
  | _, .value e => eval (l := .prim) env e
  | _, .cmp op a b => do
      let x ← eval env a
      let y ← eval env b
      (compare op x y).map .ofTruth
  | _, .isNull a => (eval env a).map fun x => .ofTruth (.ofBool (decide (x = .null)))
  | _, .isNotNull a => (eval env a).map fun x => .ofTruth (.ofBool (decide (x ≠ .null)))
  | _, .inSet a b => do
      let x ← eval env a
      let y ← eval env b
      (member x y).map .ofTruth
  | _, .plain e => eval (l := .comp) env e
  | _, .not e => do
      let x ← eval env e
      x.truth.map fun t => .ofTruth t.not
  | _, .each e => eval (l := .neg) env e
  | _, .and a b => connect Truth.and (eval env a) (eval env b)
  | _, .single e => eval (l := .conj) env e
  | _, .or a b => connect Truth.or (eval env a) (eval env b)
  | _, .none => some []
  | _, .last e => (eval env e).map fun x => [x]
  | _, .more e rest => do
      let x ← eval env e
      let items ← eval env rest
      some (x :: items)

/-- The value of a text; a text that is no expression, or an error in it, has none. -/
def value (env : Env κ) (text : Text κ) : Option Value := (read text).bind (eval env)

/-- A row passes a condition only when it is true: neither false nor NULL. -/
def holds (env : Env κ) (condition : Text κ) : Bool :=
  (value env condition).bind Value.truth == some .yes

theorem connect_assoc {f : Truth → Truth → Truth}
    (assoc : ∀ a b c, f (f a b) c = f a (f b c)) (x y z : Option Value) :
    connect f (connect f x y) z = connect f x (connect f y z) := by
  simp only [connect]
  cases x.bind Value.truth with
  | none => rfl
  | some s =>
    cases y.bind Value.truth with
    | none => rfl
    | some t => cases z.bind Value.truth <;> simp [assoc]

theorem connect_ofTruth (f : Truth → Truth → Truth) (s t : Truth) :
    connect f (some (.ofTruth s)) (some (.ofTruth t)) = some (.ofTruth (f s t)) := by
  simp [connect]

theorem eval_conjoin (env : Env κ) : ∀ a b : Expr κ Func .conj,
      eval env (a.conjoin b) = connect Truth.and (eval env a) (eval env b)
  | .each a, b => by simp only [Expr.conjoin, eval]
  | .and a rest, b => by
      simp only [Expr.conjoin, eval, eval_conjoin env rest b]
      exact (connect_assoc Truth.and_assoc ..).symm

theorem eval_disjoin (env : Env κ) : ∀ a b : Expr κ Func .disj,
      eval env (a.disjoin b) = connect Truth.or (eval env a) (eval env b)
  | .single a, b => by simp only [Expr.disjoin, eval]
  | .or a rest, b => by
      simp only [Expr.disjoin, eval, eval_disjoin env rest b]
      exact (connect_assoc Truth.or_assoc ..).symm

/-! ## What a value depends on -/

structure SameRow (env env' : Env κ) : Prop where
  engine : env.engine = env'.engine
  column : env.column = env'.column
  subquery : env.subquery = env'.subquery

theorem eval_congr {env env' : Env κ} (same : SameRow env env') {l : Level} (e : Expr κ Func l) :
    (∀ name, Token.param name ∈ e.text → env.param name = env'.param name) → eval env e = eval env' e := by
  induction e with
  | column c => intro _; simp only [eval, same.column]
  | param name => intro bound; exact bound name (by simp [Expr.text])
  | str s => intro _; rfl
  | int n => intro _; rfl
  | subquery select => intro _; simp only [eval, same.subquery]
  | none => intro _; rfl
  | array items ih =>
    intro bound
    simp only [eval, ih fun name inside => bound name (by simp [Expr.text, inside])]
  | call f items ih =>
    intro bound
    simp only [eval, ih fun name inside => bound name (by simp [Expr.text, inside]), same.engine]
  | paren e ih | not e ih | isNull e ih | isNotNull e ih | last e ih =>
    intro bound
    simp only [eval, ih fun name inside => bound name (by simp [Expr.text, inside])]
  | value e ih | plain e ih | each e ih | single e ih =>
    intro bound
    exact ih bound
  | cmp op a b first second
  | inSet a b first second | and a b first second | or a b first second | more a b first second =>
    intro bound
    simp only [eval, first fun name inside => bound name (by simp [Expr.text, inside]),
      second fun name inside => bound name (by simp [Expr.text, inside])]

/-! ## Conjunctions

A conjunction is true when both sides are, also where one of them is an error. -/

/-- The text is an expression of the level. -/
def Readable (l : Level) (text : Text κ) : Prop := ∃ e : Expr κ Func l, e.text = text

theorem Readable.disj_of_conj {x : Text κ} (readable : Readable .conj x) : Readable .disj x := by
  obtain ⟨e, rfl⟩ := readable
  exact ⟨.single e, rfl⟩

theorem value_congr {env env' : Env κ} {x : Text κ} (same : SameRow env env') (readable : Readable .disj x)
    (bound : ∀ name, Token.param name ∈ x → env.param name = env'.param name) :
    value env x = value env' x := by
  obtain ⟨e, rfl⟩ := readable
  rw [value, value, read_text]
  exact eval_congr same e bound

theorem holds_text (env : Env κ) (e : Expr κ Func .conj) :
    holds env e.text = ((eval env e).bind Value.truth == some .yes) := by
  have whole : e.text = (Expr.single e).text := rfl
  rw [holds, value, whole, read_text]
  rfl

theorem value_prim (env : Env κ) (e : Expr κ Func .prim) : value env e.text = eval env e := by
  have whole : e.text = (Expr.single (.each (.plain (.value e)))).text := rfl
  rw [value, whole, read_text]
  rfl

theorem holds_inSet {env : Env κ} {a b : Expr κ Func .prim} {item : Bytes}
    (operand : eval env a = some (.str item)) :
    holds env (a.text ++ .inSet :: b.text) = true ↔
      ∃ items, eval env b = some (.array items) ∧ item ∈ items := by
  have whole : a.text ++ .inSet :: b.text = (Expr.each (.plain (.inSet a b))).text := rfl
  rw [whole, holds_text]
  simp only [eval, operand]
  cases eval env b with
  | none => simp
  | some v => cases v <;> simp [member]

theorem Readable.and {x y : Text κ} (first : Readable .conj x) (second : Readable .conj y) :
    Readable .conj (x ++ .and :: y) := by
  obtain ⟨e, rfl⟩ := first
  obtain ⟨d, rfl⟩ := second
  exact ⟨e.conjoin d, Expr.text_conjoin e d⟩

theorem holds_and (env : Env κ) {x y : Text κ} (first : Readable .conj x) (second : Readable .conj y) :
    holds env (x ++ .and :: y) = (holds env x && holds env y) := by
  obtain ⟨e, rfl⟩ := first
  obtain ⟨d, rfl⟩ := second
  rw [← Expr.text_conjoin, holds_text, holds_text, holds_text, eval_conjoin, connect]
  cases (eval env e).bind Value.truth with
  | none => rfl
  | some s =>
    cases (eval env d).bind Value.truth with
    | none => cases s <;> rfl
    | some t => cases s <;> cases t <;> rfl

/-- The text is an expression of the level, with the value. -/
def Denotes (env : Env κ) (l : Level) (text : Text κ) (v : Meaning l) : Prop :=
  ∃ e : Expr κ Func l, e.text = text ∧ eval env e = some v

namespace Denotes

variable {env : Env κ} {x y z : Text κ} {a b c v : Value} {s t : Truth}

theorem readable {l : Level} {v : Meaning l} (reads : Denotes env l x v) : Readable l x := by
  obtain ⟨e, same, -⟩ := reads
  exact ⟨e, same⟩

theorem value_eq (reads : Denotes env .disj x v) : value env x = some v := by
  obtain ⟨e, rfl, evaluates⟩ := reads
  rw [value, read_text, Option.bind_some, evaluates]

theorem holds_iff (reads : Denotes env .disj x (.ofTruth t)) : holds env x = true ↔ t = .yes := by
  rw [holds, reads.value_eq]
  simp

/-! ### Operands -/

theorem column (c : κ) (found : env.column c = some v) : Denotes env .prim [.column c] v :=
  ⟨.column c, rfl, found⟩

theorem param (name : String) (bound : env.param name = some v) : Denotes env .prim [.param name] v :=
  ⟨.param name, rfl, bound⟩

theorem str (s : Bytes) : Denotes env .prim [.str s] (.str s) := ⟨.str s, rfl, rfl⟩

theorem int (n : Nat) : Denotes env .prim [.int n] (.int n) := ⟨.int n, rfl, rfl⟩

theorem disj_of_conj (reads : Denotes env .conj x v) : Denotes env .disj x v := by
  obtain ⟨e, rfl, evaluates⟩ := reads
  exact ⟨.single e, rfl, evaluates⟩

theorem conj_of_prim (reads : Denotes env .prim x v) : Denotes env .conj x v := by
  obtain ⟨e, rfl, evaluates⟩ := reads
  exact ⟨.each (.plain (.value e)), rfl, evaluates⟩

theorem disj_of_prim (reads : Denotes env .prim x v) : Denotes env .disj x v :=
  reads.conj_of_prim.disj_of_conj

theorem paren (reads : Denotes env .disj x v) : Denotes env .prim (.lparen :: (x ++ [.rparen])) v := by
  obtain ⟨e, rfl, evaluates⟩ := reads
  exact ⟨.paren e, rfl, evaluates⟩

theorem emptyArray : Denotes env .prim [.lbracket, .rbracket] (.array []) := ⟨.array .none, rfl, rfl⟩

theorem singleton {item : Bytes} (reads : Denotes env .prim x (.str item)) :
    Denotes env .prim (.lbracket :: (x ++ [.rbracket])) (.array [item]) := by
  obtain ⟨e, rfl, evaluates⟩ := reads.disj_of_prim
  exact ⟨.array (.last e), rfl, by simp [eval, evaluates, asStr]⟩

theorem call₁ (f : Func) (reads : Denotes env .disj x a) (returns : call env.engine f [a] = some v) :
    Denotes env .prim (.func f :: .lparen :: (x ++ [.rparen])) v := by
  obtain ⟨e, rfl, evaluates⟩ := reads
  exact ⟨.call f (.last e), rfl, by simp [eval, evaluates, returns]⟩

theorem call₂ (f : Func) (first : Denotes env .disj x a) (second : Denotes env .disj y b)
    (returns : call env.engine f [a, b] = some v) :
    Denotes env .prim (.func f :: .lparen :: (x ++ .comma :: (y ++ [.rparen]))) v := by
  obtain ⟨e, rfl, evaluates⟩ := first
  obtain ⟨d, rfl, evaluates'⟩ := second
  exact ⟨.call f (.more e (.last d)), by simp [Expr.text], by simp [eval, evaluates, evaluates', returns]⟩

theorem call₃ (f : Func) (first : Denotes env .disj x a) (second : Denotes env .disj y b)
    (third : Denotes env .disj z c) (returns : call env.engine f [a, b, c] = some v) :
    Denotes env .prim (.func f :: .lparen :: (x ++ .comma :: (y ++ .comma :: (z ++ [.rparen])))) v := by
  obtain ⟨e, rfl, evaluates⟩ := first
  obtain ⟨d, rfl, evaluates'⟩ := second
  obtain ⟨g, rfl, evaluates''⟩ := third
  exact ⟨.call f (.more e (.more d (.last g))), by simp [Expr.text],
    by simp [eval, evaluates, evaluates', evaluates'', returns]⟩

/-! ### Conditions -/

theorem cmp (op : Cmp) (first : Denotes env .prim x a) (second : Denotes env .prim y b)
    (compares : compare op a b = some t) :
    Denotes env .conj (x ++ .cmp op :: y) (.ofTruth t) := by
  obtain ⟨e, rfl, evaluates⟩ := first
  obtain ⟨d, rfl, evaluates'⟩ := second
  exact ⟨.each (.plain (.cmp op e d)), rfl, by simp [eval, evaluates, evaluates', compares]⟩

theorem isNull (reads : Denotes env .prim x a) :
    Denotes env .conj (x ++ [.isNull]) (.ofTruth (.ofBool (decide (a = .null)))) := by
  obtain ⟨e, rfl, evaluates⟩ := reads
  exact ⟨.each (.plain (.isNull e)), rfl, by simp [eval, evaluates]⟩

theorem isNotNull (reads : Denotes env .prim x a) :
    Denotes env .conj (x ++ [.isNotNull]) (.ofTruth (.ofBool (decide (a ≠ .null)))) := by
  obtain ⟨e, rfl, evaluates⟩ := reads
  exact ⟨.each (.plain (.isNotNull e)), rfl, by simp [eval, evaluates]⟩

theorem inSet (first : Denotes env .prim x a) (second : Denotes env .prim y b)
    (decides : member a b = some t) : Denotes env .conj (x ++ .inSet :: y) (.ofTruth t) := by
  obtain ⟨e, rfl, evaluates⟩ := first
  obtain ⟨d, rfl, evaluates'⟩ := second
  exact ⟨.each (.plain (.inSet e d)), rfl, by simp [eval, evaluates, evaluates', decides]⟩

theorem not (reads : Denotes env .prim x (.ofTruth t)) : Denotes env .conj (.not :: x) (.ofTruth t.not) := by
  obtain ⟨e, rfl, evaluates⟩ := reads
  exact ⟨.each (.not (.plain (.value e))), rfl, by simp [eval, evaluates]⟩

theorem and (first : Denotes env .conj x (.ofTruth s)) (second : Denotes env .conj y (.ofTruth t)) :
    Denotes env .conj (x ++ .and :: y) (.ofTruth (s.and t)) := by
  obtain ⟨e, rfl, evaluates⟩ := first
  obtain ⟨d, rfl, evaluates'⟩ := second
  exact ⟨e.conjoin d, Expr.text_conjoin e d, by rw [eval_conjoin, evaluates, evaluates', connect_ofTruth]⟩

theorem or (first : Denotes env .disj x (.ofTruth s)) (second : Denotes env .disj y (.ofTruth t)) :
    Denotes env .disj (x ++ .or :: y) (.ofTruth (s.or t)) := by
  obtain ⟨e, rfl, evaluates⟩ := first
  obtain ⟨d, rfl, evaluates'⟩ := second
  exact ⟨e.disjoin d, Expr.text_disjoin e d, by rw [eval_disjoin, evaluates, evaluates', connect_ofTruth]⟩

end Denotes

end DevHealth.Clickhouse

import Mathlib.Tactic.Common

/-! # SQL expressions

The lexemes of SQL expressions, their grammar as concrete syntax trees, and a parser.
A tree is indexed by the operator level it stands at, so a tree that ignores operator
precedence cannot be built: `OR` binds loosest, then `AND`, `NOT` and the comparisons.
`text` writes a tree back as lexemes and the parser returns every tree from its text.
Columns, functions and subqueries are whatever the statement names. -/
set_option autoImplicit false
namespace DevHealth.Lib.Sql

/-! ## Three-valued logic -/

/-- The value of a condition: `unknown` is what a comparison with NULL gives. -/
inductive Truth where
  | no
  | unknown
  | yes
  deriving DecidableEq, Repr

namespace Truth

def ofBool (b : Bool) : Truth := if b then yes else no

def not : Truth → Truth
  | no => yes
  | unknown => unknown
  | yes => no

def and : Truth → Truth → Truth
  | no, _ => no
  | unknown, no => no
  | unknown, _ => unknown
  | yes, b => b

def or : Truth → Truth → Truth
  | yes, _ => yes
  | unknown, yes => yes
  | unknown, _ => unknown
  | no, b => b

@[simp] theorem ofBool_yes {b : Bool} : ofBool b = yes ↔ b = true := by cases b <;> simp [ofBool]

@[simp] theorem not_yes {a : Truth} : a.not = yes ↔ a = no := by cases a <;> simp [not]

@[simp] theorem and_yes {a b : Truth} : a.and b = yes ↔ a = yes ∧ b = yes := by
  cases a <;> cases b <;> simp [and]

@[simp] theorem or_yes {a b : Truth} : a.or b = yes ↔ a = yes ∨ b = yes := by
  cases a <;> cases b <;> simp [or]

theorem ofBool_and (a b : Bool) : (ofBool a).and (ofBool b) = ofBool (a && b) := by
  cases a <;> rfl

theorem ofBool_or (a b : Bool) : (ofBool a).or (ofBool b) = ofBool (a || b) := by
  cases a <;> cases b <;> rfl

theorem and_assoc (a b c : Truth) : (a.and b).and c = a.and (b.and c) := by
  cases a <;> cases b <;> cases c <;> rfl

theorem or_assoc (a b c : Truth) : (a.or b).or c = a.or (b.or c) := by
  cases a <;> cases b <;> cases c <;> rfl

def all : List Truth → Truth
  | [] => yes
  | t :: ts => t.and (all ts)

theorem all_yes {ts : List Truth} : all ts = yes ↔ ∀ t ∈ ts, t = yes := by
  induction ts with
  | nil => simp [all]
  | cons t ts ih => simp [all, ih]

end Truth

/-! ## Lexemes and trees -/

inductive Cmp where
  | eq
  | ne
  | le
  | lt
  | ge
  | gt
  deriving DecidableEq, Repr

/-- A lexeme.  A parameter is its name; a parenthesised `SELECT` is kept as its text. -/
inductive Token (κ φ : Type) where
  | column (c : κ)
  | param (name : String)
  | str (text : List UInt8)
  | int (n : Nat)
  | func (f : φ)
  | subquery (select : String)
  | lparen
  | rparen
  | lbracket
  | rbracket
  | comma
  | cmp (op : Cmp)
  | isNull
  | isNotNull
  | inSet
  | not
  | and
  | or
  deriving DecidableEq

/-- The operator levels, loosest first; `args` is the list between two brackets. -/
inductive Level where
  | disj
  | conj
  | neg
  | comp
  | prim
  | args
  deriving DecidableEq

inductive Expr (κ φ : Type) : Level → Type where
  | column (c : κ) : Expr κ φ .prim
  | param (name : String) : Expr κ φ .prim
  | str (text : List UInt8) : Expr κ φ .prim
  | int (n : Nat) : Expr κ φ .prim
  | subquery (select : String) : Expr κ φ .prim
  | paren (e : Expr κ φ .disj) : Expr κ φ .prim
  | array (items : Expr κ φ .args) : Expr κ φ .prim
  | call (f : φ) (items : Expr κ φ .args) : Expr κ φ .prim
  | value (e : Expr κ φ .prim) : Expr κ φ .comp
  | cmp (op : Cmp) (a b : Expr κ φ .prim) : Expr κ φ .comp
  | isNull (a : Expr κ φ .prim) : Expr κ φ .comp
  | isNotNull (a : Expr κ φ .prim) : Expr κ φ .comp
  | inSet (a b : Expr κ φ .prim) : Expr κ φ .comp
  | plain (e : Expr κ φ .comp) : Expr κ φ .neg
  | not (e : Expr κ φ .neg) : Expr κ φ .neg
  | each (e : Expr κ φ .neg) : Expr κ φ .conj
  | and (a : Expr κ φ .neg) (b : Expr κ φ .conj) : Expr κ φ .conj
  | single (e : Expr κ φ .conj) : Expr κ φ .disj
  | or (a : Expr κ φ .conj) (b : Expr κ φ .disj) : Expr κ φ .disj
  | none : Expr κ φ .args
  | last (e : Expr κ φ .disj) : Expr κ φ .args
  | more (e : Expr κ φ .disj) (rest : Expr κ φ .args) : Expr κ φ .args

variable {κ φ : Type}

def Expr.text : {l : Level} → Expr κ φ l → List (Token κ φ)
  | _, .column c => [.column c]
  | _, .param name => [.param name]
  | _, .str s => [.str s]
  | _, .int n => [.int n]
  | _, .subquery q => [.subquery q]
  | _, .paren e => .lparen :: (e.text ++ [.rparen])
  | _, .array items => .lbracket :: (items.text ++ [.rbracket])
  | _, .call f items => .func f :: .lparen :: (items.text ++ [.rparen])
  | _, .value e => e.text
  | _, .cmp op a b => a.text ++ .cmp op :: b.text
  | _, .isNull a => a.text ++ [.isNull]
  | _, .isNotNull a => a.text ++ [.isNotNull]
  | _, .inSet a b => a.text ++ .inSet :: b.text
  | _, .plain e => e.text
  | _, .not e => .not :: e.text
  | _, .each e => e.text
  | _, .and a b => a.text ++ .and :: b.text
  | _, .single e => e.text
  | _, .or a b => a.text ++ .or :: b.text
  | _, .none => []
  | _, .last e => e.text
  | _, .more e rest => e.text ++ .comma :: rest.text

/-- How deep the parser goes to read a tree. -/
def Expr.height : {l : Level} → Expr κ φ l → Nat
  | _, .column _ | _, .param _ | _, .str _ | _, .int _ | _, .subquery _ | _, .none => 1
  | _, .paren e | _, .array e | _, .call _ e | _, .value e | _, .isNull e | _, .isNotNull e
  | _, .plain e | _, .not e | _, .each e | _, .single e | _, .last e => e.height + 1
  | _, .cmp _ a b | _, .inSet a b | _, .and a b | _, .or a b | _, .more a b =>
    max a.height b.height + 1

/-! ## Texts set side by side

`AND` between two texts of its own level joins their chains; a text of a looser level
would be torn apart, and has no tree here without its parentheses. -/

def Expr.conjoin : Expr κ φ .conj → Expr κ φ .conj → Expr κ φ .conj
  | .each a, b => .and a b
  | .and a rest, b => .and a (rest.conjoin b)

def Expr.disjoin : Expr κ φ .disj → Expr κ φ .disj → Expr κ φ .disj
  | .single a, b => .or a b
  | .or a rest, b => .or a (rest.disjoin b)

theorem Expr.text_conjoin : ∀ a b : Expr κ φ .conj, (a.conjoin b).text = a.text ++ .and :: b.text
  | .each _, _ => by simp only [conjoin, text]
  | .and a rest, b => by
      simp [conjoin, text, text_conjoin rest b]

theorem Expr.text_disjoin : ∀ a b : Expr κ φ .disj, (a.disjoin b).text = a.text ++ .or :: b.text
  | .single _, _ => by simp only [disjoin, text]
  | .or a rest, b => by
      simp [disjoin, text, text_disjoin rest b]

/-! ## The parser -/

/-- Reads a tree of the given level from the front of a text.  Each call spends fuel. -/
def parse : Nat → (l : Level) → List (Token κ φ) → Option (Expr κ φ l × List (Token κ φ))
  | 0, _, _ => none
  | fuel + 1, .disj, tokens => do
      let (a, rest) ← parse fuel .conj tokens
      match rest with
      | .or :: rest => do
          let (b, rest) ← parse fuel .disj rest
          pure (.or a b, rest)
      | _ => pure (.single a, rest)
  | fuel + 1, .conj, tokens => do
      let (a, rest) ← parse fuel .neg tokens
      match rest with
      | .and :: rest => do
          let (b, rest) ← parse fuel .conj rest
          pure (.and a b, rest)
      | _ => pure (.each a, rest)
  | fuel + 1, .neg, tokens =>
    match tokens with
    | .not :: rest => do
        let (e, rest) ← parse fuel .neg rest
        pure (.not e, rest)
    | _ => do
        let (e, rest) ← parse fuel .comp tokens
        pure (.plain e, rest)
  | fuel + 1, .comp, tokens => do
      let (a, rest) ← parse fuel .prim tokens
      match rest with
      | .cmp op :: rest => do
          let (b, rest) ← parse fuel .prim rest
          pure (.cmp op a b, rest)
      | .isNull :: rest => pure (.isNull a, rest)
      | .isNotNull :: rest => pure (.isNotNull a, rest)
      | .inSet :: rest => do
          let (b, rest) ← parse fuel .prim rest
          pure (.inSet a b, rest)
      | _ => pure (.value a, rest)
  | fuel + 1, .prim, tokens =>
    match tokens with
    | .column c :: rest => some (.column c, rest)
    | .param name :: rest => some (.param name, rest)
    | .str s :: rest => some (.str s, rest)
    | .int n :: rest => some (.int n, rest)
    | .subquery q :: rest => some (.subquery q, rest)
    | .lparen :: rest => do
        let (e, rest) ← parse fuel .disj rest
        match rest with
        | .rparen :: rest => pure (.paren e, rest)
        | _ => none
    | .lbracket :: rest => do
        let (items, rest) ← parse fuel .args rest
        match rest with
        | .rbracket :: rest => pure (.array items, rest)
        | _ => none
    | .func f :: .lparen :: rest => do
        let (items, rest) ← parse fuel .args rest
        match rest with
        | .rparen :: rest => pure (.call f items, rest)
        | _ => none
    | _ => none
  | fuel + 1, .args, tokens =>
    match tokens with
    | .rparen :: _ | .rbracket :: _ => some (.none, tokens)
    | _ => do
        let (e, rest) ← parse fuel .disj tokens
        match rest with
        | .comma :: rest => do
            let (items, rest) ← parse fuel .args rest
            pure (.more e items, rest)
        | _ => pure (.last e, rest)

attribute [grind =] parse

/-- Whether a lexeme after an expression of the level would continue it. -/
def Token.extends : Level → Token κ φ → Bool
  | .disj, .or | .disj, .and | .conj, .and => true
  | .prim, _ | .args, _ => false
  | _, .cmp _ | _, .isNull | _, .isNotNull | _, .inSet => true
  | _, _ => false

/-- A text that ends what stands before it: no operator of the level, or the bracket
that closes a list. -/
def stops : Level → List (Token κ φ) → Bool
  | .args, .rparen :: _ | .args, .rbracket :: _ => true
  | .args, _ => false
  | _, [] => true
  | l, t :: _ => !t.extends l

/-- Whether a lexeme can start an expression of the level. -/
def Token.starts : Level → Token κ φ → Bool
  | .args, _ => false
  | .prim, .not | .comp, .not => false
  | _, .column _ | _, .param _ | _, .str _ | _, .int _ | _, .func _ | _, .subquery _ => true
  | _, .lparen | _, .lbracket | _, .not => true
  | _, _ => false

theorem Token.starts_looser {l m : Level} {t : Token κ φ}
    (next : (l, m) ∈ [(.prim, .comp), (.comp, .neg), (.neg, .conj), (.conj, Level.disj)])
    (starts : t.starts l = true) : t.starts m = true := by
  simp only [List.mem_cons, Prod.mk.injEq, List.not_mem_nil, or_false] at next
  obtain ⟨rfl, rfl⟩ | ⟨rfl, rfl⟩ | ⟨rfl, rfl⟩ | ⟨rfl, rfl⟩ := next <;> cases t <;>
    first | rfl | exact starts

variable {tokens rest : List (Token κ φ)} {fuel : Nat} {l : Level}

theorem Expr.text_starts (e : Expr κ φ l) (single : l ≠ .args) :
    ∃ first rest, e.text = first :: rest ∧ first.starts l = true := by
  induction e with
  | column | param | str | int | subquery | paren | array | call | not => exact ⟨_, _, rfl, rfl⟩
  | value e ih | plain e ih | each e ih | single e ih =>
    obtain ⟨first, rest, same, starts⟩ := ih (by decide)
    exact ⟨first, rest, same, Token.starts_looser (by simp) starts⟩
  | cmp op a b iha ihb | inSet a b iha ihb | and a b iha ihb | or a b iha ihb =>
    obtain ⟨first, rest, same, starts⟩ := iha (by decide)
    exact ⟨first, _, by rw [text, same]; rfl, Token.starts_looser (by simp) starts⟩
  | isNull a ih | isNotNull a ih =>
    obtain ⟨first, rest, same, starts⟩ := ih (by decide)
    exact ⟨first, _, by rw [text, same]; rfl, Token.starts_looser (by simp) starts⟩
  | none | last | more => exact absurd rfl single

theorem stops_tighter {l m : Level} {rest : List (Token κ φ)}
    (next : (l, m) ∈ [(.disj, .conj), (.conj, .neg), (.neg, .comp), (.comp, Level.prim)])
    (ends : stops l rest = true) : stops m rest = true := by
  simp only [List.mem_cons, Prod.mk.injEq, List.not_mem_nil, or_false] at next
  obtain ⟨rfl, rfl⟩ | ⟨rfl, rfl⟩ | ⟨rfl, rfl⟩ | ⟨rfl, rfl⟩ := next <;>
    rcases rest with _ | ⟨t, rest⟩ <;> first | rfl | (cases t <;> first | rfl | exact ends)

theorem stops_prim (rest : List (Token κ φ)) : stops .prim rest = true := by
  cases rest <;> rfl

theorem parse_single {a : Expr κ φ .conj} (read : parse fuel .conj tokens = some (a, rest))
    (ends : stops .disj rest = true) :
    parse (fuel + 1) .disj tokens = some (.single a, rest) := by
  simp only [parse, read, Option.bind_eq_bind, Option.bind_some]
  rcases rest with _ | ⟨t, rest⟩
  · rfl
  · cases t <;> first | rfl | cases ends

theorem parse_each {a : Expr κ φ .neg} (read : parse fuel .neg tokens = some (a, rest))
    (ends : stops .conj rest = true) :
    parse (fuel + 1) .conj tokens = some (.each a, rest) := by
  simp only [parse, read, Option.bind_eq_bind, Option.bind_some]
  rcases rest with _ | ⟨t, rest⟩
  · rfl
  · cases t <;> first | rfl | cases ends

theorem parse_plain {e : Expr κ φ .comp} {first : Token κ φ}
    (read : parse fuel .comp (first :: tokens) = some (e, rest))
    (starts : first.starts .comp = true) :
    parse (fuel + 1) .neg (first :: tokens) = some (.plain e, rest) := by
  cases first <;> first | (simp only [parse, read, Option.bind_eq_bind]; rfl) | cases starts

theorem parse_value {a : Expr κ φ .prim} (read : parse fuel .prim tokens = some (a, rest))
    (ends : stops .comp rest = true) :
    parse (fuel + 1) .comp tokens = some (.value a, rest) := by
  simp only [parse, read, Option.bind_eq_bind, Option.bind_some]
  rcases rest with _ | ⟨t, rest⟩
  · rfl
  · cases t <;> first | rfl | cases ends

theorem parse_args_item {tokens : List (Token κ φ)} {first : Token κ φ} (starts : first.starts .disj = true) :
    parse (fuel + 1) .args (first :: tokens) = (parse fuel .disj (first :: tokens)).bind fun (e, rest) =>
        match rest with
        | .comma :: rest => (parse fuel .args rest).bind fun (items, rest) =>
          some (.more e items, rest)
        | _ => some (.last e, rest) := by
  cases first <;> first | rfl | cases starts

theorem Expr.height_succ {e : Expr κ φ l} (enough : e.height ≤ fuel) : ∃ n, fuel = n + 1 := by
  have positive : 0 < e.height := by cases e <;> simp [height]
  exact ⟨fuel - 1, by omega⟩

theorem parse_text (e : Expr κ φ l) :
    ∀ (fuel : Nat) (rest : List (Token κ φ)), e.height ≤ fuel → stops l rest = true →
      parse fuel l (e.text ++ rest) = some (e, rest) := by
  induction e
  -- every tree has a height, so the parser takes a step on its text
  all_goals
    intro fuel rest enough ends
    obtain ⟨fuel, rfl⟩ := Expr.height_succ enough
  case column | param | str | int | subquery => rfl
  case paren e ih | call f e ih =>
    have read := ih fuel (.rparen :: rest) (Nat.le_of_succ_le_succ enough) rfl
    simp only [Expr.text, List.cons_append, List.append_assoc, List.nil_append, parse, read,
      Option.bind_eq_bind, Option.bind_some]
    rfl
  case array items ih =>
    have read := ih fuel (.rbracket :: rest) (Nat.le_of_succ_le_succ enough) rfl
    simp only [Expr.text, List.cons_append, List.append_assoc, List.nil_append, parse, read,
      Option.bind_eq_bind, Option.bind_some]
    rfl
  case value e ih =>
    exact parse_value (ih fuel rest (Nat.le_of_succ_le_succ enough) (stops_tighter (by simp) ends)) ends
  case plain e ih =>
    have read := ih fuel rest (Nat.le_of_succ_le_succ enough) (stops_tighter (by simp) ends)
    obtain ⟨first, tokens, same, starts⟩ := e.text_starts (by decide)
    rw [same] at read
    rw [Expr.text, same]
    exact parse_plain read starts
  case not e ih =>
    have read := ih fuel rest (Nat.le_of_succ_le_succ enough) ends
    simp only [Expr.text, List.cons_append, parse, read, Option.bind_eq_bind]
    rfl
  case each e ih =>
    exact parse_each (ih fuel rest (Nat.le_of_succ_le_succ enough) (stops_tighter (by simp) ends)) ends
  case single e ih =>
    exact parse_single (ih fuel rest (Nat.le_of_succ_le_succ enough) (stops_tighter (by simp) ends)) ends
  case isNull a ih | isNotNull a ih =>
    simp only [Expr.text, List.append_assoc, List.cons_append, List.nil_append, parse,
      ih fuel _ (Nat.le_of_succ_le_succ enough) (stops_prim _), Option.bind_eq_bind,
      Option.bind_some]
    rfl
  case cmp op a b iha ihb | inSet a b iha ihb =>
    have deep := Nat.max_le.mp (Nat.le_of_succ_le_succ enough)
    simp only [Expr.text, List.append_assoc, List.cons_append, parse,
      iha fuel _ deep.1 (stops_prim _), ihb fuel rest deep.2 (stops_prim _),
      Option.bind_eq_bind, Option.bind_some]
    rfl
  case and a b iha ihb =>
    have deep := Nat.max_le.mp (Nat.le_of_succ_le_succ enough)
    simp only [Expr.text, List.append_assoc, List.cons_append, parse,
      iha fuel (.and :: (b.text ++ rest)) deep.1 rfl, ihb fuel rest deep.2 ends,
      Option.bind_eq_bind, Option.bind_some]
    rfl
  case or a b iha ihb =>
    have deep := Nat.max_le.mp (Nat.le_of_succ_le_succ enough)
    simp only [Expr.text, List.append_assoc, List.cons_append, parse,
      iha fuel (.or :: (b.text ++ rest)) deep.1 rfl, ihb fuel rest deep.2 ends,
      Option.bind_eq_bind, Option.bind_some]
    rfl
  case none =>
    rcases rest with _ | ⟨t, rest⟩
    · cases ends
    · cases t <;> first | rfl | cases ends
  case last e ih =>
    have closing : stops .disj rest = true := by
      rcases rest with _ | ⟨t, rest⟩
      · rfl
      · cases t <;> first | rfl | cases ends
    have read := ih fuel rest (Nat.le_of_succ_le_succ enough) closing
    obtain ⟨first, tokens, same, starts⟩ := e.text_starts (by decide)
    rw [same] at read
    rw [Expr.text, same, List.cons_append, parse_args_item starts, ← List.cons_append, read]
    rcases rest with _ | ⟨t, rest⟩
    · rfl
    · cases t <;> first | rfl | cases ends
  case more e items ihe ihi =>
    have deep := Nat.max_le.mp (Nat.le_of_succ_le_succ enough)
    have read := ihe fuel (.comma :: (items.text ++ rest)) deep.1 rfl
    obtain ⟨first, tokens, same, starts⟩ := e.text_starts (by decide)
    rw [same] at read
    rw [Expr.text, same, List.append_assoc, List.cons_append, List.cons_append,
      parse_args_item starts, ← List.cons_append, read]
    simp [ihi fuel rest deep.2 ends]

/-- The fuel a text needs: a lexeme is at most six calls below the level it stands at. -/
theorem Expr.height_le (e : Expr κ φ l) :
    match l with
    | .prim => e.height + 5 ≤ 6 * e.text.length
    | .comp => e.height + 4 ≤ 6 * e.text.length
    | .neg => e.height + 3 ≤ 6 * e.text.length
    | .conj => e.height + 2 ≤ 6 * e.text.length
    | .disj => e.height + 1 ≤ 6 * e.text.length
    | .args => e.height ≤ 6 * e.text.length + 1 := by
  induction e <;>
    simp only [text, height, List.length_cons, List.length_append, List.length_nil] at * <;> omega

/-- The expression a text is: the whole text, read at the loosest level. -/
def read (text : List (Token κ φ)) : Option (Expr κ φ .disj) :=
  match parse (6 * text.length) .disj text with
  | some (e, []) => some e
  | _ => none

theorem read_text (e : Expr κ φ .disj) : read e.text = some e := by
  have parsed := parse_text e (6 * e.text.length) [] (Nat.le_of_succ_le e.height_le) rfl
  rw [List.append_nil] at parsed
  rw [read, parsed]

end DevHealth.Lib.Sql

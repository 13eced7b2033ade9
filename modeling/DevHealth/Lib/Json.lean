import DevHealth.Go.Bytes

/-! # JSON texts

The grammar of RFC 8259 over bytes, as concrete syntax trees.  A tree keeps every
byte of the text it was read from: `text` gives them back, so a document is the
text of a tree and the raw bytes of a member are the text of its subtree.  The
leaves carry the proof that they are well formed; a tree that is not a JSON text
cannot be built. -/
set_option autoImplicit false
namespace DevHealth.Lib

open Go

/-! ## Leaves -/

def quoteMark : UInt8 := 0x22
def backslash : UInt8 := 0x5C
def comma : UInt8 := 0x2C
def colon : UInt8 := 0x3A

def isSpace (b : UInt8) : Bool := b == 0x20 || b == 0x09 || b == 0x0A || b == 0x0D

def IsBlank (s : Bytes) : Prop := ∀ b ∈ s, isSpace b = true

def isDigit (b : UInt8) : Bool := between '0' '9' b

def isHex (b : UInt8) : Bool := isDigit b || between 'a' 'f' b || between 'A' 'F' b

/-- The characters that stand for themselves or for a control character after a
backslash. -/
def isShortEscape (b : UInt8) : Bool := (ascii "bfnrt\\/\"").contains b

/-- What may stand between the quotes of a string. -/
inductive IsContent : Bytes → Prop
  | nil : IsContent []
  | plain {b : UInt8} {rest : Bytes} : b ≠ quoteMark → b ≠ backslash → 0x20 ≤ b →
      IsContent rest → IsContent (b :: rest)
  | short {b : UInt8} {rest : Bytes} : isShortEscape b = true → IsContent rest →
      IsContent (backslash :: b :: rest)
  | unicode {a b c d : UInt8} {rest : Bytes} : isHex a = true → isHex b = true →
      isHex c = true → isHex d = true → IsContent rest →
      IsContent (backslash :: 0x75 :: a :: b :: c :: d :: rest)

def IsDigits (s : Bytes) : Prop := s ≠ [] ∧ ∀ b ∈ s, isDigit b = true

inductive IsInteger : Bytes → Prop
  | zero : IsInteger [0x30]
  | digits {b : UInt8} {rest : Bytes} : between '1' '9' b = true →
      (∀ c ∈ rest, isDigit c = true) → IsInteger (b :: rest)

inductive IsFraction : Bytes → Prop
  | none : IsFraction []
  | digits {ds : Bytes} : IsDigits ds → IsFraction (0x2E :: ds)

def isSign (b : UInt8) : Bool := b == 0x2B || b == 0x2D

def isExponentMark (b : UInt8) : Bool := b == 0x65 || b == 0x45

inductive IsExponent : Bytes → Prop
  | none : IsExponent []
  | plain {e : UInt8} {ds : Bytes} : isExponentMark e = true → IsDigits ds → IsExponent (e :: ds)
  | signed {e sign : UInt8} {ds : Bytes} : isExponentMark e = true → isSign sign = true →
      IsDigits ds → IsExponent (e :: sign :: ds)

def IsUnsigned (s : Bytes) : Prop :=
  ∃ int frac exp, s = int ++ (frac ++ exp) ∧ IsInteger int ∧ IsFraction frac ∧ IsExponent exp

inductive IsNumber : Bytes → Prop
  | unsigned {s : Bytes} : IsUnsigned s → IsNumber s
  | negative {s : Bytes} : IsUnsigned s → IsNumber (0x2D :: s)

/-- Nothing at the front that could continue a number. -/
def Ends (rest : Bytes) : Prop :=
  ∀ b s, rest = b :: s → isDigit b = false ∧ b ≠ 0x2E ∧ isExponentMark b = false

/-! ## Trees -/

inductive Box where
  | array
  | object
  deriving DecidableEq, Repr

def Box.opens : Box → UInt8
  | .array => 0x5B
  | .object => 0x7B

def Box.closes : Box → UInt8
  | .array => 0x5D
  | .object => 0x7D

/-- A value, the inside of a container up to its closing bracket, or what follows
an element of one. -/
inductive Kind where
  | value
  | body (box : Box)
  | tail (box : Box)

/-- What stands in front of a value inside a container: nothing in an array, a name
and a colon in an object. -/
inductive Label : Box → Type
  | item : Label .array
  | name (lead content gap : Bytes) (leadBlank : IsBlank lead) (valid : IsContent content)
      (gapBlank : IsBlank gap) : Label .object

inductive Json : Kind → Type
  | null : Json .value
  | bool (b : Bool) : Json .value
  | num (digits : Bytes) (valid : IsNumber digits) : Json .value
  | str (content : Bytes) (valid : IsContent content) : Json .value
  | box {b : Box} (body : Json (.body b)) : Json .value
  | empty {b : Box} (gap : Bytes) (blank : IsBlank gap) : Json (.body b)
  | first {b : Box} (label : Label b) (lead : Bytes) (leadBlank : IsBlank lead)
      (value : Json .value) (tail : Json (.tail b)) : Json (.body b)
  | close {b : Box} (gap : Bytes) (blank : IsBlank gap) : Json (.tail b)
  | next {b : Box} (gap : Bytes) (blank : IsBlank gap) (label : Label b) (lead : Bytes)
      (leadBlank : IsBlank lead) (value : Json .value) (tail : Json (.tail b)) : Json (.tail b)

def Label.text {b : Box} : Label b → Bytes
  | .item => []
  | .name lead content gap _ _ _ => lead ++ quoteMark :: (content ++ quoteMark :: (gap ++ [colon]))

/-- The name as it is written, escapes included; an item of an array has none. -/
def Label.content {b : Box} : Label b → Bytes
  | .item => []
  | .name _ content _ _ _ _ => content

/-- The white space between the name and its colon. -/
def Label.gap {b : Box} : Label b → Bytes
  | .item => []
  | .name _ _ gap _ _ _ => gap

theorem Label.gap_blank {b : Box} (label : Label b) : IsBlank label.gap := by
  cases label with
  | item =>
    intro c inside
    cases inside
  | name lead content gap leadBlank valid gapBlank => exact gapBlank

namespace Json

def text {k : Kind} : Json k → Bytes
  | .null => ascii "null"
  | .bool true => ascii "true"
  | .bool false => ascii "false"
  | .num digits _ => digits
  | .str content _ => quoteMark :: (content ++ [quoteMark])
  | @box b body => b.opens :: body.text
  | @empty b gap _ => gap ++ [b.closes]
  | .first label lead _ value tail => label.text ++ (lead ++ (value.text ++ tail.text))
  | @close b gap _ => gap ++ [b.closes]
  | .next gap _ label lead _ value tail =>
    gap ++ comma :: (label.text ++ (lead ++ (value.text ++ tail.text)))

/-- The elements of a container, each with its name as written. -/
def entries {k : Kind} : Json k → List (Bytes × Json .value)
  | .first label _ _ value tail => (label.content, value) :: tail.entries
  | .next _ _ label _ _ value tail => (label.content, value) :: tail.entries
  | _ => []

/-- How far below the root the deepest value lies. -/
def depth {k : Kind} : Json k → Nat
  | .box body => body.depth
  | .first _ _ _ value tail => max (value.depth + 1) tail.depth
  | .next _ _ _ _ _ value tail => max (value.depth + 1) tail.depth
  | _ => 0

/-- How many containers are open at the same time. -/
def nesting {k : Kind} : Json k → Nat
  | .box body => body.nesting + 1
  | .first _ _ _ value tail => max value.nesting tail.nesting
  | .next _ _ _ _ _ value tail => max value.nesting tail.nesting
  | _ => 0

def NoRepeats (same : Bytes → Bytes → Bool) {k : Kind} : Json k → Prop
  | @box .array body => body.NoRepeats same
  | @box .object body =>
    (body.entries.map Prod.fst).Pairwise (fun a b => same a b = false) ∧ body.NoRepeats same
  | .first _ _ _ value tail => value.NoRepeats same ∧ tail.NoRepeats same
  | .next _ _ _ _ _ value tail => value.NoRepeats same ∧ tail.NoRepeats same
  | _ => True

def AllNumbers (p : Bytes → Bool) {k : Kind} : Json k → Prop
  | .num digits _ => p digits = true
  | .box body => body.AllNumbers p
  | .first _ _ _ value tail => value.AllNumbers p ∧ tail.AllNumbers p
  | .next _ _ _ _ _ value tail => value.AllNumbers p ∧ tail.AllNumbers p
  | _ => True

theorem nesting_le_depth {k : Kind} (t : Json k) :
    t.nesting ≤ t.depth + (match k with | .value => 1 | _ => 0) := by
  induction t with
  | box body ih =>
    simp only [nesting, depth] at ih ⊢
    omega
  | first label lead leadBlank value tail valueBound tailBound
  | next gap blank label lead leadBlank value tail valueBound tailBound =>
    simp only [nesting, depth] at valueBound tailBound ⊢
    omega
  | _ => simp [nesting]

theorem nesting_le_text {k : Kind} (t : Json k) : t.nesting ≤ t.text.length := by
  induction t with
  | box body ih =>
    simp only [nesting, text, List.length_cons]
    omega
  | first label lead leadBlank value tail valueBound tailBound
  | next gap blank label lead leadBlank value tail valueBound tailBound =>
    simp only [nesting, text, List.length_append, List.length_cons]
    omega
  | _ => simp [nesting]

theorem entries_nesting {k : Kind} {t : Json k} {e : Bytes × Json .value} (inside : e ∈ t.entries) :
    e.2.nesting ≤ t.nesting := by
  induction t with
  | first label lead leadBlank value tail _ ih
  | next gap blank label lead leadBlank value tail _ ih =>
    rcases List.mem_cons.mp inside with rfl | inside
    · exact Nat.le_max_left _ _
    · exact Nat.le_trans (ih inside) (Nat.le_max_right _ _)
  | _ => cases inside

theorem nesting_of_entries {k : Kind} {t : Json k} {levels : Nat} (inside : k ≠ .value)
    (shallow : ∀ e ∈ t.entries, e.2.nesting ≤ levels) : t.nesting ≤ levels := by
  induction t with
  | first label lead leadBlank value tail _ ih
  | next gap blank label lead leadBlank value tail _ ih =>
    apply Nat.max_le.mpr
    refine ⟨shallow _ (List.mem_cons_self ..), ih (by intro same; cases same) ?_⟩
    intro e member
    exact shallow e (List.mem_cons_of_mem _ member)
  | empty gap blank => exact Nat.zero_le _
  | close gap blank => exact Nat.zero_le _
  | _ => exact absurd rfl inside

theorem noRepeats_entry {same : Bytes → Bytes → Bool} {k : Kind} {t : Json k}
    {e : Bytes × Json .value} (distinct : t.NoRepeats same) (inside : e ∈ t.entries) :
    e.2.NoRepeats same := by
  induction t with
  | first label lead leadBlank value tail _ ih
  | next gap blank label lead leadBlank value tail _ ih =>
    rcases List.mem_cons.mp inside with rfl | inside
    · exact distinct.1
    · exact ih distinct.2 inside
  | _ => cases inside

theorem allNumbers_entry {p : Bytes → Bool} {k : Kind} {t : Json k} {e : Bytes × Json .value}
    (numbers : t.AllNumbers p) (inside : e ∈ t.entries) : e.2.AllNumbers p := by
  induction t with
  | first label lead leadBlank value tail _ ih
  | next gap blank label lead leadBlank value tail _ ih =>
    rcases List.mem_cons.mp inside with rfl | inside
    · exact numbers.1
    · exact ih numbers.2 inside
  | _ => cases inside

theorem tail_text_pos {b : Box} (t : Json (.tail b)) : 0 < t.text.length := by
  cases t with
  | close gap blank => simp [text]
  | next gap blank label lead leadBlank value tail =>
    simp only [text, List.length_append, List.length_cons]
    omega

/-- Every element of a container has a byte after it. -/
theorem depth_le_text {k : Kind} (t : Json k) : t.depth ≤ t.text.length := by
  induction t with
  | box body ih =>
    simp only [depth, text, List.length_cons]
    omega
  | first label lead leadBlank value tail valueBound tailBound
  | next gap blank label lead leadBlank value tail valueBound tailBound =>
    have closed := tail_text_pos tail
    simp only [depth, text, List.length_append, List.length_cons]
    omega
  | _ => simp [depth]

theorem noRepeats_of_entries {same : Bytes → Bytes → Bool} {k : Kind} {t : Json k}
    (container : k ≠ .value) (all : ∀ e ∈ t.entries, e.2.NoRepeats same) : t.NoRepeats same := by
  induction t with
  | first label lead leadBlank value tail _ ih
  | next gap blank label lead leadBlank value tail _ ih =>
    exact ⟨all _ (List.mem_cons_self ..), ih nofun fun e inside => all e (List.mem_cons_of_mem _ inside)⟩
  | empty => trivial
  | close => trivial
  | _ => exact absurd rfl container

theorem NoRepeats.imp {same other : Bytes → Bytes → Bool}
    (weaker : ∀ a b, same a b = false → other a b = false) {k : Kind} {t : Json k}
    (distinct : t.NoRepeats same) : t.NoRepeats other := by
  induction t with
  | @box b body ih =>
    cases b with
    | array => exact ih distinct
    | object => exact ⟨distinct.1.imp (weaker _ _), ih distinct.2⟩
  | first label lead leadBlank value tail valueKept tailKept
  | next gap blank label lead leadBlank value tail valueKept tailKept =>
    exact ⟨valueKept distinct.1, tailKept distinct.2⟩
  | _ => trivial

theorem allNumbers_of_entries {p : Bytes → Bool} {k : Kind} {t : Json k} (container : k ≠ .value)
    (all : ∀ e ∈ t.entries, e.2.AllNumbers p) : t.AllNumbers p := by
  induction t with
  | first label lead leadBlank value tail _ ih
  | next gap blank label lead leadBlank value tail _ ih =>
    exact ⟨all _ (List.mem_cons_self ..), ih nofun fun e inside => all e (List.mem_cons_of_mem _ inside)⟩
  | empty => trivial
  | close => trivial
  | _ => exact absurd rfl container

end Json
end DevHealth.Lib

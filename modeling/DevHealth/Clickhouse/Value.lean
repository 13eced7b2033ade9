import DevHealth.Go.Bytes
import DevHealth.Lib.Sql

/-! # Values and functions of ClickHouse

The values the statements of the readers compare, the documented functions they call, and
the value of an expression over a row.  What is data of the server (Unicode case tables,
the regular expression engine, the clock, a setting) is an `Engine`. -/
set_option autoImplicit false
namespace DevHealth.Clickhouse

open Go Lib Lib.Sql

/-! ## UUIDs -/

/-- The 32 hexadecimal digits of a UUID. -/
structure Uuid where
  digits : Vector (Fin 16) 32
  deriving DecidableEq

def hexDigit (d : Fin 16) : UInt8 := UInt8.ofNat (if d.val < 10 then 48 + d.val else 87 + d.val)

def dash : UInt8 := 0x2D

namespace Uuid

def zero : Uuid := ⟨Vector.replicate 32 0⟩

/-- `toString` of a UUID: groups of 8, 4, 4, 4 and 12 digits. -/
def text (u : Uuid) : Bytes :=
  let hex := u.digits.toList.map hexDigit
  hex.take 8 ++ dash :: ((hex.drop 8).take 4 ++ dash :: ((hex.drop 12).take 4 ++
    dash :: ((hex.drop 16).take 4 ++ dash :: hex.drop 20)))

theorem text_ne_nil (u : Uuid) : u.text ≠ [] := by
  rw [text]
  exact List.append_ne_nil_of_right_ne_nil _ (List.cons_ne_nil _ _)

theorem hexDigit_injective : Function.Injective hexDigit := by
  intro a b
  revert a b
  decide

theorem hexDigit_ne_dash (d : Fin 16) : hexDigit d ≠ dash := by
  revert d
  decide

theorem text_digits (u : Uuid) : u.text.filter (· != dash) = u.digits.toList.map hexDigit := by
  have apart : ∀ b ∈ u.digits.toList.map hexDigit, b ≠ dash := by
    intro b inside
    obtain ⟨d, -, rfl⟩ := List.mem_map.mp inside
    exact hexDigit_ne_dash d
  rw [text]
  generalize u.digits.toList.map hexDigit = hex at apart ⊢
  have kept : ∀ part : Bytes, part ⊆ hex → part.filter (· != dash) = part := by
    intro part inside
    exact List.filter_eq_self.mpr fun b found => by simpa using apart b (inside found)
  have taken : ∀ n m : Nat, (hex.drop n).take m ++ hex.drop (n + m) = hex.drop n := by
    intro n m
    rw [← List.drop_drop, List.take_append_drop]
  have group : ∀ n m : Nat, ((hex.drop n).take m).filter (· != dash) = (hex.drop n).take m :=
    fun n m => kept _ (List.Subset.trans (List.take_subset ..) (List.drop_subset ..))
  simp only [List.filter_append, List.filter_cons, bne_self_eq_false, Bool.false_eq_true, if_false]
  rw [kept _ (List.take_subset ..), kept _ (List.drop_subset ..), group 8 4, group 12 4,
    group 16 4, taken 16 4, taken 12 4, taken 8 4, List.take_append_drop]

theorem text_injective : Function.Injective text := by
  intro u v same
  have digits := congrArg (List.filter (· != dash)) same
  rw [text_digits, text_digits] at digits
  have lists := List.map_injective_iff.mpr hexDigit_injective digits
  obtain ⟨du⟩ := u
  obtain ⟨dv⟩ := v
  exact congrArg Uuid.mk (Vector.toList_inj.mp lists)

end Uuid

/-! ## Values and conditions -/

inductive Value where
  | null
  | str (s : Bytes)
  | uuid (u : Uuid)
  | int (n : Nat)
  | time (milliseconds : Int)
  | micros (microseconds : Int)
  | date (days : Int)
  | array (items : List Bytes)
  deriving DecidableEq

/-- A condition is a `UInt8`, or NULL. -/
def Value.ofTruth : Truth → Value
  | .no => .int 0
  | .unknown => .null
  | .yes => .int 1

def Value.truth : Value → Option Truth
  | .null => some .unknown
  | .int n => some (.ofBool (decide (n ≠ 0)))
  | _ => none

def Value.ofOption {α : Type} (f : α → Value) : Option α → Value
  | none => .null
  | some a => f a

@[simp] theorem truth_ofTruth (t : Truth) : (Value.ofTruth t).truth = some t := by
  cases t <;> rfl

def compareOf {α : Type} [DecidableEq α] (le : α → α → Bool) : Cmp → α → α → Truth
  | .eq, a, b => .ofBool (decide (a = b))
  | .ne, a, b => .ofBool (decide (a ≠ b))
  | .le, a, b => .ofBool (le a b)
  | .lt, a, b => .ofBool (!le b a)
  | .ge, a, b => .ofBool (le b a)
  | .gt, a, b => .ofBool (!le a b)

def strLe (a b : Bytes) : Bool := decide (a ≤ b)

/-- A comparison with NULL is unknown; only values of one type compare, and a `DateTime64`
of milliseconds with one of microseconds at the finer scale. -/
def compare (op : Cmp) : Value → Value → Option Truth
  | .null, _ | _, .null => some .unknown
  | .str a, .str b => some (compareOf strLe op a b)
  | .int a, .int b => some (compareOf (fun a b => decide (a ≤ b)) op a b)
  | .time a, .time b => some (compareOf (fun a b => decide (a ≤ b)) op a b)
  | .time a, .micros b => some (compareOf (fun a b => decide (a ≤ b)) op (a * 1000) b)
  | .date a, .date b => some (compareOf (fun a b => decide (a ≤ b)) op a b)
  | .uuid a, .uuid b =>
    match op with
    | .eq => some (.ofBool (decide (a = b)))
    | .ne => some (.ofBool (decide (a ≠ b)))
    | _ => none
  | _, _ => none

def member : Value → Value → Option Truth
  | .null, .array _ => some .unknown
  | .str s, .array items => some (.ofBool (decide (s ∈ items)))
  | _, _ => none

/-! ## Functions -/

/-- The functions of the statements; `cond` is `if`, `search` is `match`. -/
inductive Func where
  | toString
  | ifNull
  | cond
  | trimBoth
  | lowerUTF8
  | replaceAll
  | replaceRegexpAll
  | length
  | search
  | has
  | splitByChar
  | arrayElement
  | notEmpty
  | cast
  | concat
  | now64
  | toDate
  deriving DecidableEq

/-- What the server brings: the lower case of Unicode, its regular expressions, the clock
of the statement and the setting for the columns of an unmatched `LEFT JOIN`. -/
structure Engine where
  lowerUTF8 : Bytes → Bytes
  replaceRegexpAll : Bytes → Bytes → Bytes → Bytes
  search : Bytes → Bytes → Bool
  now : Int
  joinUseNulls : Bool

def trimBoth (s : Bytes) : Bytes :=
  ((s.dropWhile (· == 0x20)).reverse.dropWhile (· == 0x20)).reverse

/-- Replaces from left to right; every round reads at least one byte. -/
def replaceLoop (pattern replacement : Bytes) : Nat → Bytes → Bytes
  | 0, s => s
  | _ + 1, [] => []
  | fuel + 1, b :: rest =>
    if pattern.isPrefixOf (b :: rest) then
      replacement ++ replaceLoop pattern replacement fuel ((b :: rest).drop pattern.length)
    else b :: replaceLoop pattern replacement fuel rest

def replaceAll (s pattern replacement : Bytes) : Bytes :=
  if pattern = [] then s else replaceLoop pattern replacement s.length s

def splitByChar (separator : UInt8) : Bytes → List Bytes
  | [] => [[]]
  | b :: rest =>
    if b = separator then [] :: splitByChar separator rest
    else
      match splitByChar separator rest with
      | [] => [[b]]
      | first :: more => (b :: first) :: more

theorem splitByChar_first (separator : UInt8) (s : Bytes) :
    ∃ more, splitByChar separator s = s.takeWhile (· != separator) :: more := by
  induction s with
  | nil => exact ⟨[], rfl⟩
  | cons b rest ih =>
    obtain ⟨more, same⟩ := ih
    by_cases found : b = separator
    · exact ⟨splitByChar separator rest, by simp [splitByChar, found]⟩
    · exact ⟨more, by simp [splitByChar, found, same]⟩

/-- In UTC, in days since the epoch. -/
def toDate (micros : Int) : Int := micros / (86400 * 1000000)

def asStr : Value → Option Bytes
  | .str s => some s
  | _ => none

/-- A function of values that are not NULL. -/
def strict (engine : Engine) : Func → List Value → Option Value
  | .toString, [.str s] => some (.str s)
  | .toString, [.uuid u] => some (.str u.text)
  | .trimBoth, [.str s] => some (.str (trimBoth s))
  | .lowerUTF8, [.str s] => some (.str (engine.lowerUTF8 s))
  | .replaceAll, [.str s, .str pattern, .str replacement] =>
    some (.str (replaceAll s pattern replacement))
  | .replaceRegexpAll, [.str s, .str pattern, .str replacement] =>
    some (.str (engine.replaceRegexpAll s pattern replacement))
  | .length, [.str s] => some (.int s.length)
  | .search, [.str s, .str pattern] => some (.ofTruth (.ofBool (engine.search s pattern)))
  | .has, [.array items, .str s] => some (.ofTruth (.ofBool (decide (s ∈ items))))
  | .splitByChar, [.str [separator], .str s] => some (.array (splitByChar separator s))
  | .arrayElement, [.array items, .int (n + 1)] => some (.str (items.getD n []))
  | .notEmpty, [.array items] => some (.ofTruth (.ofBool (decide (items ≠ []))))
  | .cast, [.array items, .str type] =>
    if type = ascii "Array(String)" then some (.array items) else none
  | .concat, args => (args.mapM asStr).map fun parts => .str parts.flatten
  | .now64, [.int 3] => some (.time engine.now)
  | .toDate, [.micros micros] => some (.date (toDate micros))
  | _, _ => none

/-- `ifNull` and `if` read a NULL; of every other function it makes the result NULL. -/
def call (engine : Engine) : Func → List Value → Option Value
  | .ifNull, [.null, b] => some b
  | .ifNull, [a, _] => some a
  | .cond, [c, a, b] => c.truth.map fun t => if t = .yes then a else b
  | f, args => if Value.null ∈ args then some .null else strict engine f args

end DevHealth.Clickhouse

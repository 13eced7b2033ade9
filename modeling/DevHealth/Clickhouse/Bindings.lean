import DevHealth.Go.TimeFormat
import DevHealth.Lib.Fallible
import DevHealth.Lib.QuotedList
import DevHealth.Lib.Regex

/-! # Query parameters of the native protocol

`translateBindings` turns the bindings of a statement into parameter texts, or refuses them
all.  A list of strings is written as an array literal with every quote doubled; a
backslash has no safe encoding there and is refused. -/
set_option autoImplicit false
namespace DevHealth.Clickhouse

open Go Lib

inductive BindingSentinel where
  | invalidBinding
  | unsupportedBinding
  | unsafeBindingValue
  deriving DecidableEq, Repr

structure BindingError where
  what : String
  sentinel : BindingSentinel
  deriving DecidableEq, Repr

/-- A value of type `any` as far as `clickHouseParameter` tells values apart: `strings` is
a `[]string`, `slice` any other slice or array, and `other` a value of a kind that has no
case. -/
inductive BindingValue where
  | nil
  | time (t : Time)
  | strings (values : List Bytes)
  | string (s : Bytes)
  | uint (n : UInt64)
  | int (n : Int64)
  | slice
  | other

structure Binding where
  name : Bytes
  value : BindingValue

/-- `^[A-Za-z_][A-Za-z0-9_]*$` -/
def bindingName : Regex UInt8 :=
  let letter (b : UInt8) := between 'A' 'Z' b || between 'a' 'z' b || isByte '_' b
  .seq (.cls letter) (.star (.cls fun b => letter b || between '0' '9' b))

def singleQuote : UInt8 := 0x27

def backslash : UInt8 := 0x5C

/-- `strings.ReplaceAll` of one byte. -/
def replaceAllByte (s : Bytes) (old : UInt8) (new : Bytes) : Bytes :=
  s.flatMap fun b => if b = old then new else [b]

def clickHouseQuotedString (value : Bytes) : Except BindingError Bytes :=
  if value.contains backslash then .error ⟨"binding value", .unsafeBindingValue⟩
  else .ok (replaceAllByte value singleQuote [singleQuote, singleQuote])

def clickHouseStringArray (values : List Bytes) : Except BindingError Bytes := do
  let encoded ← values.mapM fun value => do
    let quoted ← clickHouseQuotedString value
    pure (ascii "'" ++ quoted ++ ascii "'")
  pure (ascii "[" ++ join (ascii ",") encoded ++ ascii "]")

def clickHouseParameter : BindingValue → Except BindingError Bytes
  | .nil => .ok (ascii "\\\\N")
  | .time t => .ok t.formatMillis
  | .strings values => clickHouseStringArray values
  | .string s => .ok s
  | .uint n => .ok (decimal n.toNat)
  | .int n => .ok (formatInt n.toInt)
  | .slice => .error ⟨"binding value", .unsupportedBinding⟩
  | .other => .error ⟨"binding value", .invalidBinding⟩

/-- A `map[string]string`, in the order its keys were set. -/
abbrev Parameters := List (Bytes × Bytes)

def translateLoop : List Binding → Parameters → Except BindingError Parameters
  | [], parameters => .ok parameters
  | binding :: rest, parameters =>
    if !bindingName.accepts binding.name then .error ⟨"binding name", .invalidBinding⟩
    else if (parameters.lookup binding.name).isSome then
      .error ⟨"duplicate binding", .invalidBinding⟩
    else do
      let value ← clickHouseParameter binding.value
      translateLoop rest (parameters ++ [(binding.name, value)])

def translateBindings (bindings : List Binding) : Except BindingError Parameters :=
  translateLoop bindings []

/-! ## Array literals -/

/-- An array literal: bracketed, elements in single quotes, two quotes for one. -/
def arrayMarks : ListMarks UInt8 where
  opening := 0x5B
  closing := 0x5D
  comma := 0x2C
  quote := singleQuote
  closing_ne_quote := by decide
  comma_ne_quote := by decide
  closing_ne_comma := by decide

def readStringArray (text : Bytes) : Option (List Bytes) := arrayMarks.read text

theorem quotedString_ok {value : Bytes} (plain : backslash ∉ value) :
    clickHouseQuotedString value = .ok (value.flatMap arrayMarks.escaped) := by
  rw [clickHouseQuotedString, if_neg (by simpa using plain)]
  rfl

theorem quotedString_error {value : Bytes} (marked : backslash ∈ value) :
    clickHouseQuotedString value = .error ⟨"binding value", .unsafeBindingValue⟩ := by
  rw [clickHouseQuotedString, if_pos (by simpa using marked)]

theorem join_items (values : List Bytes) :
    join (ascii ",") (values.map arrayMarks.quoted) = arrayMarks.items values := by
  induction values with
  | nil => rfl
  | cons value values ih =>
    cases values with
    | nil => simp [join, ListMarks.items, ListMarks.others]
    | cons next values =>
      rw [List.map_cons] at ih
      rw [List.map_cons, List.map_cons, join, ih, List.append_assoc]
      · rfl
      · exact List.cons_ne_nil _ _

theorem stringArray_ok {values : List Bytes} (plain : ∀ value ∈ values, backslash ∉ value) :
    clickHouseStringArray values = .ok (arrayMarks.write values) := by
  have encoded : (values.mapM fun value => do
      let quoted ← clickHouseQuotedString value
      pure (ascii "'" ++ quoted ++ ascii "'") : Except BindingError (List Bytes)) =
      .ok (values.map arrayMarks.quoted) := by
    induction values with
    | nil => rfl
    | cons value values ih =>
      rw [List.mapM_cons, quotedString_ok (plain value (List.mem_cons_self ..)),
        ih fun v inside => plain v (List.mem_cons_of_mem _ inside)]
      rfl
  rw [clickHouseStringArray, encoded]
  have written := congrArg (fun items => ascii "[" ++ items ++ ascii "]") (join_items values)
  exact congrArg Except.ok written

theorem stringArray_error {values : List Bytes} {value : Bytes} (inside : value ∈ values)
    (marked : backslash ∈ value) : ∃ e, clickHouseStringArray values = .error e := by
  cases result : clickHouseStringArray values with
  | error e => exact ⟨e, rfl⟩
  | ok text =>
    rw [clickHouseStringArray] at result
    obtain ⟨encoded, all, -⟩ := bind_ok.mp result
    exfalso
    clear result
    induction values generalizing encoded with
    | nil => cases inside
    | cons first values ih =>
      rw [List.mapM_cons] at all
      obtain ⟨text, quoted, rest⟩ := bind_ok.mp all
      obtain ⟨more, others, -⟩ := bind_ok.mp rest
      rcases List.mem_cons.mp inside with rfl | later
      · rw [quotedString_error marked] at quoted
        cases quoted
      · exact ih later more others

/-! ## All bindings or none -/

theorem translateLoop_ok {bindings : List Binding} {parameters result : Parameters}
    (translated : translateLoop bindings parameters = .ok result) :
    ∀ binding ∈ bindings, ∃ text, clickHouseParameter binding.value = .ok text := by
  induction bindings generalizing parameters with
  | nil =>
    intro binding absent
    cases absent
  | cons first rest ih =>
    intro binding inside
    rw [translateLoop] at translated
    split at translated
    · cases translated
    · split at translated
      · cases translated
      · obtain ⟨text, value, later⟩ := bind_ok.mp translated
        rcases List.mem_cons.mp inside with rfl | inside
        · exact ⟨text, value⟩
        · exact ih later binding inside

/-- The parameter of a name is the text of the first binding that has it. -/
theorem lookup_translated {bindings : List Binding} {parameters result : Parameters}
    (translated : translateLoop bindings parameters = .ok result) (name : Bytes) :
    result.lookup name = (parameters.lookup name).or
      ((bindings.find? fun b => b.name == name).bind fun b => (clickHouseParameter b.value).toOption) := by
  induction bindings generalizing parameters with
  | nil =>
    cases translated
    simp
  | cons first rest ih =>
    rw [translateLoop] at translated
    split at translated
    · cases translated
    · split at translated
      · cases translated
      · rename_i fresh
        obtain ⟨text, value, later⟩ := bind_ok.mp translated
        rw [ih later, List.lookup_append, List.find?_cons]
        by_cases same : first.name = name
        · subst same
          simp [Option.not_isSome_iff_eq_none.mp fresh, value, Except.toOption]
        · have apart : (first.name == name) = false := by simpa using same
          have apart' : (name == first.name) = false := by simpa using Ne.symm same
          simp [apart, apart', List.lookup_cons]

/-- A binding carries a string with a backslash in a list of strings. -/
def HasBackslash (binding : Binding) : Prop :=
  ∃ values, binding.value = .strings values ∧ ∃ value ∈ values, backslash ∈ value

/-- A list of strings without a backslash is read back from its text, whatever else its
strings hold; a backslash in any list of strings refuses all bindings. -/
theorem stringArray_roundTrip (values : List Bytes) (bindings : List Binding) :
    ((∀ value ∈ values, backslash ∉ value) →
        ∃ text, clickHouseStringArray values = .ok text ∧ readStringArray text = some values) ∧
      ((∃ binding ∈ bindings, HasBackslash binding) →
        ∃ e, translateBindings bindings = .error e) := by
  constructor
  · intro plain
    exact ⟨_, stringArray_ok plain, arrayMarks.read_write values⟩
  · intro marked
    obtain ⟨binding, inside, list, isList, value, listed, backslashed⟩ := marked
    cases translated : translateBindings bindings with
    | error e => exact ⟨e, rfl⟩
    | ok parameters =>
      obtain ⟨text, made⟩ := translateLoop_ok translated binding inside
      obtain ⟨e, refused⟩ := stringArray_error listed backslashed
      rw [isList, clickHouseParameter, refused] at made
      cases made

theorem stringArray_roundTrip_quotes :
    (∃ text, clickHouseStringArray [ascii "','", []] = .ok text ∧
        readStringArray text = some [ascii "','", []]) ∧
      ∃ e, translateBindings [⟨ascii "limit", .uint 5⟩, ⟨ascii "ids", .strings [ascii "a\\"]⟩] =
        .error e := by
  obtain ⟨read, refuse⟩ := stringArray_roundTrip [ascii "','", []]
    [⟨ascii "limit", .uint 5⟩, ⟨ascii "ids", .strings [ascii "a\\"]⟩]
  refine ⟨read (by decide), refuse ⟨⟨ascii "ids", .strings [ascii "a\\"]⟩, ?_, ?_⟩⟩
  · exact List.mem_cons_of_mem _ (List.mem_cons_self ..)
  · exact ⟨_, rfl, ascii "a\\", List.mem_cons_self .., by decide⟩

end DevHealth.Clickhouse

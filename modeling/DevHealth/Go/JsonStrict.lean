import DevHealth.Go.JsonDecoder

/-! # Documents without repeated names

A recursive walk over the tokens of a decoder that refuses an object with two
names that are the same, in the sense of a given test on the unquoted names, and a
value too far below the root.  `strictDocument_iff` says which texts the walk accepts:
one value with white space around it, whose tree has the three properties that
the walk checks. -/
set_option autoImplicit false
namespace DevHealth.Go

open Lib

variable (same : Bytes → Bytes → Bool)

/-- The members of an object, up to its closing bracket.  Every round reads a name,
so the length of the text is fuel enough. -/
def objectLoop (child : Decoder → Option Decoder) : Nat → List Bytes → Decoder → Option Decoder
  | 0, _, d => if d.more then none else some d
  | fuel + 1, seen, d =>
    if d.more then
      match d.token with
      | .ok (.scalar (.str content), d) =>
        if seen.any (same · (unquote content)) then none
        else (child d).bind (objectLoop child fuel (seen ++ [unquote content]))
      | _ => none
    else some d

def arrayLoop (child : Decoder → Option Decoder) : Nat → Decoder → Option Decoder
  | 0, d => if d.more then none else some d
  | fuel + 1, d => if d.more then (child d).bind (arrayLoop child fuel) else some d

/-- One more token, whatever it is. -/
def closing (d : Decoder) : Option Decoder :=
  match d.token with
  | .ok (_, d) => some d
  | .error _ => none

/-- One value and the values below it, down to `levels` levels.  `stray` says what
becomes of a closing bracket in the place of a value, which no caller of the walk can
meet. -/
def strictValue (stray : Decoder → Option Decoder) : Nat → Decoder → Option Decoder
  | 0, _ => none
  | levels + 1, d =>
    match d.token with
    | .error _ => none
    | .ok (.scalar _, d) => some d
    | .ok (.opens .object, d) =>
      (objectLoop same (strictValue stray levels) d.rest.length [] d).bind closing
    | .ok (.opens .array, d) =>
      (arrayLoop (strictValue stray levels) d.rest.length d).bind closing
    | .ok (.closes _, d) => stray d

def Decoder.atEnd (d : Decoder) : Bool :=
  match d.token with
  | .error .eof => true
  | _ => false

def strictDocument (stray : Decoder → Option Decoder) (levels : Nat) (body : Bytes) : Bool :=
  match strictValue same stray levels (.start body) with
  | none => false
  | some d => d.atEnd

/-- What the walk asks of a tree inside `opened` containers: room for its own ones, names
that differ once unquoted, and numbers that have a double. -/
def sameName (a b : Bytes) : Bool := same (unquote a) (unquote b)

structure Strict {k : Kind} (levels opened : Nat) (t : Json k) : Prop where
  depth : t.depth ≤ levels
  nesting : opened + t.nesting ≤ maxNestingDepth
  names : t.NoRepeats (sameName same)
  numbers : t.AllNumbers fitsDouble

/-! ## Every accepted text is the text of a strict tree -/

variable {same} {stray : Decoder → Option Decoder}

theorem strictValue_congr {levels : Nat} {d e : Decoder} (token : d.token = e.token) :
    strictValue same stray levels d = strictValue same stray levels e := by
  cases levels with
  | zero => rfl
  | succ levels => simp only [strictValue, token]

def ValueRead (same : Bytes → Bytes → Bool) (levels : Nat) (d after : Decoder) : Prop :=
  ∃ lead, ∃ t : Json .value, IsBlank lead ∧ d.rest = lead ++ (t.text ++ after.rest) ∧
    after.state = d.state.valueEnd ∧ after.stack = d.stack ∧ t.depth + 1 ≤ levels ∧
    d.stack.length + t.nesting ≤ maxNestingDepth ∧ t.NoRepeats (sameName same) ∧ t.AllNumbers fitsDouble

def Sound (same : Bytes → Bytes → Bool) (levels : Nat) (child : Decoder → Option Decoder) : Prop :=
  ∀ d after, d.state.allowsValue = true → (d.state = .arrayStart → Open d.rest) →
    d.stack.length ≤ maxNestingDepth → child d = some after → ValueRead same levels d after

structure RestRead (same : Bytes → Bytes → Bool) (levels : Nat) (outer : TokenState)
    (below : List TokenState) (d after : Decoder) {k : Kind} (t : Json k) : Prop where
  text : d.rest = t.text ++ after.rest
  state : after.state = outer.valueEnd
  stack : after.stack = below
  strict : Strict same levels (below.length + 1) t

theorem closing_inv {d after : Decoder} {box : Box} {outer : TokenState} {stack : List TokenState}
    (ended : d.more = false) (inside : d.state = boxStart box ∨ d.state = boxComma box)
    (around : d.stack = outer :: stack) (success : closing d = some after) :
    ∃ gap, IsBlank gap ∧ d.rest = gap ++ box.closes :: after.rest ∧
      after.state = outer.valueEnd ∧ after.stack = stack := by
  unfold closing at success
  split at success
  · rename_i read
    cases success
    obtain ⟨gap, r, blank, text, rfl⟩ := token_close_inv ended inside around read
    exact ⟨gap, blank, text, rfl, rfl⟩
  · cases success

theorem token_of_strictValue {levels : Nat} {d after : Decoder}
    (walked : strictValue same stray levels d = some after) : ∃ p, d.token = .ok p := by
  cases levels with
  | zero => cases walked
  | succ levels =>
    simp only [strictValue] at walked
    split at walked
    · cases walked
    · exact ⟨_, by assumption⟩
    · exact ⟨_, by assumption⟩
    · exact ⟨_, by assumption⟩
    · exact ⟨_, by assumption⟩

theorem walked_after_comma {levels : Nat} {d after : Decoder} (more : d.more = true)
    (between : d.state = .arrayComma) (walked : strictValue same stray levels d = some after) :
    ∃ gap s, IsBlank gap ∧ d.rest = gap ++ comma :: s ∧
      strictValue same stray levels ⟨s, .arrayValue, d.stack⟩ = some after := by
  obtain ⟨⟨tok, d'⟩, read⟩ := token_of_strictValue walked
  have token := read
  rw [Decoder.token, between] at token
  obtain ⟨gap, s, blank, split, inner⟩ := token_comma_inv (Or.inl ⟨rfl, rfl⟩) (open_of_more more) token
  refine ⟨gap, s, blank, split, ?_⟩
  rw [← walked]
  exact strictValue_congr (inner.trans read.symm)

theorem walked_after_name {levels : Nat} {d after : Decoder} (named : d.state = .objectColon)
    (walked : strictValue same stray levels d = some after) :
    ∃ gap s, IsBlank gap ∧ d.rest = gap ++ colon :: s ∧
      strictValue same stray levels ⟨s, .objectValue, d.stack⟩ = some after := by
  obtain ⟨⟨tok, d'⟩, read⟩ := token_of_strictValue walked
  have token := read
  rw [Decoder.token, named] at token
  obtain ⟨gap, s, blank, split, inner⟩ := token_objectColon_inv token
  refine ⟨gap, s, blank, split, ?_⟩
  rw [← walked]
  exact strictValue_congr (inner.trans read.symm)

variable {seen : List Bytes} {t : Json .value} {fuel : Nat} {b : Box}

def boxLoop (same : Bytes → Bytes → Bool) (child : Decoder → Option Decoder) :
    Box → Nat → List Bytes → Decoder → Option Decoder
  | .array => fun fuel _ d => arrayLoop child fuel d
  | .object => objectLoop same child

/-- Where an element may start: right after the opening bracket, or after a comma. -/
inductive Before (b : Box) : TokenState → Bytes → Prop
  | start : Before b (boxStart b) []
  | comma {gap : Bytes} (blank : IsBlank gap) : Before b (boxComma b) (gap ++ [comma])

/-- What is left of a container: all of it, or what follows an element. -/
inductive Left (b : Box) : TokenState → Kind → Prop
  | start : Left b (boxStart b) (.body b)
  | comma : Left b (boxComma b) (.tail b)

def memberNames {k : Kind} (t : Json k) : List Bytes := t.entries.map fun e => unquote e.1

/-- Names that differ from those already seen and from each other. -/
def Fresh (same : Bytes → Bytes → Bool) (seen names : List Bytes) : Prop :=
  (∀ a ∈ seen, ∀ b ∈ names, same a b = false) ∧ names.Pairwise fun a b => same a b = false

theorem fresh_nil (seen : List Bytes) : Fresh same seen [] := by
  refine ⟨fun a _ b member => ?_, List.Pairwise.nil⟩
  cases member

theorem fresh_cons_iff {seen names : List Bytes} {name : Bytes} : Fresh same seen (name :: names) ↔
      seen.any (same · name) = false ∧ Fresh same (seen ++ [name]) names := by
  simp only [Fresh, List.pairwise_cons, List.any_eq_false, List.mem_append, List.mem_cons, Bool.not_eq_true]
  grind

def NamesFresh (same : Bytes → Bytes → Bool) (b : Box) (seen names : List Bytes) : Prop :=
  b = .object → Fresh same seen names

section Loops

variable {levels : Nat} {outer : TokenState} {stack : List TokenState} {d after : Decoder}

def BoxRead (same : Bytes → Bytes → Bool) (b : Box) (levels : Nat) (seen : List Bytes)
    (outer : TokenState) (stack : List TokenState) (d after : Decoder) : Prop :=
  ∃ k, ∃ t : Json k, Left b d.state k ∧ RestRead same levels outer stack d after t ∧
    NamesFresh same b seen (memberNames t)

theorem box_closed (ended : d.more = false) (inside : d.state = boxStart b ∨ d.state = boxComma b)
    (around : d.stack = outer :: stack) (room : stack.length < maxNestingDepth) (success : closing d = some after) :
    BoxRead same b levels seen outer stack d after := by
  obtain ⟨gap, blank, text, state, rest⟩ := closing_inv ended inside around success
  rcases inside with start | between
  · exact ⟨.body b, .empty gap blank, start ▸ .start, ⟨by simp [Json.text, text], state, rest,
      Nat.zero_le _, room, trivial, trivial⟩, fun _ => fresh_nil seen⟩
  · exact ⟨.tail b, .close gap blank, between ▸ .comma, ⟨by simp [Json.text, text], state, rest,
      Nat.zero_le _, room, trivial, trivial⟩, fun _ => fresh_nil seen⟩

/-- An element as the walk read it, from `d` to `next`. -/
structure ElementRead (same : Bytes → Bytes → Bool) (levels : Nat) (d next : Decoder)
    (before : Bytes) (label : Label b) (lead : Bytes) (value : Json .value) : Prop where
  place : Before b d.state before
  blank : IsBlank lead
  text : d.rest = before ++ (label.text ++ (lead ++ (value.text ++ next.rest)))
  state : next.state = boxComma b
  stack : next.stack = d.stack
  depth : value.depth + 1 ≤ levels
  nesting : d.stack.length + value.nesting ≤ maxNestingDepth
  names : value.NoRepeats (sameName same)
  numbers : value.AllNumbers fitsDouble

theorem box_element {next : Decoder} {before lead : Bytes} {label : Label b} {value : Json .value}
    {seen' : List Bytes} (element : ElementRead same levels d next before label lead value)
    (around : d.stack = outer :: stack)
    (fresh : ∀ names, NamesFresh same b seen' names → NamesFresh same b seen (unquote label.content :: names))
    (rest : BoxRead same b levels seen' outer stack next after) :
    BoxRead same b levels seen outer stack d after := by
  obtain ⟨k, tail, left, read, tailFresh⟩ := rest
  rw [element.state] at left
  obtain rfl : k = .tail b := by cases b <;> cases left <;> rfl
  have depth := max_le element.depth read.strict.depth
  have nesting : stack.length + 1 + max value.nesting tail.nesting ≤ maxNestingDepth := by
    have first := element.nesting
    have later := read.strict.nesting
    rw [around, List.length_cons] at first
    omega
  have names := And.intro element.names read.strict.names
  have numbers := And.intro element.numbers read.strict.numbers
  have text := element.text
  rw [read.text] at text
  obtain ⟨whole, state, around⟩ := d
  cases element.place with
  | start =>
    refine ⟨_, .first label lead element.blank value tail, .start, ⟨?_, read.state, read.stack,
      depth, nesting, names, numbers⟩, fresh _ tailFresh⟩
    simpa [Json.text] using text
  | comma blank =>
    refine ⟨_, .next _ blank label lead element.blank value tail, .comma, ⟨?_, read.state,
      read.stack, depth, nesting, names, numbers⟩, fresh _ tailFresh⟩
    simpa [Json.text] using text

theorem array_element (sound : Sound same levels (strictValue same stray levels))
    {next : Decoder} (more : d.more = true) (room : d.stack.length ≤ maxNestingDepth)
    (inside : d.state = boxStart .array ∨ d.state = boxComma .array)
    (walked : strictValue same stray levels d = some next) :
    ∃ before lead value, ElementRead same levels d next before Label.item lead value := by
  rcases inside with start | between
  · obtain ⟨lead, t, blank, text, state, rest, depth, nesting, names, numbers⟩ :=
      sound d next (by rw [start]; rfl) (fun _ => open_of_more more) room walked
    rw [start] at state
    exact ⟨[], lead, t, start ▸ .start, blank, text, state, rest, depth, nesting, names, numbers⟩
  · obtain ⟨gap, s, gapBlank, split, walked⟩ := walked_after_comma more between walked
    obtain ⟨lead, t, blank, text, state, rest, depth, nesting, names, numbers⟩ :=
      sound ⟨s, .arrayValue, d.stack⟩ next rfl (fun start => by cases start) room walked
    refine ⟨gap ++ [comma], lead, t, between ▸ .comma gapBlank, blank, ?_, state, rest, depth, nesting,
      names, numbers⟩
    simp only at text
    simp [Label.text, split, text]

theorem objectRound_inv {child : Decoder → Option Decoder} (more : d.more = true)
    (success : (objectLoop same child (fuel + 1) seen d).bind closing = some after) :
    ∃ content named next, d.token = .ok (.scalar (.str content), named) ∧
      seen.any (same · (unquote content)) = false ∧ child named = some next ∧
      (objectLoop same child fuel (seen ++ [unquote content]) next).bind closing = some after := by
  simp only [objectLoop, more, if_true] at success
  split at success
  · rename_i content named read
    split at success
    · cases success
    · rename_i unseen
      rw [Option.bind_assoc] at success
      obtain ⟨next, walked, rest⟩ := Option.bind_eq_some_iff.mp success
      exact ⟨content, named, next, read, Bool.eq_false_iff.mpr unseen, walked, rest⟩
  · cases success

/-- What stands in front of a name: nothing after the opening bracket, or a comma. -/
def NamePlace (d : Decoder) (before : Bytes) : Prop :=
  (d.state = .objectStart ∧ before = []) ∨
    (d.state = .objectComma ∧ ∃ gap, IsBlank gap ∧ before = gap ++ [comma])

theorem NamePlace.before {before : Bytes} (place : NamePlace d before) : Before .object d.state before := by
  rcases place with ⟨start, rfl⟩ | ⟨between, gap, blank, rfl⟩
  · exact start ▸ .start
  · exact between ▸ .comma blank

theorem name_text {content : Bytes} {named : Decoder} (more : d.more = true)
    (inside : d.state = .objectStart ∨ d.state = .objectComma)
    (read : d.token = .ok (.scalar (.str content), named)) :
    ∃ before gap r, NamePlace d before ∧ IsBlank gap ∧ IsContent content ∧
      d.rest = before ++ (gap ++ quoteMark :: (content ++ quoteMark :: r)) ∧
      named = ⟨r, .objectColon, d.stack⟩ := by
  rcases inside with start | between
  · rw [Decoder.token, start] at read
    obtain ⟨gap, content', r, blank, valid, text, same, rfl⟩ := token_name_inv (Or.inl rfl) read
    cases same
    exact ⟨[], gap, r, Or.inl ⟨start, rfl⟩, blank, valid, text, rfl⟩
  · rw [Decoder.token, between] at read
    obtain ⟨gap, s, blank, split, read⟩ := token_comma_inv (Or.inr ⟨rfl, rfl⟩) (open_of_more more) read
    obtain ⟨lead, content', r, leadBlank, valid, text, same, rfl⟩ := token_name_inv (Or.inr rfl) read
    cases same
    refine ⟨gap ++ [comma], lead, r, Or.inr ⟨between, gap, blank, rfl⟩, leadBlank, valid, ?_, rfl⟩
    simp [split, text]

theorem object_element (sound : Sound same levels (strictValue same stray levels))
    {content : Bytes} {named next : Decoder} (more : d.more = true) (room : d.stack.length ≤ maxNestingDepth)
    (inside : d.state = boxStart .object ∨ d.state = boxComma .object)
    (read : d.token = .ok (.scalar (.str content), named))
    (walked : strictValue same stray levels named = some next) :
    ∃ before, ∃ label : Label .object, ∃ lead value, label.content = content ∧
      ElementRead same levels d next before label lead value := by
  obtain ⟨before, gap, r, place, blank, valid, text, rfl⟩ := name_text more inside read
  obtain ⟨afterName, s, nameBlank, split, walked⟩ := walked_after_name rfl walked
  obtain ⟨lead, t, leadBlank, inner, state, rest, depth, nesting, names, numbers⟩ :=
    sound ⟨s, .objectValue, d.stack⟩ next rfl (fun start => by cases start) room walked
  refine ⟨before, .name gap content afterName blank valid nameBlank, lead, t, rfl, place.before,
    leadBlank, ?_, state, rest, depth, nesting, names, numbers⟩
  simp only at split inner
  simp [Label.text, text, split, inner]

theorem boxRound_inv (sound : Sound same levels (strictValue same stray levels))
    (more : d.more = true) (room : d.stack.length ≤ maxNestingDepth)
    (inside : d.state = boxStart b ∨ d.state = boxComma b)
    (success : (boxLoop same (strictValue same stray levels) b (fuel + 1) seen d).bind closing = some after) :
    ∃ next before, ∃ label : Label b, ∃ lead value seen',
      ElementRead same levels d next before label lead value ∧
      (∀ names, NamesFresh same b seen' names → NamesFresh same b seen (unquote label.content :: names)) ∧
      (boxLoop same (strictValue same stray levels) b fuel seen' next).bind closing =
        some after := by
  cases b with
  | array =>
    simp only [boxLoop, arrayLoop, more, if_true, Option.bind_assoc] at success
    obtain ⟨next, walked, success⟩ := Option.bind_eq_some_iff.mp success
    obtain ⟨before, lead, value, element⟩ := array_element sound more room inside walked
    exact ⟨next, before, .item, lead, value, seen, element, (fun _ _ other => by cases other), success⟩
  | object =>
    obtain ⟨content, named, next, read, unseen, walked, success⟩ := objectRound_inv more success
    obtain ⟨before, label, lead, value, rfl, element⟩ := object_element sound more room inside read walked
    exact ⟨next, before, label, lead, value, _, element,
      (fun _ fresh _ => fresh_cons_iff.mpr ⟨unseen, fresh rfl⟩), success⟩

theorem boxLoop_sound (sound : Sound same levels (strictValue same stray levels))
    (room : stack.length < maxNestingDepth) (fuel : Nat) :
    ∀ seen d, (d.state = boxStart b ∨ d.state = boxComma b) → d.stack = outer :: stack →
      (boxLoop same (strictValue same stray levels) b fuel seen d).bind closing = some after →
      BoxRead same b levels seen outer stack d after := by
  induction fuel with
  | zero =>
    intro seen d inside around success
    cases more : d.more with
    | true => cases b <;> simp [boxLoop, arrayLoop, objectLoop, more] at success
    | false =>
      have closed : closing d = some after := by
        cases b <;> simpa [boxLoop, arrayLoop, objectLoop, more] using success
      exact box_closed more inside around room closed
  | succ fuel ih =>
    intro seen d inside around success
    cases more : d.more with
    | false =>
      have closed : closing d = some after := by
        cases b <;> simpa [boxLoop, arrayLoop, objectLoop, more] using success
      exact box_closed more inside around room closed
    | true =>
      have opened : d.stack.length ≤ maxNestingDepth := around ▸ room
      obtain ⟨next, before, label, lead, value, seen', element, fresh, success⟩ :=
        boxRound_inv sound more opened inside success
      exact box_element element around fresh
        (ih seen' next (Or.inr element.state) (element.stack.trans around) success)

end Loops

theorem names_of_fresh {k : Kind} {t : Json k} (fresh : Fresh same [] (memberNames t)) :
    (t.entries.map Prod.fst).Pairwise fun a b => sameName same a b = false := by
  have apart := fresh.2
  rw [memberNames, List.pairwise_map] at apart
  rw [List.pairwise_map]
  exact apart

theorem strictValue_sound (levels : Nat) : Sound same levels (strictValue same stray levels) := by
  induction levels with
  | zero => intro d after _ _ _ success; cases success
  | succ levels ih =>
    intro d after allowed openArray opened success
    simp only [strictValue] at success
    cases read : d.token with
    | error e => rw [read] at success; cases success
    | ok pair =>
      obtain ⟨tok, inner⟩ := pair
      rw [read] at success
      obtain ⟨gap, s, blank, split, found, token⟩ := token_value_inv allowed read
      cases token with
      | closes box rest _ inside =>
        have start : d.state = .arrayStart ∧ box = .array := by
          cases box <;> rcases inside with here | here <;> rw [here] at allowed <;>
            first | exact ⟨here, rfl⟩ | cases allowed
        obtain ⟨here, rfl⟩ := start
        exact absurd found (openArray here .array rest)
      | @scalar t x isScalar fits r =>
        cases success
        refine ⟨gap, t, blank, split, rfl, rfl, ?_, ?_, ?_, ?_⟩
        · cases t with
          | box body => cases isScalar
          | _ => exact Nat.le_add_left ..
        · cases t with
          | box body => cases isScalar
          | _ => exact opened
        · cases t with
          | box body => cases isScalar
          | _ => trivial
        · cases t with
          | num digits valid => cases isScalar; exact fits
          | box body => cases isScalar
          | _ => trivial
      | opens box rest room =>
        have loop : (boxLoop same (strictValue same stray levels) box rest.length []
            ⟨rest, boxStart box, d.state :: d.stack⟩).bind closing = some after := by
          cases box <;> exact success
        obtain ⟨k, body, left, bodyRead, fresh⟩ := boxLoop_sound ih room _ [] _ (Or.inl rfl) rfl loop
        obtain rfl : k = .body box := by cases box <;> cases left <;> rfl
        refine ⟨gap, .box body, blank, ?_, bodyRead.state, bodyRead.stack,
          Nat.succ_le_succ bodyRead.strict.depth, ?_, ?_, bodyRead.strict.numbers⟩
        · rw [split, Json.text, List.cons_append, ← bodyRead.text]
        · have nesting := bodyRead.strict.nesting
          rw [Json.nesting]
          omega
        · cases box with
          | array => exact bodyRead.strict.names
          | object => exact ⟨names_of_fresh (fresh rfl), bodyRead.strict.names⟩

/-! ## Every strict tree is accepted -/

theorem head_of_value (t : Json .value) :
    ∃ b s, t.text = b :: s ∧ isSpace b = false ∧ b ≠ 0x5D ∧ b ≠ 0x7D := by
  cases scalar : scalarOf t with
  | some x =>
    obtain ⟨b, s, text, solid⟩ := head_of_scalar scalar
    simp only [isPunctuation, Bool.or_eq_false_iff, beq_eq_false_iff_ne] at solid
    exact ⟨b, s, text, solid.1.1.1.1.1.1, solid.1.1.1.1.2, solid.1.1.2⟩
  | none =>
    cases t with
    | @box b body => cases b <;> exact ⟨_, _, rfl, by decide, by decide, by decide⟩
    | _ => cases scalar

theorem more_of_head {lead s : Bytes} {b : UInt8} {state : TokenState} {stack : List TokenState}
    (blank : IsBlank lead) (solid : isSpace b = false) (notBracket : b ≠ 0x5D)
    (notBrace : b ≠ 0x7D) : Decoder.more ⟨lead ++ b :: s, state, stack⟩ = true := by
  simp [Decoder.more, skipSpace_blank blank, skipSpace_cons solid, notBracket, notBrace]

theorem ends_of_blank {trail : Bytes} (blank : IsBlank trail) : Ends trail := by
  intro b s split
  have space := blank b (by rw [split]; exact List.mem_cons_self ..)
  simp only [Lib.isSpace, Bool.or_eq_true, beq_iff_eq] at space
  rcases space with ((rfl | rfl) | rfl) | rfl <;> decide

theorem ends_of_gap {gap s : Bytes} {b : UInt8} (blank : IsBlank gap)
    (stop : isDigit b = false ∧ b ≠ 0x2E ∧ isExponentMark b = false) : Ends (gap ++ b :: s) := by
  intro c rest split
  cases gap with
  | nil =>
    cases split
    exact stop
  | cons space gap =>
    cases split
    exact ends_of_blank blank c gap rfl

theorem ends_of_tail (t : Json (.tail b)) (r : Bytes) : Ends (t.text ++ r) := by
  cases t with
  | close gap blank =>
    rw [Json.text, List.append_assoc]
    exact ends_of_gap blank (by cases b <;> decide)
  | next gap blank label lead leadBlank value tail =>
    rw [Json.text, List.append_assoc]
    exact ends_of_gap blank (by decide)

theorem entries_le_text {k : Kind} (t : Json k) : t.entries.length ≤ t.text.length := by
  induction t with
  | first label lead leadBlank value tail _ ih =>
    obtain ⟨b, s, text, _⟩ := head_of_value value
    simp only [Json.entries, Json.text, List.length_append, List.length_cons, text]
    omega
  | next gap blank label lead leadBlank value tail _ ih =>
    simp only [Json.entries, Json.text, List.length_append, List.length_cons]
    omega
  | _ => simp [Json.entries]

theorem boxLoop_closed {child : Decoder → Option Decoder} {gap r : Bytes} (blank : IsBlank gap)
    {state outer : TokenState} {stack : List TokenState}
    (inside : state = boxStart b ∨ state = boxComma b) :
    (boxLoop same child b fuel seen ⟨gap ++ [b.closes] ++ r, state, outer :: stack⟩).bind closing =
      some ⟨r, outer.valueEnd, stack⟩ := by
  have text : gap ++ [b.closes] ++ r = gap ++ b.closes :: r := by simp
  have ended : Decoder.more ⟨gap ++ b.closes :: r, state, outer :: stack⟩ = false := by
    have solid : isSpace b.closes = false := by cases b <;> decide
    rw [Decoder.more, skipSpace_blank blank, skipSpace_cons solid]
    cases b <;> rfl
  have stops : boxLoop same child b fuel seen ⟨gap ++ b.closes :: r, state, outer :: stack⟩ =
      some ⟨gap ++ b.closes :: r, state, outer :: stack⟩ := by
    cases b <;> cases fuel <;> simp [boxLoop, arrayLoop, objectLoop, ended]
  rw [text, stops, Option.bind_some, closing, Decoder.token, tokenFrom_blank blank, token_close b inside]

section Rounds

variable {levels : Nat} {state : TokenState} {stack : List TokenState} {before s : Bytes}

/-- A value that the walk reads wherever one is allowed inside so many containers. -/
def ReadsValue (same : Bytes → Bytes → Bool) (stray : Decoder → Option Decoder) (levels opened : Nat)
    (value : Bytes) : Prop :=
  ∀ (state : TokenState) (stack : List TokenState) (lead r : Bytes), stack.length = opened → IsBlank lead →
    state.allowsValue = true → Ends r →
    strictValue same stray levels ⟨lead ++ (value ++ r), state, stack⟩ =
      some ⟨r, state.valueEnd, stack⟩

theorem before_array (place : Before .array state before) (stack : List TokenState) (s : Bytes) :
    ∃ inner : TokenState, inner.allowsValue = true ∧ inner.valueEnd = .arrayComma ∧
      tokenFrom state stack (before ++ s) = tokenFrom inner stack s := by
  cases place with
  | start => exact ⟨.arrayStart, rfl, rfl, rfl⟩
  | @comma gap blank =>
    refine ⟨.arrayValue, rfl, rfl, ?_⟩
    rw [List.append_assoc, tokenFrom_blank blank]
    exact token_arrayComma

theorem before_object (place : Before .object state before) (stack : List TokenState) (s : Bytes) :
    ∃ inner : TokenState, (inner = .objectStart ∨ inner = .objectKey) ∧
      tokenFrom state stack (before ++ s) = tokenFrom inner stack s := by
  cases place with
  | start => exact ⟨.objectStart, Or.inl rfl, rfl⟩
  | @comma gap blank =>
    refine ⟨.objectKey, Or.inr rfl, ?_⟩
    rw [List.append_assoc, tokenFrom_blank blank]
    exact token_objectComma

theorem before_more {box : Box} (place : Before box state before) {lead : Bytes} {b : UInt8}
    (blank : IsBlank lead) (solid : isSpace b = false) (notBracket : b ≠ 0x5D)
    (notBrace : b ≠ 0x7D) : Decoder.more ⟨before ++ (lead ++ b :: s), state, stack⟩ = true := by
  cases place with
  | start => exact more_of_head blank solid notBracket notBrace
  | @comma gap gapBlank =>
    rw [List.append_assoc]
    exact more_of_head gapBlank (by decide) (by decide) (by decide)

theorem arrayRound (place : Before .array state before)
    (reads : ReadsValue same stray levels stack.length t.text) {lead : Bytes} (blank : IsBlank lead)
    (ends : Ends s) :
    arrayLoop (strictValue same stray levels) (fuel + 1) ⟨before ++ (lead ++ (t.text ++ s)), state, stack⟩ =
    arrayLoop (strictValue same stray levels) fuel ⟨s, .arrayComma, stack⟩ := by
  obtain ⟨b, rest, text, solid, notBracket, notBrace⟩ := head_of_value t
  obtain ⟨inner, allowed, closed, token⟩ := before_array place stack (lead ++ (t.text ++ s))
  have more : Decoder.more ⟨before ++ (lead ++ (t.text ++ s)), state, stack⟩ = true := by
    rw [text]
    exact before_more place blank solid notBracket notBrace
  have walked : strictValue same stray levels ⟨before ++ (lead ++ (t.text ++ s)), state, stack⟩ =
      some ⟨s, .arrayComma, stack⟩ := by
    rw [← closed]
    refine (strictValue_congr ?_).trans (reads inner stack lead s rfl blank allowed ends)
    exact token
  simp [arrayLoop, more, walked]

theorem name_read (place : Before .object state before) (label : Label .object)
    (stack : List TokenState) (value : Bytes) :
    Decoder.more ⟨before ++ (label.text ++ value), state, stack⟩ = true ∧
      Decoder.token ⟨before ++ (label.text ++ value), state, stack⟩ =
        .ok (.scalar (.str label.content), ⟨label.gap ++ colon :: value, .objectColon, stack⟩) := by
  cases label with
  | name lead content gap leadBlank valid gapBlank =>
    have shape : (Label.name lead content gap leadBlank valid gapBlank).text ++ value =
        lead ++ quoteMark :: (content ++ quoteMark :: (gap ++ colon :: value)) := by
      simp [Label.text]
    obtain ⟨inner, asked, token⟩ := before_object place stack
      (lead ++ quoteMark :: (content ++ quoteMark :: (gap ++ colon :: value)))
    rw [shape]
    refine ⟨before_more place leadBlank (by decide) (by decide) (by decide), ?_⟩
    rw [Decoder.token, token, tokenFrom_blank leadBlank, token_name valid asked]
    rfl

theorem objectRound {label : Label .object} (place : Before .object state before)
    (reads : ReadsValue same stray levels stack.length t.text) {lead : Bytes} (blank : IsBlank lead)
    (ends : Ends s) (unseen : seen.any (same · (unquote label.content)) = false) :
    objectLoop same (strictValue same stray levels) (fuel + 1) seen
      ⟨before ++ (label.text ++ (lead ++ (t.text ++ s))), state, stack⟩ =
    objectLoop same (strictValue same stray levels) fuel (seen ++ [unquote label.content])
      ⟨s, .objectComma, stack⟩ := by
  have walked : strictValue same stray levels ⟨label.gap ++ colon :: (lead ++ (t.text ++ s)),
      .objectColon, stack⟩ = some ⟨s, .objectComma, stack⟩ := by
    refine (strictValue_congr ?_).trans (reads .objectValue stack lead s rfl blank rfl ends)
    rw [Decoder.token, tokenFrom_blank label.gap_blank, token_colon]
    rfl
  obtain ⟨more, read⟩ := name_read place label stack (lead ++ (t.text ++ s))
  simp only [objectLoop, more, if_true, read]
  simp [unseen, walked]

end Rounds

theorem boxRound {levels fuel : Nat} {state : TokenState} {stack : List TokenState}
    {before lead s : Bytes} {seen names : List Bytes} {label : Label b}
    (place : Before b state before) (reads : ReadsValue same stray levels stack.length t.text)
    (blank : IsBlank lead) (ends : Ends s)
    (fresh : NamesFresh same b seen (unquote label.content :: names)) :
    ∃ seen', NamesFresh same b seen' names ∧ boxLoop same (strictValue same stray levels) b (fuel + 1) seen
        ⟨before ++ (label.text ++ (lead ++ (t.text ++ s))), state, stack⟩ =
      boxLoop same (strictValue same stray levels) b fuel seen' ⟨s, boxComma b, stack⟩ := by
  cases b with
  | array =>
    cases label
    exact ⟨seen, (fun other => by cases other), arrayRound place reads blank ends⟩
  | object =>
    obtain ⟨unseen, rest⟩ := fresh_cons_iff.mp (fresh rfl)
    exact ⟨_, fun _ => rest, objectRound place reads blank ends unseen⟩

def Walks (same : Bytes → Bytes → Bool) (stray : Decoder → Option Decoder) :
    {k : Kind} → Json k → Prop
  | .value, t => ∀ levels opened, Strict same levels opened t →
      ReadsValue same stray (levels + 1) opened t.text
  | .body b, t => ∀ levels fuel seen outer (stack : List TokenState) r,
      Strict same levels (stack.length + 1) t →
      NamesFresh same b seen (memberNames t) → t.entries.length ≤ fuel →
      (boxLoop same (strictValue same stray levels) b fuel seen
        ⟨t.text ++ r, boxStart b, outer :: stack⟩).bind closing = some ⟨r, outer.valueEnd, stack⟩
  | .tail b, t => ∀ levels fuel seen outer (stack : List TokenState) r,
      Strict same levels (stack.length + 1) t →
      NamesFresh same b seen (memberNames t) → t.entries.length ≤ fuel →
      (boxLoop same (strictValue same stray levels) b fuel seen
        ⟨t.text ++ r, boxComma b, outer :: stack⟩).bind closing = some ⟨r, outer.valueEnd, stack⟩

theorem walks_element {label : Label b} {lead before : Bytes} {value : Json .value}
    {tail : Json (.tail b)} {state : TokenState} (place : Before b state before)
    (blank : IsBlank lead) (valueWalks : Walks same stray value)
    (tailWalks : Walks same stray tail) (levels fuel : Nat) (seen : List Bytes)
    (outer : TokenState) (stack : List TokenState) (r : Bytes)
    (valueDepth : value.depth + 1 ≤ levels) (valueNesting : stack.length + 1 + value.nesting ≤ maxNestingDepth)
    (valueNames : value.NoRepeats (sameName same)) (valueNumbers : value.AllNumbers fitsDouble)
    (tailStrict : Strict same levels (stack.length + 1) tail)
    (fresh : NamesFresh same b seen (unquote label.content :: memberNames tail))
    (enough : tail.entries.length + 1 ≤ fuel) :
    (boxLoop same (strictValue same stray levels) b fuel seen
      ⟨before ++ (label.text ++ (lead ++ (value.text ++ (tail.text ++ r)))), state,
        outer :: stack⟩).bind closing = some ⟨r, outer.valueEnd, stack⟩ := by
  obtain ⟨inner, rfl⟩ : ∃ inner, levels = inner + 1 := Nat.exists_eq_add_one.mpr (by omega)
  obtain ⟨less, rfl⟩ : ∃ less, fuel = less + 1 := Nat.exists_eq_add_one.mpr (by omega)
  have reads : ReadsValue same stray (inner + 1) (outer :: stack).length value.text := valueWalks inner _
    ⟨Nat.le_of_succ_le_succ valueDepth, valueNesting, valueNames, valueNumbers⟩
  obtain ⟨seen', rest, round⟩ := boxRound place reads blank (ends_of_tail tail r) fresh
  rw [round]
  exact tailWalks (inner + 1) less seen' outer stack r tailStrict rest (by omega)

theorem walks_scalar {x : Scalar} (scalar : scalarOf t = some x)
    (numbers : t.AllNumbers fitsDouble → x.fits = true) : Walks same stray t := by
  intro levels opened strict state stack lead r _ blank allowed ends
  have token : tokenFrom state stack (t.text ++ r) = .ok (.scalar x, ⟨r, state.valueEnd, stack⟩) :=
    token_scalar scalar (numbers strict.numbers) allowed ends
  simp only [strictValue, Decoder.token, tokenFrom_blank blank, token]

theorem walks_box {body : Json (.body b)} (bodyWalks : Walks same stray body) :
    Walks same stray (.box body) := by
  rintro levels _ strict state stack lead r rfl blank allowed ends
  have nesting : stack.length + (body.nesting + 1) ≤ maxNestingDepth := strict.nesting
  have token : tokenFrom state stack (b.opens :: (body.text ++ r)) =
      .ok (.opens b, ⟨body.text ++ r, boxStart b, state :: stack⟩) := token_open b allowed (by omega)
  have depth : body.depth ≤ levels := strict.depth
  have enough : body.entries.length ≤ (body.text ++ r).length := by
    have le := entries_le_text body
    rw [List.length_append]
    omega
  have inner : Strict same levels (stack.length + 1) body := by
    refine ⟨depth, by omega, ?_, strict.numbers⟩
    cases b with
    | array => exact strict.names
    | object => exact strict.names.2
  have fresh : NamesFresh same b [] (memberNames body) := by
    rintro rfl
    refine ⟨(fun a member => by cases member), ?_⟩
    have apart := strict.names.1
    rw [List.pairwise_map] at apart
    rw [memberNames, List.pairwise_map]
    exact apart
  have loop := bodyWalks levels _ [] state stack r inner fresh enough
  simp only [strictValue, Decoder.token, tokenFrom_blank blank, Json.text, List.cons_append, token]
  cases b <;> exact loop

theorem walks {k : Kind} (t : Json k) : Walks same stray t := by
  induction t with
  | null => exact walks_scalar rfl fun _ => rfl
  | bool b => exact walks_scalar rfl fun _ => rfl
  | num digits valid => exact walks_scalar rfl fun fits => fits
  | str content valid => exact walks_scalar rfl fun _ => rfl
  | box body ih => exact walks_box ih
  | @empty b gap blank =>
    intro levels fuel seen outer stack r _ _ _
    exact boxLoop_closed blank (Or.inl rfl)
  | @close b gap blank =>
    intro levels fuel seen outer stack r _ _ _
    exact boxLoop_closed blank (Or.inr rfl)
  | @first b label lead leadBlank value tail valueWalks tailWalks =>
    intro levels fuel seen outer stack r strict fresh enough
    have depths := Nat.max_le.mp strict.depth
    have nesting : stack.length + 1 + max value.nesting tail.nesting ≤ maxNestingDepth := strict.nesting
    have element := walks_element .start leadBlank valueWalks tailWalks levels fuel seen outer
      stack r depths.1 (by omega) strict.names.1 strict.numbers.1
      ⟨depths.2, by omega, strict.names.2, strict.numbers.2⟩ fresh enough
    simpa [Json.text] using element
  | @next b gap blank label lead leadBlank value tail valueWalks tailWalks =>
    intro levels fuel seen outer stack r strict fresh enough
    have depths := Nat.max_le.mp strict.depth
    have nesting : stack.length + 1 + max value.nesting tail.nesting ≤ maxNestingDepth := strict.nesting
    have element := walks_element (.comma blank) leadBlank valueWalks tailWalks levels fuel seen
      outer stack r depths.1 (by omega) strict.names.1 strict.numbers.1
      ⟨depths.2, by omega, strict.names.2, strict.numbers.2⟩ fresh enough
    simpa [Json.text] using element

theorem atEnd_iff {d : Decoder} (top : d.state = .topValue) : d.atEnd = true ↔ IsBlank d.rest := by
  have eof : tokenFrom .topValue d.stack d.rest = .error .eof ↔ IsBlank d.rest := token_eof_iff
  rw [← eof, Decoder.atEnd, Decoder.token, top]
  split
  · rename_i ended
    simp [ended]
  · rename_i other
    simp only [Bool.false_eq_true, false_iff]
    exact other

/-- The walk accepts exactly one value, with white space around it, whose tree is
strict. -/
theorem strictDocument_iff (levels : Nat) (body : Bytes) :
    strictDocument same stray (levels + 1) body = true ↔
      ∃ lead, ∃ t : Json .value, ∃ trail, body = lead ++ (t.text ++ trail) ∧ IsBlank lead ∧
        IsBlank trail ∧ Strict same levels 0 t := by
  constructor
  · intro success
    unfold strictDocument at success
    split at success
    · cases success
    · rename_i d walked
      obtain ⟨lead, t, blank, text, state, _, depth, nesting, names, numbers⟩ := strictValue_sound (levels + 1)
        (.start body) d rfl (fun start => by cases start) (Nat.zero_le _) walked
      have trail : IsBlank d.rest := atEnd_iff state |>.mp success
      exact ⟨lead, t, d.rest, text, blank, trail, Nat.le_of_succ_le_succ depth, nesting, names, numbers⟩
  · rintro ⟨lead, t, trail, rfl, leadBlank, trailBlank, strict⟩
    have ends := ends_of_blank trailBlank
    have reads : Walks same stray t := walks t
    have walked := reads levels 0 strict .topValue [] lead trail rfl leadBlank rfl ends
    simp only [strictDocument, Decoder.start, walked]
    exact (atEnd_iff rfl).mpr trailBlank

end DevHealth.Go

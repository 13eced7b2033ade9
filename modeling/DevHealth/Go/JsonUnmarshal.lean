import DevHealth.Go.JsonStrict

/-! # `json.Unmarshal` into raw members

`scanValue` reads one value and keeps, for a container, the raw bytes of each of its
elements.  A container past the nesting limit of the scanner is refused.  Unmarshalling
into `map[string]json.RawMessage`, `[]json.RawMessage` or `string` reads the value of the
whole text; a name that comes twice keeps its last value. -/
set_option autoImplicit false
namespace DevHealth.Go

open Lib

/-- A value with the raw bytes of its elements, each with its name as written. -/
inductive Shape where
  | scalar (x : Scalar)
  | box (b : Box) (entries : List (Bytes × Bytes))
  deriving DecidableEq, Repr

/-- In an object, a name and a colon; in an array, nothing. -/
def readLabel : Box → Bytes → Option (Bytes × Bytes)
  | .array, s => some ([], s)
  | .object, s =>
    match skipSpace s with
    | [] => none
    | b :: r =>
      if b = quoteMark then
        (scanString .plain r).bind fun (content, r) =>
          match skipSpace r with
          | [] => none
          | b :: r => if b = colon then some (content, r) else none
      else none

/-- After an element: a comma and further elements, or the closing bracket. -/
def scanTail (next : Bytes → Option (List (Bytes × Bytes) × Bytes)) (box : Box) (s : Bytes) :
    Option (List (Bytes × Bytes) × Bytes) :=
  match skipSpace s with
  | [] => none
  | b :: r => if b = comma then next r else if b = box.closes then some ([], r) else none

/-- The elements from the next one on; the length of the text is fuel enough. -/
def scanEntries (child : Bytes → Option (Shape × Bytes)) (box : Box) :
    Nat → Bytes → Option (List (Bytes × Bytes) × Bytes)
  | 0, _ => none
  | fuel + 1, s => do
      let (name, s) ← readLabel box s
      let value := skipSpace s
      let (_, r) ← child value
      let (entries, r') ← scanTail (scanEntries child box fuel) box r
      return ((name, value.take (value.length - r.length)) :: entries, r')

def scanBox (child : Bytes → Option (Shape × Bytes)) (box : Box) (s : Bytes) :
    Option (List (Bytes × Bytes) × Bytes) :=
  match skipSpace s with
  | [] => none
  | b :: r => if b = box.closes then some ([], r) else scanEntries child box s.length s

def openingOf : Bytes → Option (Box × Bytes)
  | [] => none
  | b :: s => if b = 0x5B then some (.array, s) else if b = 0x7B then some (.object, s) else none

def scanValue : Nat → Bytes → Option (Shape × Bytes)
  | limit, s =>
    match openingOf s, limit with
    | none, _ => (readScalar s).map fun (x, r) => (.scalar x, r)
    | some _, 0 => none
    | some (box, s), limit + 1 =>
      (scanBox (scanValue limit) box s).map fun (entries, r) => (.box box entries, r)

theorem scanValue_scalar {s : Bytes} (scalar : openingOf s = none) (limit : Nat) :
    scanValue limit s = (readScalar s).map fun (x, r) => (.scalar x, r) := by
  cases limit <;> simp [scanValue, scalar]

theorem scanValue_zero {s rest : Bytes} {box : Box} (opening : openingOf s = some (box, rest)) :
    scanValue 0 s = none := by
  simp [scanValue, opening]

theorem scanValue_box {s rest : Bytes} {box : Box} (opening : openingOf s = some (box, rest))
    (limit : Nat) : scanValue (limit + 1) s =
      (scanBox (scanValue limit) box rest).map fun (entries, r) => (.box box entries, r) := by
  conv_lhs => unfold scanValue
  simp only [opening]

def scanDocument (data : Bytes) : Option Shape :=
  match scanValue maxNestingDepth (skipSpace data) with
  | some (shape, r) => if skipSpace r = [] then some shape else none
  | none => none

abbrev RawMessage := Bytes

/-- `map[string]json.RawMessage`, as the members in the order of the text. -/
abbrev RawObject := List (Bytes × RawMessage)

/-- A member that comes twice has its last value. -/
def RawObject.get (o : RawObject) (name : Bytes) : Option RawMessage :=
  (o.reverse.find? fun m => m.1 == name).map Prod.snd

def RawObject.keys (o : RawObject) : List Bytes := o.map Prod.fst

/-- Also `none` for `null`, which leaves the map nil. -/
def unmarshalObject (data : Bytes) : Option RawObject :=
  match scanDocument data with
  | some (.box .object entries) => some (entries.map fun (name, raw) => (unquote name, raw))
  | _ => none

def unmarshalArray (data : Bytes) : Option (List RawMessage) :=
  match scanDocument data with
  | some (.box .array entries) => some (entries.map Prod.snd)
  | _ => none

/-- `null` leaves the string empty. -/
def unmarshalString (data : Bytes) : Option Bytes :=
  match scanDocument data with
  | some (.scalar (.str content)) => some (unquote content)
  | some (.scalar .null) => some []
  | _ => none

/-! ## The text of a tree is read back -/

def rawEntries {k : Kind} (t : Json k) : List (Bytes × Bytes) := t.entries.map fun e => (e.1, e.2.text)

def shapeOf : Json .value → Shape
  | .null => .scalar .null
  | .bool b => .scalar (.bool b)
  | .num digits _ => .scalar (.num digits)
  | .str content _ => .scalar (.str content)
  | @Json.box b body => .box b (rawEntries body)

theorem skipSpace_value {lead : Bytes} (blank : IsBlank lead) (t : Json .value) (r : Bytes) :
    skipSpace (lead ++ (t.text ++ r)) = t.text ++ r := by
  obtain ⟨b, s, text, solid, _⟩ := head_of_value t
  rw [skipSpace_blank blank, text, List.cons_append, skipSpace_cons solid]

theorem readLabel_complete {b : Box} (label : Label b) (s : Bytes) :
    readLabel b (label.text ++ s) = some (label.content, s) := by
  cases label with
  | item => rfl
  | name lead content gap leadBlank valid gapBlank =>
    have mark : isSpace quoteMark = false := by decide
    have sep : isSpace colon = false := by decide
    simp [readLabel, Label.text, Label.content, skipSpace_blank leadBlank, skipSpace_cons mark,
      scanString_complete valid, skipSpace_blank gapBlank, skipSpace_cons sep]

theorem openingOf_scalar {t : Json .value} {x : Scalar} (scalar : scalarOf t = some x) (r : Bytes) :
    openingOf (t.text ++ r) = none := by
  obtain ⟨b, s, text, solid⟩ := head_of_scalar scalar
  simp only [isPunctuation, Bool.or_eq_false_iff, beq_eq_false_iff_ne] at solid
  simp [openingOf, text, solid]

/-- What the scanner does on the text of a tree of each kind. -/
def Scans : {k : Kind} → Json k → Prop
  | .value, t => ∀ limit r, t.nesting ≤ limit → Ends r →
      scanValue limit (t.text ++ r) = some (shapeOf t, r)
  | .body b, t => ∀ limit r, t.nesting ≤ limit →
      scanBox (scanValue limit) b (t.text ++ r) = some (rawEntries t, r)
  | .tail b, t => ∀ limit fuel r, t.nesting ≤ limit → t.entries.length ≤ fuel →
      scanTail (scanEntries (scanValue limit) b fuel) b (t.text ++ r) = some (rawEntries t, r)

theorem scanEntries_element {b : Box} {label : Label b} {lead : Bytes} (blank : IsBlank lead)
    {value : Json .value} {tail : Json (.tail b)} (valueScans : Scans value)
    (tailScans : Scans tail) {limit fuel : Nat} (valueNests : value.nesting ≤ limit)
    (tailNests : tail.nesting ≤ limit) (enough : tail.entries.length ≤ fuel) (r : Bytes) :
    scanEntries (scanValue limit) b (fuel + 1) (label.text ++ (lead ++ (value.text ++ (tail.text ++ r)))) =
    some ((label.content, value.text) :: rawEntries tail, r) := by
  have inner := valueScans limit (tail.text ++ r) valueNests (ends_of_tail tail r)
  have rest := tailScans limit fuel r tailNests enough
  have raw : (value.text ++ (tail.text ++ r)).take
      ((value.text ++ (tail.text ++ r)).length - (tail.text ++ r).length) = value.text := by
    rw [List.length_append, Nat.add_sub_cancel, List.take_left]
  simp only [scanEntries, readLabel_complete, Option.bind_eq_bind, Option.bind_some,
    skipSpace_value blank, inner, rest, raw, Option.pure_def]

theorem scans_scalar {t : Json .value} {x : Scalar} (scalar : scalarOf t = some x)
    (shape : shapeOf t = .scalar x) : Scans t := by
  intro limit r _ ends
  rw [scanValue_scalar (openingOf_scalar scalar r)]
  simp [readScalar_complete scalar ends, shape]

/-- A container ends with its bracket, whatever comes after it. -/
theorem scanValue_body {b : Box} {body : Json (.body b)} (bodyScans : Scans body) {limit : Nat}
    (nests : (Json.box body).nesting ≤ limit) (r : Bytes) :
    scanValue limit ((Json.box body).text ++ r) = some (shapeOf (.box body), r) := by
  simp only [Json.nesting] at nests
  obtain ⟨less, rfl⟩ : ∃ less, limit = less + 1 := Nat.exists_eq_add_one.mpr (by omega)
  have inner := bodyScans less r (by omega)
  have opening : openingOf ((Json.box body).text ++ r) = some (b, body.text ++ r) := by
    cases b <;> simp [Json.text, openingOf, Box.opens]
  rw [scanValue_box opening, inner]
  rfl

theorem scans_box {b : Box} {body : Json (.body b)} (bodyScans : Scans body) : Scans (.box body) := by
  intro limit r nests _
  exact scanValue_body bodyScans nests r

theorem scanTail_close {b : Box} {gap : Bytes} (blank : IsBlank gap) (r : Bytes)
    (next : Bytes → Option (List (Bytes × Bytes) × Bytes)) :
    scanTail next b (gap ++ [b.closes] ++ r) = some ([], r) := by
  have solid : isSpace b.closes = false := by cases b <;> decide
  have notComma : b.closes ≠ comma := by cases b <;> decide
  rw [List.append_assoc, scanTail, skipSpace_blank blank, List.singleton_append, skipSpace_cons solid]
  simp [notComma]

theorem scanBox_first {b : Box} (label : Label b) {lead : Bytes} (blank : IsBlank lead)
    (value : Json .value) (s : Bytes) (child : Bytes → Option (Shape × Bytes)) :
    scanBox child b (label.text ++ (lead ++ (value.text ++ s))) =
      scanEntries child b (label.text ++ (lead ++ (value.text ++ s))).length
        (label.text ++ (lead ++ (value.text ++ s))) := by
  obtain ⟨c, rest, text, solid, notBracket, notBrace⟩ := head_of_value value
  cases label with
  | item =>
    have head : skipSpace (Label.item.text ++ (lead ++ (value.text ++ s))) =
        c :: (rest ++ s) := by
      rw [Label.text, List.nil_append, skipSpace_value blank, text, List.cons_append]
    rw [scanBox, head]
    exact if_neg notBracket
  | name nameLead content gap nameBlank valid gapBlank =>
    have mark : isSpace quoteMark = false := by decide
    rw [scanBox, Label.text, List.append_assoc, skipSpace_blank nameBlank, List.cons_append,
      skipSpace_cons mark]
    exact if_neg (by decide)

theorem scans {k : Kind} (t : Json k) : Scans t := by
  induction t with
  | null | bool b | num digits valid | str content valid => exact scans_scalar rfl rfl
  | box body ih => exact scans_box ih
  | @empty b gap blank =>
    intro limit r _
    have solid : isSpace b.closes = false := by cases b <;> decide
    rw [Json.text, List.append_assoc, scanBox, skipSpace_blank blank, List.singleton_append,
      skipSpace_cons solid]
    exact if_pos rfl
  | @close b gap blank =>
    intro limit fuel r _ _
    exact scanTail_close blank r _
  | @first b label lead leadBlank value tail valueScans tailScans =>
    intro limit r nests
    have bounds := Nat.max_le.mp nests
    obtain ⟨c, rest, text, _⟩ := head_of_value value
    have shape : (Json.first label lead leadBlank value tail).text ++ r =
        label.text ++ (lead ++ (value.text ++ (tail.text ++ r))) := by simp [Json.text]
    have fuel : ∃ fuel, (label.text ++ (lead ++ (value.text ++ (tail.text ++ r)))).length =
        fuel + 1 ∧ tail.entries.length ≤ fuel := by
      have le := entries_le_text tail
      simp only [List.length_append, text, List.length_cons]
      exact ⟨label.text.length + (lead.length + (rest.length + (tail.text.length + r.length))),
        by omega, by omega⟩
    obtain ⟨fuel, length, enough⟩ := fuel
    rw [shape, scanBox_first label leadBlank value, length]
    exact scanEntries_element leadBlank valueScans tailScans bounds.1 bounds.2 enough r
  | @next b gap blank label lead leadBlank value tail valueScans tailScans =>
    intro limit fuel r nests enough
    have bounds := Nat.max_le.mp nests
    simp only [Json.entries, List.length_cons] at enough
    obtain ⟨less, rfl⟩ : ∃ less, fuel = less + 1 := Nat.exists_eq_add_one.mpr (by omega)
    have sep : isSpace comma = false := by decide
    have element : scanEntries (scanValue limit) b (less + 1)
        (label.text ++ (lead ++ (value.text ++ (tail.text ++ r)))) =
        some ((label.content, value.text) :: rawEntries tail, r) :=
      scanEntries_element leadBlank valueScans tailScans bounds.1 bounds.2 (Nat.le_of_succ_le_succ enough) r
    rw [Json.text, List.append_assoc, scanTail, skipSpace_blank blank, List.cons_append, skipSpace_cons sep]
    simpa [rawEntries, Json.entries] using element

/-! ## Whatever is read is the text of a tree -/

theorem readLabel_sound {b : Box} {s name r : Bytes} (success : readLabel b s = some (name, r)) :
    ∃ label : Label b, s = label.text ++ r ∧ label.content = name := by
  cases b with
  | array => cases success; exact ⟨.item, rfl, rfl⟩
  | object =>
    obtain ⟨lead, leadBlank, split⟩ := exists_blank_of_skipSpace s
    simp only [readLabel] at success
    split at success
    · cases success
    · rename_i mark inner found
      split_ifs at success with isQuote
      obtain ⟨⟨content, inner'⟩, scanned, named⟩ := Option.bind_eq_some_iff.mp success
      obtain ⟨rfl, valid⟩ := scanString_sound inner .plain content inner' scanned
      obtain ⟨gap, gapBlank, gapSplit⟩ := exists_blank_of_skipSpace inner'
      simp only at named
      split at named
      · cases named
      · rename_i sep rest afterName
        split_ifs at named with isColon
        cases named
        refine ⟨.name lead _ gap leadBlank valid gapBlank, ?_, rfl⟩
        rw [split, found, isQuote, gapSplit, afterName, isColon]
        simp [Label.text]

def SoundChild (limit : Nat) (child : Bytes → Option (Shape × Bytes)) : Prop :=
  ∀ s shape r, child s = some (shape, r) →
    ∃ t : Json .value, s = t.text ++ r ∧ shapeOf t = shape ∧ t.nesting ≤ limit

/-- An element and the rest of its container, read from `s` up to `r`. -/
def EntriesRead (limit : Nat) (b : Box) (s : Bytes) (entries : List (Bytes × Bytes)) (r : Bytes) :
    Prop :=
  ∃ label : Label b, ∃ lead, ∃ value : Json .value, ∃ tail : Json (.tail b), IsBlank lead ∧
    s = label.text ++ (lead ++ (value.text ++ (tail.text ++ r))) ∧
    entries = (label.content, value.text) :: rawEntries tail ∧
    value.nesting ≤ limit ∧ tail.nesting ≤ limit

section Sound

variable {limit : Nat} {child : Bytes → Option (Shape × Bytes)} {b : Box}

theorem scanTail_sound {next : Bytes → Option (List (Bytes × Bytes) × Bytes)}
    (elements : ∀ s entries r, next s = some (entries, r) → EntriesRead limit b s entries r)
    {s r : Bytes} {entries : List (Bytes × Bytes)} (success : scanTail next b s = some (entries, r)) :
    ∃ tail : Json (.tail b), s = tail.text ++ r ∧ entries = rawEntries tail ∧ tail.nesting ≤ limit := by
  obtain ⟨gap, blank, split⟩ := exists_blank_of_skipSpace s
  simp only [scanTail] at success
  split at success
  · cases success
  · rename_i mark rest found
    split_ifs at success with isComma isClose
    · obtain ⟨label, lead, value, tail, leadBlank, text, same, valueNests, tailNests⟩ :=
        elements rest entries r success
      refine ⟨.next gap blank label lead leadBlank value tail, ?_, same, max_le valueNests tailNests⟩
      rw [split, found, isComma, text]
      simp [Json.text]
    · cases success
      refine ⟨.close gap blank, ?_, rfl, Nat.zero_le _⟩
      rw [split, found, isClose]
      simp [Json.text]

theorem scanEntries_sound (sound : SoundChild limit child) (fuel : Nat) :
    ∀ s entries r, scanEntries child b fuel s = some (entries, r) →
      EntriesRead limit b s entries r := by
  induction fuel with
  | zero => intro s entries r success; cases success
  | succ fuel ih =>
    intro s entries r success
    simp only [scanEntries, Option.bind_eq_bind, Option.bind_eq_some_iff] at success
    obtain ⟨⟨name, inner⟩, labelled, ⟨shape, after⟩, read, ⟨rest, r'⟩, tailed, same⟩ := success
    cases same
    obtain ⟨label, rfl, rfl⟩ := readLabel_sound labelled
    obtain ⟨lead, blank, split⟩ := exists_blank_of_skipSpace inner
    obtain ⟨value, text, _, valueNests⟩ := sound _ _ _ read
    obtain ⟨tail, rfl, rfl, tailNests⟩ := scanTail_sound ih tailed
    refine ⟨label, lead, value, tail, blank, ?_, ?_, valueNests, tailNests⟩
    · rw [split, text]
    · rw [text, List.length_append, Nat.add_sub_cancel, List.take_left]

theorem scanBox_sound (sound : SoundChild limit child) {s r : Bytes}
    {entries : List (Bytes × Bytes)} (success : scanBox child b s = some (entries, r)) :
    ∃ body : Json (.body b), s = body.text ++ r ∧ entries = rawEntries body ∧ body.nesting ≤ limit := by
  obtain ⟨gap, blank, split⟩ := exists_blank_of_skipSpace s
  simp only [scanBox] at success
  split at success
  · cases success
  · rename_i mark rest found
    split_ifs at success with isClose
    · cases success
      refine ⟨.empty gap blank, ?_, rfl, Nat.zero_le _⟩
      rw [split, found, isClose]
      simp [Json.text]
    · obtain ⟨label, lead, value, tail, leadBlank, text, same, valueNests, tailNests⟩ :=
        scanEntries_sound sound _ s entries r success
      refine ⟨.first label lead leadBlank value tail, ?_, same, max_le valueNests tailNests⟩
      rw [text]
      simp [Json.text]

end Sound

theorem openingOf_sound {s rest : Bytes} {b : Box} (opening : openingOf s = some (b, rest)) :
    s = b.opens :: rest := by
  cases s with
  | nil => cases opening
  | cons c s =>
    simp only [openingOf] at opening
    split_ifs at opening with isBracket isBrace
    · cases opening
      rw [isBracket]
      rfl
    · cases opening
      rw [isBrace]
      rfl

theorem scalar_sound {limit : Nat} {s r : Bytes} {shape : Shape} (scalar : openingOf s = none)
    (success : scanValue limit s = some (shape, r)) :
    ∃ t : Json .value, s = t.text ++ r ∧ shapeOf t = shape ∧ t.nesting ≤ limit := by
  rw [scanValue_scalar scalar] at success
  obtain ⟨⟨x, r'⟩, read, same⟩ := Option.map_eq_some_iff.mp success
  cases same
  obtain ⟨t, text, isScalar⟩ := readScalar_sound read
  refine ⟨t, text, ?_, ?_⟩
  · cases t <;> cases isScalar <;> rfl
  · cases t with
    | box body => cases isScalar
    | _ => exact Nat.zero_le _

theorem scanValue_sound (limit : Nat) : SoundChild limit (scanValue limit) := by
  induction limit with
  | zero =>
    intro s shape r success
    cases opening : openingOf s with
    | none => exact scalar_sound opening success
    | some pair => rw [scanValue_zero opening] at success; cases success
  | succ limit ih =>
    intro s shape r success
    cases opening : openingOf s with
    | none => exact scalar_sound opening success
    | some pair =>
      obtain ⟨b, rest⟩ := pair
      rw [scanValue_box opening] at success
      obtain ⟨⟨entries, r'⟩, inner, same⟩ := Option.map_eq_some_iff.mp success
      cases same
      obtain ⟨body, rfl, rfl, nests⟩ := scanBox_sound ih inner
      exact ⟨.box body, openingOf_sound opening, rfl, Nat.succ_le_succ nests⟩

/-! ## Whole texts -/

theorem scanDocument_text {lead trail : Bytes} (leadBlank : IsBlank lead)
    (trailBlank : IsBlank trail) (t : Json .value) (nests : t.nesting ≤ maxNestingDepth) :
    scanDocument (lead ++ (t.text ++ trail)) = some (shapeOf t) := by
  have read : scanValue maxNestingDepth (t.text ++ trail) = some (shapeOf t, trail) :=
    (scans t : Scans t) maxNestingDepth trail nests (ends_of_blank trailBlank)
  have rest : skipSpace trail = [] := by
    have skipped := skipSpace_blank trailBlank []
    simpa [skipSpace] using skipped
  simp [scanDocument, skipSpace_value leadBlank, read, rest]

theorem scanDocument_sound {data : Bytes} {shape : Shape} (success : scanDocument data = some shape) :
    ∃ lead, ∃ t : Json .value, ∃ trail, data = lead ++ (t.text ++ trail) ∧ IsBlank lead ∧
      IsBlank trail ∧ shapeOf t = shape ∧ t.nesting ≤ maxNestingDepth := by
  unfold scanDocument at success
  split at success
  · rename_i found r read
    split_ifs at success with ended
    cases success
    obtain ⟨lead, leadBlank, split⟩ := exists_blank_of_skipSpace data
    obtain ⟨t, text, same, nests⟩ := scanValue_sound _ _ _ _ read
    obtain ⟨trail, trailBlank, trailSplit⟩ := exists_blank_of_skipSpace r
    rw [ended, List.append_nil] at trailSplit
    exact ⟨lead, t, r, by rw [split, text], leadBlank, trailSplit ▸ trailBlank, same, nests⟩
  · cases success

/-! ## Trimming a value -/

theorem digit_ink {b : UInt8} (digit : isDigit b = true) : isInk b = true := by
  simp only [isDigit, between, Bool.and_eq_true, decide_eq_true_eq] at digit
  simp only [isInk, Bool.and_eq_true, decide_eq_true_eq]
  exact ⟨le_trans (by decide) digit.1, le_trans digit.2 (by decide)⟩

theorem integer_ink {int : Bytes} (integer : IsInteger int) : ∀ b ∈ int, isInk b = true := by
  cases integer with
  | zero => decide +kernel
  | @digits b rest isLead digits =>
    intro c member
    rcases List.mem_cons.mp member with rfl | member
    · simp only [between, Bool.and_eq_true, decide_eq_true_eq] at isLead
      simp only [isInk, Bool.and_eq_true, decide_eq_true_eq]
      exact ⟨le_trans (by decide) isLead.1, le_trans isLead.2 (by decide)⟩
    · exact digit_ink (digits c member)

theorem fraction_ink {frac : Bytes} (fraction : IsFraction frac) : ∀ b ∈ frac, isInk b = true := by
  cases fraction with
  | none => intro b member; cases member
  | digits digits =>
    intro b member
    rcases List.mem_cons.mp member with rfl | member
    · decide
    · exact digit_ink (digits.2 b member)

theorem exponent_ink {exp : Bytes} (exponent : IsExponent exp) : ∀ b ∈ exp, isInk b = true := by
  have mark : ∀ e, isExponentMark e = true → isInk e = true := by
    intro e isMark
    simp only [isExponentMark, Bool.or_eq_true, beq_iff_eq] at isMark
    rcases isMark with rfl | rfl <;> decide
  have sign : ∀ e, isSign e = true → isInk e = true := by
    intro e isSign
    simp only [Lib.isSign, Bool.or_eq_true, beq_iff_eq] at isSign
    rcases isSign with rfl | rfl <;> decide
  cases exponent with
  | none => intro b member; cases member
  | plain isMark digits =>
    intro b member
    rcases List.mem_cons.mp member with rfl | member
    · exact mark b isMark
    · exact digit_ink (digits.2 b member)
  | signed isMark isSign digits =>
    intro b member
    rcases List.mem_cons.mp member with rfl | member
    · exact mark b isMark
    · rcases List.mem_cons.mp member with rfl | member
      · exact sign b isSign
      · exact digit_ink (digits.2 b member)

theorem number_ink {digits : Bytes} (number : IsNumber digits) : ∀ b ∈ digits, isInk b = true := by
  have unsigned : ∀ s, IsUnsigned s → ∀ b ∈ s, isInk b = true := by
    rintro s ⟨int, frac, exp, rfl, integer, fraction, exponent⟩ b member
    rcases List.mem_append.mp member with inInt | member
    · exact integer_ink integer b inInt
    · rcases List.mem_append.mp member with inFrac | inExp
      · exact fraction_ink fraction b inFrac
      · exact exponent_ink exponent b inExp
  cases number with
  | unsigned number => exact unsigned _ number
  | negative number =>
    intro b member
    rcases List.mem_cons.mp member with rfl | member
    · decide
    · exact unsigned _ number b member

theorem closes_text {k : Kind} (t : Json k) :
    match k with
    | .value => True
    | .body b | .tail b => ∃ before, t.text = before ++ [b.closes] := by
  induction t with
  | empty gap _ | close gap _ => exact ⟨gap, rfl⟩
  | first label lead _ value tail _ ih =>
    obtain ⟨before, text⟩ := ih
    exact ⟨label.text ++ (lead ++ (value.text ++ before)), by simp [Json.text, text]⟩
  | next gap _ label lead _ value tail _ ih =>
    obtain ⟨before, text⟩ := ih
    exact ⟨gap ++ comma :: (label.text ++ (lead ++ (value.text ++ before))), by simp [Json.text, text]⟩
  | _ => trivial

theorem value_ink (t : Json .value) : ∃ first after before last,
    t.text = first :: after ∧ t.text = before ++ [last] ∧ isInk first = true ∧ isInk last = true := by
  cases t with
  | null => exact ⟨_, _, ascii "nul", _, rfl, rfl, by decide, by decide⟩
  | bool b =>
    cases b with
    | true => exact ⟨_, _, ascii "tru", _, rfl, rfl, by decide, by decide⟩
    | false => exact ⟨_, _, ascii "fals", _, rfl, rfl, by decide, by decide⟩
  | str content _ =>
    exact ⟨quoteMark, content ++ [quoteMark], quoteMark :: content, quoteMark, rfl, rfl, by decide, by decide⟩
  | num digits valid =>
    obtain ⟨b, s, text, _⟩ := head_of_number valid
    have ink := number_ink valid
    have some_digit : digits ≠ [] := by rw [text]; exact List.cons_ne_nil _ _
    refine ⟨b, s, digits.dropLast, digits.getLast some_digit, text, ?_, ink b ?_, ink _ ?_⟩
    · exact (List.dropLast_append_getLast some_digit).symm
    · rw [text]
      exact List.mem_cons_self ..
    · exact List.getLast_mem some_digit
  | @box b body =>
    obtain ⟨before, text⟩ := closes_text body
    refine ⟨b.opens, body.text, b.opens :: before, b.closes, rfl, ?_, ?_, ?_⟩
    · simp [Json.text, text]
    · cases b <;> decide
    · cases b <;> decide

theorem trimSpace_value {lead trail : Bytes} (leadBlank : IsBlank lead) (trailBlank : IsBlank trail)
    (t : Json .value) : trimSpace (lead ++ (t.text ++ trail)) = t.text := by
  obtain ⟨first, after, before, last, starts, ends, firstInk, lastInk⟩ := value_ink t
  exact trimSpace_ink leadBlank trailBlank starts ends firstInk lastInk

theorem isBlank_nil : IsBlank [] := fun _ member => nomatch member

theorem trimSpace_text (t : Json .value) : trimSpace t.text = t.text := by
  simpa using trimSpace_value isBlank_nil isBlank_nil t

theorem scanDocument_value (t : Json .value) (nests : t.nesting ≤ maxNestingDepth) :
    scanDocument t.text = some (shapeOf t) := by
  simpa using scanDocument_text isBlank_nil isBlank_nil t nests

end DevHealth.Go

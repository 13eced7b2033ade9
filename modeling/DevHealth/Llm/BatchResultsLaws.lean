import DevHealth.Go.JsonWrite
import DevHealth.Llm.BatchResults

/-! # How the lines of a batch are classified

A file fails when some line is no object that `encoding/json` reads.  Otherwise each line
with an error object, or else with a response object, gives one result, in the order of the
lines; a result has a text or an error code and never both. -/
set_option autoImplicit false
namespace DevHealth.Llm

open Go Lib

variable {folding : CaseFolding}

/-! ## Objects -/

def IsObjectText (text : Bytes) : Prop :=
  ∃ lead, ∃ body : Json (.body .object), ∃ trail, IsBlank lead ∧ IsBlank trail ∧
    text = lead ++ ((Json.box body).text ++ trail)

/-- A JSON object that `encoding/json` reads: one that does not nest too deep. -/
def IsReadableObject (text : Bytes) : Prop :=
  ∃ lead, ∃ body : Json (.body .object), ∃ trail, IsBlank lead ∧ IsBlank trail ∧
    text = lead ++ ((Json.box body).text ++ trail) ∧ (Json.box body).nesting ≤ maxNestingDepth

def RawFields {σ : Type} (fields : List (StructField RawMessage σ)) : Prop :=
  ∀ f ∈ fields, ∀ s input, ∃ s', f.set s input = some s'

theorem rawFields_outputLine : RawFields outputLineFields := by
  intro f inside s input
  simp only [outputLineFields, List.mem_cons, List.not_mem_nil, or_false] at inside
  rcases inside with rfl | rfl | rfl | rfl
  all_goals exact ⟨_, rfl⟩

theorem rawFields_lineResponse : RawFields lineResponseFields := by
  intro f inside s input
  simp only [lineResponseFields, List.mem_cons, List.not_mem_nil, or_false] at inside
  rcases inside with rfl | rfl | rfl
  all_goals exact ⟨_, rfl⟩

theorem rawFields_lineError : RawFields lineErrorFields := by
  intro f inside s input
  simp only [lineErrorFields, List.mem_cons, List.not_mem_nil, or_false] at inside
  rcases inside with rfl | rfl | rfl
  all_goals exact ⟨_, rfl⟩

theorem blank_head {lead rest : Bytes} {b : UInt8} (blank : IsBlank lead)
    (starts : (lead ++ rest).head? = some b) (solid : isSpace b = false) : lead = [] := by
  cases lead with
  | nil => rfl
  | cons c lead =>
    cases starts
    have space := blank b (List.mem_cons_self ..)
    rw [solid] at space
    cases space

theorem decodeBraced_iff {σ : Type} {zero : σ} {fields : List (StructField RawMessage σ)}
    (total : RawFields fields) {text : Bytes} (starts : text.head? = some Box.object.opens) :
    (∃ s, decodeBraced folding zero fields text = some s) ↔ IsReadableObject text := by
  have solid : isSpace Box.object.opens = false := by decide
  rw [decodeBraced, if_pos starts, intoStruct]
  constructor
  · intro read
    obtain ⟨s, read⟩ := read
    cases scanned : scanDocument text with
    | none =>
      rw [scanned] at read
      cases read
    | some shape =>
      obtain ⟨lead, t, trail, rfl, leadBlank, trailBlank, -, nests⟩ := scanDocument_sound scanned
      cases blank_head leadBlank starts solid
      obtain ⟨body, rfl⟩ := object_of_head starts
      exact ⟨[], body, trail, leadBlank, trailBlank, rfl, nests⟩
  · intro object
    obtain ⟨lead, body, trail, leadBlank, trailBlank, rfl, nests⟩ := object
    rw [scanDocument_text leadBlank trailBlank _ nests]
    exact members_total total _ zero

theorem head_of_trimmed {s : Bytes} (object : IsReadableObject (trimSpace s)) :
    (trimSpace s).head? = some Box.object.opens := by
  obtain ⟨lead, body, trail, leadBlank, -, text, -⟩ := object
  cases lead with
  | nil =>
    rw [text]
    rfl
  | cons b lead =>
    have space := leadBlank b (List.mem_cons_self ..)
    have mark : [b] ∈ spaceMarks := by
      simp only [isSpace, Bool.or_eq_true, beq_iff_eq] at space
      rcases space with ((rfl | rfl) | rfl) | rfl
      all_goals decide
    have starts := trimSpace_starts s [b] mark
    rw [text] at starts
    exact absurd (List.prefix_append [b] _) starts

theorem decodeBraced_trimmed {σ : Type} {zero : σ} {fields : List (StructField RawMessage σ)}
    (total : RawFields fields) (s : Bytes) :
    (∃ decoded, decodeBraced folding zero fields (trimSpace s) = some decoded) ↔
      IsReadableObject (trimSpace s) := by
  by_cases starts : (trimSpace s).head? = some Box.object.opens
  · exact decodeBraced_iff total starts
  · constructor
    · intro read
      obtain ⟨decoded, read⟩ := read
      rw [decodeBraced, if_neg starts] at read
      cases read
    · exact fun object => absurd (head_of_trimmed object) starts

/-! ## The members of a line -/

/-- The member of an object that a struct field of this name ends with. -/
def lineMember (folding : CaseFolding) (text : Bytes) (name : String) : Option RawMessage :=
  (unmarshalObject text).bind fun o =>
    (o.reverse.find? fun m => equalFold folding (ascii name) m.1).map Prod.snd

def HasObject (folding : CaseFolding) (text : Bytes) (name : String) : Prop :=
  ∃ raw, lineMember folding text name = some raw ∧ IsReadableObject raw

theorem lineMember_eq {text : Bytes} {entries : List (Bytes × RawMessage)}
    (scanned : scanDocument text = some (.box .object entries)) (name : String) :
    lineMember folding text name = lastMemberOf folding (ascii name) entries := by
  simp only [lineMember, unmarshalObject, scanned, Option.bind_some, ← List.map_reverse,
    List.find?_map, Option.map_map]
  rfl

theorem lineMember_text {text raw : Bytes} {name : String}
    (member : lineMember folding text name = some raw) : ∃ v : Json .value, raw = v.text := by
  rw [lineMember, Option.bind_eq_some_iff] at member
  obtain ⟨o, object, found⟩ := member
  rw [unmarshalObject] at object
  split at object
  · rename_i entries scanned
    obtain ⟨lead, t, trail, -, -, -, shape, -⟩ := scanDocument_sound scanned
    obtain ⟨body, -, rfl⟩ := box_of_shape shape
    cases object
    obtain ⟨m, find, rfl⟩ := Option.map_eq_some_iff.mp found
    have inside := List.mem_reverse.mp (List.mem_of_find?_eq_some find)
    obtain ⟨entry, listed, rfl⟩ := List.mem_map.mp inside
    obtain ⟨e, -, rfl⟩ := List.mem_map.mp listed
    exact ⟨e.2, rfl⟩
  · cases object

theorem not_readable_nil : ¬ IsReadableObject [] := by
  intro object
  obtain ⟨lead, body, trail, -, -, text, -⟩ := object
  have length := congrArg List.length text
  simp [Json.text] at length

theorem decodeObject_iff {σ : Type} {zero : σ} {fields : List (StructField RawMessage σ)}
    (total : RawFields fields) (text : Bytes) (name : String) :
    (∃ s, decodeObject folding zero fields ((lineMember folding text name).getD []) = some s) ↔
      HasObject folding text name := by
  unfold decodeObject HasObject
  rw [decodeBraced_trimmed total]
  cases member : lineMember folding text name with
  | none =>
    have empty : trimSpace [] = [] := rfl
    simp [empty, not_readable_nil]
  | some raw =>
    obtain ⟨v, rfl⟩ := lineMember_text member
    simp [trimSpace_text]

theorem outputLine_apart : FieldsApart folding outputLineFields :=
  fieldsApart_of_lower (by decide) (by decide)

theorem outputLine_parts : IsPart outputLineFields (ascii "error") OpenAIBatchOutputLine.error intoRaw ∧
      IsPart outputLineFields (ascii "response") OpenAIBatchOutputLine.response intoRaw := by
  refine ⟨?_, ?_⟩
  all_goals
    intro f inside s input s' set
    simp only [outputLineFields, List.mem_cons, List.not_mem_nil, or_false] at inside
    rcases inside with rfl | rfl | rfl | rfl
    all_goals
      obtain ⟨v, value, rfl⟩ := StructField.set_of.mp set
      first
        | exact .inl ⟨rfl, value⟩
        | exact .inr ⟨by decide, rfl⟩

theorem outputLine_members {text : Bytes} {line : OpenAIBatchOutputLine}
    (decoded : decodeBraced folding ⟨[], [], [], []⟩ outputLineFields text = some line) :
    line.error = (lineMember folding text "error").getD [] ∧
      line.response = (lineMember folding text "response").getD [] := by
  have starts : text.head? = some Box.object.opens := by
    by_contra different
    rw [decodeBraced, if_neg different] at decoded
    cases decoded
  have object := (decodeBraced_iff rawFields_outputLine starts).mp ⟨line, decoded⟩
  obtain ⟨lead, body, trail, leadBlank, trailBlank, shape, nests⟩ := object
  have scanned := scanDocument_text leadBlank trailBlank _ nests
  rw [← shape] at scanned
  rw [decodeBraced, if_pos starts, intoStruct, scanned] at decoded
  rw [lineMember_eq scanned, lineMember_eq scanned]
  exact ⟨part_of_last outputLine_parts.1 outputLine_apart (by decide) _ _ _ decoded,
    part_of_last outputLine_parts.2 outputLine_apart (by decide) _ _ _ decoded⟩

/-! ## One result -/

def batchResult (folding : CaseFolding) (text : Bytes) : Option BatchItemResult :=
  (decodeBraced folding ⟨[], [], [], []⟩ outputLineFields text).bind (lineResult folding)

structure IsErrorResult (r : BatchItemResult) : Prop where
  text : r.text = []
  errorCode : r.errorCode = firstNonEmpty [r.providerErrorCode, r.providerErrorType, ascii "error"]
  requestID : r.requestID = []
  statusCode : r.statusCode = none
  usage : r.usage = Usage.unknown
  refused : r.refused = false

theorem firstNonEmpty_last {values : List Bytes} {last : Bytes} (nonempty : last ≠ []) :
    firstNonEmpty (values ++ [last]) ≠ [] := by
  induction values with
  | nil => simpa [firstNonEmpty] using nonempty
  | cons value values ih =>
    rw [List.cons_append, firstNonEmpty]
    split_ifs with present
    · exact present
    · exact ih

theorem isErrorResult (line : OpenAIBatchOutputLine) (e : OpenAIBatchLineError) :
    IsErrorResult (errorResult line e) :=
  ⟨rfl, rfl, rfl, rfl, rfl, rfl⟩

theorem IsErrorResult.errorCode_ne {r : BatchItemResult} (isError : IsErrorResult r) : r.errorCode ≠ [] := by
  rw [isError.errorCode]
  apply @firstNonEmpty_last [r.providerErrorCode, r.providerErrorType]
  decide

theorem http_ne (status : Bytes) : ascii "http_" ++ status ≠ [] := by
  intro empty
  exact absurd (List.append_eq_nil_iff.mp empty).1 (by decide)

theorem responseResult_cases (line : OpenAIBatchOutputLine) (response : OpenAIBatchLineResponse) :
    ((responseResult folding line response).text = [] ∧
        (responseResult folding line response).errorCode ≠ []) ∨
      ((responseResult folding line response).text ≠ [] ∧
        (responseResult folding line response).errorCode = [] ∧
        (responseResult folding line response).refused = false) := by
  simp only [responseResult]
  generalize parsed : (if decide (trimSpace response.body ≠ []) = true then
    parseOpenAIResponse folding response.body else none) = answer
  cases answer with
  | none => exact .inl ⟨rfl, http_ne _⟩
  | some answer =>
    have read : parseOpenAIResponse folding response.body = some answer := by
      split_ifs at parsed
      exact parsed
    by_cases empty : answer.text = []
    · rw [if_pos ((firstNonEmpty_compact _).mpr empty)]
      exact .inl ⟨(firstNonEmpty_compact _).mpr empty, http_ne _⟩
    · have written := mt (firstNonEmpty_compact _).mp empty
      rw [if_neg written]
      refine .inr ⟨written, rfl, ?_⟩
      -- A refusal has no text.
      cases refused : answer.refused with
      | false => exact refused
      | true => exact absurd (text_of_refused read refused) empty

/-- A result has a text or an error code, never both, and no text when it is a refusal. -/
structure OneOutcome (r : BatchItemResult) : Prop where
  exclusive : r.text = [] ↔ r.errorCode ≠ []
  refused : r.refused = true → r.text = []

theorem IsErrorResult.oneOutcome {r : BatchItemResult} (isError : IsErrorResult r) : OneOutcome r :=
  ⟨⟨fun _ => isError.errorCode_ne, fun _ => isError.text⟩, fun _ => isError.text⟩

theorem oneOutcome_responseResult (line : OpenAIBatchOutputLine) (response : OpenAIBatchLineResponse) :
    OneOutcome (responseResult folding line response) := by
  rcases responseResult_cases line response with ⟨empty, code⟩ | ⟨written, code, notRefused⟩
  · exact ⟨⟨fun _ => code, fun _ => empty⟩, fun _ => empty⟩
  · refine ⟨⟨fun empty => absurd empty written, fun coded => absurd code coded⟩, ?_⟩
    intro refused
    rw [notRefused] at refused
    cases refused

theorem batchResult_cases {text : Bytes} {line : OpenAIBatchOutputLine}
    (decoded : decodeBraced folding ⟨[], [], [], []⟩ outputLineFields text = some line) :
    (HasObject folding text "error" ∧ ∃ r, batchResult folding text = some r ∧ IsErrorResult r) ∨
      (¬ HasObject folding text "error" ∧ HasObject folding text "response" ∧
        ∃ response, batchResult folding text = some (responseResult folding line response)) ∨
      (¬ HasObject folding text "error" ∧ ¬ HasObject folding text "response" ∧
        batchResult folding text = none) := by
  obtain ⟨error, response⟩ := outputLine_members decoded
  have hasError := @decodeObject_iff folding _ ⟨[], [], []⟩ _ rawFields_lineError text "error"
  have hasResponse := @decodeObject_iff folding _ ⟨[], [], []⟩ _ rawFields_lineResponse text "response"
  rw [← error] at hasError
  rw [← response] at hasResponse
  rw [batchResult, decoded, Option.bind_some, lineResult, ← hasError, ← hasResponse]
  cases decodeObject folding ⟨[], [], []⟩ lineErrorFields line.error with
  | some e => exact .inl ⟨⟨e, rfl⟩, _, rfl, isErrorResult line e⟩
  | none =>
    have missing : ¬ ∃ e, (none : Option OpenAIBatchLineError) = some e := by simp
    cases decodeObject folding ⟨[], [], []⟩ lineResponseFields line.response with
    | some r => exact .inr (.inl ⟨missing, ⟨r, rfl⟩, r, rfl⟩)
    | none => exact .inr (.inr ⟨missing, by simp, rfl⟩)

/-! ## The file -/

/-- The lines of a file without the white space around them, blank lines left out. -/
def nonBlank (lines : List Bytes) : List Bytes := (lines.map trimSpace).filter fun line => line ≠ []

theorem mem_nonBlank {lines : List Bytes} {text : Bytes} (inside : text ∈ nonBlank lines) :
    ∃ s, text = trimSpace s := by
  obtain ⟨s, -, rfl⟩ := List.mem_map.mp (List.mem_of_mem_filter inside)
  exact ⟨s, rfl⟩

theorem decodes_iff {lines : List Bytes} {text : Bytes} (inside : text ∈ nonBlank lines) :
    (∃ line, decodeBraced folding ⟨[], [], [], []⟩ outputLineFields text = some line) ↔
      IsReadableObject text := by
  obtain ⟨s, rfl⟩ := mem_nonBlank inside
  exact decodeBraced_trimmed rawFields_outputLine s

section Loop

variable {s : Bytes} {rest : List Bytes} {number : Nat} {results : List BatchItemResult}

theorem resultsLoop_failed (written : trimSpace s ≠ [])
    (failed : decodeBraced folding ⟨[], [], [], []⟩ outputLineFields (trimSpace s) = none) :
    resultsLoop folding number results (s :: rest) = .error (lineError (number + 1)) := by
  simp only [resultsLoop, if_neg written, failed]

theorem resultsLoop_object {line : OpenAIBatchOutputLine} (written : trimSpace s ≠ [])
    (decoded : decodeBraced folding ⟨[], [], [], []⟩ outputLineFields (trimSpace s) = some line) :
    resultsLoop folding number results (s :: rest) =
      resultsLoop folding (number + 1) (results ++ (lineResult folding line).toList) rest := by
  simp only [resultsLoop, if_neg written, decoded]
  cases lineResult folding line with
  | none => rw [Option.toList_none, List.append_nil]
  | some r => rfl

end Loop

theorem resultsLoop_spec (lines : List Bytes) (number : Nat) (results : List BatchItemResult) :
    (∃ e, resultsLoop folding number results lines = .error e ∧
        ∃ text ∈ nonBlank lines, ¬ IsReadableObject text) ∨
      (resultsLoop folding number results lines =
          .ok (results ++ (nonBlank lines).filterMap (batchResult folding)) ∧
        ∀ text ∈ nonBlank lines, IsReadableObject text) := by
  induction lines generalizing number results with
  | nil => exact .inr ⟨by simp [resultsLoop, nonBlank], by intro text inside; cases inside⟩
  | cons s rest ih =>
    by_cases blank : trimSpace s = []
    · have same : nonBlank (s :: rest) = nonBlank rest := by simp [nonBlank, blank]
      rw [resultsLoop, if_pos blank, same]
      exact ih (number + 1) results
    · have more : nonBlank (s :: rest) = trimSpace s :: nonBlank rest := by simp [nonBlank, blank]
      rw [more]
      have first := @decodeBraced_trimmed folding _ ⟨[], [], [], []⟩ _ rawFields_outputLine s
      cases decoded : decodeBraced folding ⟨[], [], [], []⟩ outputLineFields (trimSpace s) with
      | none =>
        rw [decoded] at first
        refine .inl ⟨_, resultsLoop_failed blank decoded, trimSpace s, List.mem_cons_self .., ?_⟩
        intro object
        obtain ⟨line, found⟩ := first.mpr object
        cases found
      | some line =>
        have object := first.mp ⟨line, decoded⟩
        have result : batchResult folding (trimSpace s) = lineResult folding line := by
          rw [batchResult, decoded, Option.bind_some]
        -- The rest of the loop, with the result of this line if it has one.
        have later := ih (number + 1) (results ++ (lineResult folding line).toList)
        have kept : (trimSpace s :: nonBlank rest).filterMap (batchResult folding) =
            (lineResult folding line).toList ++ (nonBlank rest).filterMap (batchResult folding) := by
          rw [List.filterMap_cons, result]
          cases lineResult folding line with
          | none => rfl
          | some r => rfl
        rw [resultsLoop_object blank decoded]
        simp only [kept, List.forall_mem_cons, List.exists_mem_cons_iff, ← List.append_assoc]
        rcases later with ⟨e, failed, bad⟩ | ⟨ok, each⟩
        · exact .inl ⟨e, failed, .inr bad⟩
        · exact .inr ⟨ok, object, each⟩

structure Classified (folding : CaseFolding) (lines : List Bytes) (results : List BatchItemResult) :
    Prop where
  inOrder : results = lines.filterMap (batchResult folding)
  oneEach : ∀ text ∈ lines, (batchResult folding text).isSome ↔
    HasObject folding text "error" ∨ HasObject folding text "response"
  oneOutcome : ∀ r ∈ results, OneOutcome r
  errorWins : ∀ text ∈ lines, HasObject folding text "error" →
    ∃ r, batchResult folding text = some r ∧ IsErrorResult r

theorem classified {lines : List Bytes} (objects : ∀ text ∈ nonBlank lines, IsReadableObject text) :
    Classified folding (nonBlank lines) ((nonBlank lines).filterMap (batchResult folding)) where
  inOrder := rfl
  oneEach := by
    intro text inside
    obtain ⟨line, decoded⟩ := (decodes_iff inside).mpr (objects text inside)
    rcases batchResult_cases decoded with ⟨error, r, result, -⟩ | ⟨-, response, r, result⟩ | ⟨noError, noResponse, result⟩
    · rw [result]
      exact ⟨fun _ => .inl error, fun _ => rfl⟩
    · rw [result]
      exact ⟨fun _ => .inr response, fun _ => rfl⟩
    · rw [result]
      exact ⟨fun some => absurd some (by decide), fun has => absurd has (not_or.mpr ⟨noError, noResponse⟩)⟩
  oneOutcome := by
    intro r inside
    obtain ⟨text, member, given⟩ := List.mem_filterMap.mp inside
    obtain ⟨line, decoded⟩ := (decodes_iff member).mpr (objects text member)
    rcases batchResult_cases decoded with ⟨-, r', result, isError⟩ | ⟨-, -, response, result⟩ | ⟨-, -, result⟩
    all_goals
      rw [result] at given
      cases given
    · exact isError.oneOutcome
    · exact oneOutcome_responseResult line response
  errorWins := by
    intro text inside error
    obtain ⟨line, decoded⟩ := (decodes_iff inside).mpr (objects text inside)
    rcases batchResult_cases decoded with ⟨-, result⟩ | ⟨noError, -⟩ | ⟨noError, -⟩
    · exact result
    · exact absurd error noError
    · exact absurd error noError

/-- A file fails when one of its lines is no object that is read; otherwise its lines are
classified one by one. -/
theorem batchLines_classified (folding : CaseFolding) (content : Bytes) :
    ((∃ e, parseOpenAIBatchLines folding content = .error e) ↔
        ∃ text ∈ nonBlank (scanLines content), ¬ IsReadableObject text) ∧
      ((∀ text ∈ nonBlank (scanLines content), IsReadableObject text) →
        ∃ results, parseOpenAIBatchLines folding content = .ok results ∧
          Classified folding (nonBlank (scanLines content)) results) := by
  rcases @resultsLoop_spec folding (scanLines content) 0 [] with ⟨e, failed, bad⟩ | ⟨ok, objects⟩
  · refine ⟨⟨fun _ => bad, fun _ => ⟨e, failed⟩⟩, ?_⟩
    intro objects
    obtain ⟨text, inside, notObject⟩ := bad
    exact absurd (objects text inside) notObject
  · refine ⟨⟨?_, ?_⟩, fun _ => ⟨_, ok, classified objects⟩⟩
    · intro failed
      obtain ⟨e, failed⟩ := failed
      rw [parseOpenAIBatchLines, ok] at failed
      cases failed
    · intro bad
      obtain ⟨text, inside, notObject⟩ := bad
      exact absurd (objects text inside) notObject

/-! ## Where a JSON object and a line that is read differ -/

def nestedObject : Nat → Json (.body .object)
  | 0 => objectTree []
  | n + 1 => objectTree [(ascii "a", .box (nestedObject n))]

theorem nestedObject_nesting (n : Nat) : (Json.box (nestedObject n)).nesting = n + 1 := by
  induction n with
  | zero => rfl
  | succ n ih =>
    simp only [nestedObject, objectTree, List.map_cons, List.map_nil, bodyOf, tailOf, Json.nesting] at ih ⊢
    omega

theorem nestedObject_printable (n : Nat) : Printable (Json.box (nestedObject n)).text := by
  induction n with
  | zero =>
    rw [nestedObject, text_objectTree]
    apply printable_jsonObject
    intro m inside
    cases inside
  | succ n ih =>
    rw [nestedObject, text_objectTree]
    apply printable_jsonObject
    intro m inside
    cases List.mem_singleton.mp inside
    exact ih

theorem scanLines_printable {text : Bytes} (printable : Printable text) (nonempty : text ≠ []) :
    scanLines text = [text] := by
  have whole : text.splitOn 0x0A = [text] := by
    have noFeed : ∀ line ∈ [text], (0x0A : UInt8) ∉ line := by
      intro line inside feed
      rw [List.mem_singleton.mp inside] at feed
      exact absurd (printable _ feed) (by decide)
    have split := List.splitOn_intercalate 0x0A noFeed (List.cons_ne_nil _ _)
    simpa using split
  have kept : dropCR text = text := by
    rw [dropCR, if_neg]
    intro last
    exact absurd (printable _ (List.mem_of_getLast? last)) (by decide)
  simp [scanLines, whole, kept, nonempty]

theorem not_readable_nested {n : Nat} (deep : maxNestingDepth ≤ n) :
    ¬ IsReadableObject (Json.box (nestedObject n)).text := by
  intro object
  obtain ⟨lead, body, trail, leadBlank, trailBlank, text, nests⟩ := object
  have same : [] ++ ((Json.box (nestedObject n)).text ++ []) = lead ++ ((Json.box body).text ++ trail) := by
    rw [List.nil_append, List.append_nil, text]
  have shape := shapeOf_text isBlank_nil isBlank_nil leadBlank trailBlank same
  have bound := nesting_of_shape _ _ _ nests shape.symm
  rw [nestedObject_nesting] at bound
  omega

/-- An object that nests too deep fails its file, and a line with a no-break space in front
of an object does not. -/
theorem batchLines_deep_and_spaced :
    (IsObjectText (Json.box (nestedObject maxNestingDepth)).text ∧
        scanLines (Json.box (nestedObject maxNestingDepth)).text =
          [(Json.box (nestedObject maxNestingDepth)).text] ∧
        ∃ e, parseOpenAIBatchLines asciiFolding (Json.box (nestedObject maxNestingDepth)).text = .error e) ∧
      (scanLines ([0xC2, 0xA0] ++ ascii "\x7b\x7d") = [[0xC2, 0xA0] ++ ascii "\x7b\x7d"] ∧
        ¬ IsObjectText ([0xC2, 0xA0] ++ ascii "\x7b\x7d") ∧
        parseOpenAIBatchLines asciiFolding ([0xC2, 0xA0] ++ ascii "\x7b\x7d") = .ok []) := by
  have printable := nestedObject_printable maxNestingDepth
  have nonempty : (Json.box (nestedObject maxNestingDepth)).text ≠ [] := by
    rw [Json.text]
    exact List.cons_ne_nil _ _
  have oneLine := scanLines_printable printable nonempty
  refine ⟨⟨⟨[], _, [], isBlank_nil, isBlank_nil, by rw [List.append_nil, List.nil_append]⟩, oneLine, ?_⟩, ?_⟩
  · rcases @resultsLoop_spec asciiFolding (scanLines (Json.box (nestedObject maxNestingDepth)).text) 0 []
      with ⟨e, failed, -⟩ | ⟨-, objects⟩
    · exact ⟨e, failed⟩
    · rw [oneLine] at objects
      have object := objects (Json.box (nestedObject maxNestingDepth)).text
        (by simp [nonBlank, trimSpace_text, nonempty])
      exact absurd object (not_readable_nested (Nat.le_refl _))
  · refine ⟨by decide, ?_, by decide⟩
    intro object
    obtain ⟨lead, body, trail, leadBlank, -, text⟩ := object
    cases lead with
    | nil =>
      rw [List.nil_append, Json.text] at text
      cases text
    | cons b lead =>
      have space := leadBlank b (List.mem_cons_self ..)
      rw [← List.head_eq_of_cons_eq text] at space
      cases space

end DevHealth.Llm

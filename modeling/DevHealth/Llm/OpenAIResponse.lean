import DevHealth.Go.JsonAny
import DevHealth.Go.JsonStruct
import DevHealth.Llm.Provider

/-! # Responses API bodies

The one parser of a Responses API body, for the synchronous call and for the lines of a
batch, and the gate that makes compact JSON of an answer. -/
set_option autoImplicit false
namespace DevHealth.Llm

open Go Lib

/-! ## The JSON gate -/

/-- One JSON value written compactly, or nothing. -/
def compactJSON (text : Bytes) : Bytes :=
  if trimSpace text = [] then []
  else
    match (Decoder.start text).decode with
    | none => []
    | some (_, raw, next) =>
      if !next.atEnd then []
      else
        match decodeAny (raw.length + 1) raw with
        | none => []
        | some value => marshal value

example : compactJSON (ascii " \x7b\"b\" : [1.50, true], \"a\":\"x\", \"b\":null\x7d ") =
    ascii "\x7b\"a\":\"x\",\"b\":null\x7d" := by decide +kernel

/-- The compact JSON and nothing, or nothing and the reply as written. -/
def gateJSON (text : Bytes) : Bytes × Bytes :=
  let compact := compactJSON text
  (compact, if compact = [] then text else [])

def firstNonEmpty : List Bytes → Bytes
  | [] => []
  | value :: values => if value ≠ [] then value else firstNonEmpty values

/-! ## The decoded body -/

structure Usage where
  inputTokens : Option Int
  outputTokens : Option Int
  cachedInputTokens : Option Int
  cacheCreationInputTokens : Option Int
  deriving DecidableEq

def Usage.unknown : Usage := ⟨none, none, none, none⟩

structure OpenAIChunk where
  type : Bytes
  text : Bytes
  deriving DecidableEq

structure OpenAIUsage where
  inputTokens : Option Int
  outputTokens : Option Int
  /-- The details, with their count of cached tokens. -/
  inputTokensDetails : Option (Option Int)
  deriving DecidableEq

/-- An item of the output is its content, and the details of an incomplete answer are their
reason. -/
structure OpenAIResponsesResponse where
  model : Bytes
  outputText : Bytes
  output : List (List OpenAIChunk)
  usage : Option OpenAIUsage
  incompleteDetails : Option Bytes
  deriving DecidableEq

/-- `responseModel`: anything but a string leaves the value as it is. -/
def intoResponseModel : Target RawMessage Bytes := fun current raw =>
  some ((unmarshalString raw).getD current)

section Fields

variable (folding : CaseFolding)

/-- A struct with one field is that field. -/
def intoOnly {α : Type} (name : String) (target : Target RawMessage α) : Target RawMessage α :=
  intoStruct folding false [.of name id (fun _ value => value) target]

def intoChunk : Target RawMessage OpenAIChunk :=
  intoStruct folding false
    [.of "type" OpenAIChunk.type (fun c s => { c with type := s }) intoString,
      .of "text" OpenAIChunk.text (fun c s => { c with text := s }) intoString]

def intoUsage : Target RawMessage OpenAIUsage :=
  intoStruct folding false
    [.of "input_tokens" OpenAIUsage.inputTokens (fun u n => { u with inputTokens := n })
        (intoPointer 0 intoInt),
      .of "output_tokens" OpenAIUsage.outputTokens (fun u n => { u with outputTokens := n })
        (intoPointer 0 intoInt),
      .of "input_tokens_details" OpenAIUsage.inputTokensDetails
        (fun u d => { u with inputTokensDetails := d })
        (intoPointer none (intoOnly folding "cached_tokens" (intoPointer 0 intoInt)))]

def intoResponse : Target RawMessage OpenAIResponsesResponse :=
  intoStruct folding false
    [.of "model" OpenAIResponsesResponse.model (fun r s => { r with model := s }) intoResponseModel,
      .of "output_text" OpenAIResponsesResponse.outputText (fun r s => { r with outputText := s })
        intoString,
      .of "output" OpenAIResponsesResponse.output (fun r o => { r with output := o })
        (intoSlice [] (intoOnly folding "content" (intoSlice ⟨[], []⟩ (intoChunk folding)))),
      .of "usage" OpenAIResponsesResponse.usage (fun r u => { r with usage := u })
        (intoPointer ⟨none, none, none⟩ (intoUsage folding)),
      .of "incomplete_details" OpenAIResponsesResponse.incompleteDetails
        (fun r d => { r with incompleteDetails := d })
        (intoPointer [] (intoOnly folding "reason" intoString))]

end Fields

/-! ## The answer -/

structure OpenAIAnswer where
  model : Bytes
  text : Bytes
  reason : Bytes
  usage : Usage
  refused : Bool
  deriving DecidableEq

def isTextChunk (c : OpenAIChunk) : Bool := c.type == ascii "output_text" || c.type == ascii "text"

/-- `output_text`, or else the text chunks of the output joined. -/
def answerText (r : OpenAIResponsesResponse) : Bytes :=
  if r.outputText ≠ [] then r.outputText
  else ((r.output.flatten.filter isTextChunk).map OpenAIChunk.text).flatten

def answerUsage (r : OpenAIResponsesResponse) : Usage :=
  match r.usage with
  | none => Usage.unknown
  | some u => ⟨u.inputTokens, u.outputTokens, u.inputTokensDetails.getD none, none⟩

def parseOpenAIResponse (folding : CaseFolding) (raw : Bytes) : Option OpenAIAnswer :=
  (intoResponse folding ⟨[], [], [], none, none⟩ raw).map fun decoded =>
    { model := decoded.model
      text := answerText decoded
      reason :=
        match decoded.incompleteDetails with
        | some reason => if reason ≠ [] then reason else ascii "completed"
        | none => ascii "completed"
      usage := answerUsage decoded
      refused := decoded.output.flatten.any (fun c => c.type == ascii "refusal") &&
        decide (answerText decoded = []) }

theorem text_of_refused {folding : CaseFolding} {raw : Bytes} {answer : OpenAIAnswer}
    (parsed : parseOpenAIResponse folding raw = some answer) (refused : answer.refused = true) :
    answer.text = [] := by
  obtain ⟨decoded, -, rfl⟩ := Option.map_eq_some_iff.mp parsed
  rw [Bool.and_eq_true, decide_eq_true_eq] at refused
  exact refused.2

theorem compactJSON_nil : compactJSON [] = [] := by decide

theorem firstNonEmpty_compact (text : Bytes) : firstNonEmpty [compactJSON text, text] = [] ↔ text = [] := by
  constructor
  · intro empty
    simp only [firstNonEmpty] at empty
    split_ifs at empty with compact written
    · exact absurd empty compact
    · exact absurd empty written
    · simpa using written
  · intro empty
    rw [empty, compactJSON_nil]
    rfl

end DevHealth.Llm

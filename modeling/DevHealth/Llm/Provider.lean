import DevHealth.Go.JsonEncode

/-! # Requests of a language model

What a caller asks of a provider, the failures a provider reports, and the body of a
Responses API request.  A schema is the list of its members, each a value that JSON can
carry. -/
set_option autoImplicit false
namespace DevHealth.Llm

open Go Lib

/-- `Kind`; `self` is a self-hosted server, `KindLocal`. -/
inductive Kind where
  | openAI
  | anthropic
  | self
  | gemini
  | qwen
  deriving DecidableEq, Repr

inductive ErrorClass where
  | generic
  | auth
  | modelNotFound
  | invalidRequest
  | rateLimit
  | contextLength
  | server
  | timeout
  | transport
  | output
  | batchTimeout
  deriving DecidableEq, Repr

/-- `retryableClasses` -/
def ErrorClass.retryable : ErrorClass → Bool
  | .rateLimit | .server | .timeout | .transport | .output => true
  | _ => false

/-- `*Error`, as far as a caller of it looks; a provider that is not set is `none`. -/
structure ProviderError where
  errorClass : ErrorClass
  provider : Option Kind
  model : Bytes
  message : Bytes
  deriving DecidableEq

def errSeedUnsupported (kind : Kind) (model : Bytes) : ProviderError :=
  ⟨.invalidRequest, some kind, model, ascii "LLM provider API takes no seed."⟩

def formatTypeJSONObject : Bytes := ascii "json_object"

structure JSONFormat where
  type : Bytes
  name : Bytes
  schema : Members

/-- `(*JSONFormat).object` -/
def JSONFormat.isObject (f : JSONFormat) : Bool := f.type == formatTypeJSONObject

/-- `(*JSONFormat).schema` -/
def JSONFormat.isSchema (f : JSONFormat) : Bool := f.type != formatTypeJSONObject

structure Request where
  system : Bytes
  prompt : Bytes
  format : Option JSONFormat
  maxOutputTokens : Int
  seed : Option Int
  reasoningEffort : Bytes

/-! ## The body of a Responses API request -/

structure OpenAITextFormat where
  type : Bytes
  name : Bytes
  strict : Bool
  schema : Members

structure OpenAIResponsesRequest where
  model : Bytes
  instructions : Bytes
  input : Bytes
  format : OpenAITextFormat
  verbosity : Bytes
  effort : Bytes
  maxOutputTokens : Int

def responsesBody (model : Bytes) (request : Request) (maxTokens : Int) : OpenAIResponsesRequest where
  model := model
  instructions := request.system
  input := request.prompt
  format :=
    match request.format with
    | some f =>
      if f.isSchema then ⟨ascii "json_schema", f.name, true, f.schema⟩
      else ⟨ascii "json_object", [], false, []⟩
    | none => ⟨ascii "json_object", [], false, []⟩
  verbosity := ascii "low"
  effort := if request.reasoningEffort ≠ [] then request.reasoningEffort else ascii "low"
  maxOutputTokens := maxTokens

/-- The name, the flag and the schema are left out when they are empty. -/
def OpenAITextFormat.marshal (f : OpenAITextFormat) : Bytes :=
  jsonObject
    ([(ascii "type", jsonString f.type)] ++
      (if f.name = [] then [] else [(ascii "name", jsonString f.name)]) ++
      (if f.strict then [(ascii "strict", ascii "true")] else []) ++
      (if f.schema.isEmpty then [] else [(ascii "schema", Go.marshal (.obj f.schema))]))

def OpenAIResponsesRequest.marshal (r : OpenAIResponsesRequest) : Bytes :=
  jsonObject
    [(ascii "model", jsonString r.model),
      (ascii "instructions", jsonString r.instructions),
      (ascii "input", jsonString r.input),
      (ascii "text", jsonObject
        [(ascii "format", r.format.marshal), (ascii "verbosity", jsonString r.verbosity)]),
      (ascii "reasoning", jsonObject [(ascii "effort", jsonString r.effort)]),
      (ascii "max_output_tokens", formatInt r.maxOutputTokens)]

end DevHealth.Llm

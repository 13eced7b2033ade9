import DevHealth.Llm.OpenAIResponse

/-! # The results of a batch

Each line of an output file is an object with an error or with a response.  A line that is
no object fails the whole file; every other line gives one result or is left out. -/
set_option autoImplicit false
namespace DevHealth.Llm

open Go Lib

/-! ## Lines -/

def dropCR (line : Bytes) : Bytes := if line.getLast? = some 0x0D then line.dropLast else line

/-- `bufio.ScanLines`: what is left after the last line feed is a line if it is not empty. -/
def scanLines (content : Bytes) : List Bytes :=
  let pieces := content.splitOn 0x0A
  (if pieces.getLast? = some [] then pieces.dropLast else pieces).map dropCR

/-! ## Model -/

structure OpenAIBatchOutputLine where
  id : RawMessage
  customID : RawMessage
  response : RawMessage
  error : RawMessage

structure OpenAIBatchLineResponse where
  statusCode : RawMessage
  requestID : RawMessage
  body : RawMessage

structure OpenAIBatchLineError where
  code : RawMessage
  type : RawMessage
  message : RawMessage

structure BatchItemResult where
  customID : Bytes
  text : Bytes
  errorCode : Bytes
  errorMessage : Bytes
  refused : Bool
  lineID : Bytes
  requestID : Bytes
  statusCode : Option Int
  usage : Usage
  providerErrorCode : Bytes
  providerErrorType : Bytes
  deriving DecidableEq

def outputLineFields : List (StructField RawMessage OpenAIBatchOutputLine) :=
  [.of "id" OpenAIBatchOutputLine.id (fun l raw => { l with id := raw }) intoRaw,
    .of "custom_id" OpenAIBatchOutputLine.customID (fun l raw => { l with customID := raw }) intoRaw,
    .of "response" OpenAIBatchOutputLine.response (fun l raw => { l with response := raw }) intoRaw,
    .of "error" OpenAIBatchOutputLine.error (fun l raw => { l with error := raw }) intoRaw]

def lineResponseFields : List (StructField RawMessage OpenAIBatchLineResponse) :=
  [.of "status_code" OpenAIBatchLineResponse.statusCode (fun r raw => { r with statusCode := raw })
      intoRaw,
    .of "request_id" OpenAIBatchLineResponse.requestID (fun r raw => { r with requestID := raw })
      intoRaw,
    .of "body" OpenAIBatchLineResponse.body (fun r raw => { r with body := raw }) intoRaw]

def lineErrorFields : List (StructField RawMessage OpenAIBatchLineError) :=
  [.of "code" OpenAIBatchLineError.code (fun e raw => { e with code := raw }) intoRaw,
    .of "type" OpenAIBatchLineError.type (fun e raw => { e with type := raw }) intoRaw,
    .of "message" OpenAIBatchLineError.message (fun e raw => { e with message := raw }) intoRaw]

/-- An object into a struct, when the text starts like one. -/
def decodeBraced {σ : Type} (folding : CaseFolding) (zero : σ) (fields : List (StructField RawMessage σ))
    (trimmed : Bytes) : Option σ :=
  if trimmed.head? = some Box.object.opens then intoStruct folding false fields zero trimmed else none

def decodeObject {σ : Type} (folding : CaseFolding) (zero : σ) (fields : List (StructField RawMessage σ))
    (raw : RawMessage) : Option σ :=
  decodeBraced folding zero fields (trimSpace raw)

def jsonScalarText (raw : RawMessage) : Bytes :=
  let trimmed := trimSpace raw
  if trimmed.head? = some quoteMark then (unmarshalString trimmed).getD []
  else
    match scanDocument trimmed with
    | some (.scalar (.num digits)) => digits
    | _ => []

def jsonInt (raw : RawMessage) : Option Int := intoInt 0 (trimSpace raw)

/-- What `decodeFailure` says of a body that is valid JSON: only its types can be wrong. -/
def decodeFailureText : Bytes := ascii "decode response: type | cause_type=*llm.classifiedError"

/-- The result of a line before its error or its response is looked at. -/
def startResult (line : OpenAIBatchOutputLine) : BatchItemResult :=
  ⟨jsonScalarText line.customID, [], [], [], false, jsonScalarText line.id, [], none, Usage.unknown, [], []⟩

def errorResult (line : OpenAIBatchOutputLine) (e : OpenAIBatchLineError) : BatchItemResult :=
  let code := jsonScalarText e.code
  let errType := jsonScalarText e.type
  let errorCode := firstNonEmpty [code, errType, ascii "error"]
  { startResult line with
    providerErrorCode := code
    providerErrorType := errType
    errorCode := errorCode
    errorMessage := firstNonEmpty [jsonScalarText e.message, errorCode] }

def responseResult (folding : CaseFolding) (line : OpenAIBatchOutputLine)
    (response : OpenAIBatchLineResponse) : BatchItemResult :=
  let started := { startResult line with
    requestID := jsonScalarText response.requestID
    statusCode := jsonInt response.statusCode }
  let present := decide (trimSpace response.body ≠ [])
  let parsed := if present then parseOpenAIResponse folding response.body else none
  let result : BatchItemResult :=
    match parsed with
    | some answer => { started with
        usage := answer.usage
        refused := answer.refused
        text := firstNonEmpty [compactJSON answer.text, answer.text] }
    | none => started
  if result.text = [] then
    let status :=
      match result.statusCode with
      | some n => if n ≠ 0 then formatInt n else ascii "unknown"
      | none => ascii "unknown"
    { result with
      errorCode := ascii "http_" ++ status
      errorMessage := ascii "Batch response did not contain completion text" ++
        (if present && parsed.isNone then
          ascii " (the body is not a Responses API body: " ++ decodeFailureText ++ ascii ")"
        else []) }
  else result

/-- The error of a line comes before its response. -/
def lineResult (folding : CaseFolding) (line : OpenAIBatchOutputLine) : Option BatchItemResult :=
  match decodeObject folding ⟨[], [], []⟩ lineErrorFields line.error with
  | some e => some (errorResult line e)
  | none =>
    (decodeObject folding ⟨[], [], []⟩ lineResponseFields line.response).map (responseResult folding line)

def lineError (number : Nat) : ProviderError :=
  ⟨.generic, some .openAI, [], ascii "LLM provider batch result line " ++ decimal number ++
    ascii " is not a JSON object."⟩

def resultsLoop (folding : CaseFolding) :
    Nat → List BatchItemResult → List Bytes → Except ProviderError (List BatchItemResult)
  | _, results, [] => .ok results
  | number, results, line :: rest =>
    let trimmed := trimSpace line
    if trimmed = [] then resultsLoop folding (number + 1) results rest
    else
      match decodeBraced folding ⟨[], [], [], []⟩ outputLineFields trimmed with
      | none => .error (lineError (number + 1))
      | some decoded =>
        match lineResult folding decoded with
        | some result => resultsLoop folding (number + 1) (results ++ [result]) rest
        | none => resultsLoop folding (number + 1) results rest

def parseOpenAIBatchLines (folding : CaseFolding) (content : Bytes) :
    Except ProviderError (List BatchItemResult) :=
  resultsLoop folding 0 [] (scanLines content)

end DevHealth.Llm

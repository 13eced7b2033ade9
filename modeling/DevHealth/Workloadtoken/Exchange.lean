import DevHealth.Workloadtoken.Check
import DevHealth.Workloadtoken.Request

/-! # One exchange

`exchange`: the subject is read, the form is sent, and the answer becomes a cache entry or
an error.  The file system, the network and the time on the wire are the environment's: a
file is what opening and reading it gives, an outcome what the HTTP client returns. -/
set_option autoImplicit false
namespace DevHealth.Workloadtoken

open Go Lib

def grantTypeTokenExchange : Bytes := ascii "urn:ietf:params:oauth:grant-type:token-exchange"
def tokenTypeJWT : Bytes := ascii "urn:ietf:params:oauth:token-type:jwt"
def tokenTypeWorkloadBootstrap : Bytes :=
  ascii "urn:dev-health:params:oauth:token-type:workload-bootstrap"
def bootstrapPrefix : Bytes := ascii "fcwlb_"
def bootstrapValueBytes : Nat := bootstrapPrefix.length + 43
def maxSubjectBytes : Nat := 4 * 1024
def maxAnswerBytes : Nat := 16 * 1024

/-- `ErrExchangeUnavailable`, `ErrExchangeRefused`, `ErrExchangeInvalidRequest` and
`ErrSubjectUnreadable` with its class word. -/
inductive ExchangeError where
  | unavailable (cause : Unavailable)
  | refused
  | invalidRequest
  | subjectUnreadable (kind : String)
  deriving DecidableEq, Repr

/-! ## The subject -/

inductive Subject where
  | kubernetes
  | bootstrap
  deriving DecidableEq, Repr

def bootstrapPattern : Regex UInt8 :=
  .seq (.lit bootstrapPrefix) (.exactly Authverify.urlByte 43)

def canonicalBootstrap (value : Bytes) : Bool :=
  bootstrapPattern.accepts value &&
    match rawURLDecode true (value.drop bootstrapPrefix.length) with
    | none => false
    | some raw => decide (raw.length = 32)

theorem bootstrapPattern_iff {value : Bytes} : bootstrapPattern.accepts value = true ↔
      ∃ ending : Bytes, value = bootstrapPrefix ++ ending ∧ ending.length = 43 ∧
        ∀ b ∈ ending, isBase64URL b = true := by
  rw [Regex.accepts_iff, bootstrapPattern, Regex.mem_lang_seq]
  constructor
  · intro split
    obtain ⟨start, literal, ending, form, rfl⟩ := split
    rw [Regex.mem_lang_lit.mp literal]
    exact ⟨ending, rfl, Regex.mem_lang_exactly_cls.mp form⟩
  · intro split
    obtain ⟨ending, rfl, form⟩ := split
    exact ⟨_, Regex.mem_lang_lit.mpr rfl, ending, Regex.mem_lang_exactly_cls.mpr form, rfl⟩

theorem canonicalBootstrap_ending {ending : Bytes} : canonicalBootstrap (bootstrapPrefix ++ ending) = true ↔
      ∃ raw : Bytes, raw.length = 32 ∧ ending = rawURLEncode raw := by
  rw [canonicalBootstrap, Bool.and_eq_true, bootstrapPattern_iff, List.drop_left]
  constructor
  · intro accepted
    obtain ⟨⟨ending', same, -, alphabet⟩, decoded⟩ := accepted
    rw [← List.append_cancel_left same] at alphabet
    cases read : rawURLDecode true ending with
    | none => simp [read] at decoded
    | some raw =>
      simp only [read, decide_eq_true_eq] at decoded
      exact ⟨raw, decoded, rawURLDecode_encode alphabet read⟩
  · intro spelled
    obtain ⟨raw, bytes, rfl⟩ := spelled
    have count : (rawURLEncode raw).length = 43 := by
      rw [rawURLEncode, List.length_map, splitBytes_length, bytes]
    rw [rawURLDecode_rawURLEncode]
    exact ⟨⟨_, rfl, count, rawURLEncode_alphabet raw⟩, decide_eq_true bytes⟩

/-- Each 32 bytes have one bootstrap value, and no other spelling of them passes. -/
theorem canonicalBootstrap_one_spelling (value : Bytes) :
    (canonicalBootstrap value = true ↔
      ∃ raw : Bytes, raw.length = 32 ∧ value = bootstrapPrefix ++ rawURLEncode raw) ∧
    (∀ raw raw' : Bytes, value = bootstrapPrefix ++ rawURLEncode raw →
      value = bootstrapPrefix ++ rawURLEncode raw' → raw = raw') ∧
    (∀ raw ending : Bytes, value = bootstrapPrefix ++ rawURLEncode raw → ending.length = 43 →
      rawURLDecode false ending = some raw → ending ≠ rawURLEncode raw →
      canonicalBootstrap (bootstrapPrefix ++ ending) = false) := by
  refine ⟨⟨?_, ?_⟩, ?_, ?_⟩
  · intro accepted
    have shape : bootstrapPattern.accepts value = true := (Bool.and_eq_true_iff.mp accepted).1
    obtain ⟨ending, rfl, -⟩ := bootstrapPattern_iff.mp shape
    obtain ⟨raw, bytes, rfl⟩ := canonicalBootstrap_ending.mp accepted
    exact ⟨raw, bytes, rfl⟩
  · intro spelled
    obtain ⟨raw, bytes, rfl⟩ := spelled
    exact canonicalBootstrap_ending.mpr ⟨raw, bytes, rfl⟩
  · intro raw raw' one two
    have same := congrArg (rawURLDecode true) (List.append_cancel_left (one.symm.trans two))
    rw [rawURLDecode_rawURLEncode, rawURLDecode_rawURLEncode] at same
    exact Option.some.inj same
  · intro raw ending _ _ lenient other
    -- what passes is the encoding of its own bytes, and both decoders read those
    by_contra accepted
    rw [Bool.not_eq_false] at accepted
    obtain ⟨raw', -, rfl⟩ := canonicalBootstrap_ending.mp accepted
    rw [rawURLDecode_rawURLEncode] at lenient
    exact other (congrArg rawURLEncode (Option.some.inj lenient))

/-- The file is the class word of the check it fails, or its content. -/
def readSubjectFile (file : Except String Bytes) (maxBytes : Nat) : Except ExchangeError Bytes :=
  match file with
  | .error kind => .error (.subjectUnreadable kind)
  | .ok content =>
    let value := trimSuffix (content.take (maxBytes + 2)) [0x0A]
    if value == [] || decide (maxBytes < value.length) then .error (.subjectUnreadable "size")
    else .ok value

def Subject.read (subject : Subject) (file : Except String Bytes) :
    Except ExchangeError (Bytes × Bytes) :=
  match subject with
  | .kubernetes => do
      let value ← readSubjectFile file maxSubjectBytes
      ensure (compactJWS value) (.subjectUnreadable "shape")
      return (value, tokenTypeJWT)
  | .bootstrap => do
      let value ← readSubjectFile file bootstrapValueBytes
      ensure (canonicalBootstrap value) (.subjectUnreadable "shape")
      return (value, tokenTypeWorkloadBootstrap)

/-! ## The request -/

/-- `url.Values` of the exchange. -/
structure Form where
  grantType : Bytes
  subjectToken : Bytes
  subjectTokenType : Bytes
  audience : Bytes
  scope : Option Bytes
  deriving DecidableEq, Repr

def exchangeForm (subject : Bytes × Bytes) (audience : Bytes) (actions : List Bytes) : Form :=
  { grantType := grantTypeTokenExchange
    subjectToken := subject.1
    subjectTokenType := subject.2
    audience := audience
    scope := if 0 < actions.length then some (join (ascii " ") actions) else none }

/-- What comes before the request is sent; `built` says that it could be built. -/
def prepare (subject : Subject) (file : Except String Bytes) (built : Bool) (audience : Bytes)
    (actions : List Bytes) : Except ExchangeError Form := do
  let token ← subject.read file
  ensure built (.unavailable (unavailable "request"))
  return exchangeForm token audience actions

/-! ## The answer -/

def answerMembers : List String := ["access_token", "token_type", "issued_token_type"]

/-- The order in which a range over the map of the three members visits them. -/
structure NameOrder where
  names : List String
  all : names.Perm answerMembers

/-- `json` says that the content type is `application/json`. -/
inductive Outcome where
  | timeout
  | transport
  | unread
  | response (status : Nat) (json : Bool) (body : Bytes) (order : NameOrder)

/-- `Decode` into a nil map, with the decoder behind it. -/
def decodeMembers (d : Decoder) : Option (RawObject × Decoder) :=
  match d.decode with
  | some (.box .object entries, _, next) =>
    some (entries.map fun (name, raw) => (unquote name, raw), next)
  | _ => none

def checkMembers (members : RawObject) : List String → Except Unavailable Unit
  | [] => .ok ()
  | name :: rest => do
      ensure (memberText members (ascii name)).isSome (unavailable ("answer lacks " ++ name))
      checkMembers members rest

def parseAnswer (folding : CaseFolding) (json : Bool) (body : Bytes) (order : NameOrder) :
    Except Unavailable (Bytes × Int) := do
  ensure json (unavailable "answer is not JSON")
  let (members, decoder) ← obtainOr (decodeMembers (Decoder.start body))
    (unavailable "malformed answer")
  ensure decoder.atEnd (unavailable "malformed answer")
  checkMembers members order.names
  let text := fun name => (memberText members (ascii name)).getD []
  ensure (equalFold folding (text "token_type") (ascii "Bearer"))
    (unavailable "token_type is not Bearer")
  ensure (text "issued_token_type" == tokenTypeJWT) (unavailable "issued_token_type is not a JWT")
  let raw ← obtainOr (members.get (ascii "expires_in")) (unavailable "answer lacks expires_in")
  let seconds ← obtainOr (parseInt (trimSpace raw))
    (unavailable "expires_in is not an integer in 1..300")
  ensure (decide (1 ≤ seconds) && decide (seconds ≤ maxLifetime))
    (unavailable "expires_in is not an integer in 1..300")
  return (text "access_token", seconds * nanosPerSecond)

/-- The field `error` of an object: a name that folds to it, its last string; `null` leaves
the field as it is, and any other value fails. -/
def errorField (folding : CaseFolding) : List (Bytes × Bytes) → Bytes → Option Bytes
  | [], value => some value
  | (name, raw) :: rest, value =>
    if equalFold folding (unquote name) (ascii "error") then
      match scanDocument raw with
      | some (.scalar (.str content)) => errorField folding rest (unquote content)
      | some (.scalar .null) => errorField folding rest value
      | _ => none
    else errorField folding rest value

/-- `json.Unmarshal` into the struct of a refusal. -/
def unmarshalError (folding : CaseFolding) (body : Bytes) : Option Bytes :=
  match scanDocument body with
  | some (.box .object entries) => errorField folding entries []
  | some (.scalar .null) => some []
  | _ => none

def refusal (folding : CaseFolding) (json : Bool) (body : Bytes) : ExchangeError :=
  if !json then .unavailable (unavailable "400 without a JSON answer")
  else
    match unmarshalError folding body with
    | none => .unavailable (unavailable "400 with a malformed answer")
    | some value =>
      if value = ascii "invalid_grant" then .refused
      else if value = ascii "invalid_request" then .invalidRequest
      else .unavailable (unavailable "400 with an unknown error code")

/-- The answer, as an entry that is yet to be checked. -/
def receive (folding : CaseFolding) (audience : Bytes) (start : Time) :
    Outcome → Except ExchangeError Entry
  | .timeout => .error (.unavailable (unavailable "timeout"))
  | .transport => .error (.unavailable (unavailable "transport"))
  | .unread => .error (.unavailable (unavailable "read"))
  | .response status json body order =>
    -- The reader is limited to one byte more than an answer may have.
    let read := body.take (maxAnswerBytes + 1)
    if maxAnswerBytes < read.length then .error (.unavailable (unavailable "answer too large"))
    else if status = 400 then .error (refusal folding json read)
    else if status ≠ 200 then
      .error (.unavailable (unavailable ("status " ++ toString status)))
    else
      match parseAnswer folding json read order with
      | .error e => .error (.unavailable e)
      | .ok (token, lifetime) =>
        .ok { token := token, audience := audience, sent := start, lifetime := lifetime
              notBefore := Time.zero, refreshAt := Time.zero, usableUntil := Time.zero }

theorem receive_ok {folding : CaseFolding} {audience : Bytes} {start : Time} {outcome : Outcome}
    {e : Entry} (success : receive folding audience start outcome = .ok e) :
    e.audience = audience ∧ e.sent = start := by
  cases outcome with
  | timeout | transport | unread => cases success
  | response status json body order =>
    simp only [receive] at success
    split_ifs at success
    split at success
    · cases success
    · cases success
      exact ⟨rfl, rfl⟩

end DevHealth.Workloadtoken

import DevHealth.Authverify.Wire
import DevHealth.Go.Time
import DevHealth.Workloadtoken.UniqueObject

/-! # The token client's check

`checkToken`: the one check of a workload token, run when its answer arrives and every
time the cached token is handed out. -/
set_option autoImplicit false
namespace DevHealth.Workloadtoken

open Go Lib

/-- `ErrExchangeUnavailable` with the class word it is wrapped with. -/
structure Unavailable where
  kind : String
  deriving DecidableEq, Repr

def unavailable (kind : String) : Unavailable := ⟨kind⟩

def maxAccessTokenBytes : Nat := 8192

/-- In seconds. -/
def maxLifetime : Int := 300

def maxNumericDate : Int := 253402300799

def claimMembers : List Bytes :=
  [ascii "iss", ascii "aud", ascii "sub", ascii "principal_type", ascii "jti", ascii "iat",
    ascii "nbf", ascii "exp"]

/-- The shapes are those of the verifier, pattern for pattern. -/
def issuerShape : Regex UInt8 := Authverify.issuerPattern
def subjectShape : Regex UInt8 := Authverify.subjectPattern
def tokenIDShape : Regex UInt8 := Authverify.jtiPattern
def kidShape : Regex UInt8 := Authverify.kidPattern

def errClaimsShape : Unavailable :=
  unavailable "token claims break the workload-token contract"

def errNotYetValid : Unavailable := unavailable "token not yet valid"

/-! ## Shape -/

/-- `[A-Za-z0-9_-]`, on runes -/
def isBase64URLRune (r : Nat) : Bool :=
  decide (65 ≤ r ∧ r ≤ 90) || decide (97 ≤ r ∧ r ≤ 122) || decide (48 ≤ r ∧ r ≤ 57) ||
    r == 45 || r == 95

def compactPart (part : Bytes) : Bool :=
  part != [] && (runes part).all isBase64URLRune && (rawURLDecode false part).isSome

def compactJWS (value : Bytes) : Bool :=
  match value.splitOn 0x2E with
  | [header, payload, signature] =>
    compactPart header && compactPart payload && compactPart signature
  | _ => false

/-- `json.Unmarshal(members[name], &value)`; a missing member fails. -/
def memberText (members : RawObject) (name : Bytes) : Option Bytes :=
  (members.get name).bind unmarshalString

def headerShape (raw : Bytes) : Bool :=
  match uniqueObject raw with
  | none => false
  | some members =>
    decide (members.length = 3) && memberText members (ascii "alg") == some (ascii "EdDSA") &&
      memberText members (ascii "typ") == some (ascii "workload+jwt") &&
      (memberText members (ascii "kid")).any kidShape.accepts

def workloadTokenShape (token : Bytes) : Bool :=
  compactJWS token &&
    match token.splitOn 0x2E with
    | [header, _, signature] =>
      (match rawURLDecode true header with
        | none => false
        | some rawHeader => headerShape rawHeader) &&
      (match rawURLDecode true signature with
        | none => false
        | some bytes => decide (bytes.length = Authverify.signatureSize))
    | _ => false

/-! ## Claims -/

def readDate (members : RawObject) (name : String) : Except Unavailable Int := do
  let value ← obtainOr (parseInt (trimSpace ((members.get (ascii name)).getD [])))
    (unavailable ("token " ++ name ++ " is not an integer"))
  ensure (decide (1 ≤ value) && decide (value ≤ maxNumericDate))
    (unavailable "token dates break the workload-token contract")
  return value

def payloadPart (token : Bytes) : Bytes :=
  match token.splitOn 0x2E with
  | _ :: payload :: _ => payload
  | _ => []

def tokenClaims (token issuer audience : Bytes) : Except Unavailable (Time × Time) := do
  let payload ← obtainOr (rawURLDecode true (payloadPart token))
    (unavailable "token payload is not base64url")
  let members ← obtainOr (uniqueObject payload) errClaimsShape
  ensure (decide (members.length = claimMembers.length)) errClaimsShape
  ensure (claimMembers.all fun name => (members.get name).isSome) errClaimsShape
  ensure (memberText members (ascii "aud") == some audience &&
    memberText members (ascii "principal_type") == some (ascii "workload") &&
    memberText members (ascii "iss") == some issuer &&
    (memberText members (ascii "sub")).any subjectShape.accepts &&
    (memberText members (ascii "jti")).any tokenIDShape.accepts) errClaimsShape
  let iat ← readDate members "iat"
  let nbf ← readDate members "nbf"
  let exp ← readDate members "exp"
  ensure (decide (iat ≤ nbf) && decide (exp - iat ≤ maxLifetime))
    (unavailable "token dates break the workload-token contract")
  return (Time.unix nbf, Time.unix exp)

/-! ## The check -/

structure Entry where
  token : Bytes
  audience : Bytes
  sent : Time
  lifetime : Int
  notBefore : Time
  refreshAt : Time
  usableUntil : Time
  deriving DecidableEq, Repr

/-- What the check reads of a client.  `refreshAfter` is the rounding of the lifetime
times the refresh fraction. -/
structure Client where
  issuer : Bytes
  margin : Int
  refreshAfter : Int → Int
  issuerValid : issuerShape.accepts issuer = true
  marginPositive : 0 < margin

/-- The earlier of the token's expiry and the end of its lifetime, less the margin. -/
def usableUntil (c : Client) (e : Entry) (expires : Time) : Time :=
  (expires.earlier (e.sent.add e.lifetime)).add (-c.margin)

def fillWindow (c : Client) (e : Entry) (notBefore expires : Time) : Entry :=
  let refresh := e.sent.add (c.refreshAfter e.lifetime)
  let limit := usableUntil c e expires
  { e with
    notBefore := notBefore
    refreshAt := if refresh.after limit then limit else refresh
    usableUntil := limit }

@[simp] theorem fillWindow_usableUntil (c : Client) (e : Entry) (notBefore expires : Time) :
    (fillWindow c e notBefore expires).usableUntil = usableUntil c e expires := rfl

/-- The entry with its window filled in, and the refusal if there is one. -/
def checkToken (c : Client) (e : Option Entry) (now : Time) : Option Entry × Option Unavailable :=
  match e with
  | none => (none, some (unavailable "access_token is not a workload token"))
  | some e =>
    if decide (maxAccessTokenBytes < e.token.length) || !workloadTokenShape e.token then
      (some e, some (unavailable "access_token is not a workload token"))
    else
      match tokenClaims e.token c.issuer e.audience with
      | .error err => (some e, some err)
      | .ok (notBefore, expires) =>
        let filled := fillWindow c e notBefore expires
        if now.before notBefore then (some filled, some errNotYetValid)
        else if !now.before filled.usableUntil then
          (some filled, some (unavailable "token outside its usable window"))
        else (some filled, none)

end DevHealth.Workloadtoken

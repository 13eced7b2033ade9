import DevHealth.Authverify.WorkloadToken

/-! # The access token verifier

`Verifier.Verify`: like the workload verifier, over the claims of a person's access token.
An `act` claim names the real actor of a delegated token. -/
set_option autoImplicit false
namespace DevHealth.Authverify

open Go Lib

def typAccessToken : Bytes := ascii "at+jwt"

/-- In seconds. -/
def lifetimeCeiling : Int := 60 * 60

/-- In nanoseconds. -/
def maxLeeway : Int := 60 * nanosPerSecond

/-- `^ses_[A-Za-z0-9_-]{22,64}$` -/
def sessionPattern : Regex UInt8 := .seq (.lit (ascii "ses_")) (.repeated urlByte 22 64)

/-- `[0-9a-f]{n}` -/
def hexDigits (n : Nat) : Regex UInt8 :=
  .exactly (.cls fun b => between '0' '9' b || between 'a' 'f' b) n

/-- `^[0-9a-f]{8}-[0-9a-f]{4}-[0-9a-f]{4}-[0-9a-f]{4}-[0-9a-f]{12}$` -/
def orgIDPattern : Regex UInt8 :=
  .seq (hexDigits 8) <| .seq (.lit (ascii "-")) <| .seq (hexDigits 4) <| .seq (.lit (ascii "-")) <|
  .seq (hexDigits 4) <| .seq (.lit (ascii "-")) <| .seq (hexDigits 4) <| .seq (.lit (ascii "-"))
    (hexDigits 12)

def scopeByAudience : List (Bytes × Bytes) :=
  [(ascii "dev-health-api", ascii "api:access"), (ascii "auth-service", ascii "auth:session"),
    (ascii "acr-api", ascii "acr:api"), (ascii "acr-mcp", ascii "acr:mcp")]

def headerMembers : List Bytes := [ascii "alg", ascii "typ", ascii "kid"]

def claimsMembers : List Bytes :=
  [ascii "iss", ascii "aud", ascii "sub", ascii "principal_type", ascii "sid", ascii "jti",
    ascii "iat", ascii "nbf", ascii "exp", ascii "org_id", ascii "act", ascii "scope"]

def claimsRequired : List Bytes :=
  [ascii "iss", ascii "aud", ascii "sub", ascii "principal_type", ascii "sid", ascii "jti",
    ascii "iat", ascii "nbf", ascii "exp", ascii "scope"]

def headerRequired : List Bytes := headerMembers

def actMembers : List Bytes := [ascii "sub"]

structure AccessClaims where
  issuer : Bytes
  audience : Bytes
  subject : Bytes
  sessionID : Bytes
  tokenID : Bytes
  scope : Bytes
  orgID : Option Bytes
  actorSubject : Option Bytes
  issuedAt : Int
  notBefore : Int
  expiresAt : Int
  deriving DecidableEq, Repr

structure VerifierConfig where
  issuer : Bytes
  audience : Bytes
  keys : Option KeySource
  deniedKids : List Bytes
  /-- In nanoseconds. -/
  leeway : Int

/-- A verifier that `NewVerifier` accepts; the leeway is in seconds. -/
structure Verifier where
  issuer : Bytes
  audience : Bytes
  keys : KeySource
  denied : List Bytes
  leeway : Int
  issuerValid : issuerPattern.accepts issuer = true
  audienceValid : (scopeByAudience.lookup audience).isSome = true
  leewayValid : 0 ≤ leeway ∧ leeway * nanosPerSecond ≤ maxLeeway

def newVerifier (cfg : VerifierConfig) : Except String Verifier :=
  match cfg.keys with
  | none => .error "authverify: verifier needs an https issuer and a key source"
  | some keys =>
    if issuerValid : issuerPattern.accepts cfg.issuer = true then
      if audienceValid : (scopeByAudience.lookup cfg.audience).isSome = true then
        if outside : cfg.leeway < 0 ∨ maxLeeway < cfg.leeway ∨ cfg.leeway % nanosPerSecond ≠ 0 then
          .error "authverify: verifier leeway is out of bounds"
        else
          .ok { issuer := cfg.issuer, audience := cfg.audience, keys := keys
                denied := cfg.deniedKids, leeway := cfg.leeway / nanosPerSecond
                issuerValid := issuerValid, audienceValid := audienceValid
                leewayValid := wholeSeconds_within outside }
      else .error "authverify: verifier audience is not an access-token.v1 audience"
    else .error "authverify: verifier needs an https issuer and a key source"

def parseAccessHeader (folding : CaseFolding) (raw : Bytes) : Option Bytes := do
  let object ← decodeObject folding raw
  guard (closedSet object headerMembers headerRequired)
  let alg ← stringMember object (ascii "alg") none
  guard (alg == algEdDSA)
  let typ ← stringMember object (ascii "typ") none
  guard (typ == typAccessToken)
  stringMember object (ascii "kid") (some kidPattern)

/-- A member that may be absent; a reader that refuses it refuses the object. -/
def optionalMember (object : RawObject) (name : Bytes) (read : RawMessage → Option Bytes) :
    Option (Option Bytes) :=
  match object.get name with
  | none => some none
  | some raw => (read raw).map some

/-- The actor of an `act` claim: one closed object. -/
def parseAct (raw : RawMessage) : Option Bytes := do
  let act ← unmarshalObject raw
  guard (closedSet act actMembers actMembers)
  stringMember act (ascii "sub") (some subjectPattern)

def parseAccessClaims (folding : CaseFolding) (raw : Bytes) : Option AccessClaims := do
  let object ← decodeObject folding raw
  guard (closedSet object claimsMembers claimsRequired)
  let issuer ← stringMember object (ascii "iss") (some issuerPattern)
  let audience ← stringMember object (ascii "aud") none
  let subject ← stringMember object (ascii "sub") (some subjectPattern)
  let sessionID ← stringMember object (ascii "sid") (some sessionPattern)
  let tokenID ← stringMember object (ascii "jti") (some jtiPattern)
  let scope ← stringMember object (ascii "scope") none
  guard (scopeByAudience.lookup audience == some scope)
  let principalType ← stringMember object (ascii "principal_type") none
  guard (principalType == ascii "human")
  let orgID ← optionalMember object (ascii "org_id") fun _ =>
    stringMember object (ascii "org_id") (some orgIDPattern)
  let actorSubject ← optionalMember object (ascii "act") parseAct
  let issuedAt ← numericDate object (ascii "iat")
  let notBefore ← numericDate object (ascii "nbf")
  let expiresAt ← numericDate object (ascii "exp")
  guard (issuedAt ≤ notBefore ∧ notBefore < expiresAt ∧ expiresAt - issuedAt ≤ lifetimeCeiling)
  return { issuer := issuer, audience := audience, subject := subject, sessionID := sessionID
           tokenID := tokenID, scope := scope, orgID := orgID, actorSubject := actorSubject
           issuedAt := issuedAt, notBefore := notBefore, expiresAt := expiresAt }

def Verifier.verify (platform : Platform) (v : Verifier) (token : Bytes) (now : Time) :
    Except VerifyError AccessClaims := do
  let (headerPart, payloadPart, signaturePart) ←
    obtainOr (splitCompact token) (refuse .contract)
  let headerRaw ← obtainOr (rawURLDecode true headerPart) (refuse .contract)
  let payloadRaw ← obtainOr (rawURLDecode true payloadPart) (refuse .contract)
  let kid ← obtainOr (parseAccessHeader platform.folding headerRaw) (refuse .contract)
  let claims ← obtainOr (parseAccessClaims platform.folding payloadRaw) (refuse .contract)
  ensure (!contains v.denied kid) (refuse .unknownKid)
  let (key, known) ← lookupKey v.keys kid
  ensure (known && decide (key.length = publicKeySize)) (refuse .unknownKid)
  ensure (signatureHolds platform key headerPart payloadPart signaturePart) (refuse .signature)
  ensure (claims.issuer == v.issuer) (refuse .issuer)
  ensure (claims.audience == v.audience) (refuse .audience)
  ensure (!decide ((now.unixSeconds + v.leeway).bmod (2 ^ 64) < claims.notBefore)) (refuse .notYetValid)
  ensure (!decide ((now.unixSeconds - v.leeway).bmod (2 ^ 64) ≥ claims.expiresAt)) (refuse .expired)
  return claims

def tokenKid (folding : CaseFolding) (token : Bytes) : Option Bytes := do
  let (headerPart, _, _) ← splitCompact token
  let headerRaw ← rawURLDecode true headerPart
  parseAccessHeader folding headerRaw

theorem lookupKey_ne_unknownKid (keys : KeySource) (kid : Bytes) :
    lookupKey keys kid ≠ .error (.refused .unknownKid) := by
  cases keys with
  | plain publicKey => simp [lookupKey]
  | resolver resolveKey =>
    simp only [lookupKey]
    split <;> simp

theorem Verifier.verify_unknownKid {platform : Platform} {v : Verifier} {token : Bytes}
    {now : Time} (refused : v.verify platform token now = .error (refuse .unknownKid)) :
    ∃ kid, tokenKid platform.folding token = some kid ∧ (contains v.denied kid = true ∨
      ∃ key known, lookupKey v.keys kid = .ok (key, known) ∧
        (known && decide (key.length = publicKeySize)) = false) := by
  simp only [Verifier.verify, bind_error, ensure_error, obtainOr_error, refuse,
    VerifyError.refused.injEq, reduceCtorEq, and_false, false_or, obtainOr_ok, ensure_ok] at refused
  obtain ⟨⟨headerPart, payloadPart, signaturePart⟩, split, headerRaw, header, payloadRaw, -, kid,
    named, claims, -, decided⟩ := refused
  have known : tokenKid platform.folding token = some kid := by
    simp [tokenKid, split, header, named]
  refine ⟨kid, known, ?_⟩
  rcases decided with ⟨denied, -⟩ | ⟨_, -, failed | ⟨⟨key, found⟩, answer, keyless | passed⟩⟩
  · left
    simpa using denied
  · exact absurd failed (lookupKey_ne_unknownKid v.keys kid)
  · right
    exact ⟨key, found, answer, keyless.1⟩
  · -- After the key, only the final `return` is left to be an error.
    obtain ⟨-, -, -, -, -, -, -, -, -, -, -, -, absent⟩ := passed
    cases absent

end DevHealth.Authverify

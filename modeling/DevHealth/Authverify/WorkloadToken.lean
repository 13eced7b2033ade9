import DevHealth.Authverify.Wire
import DevHealth.Go.Time

/-! # The workload token verifier

`WorkloadVerifier.Verify`: contract first, then the key, the signature, the issuer, the
audience and the two dates.  What the verifier takes from outside, the folding tables and
the Ed25519 check, is a `Platform`. -/
set_option autoImplicit false
namespace DevHealth.Authverify

open Go Lib

structure Platform where
  folding : CaseFolding
  /-- `ed25519.Verify(key, message, signature)` -/
  ed25519Verify : Bytes → Bytes → Bytes → Bool

inductive Reason where
  | contract
  | unknownKid
  | signature
  | issuer
  | audience
  | notYetValid
  | expired
  deriving DecidableEq, Repr

/-- A `*RefusalError`, or the `*UnavailableError` of a key source that could not be read. -/
inductive VerifyError where
  | refused (reason : Reason)
  | unavailable
  deriving DecidableEq, Repr

def refuse (reason : Reason) : VerifyError := .refused reason

/-- A `KeySource`, with or without the extension that tells an outage from an unknown key. -/
inductive KeySource where
  | plain (publicKey : Bytes → Bytes × Bool)
  | resolver (resolveKey : Bytes → Except Unit (Option Bytes))

def lookupKey (keys : KeySource) (kid : Bytes) : Except VerifyError (Bytes × Bool) :=
  match keys with
  | .plain publicKey => .ok (publicKey kid)
  | .resolver resolveKey =>
    match resolveKey kid with
    | .error _ => .error .unavailable
    | .ok none => .ok ([], false)
    | .ok (some key) => .ok (key, true)

def typWorkloadToken : Bytes := ascii "workload+jwt"

/-- In seconds. -/
def workloadLifetimeCeiling : Int := 300

def workloadAudiences : List Bytes := [ascii "auth-service", ascii "dev-health-api"]

def maxWorkloadLeeway : Int := 30 * nanosPerSecond

def workloadHeaderMembers : List Bytes := [ascii "alg", ascii "typ", ascii "kid"]

def workloadClaimsMembers : List Bytes :=
  [ascii "iss", ascii "aud", ascii "sub", ascii "principal_type", ascii "jti", ascii "iat",
    ascii "nbf", ascii "exp"]

structure WorkloadClaims where
  issuer : Bytes
  audience : Bytes
  subject : Bytes
  tokenID : Bytes
  issuedAt : Int
  notBefore : Int
  expiresAt : Int
  deriving DecidableEq, Repr

theorem wholeSeconds_within {leeway bound : Int}
    (inside : ¬(leeway < 0 ∨ bound < leeway ∨ leeway % nanosPerSecond ≠ 0)) :
    0 ≤ leeway / nanosPerSecond ∧ leeway / nanosPerSecond * nanosPerSecond ≤ bound := by
  simp only [nanosPerSecond] at inside ⊢
  omega

structure WorkloadVerifierConfig where
  issuer : Bytes
  audience : Bytes
  keys : Option KeySource
  deniedKids : List Bytes
  /-- In nanoseconds. -/
  leeway : Int

/-- A verifier that `NewWorkloadVerifier` accepts; the leeway is in seconds. -/
structure WorkloadVerifier where
  issuer : Bytes
  audience : Bytes
  keys : KeySource
  denied : List Bytes
  leeway : Int
  issuerValid : issuerPattern.accepts issuer = true
  audienceValid : audience ∈ workloadAudiences
  leewayValid : 0 ≤ leeway ∧ leeway * nanosPerSecond ≤ maxWorkloadLeeway

def newWorkloadVerifier (cfg : WorkloadVerifierConfig) : Except String WorkloadVerifier :=
  match cfg.keys with
  | none => .error "authverify: workload verifier needs an https issuer and a key source"
  | some keys =>
    if issuerValid : issuerPattern.accepts cfg.issuer = true then
      if audienceValid : cfg.audience ∈ workloadAudiences then
        if outside : cfg.leeway < 0 ∨ maxWorkloadLeeway < cfg.leeway ∨ cfg.leeway % nanosPerSecond ≠ 0 then
          .error "authverify: workload verifier leeway is out of bounds"
        else
          .ok { issuer := cfg.issuer, audience := cfg.audience, keys := keys
                denied := cfg.deniedKids, leeway := cfg.leeway / nanosPerSecond
                issuerValid := issuerValid, audienceValid := audienceValid
                leewayValid := wholeSeconds_within outside }
      else .error "authverify: workload verifier audience is not a workload audience"
    else .error "authverify: workload verifier needs an https issuer and a key source"

def parseWorkloadHeader (folding : CaseFolding) (raw : Bytes) : Option Bytes := do
  let object ← decodeObject folding raw
  guard (closedSet object workloadHeaderMembers workloadHeaderMembers)
  let alg ← stringMember object (ascii "alg") none
  guard (alg == algEdDSA)
  let typ ← stringMember object (ascii "typ") none
  guard (typ == typWorkloadToken)
  stringMember object (ascii "kid") (some kidPattern)

def parseWorkloadClaims (folding : CaseFolding) (raw : Bytes) : Option WorkloadClaims := do
  let object ← decodeObject folding raw
  guard (closedSet object workloadClaimsMembers workloadClaimsMembers)
  let issuer ← stringMember object (ascii "iss") (some issuerPattern)
  let audience ← stringMember object (ascii "aud") none
  let subject ← stringMember object (ascii "sub") (some subjectPattern)
  let tokenID ← stringMember object (ascii "jti") (some jtiPattern)
  guard (contains workloadAudiences audience)
  let principalType ← stringMember object (ascii "principal_type") none
  guard (principalType == ascii "workload")
  let issuedAt ← numericDate object (ascii "iat")
  let notBefore ← numericDate object (ascii "nbf")
  let expiresAt ← numericDate object (ascii "exp")
  guard (issuedAt ≤ notBefore ∧ notBefore < expiresAt ∧
    expiresAt - issuedAt ≤ workloadLifetimeCeiling)
  return { issuer := issuer, audience := audience, subject := subject, tokenID := tokenID
           issuedAt := issuedAt, notBefore := notBefore, expiresAt := expiresAt }

/-- The signature part decodes to 64 bytes that verify over the first two parts. -/
def signatureHolds (platform : Platform) (key headerPart payloadPart signaturePart : Bytes) : Bool :=
  match rawURLDecode true signaturePart with
  | none => false
  | some signature =>
    decide (signature.length = signatureSize) &&
      platform.ed25519Verify key (headerPart ++ ascii "." ++ payloadPart) signature

def WorkloadVerifier.verify (platform : Platform) (v : WorkloadVerifier) (token : Bytes)
    (now : Time) : Except VerifyError WorkloadClaims := do
  let (headerPart, payloadPart, signaturePart) ←
    obtainOr (splitCompact token) (refuse .contract)
  let headerRaw ← obtainOr (rawURLDecode true headerPart) (refuse .contract)
  let payloadRaw ← obtainOr (rawURLDecode true payloadPart) (refuse .contract)
  let kid ← obtainOr (parseWorkloadHeader platform.folding headerRaw) (refuse .contract)
  let claims ← obtainOr (parseWorkloadClaims platform.folding payloadRaw) (refuse .contract)
  ensure (!contains v.denied kid) (refuse .unknownKid)
  let (key, known) ← lookupKey v.keys kid
  ensure (known && decide (key.length = publicKeySize)) (refuse .unknownKid)
  ensure (signatureHolds platform key headerPart payloadPart signaturePart) (refuse .signature)
  ensure (claims.issuer == v.issuer) (refuse .issuer)
  ensure (claims.audience == v.audience) (refuse .audience)
  ensure (!decide ((now.unixSeconds + v.leeway).bmod (2 ^ 64) < claims.notBefore)) (refuse .notYetValid)
  ensure (!decide ((now.unixSeconds - v.leeway).bmod (2 ^ 64) ≥ claims.expiresAt)) (refuse .expired)
  return claims

end DevHealth.Authverify

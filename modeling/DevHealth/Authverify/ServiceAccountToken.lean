import DevHealth.Authverify.AccessToken

/-! # The service account token verifier

`ServiceAccountVerifier.Verify`: like the workload verifier, over the claims of a token
that was exchanged for a key of a service account. -/
set_option autoImplicit false
namespace DevHealth.Authverify

open Go Lib

def typServiceAccountToken : Bytes := ascii "sa+jwt"

def serviceAccountTokenAudience : Bytes := ascii "dev-health-api"

/-- In seconds. -/
def serviceAccountLifetimeCeiling : Int := workloadLifetimeCeiling

def maxServiceAccountLeeway : Int := 30 * nanosPerSecond

def serviceAccountHeaderMembers : List Bytes := [ascii "alg", ascii "typ", ascii "kid"]

def serviceAccountClaimsMembers : List Bytes :=
  [ascii "iss", ascii "aud", ascii "sub", ascii "principal_type", ascii "org_id", ascii "cid",
    ascii "jti", ascii "iat", ascii "nbf", ascii "exp"]

/-- `^crd_[A-Za-z0-9_-]{1,64}$` -/
def credentialIDPattern : Regex UInt8 := .seq (.lit (ascii "crd_")) (.repeated urlByte 1 64)

/-- The services that may run a verifier; a token names only the second of them. -/
def serviceAccountVerifierAudiences : List Bytes := [ascii "auth-service", ascii "dev-health-api"]

structure ServiceAccountClaims where
  issuer : Bytes
  audience : Bytes
  subject : Bytes
  orgID : Bytes
  credentialID : Bytes
  tokenID : Bytes
  issuedAt : Int
  notBefore : Int
  expiresAt : Int
  deriving DecidableEq, Repr

structure ServiceAccountVerifierConfig where
  issuer : Bytes
  audience : Bytes
  keys : Option KeySource
  deniedKids : List Bytes
  /-- In nanoseconds. -/
  leeway : Int

/-- A verifier that `NewServiceAccountVerifier` accepts; the leeway is in seconds. -/
structure ServiceAccountVerifier where
  issuer : Bytes
  audience : Bytes
  keys : KeySource
  denied : List Bytes
  leeway : Int
  issuerValid : issuerPattern.accepts issuer = true
  audienceValid : audience ∈ serviceAccountVerifierAudiences
  leewayValid : 0 ≤ leeway ∧ leeway * nanosPerSecond ≤ maxServiceAccountLeeway

/-- The audience of a configuration: `dev-health-api` when none is given. -/
def ServiceAccountVerifierConfig.service (cfg : ServiceAccountVerifierConfig) : Bytes :=
  if cfg.audience = [] then serviceAccountTokenAudience else cfg.audience

def newServiceAccountVerifier (cfg : ServiceAccountVerifierConfig) :
    Except String ServiceAccountVerifier :=
  match cfg.keys with
  | none => .error "authverify: service account verifier needs an https issuer and a key source"
  | some keys =>
    if issuerValid : issuerPattern.accepts cfg.issuer = true then
      if audienceValid : cfg.service ∈ serviceAccountVerifierAudiences then
        if outside : cfg.leeway < 0 ∨ maxServiceAccountLeeway < cfg.leeway ∨
            cfg.leeway % nanosPerSecond ≠ 0 then
          .error "authverify: service account verifier leeway is out of bounds"
        else
          .ok { issuer := cfg.issuer, audience := cfg.service, keys := keys
                denied := cfg.deniedKids, leeway := cfg.leeway / nanosPerSecond
                issuerValid := issuerValid, audienceValid := audienceValid
                leewayValid := wholeSeconds_within outside }
      else .error "authverify: service account verifier audience is not a service audience"
    else .error "authverify: service account verifier needs an https issuer and a key source"

def parseServiceAccountHeader (folding : CaseFolding) (raw : Bytes) : Option Bytes := do
  let object ← decodeObject folding raw
  guard (closedSet object serviceAccountHeaderMembers serviceAccountHeaderMembers)
  let alg ← stringMember object (ascii "alg") none
  guard (alg == algEdDSA)
  let typ ← stringMember object (ascii "typ") none
  guard (typ == typServiceAccountToken)
  stringMember object (ascii "kid") (some kidPattern)

def parseServiceAccountClaims (folding : CaseFolding) (raw : Bytes) :
    Option ServiceAccountClaims := do
  let object ← decodeObject folding raw
  guard (closedSet object serviceAccountClaimsMembers serviceAccountClaimsMembers)
  let issuer ← stringMember object (ascii "iss") (some issuerPattern)
  let audience ← stringMember object (ascii "aud") none
  let subject ← stringMember object (ascii "sub") (some subjectPattern)
  let orgID ← stringMember object (ascii "org_id") (some orgIDPattern)
  let credentialID ← stringMember object (ascii "cid") (some credentialIDPattern)
  let tokenID ← stringMember object (ascii "jti") (some jtiPattern)
  guard (audience == serviceAccountTokenAudience)
  let principalType ← stringMember object (ascii "principal_type") none
  guard (principalType == ascii "service_account")
  let issuedAt ← numericDate object (ascii "iat")
  let notBefore ← numericDate object (ascii "nbf")
  let expiresAt ← numericDate object (ascii "exp")
  guard (issuedAt ≤ notBefore ∧ notBefore < expiresAt ∧
    expiresAt - issuedAt ≤ serviceAccountLifetimeCeiling)
  return { issuer := issuer, audience := audience, subject := subject, orgID := orgID
           credentialID := credentialID, tokenID := tokenID
           issuedAt := issuedAt, notBefore := notBefore, expiresAt := expiresAt }

def ServiceAccountVerifier.verify (platform : Platform) (v : ServiceAccountVerifier)
    (token : Bytes) (now : Time) : Except VerifyError ServiceAccountClaims := do
  let (headerPart, payloadPart, signaturePart) ←
    obtainOr (splitCompact token) (refuse .contract)
  let headerRaw ← obtainOr (rawURLDecode true headerPart) (refuse .contract)
  let payloadRaw ← obtainOr (rawURLDecode true payloadPart) (refuse .contract)
  let kid ← obtainOr (parseServiceAccountHeader platform.folding headerRaw) (refuse .contract)
  let claims ← obtainOr (parseServiceAccountClaims platform.folding payloadRaw) (refuse .contract)
  ensure (!contains v.denied kid) (refuse .unknownKid)
  let (key, known) ← lookupKey v.keys kid
  ensure (known && decide (key.length = publicKeySize)) (refuse .unknownKid)
  ensure (signatureHolds platform key headerPart payloadPart signaturePart) (refuse .signature)
  ensure (claims.issuer == v.issuer) (refuse .issuer)
  ensure (claims.audience == v.audience) (refuse .audience)
  ensure (!decide ((now.unixSeconds + v.leeway).bmod (2 ^ 64) < claims.notBefore)) (refuse .notYetValid)
  ensure (!decide ((now.unixSeconds - v.leeway).bmod (2 ^ 64) ≥ claims.expiresAt)) (refuse .expired)
  return claims

end DevHealth.Authverify

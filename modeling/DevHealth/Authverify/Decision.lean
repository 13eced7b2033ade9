import DevHealth.Authverify.Contract

/-! # The decision of a token verifier

The three verifiers decide alike.  A `TokenClass` is what they differ in, and `judge` is
the decision over any class: contract, key, signature, issuer, audience and the two dates,
in this order.  It is run over a monad of key lookups, so that what it asks the key source
can be observed. -/
set_option autoImplicit false
namespace DevHealth.Authverify

open Go Lib

/-- A class of tokens: the type in the header and the claims, with the contract that the
parser of the claims decides. -/
structure TokenClass (C : Type) where
  typ : Bytes
  /-- In seconds. -/
  ceiling : Int
  parse : CaseFolding → Bytes → Option C
  Contract : Bytes → C → Prop
  issuer : C → Bytes
  audience : C → Bytes
  issuedAt : C → Int
  notBefore : C → Int
  expiresAt : C → Int
  parse_iff : ∀ {folding : CaseFolding} {raw : Bytes} {claims : C}, raw.length ≤ maxNestingDepth →
    (parse folding raw = some claims ↔ Contract raw claims)
  dated : ∀ {raw : Bytes} {claims : C}, Contract raw claims →
    issuedAt claims ≤ notBefore claims ∧ notBefore claims < expiresAt claims ∧
      expiresAt claims - issuedAt claims ≤ ceiling

def accessToken : TokenClass AccessClaims where
  typ := typAccessToken
  ceiling := lifetimeCeiling
  parse := parseAccessClaims
  Contract raw claims := ∃ body, AccessMembers raw claims body
  issuer := AccessClaims.issuer
  audience := AccessClaims.audience
  issuedAt := AccessClaims.issuedAt
  notBefore := AccessClaims.notBefore
  expiresAt := AccessClaims.expiresAt
  parse_iff short := parseAccessClaims_iff short
  dated := fun ⟨_, members⟩ =>
    ⟨members.dates.ordered, members.dates.started, members.dates.lifetime⟩

def workloadToken : TokenClass WorkloadClaims where
  typ := typWorkloadToken
  ceiling := workloadLifetimeCeiling
  parse := parseWorkloadClaims
  Contract raw claims := ∃ body, WorkloadMembers raw claims body
  issuer := WorkloadClaims.issuer
  audience := WorkloadClaims.audience
  issuedAt := WorkloadClaims.issuedAt
  notBefore := WorkloadClaims.notBefore
  expiresAt := WorkloadClaims.expiresAt
  parse_iff short := parseWorkloadClaims_members short
  dated := fun ⟨_, members⟩ =>
    ⟨members.dates.ordered, members.dates.started, members.dates.lifetime⟩

def serviceAccountToken : TokenClass ServiceAccountClaims where
  typ := typServiceAccountToken
  ceiling := serviceAccountLifetimeCeiling
  parse := parseServiceAccountClaims
  Contract raw claims := ∃ body, ServiceAccountMembers raw claims body
  issuer := ServiceAccountClaims.issuer
  audience := ServiceAccountClaims.audience
  issuedAt := ServiceAccountClaims.issuedAt
  notBefore := ServiceAccountClaims.notBefore
  expiresAt := ServiceAccountClaims.expiresAt
  parse_iff short := parseServiceAccountClaims_iff short
  dated := fun ⟨_, members⟩ =>
    ⟨members.dates.ordered, members.dates.started, members.dates.lifetime⟩

/-- What a verifier is configured with. -/
structure Policy where
  issuer : Bytes
  audience : Bytes
  keys : KeySource
  denied : List Bytes
  /-- In seconds. -/
  leeway : Int
  leewayNonneg : 0 ≤ leeway

def Verifier.policy (v : Verifier) : Policy :=
  ⟨v.issuer, v.audience, v.keys, v.denied, v.leeway, v.leewayValid.1⟩

def WorkloadVerifier.policy (v : WorkloadVerifier) : Policy :=
  ⟨v.issuer, v.audience, v.keys, v.denied, v.leeway, v.leewayValid.1⟩

def ServiceAccountVerifier.policy (v : ServiceAccountVerifier) : Policy :=
  ⟨v.issuer, v.audience, v.keys, v.denied, v.leeway, v.leewayValid.1⟩

/-- The parts of a token in its contract. -/
structure Presented (C : Type) where
  header : Bytes
  payload : Bytes
  signature : Bytes
  kid : Bytes
  claims : C

variable {C : Type} (cls : TokenClass C) (platform : Platform) (p : Policy)

/-! ## The decision as it is computed -/

def readContract (folding : CaseFolding) (token : Bytes) : Except VerifyError (Presented C) := do
  let (headerPart, payloadPart, signaturePart) ←
    obtainOr (splitCompact token) (refuse .contract)
  let headerRaw ← obtainOr (rawURLDecode true headerPart) (refuse .contract)
  let payloadRaw ← obtainOr (rawURLDecode true payloadPart) (refuse .contract)
  let kid ← obtainOr (readHeader cls.typ folding headerRaw) (refuse .contract)
  let claims ← obtainOr (cls.parse folding payloadRaw) (refuse .contract)
  return ⟨headerPart, payloadPart, signaturePart, kid, claims⟩

def settle (t : Presented C) (now : Time) (answer : Bytes × Bool) : Except VerifyError C := do
  ensure (answer.2 && decide (answer.1.length = publicKeySize)) (refuse .unknownKid)
  ensure (signatureHolds platform answer.1 t.header t.payload t.signature) (refuse .signature)
  ensure (cls.issuer t.claims == p.issuer) (refuse .issuer)
  ensure (cls.audience t.claims == p.audience) (refuse .audience)
  ensure (!decide ((now.unixSeconds + p.leeway).bmod (2 ^ 64) < cls.notBefore t.claims)) (refuse .notYetValid)
  ensure (!decide ((now.unixSeconds - p.leeway).bmod (2 ^ 64) ≥ cls.expiresAt t.claims)) (refuse .expired)
  return t.claims

/-- The decision over any way to ask for a key. -/
def judgeWith {M : Type → Type} [Monad M] (ask : Bytes → M (Except VerifyError (Bytes × Bool)))
    (token : Bytes) (now : Time) : M (Except VerifyError C) :=
  match readContract cls platform.folding token with
  | .error e => pure (.error e)
  | .ok t =>
    if contains p.denied t.kid then pure (.error (refuse .unknownKid))
    else do
      let answer ← ask t.kid
      return answer >>= settle cls platform p t now

def judge (token : Bytes) (now : Time) : Except VerifyError C :=
  judgeWith (M := Id) cls platform p (lookupKey p.keys) token now

/-- The decision together with the key ids it asks the key source for, in order. -/
def judgeLogged (token : Bytes) (now : Time) : Except VerifyError C × List Bytes :=
  (judgeWith (M := StateM (List Bytes)) cls platform p (fun kid => do
    modify (· ++ [kid])
    return lookupKey p.keys kid) token now).run []

theorem judge_eq (token : Bytes) (now : Time) : judge cls platform p token now =
    (readContract cls platform.folding token >>= fun t =>
      ensure (!contains p.denied t.kid) (refuse .unknownKid) >>= fun _ =>
        lookupKey p.keys t.kid >>= settle cls platform p t now) := by
  rw [judge, judgeWith]
  cases readContract cls platform.folding token with
  | error e => rfl
  | ok t =>
    show (if contains p.denied t.kid = true then _ else _) =
      (ensure (!contains p.denied t.kid) (refuse .unknownKid) >>= fun _ => _)
    cases contains p.denied t.kid <;> rfl

theorem judge_steps (token : Bytes) (now : Time) : judge cls platform p token now = (do
    let (headerPart, payloadPart, signaturePart) ← obtainOr (splitCompact token) (refuse .contract)
    let headerRaw ← obtainOr (rawURLDecode true headerPart) (refuse .contract)
    let payloadRaw ← obtainOr (rawURLDecode true payloadPart) (refuse .contract)
    let kid ← obtainOr (readHeader cls.typ platform.folding headerRaw) (refuse .contract)
    let claims ← obtainOr (cls.parse platform.folding payloadRaw) (refuse .contract)
    ensure (!contains p.denied kid) (refuse .unknownKid)
    let (key, known) ← lookupKey p.keys kid
    ensure (known && decide (key.length = publicKeySize)) (refuse .unknownKid)
    ensure (signatureHolds platform key headerPart payloadPart signaturePart) (refuse .signature)
    ensure (cls.issuer claims == p.issuer) (refuse .issuer)
    ensure (cls.audience claims == p.audience) (refuse .audience)
    ensure (!decide ((now.unixSeconds + p.leeway).bmod (2 ^ 64) < cls.notBefore claims)) (refuse .notYetValid)
    ensure (!decide ((now.unixSeconds - p.leeway).bmod (2 ^ 64) ≥ cls.expiresAt claims)) (refuse .expired)
    return claims) := by
  rw [judge_eq, readContract]
  simp only [bind_assoc, pure_bind]
  rfl

theorem Verifier.verify_eq (v : Verifier) (token : Bytes) (now : Time) :
    v.verify platform token now = judge accessToken platform v.policy token now :=
  (judge_steps accessToken platform v.policy token now).symm

theorem WorkloadVerifier.verify_eq (v : WorkloadVerifier) (token : Bytes) (now : Time) :
    v.verify platform token now = judge workloadToken platform v.policy token now :=
  (judge_steps workloadToken platform v.policy token now).symm

theorem ServiceAccountVerifier.verify_eq (v : ServiceAccountVerifier) (token : Bytes) (now : Time) :
    v.verify platform token now = judge serviceAccountToken platform v.policy token now :=
  (judge_steps serviceAccountToken platform v.policy token now).symm

end DevHealth.Authverify

import DevHealth.Authverify.Decision
import Mathlib.Order.Interval.Set.Basic

/-! # What the verifiers accept and how they refuse

The decision of a verifier against its statement on tokens: which tokens it accepts at an
instant, which check a refusal names, which key it asks for, and how the answers at two
instants, for two spellings and in two classes are related. -/
set_option autoImplicit false
namespace DevHealth.Authverify

open Go Lib

variable {C : Type} {cls : TokenClass C} {platform : Platform} {p : Policy} {token : Bytes}
  {now : Time} {t : Presented C}

/-! ## The statement -/

/-- The token is in the contract of the class, with these parts. -/
structure Presents (cls : TokenClass C) (token : Bytes) (t : Presented C) : Prop where
  short : token.length ≤ maxTokenBytes
  segments : Segments token t.header t.payload t.signature
  header : ∃ raw body, rawURLDecode true t.header = some raw ∧ Header cls.typ t.kid raw body
  claims : ∃ raw, rawURLDecode true t.payload = some raw ∧ cls.Contract raw t.claims

def Resolves (keys : KeySource) (kid key : Bytes) : Prop :=
  lookupKey keys kid = .ok (key, true) ∧ key.length = publicKeySize

/-- The signature is 64 bytes that verify over the first two segments. -/
def Signed (platform : Platform) (t : Presented C) (key : Bytes) : Prop :=
  ∃ raw, rawURLDecode true t.signature = some raw ∧ raw.length = signatureSize ∧
    platform.ed25519Verify key (t.header ++ ascii "." ++ t.payload) raw = true

def steadyChecks (cls : TokenClass C) (platform : Platform) (p : Policy) (t : Presented C) :
    List (Prop × VerifyError) :=
  [(t.kid ∉ p.denied, refuse .unknownKid),
    (lookupKey p.keys t.kid ≠ .error .unavailable, .unavailable),
    (∃ key, Resolves p.keys t.kid key, refuse .unknownKid),
    (∃ key, Resolves p.keys t.kid key ∧ Signed platform t key, refuse .signature),
    (cls.issuer t.claims = p.issuer, refuse .issuer),
    (cls.audience t.claims = p.audience, refuse .audience)]

def dateChecks (cls : TokenClass C) (p : Policy) (t : Presented C) (now : Time) :
    List (Prop × VerifyError) :=
  [(cls.notBefore t.claims - p.leeway ≤ now.unixSeconds, refuse .notYetValid),
    (now.unixSeconds < cls.expiresAt t.claims + p.leeway, refuse .expired)]

/-- The checks after the contract in their order, each with its refusal. -/
def checks (cls : TokenClass C) (platform : Platform) (p : Policy) (t : Presented C) (now : Time) :
    List (Prop × VerifyError) :=
  steadyChecks cls platform p t ++ dateChecks cls p t now

/-- An answer together with the key ids that were asked for is the decision on a token. -/
structure Decided (cls : TokenClass C) (platform : Platform) (p : Policy) (token : Bytes)
    (now : Time) (answer : Except VerifyError C) (asked : List Bytes) : Prop where
  accepts : ∀ claims, answer = .ok claims ↔ ∃ t : Presented C, Presents cls token t ∧
    t.claims = claims ∧ t.kid ∉ p.denied ∧
    (∃ key, Resolves p.keys t.kid key ∧ Signed platform t key) ∧
    cls.issuer claims = p.issuer ∧ cls.audience claims = p.audience ∧
    cls.notBefore claims - p.leeway ≤ now.unixSeconds ∧
    now.unixSeconds < cls.expiresAt claims + p.leeway
  contract : answer = .error (refuse .contract) ↔ ∀ t, ¬Presents cls token t
  ordered : ∀ t, Presents cls token t → FirstFailing (checks cls platform p t now) answer
  asksOnce : ∀ t, Presents cls token t → t.kid ∉ p.denied → asked = [t.kid]
  asksNothing : (∀ t, Presents cls token t → t.kid ∈ p.denied) → asked = []

/-! ## The contract stage -/

theorem readContract_ok (folding : CaseFolding) :
    readContract cls folding token = .ok t ↔ Presents cls token t := by
  simp only [readContract, bind_ok, obtainOr_ok, pure_ok, Prod.exists, splitCompact_iff]
  constructor
  · rintro ⟨h, p, s, ⟨short, segments⟩, headerRaw, headerDecoded, payloadRaw, payloadDecoded, kid,
      kidRead, claims, claimsRead, rfl⟩
    have headerShort := segments.decoded_short short (by simp) headerDecoded
    have payloadShort := segments.decoded_short short (by simp) payloadDecoded
    obtain ⟨body, header⟩ := (readHeader_iff headerShort).mp kidRead
    exact ⟨short, segments, ⟨headerRaw, body, headerDecoded, header⟩,
      payloadRaw, payloadDecoded, (cls.parse_iff payloadShort).mp claimsRead⟩
  · rintro ⟨short, segments, ⟨headerRaw, body, headerDecoded, header⟩, payloadRaw, payloadDecoded, contract⟩
    have headerShort := segments.decoded_short short (by simp) headerDecoded
    have payloadShort := segments.decoded_short short (by simp) payloadDecoded
    exact ⟨_, _, _, ⟨short, segments⟩, headerRaw, headerDecoded, payloadRaw, payloadDecoded, t.kid,
      (readHeader_iff headerShort).mpr ⟨body, header⟩, t.claims,
      (cls.parse_iff payloadShort).mpr contract, rfl⟩

theorem readContract_error {folding : CaseFolding} {e : VerifyError}
    (failed : readContract cls folding token = .error e) : e = refuse .contract := by
  have each : ∀ {α : Type} {found : Option α}, Refuses (· = refuse .contract)
      (obtainOr found (refuse .contract)) := refuses_obtainOr rfl
  have only : Refuses (· = refuse .contract) (readContract cls folding token) := by
    apply refuses_bind each
    intro parts _
    apply refuses_bind each
    intro headerRaw _
    apply refuses_bind each
    intro payloadRaw _
    apply refuses_bind each
    intro kid _
    apply refuses_bind each
    intro claims _ e absent
    cases absent
  exact only e failed

/-! ## The stages after it -/

theorem lookupKey_error {keys : KeySource} {kid : Bytes} {e : VerifyError}
    (failed : lookupKey keys kid = .error e) : e = .unavailable := by
  cases keys with
  | plain publicKey => cases failed
  | resolver resolveKey =>
    simp only [lookupKey] at failed
    split at failed <;> cases failed
    rfl

theorem resolves_iff {answer : Bytes × Bool} {kid : Bytes} (found : lookupKey p.keys kid = .ok answer) :
    (answer.2 && decide (answer.1.length = publicKeySize)) = true ↔ ∃ key, Resolves p.keys kid key := by
  obtain ⟨key, known⟩ := answer
  simp only [Bool.and_eq_true, decide_eq_true_eq, Resolves, found, Except.ok.injEq, Prod.mk.injEq]
  constructor
  · rintro ⟨rfl, length⟩
    exact ⟨key, ⟨rfl, rfl⟩, length⟩
  · rintro ⟨_, ⟨rfl, rfl⟩, length⟩
    exact ⟨rfl, length⟩

theorem signatureHolds_iff {key : Bytes} :
    signatureHolds platform key t.header t.payload t.signature = true ↔ Signed platform t key := by
  rw [signatureHolds, Signed]
  cases rawURLDecode true t.signature with
  | none => simp
  | some raw => simp

/-- The checks of the dates as they are computed, with sums in 64 bits. -/
def computedDates (cls : TokenClass C) (p : Policy) (t : Presented C) (now : Time) :
    List (Prop × VerifyError) :=
  [(¬(now.unixSeconds + p.leeway).bmod (2 ^ 64) < cls.notBefore t.claims, refuse .notYetValid),
    (¬(now.unixSeconds - p.leeway).bmod (2 ^ 64) ≥ cls.expiresAt t.claims, refuse .expired)]

theorem computedDates_eq (fits : now.SecondsFit p.leeway) :
    computedDates cls p t now = dateChecks cls p t now := by
  obtain ⟨sum, difference⟩ := fits.wraps p.leewayNonneg
  have started : (¬now.unixSeconds + p.leeway < cls.notBefore t.claims) =
      (cls.notBefore t.claims - p.leeway ≤ now.unixSeconds) := propext (by omega)
  have running : (¬now.unixSeconds - p.leeway ≥ cls.expiresAt t.claims) =
      (now.unixSeconds < cls.expiresAt t.claims + p.leeway) := propext (by omega)
  rw [computedDates, sum, difference, started, running, dateChecks]

theorem settle_checks {answer : Bytes × Bool} (found : lookupKey p.keys t.kid = .ok answer) :
    FirstFailing ((steadyChecks cls platform p t).drop 2 ++ computedDates cls p t now)
      (settle cls platform p t now answer) := by
  refine FirstFailing.ensure (resolves_iff found) fun resolved => ?_
  obtain ⟨key, resolves⟩ := resolved
  have same : answer = (key, true) := by
    have read := resolves.1
    rw [found] at read
    exact Except.ok.inj read
  subst same
  refine FirstFailing.ensure ?_ fun _ => ?_
  · rw [signatureHolds_iff]
    constructor
    · intro signed
      exact ⟨key, resolves, signed⟩
    · rintro ⟨other, ⟨read, -⟩, signed⟩
      rw [found] at read
      cases read
      exact signed
  refine FirstFailing.ensure beq_iff_eq fun _ => ?_
  refine FirstFailing.ensure beq_iff_eq fun _ => ?_
  refine FirstFailing.ensure ?_ fun _ => ?_
  · simp only [Bool.not_eq_true', decide_eq_false_iff_not]
  refine FirstFailing.ensure ?_ fun _ => ⟨_, rfl⟩
  simp only [Bool.not_eq_true', decide_eq_false_iff_not]

theorem judge_presented (presents : Presents cls token t) : judge cls platform p token now =
      (ensure (!contains p.denied t.kid) (refuse .unknownKid) >>= fun _ =>
        lookupKey p.keys t.kid >>= settle cls platform p t now) := by
  rw [judge_eq, (readContract_ok platform.folding).mpr presents]
  rfl

theorem judge_computed (presents : Presents cls token t) (now : Time) :
    FirstFailing (steadyChecks cls platform p t ++ computedDates cls p t now)
      (judge cls platform p token now) := by
  rw [judge_presented presents]
  refine FirstFailing.ensure ?_ fun _ => ?_
  · rw [Bool.not_eq_true', ← Bool.not_eq_true, contains_iff]
  show _ ∨ _
  cases found : lookupKey p.keys t.kid with
  | error e =>
    have outage := lookupKey_error found
    subst outage
    left
    exact ⟨fun read => read rfl, rfl⟩
  | ok answer =>
    right
    exact ⟨nofun, settle_checks found⟩

theorem judge_checks (fits : now.SecondsFit p.leeway) (presents : Presents cls token t) :
    FirstFailing (checks cls platform p t now) (judge cls platform p token now) := by
  rw [checks, ← computedDates_eq fits]
  exact judge_computed presents now

theorem judge_broken (broken : ∀ t, ¬Presents cls token t) :
    judge cls platform p token now = .error (refuse .contract) := by
  rw [judge_eq]
  cases read : readContract cls platform.folding token with
  | error e =>
    rw [readContract_error read]
    rfl
  | ok t => exact absurd ((readContract_ok platform.folding).mp read) (broken t)

theorem judge_ok {claims : C} (accepted : judge cls platform p token now = .ok claims) :
    ∃ t, Presents cls token t ∧ t.claims = claims := by
  rw [judge_eq] at accepted
  simp only [bind_ok] at accepted
  obtain ⟨t, read, -, -, answer, -, settled⟩ := accepted
  refine ⟨t, (readContract_ok platform.folding).mp read, ?_⟩
  simp only [settle, bind_ok, pure_ok] at settled
  obtain ⟨-, -, -, -, -, -, -, -, -, -, -, -, same⟩ := settled
  exact same

theorem judge_ne_contract (presents : Presents cls token t) :
    judge cls platform p token now ≠ .error (refuse .contract) := by
  intro failed
  have first : FirstFailing (steadyChecks cls platform p t ++ computedDates cls p t now)
      (judge cls platform p token now) := judge_computed presents now
  obtain ⟨c, inside, same⟩ := first.mem_of_error failed
  simp only [steadyChecks, computedDates, List.cons_append, List.nil_append, List.mem_cons,
    List.not_mem_nil, or_false] at inside
  rcases inside with rfl | rfl | rfl | rfl | rfl | rfl | rfl | rfl <;> cases same

theorem judge_contract_iff :
    judge cls platform p token now = .error (refuse .contract) ↔ ∀ t, ¬Presents cls token t := by
  constructor
  · intro failed t presents
    exact judge_ne_contract presents failed
  · exact judge_broken

theorem judge_accepts (fits : now.SecondsFit p.leeway) (claims : C) :
    judge cls platform p token now = .ok claims ↔ ∃ t : Presented C, Presents cls token t ∧
      t.claims = claims ∧ t.kid ∉ p.denied ∧
      (∃ key, Resolves p.keys t.kid key ∧ Signed platform t key) ∧
      cls.issuer claims = p.issuer ∧ cls.audience claims = p.audience ∧
      cls.notBefore claims - p.leeway ≤ now.unixSeconds ∧
      now.unixSeconds < cls.expiresAt claims + p.leeway := by
  constructor
  · intro accepted
    obtain ⟨t, presents, rfl⟩ := judge_ok accepted
    have first : FirstFailing (checks cls platform p t now) (judge cls platform p token now) :=
      judge_checks fits presents
    rw [accepted, firstFailing_ok] at first
    simp only [checks, steadyChecks, dateChecks, List.cons_append, List.nil_append, List.mem_cons,
      List.not_mem_nil, or_false, forall_eq_or_imp, forall_eq] at first
    obtain ⟨allowed, -, -, signed, issuer, audience, started, running⟩ := first
    exact ⟨t, presents, rfl, allowed, signed, issuer, audience, started, running⟩
  · rintro ⟨t, presents, rfl, allowed, ⟨key, resolves, signed⟩, issuer, audience, started, running⟩
    have denied : contains p.denied t.kid = false := by
      rw [← Bool.not_eq_true, contains_iff]
      exact allowed
    have signature := signatureHolds_iff.mpr signed
    obtain ⟨sum, difference⟩ := fits.wraps p.leewayNonneg
    rw [judge_presented presents, denied, resolves.1]
    simp only [settle, sum, difference, bind_ok, ensure_ok, pure_ok, Bool.and_eq_true, decide_eq_true_eq, beq_iff_eq,
      Bool.not_eq_true', decide_eq_false_iff_not]
    exact ⟨(), trivial, (key, true), rfl, (), ⟨rfl, resolves.2⟩, (), signature, (), issuer, (),
      audience, (), by omega, (), by omega, trivial⟩

/-! ## What is asked of the key source -/

theorem judgeLogged_broken (broken : ∀ t, ¬Presents cls token t) :
    judgeLogged cls platform p token now = (.error (refuse .contract), []) := by
  rw [judgeLogged, judgeWith]
  cases read : readContract cls platform.folding token with
  | error e =>
    rw [readContract_error read]
    rfl
  | ok t => exact absurd ((readContract_ok platform.folding).mp read) (broken t)

theorem judgeLogged_denied (presents : Presents cls token t) (denied : t.kid ∈ p.denied) :
    judgeLogged cls platform p token now = (.error (refuse .unknownKid), []) := by
  rw [judgeLogged, judgeWith, (readContract_ok platform.folding).mpr presents]
  simp only [(contains_iff _ _).mpr denied, if_true]
  rfl

theorem judgeLogged_allowed (presents : Presents cls token t) (allowed : t.kid ∉ p.denied) :
    judgeLogged cls platform p token now = (judge cls platform p token now, [t.kid]) := by
  have notDenied : contains p.denied t.kid = false := by
    rw [← Bool.not_eq_true, contains_iff]
    exact allowed
  rw [judgeLogged, judgeWith, judge_presented presents, (readContract_ok platform.folding).mpr presents]
  simp only [notDenied]
  rfl

theorem judgeLogged_answer : (judgeLogged cls platform p token now).1 = judge cls platform p token now := by
  by_cases broken : ∀ t, ¬Presents cls token t
  · rw [judgeLogged_broken broken, judge_broken broken]
  · simp only [not_forall, not_not] at broken
    obtain ⟨t, presents⟩ := broken
    by_cases denied : t.kid ∈ p.denied
    · rw [judgeLogged_denied presents denied, judge_presented presents, (contains_iff _ _).mpr denied]
      rfl
    · rw [judgeLogged_allowed presents denied]

theorem judge_decided (fits : now.SecondsFit p.leeway) :
    Decided cls platform p token now (judge cls platform p token now)
      (judgeLogged cls platform p token now).2 := by
  refine ⟨judge_accepts fits, judge_contract_iff, fun t => judge_checks fits, ?_, ?_⟩
  · intro t presents allowed
    rw [judgeLogged_allowed presents allowed]
  · intro denied
    by_cases broken : ∀ t, ¬Presents cls token t
    · rw [judgeLogged_broken broken]
    · simp only [not_forall, not_not] at broken
      obtain ⟨t, presents⟩ := broken
      rw [judgeLogged_denied presents (denied t presents)]

/-- Each verifier takes the decision on a token of its class, whatever the configuration,
the token and the key source, at every instant whose seconds stay in 64 bits with the
leeway. -/
theorem verifiers_decide (platform : Platform) (token : Bytes) (now : Time) :
    (∀ v : Verifier, now.SecondsFit v.leeway →
      (judgeLogged accessToken platform v.policy token now).1 = v.verify platform token now ∧
        Decided accessToken platform v.policy token now (v.verify platform token now)
          (judgeLogged accessToken platform v.policy token now).2) ∧
    (∀ v : WorkloadVerifier, now.SecondsFit v.leeway →
      (judgeLogged workloadToken platform v.policy token now).1 = v.verify platform token now ∧
        Decided workloadToken platform v.policy token now (v.verify platform token now)
          (judgeLogged workloadToken platform v.policy token now).2) ∧
    ∀ v : ServiceAccountVerifier, now.SecondsFit v.leeway →
      (judgeLogged serviceAccountToken platform v.policy token now).1 =
          v.verify platform token now ∧
        Decided serviceAccountToken platform v.policy token now (v.verify platform token now)
          (judgeLogged serviceAccountToken platform v.policy token now).2 := by
  refine ⟨?_, ?_, ?_⟩
  · intro v fits
    rw [Verifier.verify_eq]
    exact ⟨judgeLogged_answer, judge_decided fits⟩
  · intro v fits
    rw [WorkloadVerifier.verify_eq]
    exact ⟨judgeLogged_answer, judge_decided fits⟩
  · intro v fits
    rw [ServiceAccountVerifier.verify_eq]
    exact ⟨judgeLogged_answer, judge_decided fits⟩

/-! ## A token at two instants -/

/-- The header and the claims of a delegated token of `prn_a` with `prn_b` as its actor, valid
from 1000 to 1300. -/
def delegatedMessage : Bytes :=
  ascii "eyJhbGciOiJFZERTQSIsInR5cCI6ImF0K2p3dCIsImtpZCI6ImsxIn0." ++
  ascii "eyJpc3MiOiJodHRwczovL2EiLCJhdWQiOiJhY3ItYXBpIiwic3ViIjoicHJuX2EiLCJwcmluY2lw" ++
  ascii "YWxfdHlwZSI6Imh1bWFuIiwic2lkIjoic2VzX2FhYWFhYWFhYWFhYWFhYWFhYWFhYWEiLCJqdGki" ++
  ascii "OiJhYWFhYWFhYWFhYWFhYWFhYWFhYWFhIiwiaWF0IjoxMDAwLCJuYmYiOjEwMDAsImV4cCI6MTMw" ++
  ascii "MCwiYWN0Ijp7InN1YiI6InBybl9iIn0sInNjb3BlIjoiYWNyOmFwaSJ9"

def delegatedSignature : Bytes := List.replicate 64 0

def delegatedToken : Bytes := delegatedMessage ++ ascii "." ++ List.replicate 86 0x41

def delegatedAccess : AccessClaims :=
  { issuer := ascii "https://a", audience := ascii "acr-api", subject := ascii "prn_a"
    sessionID := ascii "ses_aaaaaaaaaaaaaaaaaaaaaa", tokenID := ascii "aaaaaaaaaaaaaaaaaaaaaa"
    scope := ascii "acr:api", orgID := none, actorSubject := some (ascii "prn_b")
    issuedAt := 1000, notBefore := 1000, expiresAt := 1300 }

def delegatedKey : Bytes := List.replicate 32 7

/-- The one signature of the key over the token. -/
def delegatedPlatform : Platform :=
  ⟨asciiFolding, fun key message signature =>
    key == delegatedKey && message == delegatedMessage && signature == delegatedSignature⟩

/-- A verifier whose source has one key, with a leeway of 30 seconds. -/
def delegatedVerifier : Verifier :=
  { issuer := ascii "https://a", audience := ascii "acr-api"
    keys := .plain fun kid => (delegatedKey, kid == ascii "k1"), denied := [], leeway := 30
    issuerValid := by decide +kernel, audienceValid := by decide +kernel, leewayValid := by decide }

theorem delegatedToken_decided : (Time.unix 1329).SecondsFit delegatedVerifier.leeway ∧
    delegatedVerifier.verify delegatedPlatform delegatedToken (Time.unix 1329) = .ok delegatedAccess ∧
    Decided accessToken delegatedPlatform delegatedVerifier.policy delegatedToken (Time.unix 1329)
      (delegatedVerifier.verify delegatedPlatform delegatedToken (Time.unix 1329))
      (judgeLogged accessToken delegatedPlatform delegatedVerifier.policy delegatedToken
        (Time.unix 1329)).2 := by
  have fits : (Time.unix 1329).SecondsFit delegatedVerifier.leeway := ⟨by decide, by decide⟩
  refine ⟨fits, by decide +kernel, ?_⟩
  exact ((verifiers_decide delegatedPlatform delegatedToken (Time.unix 1329)).1 delegatedVerifier fits).2

/-- In the last seconds of 64 bits the sum with the leeway is negative: a token that has
expired, and whose other checks pass, is refused as not yet valid. -/
theorem lastSecond_not_yet_valid :
    delegatedVerifier.verify delegatedPlatform delegatedToken (Time.unix 1329) = .ok delegatedAccess ∧
    delegatedVerifier.verify delegatedPlatform delegatedToken (Time.unix (2 ^ 63 - 1)) =
      .error (refuse .notYetValid) ∧
    delegatedAccess.notBefore - delegatedVerifier.leeway ≤ (Time.unix (2 ^ 63 - 1)).unixSeconds ∧
    delegatedAccess.expiresAt + delegatedVerifier.leeway ≤ (Time.unix (2 ^ 63 - 1)).unixSeconds := by
  refine ⟨by decide +kernel, by decide +kernel, by decide, by decide⟩

end DevHealth.Authverify

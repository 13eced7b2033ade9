import DevHealth.Authverify.Verdict
import DevHealth.Go.TimeFormat
import Mathlib.Data.Int.ConditionallyCompleteOrder

/-! # Verdicts on a token at two instants, in two spellings and in two classes

A token is accepted in one interval of seconds, has one spelling, and is in the contract
of one class. -/
set_option autoImplicit false
namespace DevHealth.Authverify

open Go Lib

variable {C D : Type} {cls : TokenClass C} {cls' : TokenClass D} {platform : Platform} {p : Policy}
  {token token' : Bytes} {t : Presented C} {t' : Presented D}

/-! ## Time -/

/-- The answers for one token over all instants whose seconds stay in 64 bits with the
leeway. -/
structure OneInterval (cls : TokenClass C) (leeway : Int) (token : Bytes)
    (verify : Time → Except VerifyError C) : Prop where
  interval : ∃ seconds : Set Int,
    (∀ now, now.SecondsFit leeway → ((∃ claims, verify now = .ok claims) ↔ now.unixSeconds ∈ seconds)) ∧
    (seconds = ∅ ∨ ∃ t, Presents cls token t ∧
      seconds = Set.Ico (cls.notBefore t.claims - leeway) (cls.expiresAt t.claims + leeway) ∧
      cls.expiresAt t.claims + leeway - (cls.notBefore t.claims - leeway) ≤
        cls.ceiling + 2 * leeway ∧
      ∀ now, now.SecondsFit leeway → cls.expiresAt t.claims + leeway ≤ now.unixSeconds →
        verify now = .error (refuse .expired))
  otherwiseSteady : ∀ now now' e, verify now' = .error e → verify now ≠ verify now' →
    e = refuse .notYetValid ∨ e = refuse .expired

theorem judge_dated {now : Time} (fits : now.SecondsFit p.leeway) (presents : Presents cls token t)
    (steady : ∀ c ∈ steadyChecks cls platform p t, c.1) :
    FirstFailing (dateChecks cls p t now) (judge cls platform p token now) :=
  (judge_checks fits presents).of_append steady

theorem judge_steady (presents : Presents cls token t)
    (fails : ¬∀ c ∈ steadyChecks cls platform p t, c.1) (now now' : Time) :
    ∃ e, judge cls platform p token now = .error e ∧ judge cls platform p token now' = .error e := by
  exact (judge_computed presents now).unique_of_fails (judge_computed presents now') fails

theorem accepted_iff_dated {now : Time} (fits : now.SecondsFit p.leeway) (presents : Presents cls token t)
    (steady : ∀ c ∈ steadyChecks cls platform p t, c.1) :
    (∃ claims, judge cls platform p token now = .ok claims) ↔ now.unixSeconds ∈
        Set.Ico (cls.notBefore t.claims - p.leeway) (cls.expiresAt t.claims + p.leeway) := by
  have dated := judge_dated fits presents steady
  rw [Set.mem_Ico]
  constructor
  · rintro ⟨claims, accepted⟩
    rw [accepted, firstFailing_ok] at dated
    simpa only [dateChecks, List.mem_cons, List.not_mem_nil, or_false, forall_eq_or_imp,
      forall_eq] using dated
  · rintro ⟨started, running⟩
    rcases dated with ⟨early, -⟩ | ⟨-, ⟨late, -⟩ | ⟨-, accepted⟩⟩
    · exact absurd started early
    · exact absurd running late
    · exact accepted

theorem refused_dated (presents : Presents cls token t)
    (steady : ∀ c ∈ steadyChecks cls platform p t, c.1) {now : Time} {e : VerifyError}
    (refused : judge cls platform p token now = .error e) :
    e = refuse .notYetValid ∨ e = refuse .expired := by
  have dated : FirstFailing (computedDates cls p t now) (judge cls platform p token now) :=
    (judge_computed presents now).of_append steady
  obtain ⟨c, inside, rfl⟩ := dated.mem_of_error refused
  simpa [computedDates, or_imp] using List.mem_map_of_mem (f := Prod.snd) inside

theorem expired_dated {now : Time} (fits : now.SecondsFit p.leeway) (presents : Presents cls token t)
    (steady : ∀ c ∈ steadyChecks cls platform p t, c.1)
    (filled : cls.notBefore t.claims - p.leeway < cls.expiresAt t.claims + p.leeway)
    (past : cls.expiresAt t.claims + p.leeway ≤ now.unixSeconds) :
    judge cls platform p token now = .error (refuse .expired) := by
  rcases judge_dated fits presents steady with ⟨early, -⟩ | ⟨-, ⟨-, answer⟩ | ⟨running, -⟩⟩
  · exact absurd (filled.le.trans past) early
  · exact answer
  · exact absurd running (not_lt.mpr past)

theorem judge_oneInterval : OneInterval cls p.leeway token (judge cls platform p token) := by
  by_cases broken : ∀ t, ¬Presents cls token t
  · refine ⟨⟨∅, ?_, Or.inl rfl⟩, ?_⟩
    · intro now _
      rw [judge_broken broken]
      simp
    · intro now now' e _ differ
      rw [judge_broken broken, judge_broken broken] at differ
      exact absurd rfl differ
  simp only [not_forall, not_not] at broken
  obtain ⟨t, presents⟩ := broken
  by_cases steady : ∀ c ∈ steadyChecks cls platform p t, c.1
  · refine ⟨⟨_, fun now fits => accepted_iff_dated fits presents steady, ?_⟩, ?_⟩
    · by_cases filled : cls.notBefore t.claims - p.leeway < cls.expiresAt t.claims + p.leeway
      · refine Or.inr ⟨t, presents, rfl, ?_, ?_⟩
        · obtain ⟨raw, -, contract⟩ := presents.claims
          have bounds := cls.dated contract
          omega
        · intro now fits past
          exact expired_dated fits presents steady filled past
      · exact Or.inl (Set.Ico_eq_empty filled)
    · intro now now' e refused _
      exact refused_dated presents steady refused
  · refine ⟨⟨∅, ?_, Or.inl rfl⟩, ?_⟩
    · intro now _
      obtain ⟨e, refused, -⟩ := judge_steady presents steady now now
      rw [refused]
      simp
    · intro now now' e _ differ
      obtain ⟨e', one, two⟩ := judge_steady presents steady now now'
      rw [one, two] at differ
      exact absurd rfl differ

theorem withinYears_fits {leeway : Int} (low : 0 ≤ leeway) (high : leeway * nanosPerSecond ≤ maxLeeway)
    (now : Time) (years : now.WithinYears) : now.SecondsFit leeway := by
  rw [Time.withinYears_iff] at years
  simp only [maxLeeway, nanosPerSecond] at high
  constructor <;> omega

/-- Over time a token is accepted in one interval, bounded by the ceiling of its class, and
only the dates make its answers differ; all instants of the years 1 to 9999 are meant. -/
theorem acceptance_oneInterval (platform : Platform) (token : Bytes) :
    (accessToken.ceiling = 3600 ∧ ∀ v : Verifier,
      OneInterval accessToken v.leeway token (v.verify platform token) ∧
        ∀ now : Time, now.WithinYears → now.SecondsFit v.leeway) ∧
    (workloadToken.ceiling = 300 ∧ ∀ v : WorkloadVerifier,
      OneInterval workloadToken v.leeway token (v.verify platform token) ∧
        ∀ now : Time, now.WithinYears → now.SecondsFit v.leeway) ∧
    (serviceAccountToken.ceiling = 300 ∧ ∀ v : ServiceAccountVerifier,
      OneInterval serviceAccountToken v.leeway token (v.verify platform token) ∧
        ∀ now : Time, now.WithinYears → now.SecondsFit v.leeway) := by
  have smaller : maxWorkloadLeeway ≤ maxLeeway ∧ maxServiceAccountLeeway ≤ maxLeeway := by decide
  refine ⟨⟨rfl, ?_⟩, ⟨rfl, ?_⟩, ⟨rfl, ?_⟩⟩
  · intro v
    have same : v.verify platform token = judge accessToken platform v.policy token :=
      funext (Verifier.verify_eq platform v token)
    rw [same]
    exact ⟨judge_oneInterval (p := v.policy), withinYears_fits v.leewayValid.1 v.leewayValid.2⟩
  · intro v
    have same : v.verify platform token = judge workloadToken platform v.policy token :=
      funext (WorkloadVerifier.verify_eq platform v token)
    rw [same]
    exact ⟨judge_oneInterval (p := v.policy),
      withinYears_fits v.leewayValid.1 (v.leewayValid.2.trans smaller.1)⟩
  · intro v
    have same : v.verify platform token = judge serviceAccountToken platform v.policy token :=
      funext (ServiceAccountVerifier.verify_eq platform v token)
    rw [same]
    exact ⟨judge_oneInterval (p := v.policy),
      withinYears_fits v.leewayValid.1 (v.leewayValid.2.trans smaller.2)⟩

/-! ## Spelling -/

def DecodesTo (token header payload signature : Bytes) : Prop :=
  ∃ h q s, token.splitOn 0x2E = [h, q, s] ∧ rawURLDecode true h = some header ∧
    rawURLDecode true q = some payload ∧ rawURLDecode true s = some signature

theorem Segments.spelling {h q s h' q' s' header payload signature : Bytes}
    (one : Segments token h q s) (two : Segments token' h' q' s')
    (decodes : DecodesTo token header payload signature)
    (decodes' : DecodesTo token' header payload signature) : token = token' := by
  obtain ⟨_, _, _, split, headerRead, payloadRead, signatureRead⟩ := decodes
  obtain ⟨_, _, _, split', headerRead', payloadRead', signatureRead'⟩ := decodes'
  rw [one.split] at split
  rw [two.split] at split'
  cases split
  cases split'
  have sameHeader := rawURLDecode_injective (one.alphabet h (by simp)) (two.alphabet h' (by simp))
    headerRead headerRead'
  have samePayload := rawURLDecode_injective (one.alphabet q (by simp)) (two.alphabet q' (by simp))
    payloadRead payloadRead'
  have sameSignature := rawURLDecode_injective (one.alphabet s (by simp))
    (two.alphabet s' (by simp)) signatureRead signatureRead'
  rw [one.text, two.text, sameHeader, samePayload, sameSignature]

theorem judge_spelling {platform' : Platform} {p' : Policy} {now now' : Time} {claims claims' : C}
    (accepted : judge cls platform p token now = .ok claims)
    (accepted' : judge cls platform' p' token' now' = .ok claims')
    {header payload signature : Bytes} (decodes : DecodesTo token header payload signature)
    (decodes' : DecodesTo token' header payload signature) : token = token' := by
  obtain ⟨t, presents, -⟩ := judge_ok accepted
  obtain ⟨t', presents', -⟩ := judge_ok accepted'
  exact presents.segments.spelling presents'.segments decodes decodes'

/-- Two tokens that a class of verifiers accepts and that decode to the same bytes are the
same token. -/
theorem accepted_spelling_unique (platform platform' : Platform) (token token' : Bytes)
    (now now' : Time) (header payload signature : Bytes)
    (decodes : DecodesTo token header payload signature)
    (decodes' : DecodesTo token' header payload signature)
    (accepted :
      (∃ (v v' : Verifier) (claims claims' : AccessClaims),
        v.verify platform token now = .ok claims ∧
          v'.verify platform' token' now' = .ok claims') ∨
      (∃ (v v' : WorkloadVerifier) (claims claims' : WorkloadClaims),
        v.verify platform token now = .ok claims ∧
          v'.verify platform' token' now' = .ok claims') ∨
      ∃ (v v' : ServiceAccountVerifier) (claims claims' : ServiceAccountClaims),
        v.verify platform token now = .ok claims ∧
          v'.verify platform' token' now' = .ok claims') :
    token = token' := by
  rcases accepted with ⟨v, v', _, _, one, two⟩ | ⟨v, v', _, _, one, two⟩ | ⟨v, v', _, _, one, two⟩
  · rw [Verifier.verify_eq] at one two
    exact judge_spelling one two decodes decodes'
  · rw [WorkloadVerifier.verify_eq] at one two
    exact judge_spelling one two decodes decodes'
  · rw [ServiceAccountVerifier.verify_eq] at one two
    exact judge_spelling one two decodes decodes'

def delegatedHeader : Bytes := ascii "\x7b\"alg\":\"EdDSA\",\"typ\":\"at+jwt\",\"kid\":\"k1\"\x7d"

def delegatedClaims : Bytes :=
  ascii "\x7b\"iss\":\"https://a\",\"aud\":\"acr-api\",\"sub\":\"prn_a\",\"principal_type\":\"human\"," ++
  ascii "\"sid\":\"ses_aaaaaaaaaaaaaaaaaaaaaa\",\"jti\":\"aaaaaaaaaaaaaaaaaaaaaa\",\"iat\":1000," ++
  ascii "\"nbf\":1000,\"exp\":1300,\"act\":\x7b\"sub\":\"prn_b\"\x7d,\"scope\":\"acr:api\"\x7d"

def encodedToken : Bytes :=
  rawURLEncode delegatedHeader ++ ascii "." ++ rawURLEncode delegatedClaims ++ ascii "." ++
    rawURLEncode delegatedSignature

theorem delegatedToken_spelling : delegatedToken = encodedToken := by
  have one : DecodesTo delegatedToken delegatedHeader delegatedClaims delegatedSignature :=
    ⟨rawURLEncode delegatedHeader, rawURLEncode delegatedClaims, rawURLEncode delegatedSignature,
      by decide +kernel, by decide +kernel, by decide +kernel, by decide +kernel⟩
  have two : DecodesTo encodedToken delegatedHeader delegatedClaims delegatedSignature :=
    ⟨rawURLEncode delegatedHeader, rawURLEncode delegatedClaims, rawURLEncode delegatedSignature,
      by decide +kernel, by decide +kernel, by decide +kernel, by decide +kernel⟩
  have accepted : delegatedVerifier.verify delegatedPlatform delegatedToken (Time.unix 1000) =
      .ok delegatedAccess := by decide +kernel
  have accepted' : delegatedVerifier.verify delegatedPlatform encodedToken (Time.unix 1299) =
      .ok delegatedAccess := by decide +kernel
  exact accepted_spelling_unique delegatedPlatform delegatedPlatform _ _ _ _ _ _ _ one two
    (Or.inl ⟨delegatedVerifier, delegatedVerifier, _, _, accepted, accepted'⟩)

/-! ## Classes -/

theorem readHeader_typ {folding : CaseFolding} {raw typ typ' kid kid' : Bytes}
    (one : readHeader typ folding raw = some kid) (two : readHeader typ' folding raw = some kid') :
    typ = typ' := by
  simp only [readHeader, Option.bind_eq_bind, Option.bind_eq_some_iff, Option.guard_eq_some',
    beq_iff_eq] at one two
  obtain ⟨object, read, -, -, -, -, -, -, found, typRead, -, rfl, -⟩ := one
  obtain ⟨object', read', -, -, -, -, -, -, found', typRead', -, rfl, -⟩ := two
  rw [read] at read'
  cases read'
  rw [typRead] at typRead'
  exact Option.some.inj typRead'

theorem Presents.typ_unique (folding : CaseFolding) (one : Presents cls token t)
    (two : Presents cls' token t') : cls.typ = cls'.typ := by
  have split := one.segments.split
  rw [two.segments.split] at split
  obtain ⟨raw, body, decoded, header⟩ := one.header
  obtain ⟨raw', body', decoded', header'⟩ := two.header
  simp only [List.cons.injEq] at split
  rw [split.1, decoded] at decoded'
  cases decoded'
  have short := one.segments.decoded_short one.short (by simp) decoded
  have read : readHeader cls.typ folding raw = some t.kid := (readHeader_iff short).mpr ⟨body, header⟩
  have read' : readHeader cls'.typ folding raw = some t'.kid := (readHeader_iff short).mpr ⟨body', header'⟩
  exact readHeader_typ read read'

section
variable {p' : Policy} {now now' : Time} (differ : cls.typ ≠ cls'.typ)
  (answered : judge cls platform p token now ≠ .error (refuse .contract))
include differ answered

/-- A token that one class does not refuse for its contract is in no other. -/
theorem other_class_broken (t' : Presented D) : ¬Presents cls' token t' := by
  intro presents'
  apply answered
  apply judge_broken
  intro t presents
  exact differ (presents.typ_unique platform.folding presents')

theorem judge_other_class : judge cls' platform p' token now' = .error (refuse .contract) :=
  judge_broken (other_class_broken differ answered)

theorem logged_other_class : (judgeLogged cls' platform p' token now').2 = [] := by
  rw [judgeLogged_broken (other_class_broken differ answered)]

end

/-- At most one of three verifiers answers anything but the refusal of the contract, and
the others ask for no key. -/
theorem token_one_class (platform : Platform) (v : Verifier) (w : WorkloadVerifier)
    (s : ServiceAccountVerifier) (token : Bytes) (atV atW atS : Time) :
    (v.verify platform token atV ≠ .error (refuse .contract) →
      w.verify platform token atW = .error (refuse .contract) ∧
      s.verify platform token atS = .error (refuse .contract) ∧
      (judgeLogged workloadToken platform w.policy token atW).2 = [] ∧
      (judgeLogged serviceAccountToken platform s.policy token atS).2 = []) ∧
    (w.verify platform token atW ≠ .error (refuse .contract) →
      v.verify platform token atV = .error (refuse .contract) ∧
      s.verify platform token atS = .error (refuse .contract) ∧
      (judgeLogged accessToken platform v.policy token atV).2 = [] ∧
      (judgeLogged serviceAccountToken platform s.policy token atS).2 = []) ∧
    (s.verify platform token atS ≠ .error (refuse .contract) →
      v.verify platform token atV = .error (refuse .contract) ∧
      w.verify platform token atW = .error (refuse .contract) ∧
      (judgeLogged accessToken platform v.policy token atV).2 = [] ∧
      (judgeLogged workloadToken platform w.policy token atW).2 = []) := by
  have accessWorkload : accessToken.typ ≠ workloadToken.typ := by decide
  have accessService : accessToken.typ ≠ serviceAccountToken.typ := by decide
  have workloadService : workloadToken.typ ≠ serviceAccountToken.typ := by decide
  have workloadAccess := accessWorkload.symm
  have serviceAccess := accessService.symm
  have serviceWorkload := workloadService.symm
  rw [Verifier.verify_eq, WorkloadVerifier.verify_eq, ServiceAccountVerifier.verify_eq]
  refine ⟨?_, ?_, ?_⟩
  · intro answered
    exact ⟨judge_other_class accessWorkload answered, judge_other_class accessService answered,
      logged_other_class accessWorkload answered, logged_other_class accessService answered⟩
  · intro answered
    exact ⟨judge_other_class workloadAccess answered, judge_other_class workloadService answered,
      logged_other_class workloadAccess answered, logged_other_class workloadService answered⟩
  · intro answered
    exact ⟨judge_other_class serviceAccess answered, judge_other_class serviceWorkload answered,
      logged_other_class serviceAccess answered, logged_other_class serviceWorkload answered⟩

end DevHealth.Authverify

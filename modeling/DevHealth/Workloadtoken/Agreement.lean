import DevHealth.Workloadtoken.TokenContract

/-! # Client and verifier agree on tokens

Both sides accept the same tokens: `WellFormed` says which.  They can differ in one way
only.  The verifier compares the expiry with the wall clock; the client's window ends at
an instant counted from the reading taken before the request was sent, and two readings
of the process clock are compared by their monotonic parts. -/
set_option autoImplicit false
namespace DevHealth.Workloadtoken

open Go Lib
open Authverify (Document Segments splitCompact_iff)

variable {token header payload signature : Bytes}

/-! ## Segments -/

theorem rune_alphabet (part : Bytes) : (runes part).all isBase64URLRune = part.all isBase64URL := by
  have small : ∀ r : Nat, isBase64URLRune r = true → r < 0x80 := by
    intro r url
    simp only [isBase64URLRune, Bool.or_eq_true, decide_eq_true_eq, beq_iff_eq] at url
    omega
  rw [runes_all_ascii small]
  congr 1
  funext b
  have same : ∀ n : Fin 256, isBase64URLRune n.val = isBase64URL (UInt8.ofNat n.val) := by
    decide +kernel
  have here := same ⟨b.toNat, b.toNat_lt⟩
  simpa using here

theorem compactJWS_iff : compactJWS token = true ↔ ∃ header payload signature,
      Segments token header payload signature ∧
        ∀ part ∈ [header, payload, signature], part ≠ [] ∧ (rawURLDecode false part).isSome = true := by
  have parts : ∀ part, compactPart part = true ↔
      part ≠ [] ∧ (∀ b ∈ part, isBase64URL b = true) ∧ (rawURLDecode false part).isSome = true := by
    intro part
    rw [compactPart, rune_alphabet]
    simp [and_assoc]
  rw [compactJWS]
  constructor
  · intro shape
    split at shape
    · rename_i h p s split
      simp only [Bool.and_eq_true, parts] at shape
      obtain ⟨⟨hHolds, pHolds⟩, sHolds⟩ := shape
      refine ⟨h, p, s, ⟨split, ?_⟩, ?_⟩
      · simpa using ⟨hHolds.2.1, pHolds.2.1, sHolds.2.1⟩
      · simpa using ⟨⟨hHolds.1, hHolds.2.2⟩, ⟨pHolds.1, pHolds.2.2⟩, sHolds.1, sHolds.2.2⟩
    · cases shape
  · rintro ⟨h, p, s, segments, each⟩
    have holds : ∀ part ∈ [h, p, s], compactPart part = true := by
      intro part member
      exact (parts part).mpr ⟨(each part member).1, segments.alphabet part member, (each part member).2⟩
    simp [segments.split, holds]

/-! ## The token as a whole -/

/-- A token whose segments decode to a header, to claims and to a signature as the contract
has them. -/
def WellFormed (token issuer audience : Bytes) (nbf exp : Int) : Prop :=
  ∃ header payload signature headerRaw payloadRaw signatureRaw,
    Segments token header payload signature ∧
    rawURLDecode true header = some headerRaw ∧ rawURLDecode true payload = some payloadRaw ∧
    rawURLDecode true signature = some signatureRaw ∧
    signatureRaw.length = Authverify.signatureSize ∧
    (∃ kid body, Authverify.Header Authverify.typWorkloadToken kid headerRaw body) ∧
    ∃ iat body, ClaimsMembers issuer audience payloadRaw iat nbf exp body

theorem segment_filled {part raw : Bytes} {names : List Bytes} {body : Json (.body .object)}
    (decoded : rawURLDecode true part = some raw) (document : Document names raw body) :
    part ≠ [] := by
  rintro rfl
  cases decoded
  obtain ⟨lead, trail, text, -⟩ := document.text
  simp [Json.text] at text

theorem client_wellFormed {issuer audience : Bytes} (issuerFilled : issuer ≠ [])
    (audienceFilled : audience ≠ []) {notBefore expires : Time} :
    (workloadTokenShape token = true ∧ tokenClaims token issuer audience = .ok (notBefore, expires)) ↔
      ∃ nbf exp, WellFormed token issuer audience nbf exp ∧ notBefore = Time.unix nbf ∧
        expires = Time.unix exp := by
  rw [tokenClaims_iff issuerFilled audienceFilled, workloadTokenShape, Bool.and_eq_true, compactJWS_iff]
  constructor
  · rintro ⟨⟨⟨h, p, s, segments, -⟩, shape⟩, payloadRaw, iat, nbf, exp, body, decoded, claims,
      rfl, rfl⟩
    rw [payloadPart, segments.split] at decoded
    rw [segments.split] at shape
    simp only [Bool.and_eq_true] at shape
    obtain ⟨headerHolds, signatureHolds⟩ := shape
    split at headerHolds
    · cases headerHolds
    · rename_i headerRaw headerDecoded
      split at signatureHolds
      · cases signatureHolds
      · rename_i signatureRaw signatureDecoded
        exact ⟨nbf, exp, ⟨h, p, s, headerRaw, payloadRaw, signatureRaw, segments, headerDecoded,
          decoded, signatureDecoded, of_decide_eq_true signatureHolds,
          headerShape_iff.mp headerHolds, iat, body, claims⟩, rfl, rfl⟩
  · rintro ⟨nbf, exp, ⟨h, p, s, headerRaw, payloadRaw, signatureRaw, segments, headerDecoded,
      payloadDecoded, signatureDecoded, length, ⟨kid, headerBody, header⟩, iat, body, claims⟩,
      rfl, rfl⟩
    have signatureFilled : s ≠ [] := by
      rintro rfl
      cases signatureDecoded
      cases length
    refine ⟨⟨⟨h, p, s, segments, ?_⟩, ?_⟩, payloadRaw, iat, nbf, exp, body, ?_, claims, rfl, rfl⟩
    · have each : ∀ {part raw}, part ≠ [] → rawURLDecode true part = some raw →
          part ≠ [] ∧ (rawURLDecode false part).isSome = true := by
        intro part raw filled decoded
        rw [rawURLDecode_lenient decoded]
        exact ⟨filled, rfl⟩
      intro part member
      simp only [List.mem_cons, List.not_mem_nil, or_false] at member
      rcases member with rfl | rfl | rfl
      · exact each (segment_filled headerDecoded (header_document header)) headerDecoded
      · exact each (segment_filled payloadDecoded claims.document) payloadDecoded
      · exact each signatureFilled signatureDecoded
    · rw [segments.split]
      simp [headerDecoded, signatureDecoded, headerShape_iff.mpr ⟨kid, headerBody, header⟩, length]
    · rw [payloadPart, segments.split]
      exact payloadDecoded

def tokenKid (folding : CaseFolding) (token : Bytes) : Option Bytes :=
  (Authverify.splitCompact token).bind fun (header, _, _) =>
    (rawURLDecode true header).bind (Authverify.parseWorkloadHeader folding)

section
variable {platform : Authverify.Platform} {v : Authverify.WorkloadVerifier} {now : Time}
  (short : token.length ≤ Authverify.maxTokenBytes) (noneDenied : v.denied = [])
  (noLeeway : v.leeway = 0)
  (held : ∀ kid, tokenKid platform.folding token = some kid →
    ∃ key, Authverify.lookupKey v.keys kid = .ok (key, true) ∧
      key.length = Authverify.publicKeySize)
  (signs : ∀ key message signature, signature.length = Authverify.signatureSize →
    platform.ed25519Verify key message signature = true) (instant : now.SecondsFit 0)
include short noneDenied noLeeway held signs instant

/-- A verifier without leeway and denied keys accepts the well-formed tokens in the time
between their dates. -/
theorem verify_wellFormed {nbf exp : Int} :
    (∃ claims, v.verify platform token now = .ok claims ∧ claims.notBefore = nbf ∧ claims.expiresAt = exp) ↔
      WellFormed token v.issuer v.audience nbf exp ∧ nbf < exp ∧ nbf ≤ now.unixSeconds ∧
        now.unixSeconds < exp := by
  have sum := (instant.wraps (le_refl 0)).1
  rw [add_zero] at sum
  simp only [Authverify.WorkloadVerifier.verify, bind_ok, obtainOr_ok, ensure_ok, pure_ok,
    Prod.exists, splitCompact_iff, short, true_and, noLeeway, add_zero, sub_zero, sum, beq_iff_eq,
    Bool.and_eq_true, decide_eq_true_eq, Bool.not_eq_true', decide_eq_false_iff_not, not_lt,
    ge_iff_le, not_le]
  constructor
  · rintro ⟨claims, ⟨h, p, s, segments, headerRaw, headerDecoded, payloadRaw, payloadDecoded, kid,
      headerRead, found, claimsRead, _, _, key, known, keyRead, _, _, _, signed, _, issuer, _,
      audience, _, started, _, running, rfl⟩, rfl, rfl⟩
    have headerShort := segments.decoded_short short (by simp) headerDecoded
    have payloadShort := segments.decoded_short short (by simp) payloadDecoded
    rw [Authverify.parseWorkloadHeader_eq] at headerRead
    have header := (Authverify.readHeader_iff headerShort).mp headerRead
    obtain ⟨members, ordered⟩ := (parseWorkloadClaims_iff payloadShort v.issuerValid
      v.audienceValid).mp ⟨found, claimsRead, issuer, audience, rfl, rfl⟩
    rw [Authverify.signatureHolds] at signed
    split at signed
    · cases signed
    · rename_i signatureRaw signatureDecoded
      simp only [Bool.and_eq_true, decide_eq_true_eq] at signed
      exact ⟨⟨h, p, s, headerRaw, payloadRaw, signatureRaw, segments, headerDecoded,
        payloadDecoded, signatureDecoded, signed.1, ⟨kid, header⟩, members⟩, ordered, started,
        running⟩
  · rintro ⟨⟨h, p, s, headerRaw, payloadRaw, signatureRaw, segments, headerDecoded, payloadDecoded,
      signatureDecoded, length, ⟨kid, header⟩, members⟩, ordered, started, running⟩
    have headerShort := segments.decoded_short short (by simp) headerDecoded
    have payloadShort := segments.decoded_short short (by simp) payloadDecoded
    have headerRead : Authverify.parseWorkloadHeader platform.folding headerRaw = some kid := by
      rw [Authverify.parseWorkloadHeader_eq]
      exact (Authverify.readHeader_iff headerShort).mpr header
    obtain ⟨claims, claimsRead, issuer, audience, rfl, rfl⟩ :=
      (parseWorkloadClaims_iff payloadShort v.issuerValid v.audienceValid).mpr ⟨members, ordered⟩
    have kidRead : tokenKid platform.folding token = some kid := by
      simp [tokenKid, splitCompact_iff.mpr ⟨short, segments⟩, headerDecoded, headerRead]
    obtain ⟨key, keyRead, keyLength⟩ := held kid kidRead
    have signed : Authverify.signatureHolds platform key h p s = true := by
      simp [Authverify.signatureHolds, signatureDecoded, length, signs key _ signatureRaw length]
    exact ⟨claims, ⟨h, p, s, segments, headerRaw, headerDecoded, payloadRaw, payloadDecoded, kid,
      headerRead, claims, claimsRead, (), by simp [noneDenied, contains], key, true, keyRead, (),
      ⟨rfl, keyLength⟩, (), signed, (), issuer, (), audience, (), started, (), running, rfl⟩, rfl,
      rfl⟩

end

/-! ## The window -/

variable {c : Client} {e : Entry} {now : Time}

def Accepts (c : Client) (e : Entry) (now : Time) : Prop := (checkToken c (some e) now).2 = none

theorem issuer_filled (c : Client) : c.issuer ≠ [] := by
  intro empty
  have valid := c.issuerValid
  rw [empty] at valid
  exact absurd valid (by decide)

theorem accepts_iff (short : e.token.length ≤ maxAccessTokenBytes) (audienceFilled : e.audience ≠ []) :
    Accepts c e now ↔ ∃ nbf exp, WellFormed e.token c.issuer e.audience nbf exp ∧
      now.before (Time.unix nbf) = false ∧ now.before (usableUntil c e (Time.unix exp)) = true := by
  rw [Accepts, checkToken]
  constructor
  · intro accepted
    split_ifs at accepted with refused
    simp only [Bool.or_eq_true, decide_eq_true_eq, Bool.not_eq_true', not_or, Bool.not_eq_false] at refused
    cases read : tokenClaims e.token c.issuer e.audience with
    | error err =>
      rw [read] at accepted
      cases accepted
    | ok dates =>
      obtain ⟨notBefore, expires⟩ := dates
      obtain ⟨nbf, exp, wellFormed, rfl, rfl⟩ :=
        (client_wellFormed (issuer_filled c) audienceFilled).mp ⟨refused.2, read⟩
      rw [read] at accepted
      simp only at accepted
      split_ifs at accepted with early late
      exact ⟨nbf, exp, wellFormed, Bool.eq_false_iff.mpr early, by simpa using late⟩
  · rintro ⟨nbf, exp, wellFormed, started, usable⟩
    obtain ⟨shape, read⟩ := (client_wellFormed (issuer_filled c) audienceFilled).mpr
      ⟨nbf, exp, wellFormed, rfl, rfl⟩
    simp [Nat.not_lt.mpr short, shape, read, started, usable]

/-- Before the expiry of the token and before the end of its lifetime, less the margin. -/
def InWindow (margin : Int) (e : Entry) (expires now : Time) : Prop :=
  now.before (expires.add (-margin)) = true ∧ now.before ((e.sent.add e.lifetime).add (-margin)) = true

/-- The margin before the first of the two ends, by the wall clock, has not begun, and that
before the other one has: the wall clock and the monotonic one have not moved alike since
the request was sent. -/
structure ClocksDisagree (margin : Int) (e : Entry) (expires now : Time) : Prop where
  readings : now.mono.isSome = true ∧ e.sent.mono.isSome = true
  sides : if expires.wall < e.sent.wall + e.lifetime then
      now.wall < expires.wall - margin ∧ e.lifetime - margin ≤ now.distance e.sent
    else now.distance e.sent < e.lifetime - margin ∧ expires.wall - margin ≤ now.wall

theorem usable_iff {exp : Int} : now.before (usableUntil c e (Time.unix exp)) = true ↔
      if exp * nanosPerSecond < e.sent.wall + e.lifetime then
        now.wall < exp * nanosPerSecond - c.margin
      else now.distance e.sent < e.lifetime - c.margin := by
  have first : (Time.unix exp).before (e.sent.add e.lifetime) = true ↔
      exp * nanosPerSecond < e.sent.wall + e.lifetime := by
    rw [Time.before, Time.unix_distance, decide_eq_true_eq]
    simp only [Time.add]
    omega
  rw [usableUntil, Time.earlier]
  split_ifs with expiresFirst lifetimeFirst lifetimeFirst
  · rw [Time.before, Time.distance_add, Time.distance_unix, decide_eq_true_eq]
    omega
  · exact absurd (first.mp expiresFirst) lifetimeFirst
  · exact absurd (first.mpr lifetimeFirst) expiresFirst
  · rw [Time.before, Time.distance_add, Time.distance_add, decide_eq_true_eq]
    omega

theorem inWindow_iff {exp : Int} : InWindow c.margin e (Time.unix exp) now ↔
      now.wall < exp * nanosPerSecond - c.margin ∧ now.distance e.sent < e.lifetime - c.margin := by
  simp only [InWindow, Time.before, Time.distance_add, Time.distance_unix, decide_eq_true_eq]
  omega

/-- Without two readings the time since the request is counted on the wall clock. -/
theorem distance_wall {t u : Time} (noReading : ¬(t.mono.isSome = true ∧ u.mono.isSome = true)) :
    t.distance u = t.wall - u.wall := by
  obtain ⟨tw, tm⟩ := t
  obtain ⟨uw, um⟩ := u
  cases tm <;> cases um <;> first | rfl | exact absurd ⟨rfl, rfl⟩ noReading

theorem clocks_agree {expires : Time} (alike : now.distance e.sent = now.wall - e.sent.wall) :
    ¬ClocksDisagree c.margin e expires now := by
  rintro ⟨-, sides⟩
  split_ifs at sides <;> omega

/-- The code's window is the documented one but for clocks that disagree. -/
theorem clocksDisagree_iff {exp : Int} : ClocksDisagree c.margin e (Time.unix exp) now ↔
    now.before (usableUntil c e (Time.unix exp)) = true ∧ ¬InWindow c.margin e (Time.unix exp) now := by
  have wall : (Time.unix exp).wall = exp * nanosPerSecond := rfl
  rw [usable_iff, inWindow_iff]
  constructor
  · rintro ⟨-, sides⟩
    rw [wall] at sides
    split_ifs at sides ⊢ <;> omega
  · rintro ⟨usable, outside⟩
    refine ⟨?_, ?_⟩
    · by_contra noReading
      rw [distance_wall noReading] at usable outside
      split_ifs at usable <;> omega
    · rw [wall]
      split_ifs at usable ⊢ <;> omega

theorem usable_of_inWindow {exp : Int} (inside : InWindow c.margin e (Time.unix exp) now) :
    now.before (usableUntil c e (Time.unix exp)) = true := by
  rw [inWindow_iff] at inside
  rw [usable_iff]
  split_ifs <;> omega

theorem wellFormed_unique {issuer audience : Bytes} (issuerFilled : issuer ≠ [])
    (audienceFilled : audience ≠ []) {nbf exp nbf' exp' : Int}
    (one : WellFormed token issuer audience nbf exp)
    (two : WellFormed token issuer audience nbf' exp') : exp = exp' := by
  obtain ⟨-, read⟩ := (client_wellFormed issuerFilled audienceFilled).mpr ⟨nbf, exp, one, rfl, rfl⟩
  obtain ⟨-, read'⟩ := (client_wellFormed issuerFilled audienceFilled).mpr ⟨nbf', exp', two, rfl, rfl⟩
  rw [read] at read'
  have same : (Time.unix exp).wall = (Time.unix exp').wall :=
    congrArg Time.wall (Prod.mk.inj (Except.ok.inj read')).2
  simp only [Time.unix, Time.ofNanos, nanosPerSecond] at same
  omega

/-- Client and verifier agree on a token, each at the same instant and on the same issuer
and audience, if and only if the clocks do not disagree about its window. -/
theorem check_agrees_iff (platform : Authverify.Platform) (c : Client)
    (v : Authverify.WorkloadVerifier) (e : Entry) (now : Time) (instant : now.SecondsFit 0)
    (short : e.token.length ≤ maxAccessTokenBytes) (sameIssuer : v.issuer = c.issuer)
    (sameAudience : v.audience = e.audience) (noneDenied : v.denied = []) (noLeeway : v.leeway = 0)
    (held : ∀ kid, tokenKid platform.folding e.token = some kid →
      ∃ key, Authverify.lookupKey v.keys kid = .ok (key, true) ∧
        key.length = Authverify.publicKeySize)
    (signs : ∀ key message signature, signature.length = Authverify.signatureSize →
      platform.ed25519Verify key message signature = true) :
    (Accepts c e now ↔ ∃ claims, v.verify platform e.token now = .ok claims ∧
        InWindow c.margin e (Time.unix claims.expiresAt) now) ↔
      ∀ nbf exp, WellFormed e.token c.issuer e.audience nbf exp → nbf ≤ now.unixSeconds →
        ¬ClocksDisagree c.margin e (Time.unix exp) now := by
  have issuerFilled := issuer_filled c
  have audienceFilled : e.audience ≠ [] := by
    have member := v.audienceValid
    rw [sameAudience] at member
    rintro empty
    rw [empty] at member
    exact absurd member (by decide)
  have verified : ∀ {nbf exp : Int}, (∃ claims, v.verify platform e.token now = .ok claims ∧
      claims.notBefore = nbf ∧ claims.expiresAt = exp) ↔ _ :=
    verify_wellFormed short noneDenied noLeeway held signs instant
  rw [sameIssuer, sameAudience] at verified
  have begun : ∀ {nbf : Int}, now.before (Time.unix nbf) = false ↔ nbf ≤ now.unixSeconds := by
    intro nbf
    rw [Time.before_unix, decide_eq_false_iff_not, not_lt]
  constructor
  · intro agree nbf exp wellFormed started disagree
    obtain ⟨usable, outside⟩ := clocksDisagree_iff.mp disagree
    obtain ⟨claims, accepted, inside⟩ := agree.mp
      ((accepts_iff short audienceFilled).mpr ⟨nbf, exp, wellFormed, begun.mpr started, usable⟩)
    obtain ⟨wellFormed', -⟩ := verified.mp ⟨claims, accepted, rfl, rfl⟩
    rw [← wellFormed_unique issuerFilled audienceFilled wellFormed wellFormed'] at inside
    exact outside inside
  · intro agree
    constructor
    · intro accepted
      obtain ⟨nbf, exp, wellFormed, started, usable⟩ :=
        (accepts_iff short audienceFilled).mp accepted
      rw [begun] at started
      have inside : InWindow c.margin e (Time.unix exp) now := by
        by_contra outside
        exact agree nbf exp wellFormed started (clocksDisagree_iff.mpr ⟨usable, outside⟩)
      have running : now.unixSeconds < exp := by
        have open_ := (inWindow_iff.mp inside).1
        have positive := c.marginPositive
        simp only [Time.unixSeconds, nanosPerSecond] at open_ ⊢
        omega
      obtain ⟨claims, verifies, -, rfl⟩ :=
        verified.mpr ⟨wellFormed, started.trans_lt running, started, running⟩
      exact ⟨claims, verifies, inside⟩
    · rintro ⟨claims, verifies, inside⟩
      obtain ⟨wellFormed, -, started, -⟩ := verified.mp ⟨claims, verifies, rfl, rfl⟩
      exact (accepts_iff short audienceFilled).mpr
        ⟨_, _, wellFormed, begun.mpr started, usable_of_inWindow inside⟩

/-! ## A clock that steps -/

def samplePlatform : Authverify.Platform := ⟨asciiFolding, fun _ _ _ => true⟩

/-- Key id `k1`, issuer `https://a`, audience `auth-service`, valid from second 1000 to
second 1300. -/
def sampleToken : Bytes :=
  ascii "eyJhbGciOiJFZERTQSIsInR5cCI6Indvcmtsb2FkK2p3dCIsImtpZCI6ImsxIn0." ++
  ascii "eyJpc3MiOiJodHRwczovL2EiLCJhdWQiOiJhdXRoLXNlcnZpY2UiLCJzdWIiOiJwcm5fYSIs" ++
  ascii "InByaW5jaXBhbF90eXBlIjoid29ya2xvYWQiLCJqdGkiOiJhYWFhYWFhYWFhYWFhYWFhYWFh" ++
  ascii "YWFhIiwiaWF0IjoxMDAwLCJuYmYiOjEwMDAsImV4cCI6MTMwMH0." ++
  List.replicate 86 0x41

def sampleIssuer : Bytes := ascii "https://a"

theorem sampleIssuer_valid : issuerShape.accepts sampleIssuer = true := by decide +kernel

def sampleVerifier : Authverify.WorkloadVerifier :=
  { issuer := sampleIssuer, audience := ascii "auth-service"
    keys := .plain fun kid => if kid = ascii "k1" then (List.replicate 32 0, true) else ([], false)
    denied := [], leeway := 0, issuerValid := sampleIssuer_valid, audienceValid := by decide
    leewayValid := by decide }

def sampleClient : Client :=
  { issuer := sampleIssuer, margin := 30 * nanosPerSecond, refreshAfter := fun d => d / 2
    issuerValid := sampleIssuer_valid, marginPositive := by decide }

/-- Asked for in second 1000, with a lifetime of 300 seconds. -/
def sampleEntry : Entry :=
  { token := sampleToken, audience := ascii "auth-service", sent := ⟨1000 * nanosPerSecond, some 0⟩
    lifetime := 300 * nanosPerSecond, notBefore := Time.zero, refreshAt := Time.zero
    usableUntil := Time.zero }

theorem sampleToken_kid : tokenKid asciiFolding sampleToken = some (ascii "k1") := by
  decide +kernel

theorem sampleToken_held (kid : Bytes) (found : tokenKid asciiFolding sampleToken = some kid) :
    ∃ key, Authverify.lookupKey sampleVerifier.keys kid = .ok (key, true) ∧
      key.length = Authverify.publicKeySize := by
  rw [sampleToken_kid] at found
  cases found
  exact ⟨List.replicate 32 0, rfl, rfl⟩

/-- Five seconds after the request by the monotonic clock and 400 by the wall clock, as
after a suspension: the client still hands the token out, and the verifier refuses it as
expired. -/
theorem expired_token_accepted :
    let now : Time := ⟨1400 * nanosPerSecond, some (5 * nanosPerSecond)⟩
    sampleEntry.token.length ≤ maxAccessTokenBytes ∧
      sampleVerifier.issuer = sampleClient.issuer ∧
      sampleVerifier.audience = sampleEntry.audience ∧
      ¬(Accepts sampleClient sampleEntry now ↔
        ∃ claims, sampleVerifier.verify samplePlatform sampleEntry.token now = .ok claims ∧
          InWindow sampleClient.margin sampleEntry (Time.unix claims.expiresAt) now) := by
  refine ⟨by decide +kernel, rfl, rfl, ?_⟩
  have accepted : Accepts sampleClient sampleEntry
      ⟨1400 * nanosPerSecond, some (5 * nanosPerSecond)⟩ := by
    unfold Accepts
    decide +kernel
  have refused : sampleVerifier.verify samplePlatform sampleEntry.token
      ⟨1400 * nanosPerSecond, some (5 * nanosPerSecond)⟩ = .error (.refused .expired) := by
    decide +kernel
  intro agree
  obtain ⟨claims, verifies, -⟩ := agree.mp accepted
  rw [refused] at verifies
  cases verifies

/-- At second 1200, read without a monotonic part, both accept. -/
theorem check_agrees_at_second_1200 :
    (Accepts sampleClient sampleEntry (Time.unix 1200) ↔
        ∃ claims, sampleVerifier.verify samplePlatform sampleToken (Time.unix 1200) = .ok claims ∧
          InWindow sampleClient.margin sampleEntry (Time.unix claims.expiresAt) (Time.unix 1200)) ∧
      Accepts sampleClient sampleEntry (Time.unix 1200) := by
  refine ⟨(check_agrees_iff samplePlatform sampleClient sampleVerifier sampleEntry (Time.unix 1200)
    ⟨by decide, by decide⟩ (by decide +kernel) rfl rfl rfl rfl sampleToken_held
    (fun _ _ _ _ => rfl)).mpr ?_, ?_⟩
  · intro _ _ _ _
    exact clocks_agree rfl
  · unfold Accepts
    decide +kernel

end DevHealth.Workloadtoken

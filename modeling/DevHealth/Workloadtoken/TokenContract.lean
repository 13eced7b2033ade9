import DevHealth.Authverify.Contract
import DevHealth.Workloadtoken.TokenDocument

/-! # The contract of a workload token

What the header and the claims of a workload token have to be, as predicates on their
trees, and that the readers of both sides decide them. -/
set_option autoImplicit false
namespace DevHealth.Workloadtoken

open Go Lib
open Authverify (Shallow DateMember Document NamesApart Plain headerMembers header_apart
  typWorkloadToken closedDocument_exact plain_of_string plain_of_date)

variable {body : Json (.body .object)} {raw : Bytes}

/-! ## Header -/

theorem header_document {typ kid : Bytes} (header : Authverify.Header typ kid raw body) :
    Document headerMembers raw body :=
  (closedDocument_exact header_apart.nodup).mp header.document

theorem header_plain {typ kid : Bytes} (header : Authverify.Header typ kid raw body) :
    ∀ name ∈ headerMembers, ∀ v, named body name = some v → Plain v := by
  intro name inside v found
  simp only [headerMembers, List.mem_cons, List.not_mem_nil, or_false] at inside
  rcases inside with rfl | rfl | rfl
  · exact plain_of_string header.alg found
  · exact plain_of_string header.typ found
  · exact plain_of_string header.kid.1 found

theorem kid_nonempty {kid : Bytes} (shape : kidShape.accepts kid = true) : kid ≠ [] := by
  rintro rfl
  exact absurd shape (by decide)

theorem memberText_present {members : RawObject} {name s : Bytes}
    (text : memberText members name = some s) : (members.get name).isSome = true := by
  obtain ⟨raw, found, -⟩ := Option.bind_eq_some_iff.mp text
  rw [found]
  rfl

theorem headerShape_iff : headerShape raw = true ↔
    ∃ kid body, Authverify.Header typWorkloadToken kid raw body := by
  rw [headerShape]
  constructor
  · intro shape
    split at shape
    · cases shape
    · rename_i members read
      simp only [Bool.and_eq_true, decide_eq_true_eq, beq_iff_eq, Option.any_eq_true] at shape
      obtain ⟨⟨⟨count, alg⟩, typ⟩, kid, kidText, kidFits⟩ := shape
      have present : ∀ name ∈ headerMembers, (members.get name).isSome = true := by
        intro name inside
        simp only [headerMembers, List.mem_cons, List.not_mem_nil, or_false] at inside
        rcases inside with rfl | rfl | rfl
        · exact memberText_present alg
        · exact memberText_present typ
        · exact memberText_present kidText
      obtain ⟨body, document, shallow, rfl⟩ :=
        (uniqueObject_document header_apart.nodup).mp ⟨read, count, present⟩
      exact ⟨kid, body, (closedDocument_exact header_apart.nodup).mpr document, (memberText_iff shallow (by decide)).mp alg,
        (memberText_iff shallow (by decide)).mp typ,
        (memberText_iff shallow (kid_nonempty kidFits)).mp kidText, kidFits⟩
  · rintro ⟨kid, body, header⟩
    have document := header_document header
    have shallow := document.shallow header_apart (header_plain header)
    obtain ⟨read, count, -⟩ := (uniqueObject_document header_apart.nodup).mpr
      ⟨body, document, shallow, rfl⟩
    obtain ⟨-, alg, typ, kidRead, kidFits⟩ := header
    have kidText := (memberText_iff shallow (kid_nonempty kidFits)).mpr kidRead
    have three : (rawMembers body).length = 3 := count
    simp only [read, three, (memberText_iff shallow (by decide)).mpr alg,
      (memberText_iff shallow (by decide)).mpr typ, kidText, Option.any_some, Bool.and_eq_true]
    exact ⟨⟨⟨rfl, rfl⟩, rfl⟩, kidFits⟩

/-! ## Claims -/

structure ClaimsMembers (issuer audience raw : Bytes) (iat nbf exp : Int)
    (body : Json (.body .object)) : Prop where
  document : Document claimMembers raw body
  issuerRead : namedString body (ascii "iss") = some issuer
  audienceRead : namedString body (ascii "aud") = some audience
  principalType : namedString body (ascii "principal_type") = some (ascii "workload")
  subject : ∃ s, namedString body (ascii "sub") = some s ∧ subjectShape.accepts s = true
  tokenID : ∃ s, namedString body (ascii "jti") = some s ∧ tokenIDShape.accepts s = true
  iatRead : DateMember body (ascii "iat") iat
  nbfRead : DateMember body (ascii "nbf") nbf
  expRead : DateMember body (ascii "exp") exp
  ordered : iat ≤ nbf
  lifetime : exp - iat ≤ maxLifetime

theorem claimNames_apart : NamesApart claimMembers := by decide +kernel

theorem ClaimsMembers.plain {issuer audience : Bytes} {iat nbf exp : Int}
    (claims : ClaimsMembers issuer audience raw iat nbf exp body) :
    ∀ name ∈ claimMembers, ∀ v, named body name = some v → Plain v := by
  intro name inside v found
  simp only [claimMembers, List.mem_cons, List.not_mem_nil, or_false] at inside
  rcases inside with rfl | rfl | rfl | rfl | rfl | rfl | rfl | rfl
  · exact plain_of_string claims.issuerRead found
  · exact plain_of_string claims.audienceRead found
  · obtain ⟨s, text, -⟩ := claims.subject
    exact plain_of_string text found
  · exact plain_of_string claims.principalType found
  · obtain ⟨s, text, -⟩ := claims.tokenID
    exact plain_of_string text found
  · exact plain_of_date claims.iatRead found
  · exact plain_of_date claims.nbfRead found
  · exact plain_of_date claims.expRead found

theorem memberText_any (shallow : Shallow body) {name : Bytes} {shape : Regex UInt8}
    (filled : shape.accepts [] = false) :
    (memberText (rawMembers body) name).any shape.accepts = true ↔
      ∃ s, namedString body name = some s ∧ shape.accepts s = true := by
  rw [Option.any_eq_true]
  constructor
  · rintro ⟨s, text, fits⟩
    have nonempty : s ≠ [] := by
      rintro rfl
      rw [filled] at fits
      cases fits
    exact ⟨s, (memberText_iff shallow nonempty).mp text, fits⟩
  · rintro ⟨s, text, fits⟩
    have nonempty : s ≠ [] := by
      rintro rfl
      rw [filled] at fits
      cases fits
    exact ⟨s, (memberText_iff shallow nonempty).mpr text, fits⟩

theorem tokenClaims_iff {token issuer audience : Bytes} (issuerFilled : issuer ≠ [])
    (audienceFilled : audience ≠ []) {notBefore expires : Time} :
    tokenClaims token issuer audience = .ok (notBefore, expires) ↔
      ∃ payload iat nbf exp body, rawURLDecode true (payloadPart token) = some payload ∧
        ClaimsMembers issuer audience payload iat nbf exp body ∧
        notBefore = Time.unix nbf ∧ expires = Time.unix exp := by
  have subjectFilled : subjectShape.accepts [] = false := by decide
  have tokenIDFilled : tokenIDShape.accepts [] = false := by decide
  simp only [tokenClaims, bind_ok, obtainOr_ok, ensure_ok, pure_ok, Bool.and_eq_true,
    decide_eq_true_eq, List.all_eq_true, beq_iff_eq]
  constructor
  · rintro ⟨payload, decoded, members, read, _, count, _, present, _,
      ⟨⟨⟨⟨aud, type⟩, iss⟩, sub⟩, jti⟩, iat, iatRead, nbf, nbfRead, exp, expRead, _,
      ⟨ordered, lifetime⟩, same⟩
    cases same
    obtain ⟨body, document, shallow, rfl⟩ :=
      (uniqueObject_document claimNames_apart.nodup).mp ⟨read, count, present⟩
    exact ⟨payload, iat, nbf, exp, body, decoded,
      { document := document
        issuerRead := (memberText_iff shallow issuerFilled).mp iss
        audienceRead := (memberText_iff shallow audienceFilled).mp aud
        principalType := (memberText_iff shallow (by decide)).mp type
        subject := (memberText_any shallow subjectFilled).mp sub
        tokenID := (memberText_any shallow tokenIDFilled).mp jti
        iatRead := readDate_iff.mp iatRead
        nbfRead := readDate_iff.mp nbfRead
        expRead := readDate_iff.mp expRead
        ordered := ordered
        lifetime := lifetime }, rfl, rfl⟩
  · rintro ⟨payload, iat, nbf, exp, body, decoded, claims, rfl, rfl⟩
    have shallow := claims.document.shallow claimNames_apart claims.plain
    obtain ⟨read, count, present⟩ := (uniqueObject_document claimNames_apart.nodup).mpr
      ⟨body, claims.document, shallow, rfl⟩
    exact ⟨payload, decoded, _, read, (), count, (), present, (),
      ⟨⟨⟨⟨(memberText_iff shallow audienceFilled).mpr claims.audienceRead,
        (memberText_iff shallow (by decide)).mpr claims.principalType⟩,
        (memberText_iff shallow issuerFilled).mpr claims.issuerRead⟩,
        (memberText_any shallow subjectFilled).mpr claims.subject⟩,
        (memberText_any shallow tokenIDFilled).mpr claims.tokenID⟩,
      iat, readDate_iff.mpr claims.iatRead, nbf, readDate_iff.mpr claims.nbfRead, exp,
      readDate_iff.mpr claims.expRead, (), ⟨claims.ordered, claims.lifetime⟩, rfl⟩

theorem parseWorkloadClaims_iff {folding : CaseFolding} (short : raw.length ≤ maxNestingDepth)
    {issuer audience : Bytes} (issuerValid : issuerShape.accepts issuer = true)
    (audienceValid : audience ∈ Authverify.workloadAudiences) {nbf exp : Int} :
    (∃ claims, Authverify.parseWorkloadClaims folding raw = some claims ∧
        claims.issuer = issuer ∧ claims.audience = audience ∧ claims.notBefore = nbf ∧
        claims.expiresAt = exp) ↔
      (∃ iat body, ClaimsMembers issuer audience raw iat nbf exp body) ∧ nbf < exp := by
  have distinct : claimMembers.Nodup := claimNames_apart.nodup
  constructor
  · rintro ⟨claims, read, rfl, rfl, rfl, rfl⟩
    obtain ⟨body, members⟩ := (Authverify.parseWorkloadClaims_members short).mp read
    have dates := members.dates
    exact ⟨⟨claims.issuedAt, body,
      { document := (closedDocument_exact distinct).mp members.document
        issuerRead := members.issuer.1
        audienceRead := members.audience
        principalType := members.principalType
        subject := ⟨claims.subject, members.subject⟩
        tokenID := ⟨claims.tokenID, members.tokenID⟩
        iatRead := dates.iatRead
        nbfRead := dates.nbfRead
        expRead := dates.expRead
        ordered := dates.ordered
        lifetime := dates.lifetime }⟩, dates.started⟩
  · rintro ⟨⟨iat, body, members⟩, started⟩
    obtain ⟨subject, subjectRead⟩ := members.subject
    obtain ⟨tokenID, tokenIDRead⟩ := members.tokenID
    have read : Authverify.parseWorkloadClaims folding raw =
        some ⟨issuer, audience, subject, tokenID, iat, nbf, exp⟩ :=
      (Authverify.parseWorkloadClaims_members short).mpr ⟨body,
        { document := (closedDocument_exact distinct).mpr members.document
          issuer := ⟨members.issuerRead, issuerValid⟩
          audience := members.audienceRead
          subject := subjectRead
          tokenID := tokenIDRead
          audienceKnown := audienceValid
          principalType := members.principalType
          dates := ⟨members.iatRead, members.nbfRead, members.expRead, members.ordered, started,
            members.lifetime⟩ }⟩
    exact ⟨_, read, rfl, rfl, rfl, rfl⟩

end DevHealth.Workloadtoken

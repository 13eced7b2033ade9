import DevHealth.Authverify.Document
import DevHealth.Authverify.ServiceAccountToken

/-! # The contracts of the three classes of tokens

What the header and the claims of an access token, a workload token and a service account
token have to be, as predicates on their trees, and that the parsers decide them. -/
set_option autoImplicit false
namespace DevHealth.Authverify

open Go Lib

variable {body : Json (.body .object)} {raw : Bytes} {folding : CaseFolding} {name : Bytes}

/-! ## Members -/

def StringMember (body : Json (.body .object)) (name : Bytes) (pattern : Regex UInt8)
    (s : Bytes) : Prop :=
  namedString body name = some s ∧ pattern.accepts s = true

/-- The dates of a token: plain integers in order, at most `ceiling` seconds apart. -/
structure Dates (body : Json (.body .object)) (ceiling iat nbf exp : Int) : Prop where
  iatRead : DateMember body (ascii "iat") iat
  nbfRead : DateMember body (ascii "nbf") nbf
  expRead : DateMember body (ascii "exp") exp
  ordered : iat ≤ nbf
  started : nbf < exp
  lifetime : exp - iat ≤ ceiling

/-- A member that is absent, or there with a value that stands for these bytes. -/
def OptionalMember (body : Json (.body .object)) (name : Bytes)
    (Stands : Json .value → Bytes → Prop) (out : Option Bytes) : Prop :=
  match named body name, out with
  | none, none => True
  | some v, some s => Stands v s
  | _, _ => False

/-- The value of an `act` claim: one object with the subject of the actor and nothing else. -/
def Actor (v : Json .value) (s : Bytes) : Prop :=
  ∃ inner : Json (.body .object), v = .box inner ∧ memberNames inner = actMembers ∧
    StringMember inner (ascii "sub") subjectPattern s

variable {v : Json .value} {out : Option Bytes} {s : Bytes}

theorem string_iff (shallow : Shallow body) {pattern : Regex UInt8} :
    stringMember (rawMembers body) name (some pattern) = some s ↔
      StringMember body name pattern s := by
  rw [stringMember_iff shallow]
  rfl

theorem anyText_iff (shallow : Shallow body) :
    stringMember (rawMembers body) name none = some s ↔ namedString body name = some s := by
  rw [stringMember_iff shallow]
  exact and_iff_left rfl

theorem optionalMember_iff {read : RawMessage → Option Bytes} {Stands : Json .value → Bytes → Prop}
    (decides : ∀ v, named body name = some v → ∀ s, read v.text = some s ↔ Stands v s) :
    optionalMember (rawMembers body) name read = some out ↔ OptionalMember body name Stands out := by
  unfold OptionalMember
  rw [optionalMember, get_rawMembers]
  cases found : named body name with
  | none => cases out <;> simp
  | some v =>
    cases out with
    | none => simp
    | some s => simpa using decides v found s

theorem parseAct_iff (nests : v.nesting ≤ maxNestingDepth)
    (distinct : v.NoRepeats (sameName (equalFold folding))) :
    parseAct v.text = some s ↔ Actor v s := by
  have scanned := scanDocument_value v nests
  simp only [parseAct, Option.bind_eq_bind, Option.bind_eq_some_iff, Option.guard_eq_some']
  constructor
  · rintro ⟨object, read, _, closed, subject⟩
    cases v with
    | @box b inner =>
      cases b with
      | array => simp [unmarshalObject, scanned, shapeOf] at read
      | object =>
        have same : object = rawMembers inner := by
          simp only [unmarshalObject, scanned, shapeOf, rawEntries, List.map_map, Option.some.injEq] at read
          exact read.symm
        subst same
        have shallow : Shallow inner := fun e inside =>
          (Json.entries_nesting inside).trans (box_nesting nests)
        refine ⟨inner, rfl, ?_, (string_iff shallow).mp subject⟩
        have names := nodup_of_noRepeats distinct
        simp only [closedSet, Bool.and_eq_true, List.all_eq_true, keys_rawMembers, contains_iff,
          RawObject.isSome_get] at closed
        have perm : (memberNames inner).Perm actMembers :=
          (List.perm_ext_iff_of_nodup names (by decide)).mpr fun a => ⟨closed.1 a, closed.2 a⟩
        exact List.perm_singleton.mp perm
    | _ => simp [unmarshalObject, scanned, shapeOf] at read
  · rintro ⟨inner, rfl, names, subject⟩
    have shallow : Shallow inner := fun e inside =>
      (Json.entries_nesting inside).trans (box_nesting nests)
    refine ⟨rawMembers inner, ?_, (), ?_, (string_iff shallow).mpr subject⟩
    · simp [unmarshalObject, scanned, shapeOf, rawEntries, rawMembers]
    · simp only [closedSet, Bool.and_eq_true, List.all_eq_true, keys_rawMembers, contains_iff,
        RawObject.isSome_get, names]
      exact ⟨fun a inside => inside, fun a inside => inside⟩

def readDates (ceiling : Int) (object : RawObject) : Option (Int × Int × Int) := do
  let issuedAt ← numericDate object (ascii "iat")
  let notBefore ← numericDate object (ascii "nbf")
  let expiresAt ← numericDate object (ascii "exp")
  guard (issuedAt ≤ notBefore ∧ notBefore < expiresAt ∧ expiresAt - issuedAt ≤ ceiling)
  return (issuedAt, notBefore, expiresAt)

theorem readDates_iff (shallow : Shallow body) {ceiling iat nbf exp : Int} :
    readDates ceiling (rawMembers body) = some (iat, nbf, exp) ↔ Dates body ceiling iat nbf exp := by
  simp only [readDates, Option.bind_eq_bind, Option.bind_eq_some_iff, Option.guard_eq_some',
    Option.pure_def, Option.some.injEq, numericDate_iff shallow]
  constructor
  · rintro ⟨iat, iatRead, nbf, nbfRead, exp, expRead, _, ⟨ordered, started, lifetime⟩, same⟩
    cases same
    exact ⟨iatRead, nbfRead, expRead, ordered, started, lifetime⟩
  · intro dates
    exact ⟨iat, dates.iatRead, nbf, dates.nbfRead, exp, dates.expRead, (),
      ⟨dates.ordered, dates.started, dates.lifetime⟩, rfl⟩

theorem bind_dates {α : Type} {object : RawObject} {ceiling : Int} {k : Int → Int → Int → Option α} :
    (numericDate object (ascii "iat") >>= fun issuedAt =>
      numericDate object (ascii "nbf") >>= fun notBefore =>
      numericDate object (ascii "exp") >>= fun expiresAt =>
      guard (issuedAt ≤ notBefore ∧ notBefore < expiresAt ∧ expiresAt - issuedAt ≤ ceiling) >>=
        fun _ => k issuedAt notBefore expiresAt) =
      readDates ceiling object >>= fun dates => k dates.1 dates.2.1 dates.2.2 := by
  simp only [readDates, bind_assoc, pure_bind]

theorem members_iff {α : Type} {names required : List Bytes} {rest : RawObject → Option α} {out : α}
    {Members : Json (.body .object) → Prop} (apart : NamesApart names)
    (short : raw.length ≤ maxNestingDepth)
    (document : ∀ body, Members body → ClosedDocument names required raw body)
    (tame : ∀ body, Members body → Tame folding body)
    (reads : ∀ body, ClosedDocument names required raw body → Shallow body → Tame folding body →
      (rest (rawMembers body) = some out ↔ Members body)) :
    (decodeObject folding raw >>= fun object =>
        guard (closedSet object names required = true) >>= fun _ => rest object) = some out ↔
      ∃ body, Members body := by
  simp only [Option.bind_eq_bind, Option.bind_eq_some_iff, Option.guard_eq_some']
  constructor
  · rintro ⟨object, read, _, closed, last⟩
    obtain ⟨body, isClosed, isTame, rfl⟩ := (decodeObject_closed apart folding short).mp ⟨read, closed⟩
    exact ⟨body, (reads body isClosed (isClosed.shallow short) isTame).mp last⟩
  · rintro ⟨body, members⟩
    have isClosed := document body members
    obtain ⟨read, closed⟩ := (decodeObject_closed apart folding short).mpr
      ⟨body, isClosed, tame body members, rfl⟩
    exact ⟨_, read, (), closed,
      (reads body isClosed (isClosed.shallow short) (tame body members)).mpr members⟩

/-! ## Nothing left to refuse -/

theorem plain_of_string (string : namedString body name = some s)
    (found : named body name = some v) : Plain v := by
  rw [namedString, found] at string
  cases v with
  | str content valid => exact ⟨.str content, rfl, rfl⟩
  | _ => cases string

theorem plain_of_date {n : Int} (date : DateMember body name n) (found : named body name = some v) :
    Plain v := by
  obtain ⟨digits, valid, same, all, rfl, -, high⟩ := date
  rw [found] at same
  cases same
  have small : digitsValue digits < 2 ^ 63 := by
    simp only [maxNumericDate] at high
    omega
  exact ⟨.num digits, rfl, fitsDouble_integer all small⟩

theorem tame_of_string (string : namedString body name = some s)
    (found : named body name = some v) : TameValue folding v :=
  ((plain_of_string string found).strict _).2.2

theorem tame_of_date {n : Int} (date : DateMember body name n) (found : named body name = some v) :
    TameValue folding v :=
  ((plain_of_date date found).strict _).2.2

theorem Actor.tame (actor : Actor v s) : TameValue folding v := by
  obtain ⟨inner, rfl, names, subject⟩ := actor
  have distinct : (memberNames inner).Nodup := by
    rw [names]
    decide
  have each : ∀ e ∈ inner.entries, TameValue folding e.2 := by
    rintro ⟨content, v⟩ inside
    have member : unquote content ∈ memberNames inner := List.mem_map.mpr ⟨_, inside, rfl⟩
    have found := named_of_entry distinct inside
    rw [names] at member
    rw [List.mem_singleton.mp member] at found
    exact tame_of_string subject.1 found
  refine ⟨⟨?_, ?_⟩, ?_⟩
  · have single : inner.entries.length = 1 := by
      simpa [memberNames, actMembers] using congrArg List.length names
    obtain ⟨e, only⟩ := List.length_eq_one_iff.mp single
    rw [only]
    exact List.pairwise_singleton _ _
  · refine Json.noRepeats_of_entries (t := inner) ?_ fun e inside => (each e inside).1
    intro scalar
    cases scalar
  · refine Json.allNumbers_of_entries (t := inner) ?_ fun e inside => (each e inside).2
    intro scalar
    cases scalar

/-! ## Header -/

/-- The closed header of a class: the algorithm, the type of the class and a key id. -/
structure Header (typ kid raw : Bytes) (body : Json (.body .object)) : Prop where
  document : ClosedDocument headerMembers headerRequired raw body
  alg : namedString body (ascii "alg") = some algEdDSA
  typ : namedString body (ascii "typ") = some typ
  kid : StringMember body (ascii "kid") kidPattern kid

/-- The header parsers differ in the type they ask for. -/
def readHeader (typ : Bytes) (folding : CaseFolding) (raw : Bytes) : Option Bytes := do
  let object ← decodeObject folding raw
  guard (closedSet object headerMembers headerRequired)
  let alg ← stringMember object (ascii "alg") none
  guard (alg == algEdDSA)
  let found ← stringMember object (ascii "typ") none
  guard (found == typ)
  stringMember object (ascii "kid") (some kidPattern)

theorem parseWorkloadHeader_eq : parseWorkloadHeader = readHeader typWorkloadToken := rfl

theorem header_apart : NamesApart headerMembers := by decide +kernel

theorem Header.tame {typ kid : Bytes} (header : Header typ kid raw body) : Tame folding body := by
  apply header.document.entries_of_named (P := TameValue folding)
  intro name inside v found
  simp only [headerMembers, List.mem_cons, List.not_mem_nil, or_false] at inside
  rcases inside with rfl | rfl | rfl
  · exact tame_of_string header.alg found
  · exact tame_of_string header.typ found
  · exact tame_of_string header.kid.1 found

theorem readHeader_iff (short : raw.length ≤ maxNestingDepth) {typ kid : Bytes} :
    readHeader typ folding raw = some kid ↔ ∃ body, Header typ kid raw body := by
  unfold readHeader
  refine members_iff header_apart short (fun _ header => header.document)
    (fun _ header => header.tame) fun body document shallow _ => ?_
  simp only [Option.bind_eq_bind, Option.bind_eq_some_iff, Option.guard_eq_some', beq_iff_eq,
    anyText_iff shallow, string_iff shallow]
  constructor
  · rintro ⟨_, alg, _, rfl, _, typ, _, rfl, kid⟩
    exact ⟨document, alg, typ, kid⟩
  · intro header
    exact ⟨_, header.alg, (), rfl, _, header.typ, (), rfl, header.kid⟩

/-! ## Access tokens -/

structure AccessMembers (raw : Bytes) (claims : AccessClaims) (body : Json (.body .object)) :
    Prop where
  document : ClosedDocument claimsMembers claimsRequired raw body
  issuer : StringMember body (ascii "iss") issuerPattern claims.issuer
  audience : namedString body (ascii "aud") = some claims.audience
  subject : StringMember body (ascii "sub") subjectPattern claims.subject
  sessionID : StringMember body (ascii "sid") sessionPattern claims.sessionID
  tokenID : StringMember body (ascii "jti") jtiPattern claims.tokenID
  scope : namedString body (ascii "scope") = some claims.scope
  scopeOfAudience : scopeByAudience.lookup claims.audience = some claims.scope
  principalType : namedString body (ascii "principal_type") = some (ascii "human")
  orgID : OptionalMember body (ascii "org_id")
    (fun v s => stringOf v = some s ∧ orgIDPattern.accepts s = true) claims.orgID
  actorSubject : OptionalMember body (ascii "act") Actor claims.actorSubject
  dates : Dates body lifetimeCeiling claims.issuedAt claims.notBefore claims.expiresAt

theorem accessClaims_apart : NamesApart claimsMembers := by decide +kernel

theorem OptionalMember.tame {Stands : Json .value → Bytes → Prop}
    (optional : OptionalMember body name Stands out)
    (tame : ∀ v s, named body name = some v → Stands v s → TameValue folding v)
    (found : named body name = some v) : TameValue folding v := by
  unfold OptionalMember at optional
  rw [found] at optional
  cases out with
  | none => exact optional.elim
  | some s => exact tame v s found optional

theorem AccessMembers.tame {claims : AccessClaims} (members : AccessMembers raw claims body) :
    Tame folding body := by
  apply members.document.entries_of_named (P := TameValue folding)
  intro name inside v found
  simp only [claimsMembers, List.mem_cons, List.not_mem_nil, or_false] at inside
  rcases inside with rfl | rfl | rfl | rfl | rfl | rfl | rfl | rfl | rfl | rfl | rfl | rfl
  · exact tame_of_string members.issuer.1 found
  · exact tame_of_string members.audience found
  · exact tame_of_string members.subject.1 found
  · exact tame_of_string members.principalType found
  · exact tame_of_string members.sessionID.1 found
  · exact tame_of_string members.tokenID.1 found
  · exact tame_of_date members.dates.iatRead found
  · exact tame_of_date members.dates.nbfRead found
  · exact tame_of_date members.dates.expRead found
  · apply members.orgID.tame _ found
    intro v s found string
    exact tame_of_string (s := s) (by rw [namedString, found]; exact string.1) found
  · exact members.actorSubject.tame (fun v s _ actor => actor.tame) found
  · exact tame_of_string members.scope found

theorem orgID_iff (shallow : Shallow body) : optionalMember (rawMembers body) (ascii "org_id") (fun _ =>
        stringMember (rawMembers body) (ascii "org_id") (some orgIDPattern)) = some out ↔
      OptionalMember body (ascii "org_id")
        (fun v s => stringOf v = some s ∧ orgIDPattern.accepts s = true) out := by
  apply optionalMember_iff
  intro v found s
  rw [string_iff shallow, StringMember, namedString, found]
  rfl

theorem actor_iff (shallow : Shallow body) (tame : Tame folding body) :
    optionalMember (rawMembers body) (ascii "act") parseAct = some out ↔
      OptionalMember body (ascii "act") Actor out := by
  apply optionalMember_iff
  intro v found s
  obtain ⟨content, inside, -⟩ := mem_entries_of_named found
  exact parseAct_iff (shallow.named found) (tame _ inside).1

theorem parseAccessClaims_iff (short : raw.length ≤ maxNestingDepth) {claims : AccessClaims} :
    parseAccessClaims folding raw = some claims ↔ ∃ body, AccessMembers raw claims body := by
  simp only [parseAccessClaims, bind_dates]
  refine members_iff accessClaims_apart short (fun _ members => members.document)
    (fun _ members => members.tame) fun body document shallow tame => ?_
  simp only [Option.bind_eq_bind, Option.bind_eq_some_iff, Option.guard_eq_some', beq_iff_eq,
    Option.pure_def, Option.some.injEq, Prod.exists, string_iff shallow, anyText_iff shallow,
    orgID_iff shallow, actor_iff shallow tame, readDates_iff shallow]
  constructor
  · rintro ⟨_, issuer, _, audience, _, subject, _, sessionID, _, tokenID, _, scope, _, ofAudience, _,
      type, _, rfl, _, orgID, _, actorSubject, _, _, _, dates, rfl⟩
    exact ⟨document, issuer, audience, subject, sessionID, tokenID, scope, ofAudience, type, orgID,
      actorSubject, dates⟩
  · intro members
    exact ⟨_, members.issuer, _, members.audience, _, members.subject, _, members.sessionID, _,
      members.tokenID, _, members.scope, (), members.scopeOfAudience, _, members.principalType, (), rfl,
      _, members.orgID, _, members.actorSubject, _, _, _, members.dates, rfl⟩

/-! ## Workload tokens -/

structure WorkloadMembers (raw : Bytes) (claims : WorkloadClaims) (body : Json (.body .object)) :
    Prop where
  document : ClosedDocument workloadClaimsMembers workloadClaimsMembers raw body
  issuer : StringMember body (ascii "iss") issuerPattern claims.issuer
  audience : namedString body (ascii "aud") = some claims.audience
  subject : StringMember body (ascii "sub") subjectPattern claims.subject
  tokenID : StringMember body (ascii "jti") jtiPattern claims.tokenID
  audienceKnown : claims.audience ∈ workloadAudiences
  principalType : namedString body (ascii "principal_type") = some (ascii "workload")
  dates : Dates body workloadLifetimeCeiling claims.issuedAt claims.notBefore claims.expiresAt

theorem workloadClaims_apart : NamesApart workloadClaimsMembers := by decide +kernel

theorem WorkloadMembers.tame {claims : WorkloadClaims} (members : WorkloadMembers raw claims body) :
    Tame folding body := by
  apply members.document.entries_of_named (P := TameValue folding)
  intro name inside v found
  simp only [workloadClaimsMembers, List.mem_cons, List.not_mem_nil, or_false] at inside
  rcases inside with rfl | rfl | rfl | rfl | rfl | rfl | rfl | rfl
  · exact tame_of_string members.issuer.1 found
  · exact tame_of_string members.audience found
  · exact tame_of_string members.subject.1 found
  · exact tame_of_string members.principalType found
  · exact tame_of_string members.tokenID.1 found
  · exact tame_of_date members.dates.iatRead found
  · exact tame_of_date members.dates.nbfRead found
  · exact tame_of_date members.dates.expRead found

theorem parseWorkloadClaims_members (short : raw.length ≤ maxNestingDepth) {claims : WorkloadClaims} :
    parseWorkloadClaims folding raw = some claims ↔ ∃ body, WorkloadMembers raw claims body := by
  simp only [parseWorkloadClaims, bind_dates]
  refine members_iff workloadClaims_apart short (fun _ members => members.document)
    (fun _ members => members.tame) fun body document shallow _ => ?_
  simp only [Option.bind_eq_bind, Option.bind_eq_some_iff, Option.guard_eq_some', beq_iff_eq,
    Option.pure_def, Option.some.injEq, Prod.exists, contains_iff, string_iff shallow,
    anyText_iff shallow, readDates_iff shallow]
  constructor
  · rintro ⟨_, issuer, _, audience, _, subject, _, tokenID, _, known, _, type, _, rfl, _, _, _, dates,
      rfl⟩
    exact ⟨document, issuer, audience, subject, tokenID, known, type, dates⟩
  · intro members
    exact ⟨_, members.issuer, _, members.audience, _, members.subject, _, members.tokenID, (),
      members.audienceKnown, _, members.principalType, (), rfl, _, _, _, members.dates, rfl⟩

/-! ## Service account tokens -/

structure ServiceAccountMembers (raw : Bytes) (claims : ServiceAccountClaims)
    (body : Json (.body .object)) : Prop where
  document : ClosedDocument serviceAccountClaimsMembers serviceAccountClaimsMembers raw body
  issuer : StringMember body (ascii "iss") issuerPattern claims.issuer
  audience : namedString body (ascii "aud") = some claims.audience
  subject : StringMember body (ascii "sub") subjectPattern claims.subject
  orgID : StringMember body (ascii "org_id") orgIDPattern claims.orgID
  credentialID : StringMember body (ascii "cid") credentialIDPattern claims.credentialID
  tokenID : StringMember body (ascii "jti") jtiPattern claims.tokenID
  audienceKnown : claims.audience = serviceAccountTokenAudience
  principalType : namedString body (ascii "principal_type") = some (ascii "service_account")
  dates : Dates body serviceAccountLifetimeCeiling claims.issuedAt claims.notBefore claims.expiresAt

theorem serviceAccountClaims_apart : NamesApart serviceAccountClaimsMembers := by decide +kernel

theorem ServiceAccountMembers.tame {claims : ServiceAccountClaims}
    (members : ServiceAccountMembers raw claims body) : Tame folding body := by
  apply members.document.entries_of_named (P := TameValue folding)
  intro name inside v found
  simp only [serviceAccountClaimsMembers, List.mem_cons, List.not_mem_nil, or_false] at inside
  rcases inside with rfl | rfl | rfl | rfl | rfl | rfl | rfl | rfl | rfl | rfl
  · exact tame_of_string members.issuer.1 found
  · exact tame_of_string members.audience found
  · exact tame_of_string members.subject.1 found
  · exact tame_of_string members.principalType found
  · exact tame_of_string members.orgID.1 found
  · exact tame_of_string members.credentialID.1 found
  · exact tame_of_string members.tokenID.1 found
  · exact tame_of_date members.dates.iatRead found
  · exact tame_of_date members.dates.nbfRead found
  · exact tame_of_date members.dates.expRead found

theorem parseServiceAccountClaims_iff (short : raw.length ≤ maxNestingDepth) {claims : ServiceAccountClaims} :
    parseServiceAccountClaims folding raw = some claims ↔ ∃ body, ServiceAccountMembers raw claims body := by
  simp only [parseServiceAccountClaims, bind_dates]
  refine members_iff serviceAccountClaims_apart short (fun _ members => members.document)
    (fun _ members => members.tame) fun body document shallow _ => ?_
  simp only [Option.bind_eq_bind, Option.bind_eq_some_iff, Option.guard_eq_some', beq_iff_eq,
    Option.pure_def, Option.some.injEq, Prod.exists, string_iff shallow, anyText_iff shallow,
    readDates_iff shallow]
  constructor
  · rintro ⟨_, issuer, _, audience, _, subject, _, orgID, _, credentialID, _, tokenID, _, known, _,
      type, _, rfl, _, _, _, dates, rfl⟩
    exact ⟨document, issuer, audience, subject, orgID, credentialID, tokenID, known, type, dates⟩
  · intro members
    exact ⟨_, members.issuer, _, members.audience, _, members.subject, _, members.orgID, _,
      members.credentialID, _, members.tokenID, (), members.audienceKnown, _, members.principalType,
      (), rfl, _, _, _, members.dates, rfl⟩

end DevHealth.Authverify

import DevHealth.Authverify.Decision

/-! # The workload token exchange

`WorkloadTokenExchangeService.Exchange`: validate the subject token, resolve its binding,
narrow the scope, issue a token and hold its lifetime to the ceiling.  The validator, the
resolver, the issuer and the clock are outside; they act on a world that is threaded
through the calls. -/
set_option autoImplicit false
namespace DevHealth.Authverify

open Go Lib

/-! ## Model -/

/-- Errors of the exchange itself; what a seam returns is passed on. -/
inductive ExchangeError (E : Type) where
  | workloadBindingNotFound
  | scopeNotGranted
  | issuedLifetimeExceedsCeiling
  | issuedLifetimeUnknown
  | issuedLifetimeMismatch
  | seam (e : E)
  deriving DecidableEq, Repr

structure SubjectIdentity where
  trustDomain : Bytes
  nameSpace : Bytes
  serviceAccountName : Bytes
  serviceAccountUID : Bytes
  expiresAt : Time

structure WorkloadBinding where
  bindingID : Bytes
  orgID : Bytes
  grantedScopes : List Bytes
  repositoryScopes : List Bytes

structure IssuedToken where
  token : Bytes
  issuedAt : Option Time
  expiresAt : Option Time

/-- The outside of the service, each call on the world as it finds it. -/
structure Seams (W E : Type) where
  validate : Bytes → W → Except E SubjectIdentity × W
  resolve : SubjectIdentity → W → Except E WorkloadBinding × W
  issue : WorkloadBinding → List Bytes → Time → W → Except E IssuedToken × W
  now : W → Time × W

structure WorkloadTokenExchangeResult where
  accessToken : Bytes
  expiresIn : Int
  scope : List Bytes
  deriving DecidableEq, Repr

variable {W E : Type}

def narrowScopes (granted : List Bytes) :
    List Bytes → List Bytes → List Bytes → Except (ExchangeError E) (List Bytes)
  | [], _, narrowed => .ok narrowed
  | scope :: requested, seen, narrowed =>
    if !contains granted scope then .error .scopeNotGranted
    else if contains seen scope then narrowScopes granted requested seen narrowed
    else narrowScopes granted requested (scope :: seen) (narrowed ++ [scope])

def resolveRequestedScope (binding : WorkloadBinding) (requested : List Bytes) :
    Except (ExchangeError E) (List Bytes) :=
  match binding.grantedScopes, requested with
  | [], _ => .error .workloadBindingNotFound
  | granted, [] => .ok granted
  | granted, requested => narrowScopes granted requested [] []

def tokenLifetimeClaims (folding : CaseFolding) (payloadPart : Bytes) : Option (Int × Int) := do
  let raw ← rawURLDecode true payloadPart
  let object ← decodeObject folding raw
  let iat ← numericDate object (ascii "iat")
  let exp ← numericDate object (ascii "exp")
  guard (iat < exp)
  return (iat, exp)

def checkIssuedLifetime (folding : CaseFolding) (issued : IssuedToken) :
    Except (ExchangeError E) (Time × Time) :=
  match issued.issuedAt, issued.expiresAt with
  | some issuedAt, some expiresAt =>
    if !expiresAt.after issuedAt then .error .issuedLifetimeUnknown
    else
      match splitCompact issued.token with
      | some (_, payload, _) =>
        match tokenLifetimeClaims folding payload with
        | none => .error .issuedLifetimeUnknown
        | some (iat, exp) =>
          if workloadLifetimeCeiling < exp - iat then .error .issuedLifetimeExceedsCeiling
          else if iat ≠ issuedAt.unixSeconds ∨ exp ≠ expiresAt.unixSeconds then
            .error .issuedLifetimeMismatch
          else .ok (issuedAt, expiresAt)
      | none =>
        if workloadLifetimeCeiling * nanosPerSecond < expiresAt.sub issuedAt then
          .error .issuedLifetimeExceedsCeiling
        else .ok (issuedAt, expiresAt)
  | _, _ => .error .issuedLifetimeUnknown

/-- What is left of a lifetime, in whole seconds. -/
def expiresIn (expiresAt now : Time) : Int :=
  if 0 < expiresAt.sub now then expiresAt.sub now / nanosPerSecond else 0

def exchange (folding : CaseFolding) (seams : Seams W E) (subjectToken : Bytes)
    (requestedScope : List Bytes) (w : W) :
    Except (ExchangeError E) WorkloadTokenExchangeResult × W :=
  match seams.validate subjectToken w with
  | (.error e, w) => (.error (.seam e), w)
  | (.ok identity, w) =>
    match seams.resolve identity w with
    | (.error e, w) => (.error (.seam e), w)
    | (.ok binding, w) =>
      match resolveRequestedScope binding requestedScope with
      | .error e => (.error e, w)
      | .ok scope =>
        match seams.issue binding scope identity.expiresAt w with
        | (.error e, w) => (.error (.seam e), w)
        | (.ok issued, w) =>
          match checkIssuedLifetime folding issued with
          | .error e => (.error e, w)
          | .ok (_, expiresAt) =>
            let (now, w) := seams.now w
            (.ok { accessToken := issued.token, expiresIn := expiresIn expiresAt now
                   scope := scope }, w)

/-! ## Narrowing -/

/-- The part of a list of scopes that a loop has gone through, and what it has kept: each
once, in the order in which it came first. -/
structure Kept (done kept : List Bytes) : Prop where
  distinct : kept.Nodup
  same : ∀ scope, scope ∈ kept ↔ scope ∈ done
  order : kept.Pairwise fun a b => done.idxOf a < done.idxOf b

theorem Kept.order_append {done kept : List Bytes} (sofar : Kept done kept) (scope : Bytes) :
    kept.Pairwise fun a b => (done ++ [scope]).idxOf a < (done ++ [scope]).idxOf b := by
  refine sofar.order.imp_of_mem ?_
  intro a b inA inB before
  rw [List.idxOf_append_of_mem ((sofar.same a).mp inA), List.idxOf_append_of_mem ((sofar.same b).mp inB)]
  exact before

theorem Kept.repeated {done kept : List Bytes} {scope : Bytes} (sofar : Kept done kept)
    (seen : scope ∈ done) : Kept (done ++ [scope]) kept := by
  refine ⟨sofar.distinct, ?_, ?_⟩
  · intro other
    rw [sofar.same, List.mem_append, List.mem_singleton]
    constructor
    · exact Or.inl
    · rintro (inside | rfl)
      · exact inside
      · exact seen
  · exact sofar.order_append scope

theorem Kept.fresh {done kept : List Bytes} {scope : Bytes} (sofar : Kept done kept)
    (unseen : scope ∉ done) : Kept (done ++ [scope]) (kept ++ [scope]) := by
  refine ⟨?_, ?_, ?_⟩
  · rw [List.nodup_append]
    refine ⟨sofar.distinct, List.nodup_singleton _, ?_⟩
    intro a inside b last
    rw [List.mem_singleton.mp last]
    rintro rfl
    exact unseen ((sofar.same a).mp inside)
  · intro other
    simp [sofar.same]
  · rw [List.pairwise_append]
    refine ⟨?_, List.pairwise_singleton _ _, ?_⟩
    · exact sofar.order_append scope
    · intro a inside b last
      have inDone := (sofar.same a).mp inside
      rw [List.mem_singleton.mp last, List.idxOf_append_of_mem inDone, List.idxOf_append_of_notMem unseen]
      have bound := List.idxOf_lt_length_of_mem inDone
      omega

theorem narrowScopes_kept {granted : List Bytes} : ∀ {requested done seen narrowed scope : List Bytes},
      (∀ s, s ∈ seen ↔ s ∈ done) → Kept done narrowed → (∀ s ∈ done, s ∈ granted) →
      narrowScopes (E := E) granted requested seen narrowed = .ok scope →
      Kept (done ++ requested) scope ∧ ∀ s ∈ done ++ requested, s ∈ granted := by
  intro requested
  induction requested with
  | nil =>
    intro done seen narrowed scope _ sofar within success
    cases success
    simpa using ⟨sofar, within⟩
  | cons s requested ih =>
    intro done seen narrowed scope marks sofar within success
    rw [narrowScopes] at success
    split_ifs at success with refused known
    all_goals
      have isGranted : s ∈ granted := by simpa [contains_iff] using refused
      have within' : ∀ x ∈ done ++ [s], x ∈ granted := by
        intro x inside
        rcases List.mem_append.mp inside with old | new
        · exact within x old
        · rw [List.mem_singleton.mp new]
          exact isGranted
      rw [List.append_cons done s requested]
    · have seenBefore : s ∈ done := (marks s).mp ((contains_iff _ _).mp known)
      refine ih ?_ (sofar.repeated seenBefore) within' success
      intro x
      rw [marks, List.mem_append, List.mem_singleton]
      constructor
      · exact Or.inl
      · rintro (inside | rfl)
        · exact inside
        · exact seenBefore
    · have unseen : s ∉ done := by
        intro inside
        exact known ((contains_iff _ _).mpr ((marks s).mpr inside))
      refine ih ?_ (sofar.fresh unseen) within' success
      intro x
      rw [List.mem_cons, marks, List.mem_append, List.mem_singleton, or_comm]

theorem resolveRequestedScope_ok {binding : WorkloadBinding} {requested scope : List Bytes}
    (success : resolveRequestedScope (E := E) binding requested = .ok scope) :
    scope ≠ [] ∧ (∀ s ∈ scope, s ∈ binding.grantedScopes) ∧
      (requested = [] → scope = binding.grantedScopes) ∧ (requested ≠ [] → Kept requested scope) := by
  rw [resolveRequestedScope.eq_def] at success
  cases granted : binding.grantedScopes with
  | nil => rw [granted] at success; cases success
  | cons first others =>
    rw [granted] at success
    cases requested with
    | nil =>
      cases success
      exact ⟨List.cons_ne_nil _ _, fun s inside => inside, fun _ => rfl, fun some => absurd rfl some⟩
    | cons s requested =>
      have empty : Kept [] [] := ⟨List.nodup_nil, fun _ => Iff.rfl, List.Pairwise.nil⟩
      obtain ⟨kept, within⟩ := narrowScopes_kept (fun _ => Iff.rfl) empty nofun success
      refine ⟨?_, ?_, nofun, fun _ => kept⟩
      · rintro rfl
        exact absurd ((kept.same s).mpr (List.mem_cons_self ..)) List.not_mem_nil
      · intro x inside
        exact within x ((kept.same x).mp inside)

/-! ## The lifetime that the verifier will read -/

variable {folding : CaseFolding} {raw : Bytes}

/-- The tables of case folding decide what is refused, not what is read. -/
theorem decodeObject_agree {folding' : CaseFolding} {object object' : RawObject}
    (read : decodeObject folding raw = some object)
    (read' : decodeObject folding' raw = some object') : object = object' := by
  rw [decodeObject] at read read'
  split_ifs at read read'
  rw [read] at read'
  exact Option.some.inj read'

theorem parseWorkloadClaims_reads {claims : WorkloadClaims}
    (parsed : parseWorkloadClaims folding raw = some claims) :
    ∃ object, decodeObject folding raw = some object ∧
      numericDate object (ascii "iat") = some claims.issuedAt ∧
      numericDate object (ascii "exp") = some claims.expiresAt := by
  simp only [parseWorkloadClaims, Option.bind_eq_bind, Option.bind_eq_some_iff,
    Option.pure_def, Option.some.injEq] at parsed
  obtain ⟨object, read, -, -, -, -, -, -, -, -, -, -, -, -, -, -, -, -, iat, iatRead, nbf, -, exp,
    expRead, -, -, rfl⟩ := parsed
  exact ⟨object, read, iatRead, expRead⟩

theorem WorkloadVerifier.verify_parsed {platform : Platform} {v : WorkloadVerifier} {token : Bytes}
    {now : Time} {claims : WorkloadClaims} (accepted : v.verify platform token now = .ok claims) :
    ∃ header payload signature raw, splitCompact token = some (header, payload, signature) ∧
      rawURLDecode true payload = some raw ∧
      parseWorkloadClaims platform.folding raw = some claims := by
  simp only [WorkloadVerifier.verify, bind_ok, obtainOr_ok, pure_ok, Prod.exists] at accepted
  obtain ⟨h, q, s, split, -, -, raw, decoded, -, -, claims, parsed, -, -, -, -, -, -, -, -, -, -, -,
    -, -, -, -, -, -, rfl⟩ := accepted
  exact ⟨h, q, s, raw, split, decoded, parsed⟩

theorem checkIssuedLifetime_ok {issued : IssuedToken} {issuedAt expiresAt : Time}
    (checked : checkIssuedLifetime (E := E) folding issued = .ok (issuedAt, expiresAt)) :
    issued.issuedAt = some issuedAt ∧ issued.expiresAt = some expiresAt ∧
      ∀ header payload signature, splitCompact issued.token = some (header, payload, signature) →
        tokenLifetimeClaims folding payload = some (issuedAt.unixSeconds, expiresAt.unixSeconds) ∧
          expiresAt.unixSeconds - issuedAt.unixSeconds ≤ workloadLifetimeCeiling := by
  rw [checkIssuedLifetime.eq_def] at checked
  cases issuedAtRead : issued.issuedAt with
  | none =>
    rw [issuedAtRead] at checked
    cases checked
  | some a =>
    cases expiresAtRead : issued.expiresAt with
    | none =>
      rw [issuedAtRead, expiresAtRead] at checked
      cases checked
    | some b =>
      simp only [issuedAtRead, expiresAtRead] at checked
      cases after : b.after a with
      | false =>
        rw [after] at checked
        cases checked
      | true =>
        simp only [after, Bool.not_true, Bool.false_eq_true, if_false] at checked
        cases parts : splitCompact issued.token with
        | none =>
          simp only [parts] at checked
          split_ifs at checked
          cases checked
          exact ⟨rfl, rfl, nofun⟩
        | some split =>
          obtain ⟨h, q, s⟩ := split
          simp only [parts] at checked
          cases dates : tokenLifetimeClaims folding q with
          | none =>
            rw [dates] at checked
            cases checked
          | some claimed =>
            obtain ⟨iat, exp⟩ := claimed
            simp only [dates] at checked
            split_ifs at checked with long mismatch
            cases checked
            simp only [not_or, not_not] at mismatch
            obtain ⟨rfl, rfl⟩ := mismatch
            refine ⟨rfl, rfl, ?_⟩
            intro header payload signature same
            cases same
            exact ⟨dates, not_lt.mp long⟩

/-- The dates that a verifier accepts in an issued token are those the issuer told, for the
check of the lifetime has read them from the same bytes. -/
theorem checkIssuedLifetime_agrees {issued : IssuedToken} {issuedAt expiresAt : Time}
    (checked : checkIssuedLifetime (E := E) folding issued = .ok (issuedAt, expiresAt))
    {platform : Platform} {v : WorkloadVerifier} {now : Time} {claims : WorkloadClaims}
    (accepted : v.verify platform issued.token now = .ok claims) :
    claims.issuedAt = issuedAt.unixSeconds ∧ claims.expiresAt = expiresAt.unixSeconds ∧
      1 ≤ claims.expiresAt - claims.issuedAt ∧ claims.expiresAt - claims.issuedAt ≤ 300 := by
  obtain ⟨header, payload, signature, raw, split, decoded, parsed⟩ := v.verify_parsed accepted
  obtain ⟨object, read, iatRead, expRead⟩ := parseWorkloadClaims_reads parsed
  obtain ⟨-, -, told⟩ := checkIssuedLifetime_ok checked
  obtain ⟨claimed, lifetime⟩ := told header payload signature split
  simp only [tokenLifetimeClaims, decoded, Option.bind_eq_bind, Option.bind_some,
    Option.bind_eq_some_iff, Option.guard_eq_some', Option.pure_def, Option.some.injEq,
    Prod.mk.injEq] at claimed
  obtain ⟨object', read', iat, iatRead', exp, expRead', -, positive, rfl, rfl⟩ := claimed
  have same := decodeObject_agree read read'
  subst same
  rw [iatRead] at iatRead'
  rw [expRead] at expRead'
  have sameIat := Option.some.inj iatRead'
  have sameExp := Option.some.inj expRead'
  simp only [workloadLifetimeCeiling] at lifetime
  exact ⟨sameIat, sameExp, by omega, by omega⟩

/-! ## The exchange -/

/-- A result of the exchange is what the outside granted: the scope is that of the resolved
binding or the requested part of it, the issuer was asked for this scope, and a verifier
that accepts the token reads the dates the issuer told. -/
def WithinGrant (seams : Seams W E) (subjectToken : Bytes) (requestedScope : List Bytes) (w : W)
    (result : WorkloadTokenExchangeResult) : Prop :=
  ∃ identity binding issued issuedAt expiresAt w₁ w₂ w₃,
    seams.validate subjectToken w = (.ok identity, w₁) ∧
    seams.resolve identity w₁ = (.ok binding, w₂) ∧
    seams.issue binding result.scope identity.expiresAt w₂ = (.ok issued, w₃) ∧
    result.accessToken = issued.token ∧ issued.issuedAt = some issuedAt ∧
    issued.expiresAt = some expiresAt ∧
    (result.scope ≠ [] ∧ (∀ s ∈ result.scope, s ∈ binding.grantedScopes) ∧
      (requestedScope = [] → result.scope = binding.grantedScopes) ∧
      (requestedScope ≠ [] → Kept requestedScope result.scope)) ∧
    ∀ (platform : Platform) (v : WorkloadVerifier) (now : Time) (claims : WorkloadClaims),
      v.verify platform result.accessToken now = .ok claims →
        claims.issuedAt = issuedAt.unixSeconds ∧ claims.expiresAt = expiresAt.unixSeconds ∧
          1 ≤ claims.expiresAt - claims.issuedAt ∧ claims.expiresAt - claims.issuedAt ≤ 300

theorem exchange_within_grant (folding : CaseFolding) (seams : Seams W E) (subjectToken : Bytes)
    (requestedScope : List Bytes) (w w' : W) (result : WorkloadTokenExchangeResult)
    (success : exchange folding seams subjectToken requestedScope w = (.ok result, w')) :
    WithinGrant seams subjectToken requestedScope w result := by
  rw [exchange] at success
  split at success
  · cases success
  rename_i identity w₁ validated
  split at success
  · cases success
  rename_i binding w₂ resolved
  split at success
  · cases success
  rename_i scope narrowed
  split at success
  · cases success
  rename_i issued w₃ issue
  split at success
  · cases success
  rename_i issuedAt expiresAt checked
  cases success
  obtain ⟨issuedAtRead, expiresAtRead, -⟩ := checkIssuedLifetime_ok checked
  exact ⟨identity, binding, issued, issuedAt, expiresAt, w₁, w₂, w₃, validated, resolved, issue, rfl,
    issuedAtRead, expiresAtRead, resolveRequestedScope_ok narrowed,
    fun _ _ _ _ accepted => checkIssuedLifetime_agrees checked accepted⟩

def mintedToken : Bytes :=
  rawURLEncode (ascii "\x7b\"alg\":\"EdDSA\",\"typ\":\"workload+jwt\",\"kid\":\"k1\"\x7d") ++ ascii "." ++
  rawURLEncode (ascii "\x7b\"iss\":\"https://a\",\"aud\":\"auth-service\",\"sub\":\"prn_a\",\"principal_type\":\"workload\"," ++
    ascii "\"jti\":\"aaaaaaaaaaaaaaaaaaaaaa\",\"iat\":1000,\"nbf\":1000,\"exp\":1300\x7d") ++
  ascii "." ++ rawURLEncode (List.replicate 64 0)

/-- An outside that grants three scopes and keeps those the issuer was asked for. -/
def grantingSeams : Seams (List (List Bytes)) Unit where
  validate _ w := (.ok ⟨[], [], [], [], Time.unix 5000⟩, w)
  resolve _ w := (.ok ⟨[], [], [ascii "a", ascii "b", ascii "c"], []⟩, w)
  issue _ scope _ w := (.ok ⟨mintedToken, some (Time.unix 1000), some (Time.unix 1300)⟩, w ++ [scope])
  now w := (Time.unix 1010, w)

theorem mintedToken_within_grant :
    WithinGrant grantingSeams (ascii "s") [ascii "b", ascii "a", ascii "b"] []
      ⟨mintedToken, 290, [ascii "b", ascii "a"]⟩ := by
  apply exchange_within_grant ⟨asciiLower, fun _ _ _ _ => Iff.rfl⟩ grantingSeams _ _ _
    [[ascii "b", ascii "a"]]
  decide +kernel

end DevHealth.Authverify

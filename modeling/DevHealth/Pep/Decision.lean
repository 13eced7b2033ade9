import DevHealth.Go.Time
import DevHealth.Repokey

/-! # The decision of the policy enforcement point

The value a decider hands out: a verdict of the decision point, or a deny that
the client made itself.  The zero value denies.  An allowed decision comes only
from `fromWire`, which ties the verdict to an allow reason. -/
set_option autoImplicit false
namespace DevHealth.Pep

open Go

inductive Reason where
  | allowedByMembershipDefault
  | allowedByRepositoryGrant
  | allowedByRole
  | allowedByPlatformAdmin
  | delegationInvalid
  | grantAbsent
  | grantExpired
  | grantRevoked
  | impersonationDenied
  | invalidRequest
  | membershipInactive
  | noMembership
  | orgMismatch
  | organizationInactive
  | platformRoleAbsent
  | principalInactive
  | repositoryAllowlistTooLarge
  | repositoryNotGranted
  | resourceMismatch
  | roleLacksAction
  | roleScopeMismatch
  | roleUnknown
  | serviceAccountInactive
  | unknownAction
  | workloadActionDenied
  | workloadAudienceDenied
  | unreachable
  | timeout
  | canceled
  | unavailable
  | rateLimited
  | refused
  | malformed
  | tooLarge
  | mismatch
  | unknownObligation
  | localInvalid
  | notConfigured
  | noDecision
  deriving DecidableEq, Repr

namespace Reason

/-- The text of the reason, on the wire or in a local deny. -/
def code : Reason → String
  | allowedByMembershipDefault => "allowed_by_membership_default"
  | allowedByRepositoryGrant => "allowed_by_repository_grant"
  | allowedByRole => "allowed_by_role"
  | allowedByPlatformAdmin => "allowed_by_platform_admin"
  | delegationInvalid => "delegation_invalid"
  | grantAbsent => "grant_absent"
  | grantExpired => "grant_expired"
  | grantRevoked => "grant_revoked"
  | impersonationDenied => "impersonation_denied"
  | invalidRequest => "invalid_request"
  | membershipInactive => "membership_inactive"
  | noMembership => "no_membership"
  | orgMismatch => "org_mismatch"
  | organizationInactive => "organization_inactive"
  | platformRoleAbsent => "platform_role_absent"
  | principalInactive => "principal_inactive"
  | repositoryAllowlistTooLarge => "repository_allowlist_too_large"
  | repositoryNotGranted => "repository_not_granted"
  | resourceMismatch => "resource_mismatch"
  | roleLacksAction => "role_lacks_action"
  | roleScopeMismatch => "role_scope_mismatch"
  | roleUnknown => "role_unknown"
  | serviceAccountInactive => "service_account_inactive"
  | unknownAction => "unknown_action"
  | workloadActionDenied => "workload_action_denied"
  | workloadAudienceDenied => "workload_audience_denied"
  | unreachable => "pdp_unreachable"
  | timeout => "pdp_timeout"
  | canceled => "pdp_canceled"
  | unavailable => "pdp_unavailable"
  | rateLimited => "pdp_rate_limited"
  | refused => "pdp_refused"
  | malformed => "pdp_malformed"
  | tooLarge => "pdp_too_large"
  | mismatch => "pdp_mismatch"
  | unknownObligation => "pdp_unknown_obligation"
  | localInvalid => "pdp_invalid_request"
  | notConfigured => "pdp_not_configured"
  | noDecision => "pdp_no_decision"

/-- `len(r) > 4 && r[:4] == "pdp_"` -/
def isLocal (r : Reason) : Bool :=
  decide (4 < (ascii r.code).length) && decide ((ascii r.code).take 4 = ascii "pdp_")

end Reason

def wireReasons : List Reason :=
  [.allowedByMembershipDefault, .allowedByRepositoryGrant, .allowedByRole,
    .delegationInvalid, .grantAbsent, .grantExpired, .grantRevoked, .impersonationDenied,
    .invalidRequest, .membershipInactive, .noMembership, .orgMismatch, .organizationInactive,
    .platformRoleAbsent, .principalInactive, .repositoryAllowlistTooLarge, .repositoryNotGranted,
    .resourceMismatch, .roleLacksAction, .roleScopeMismatch, .roleUnknown,
    .serviceAccountInactive, .unknownAction, .workloadActionDenied, .workloadAudienceDenied]

def acceptAheadReasons : List Reason := [.allowedByPlatformAdmin]

/-- The allow reasons, `allowReasons` of the client and `allowReason` of the
decision package: the two list the same four. -/
def allowReason (r : Reason) : Bool :=
  r == .allowedByMembershipDefault || r == .allowedByRepositoryGrant || r == .allowedByRole ||
    r == .allowedByPlatformAdmin

def wireReason (s : Bytes) : Option Reason :=
  match wireReasons.find? fun w => ascii w.code == s with
  | some r => some r
  | none => acceptAheadReasons.find? fun w => ascii w.code == s

structure Error where
  reason : Reason
  status : Nat
  deriving DecidableEq, Repr

def fail (r : Reason) : Error := ⟨r, 0⟩

/-- `err` of a decision: the client's own error or one of the two errors of the
decision package. -/
inductive Cause where
  | client (e : Error)
  | noDecision
  | inconsistent
  deriving DecidableEq, Repr

/-! ## Obligations -/

def scopeOrganization : Bytes := ascii "organization"

structure Obligations where
  granted : Bool
  tenant : Bytes
  hasTenant : Bool
  allowlist : List Bytes
  hasAllowlist : Bool
  scope : Bytes
  redaction : List Bytes
  assurance : Bytes
  hasAssurance : Bool
  stepUp : Bool
  deriving DecidableEq, Repr

def Obligations.zero : Obligations := ⟨false, [], false, [], false, [], [], [], false, false⟩

/-- `Allowlist` is `none` for the nil slice: the absent member. -/
structure ObligationSpec where
  tenant : Bytes
  scope : Bytes
  allowlist : Option (List Bytes)
  redaction : List Bytes
  assurance : Bytes
  stepUp : Bool
  deriving DecidableEq, Repr

def ObligationSpec.zero : ObligationSpec := ⟨[], [], none, [], [], false⟩

def newObligations (s : ObligationSpec) : Obligations :=
  { granted := true
    tenant := s.tenant
    hasTenant := s.tenant != []
    allowlist := s.allowlist.getD []
    hasAllowlist := s.allowlist.isSome
    scope := s.scope
    redaction := s.redaction
    assurance := s.assurance
    hasAssurance := s.assurance != []
    stepUp := s.stepUp }

def assuranceRank (a : Bytes) : Nat :=
  if a = ascii "aal1" then 1
  else if a = ascii "aal2" then 2
  else if a = ascii "aal3" then 3
  else 0

namespace Obligations

def tenantAllows (o : Obligations) (org : Bytes) : Bool :=
  if !o.granted || org == [] then false
  else !o.hasTenant || o.tenant == org

def repositoryAllowed (o : Obligations) (key : Bytes) : Bool :=
  if !o.granted || !Repokey.validSlug key then false
  else if o.scope = scopeOrganization then true
  else o.allowlist.any fun k => k == ascii "*" || k == key

def assuranceSatisfiedBy (o : Obligations) (level : Bytes) : Bool :=
  if !o.granted || assuranceRank level == 0 then false
  else !o.hasAssurance || decide (assuranceRank o.assurance ≤ assuranceRank level)

theorem checks_of_not_granted (o : Obligations) (absent : o.granted = false) :
    (∀ org, o.tenantAllows org = false) ∧ (∀ key, o.repositoryAllowed key = false) ∧
      ∀ level, o.assuranceSatisfiedBy level = false := by
  simp [tenantAllows, repositoryAllowed, assuranceSatisfiedBy, absent]

end Obligations

/-! ## Decisions -/

/-- `reason` is `none` for the empty text of the zero value. -/
structure Decision where
  allowed : Bool
  reason : Option Reason
  err : Option Cause
  decisionID : Bytes
  principalID : Bytes
  organization : Bytes
  hasOrg : Bool
  policyRevision : Nat
  expiresAt : Time
  cacheable : Bool
  obligations : Obligations
  deriving DecidableEq, Repr

def Decision.zero : Decision :=
  { allowed := false, reason := none, err := none, decisionID := [], principalID := []
    organization := [], hasOrg := false, policyRevision := 0, expiresAt := Time.zero
    cacheable := false, obligations := Obligations.zero }

structure Wire where
  allowed : Bool
  reason : Reason
  decisionID : Bytes
  principalID : Bytes
  organization : Bytes
  hasOrg : Bool
  policyRevision : Nat
  expiresAt : Time
  cacheable : Bool
  obligations : Obligations
  deriving DecidableEq, Repr

/-- `decision.Local`: a deny the client made itself. -/
def localDeny (r : Reason) (err : Cause) : Decision :=
  { Decision.zero with reason := some r, err := some err }

def fromWire (w : Wire) : Decision :=
  if w.allowed != allowReason w.reason then localDeny .malformed .inconsistent
  else
    { allowed := w.allowed
      reason := some w.reason
      err := none
      decisionID := w.decisionID
      principalID := w.principalID
      organization := w.organization
      hasOrg := w.hasOrg
      policyRevision := w.policyRevision
      expiresAt := w.expiresAt
      cacheable := w.cacheable
      obligations := if w.allowed then w.obligations else Obligations.zero }

def deny (e : Error) : Decision := localDeny e.reason (.client e)

namespace Decision

/-- `Reason()`: the zero decision reports `pdp_no_decision`. -/
def reasonOf (d : Decision) : Reason := d.reason.getD .noDecision

def isLocal (d : Decision) : Bool := d.reasonOf.isLocal

def errOf (d : Decision) : Option Cause :=
  match d.reason with
  | none => some .noDecision
  | some _ => d.err

/-- A PDP verdict that a cache may store. -/
def storable (d : Decision) : Bool := d.allowed && d.cacheable

end Decision

@[simp] theorem deny_allowed (e : Error) : (deny e).allowed = false := rfl
end DevHealth.Pep

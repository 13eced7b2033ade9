import DevHealth.Go.JsonMembers
import DevHealth.Lib.Fallible
import DevHealth.Pep.Request
import DevHealth.Pep.Strict

/-! # Decision documents

The readers of a decision and of a batch of decisions.  Every check that fails
refuses the document with the reason the source gives; a decision is built only
from a document that passed them all. -/
set_option autoImplicit false
namespace DevHealth.Pep

open Go Lib

def decisionSchema : Bytes := ascii "authorization_decision.v1"
def batchSchema : Bytes := ascii "authorization_batch_response.v1"
def maxRepositoryAllowlist : Nat := 256

/-- `^dec_[A-Za-z0-9_-]{26}$` -/
def decisionIDPattern : Regex UInt8 := .seq (.lit (ascii "dec_")) (.exactly idByte 26)

/-- `^prn_[A-Za-z0-9_-]+$` -/
def principalIDPattern : Regex UInt8 := .seq (.lit (ascii "prn_")) (.plus idByte)

def obligationNames : List Bytes :=
  [ascii "tenant_scope", ascii "repository_allowlist", ascii "repository_scope",
    ascii "redaction", ascii "minimum_assurance", ascii "step_up"]

def redactionClasses : List Bytes :=
  [ascii "personal_identifiers", ascii "contact_details", ascii "free_text"]

def assuranceLevels : List Bytes := [ascii "aal1", ascii "aal2", ascii "aal3"]

def asObject (raw : RawMessage) : Option RawObject :=
  let trimmed := trimSpace raw
  if trimmed.head? = some 0x7B then unmarshalObject trimmed else none

def asArray (raw : RawMessage) : Option (List RawMessage) :=
  let trimmed := trimSpace raw
  if trimmed.head? = some 0x5B then unmarshalArray trimmed else none

def asString (raw : RawMessage) : Option Bytes :=
  let trimmed := trimSpace raw
  if trimmed.head? = some 0x22 then unmarshalString trimmed else none

def asBool (raw : RawMessage) : Option Bool :=
  if trimSpace raw = ascii "true" then some true
  else if trimSpace raw = ascii "false" then some false
  else none

/-- `o[name]`, nil for a member that is not there. -/
def member (o : RawObject) (name : Bytes) : RawMessage := (o.get name).getD []

def keysWithin (o : RawObject) (required optional : List Bytes) : Bool :=
  required.all (fun k => (o.get k).isSome) &&
    o.keys.all fun k => contains required k || contains optional k

/-! ## Refusals -/

def require (holds : Bool) (r : Reason) : Except Error Unit := ensure holds (fail r)

def need {α : Type} (found : Option α) (r : Reason) : Except Error α := obtainOr found (fail r)

def optionally {α : Type} (raw : Option RawMessage) (absent : α)
    (read : RawMessage → Except Error α) : Except Error α :=
  match raw with
  | none => .ok absent
  | some raw => read raw

@[simp] theorem require_ok {holds : Bool} {r : Reason} {u : Unit} :
    require holds r = .ok u ↔ holds = true := ensure_ok

@[simp] theorem need_ok {α : Type} {found : Option α} {r : Reason} {a : α} :
    need found r = .ok a ↔ found = some a := obtainOr_ok

/-! ## Obligations -/

def readTenant (raw : RawMessage) : Except Error Bytes := do
  let s ← need (asString raw) .malformed
  require (s != []) .malformed
  return s

def readScope (raw : RawMessage) : Except Error Bytes := do
  let s ← need (asString raw) .malformed
  require (s == scopeOrganization) .unknownObligation
  return scopeOrganization

/-- The loop over an array of strings, each checked against those before it. -/
def stringsLoop (check : List Bytes → Bytes → Except Error Unit) :
    List RawMessage → List Bytes → Except Error (List Bytes)
  | [], seen => .ok seen
  | item :: items, seen => do
      let s ← need (asString item) .malformed
      check seen s
      stringsLoop check items (seen ++ [s])

def checkRepository (seen : List Bytes) (s : Bytes) : Except Error Unit :=
  require (Repokey.valid s && !contains seen s) .malformed

def checkRedaction (seen : List Bytes) (s : Bytes) : Except Error Unit := do
  require (!contains seen s) .malformed
  require (contains redactionClasses s) .unknownObligation

def readAllowlist (raw : RawMessage) : Except Error (Option (List Bytes)) := do
  let items ← need (asArray raw) .malformed
  require (decide (items.length ≤ maxRepositoryAllowlist)) .malformed
  let list ← stringsLoop checkRepository items []
  return some list

def readRedaction (raw : RawMessage) : Except Error (List Bytes) := do
  let items ← need (asArray raw) .malformed
  stringsLoop checkRedaction items []

def readAssurance (raw : RawMessage) : Except Error Bytes := do
  let s ← need (asString raw) .malformed
  require (contains assuranceLevels s) .unknownObligation
  return s

def readStepUp (raw : RawMessage) : Except Error Bool := need (asBool raw) .malformed

def decodeObligations (raw : RawMessage) : Except Error Obligations := do
  let o ← need (asObject raw) .malformed
  require (o.keys.all (contains obligationNames)) .unknownObligation
  let tenant ← optionally (o.get (ascii "tenant_scope")) [] readTenant
  let hasScope := (o.get (ascii "repository_scope")).isSome
  let hasList := (o.get (ascii "repository_allowlist")).isSome
  require (!(hasScope && hasList)) .malformed
  let scope ← optionally (o.get (ascii "repository_scope")) [] readScope
  let allowlist ← optionally (o.get (ascii "repository_allowlist")) none readAllowlist
  let redaction ← optionally (o.get (ascii "redaction")) [] readRedaction
  let assurance ← optionally (o.get (ascii "minimum_assurance")) [] readAssurance
  let stepUp ← optionally (o.get (ascii "step_up")) false readStepUp
  return newObligations ⟨tenant, scope, allowlist, redaction, assurance, stepUp⟩

/-! ## Decisions -/

def requiredMembers : List Bytes :=
  [ascii "schema_version", ascii "decision_id", ascii "allowed", ascii "reason_code",
    ascii "principal_id", ascii "organization_id", ascii "policy_revision", ascii "expires_at"]

def readPattern (pattern : Regex UInt8) (raw : RawMessage) : Except Error Bytes := do
  let s ← need (asString raw) .malformed
  require (pattern.accepts s) .malformed
  return s

/-- `none` for the token `null`. -/
def readOrganization (raw : RawMessage) : Except Error (Option Bytes) :=
  if trimSpace raw = ascii "null" then .ok none
  else do
    let s ← need (asString raw) .malformed
    require (s != []) .malformed
    return some s

def readReason (allowed : Bool) (raw : RawMessage) : Except Error Reason := do
  let code ← need (asString raw) .malformed
  let reason ← need (wireReason code) .malformed
  require (allowed == allowReason reason) .malformed
  return reason

def readExpiry (raw : RawMessage) : Except Error Time := do
  let s ← need (asString raw) .malformed
  need (parseExpiry s) .malformed

def readObligations (allowed : Bool) : Option RawMessage → Except Error Obligations
  | some raw => do
      require allowed .malformed
      decodeObligations raw
  | none => .ok (if allowed then newObligations ObligationSpec.zero else Obligations.zero)

/-- The checks of `decodeDecision`, in its order. -/
def decodeWire (o : RawObject) (req : Request) (now : Time) : Except Error Wire := do
  require (keysWithin o requiredMembers [ascii "obligations"]) .malformed
  require (asString (member o (ascii "schema_version")) == some decisionSchema) .malformed
  let decisionID ← readPattern decisionIDPattern (member o (ascii "decision_id"))
  let allowed ← need (asBool (member o (ascii "allowed"))) .malformed
  let reason ← readReason allowed (member o (ascii "reason_code"))
  let principalID ← readPattern principalIDPattern (member o (ascii "principal_id"))
  let organization ← readOrganization (member o (ascii "organization_id"))
  let revision ← need (parseRevision (trimSpace (member o (ascii "policy_revision")))) .malformed
  let expiresAt ← readExpiry (member o (ascii "expires_at"))
  let obligations ← readObligations allowed (o.get (ascii "obligations"))
  require (organization.isSome == (req.organizationID != []) &&
    (organization.isNone || organization == some req.organizationID)) .mismatch
  return { allowed := allowed, reason := reason, decisionID := decisionID
           principalID := principalID, organization := organization.getD []
           hasOrg := organization.isSome, policyRevision := revision, expiresAt := expiresAt
           cacheable := expiresAt.after now, obligations := obligations }

def decodeDecision (o : RawObject) (req : Request) (now : Time) : Decision :=
  match decodeWire o req now with
  | .ok w => fromWire w
  | .error e => deny e

def parseDecision (body : Bytes) (req : Request) (now : Time) : Decision :=
  if rejectDuplicates body then deny (fail .malformed)
  else
    match asObject body with
    | none => deny (fail .malformed)
    | some o => decodeDecision o req now

/-! ## Batches -/

/-- The first pass over one element: its index and the members of its decision. -/
def readEntry (item : RawMessage) : Option (Nat × RawObject) := do
  let entry ← asObject item
  guard (keysWithin entry [ascii "index", ascii "decision"] [])
  let index ← parseRevision (trimSpace (member entry (ascii "index")))
  guard (index < maxBatch)
  let inner ← asObject (member entry (ascii "decision"))
  return (index, inner)

/-- The error of a local deny: its own, or malformed when it has none of the client's. -/
def localError (d : Decision) : Error :=
  match d.errOf with
  | some (.client e) => e
  | _ => fail .malformed

/-- The last pass: each element against the request at its position.  The first
local deny ends it. -/
def decodeEach (now : Time) : List RawObject → List Request → Except Error (List Decision)
  | inner :: inners, req :: reqs =>
    let d := decodeDecision inner req now
    if d.isLocal then .error (localError d)
    else (decodeEach now inners reqs).map (d :: ·)
  | _, _ => .ok []

def readBatch (body : Bytes) (reqs : List Request) (now : Time) : Except Error (List Decision) := do
  require (!rejectDuplicates body) .malformed
  let o ← need (asObject body) .malformed
  require (keysWithin o [ascii "schema_version", ascii "decisions"] []) .malformed
  require (asString (member o (ascii "schema_version")) == some batchSchema) .malformed
  let items ← need (asArray (member o (ascii "decisions"))) .malformed
  require (decide (0 < items.length) && decide (items.length ≤ maxBatch)) .malformed
  let entries ← need (items.mapM readEntry) .malformed
  require (decide (items.length = reqs.length)) .mismatch
  require (decide (entries.map Prod.fst = List.range entries.length)) .mismatch
  decodeEach now (entries.map Prod.snd) reqs

def parseBatch (body : Bytes) (reqs : List Request) (now : Time) : List Decision :=
  match readBatch body reqs now with
  | .ok out => out
  | .error e => denyAll e reqs.length

end DevHealth.Pep

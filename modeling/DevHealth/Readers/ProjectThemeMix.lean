import DevHealth.Readers.OwnershipExact
import DevHealth.Readers.TeamThemeMix

/-! # The theme mix of projects

`ReadProjectThemeMix`.  A work unit belongs to the projects that one of its issues is placed
in; a project is named by its id or by its key, and an issue can be placed in it more than
once.  The statement is modelled clause by clause up to its row limit, in exact arithmetic. -/
set_option autoImplicit false
namespace DevHealth.Readers

open Go Lib Lib.Relation Clickhouse Clickhouse.ByteOrder

/-- A row of `project_membership_presence`, which has no row without a project. -/
structure MembershipPresence where
  orgId : Bytes
  subjectKind : Bytes
  subjectId : Bytes
  projectId : Bytes
  repoId : Option Uuid
  deriving DecidableEq

/-- What a read is made over: the statement with its organization, ids and projects, and the other
tables.  `jsonExtract` is `JSONExtract(json, key, 'Array(String)')`. -/
structure ProjectThemeRead extends Statement where
  investments : Investments
  presence : List MembershipPresence
  jsonExtract : Bytes → Bytes → List Bytes
  bound : TimeBound
  params : BoundParams

structure ItemProject where
  workItemId : Bytes
  projectId : Bytes
  multiPlaced : Nat
  deriving DecidableEq

structure UnitProject where
  workUnitId : Bytes
  projectId : Bytes
  multiPlaced : Nat
  deriving DecidableEq

structure ResolvedUnit where
  projectProvider : Bytes
  projectId : Bytes
  workUnitId : Bytes
  multiPlaced : Nat
  deriving DecidableEq

structure UnitSpan where
  workUnitId : Bytes
  projectCount : Nat
  deriving DecidableEq

structure ProjectThemeMixRow where
  projectSubjectKey : Bytes
  featureDelivery : Rat
  operational : Rat
  maintenance : Rat
  quality : Rat
  risk : Rat
  bugfixWeighted : Rat
  workUnits : Nat
  spanningUnits : Nat
  multiPlacedUnits : Nat
  deriving DecidableEq

def sumProject (key : Bytes × Bytes) (rows : List ((ResolvedUnit × WorkUnit) × Option UnitSpan)) :
    ProjectThemeMixRow where
  projectSubjectKey := subject key.1 key.2
  featureDelivery := (rows.map fun r => r.1.2.themeDistribution.at (ascii "feature_delivery")).sum
  operational := (rows.map fun r => r.1.2.themeDistribution.at (ascii "operational")).sum
  maintenance := (rows.map fun r => r.1.2.themeDistribution.at (ascii "maintenance")).sum
  quality := (rows.map fun r => r.1.2.themeDistribution.at (ascii "quality")).sum
  risk := (rows.map fun r => r.1.2.themeDistribution.at (ascii "risk")).sum
  bugfixWeighted := (rows.map fun r => r.1.2.subcategoryDistribution.at bugfixSubcategoryKey).sum
  workUnits := rows.length
  spanningUnits := rows.countP fun r => decide (1 < (r.2.map UnitSpan.projectCount).getD 0)
  multiPlacedUnits := rows.countP fun r => decide (r.1.1.multiPlaced = 1)

namespace ProjectThemeRead

variable (q : ProjectThemeRead)

def latestUnits : List WorkUnit :=
  groupBy (fun r => r.workUnitId) latestColumns (q.investments.ofOrg q.orgID)

def windowed : List WorkUnit := q.latestUnits.filter fun w => q.bound.passesRange q.params w.fromTs w.toTs

def issues (w : WorkUnit) : List Bytes := q.jsonExtract w.structuralEvidence (ascii "issues")

def unitIssue : List (Bytes × Bytes) :=
  q.windowed.flatMap fun w => (q.issues w).map fun issueRef => (w.workUnitId, issueRef)

def placements : List MembershipPresence :=
  q.presence.filter fun m => m.orgId = q.orgID ∧ m.subjectKind = ascii "work_item"

/-- `uniqExact(repo_id) OVER (PARTITION BY subject_id)`, which skips NULL. -/
def repoCount (item : Bytes) : Nat :=
  ((q.placements.filter fun m => m.subjectId = item).filterMap MembershipPresence.repoId).dedup.length

/-- `toUInt8(repo_count > 1)` -/
def multiPlacedOf (item : Bytes) : Nat := if 1 < q.repoCount item then 1 else 0

def itemProject : List ItemProject :=
  q.placements.map fun m => ⟨m.subjectId, m.projectId, q.multiPlacedOf m.subjectId⟩

def unitProject : List UnitProject :=
  (innerJoin (fun ui (ip : ItemProject) => decide (ip.workItemId = ui.2)) q.unitIssue q.itemProject).map
    fun row => ⟨row.1.1, row.2.projectId, row.2.multiPlaced⟩

def touched : List ResolvedUnit :=
  (innerJoin (fun (p : IdentityScope) (up : UnitProject) => decide (up.projectId = p.scope))
    (projectIdentityCatalogSQL q.toStatement) q.unitProject).map
    fun row => ⟨row.1.provider, row.1.id, row.2.workUnitId, row.2.multiPlaced⟩

def resolved : List ResolvedUnit :=
  groupBy (fun r => (r.projectProvider, r.projectId, r.workUnitId))
    (fun k rows => ⟨k.1, k.2.1, k.2.2, ((rows.map ResolvedUnit.multiPlaced).max?).getD 0⟩) q.touched

def unitSpan : List UnitSpan :=
  groupBy ResolvedUnit.workUnitId
    (fun unit rows => ⟨unit, (rows.map fun r => (r.projectProvider, r.projectId)).dedup.length⟩) q.resolved

def attributed : List ResolvedUnit :=
  q.resolved.filter fun r => subject r.projectProvider r.projectId ∈ q.ids

/-- The attributed units with their columns and their spans. -/
def counted : List ((ResolvedUnit × WorkUnit) × Option UnitSpan) :=
  leftJoin (fun row (span : UnitSpan) => decide (span.workUnitId = row.1.workUnitId))
    (innerJoin (fun (a : ResolvedUnit) (w : WorkUnit) => decide (w.workUnitId = a.workUnitId)) q.attributed q.windowed)
    q.unitSpan

def projectThemeMix : List ProjectThemeMixRow :=
  groupBy (fun r => (r.1.1.projectProvider, r.1.1.projectId)) sumProject q.counted

end ProjectThemeRead

end DevHealth.Readers

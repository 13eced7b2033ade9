import DevHealth.Clickhouse.Order
import DevHealth.Lib.Window
import DevHealth.Readers.IdentityLaws
import Mathlib.Data.Prod.Lex
import Mathlib.Data.Rat.Defs

/-! # The rows a project and a team are served

`ReadProjectReadiness`, `ReadProjectWorkload` and `ReadTeamCompletionForecasts`.  Each keeps
the latest row of a partition, orders its output and cuts it at a limit; what the cut keeps
is a matter of the data alone when no two different rows are equal in the order.  A team
may be NULL, and is then served as an empty string beside a flag.  Dates and times stand as
numbers: `toString` tells them apart. -/
set_option autoImplicit false
namespace DevHealth.Readers

open Go Lib Lib.Sql Lib.Relation Clickhouse Clickhouse.ByteOrder

/-! ## Tables -/

/-- A row of `estimate_coverage_metrics_daily`. -/
structure EstimateCoverage where
  orgId : Bytes
  day : Int
  provider : Bytes
  workScopeId : Bytes
  teamId : Option Bytes
  estimatedCount : Nat
  unestimatedCount : Nat
  backlogSize : Nat
  ratio : Option Rat
  computedAt : Int
  deriving DecidableEq

/-- A row of `capacity_forecasts`. -/
structure CapacityForecast where
  orgId : Bytes
  forecastId : Bytes
  computedAt : Int
  teamId : Option Bytes
  workScopeId : Option Bytes
  backlogSize : Nat
  targetItems : Option Nat
  simulationCount : Nat
  p50Days : Option Nat
  p85Days : Option Nat
  p95Days : Option Nat
  p50Date : Option Int
  p85Date : Option Int
  p95Date : Option Int
  throughputMean : Rat
  throughputStddev : Rat
  insufficientHistory : Nat
  highVariance : Nat
  completionDaysValues : List Nat
  completionDaysCounts : List Nat
  deriving DecidableEq

structure Team where
  orgId : Bytes
  id : Bytes
  name : Bytes
  deriving DecidableEq

def EstimateCoverage.sortingKey (e : EstimateCoverage) : Bytes × Int × Bytes × Bytes × Bytes :=
  (e.orgId, e.day, e.provider, e.workScopeId, e.teamId.getD [])

def CapacityForecast.sortingKey (f : CapacityForecast) : Bytes × Bytes := (f.orgId, f.forecastId)

def Team.sortingKey (t : Team) : Bytes × Bytes := (t.orgId, t.id)

/-- The tables the three statements read beside `projects`, as `FINAL` reads them. -/
structure ProjectTables where
  coverage : Keyed EstimateCoverage.sortingKey
  forecasts : Keyed CapacityForecast.sortingKey
  teams : Keyed Team.sortingKey

/-! ## The two project statements -/

/-- `cityHash64` of the value columns of a coverage row. -/
abbrev CoverageHash := Nat × Nat × Nat × Rat → Nat

/-- The column that a project identity is matched with. -/
def scopeRow (workScopeId : Option Bytes) : Row
  | .workScopeId => some (.ofOption .str workScopeId)
  | _ => none

/-- `isNotNull`, as a `UInt8`. -/
def flag {α : Type} (value : Option α) : Nat := if value.isSome then 1 else 0

section Statements

variable (s : Statement) (tables : ProjectTables) (b : TimeBound) (params : BoundParams)

/-- The rows of `estimate_coverage_metrics_daily` of the organization and the window. -/
def coverageSelected : List EstimateCoverage :=
  tables.coverage.rows.filter fun e => decide (e.orgId = s.orgID) && b.passesDay params e.day

def coverageRank (cityHash64 : CoverageHash) (e : EstimateCoverage) : Int ×ₗ Int ×ₗ Nat :=
  toLex (e.day, toLex (e.computedAt,
    cityHash64 (e.estimatedCount, e.unestimatedCount, e.backlogSize, e.ratio.getD (-1))))

def coverageNumbered (cityHash64 : CoverageHash) : List (EstimateCoverage × Nat) :=
  rowNumbers (fun e => (e.teamId, e.workScopeId, e.provider)) (coverageRank cityHash64)
    (coverageSelected s tables b params)

def forecastSelected : List CapacityForecast :=
  tables.forecasts.rows.filter fun f => decide (f.orgId = s.orgID) && b.passesTimestamp params f.computedAt

def forecastRank (f : CapacityForecast) : Int ×ₗ Bytes := toLex (f.computedAt, f.forecastId)

def forecastNumbered (rows : List CapacityForecast) : List (CapacityForecast × Nat) :=
  rowNumbers (fun f => (f.teamId, f.workScopeId)) forecastRank rows

def joinTeams {α : Type} (teamKey : α → Bytes) (rows : List α) : List (α × Option Team) :=
  leftJoin (fun x t => decide (t.id = teamKey x)) rows
    (tables.teams.rows.filter fun t => decide (t.orgId = s.orgID))

def projectReadiness (cityHash64 : CoverageHash) :
    List ((IdentityScope × EstimateCoverage × Nat) × Option Team) :=
  joinTeams s tables (fun x => x.2.1.teamId.getD [])
    (innerJoin
      (fun p ec => s.passes [(some .ec, scopeRow (some ec.1.workScopeId)), (some .p, p.get)]
        (projectIdentityMatchSQL .ec .workScopeId) && decide (ec.2 = 1))
      (projectIdentityJoinSQL s) (coverageNumbered s tables b params cityHash64))

def projectWorkload : List ((IdentityScope × CapacityForecast × Nat) × Option Team) :=
  joinTeams s tables (fun x => x.2.1.teamId.getD [])
    (innerJoin
      (fun p cf => s.passes [(some .cf, scopeRow cf.1.workScopeId), (some .p, p.get)]
        (projectIdentityMatchSQL .cf .workScopeId) && decide (cf.2 = 1))
      (projectIdentityJoinSQL s) (forecastNumbered (forecastSelected s tables b params)))

/-- The rows of the requested teams; a comparison with NULL is not true. -/
def teamCompletionForecasts (teamIDs : List Bytes) : List (CapacityForecast × Nat) :=
  (forecastNumbered ((forecastSelected s tables b params).filter fun f => f.teamId.any (· ∈ teamIDs))).filter
    fun row => row.2 = 1

end Statements

/-! ## Output rows and their order -/

structure ReadinessProjectRow where
  projectSubjectKey : Bytes
  hasTeam : Nat
  teamID : Bytes
  teamName : Bytes
  workScopeID : Bytes
  provider : Bytes
  day : Int
  estimatedCount : Nat
  unestimatedCount : Nat
  backlogSize : Nat
  hasRatio : Nat
  ratio : Rat
  deriving DecidableEq

def readinessRow : (IdentityScope × EstimateCoverage × Nat) × Option Team → ReadinessProjectRow
  | ((p, ec, _), t) =>
    { projectSubjectKey := subject p.provider p.id
      hasTeam := flag ec.teamId
      teamID := ec.teamId.getD []
      teamName := (t.map Team.name).getD []
      workScopeID := ec.workScopeId
      provider := ec.provider
      day := ec.day
      estimatedCount := ec.estimatedCount
      unestimatedCount := ec.unestimatedCount
      backlogSize := ec.backlogSize
      hasRatio := flag ec.ratio
      ratio := ec.ratio.getD 0 }

/-- `ORDER BY p.id, p.provider, ec.work_scope_id, ec.provider, ec.team_key` -/
def readinessOrder : (IdentityScope × EstimateCoverage × Nat) × Option Team →
    Bytes × Bytes × Bytes × Bytes × Bytes
  | ((p, ec, _), _) => (p.id, p.provider, ec.workScopeId, ec.provider, ec.teamId.getD [])

structure WorkloadProjectRow where
  projectSubjectKey : Bytes
  hasTeam : Nat
  teamID : Bytes
  teamName : Bytes
  workScopeID : Bytes
  throughputMean : Rat
  throughputStddev : Rat
  hasP50Days : Nat
  p50Days : Nat
  insufficientHistory : Nat
  highVariance : Nat
  backlogSize : Nat
  computedAt : Int
  deriving DecidableEq

def workloadRow : (IdentityScope × CapacityForecast × Nat) × Option Team → WorkloadProjectRow
  | ((p, cf, _), t) =>
    { projectSubjectKey := subject p.provider p.id
      hasTeam := flag cf.teamId
      teamID := cf.teamId.getD []
      teamName := (t.map Team.name).getD []
      workScopeID := cf.workScopeId.getD []
      throughputMean := cf.throughputMean
      throughputStddev := cf.throughputStddev
      hasP50Days := flag cf.p50Days
      p50Days := cf.p50Days.getD 0
      insufficientHistory := cf.insufficientHistory
      highVariance := cf.highVariance
      backlogSize := cf.backlogSize
      computedAt := cf.computedAt }

/-- `ORDER BY p.id, p.provider, cf.work_scope_id, cf.has_team, cf.team_key` -/
def workloadOrder : (IdentityScope × CapacityForecast × Nat) × Option Team →
    Bytes × Bytes × Option Bytes × Nat × Bytes
  | ((p, cf, _), _) => (p.id, p.provider, cf.workScopeId, flag cf.teamId, cf.teamId.getD [])

def completionDayBinLimit : Nat := 366

structure CompletionForecastRow where
  teamID : Bytes
  hasWorkScope : Nat
  workScopeID : Bytes
  computedAt : Int
  simulationCount : Nat
  backlogSize : Nat
  hasTargetItems : Nat
  targetItems : Nat
  hasP50Days : Nat
  p50Days : Nat
  hasP85Days : Nat
  p85Days : Nat
  hasP95Days : Nat
  p95Days : Nat
  p50Date : Option Int
  p85Date : Option Int
  p95Date : Option Int
  insufficientHistory : Nat
  highVariance : Nat
  completionDayBins : Nat
  completionCountBins : Nat
  completionDaysValues : List Nat
  completionDaysCounts : List Nat
  deriving DecidableEq

def completionRow : CapacityForecast × Nat → CompletionForecastRow
  | (f, _) =>
    { teamID := f.teamId.getD []
      hasWorkScope := flag f.workScopeId
      workScopeID := f.workScopeId.getD []
      computedAt := f.computedAt
      simulationCount := f.simulationCount
      backlogSize := f.backlogSize
      hasTargetItems := flag f.targetItems
      targetItems := f.targetItems.getD 0
      hasP50Days := flag f.p50Days
      p50Days := f.p50Days.getD 0
      hasP85Days := flag f.p85Days
      p85Days := f.p85Days.getD 0
      hasP95Days := flag f.p95Days
      p95Days := f.p95Days.getD 0
      p50Date := f.p50Date
      p85Date := f.p85Date
      p95Date := f.p95Date
      insufficientHistory := f.insufficientHistory
      highVariance := f.highVariance
      completionDayBins := f.completionDaysValues.length
      completionCountBins := f.completionDaysCounts.length
      completionDaysValues := f.completionDaysValues.take (completionDayBinLimit + 1)
      completionDaysCounts := f.completionDaysCounts.take (completionDayBinLimit + 1) }

/-- `ORDER BY team_key, has_work_scope, work_scope_id` -/
def completionOrder : CapacityForecast × Nat → Bytes × Nat × Option Bytes
  | (f, _) => (f.teamId.getD [], flag f.workScopeId, f.workScopeId)

end DevHealth.Readers

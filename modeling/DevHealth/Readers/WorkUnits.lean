import DevHealth.Readers.ProjectRows
import Mathlib

/-! # Work units

The units of `work_unit_investments`, each as its newest row says, in a time window.  The
table has no two rows of a unit computed at one time, so that the columns of `argMax` are
those of one row. -/
set_option autoImplicit false
namespace DevHealth.Readers

open Go Lib.Relation Clickhouse.ByteOrder

/-! ## Model -/

/-- A map of the server, as its list of entries. -/
abbrev Distribution := List (Bytes × Rat)

/-- The value of a key; a key that is not there has the default. -/
def Distribution.at (m : Distribution) (key : Bytes) : Rat := (m.lookup key).getD 0

structure WorkUnit where
  workUnitId : Bytes
  fromTs : Int
  toTs : Int
  themeDistribution : Distribution
  subcategoryDistribution : Distribution
  structuralEvidence : Bytes
  deriving DecidableEq

/-- A row of `work_unit_investments`. -/
structure WorkUnitInvestment extends WorkUnit where
  orgId : Bytes
  computedAt : Int
  deriving DecidableEq

structure Investments where
  rows : List WorkUnitInvestment
  noTies : (rows.map fun r => (r.orgId, r.workUnitId, r.computedAt)).Nodup

/-- `argMax` of each column. -/
def latestColumns (workUnitId : Bytes) (rows : List WorkUnitInvestment) : WorkUnit where
  workUnitId := workUnitId
  fromTs := (argMax (fun r => r.fromTs) WorkUnitInvestment.computedAt rows).getD 0
  toTs := (argMax (fun r => r.toTs) WorkUnitInvestment.computedAt rows).getD 0
  themeDistribution := (argMax (fun r => r.themeDistribution) WorkUnitInvestment.computedAt rows).getD []
  subcategoryDistribution := (argMax (fun r => r.subcategoryDistribution) WorkUnitInvestment.computedAt rows).getD []
  structuralEvidence := (argMax (fun r => r.structuralEvidence) WorkUnitInvestment.computedAt rows).getD []

def Investments.ofOrg (table : Investments) (orgID : Bytes) : List WorkUnitInvestment :=
  table.rows.filter fun r => r.orgId = orgID

/-! ## The units in a window -/

/-- The newest row of its unit, with a range that overlaps the window. -/
structure InWindow (table : Investments) (orgID : Bytes) (b : TimeBound) (params : BoundParams)
    (r : WorkUnitInvestment) : Prop where
  stored : r ∈ table.rows
  ofOrg : r.orgId = orgID
  newest : ∀ other ∈ table.rows, other.orgId = orgID → other.workUnitId = r.workUnitId →
    other.computedAt ≤ r.computedAt
  overlaps : b.passesRange params r.fromTs r.toTs = true

variable {table : Investments} {orgID : Bytes} {b : TimeBound} {params : BoundParams}

theorem Investments.mem_ofOrg {r : WorkUnitInvestment} : r ∈ table.ofOrg orgID ↔ r ∈ table.rows ∧ r.orgId = orgID := by
  rw [Investments.ofOrg, List.mem_filter, decide_eq_true_eq]

theorem latestColumns_eq {rows : List WorkUnitInvestment} {r : WorkUnitInvestment}
    (best : rows.argmax WorkUnitInvestment.computedAt = some r) : latestColumns r.workUnitId rows = r.toWorkUnit := by
  simp [latestColumns, argMax, best]

theorem exists_argmax {rows : List WorkUnitInvestment} (nonempty : rows ≠ []) :
    ∃ r, rows.argmax WorkUnitInvestment.computedAt = some r := by
  cases best : rows.argmax WorkUnitInvestment.computedAt with
  | none => exact absurd (List.argmax_eq_none.mp best) nonempty
  | some r => exact ⟨r, rfl⟩

/-- What a group by a key that tells the units of the organization apart makes of the table. -/
theorem latest_group {κ : Type} [DecidableEq κ] {key : WorkUnitInvestment → κ}
    (tells : ∀ r ∈ table.ofOrg orgID, ∀ q ∈ table.ofOrg orgID, key r = key q ↔ r.workUnitId = q.workUnitId)
    {x : WorkUnitInvestment} (inside : x ∈ table.ofOrg orgID) :
    ∃ r ∈ table.ofOrg orgID, r.workUnitId = x.workUnitId ∧
      (∀ other ∈ table.rows, other.orgId = orgID → other.workUnitId = r.workUnitId → other.computedAt ≤ r.computedAt) ∧
      latestColumns x.workUnitId ((table.ofOrg orgID).filter fun q => key q = key x) = r.toWorkUnit := by
  have own : x ∈ (table.ofOrg orgID).filter fun q => key q = key x := List.mem_filter.mpr ⟨inside, decide_eq_true rfl⟩
  obtain ⟨r, best⟩ := exists_argmax (List.ne_nil_of_mem own)
  obtain ⟨found, same⟩ := List.mem_filter.mp (List.argmax_mem best)
  rw [decide_eq_true_eq] at same
  have unit : r.workUnitId = x.workUnitId := (tells r found x inside).mp same
  refine ⟨r, found, unit, ?_, ?_⟩
  · intro other stored ofOrg sameUnit
    have grouped : other ∈ table.ofOrg orgID := Investments.mem_ofOrg.mpr ⟨stored, ofOrg⟩
    apply List.le_of_mem_argmax _ best
    rw [List.mem_filter, decide_eq_true_eq]
    exact ⟨grouped, (tells other grouped x inside).mpr (sameUnit.trans unit)⟩
  · rw [← unit]
    exact latestColumns_eq best

theorem mem_windowed {κ : Type} [DecidableEq κ] {key : WorkUnitInvestment → κ} (unitOf : κ → Bytes)
    (tells : ∀ r ∈ table.ofOrg orgID, ∀ q ∈ table.ofOrg orgID, key r = key q ↔ r.workUnitId = q.workUnitId)
    (named : ∀ r ∈ table.ofOrg orgID, unitOf (key r) = r.workUnitId) {w : WorkUnit} :
    w ∈ (groupBy key (fun k rows => latestColumns (unitOf k) rows) (table.ofOrg orgID)).filter
        (fun w => b.passesRange params w.fromTs w.toTs) ↔
      ∃ r, InWindow table orgID b params r ∧ w = r.toWorkUnit := by
  rw [List.mem_filter, mem_groupBy]
  constructor
  · rintro ⟨⟨k, ⟨x, inside, rfl⟩, rfl⟩, overlaps⟩
    obtain ⟨r, found, -, newest, columns⟩ := latest_group tells inside
    rw [named x inside, columns] at overlaps ⊢
    obtain ⟨stored, ofOrg⟩ := Investments.mem_ofOrg.mp found
    exact ⟨r, ⟨stored, ofOrg, newest, overlaps⟩, rfl⟩
  · rintro ⟨r, inWindow, rfl⟩
    have inside := Investments.mem_ofOrg.mpr ⟨inWindow.stored, inWindow.ofOrg⟩
    obtain ⟨q, found, unit, newest, columns⟩ := latest_group tells inside
    obtain ⟨stored, ofOrg⟩ := Investments.mem_ofOrg.mp found
    have time : q.computedAt = r.computedAt := le_antisymm
      (inWindow.newest q stored ofOrg unit) (newest r inWindow.stored inWindow.ofOrg unit.symm)
    have same : q = r := by
      apply List.inj_on_of_nodup_map table.noTies stored inWindow.stored
      rw [ofOrg, inWindow.ofOrg, unit, time]
    refine ⟨⟨key r, ⟨r, inside, rfl⟩, ?_⟩, inWindow.overlaps⟩
    rw [named r inside, columns, same]

end DevHealth.Readers

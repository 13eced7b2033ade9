import DevHealth.Go.Bytes
import DevHealth.Lib.Fallible
import DevHealth.Lib.Firsts
import Mathlib.Logic.Function.Basic
import Mathlib.Logic.Relation
import Mathlib.Algebra.Notation.Defs

/-! # The metrics of a project

`RollupProjectMetrics` makes one rollup for each project from the rows of its teams.  It
first opens a rollup for each project key, then adds each row to its project's rollup,
unless the team has been added before.  The counts are of any type with a zero and an
addition: nothing depends on the laws of the addition. -/
set_option autoImplicit false
namespace DevHealth.Readers

open Go Lib

/-! ## Model -/

structure TeamMetricsRow (α : Type) where
  teamID : Bytes
  day : Bytes
  commitsCount : α
  afterHoursCommitsCount : α
  weekendCommitsCount : α
  afterHoursCommitRatio : α
  weekendCommitRatio : α
  deriving DecidableEq

/-- A team's row for a project.  Its own team id is the one that counts, not that of the
row inside. -/
structure ProjectTeamMetricsRow (α : Type) where
  projectKey : Bytes
  teamID : Bytes
  teamName : Bytes
  metrics : TeamMetricsRow α
  deriving DecidableEq

structure ProjectMetricsRollup (α : Type) where
  projectKey : Bytes
  teamCount : Nat
  commitsCount : α
  afterHoursCommitsCount : α
  weekendCommitsCount : α
  teamBreakdown : List (ProjectTeamMetricsRow α)
  deriving DecidableEq

def markSeen (seen : Bytes → Bool) (key : Bytes) : Bool × (Bytes → Bool) :=
  if seen key then (true, seen) else (false, Function.update seen key true)

section

variable {α : Type} [Zero α] [Add α]

def ProjectMetricsRollup.zero (key : Bytes) : ProjectMetricsRollup α := ⟨key, 0, 0, 0, 0, []⟩

def ProjectMetricsRollup.add (rollup : ProjectMetricsRollup α) (r : ProjectTeamMetricsRow α) :
    ProjectMetricsRollup α :=
  { rollup with
    commitsCount := rollup.commitsCount + r.metrics.commitsCount
    afterHoursCommitsCount := rollup.afterHoursCommitsCount + r.metrics.afterHoursCommitsCount
    weekendCommitsCount := rollup.weekendCommitsCount + r.metrics.weekendCommitsCount
    teamBreakdown := rollup.teamBreakdown ++ [r] }

/-- The maps of the second pass.  A project without an entry has no rollup and no map of
seen teams: reading through either ends the program. -/
@[ext] structure RollupMaps (α : Type) where
  byProject : Bytes → Option (ProjectMetricsRollup α)
  seenTeams : Bytes → Option (Bytes → Bool)

/-- The first pass: a rollup for each new project key, and the keys in order. -/
def openRollup (opened : (Bytes → Option (ProjectMetricsRollup α)) × List Bytes)
    (r : ProjectTeamMetricsRow α) : (Bytes → Option (ProjectMetricsRollup α)) × List Bytes :=
  match opened.1 r.projectKey with
  | some _ => opened
  | none => (Function.update opened.1 r.projectKey (some (.zero r.projectKey)), opened.2 ++ [r.projectKey])

def openSeen (order : List Bytes) : Bytes → Option (Bytes → Bool) :=
  order.foldl (fun seen key => Function.update seen key (some fun _ => false)) fun _ => none

def addRow (maps : RollupMaps α) (r : ProjectTeamMetricsRow α) : Option (RollupMaps α) := do
  let seen ← maps.seenTeams r.projectKey
  match markSeen seen r.teamID with
  | (true, _) => some maps
  | (false, seen) =>
    let rollup ← maps.byProject r.projectKey
    some ⟨Function.update maps.byProject r.projectKey (some (rollup.add r)),
      Function.update maps.seenTeams r.projectKey (some seen)⟩

def countTeams (rollup : ProjectMetricsRollup α) : ProjectMetricsRollup α :=
  { rollup with teamCount := rollup.teamBreakdown.length }

/-- `none` is a program that ends with a nil map or a nil pointer. -/
def rollupProjectMetrics (rows : List (ProjectTeamMetricsRow α)) :
    Option (List (ProjectMetricsRollup α)) := do
  let (byProject, order) := rows.foldl openRollup (fun _ => none, [])
  let maps ← rows.foldlM addRow ⟨byProject, openSeen order⟩
  let rollups ← order.mapM fun key => (maps.byProject key).map countTeams
  some (rollups.filter fun rollup => rollup.teamCount ≠ 0)

/-! ## What a rollup is of -/

def projectOrder (rows : List (ProjectTeamMetricsRow α)) : List Bytes :=
  (firsts ProjectTeamMetricsRow.projectKey rows).map ProjectTeamMetricsRow.projectKey

def breakdown (rows : List (ProjectTeamMetricsRow α)) (key : Bytes) : List (ProjectTeamMetricsRow α) :=
  firsts ProjectTeamMetricsRow.teamID (rows.filter fun r => r.projectKey = key)

def total (count : TeamMetricsRow α → α) (rows : List (ProjectTeamMetricsRow α)) : α :=
  rows.foldl (fun sum r => sum + count r.metrics) 0

def rollupOf (rows : List (ProjectTeamMetricsRow α)) (key : Bytes) : ProjectMetricsRollup α where
  projectKey := key
  teamCount := (breakdown rows key).length
  commitsCount := total TeamMetricsRow.commitsCount (breakdown rows key)
  afterHoursCommitsCount := total TeamMetricsRow.afterHoursCommitsCount (breakdown rows key)
  weekendCommitsCount := total TeamMetricsRow.weekendCommitsCount (breakdown rows key)
  teamBreakdown := breakdown rows key

end

section Rows

variable {α : Type} {rows : List (ProjectTeamMetricsRow α)} {r : ProjectTeamMetricsRow α} {key : Bytes}

theorem mem_projectOrder : key ∈ projectOrder rows ↔ ∃ r ∈ rows, r.projectKey = key := by
  rw [projectOrder, List.mem_map]
  exact exists_mem_firsts

theorem projectOrder_concat : projectOrder (rows ++ [r]) =
      if r.projectKey ∈ projectOrder rows then projectOrder rows else projectOrder rows ++ [r.projectKey] := by
  simp only [mem_projectOrder]
  rw [projectOrder, firsts_concat]
  split_ifs with known
  · rfl
  · rw [List.map_append]
    rfl

theorem breakdown_other (different : r.projectKey ≠ key) : breakdown (rows ++ [r]) key = breakdown rows key := by
  simp [breakdown, different]

theorem breakdown_own : breakdown (rows ++ [r]) r.projectKey =
      if ∃ a ∈ breakdown rows r.projectKey, a.teamID = r.teamID then breakdown rows r.projectKey
      else breakdown rows r.projectKey ++ [r] := by
  have own : (rows ++ [r]).filter (fun a => a.projectKey = r.projectKey) =
      rows.filter (fun a => a.projectKey = r.projectKey) ++ [r] := by simp
  simp only [breakdown, own, firsts_concat, exists_mem_firsts]

theorem breakdown_nonempty (listed : key ∈ projectOrder rows) : breakdown rows key ≠ [] := by
  obtain ⟨r, inside, rfl⟩ := mem_projectOrder.mp listed
  have own : r ∈ rows.filter fun a => a.projectKey = r.projectKey := by simp [inside]
  have team : ∃ a ∈ rows.filter fun a => a.projectKey = r.projectKey, a.teamID = r.teamID := ⟨r, own, rfl⟩
  obtain ⟨first, kept, -⟩ := exists_mem_firsts.mpr team
  exact List.ne_nil_of_mem kept

end Rows

/-! ## The passes -/

section Passes

variable {α : Type} [Zero α] [Add α]

def opened (keys : List Bytes) (key : Bytes) : Option (ProjectMetricsRollup α) :=
  if key ∈ keys then some (.zero key) else none

omit [Add α] in
theorem openRollup_spec (rows : List (ProjectTeamMetricsRow α)) :
    rows.foldl openRollup (fun _ => none, []) = (opened (projectOrder rows), projectOrder rows) := by
  induction rows using List.reverseRecOn with
  | nil => rfl
  | append_singleton rows r ih =>
    rw [List.foldl_append, ih, List.foldl_cons, List.foldl_nil, openRollup, projectOrder_concat]
    by_cases listed : r.projectKey ∈ projectOrder rows
    · simp only [opened, if_pos listed]
    · simp only [opened, if_neg listed]
      refine congrArg (·, _) ?_
      funext key
      by_cases same : key = r.projectKey
      · simp [same, opened]
      · rw [Function.update_of_ne same]
        simp [opened, same]

theorem openSeen_spec (order : List Bytes) (key : Bytes) :
    openSeen order key = if key ∈ order then some fun _ => false else none := by
  induction order using List.reverseRecOn with
  | nil => rfl
  | append_singleton order last ih =>
    rw [openSeen, List.foldl_append, List.foldl_cons, List.foldl_nil]
    by_cases same : key = last
    · simp [same]
    · rw [Function.update_of_ne same, ← openSeen, ih]
      simp [same]

def mapsAfter (order : List Bytes) (rows : List (ProjectTeamMetricsRow α)) : RollupMaps α where
  byProject key := if key ∈ order then some { rollupOf rows key with teamCount := 0 } else none
  seenTeams key :=
    if key ∈ order then some fun team => decide (∃ a ∈ breakdown rows key, a.teamID = team) else none

theorem mapsAfter_nil (order : List Bytes) :
    mapsAfter order ([] : List (ProjectTeamMetricsRow α)) = ⟨opened order, openSeen order⟩ := by
  have nothing : ∀ key, breakdown ([] : List (ProjectTeamMetricsRow α)) key = [] := fun _ => rfl
  simp only [mapsAfter, RollupMaps.mk.injEq]
  refine ⟨rfl, ?_⟩
  funext key
  rw [openSeen_spec]
  simp [nothing]

theorem rollupOf_other {rows : List (ProjectTeamMetricsRow α)} {r : ProjectTeamMetricsRow α} {key : Bytes}
    (different : r.projectKey ≠ key) : rollupOf (rows ++ [r]) key = rollupOf rows key := by
  simp only [rollupOf, breakdown_other different]

theorem addRow_spec {order : List Bytes} (rows : List (ProjectTeamMetricsRow α))
    {r : ProjectTeamMetricsRow α} (listed : r.projectKey ∈ order) :
    addRow (mapsAfter order rows) r = some (mapsAfter order (rows ++ [r])) := by
  have elsewhere : ∀ key, key ≠ r.projectKey →
      (mapsAfter order (rows ++ [r])).byProject key = (mapsAfter order rows).byProject key ∧
      (mapsAfter order (rows ++ [r])).seenTeams key = (mapsAfter order rows).seenTeams key := by
    intro key different
    simp [mapsAfter, rollupOf_other different.symm, breakdown_other different.symm]
  by_cases seen : ∃ a ∈ breakdown rows r.projectKey, a.teamID = r.teamID
  · have kept : breakdown (rows ++ [r]) r.projectKey = breakdown rows r.projectKey := by
      rw [breakdown_own, if_pos seen]
    have added : addRow (mapsAfter order rows) r = some (mapsAfter order rows) := by
      simp [addRow, mapsAfter, listed, markSeen, seen]
    rw [added]
    congr 1
    ext1
    all_goals
      funext key
      by_cases own : key = r.projectKey
      · simp only [own, mapsAfter, rollupOf, kept]
      · simp only [elsewhere key own]
  · have more : breakdown (rows ++ [r]) r.projectKey = breakdown rows r.projectKey ++ [r] := by
      rw [breakdown_own, if_neg seen]
    have added : addRow (mapsAfter order rows) r = some
        ⟨Function.update (mapsAfter order rows).byProject r.projectKey
            (some ({ rollupOf rows r.projectKey with teamCount := 0 }.add r)),
          Function.update (mapsAfter order rows).seenTeams r.projectKey
            (some (Function.update (fun team => decide (∃ a ∈ breakdown rows r.projectKey, a.teamID = team))
              r.teamID true))⟩ := by
      simp [addRow, mapsAfter, listed, markSeen, seen]
    rw [added]
    congr 1
    ext1
    · funext key
      by_cases own : key = r.projectKey
      · simp [own, mapsAfter, listed, rollupOf, more, ProjectMetricsRollup.add, total]
      · simp only [Function.update_of_ne own, elsewhere key own]
    · funext key
      by_cases own : key = r.projectKey
      · simp only [own, Function.update_self, mapsAfter, if_pos listed, more]
        congr 1
        funext team
        by_cases same : team = r.teamID
        · simp [same]
        · rw [Function.update_of_ne same]
          simp [or_and_right, exists_or, Ne.symm same]
      · simp only [Function.update_of_ne own, elsewhere key own]

theorem addRows_spec {order : List Bytes} (done rows : List (ProjectTeamMetricsRow α))
    (listed : ∀ r ∈ rows, r.projectKey ∈ order) :
    rows.foldlM addRow (mapsAfter order done) = some (mapsAfter order (done ++ rows)) := by
  induction rows generalizing done with
  | nil => rw [List.append_nil]; rfl
  | cons r rows ih =>
    rw [List.forall_mem_cons] at listed
    rw [List.foldlM_cons, addRow_spec done listed.1, Option.bind_eq_bind, Option.bind_some,
      ih _ listed.2, List.append_assoc, List.singleton_append]

theorem rollupProjectMetrics_eq (rows : List (ProjectTeamMetricsRow α)) :
    rollupProjectMetrics rows = some ((projectOrder rows).map (rollupOf rows)) := by
  have listed : ∀ r ∈ rows, r.projectKey ∈ projectOrder rows :=
    fun r inside => mem_projectOrder.mpr ⟨r, inside, rfl⟩
  have counted : (projectOrder rows).mapM
      (fun key => ((mapsAfter (projectOrder rows) rows).byProject key).map countTeams) =
      some ((projectOrder rows).map (rollupOf rows)) := by
    apply mapM_total
    intro key inside
    simp [mapsAfter, if_pos inside, countTeams, rollupOf]
  have nonempty : ((projectOrder rows).map (rollupOf rows)).filter
      (fun rollup => decide (rollup.teamCount ≠ 0)) = (projectOrder rows).map (rollupOf rows) := by
    rw [List.filter_eq_self, List.forall_mem_map]
    intro key inside
    simpa [rollupOf] using breakdown_nonempty inside
  simp only [rollupProjectMetrics, openRollup_spec, ← mapsAfter_nil, addRows_spec [] rows listed,
    List.nil_append, Option.bind_eq_bind, Option.bind_some, counted, nonempty]

/-! ## Repeated rows -/

/-- A row more for a project and a team that have one. -/
abbrev AddsRepeat : List (ProjectTeamMetricsRow α) → List (ProjectTeamMetricsRow α) → Prop :=
  Repeats fun r => (r.projectKey, r.teamID)

omit [Zero α] [Add α] in
theorem AddsRepeat.projectOrder_eq {rows more : List (ProjectTeamMetricsRow α)} (repeats : AddsRepeat rows more) :
    projectOrder more = projectOrder rows := by
  have project : Repeats ProjectTeamMetricsRow.projectKey rows more := by
    cases repeats with
    | insert inside same => exact .insert inside (congrArg Prod.fst same)
  rw [projectOrder, project.firsts_eq, projectOrder]

omit [Zero α] [Add α] in
theorem AddsRepeat.breakdown_eq {rows more : List (ProjectTeamMetricsRow α)} (repeats : AddsRepeat rows more)
    (key : Bytes) : breakdown more key = breakdown rows key := by
  cases repeats with
  | @insert before after first x inside same =>
    simp only [breakdown, List.filter_append, List.filter_cons]
    split_ifs with own
    · have project : first.projectKey = key := (congrArg Prod.fst same).trans (by simpa using own)
      apply firsts_insert
      exact ⟨first, by simp [inside, project], congrArg Prod.snd same⟩
    · rfl

/-- Each project has one rollup, of its teams' first rows, and repeated rows change nothing. -/
theorem rollup_firstRows (rows : List (ProjectTeamMetricsRow α)) :
    rollupProjectMetrics rows = some ((projectOrder rows).map (rollupOf rows)) ∧
      ∀ more, Relation.ReflTransGen AddsRepeat rows more →
        rollupProjectMetrics more = rollupProjectMetrics rows := by
  refine ⟨rollupProjectMetrics_eq rows, ?_⟩
  intro more repeats
  induction repeats with
  | refl => rfl
  | tail _ step ih =>
    rw [← ih, rollupProjectMetrics_eq, rollupProjectMetrics_eq, step.projectOrder_eq]
    congr 1
    apply List.map_congr_left
    intro key _
    simp only [rollupOf, step.breakdown_eq]

end Passes

end DevHealth.Readers

import DevHealth.Readers.Attribution
import DevHealth.Readers.ProjectRows

/-! # What a row limit keeps

In the workload of projects and the forecasts of teams the order tells every two rows apart.
In the readiness of projects it does not tell a row without a team from a row whose team is
the empty string: the two are different partitions, and their teams are served as the same
string. -/
set_option autoImplicit false
namespace DevHealth.Readers

open Go Lib Lib.Sql Lib.Relation Clickhouse Clickhouse.ByteOrder

variable {s : Statement} {tables : ProjectTables} {b : TimeBound} {params : BoundParams}

/-! ## Joins -/

theorem scope_match_iff {table : Alias} (apart : table ≠ .p) {workScopeId : Option Bytes} {r : IdentityScope} :
    s.passes [(some table, scopeRow workScopeId), (some .p, r.get)]
        (projectIdentityMatchSQL table .workScopeId) = true ↔ workScopeId = some r.scope := by
  constructor
  · intro matched
    have column := match_value apart matched
    cases workScopeId with
    | none => cases column
    | some value =>
      cases column
      rfl
  · intro same
    subst same
    have left : Scope.column [(some table, scopeRow (some r.scope)), (some .p, r.get)] (table.dot .workScopeId) =
        some (.str r.scope) := by
      simp [Scope.column, Alias.dot, scopeRow, Value.ofOption]
    have right : Scope.column [(some table, scopeRow (some r.scope)), (some .p, r.get)] (Alias.p.dot .scope) =
        some (.str r.scope) := by
      simp [Scope.column, Alias.dot, apart, IdentityScope.get]
    have reads : Denotes (s.env [(some table, scopeRow (some r.scope)), (some .p, r.get)]) .conj
        (projectIdentityMatchSQL table .workScopeId) _ := (Denotes.column _ left).cmp .eq (Denotes.column _ right) rfl
    rw [passes_iff reads, compareOf, Truth.ofBool_yes, decide_eq_true_eq]

def teamOf (s : Statement) (tables : ProjectTables) (teamKey : Bytes) : Option Team :=
  (tables.teams.rows.filter fun t => decide (t.orgId = s.orgID)).find? fun t => decide (t.id = teamKey)

theorem mem_joinTeams {α : Type} {teamKey : α → Bytes} {rows : List α} {x : α} {t : Option Team} :
    (x, t) ∈ joinTeams s tables teamKey rows ↔ x ∈ rows ∧ t = teamOf s tables (teamKey x) := by
  have unique : ((tables.teams.rows.filter fun t => decide (t.orgId = s.orgID)).map Team.sortingKey).Nodup :=
    tables.teams.unique.sublist (List.filter_sublist.map _)
  have one : ∀ x ∈ rows, ((tables.teams.rows.filter fun t => decide (t.orgId = s.orgID)).filter
      fun t => decide (t.id = teamKey x)).length ≤ 1 := by
    intro x _
    apply matches_le_one Team.sortingKey unique (k := (s.orgID, teamKey x))
    intro t inside named
    rw [List.mem_filter, decide_eq_true_eq] at inside
    rw [decide_eq_true_eq] at named
    rw [Team.sortingKey, inside.2, named]
  rw [joinTeams, leftJoin_eq one, List.mem_map]
  constructor
  · rintro ⟨x, inside, same⟩
    cases same
    exact ⟨inside, rfl⟩
  · rintro ⟨inside, rfl⟩
    exact ⟨x, inside, rfl⟩

/-! ## The requested projects -/

def Answered (s : Statement) (value : Bytes) : Prop :=
  ∃ p ∈ s.projects, subject p.provider p.id ∈ s.ids ∧ (value = p.id ∨ s.SoleKey p ∧ value = p.key)

theorem requested_ofOrg : ∀ p ∈ s.projects.filter fun p => decide (subject p.provider p.id ∈ s.ids), p ∈ s.projects :=
  fun _ inside => (List.mem_filter.mp inside).1

theorem identityJoin_eq {a c : IdentityScope} (inA : a ∈ projectIdentityJoinSQL s) (inC : c ∈ projectIdentityJoinSQL s)
    (provider : a.provider = c.provider) (id : a.id = c.id) (scope : a.scope = c.scope) : a = c := by
  rw [projectIdentityJoinSQL, projectIdentityRows_eq] at inA inC
  apply List.inj_on_of_nodup_map (expansion_unique requested_ofOrg) inA inC
  rw [provider, id, scope]

theorem exists_identity_iff {value : Bytes} :
    (∃ r ∈ projectIdentityJoinSQL s, r.scope = value) ↔ Answered s value := by
  rw [projectIdentityJoinSQL, projectIdentityRows_eq]
  constructor
  · rintro ⟨r, inside, rfl⟩
    obtain ⟨p, requested, answers⟩ := (mem_expansion requested_ofOrg).mp inside
    obtain ⟨ofOrg, named⟩ := List.mem_filter.mp requested
    exact ⟨p, ofOrg, of_decide_eq_true named, answers.scope⟩
  · rintro ⟨p, ofOrg, named, answers⟩
    have requested : p ∈ s.projects.filter fun p => decide (subject p.provider p.id ∈ s.ids) :=
      List.mem_filter.mpr ⟨ofOrg, decide_eq_true named⟩
    exact ⟨⟨p.provider, p.id, p.key, 1, value, if s.SoleKey p ∧ value = p.key then kindKey else kindID⟩,
      (mem_expansion requested_ofOrg).mpr ⟨p, requested, rfl, rfl, rfl, rfl, answers, rfl⟩, rfl⟩

/-! ## The joined rows -/

section Rows

variable {cityHash64 : CoverageHash}

theorem mem_projectReadiness {p : IdentityScope} {ec : EstimateCoverage × Nat} {t : Option Team} :
    ((p, ec), t) ∈ projectReadiness s tables b params cityHash64 ↔
      (p ∈ projectIdentityJoinSQL s ∧ ec ∈ coverageNumbered s tables b params cityHash64 ∧
        p.scope = ec.1.workScopeId ∧ ec.2 = 1) ∧ t = teamOf s tables (ec.1.teamId.getD []) := by
  rw [projectReadiness, mem_joinTeams, mem_innerJoin, Bool.and_eq_true, decide_eq_true_eq,
    scope_match_iff (by decide), Option.some.injEq, eq_comm (a := ec.1.workScopeId)]

theorem mem_projectWorkload {p : IdentityScope} {cf : CapacityForecast × Nat} {t : Option Team} :
    ((p, cf), t) ∈ projectWorkload s tables b params ↔
      (p ∈ projectIdentityJoinSQL s ∧ cf ∈ forecastNumbered (forecastSelected s tables b params) ∧
        cf.1.workScopeId = some p.scope ∧ cf.2 = 1) ∧ t = teamOf s tables (cf.1.teamId.getD []) := by
  rw [projectWorkload, mem_joinTeams, mem_innerJoin, Bool.and_eq_true, decide_eq_true_eq,
    scope_match_iff (by decide)]

theorem eq_of_flag {x y : Option Bytes} (flags : flag x = flag y) (values : x.getD [] = y.getD []) : x = y := by
  cases x with
  | none =>
    cases y with
    | none => rfl
    | some y => cases flags
  | some x =>
    cases y with
    | none => cases flags
    | some y => exact congrArg some values

theorem workload_total : ∀ x ∈ projectWorkload s tables b params, ∀ y ∈ projectWorkload s tables b params,
      workloadOrder x = workloadOrder y → workloadRow x = workloadRow y := by
  rintro ⟨⟨p, cf⟩, t⟩ inX ⟨⟨q, df⟩, u⟩ inY same
  obtain ⟨⟨inP, numbered, scopeP, one⟩, rfl⟩ := mem_projectWorkload.mp inX
  obtain ⟨⟨inQ, numbered', scopeQ, one'⟩, rfl⟩ := mem_projectWorkload.mp inY
  simp only [workloadOrder, Prod.mk.injEq] at same
  obtain ⟨id, provider, scope, flags, teamKey⟩ := same
  have sameScope : p.scope = q.scope := by
    rw [scopeP, scopeQ] at scope
    exact Option.some.inj scope
  have sameP : p = q := identityJoin_eq inP inQ provider id sameScope
  have sameF : cf = df := by
    apply numbered_eq numbered one numbered' one'
    rw [eq_of_flag flags teamKey, scope]
  rw [sameP, sameF]

theorem completion_total (teamIDs : List Bytes) :
    ∀ x ∈ teamCompletionForecasts s tables b params teamIDs, ∀ y ∈ teamCompletionForecasts s tables b params teamIDs,
      completionOrder x = completionOrder y → completionRow x = completionRow y := by
  rintro x inX y inY same
  obtain ⟨numberedX, oneX⟩ := List.mem_filter.mp inX
  obtain ⟨numberedY, oneY⟩ := List.mem_filter.mp inY
  rw [decide_eq_true_eq] at oneX oneY
  obtain ⟨teamKey, -, scope⟩ : x.1.teamId.getD [] = y.1.teamId.getD [] ∧
      flag x.1.workScopeId = flag y.1.workScopeId ∧ x.1.workScopeId = y.1.workScopeId := by
    simpa only [completionOrder, Prod.mk.injEq] using same
  -- a row without a team is not selected, so that the served string is the team
  have named : ∀ row ∈ forecastNumbered ((forecastSelected s tables b params).filter
      fun f => f.teamId.any (· ∈ teamIDs)), row.2 = 1 → row.1.teamId = some (row.1.teamId.getD []) := by
    intro row numbered one
    obtain ⟨-, requested⟩ := List.mem_filter.mp (mem_of_numbered numbered one)
    cases team : row.1.teamId with
    | none =>
      rw [team] at requested
      cases requested
    | some team => rfl
  have rows : x = y := by
    apply numbered_eq numberedX oneX numberedY oneY
    rw [named x numberedX oneX, named y numberedY oneY, teamKey, scope]
  rw [rows]

/-! ## Readiness -/

/-- A work scope of a requested project has a row without a team and a row of the empty team,
both of one provider. -/
def TwoEmptyTeams (s : Statement) (tables : ProjectTables) (b : TimeBound) (params : BoundParams) : Prop :=
  ∃ unattributed ∈ coverageSelected s tables b params, ∃ blank ∈ coverageSelected s tables b params,
    unattributed.teamId = none ∧ blank.teamId = some [] ∧ unattributed.workScopeId = blank.workScopeId ∧
      unattributed.provider = blank.provider ∧ Answered s unattributed.workScopeId

theorem eq_of_served {x y : Option Bytes} (values : x.getD [] = y.getD []) :
    x = y ∨ (x = none ∧ y = some []) ∨ (x = some [] ∧ y = none) := by
  cases x with
  | none =>
    cases y with
    | none => exact .inl rfl
    | some y => exact .inr (.inl ⟨rfl, congrArg some values.symm⟩)
  | some x =>
    cases y with
    | none => exact .inr (.inr ⟨congrArg some values, rfl⟩)
    | some y => exact .inl (congrArg some values)

theorem readiness_total (apart : ¬ TwoEmptyTeams s tables b params) :
    ∀ x ∈ projectReadiness s tables b params cityHash64, ∀ y ∈ projectReadiness s tables b params cityHash64,
      readinessOrder x = readinessOrder y → readinessRow x = readinessRow y := by
  rintro ⟨⟨p, ec⟩, t⟩ inX ⟨⟨q, ed⟩, u⟩ inY same
  obtain ⟨⟨inP, numbered, scopeP, one⟩, rfl⟩ := mem_projectReadiness.mp inX
  obtain ⟨⟨inQ, numbered', scopeQ, one'⟩, rfl⟩ := mem_projectReadiness.mp inY
  simp only [readinessOrder, Prod.mk.injEq] at same
  obtain ⟨id, provider, scope, ecProvider, teamKey⟩ := same
  have sameP : p = q := identityJoin_eq inP inQ provider id (scopeP.trans (scope.trans scopeQ.symm))
  have selected := mem_of_numbered numbered one
  have selected' := mem_of_numbered numbered' one'
  have answered : Answered s ec.1.workScopeId := exists_identity_iff.mp ⟨p, inP, scopeP⟩
  rcases eq_of_served teamKey with team | ⟨none, blank⟩ | ⟨blank, none⟩
  · have sameE : ec = ed := by
      apply numbered_eq numbered one numbered' one'
      rw [team, scope, ecProvider]
    rw [sameP, sameE]
  · exact absurd ⟨ec.1, selected, ed.1, selected', none, blank, scope, ecProvider, answered⟩ apart
  · rw [scope] at answered
    exact absurd ⟨ed.1, selected', ec.1, selected, none, blank, scope.symm, ecProvider.symm, answered⟩ apart

theorem readiness_tied (cityHash64 : CoverageHash) (two : TwoEmptyTeams s tables b params) :
    ∃ x ∈ projectReadiness s tables b params cityHash64, ∃ y ∈ projectReadiness s tables b params cityHash64,
      readinessOrder x = readinessOrder y ∧ readinessRow x ≠ readinessRow y := by
  obtain ⟨a, selectedA, e, selectedE, none, blank, scope, provider, answered⟩ := two
  obtain ⟨r, inR, scopeR⟩ := exists_identity_iff.mpr answered
  obtain ⟨x, numberedX, oneX, sameX⟩ : ∃ row ∈ coverageNumbered s tables b params cityHash64, row.2 = 1 ∧
      (row.1.teamId, row.1.workScopeId, row.1.provider) = (a.teamId, a.workScopeId, a.provider) :=
    exists_latest _ _ selectedA
  obtain ⟨y, numberedY, oneY, sameY⟩ : ∃ row ∈ coverageNumbered s tables b params cityHash64, row.2 = 1 ∧
      (row.1.teamId, row.1.workScopeId, row.1.provider) = (e.teamId, e.workScopeId, e.provider) :=
    exists_latest _ _ selectedE
  simp only [Prod.mk.injEq] at sameX sameY
  obtain ⟨teamX, scopeX, providerX⟩ := sameX
  obtain ⟨teamY, scopeY, providerY⟩ := sameY
  have memX := (mem_projectReadiness (t := teamOf s tables (x.1.teamId.getD []))).mpr
    ⟨⟨inR, numberedX, by rw [scopeR, scopeX], oneX⟩, rfl⟩
  have memY := (mem_projectReadiness (t := teamOf s tables (y.1.teamId.getD []))).mpr
    ⟨⟨inR, numberedY, by rw [scopeR, scopeY, scope], oneY⟩, rfl⟩
  refine ⟨_, memX, _, memY, ?_, ?_⟩
  · simp only [readinessOrder]
    rw [scopeX, scopeY, scope, providerX, providerY, provider, teamX, teamY, none, blank]
    rfl
  · intro same
    have flags := congrArg ReadinessProjectRow.hasTeam same
    simp only [readinessRow, teamX, teamY, none, blank] at flags
    cases flags

/-! ## The three statements -/

/-- What each of the three row limits keeps is a matter of the data. -/
structure DeterministicReads (s : Statement) (tables : ProjectTables) (b : TimeBound) (params : BoundParams)
    (cityHash64 : CoverageHash) (teamIDs : List Bytes) : Prop where
  readiness : DeterministicCut (projectReadiness s tables b params cityHash64) readinessOrder readinessRow
  workload : DeterministicCut (projectWorkload s tables b params) workloadOrder workloadRow
  completion : DeterministicCut (teamCompletionForecasts s tables b params teamIDs) completionOrder completionRow

theorem deterministicReads_iff (s : Statement) (tables : ProjectTables) (b : TimeBound) (params : BoundParams)
    (cityHash64 : CoverageHash) (teamIDs : List Bytes) :
    DeterministicReads s tables b params cityHash64 teamIDs ↔ ¬ TwoEmptyTeams s tables b params := by
  constructor
  · intro reads two
    obtain ⟨x, inX, y, inY, same, differ⟩ := readiness_tied cityHash64 two
    exact differ (reads.readiness.total x inX y inY same)
  · intro apart
    exact ⟨deterministicCut_iff.mpr (readiness_total apart), deterministicCut_iff.mpr workload_total,
      deterministicCut_iff.mpr (completion_total teamIDs)⟩

end Rows

/-! ## A project with two empty teams -/

def blankTeamStatement : Statement where
  server := asciiServer
  db :=
    { workItems := []
      repos := .empty
      projects := ⟨[⟨ascii "org", ascii "linear", ascii "x", none⟩], List.nodup_singleton _⟩
      teamProjectOwnership := []
      teamRepoOwnership := []
      workGraphIssuePr := [] }
  select := fun _ => none
  orgID := ascii "org"
  ids := [ascii "linear:x"]
  extra := []

/-- Coverage without a team on one day, and of the empty team on the next. -/
def blankTeamTables : ProjectTables where
  coverage := ⟨[⟨ascii "org", 1, ascii "linear", ascii "x", none, 1, 2, 3, none, 10⟩,
    ⟨ascii "org", 2, ascii "linear", ascii "x", some [], 4, 5, 9, none, 20⟩], by decide⟩
  forecasts := .empty
  teams := .empty

theorem blankTeam_tied :
    ¬ DeterministicCut (projectReadiness blankTeamStatement blankTeamTables ⟨false, false⟩ ⟨0, 0⟩ fun _ => 0)
      readinessOrder readinessRow := by
  intro cut
  have two : TwoEmptyTeams blankTeamStatement blankTeamTables ⟨false, false⟩ ⟨0, 0⟩ := by
    exact ⟨⟨ascii "org", 1, ascii "linear", ascii "x", none, 1, 2, 3, none, 10⟩, by decide,
      ⟨ascii "org", 2, ascii "linear", ascii "x", some [], 4, 5, 9, none, 20⟩, by decide, rfl, rfl, rfl, rfl,
      ⟨ascii "org", ascii "linear", ascii "x", none⟩, by decide, by decide, .inl rfl⟩
  obtain ⟨x, inX, y, inY, same, differ⟩ := readiness_tied (fun _ => 0) two
  exact differ (cut.total x inX y inY same)

end DevHealth.Readers

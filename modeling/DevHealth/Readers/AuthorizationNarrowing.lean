import DevHealth.Readers.AuthorizationRebind

/-! # Narrowing to candidates

A candidate set drops whole groups of the two aggregates.  The group of a candidate keeps
all its rows: the scope values it carries are kept, and with them every project that
answers to one of them. -/
set_option autoImplicit false
namespace DevHealth.Readers

open Go Lib Lib.Sql Lib.Relation Clickhouse

variable {s : Statement} {candidates : WorkItemCandidates} {selector : String}

/-! ## Membership in the candidate set -/

/-- The work item id is in the candidate set; the zero set holds every id. -/
def Contains (s : Statement) (candidates : WorkItemCandidates) (id : Bytes) : Prop :=
  candidates.relation = [] ∨
    ∃ ids, value (s.env []) candidates.relation = some (.array ids) ∧ id ∈ ids

theorem candidates_operand (s : Statement) (nonzero : candidates.relation ≠ []) :
    ∃ e : Expr Column Func .prim, e.text = candidates.relation ∧
      ∀ tables, eval (s.env tables) e = eval (s.env []) e := by
  obtain ⟨relation, bindings, built⟩ := candidates
  cases built with
  | zero => exact absurd rfl nonzero
  | ids ids => exact ⟨.param workItemCandidateIDsBinding, rfl, fun _ => rfl⟩
  | subquery selectSQL bindings filled free => exact ⟨.subquery selectSQL, rfl, fun _ => rfl⟩

theorem among_iff (nonzero : candidates.relation ≠ []) {tables : Scope} {c : Column} {id : Bytes}
    (column : tables.column c = some (.str id)) :
    s.passes tables ([.column c, .inSet] ++ candidates.relation) = true ↔
      Contains s candidates id := by
  obtain ⟨e, text, same⟩ := candidates_operand s nonzero
  have operand : eval (s.env tables) (.column c : Expr Column Func .prim) = some (.str id) := column
  rw [Contains, ← text, value_prim, ← same tables]
  refine (holds_inSet operand).trans (or_iff_right ?_).symm
  rw [text]
  exact nonzero

theorem narrows_iff {tables : Scope} {c : Column} {id : Bytes} (column : tables.column c = some (.str id)) :
    narrows s candidates tables c = true ↔ Contains s candidates id := by
  rw [narrows, Bool.or_eq_true, decide_eq_true_eq]
  by_cases zero : candidates.relation = []
  · exact iff_of_true (.inl zero) (.inl zero)
  · rw [among_iff zero column]
    exact or_iff_right zero

theorem mem_candidateScopes (nonzero : candidates.relation ≠ []) {pair : Bytes × Option Bytes} :
    pair ∈ candidateScopes s candidates.relation ↔
      ∃ w ∈ s.db.workItems, w.orgId = s.orgID ∧ Contains s candidates w.workItemId ∧
        (w.provider, w.projectId) = pair := by
  have condition : ∀ w : WorkItem, s.passes [(none, w.get)]
      (sql [orgScope, [.and, .column (bare .workItemId), .inSet], candidates.relation]) = true ↔
        w.orgId = s.orgID ∧ Contains s candidates w.workItemId := by
    intro w
    have org : Denotes (s.env [(none, w.get)]) .conj orgScope _ := orgScope_reads rfl
    have both := holds_and (s.env [(none, w.get)]) org.readable
      (amongLinks_readable nonzero (bare .workItemId))
    have split : sql [orgScope, [.and, .column (bare .workItemId), .inSet], candidates.relation] =
        orgScope ++ .and :: ([.column (bare .workItemId), .inSet] ++ candidates.relation) := by
      simp [sql]
    rw [Statement.passes, split, both, Bool.and_eq_true]
    exact and_congr (orgScope_iff rfl) (among_iff nonzero rfl)
  simp [candidateScopes, List.mem_dedup, condition, and_assoc]

/-! ## The project side -/

theorem ownedRepositories_filter (q : Bytes × Bytes → Bool) (projects : List ProjectTeam) :
    ownedRepositoriesSQL s selector (projects.filter fun p => q (p.provider, p.id)) =
      (ownedRepositoriesSQL s selector projects).filter fun o => q (o.provider, o.id) := by
  simp only [ownedRepositoriesSQL]
  rw [← filter_innerJoin, ← filter_innerJoin (p := fun pair : ProjectTeam × TeamRepo =>
    q (pair.1.provider, pair.1.id)), List.filter_map, List.filter_filter, List.filter_filter]
  congr 1
  refine List.filter_congr fun row _ => ?_
  exact Bool.and_comm _ _

theorem ownedOn_iff (p : IdentityScope) (o : OwnedRepository) :
    s.passes [(some .wiaScope, p.get), (some .wiaOwned, o.get)] ownedOn = true ↔
      o.provider = p.provider ∧ o.id = p.id := by
  have providers : Denotes (s.env [(some .wiaScope, p.get), (some .wiaOwned, o.get)]) .conj _ _ :=
    (Denotes.column (Alias.wiaOwned.dot .wiaOwnedProvider) rfl).cmp .eq
      (Denotes.column (Alias.wiaScope.dot .provider) rfl) rfl
  have ids : Denotes (s.env [(some .wiaScope, p.get), (some .wiaOwned, o.get)]) .conj _ _ :=
    (Denotes.column (Alias.wiaOwned.dot .wiaOwnedId) rfl).cmp .eq
      (Denotes.column (Alias.wiaScope.dot .id) rfl) rfl
  refine (passes_iff (providers.and ids)).trans ?_
  simp [compareOf]

def IdentityScope.value (p : IdentityScope) : Bytes × Bytes := (p.provider, p.scope)

def projectRows (s : Statement) (selector : String) (candidates : WorkItemCandidates) :
    List (IdentityScope × OwnedRepository) :=
  innerJoin (fun p o => s.passes [(some .wiaScope, p.get), (some .wiaOwned, o.get)] ownedOn)
    (projectScopesSQL s candidates)
    (ownedRepositoriesSQL s selector (ownedProjectsSQL s candidates))

theorem find_projectAuth (s : Statement) (selector : String) (candidates : WorkItemCandidates)
    (w : WorkItem) {scope : Bytes} (carries : w.projectId = some scope) :
    (projectAuthSQL s selector candidates).find? (ofProject w) =
      (groupBy (fun pair : IdentityScope × OwnedRepository => pair.1.value)
        (fun (provider, scope) group => (⟨provider, scope,
          sortedUnique (group.map fun pair => pair.2.repository)⟩ : ProjectAuth))
        (projectRows s selector candidates)).find?
          fun a => decide ((a.provider, a.scope) = (w.provider, scope)) := by
  have asks : ofProject w = fun a => decide ((a.provider, a.scope) = (w.provider, scope)) := by
    funext a
    rw [ofProject, carries, Bool.eq_iff_iff, Bool.and_eq_true, decide_eq_true_eq, decide_eq_true_eq,
      decide_eq_true_eq, Option.some.injEq, Prod.mk.injEq]
    exact and_congr_right fun _ => eq_comm
  rw [asks]
  rfl

theorem projectRows_candidate (nonzero : candidates.relation ≠ []) {value : Bytes × Bytes}
    (carried : (value.1, some value.2) ∈ candidateScopes s candidates.relation) :
    ((projectRows s selector candidates).filter fun pair => pair.1.value = value) =
      (projectRows s selector .zero).filter fun pair => pair.1.value = value := by
  have among : ∀ r : IdentityScope, r.value = value → amongScopes s candidates.relation r = true := by
    rintro r rfl
    exact decide_eq_true carried
  have scopes : ((projectScopesSQL s candidates).filter fun r => decide (r.value = value)) =
      (projectScopesSQL s .zero).filter fun r => decide (r.value = value) := by
    simp only [projectScopesSQL, nonzero, if_false, WorkItemCandidates.zero, if_true, List.filter_filter]
    refine List.filter_congr fun r _ => ?_
    by_cases same : r.value = value
    · simp [same, among r same]
    · simp [same]
  rw [projectRows, projectRows, filter_innerJoin _ (fun r : IdentityScope => decide (r.value = value)),
    filter_innerJoin _ (fun r : IdentityScope => decide (r.value = value)), scopes]
  refine innerJoin_congr fun r inside => ?_
  obtain ⟨row, same⟩ := List.mem_filter.mp inside
  simp only [projectScopesSQL, WorkItemCandidates.zero, if_true] at row
  simp only [ownedProjectsSQL, nonzero, if_false, WorkItemCandidates.zero, if_true]
  rw [ownedRepositories_filter fun pair => decide (pair ∈ ((projectIdentityCatalogSQL s).filter
    (amongScopes s candidates.relation)).map fun r => (r.provider, r.id)), List.filter_filter]
  refine List.filter_congr fun o _ => ?_
  -- an owned repository that joins the kept scope value belongs to a kept project
  by_cases joins : s.passes [(some .wiaScope, r.get), (some .wiaOwned, o.get)] ownedOn = true
  · obtain ⟨provider, id⟩ := (ownedOn_iff r o).mp joins
    have kept : (o.provider, o.id) ∈ ((projectIdentityCatalogSQL s).filter
        (amongScopes s candidates.relation)).map fun r => (r.provider, r.id) := by
      rw [provider, id]
      exact List.mem_map_of_mem (List.mem_filter.mpr ⟨row, among r (of_decide_eq_true same)⟩)
    simp [joins, kept]
  · simp [joins]

theorem projectRows_other (nonzero : candidates.relation ≠ []) {value : Bytes × Bytes}
    (missing : (value.1, some value.2) ∉ candidateScopes s candidates.relation) :
    ((projectRows s selector candidates).filter fun pair => pair.1.value = value) = [] := by
  rw [List.filter_eq_nil_iff]
  rintro ⟨r, o⟩ inside
  rw [projectRows, mem_innerJoin] at inside
  simp only [projectScopesSQL, nonzero, if_false, List.mem_filter, amongScopes,
    decide_eq_true_eq] at inside
  intro same
  rw [decide_eq_true_eq] at same
  refine missing ?_
  rw [← same]
  exact inside.1.2

theorem projectEvidence_narrowed (s : Statement) (selector : String)
    (candidates : WorkItemCandidates) (w : WorkItem) :
    projectEvidence s selector candidates w = projectEvidence s selector .zero w ∨
      (candidates.relation ≠ [] ∧ (w.provider, w.projectId) ∉ candidateScopes s candidates.relation ∧
        projectEvidence s selector candidates w = []) := by
  cases carries : w.projectId with
  | none =>
    have never : ∀ rows : List ProjectAuth, rows.find? (ofProject w) = none := by
      intro rows
      rw [List.find?_eq_none]
      intro a _
      simp [ofProject, carries]
    exact .inl (by rw [projectEvidence, projectEvidence, never, never])
  | some scope =>
    by_cases zero : candidates.relation = []
    · have same : candidates = .zero := by
        obtain ⟨relation, bindings, built⟩ := candidates
        cases built with
        | zero => rfl
        | ids ids
        | subquery selectSQL bindings filled free => exact absurd zero (List.cons_ne_nil _ _)
      exact .inl (by rw [same])
    · have evidence := find_projectAuth s selector candidates w carries
      by_cases carried : (w.provider, some scope) ∈ candidateScopes s candidates.relation
      · refine .inl ?_
        rw [projectEvidence, projectEvidence, evidence, find_projectAuth s selector .zero w carries,
          find_groupBy_congr (fun a : ProjectAuth => (a.provider, a.scope)) (fun _ _ => rfl)
            (projectRows_candidate zero carried)]
      · refine .inr ⟨zero, carried, ?_⟩
        have none : (projectRows s selector candidates).filter
            (fun pair => pair.1.value = (w.provider, scope)) =
              ([] : List (IdentityScope × OwnedRepository)).filter
                fun pair => pair.1.value = (w.provider, scope) :=
          projectRows_other zero carried
        rw [projectEvidence, evidence,
          find_groupBy_congr (fun a : ProjectAuth => (a.provider, a.scope)) (fun _ _ => rfl) none]
        rfl

/-! ## The link side -/

def linkRows (s : Statement) (selector : String) (candidates : WorkItemCandidates) :
    List (IssuePrLink × Repo) :=
  (innerJoin (fun (l : IssuePrLink) (r : Repo) => s.passes (linkTables (l, r))
      [.column (Alias.wiaLinkRepo.dot .id), .cmp .eq, .column (Alias.wiaLink.dot .repoId)])
    s.db.workGraphIssuePr (organizationRepos s)).filter fun pair =>
      s.passes (linkTables pair) (linkWhere selector candidates)

theorem linkAuthOf_congr {candidates' : WorkItemCandidates} {w : WorkItem}
    (same : ((linkRows s selector candidates).filter fun pair => pair.1.workItemId = w.workItemId) =
      (linkRows s selector candidates').filter fun pair => pair.1.workItemId = w.workItemId) :
    linkAuthOf s selector candidates w = linkAuthOf s selector candidates' w := by
  rw [linkAuthOf, linkAuthOf, linkAuthSQL, linkAuthSQL]
  exact find_groupBy_congr LinkAuth.workItemId (fun _ _ => rfl) same

theorem linkAuthOf_candidate {w : WorkItem} (inside : Contains s candidates w.workItemId) :
    linkAuthOf s selector candidates w = linkAuthOf s selector .zero w := by
  refine linkAuthOf_congr ?_
  rw [linkRows, linkRows, List.filter_filter, List.filter_filter]
  refine List.filter_congr fun pair _ => ?_
  by_cases same : pair.1.workItemId = w.workItemId
  · have narrowed : narrows s candidates (linkTables pair) (Alias.wiaLink.dot .workItemId) = true :=
      (narrows_iff rfl).mpr (same ▸ inside)
    have zero : narrows s .zero (linkTables pair) (Alias.wiaLink.dot .workItemId) = true := rfl
    rw [linkWhere_passes, linkWhere_passes, narrowed, zero]
  · simp [same]

theorem linkAuthOf_other {w : WorkItem} (outside : ¬Contains s candidates w.workItemId) :
    linkAuthOf s selector candidates w = none := by
  rw [linkAuthOf, List.find?_eq_none]
  intro a inside same
  rw [linkAuthSQL, mem_groupBy] at inside
  obtain ⟨k, ⟨pair, row, rfl⟩, rfl⟩ := inside
  have passed := (List.mem_filter.mp row).2
  rw [linkWhere_passes, Bool.and_eq_true] at passed
  have contained := (narrows_iff rfl).mp passed.1
  exact outside (of_decide_eq_true same ▸ contained)

/-! ## Answers -/

structure SameAnswers (narrow wide : WorkItemScopeSQLResult) (s s' : Statement)
    (row row' : JoinedRow) : Prop where
  authorization : value (s.env row.tables) narrow.authorizationExpr =
    value (s'.env row'.tables) wide.authorizationExpr
  paths : List.Forall₂ (fun p p' : WorkItemAuthorizationPathSQL => p.path = p'.path ∧
      value (s.env row.tables) p.expr = value (s'.env row'.tables) p'.expr ∧
      value (s.env row.tables) p.repositoriesExpr = value (s'.env row'.tables) p'.repositoriesExpr)
    narrow.provenance wide.provenance
  excluded : value (s.env row.tables) narrow.excludedLinkProvenancesExpr =
    value (s'.env row'.tables) wide.excludedLinkProvenancesExpr

theorem excluded_reads {env : Env Column} {f : RowFacts} (shows : Shows env f) :
    Denotes env .prim excludedLinkProvenances
      (.array (if f.present.not = .yes then f.excludedProvenances else [])) := by
  have chosen : Denotes env .prim _ (.array (if f.present.not = .yes then f.excludedProvenances else [])) :=
    Denotes.call₃ .cond (repoLess_reads shows).disj_of_conj
      (Denotes.column _ shows.excludedProvenances).disj_of_prim emptyRepositories_reads.disj_of_prim
      (by
        rw [call, truth_ofTruth, Option.map_some]
        split <;> rfl)
  simpa [excludedLinkProvenances, sql] using chosen

/-- The facts that narrowing may change: an aggregate is the same or empty. -/
structure Narrowed (f f' : RowFacts) : Prop where
  repoId : f.repoId = f'.repoId
  projectId : f.projectId = f'.projectId
  repo : f.repo = f'.repo
  project : f.projectRepositories = f'.projectRepositories ∨ f.projectRepositories = []
  link : f.linkRepositories = f'.linkRepositories ∨ f.linkRepositories = []

theorem filled_mono {xs ys : List Bytes} (narrowed : xs = ys ∨ xs = [])
    (filled : Truth.ofBool (decide (xs ≠ [])) = .yes) : Truth.ofBool (decide (ys ≠ [])) = .yes := by
  rcases narrowed with same | empty
  · rwa [← same]
  · simp [empty] at filled

theorem Narrowed.path_mono {f f' : RowFacts} (narrowed : Narrowed f f') {engine : Engine}
    {set : Selected} {path : WorkItemAuthorizationPath} (taken : f.path engine set path = .yes) :
    f'.path engine set path = .yes := by
  obtain ⟨repoId, projectId, repo, project, link⟩ := narrowed
  cases path with
  | organizationGrant => exact taken
  | directRepository =>
    simpa only [RowFacts.path, RowFacts.direct, RowFacts.present, RowFacts.slug, repoId, repo] using taken
  | projectOwnership =>
    simp only [RowFacts.path, RowFacts.project, RowFacts.present, Truth.and_yes, repoId, projectId] at taken ⊢
    exact ⟨taken.1, taken.2.1, filled_mono project taken.2.2⟩
  | pullRequestLink =>
    simp only [RowFacts.path, RowFacts.link, RowFacts.present, Truth.and_yes, repoId] at taken ⊢
    exact ⟨taken.1, filled_mono link taken.2⟩

theorem Narrowed.authorizes_mono {f f' : RowFacts} (narrowed : Narrowed f f')
    {mapping : CaseMapping} {scope : AuthorizationScope} {selectors : RepositorySelectorScope}
    {engine : Engine} (authorized : f.authorizes mapping scope selectors engine = .yes) :
    f'.authorizes mapping scope selectors engine = .yes := by
  obtain ⟨path, listed, taken⟩ := authorizes_yes.mp authorized
  obtain ⟨granted, restricted⟩ := takes_yes.mp taken
  refine authorizes_yes.mpr ⟨path, listed, takes_yes.mpr ⟨narrowed.path_mono granted, ?_⟩⟩
  have same : f'.idTruths scope ++ f'.requestedTruths mapping selectors engine =
      f.idTruths scope ++ f.requestedTruths mapping selectors engine := by
    unfold RowFacts.idTruths RowFacts.requestedTruths RowFacts.requested RowFacts.present RowFacts.slug
    rw [narrowed.repoId, narrowed.repo]
  rwa [same]

theorem aggregate_agree {extra : List Binding} {set : Selected} (narrow : Binds (s.env []) "authorized" set)
    (wide : Binds ((s.rebind extra).env []) "authorized" set) :
    ∀ name ∈ aggregateParams, (s.rebind extra).param name = s.param name := by
  intro name inside
  simp only [aggregateParams, selectorNames, List.mem_cons, List.not_mem_nil, or_false] at inside
  rcases inside with rfl | rfl | rfl | rfl
  · exact (s.rebind extra).param_orgID.trans s.param_orgID.symm
  · exact wide.all.trans narrow.all.symm
  · exact wide.slugs.trans narrow.slugs.symm
  · exact wide.owners.trans narrow.owners.symm

section

variable {extra : List Binding} {w : WorkItem}
  (agree : ∀ name ∈ aggregateParams, (s.rebind extra).param name = s.param name)

include agree

theorem facts_narrowed : Narrowed (rowFacts s "authorized" candidates w)
      (rowFacts (s.rebind extra) "authorized" .zero w) where
  repoId := rfl
  projectId := rfl
  repo := rfl
  project := by
    simp only [rowFacts]
    rw [projectEvidence, projectEvidence, projectAuth_rebind agree]
    rcases projectEvidence_narrowed s "authorized" candidates w with same | ⟨-, -, empty⟩
    · exact .inl same
    · exact .inr empty
  link := by
    simp only [rowFacts]
    by_cases inside : Contains s candidates w.workItemId
    · rw [linkAuthOf_candidate inside, linkAuthOf, linkAuthOf, linkAuth_rebind agree]
      exact .inl rfl
    · rw [linkAuthOf_other inside]
      exact .inr rfl

theorem facts_candidate (stored : w ∈ s.db.workItems) (ofOrg : w.orgId = s.orgID)
    (inside : Contains s candidates w.workItemId) :
    rowFacts s "authorized" candidates w = rowFacts (s.rebind extra) "authorized" .zero w := by
  have project : projectEvidence s "authorized" candidates w =
      projectEvidence (s.rebind extra) "authorized" .zero w := by
    rcases projectEvidence_narrowed s "authorized" candidates w with same | ⟨nonzero, missing, -⟩
    · rw [same, projectEvidence, projectEvidence, projectAuth_rebind agree]
    · exact absurd ((mem_candidateScopes nonzero).mpr ⟨w, stored, ofOrg, inside, rfl⟩) missing
  have link : linkAuthOf s "authorized" candidates w = linkAuthOf (s.rebind extra) "authorized" .zero w := by
    rw [linkAuthOf_candidate inside, linkAuthOf, linkAuthOf, linkAuth_rebind agree]
  rw [rowFacts, rowFacts, project, link]
  rfl

end

theorem sameAnswers_of_facts {mapping : CaseMapping} {scope : AuthorizationScope}
    {selectors : RepositorySelectorScope} (mode : scope.repositorySelectors = some selectors)
    (candidates candidates' : WorkItemCandidates) {s s' : Statement} (row row' : JoinedRow)
    {f : RowFacts} (engine : (s.env row.tables).engine = (s'.env row'.tables).engine)
    (shows : Shows (s.env row.tables) f) (shows' : Shows (s'.env row'.tables) f)
    (binds : ScopeBinds (s.env row.tables) mapping scope selectors)
    (binds' : ScopeBinds (s'.env row'.tables) mapping scope selectors) :
    SameAnswers (workItemScopeSQLAmong mapping scope candidates)
      (workItemScopeSQLAmong mapping scope candidates') s s' row row' := by
  have slugs := readsSlugs s row.tables
  have slugs' := readsSlugs s' row'.tables
  constructor
  · have reads := authorizationExpr_reads shows binds slugs mode candidates
    have reads' := authorizationExpr_reads shows' binds' slugs' mode candidates'
    rw [reads.disj_of_conj.value_eq, reads'.disj_of_conj.value_eq, engine]
  · have lists : (workItemScopeSQLAmong mapping scope candidates).provenance =
        (workItemScopeSQLAmong mapping scope candidates').provenance := by
      rw [among_provenance mode, among_provenance mode]
    rw [lists, List.forall₂_same]
    intro p listed
    obtain ⟨expr, array⟩ := provenance_reads shows binds slugs mode candidates' listed
    obtain ⟨expr', array'⟩ := provenance_reads shows' binds' slugs' mode candidates' listed
    rw [expr.disj_of_conj.value_eq, expr'.disj_of_conj.value_eq, array.disj_of_prim.value_eq,
      array'.disj_of_prim.value_eq, engine]
    exact ⟨rfl, rfl, rfl⟩
  · rw [among_excluded mode, among_excluded mode, (excluded_reads shows).disj_of_prim.value_eq,
      (excluded_reads shows').disj_of_prim.value_eq]

/-- A row of the narrowed statement against the row of the same item without candidates. -/
structure KeepsAnswer (candidates : WorkItemCandidates) (narrow wide : WorkItemScopeSQLResult)
    (s s' : Statement) (row row' : JoinedRow) : Prop where
  item : row.item = row'.item
  candidate : Contains s candidates row.item.workItemId → SameAnswers narrow wide s s' row row'
  never : s.passes row.tables narrow.authorizationExpr = true →
    s'.passes row'.tables wide.authorizationExpr = true

/-- Narrowing never changes the answer for a candidate, and never authorizes a row that the
statement without candidates denies. -/
theorem candidate_narrowing_keeps_answers (mapping : CaseMapping) (scope : AuthorizationScope)
    (selectors : RepositorySelectorScope) (mode : scope.repositorySelectors = some selectors)
    (candidates : WorkItemCandidates) (s : Statement) (others others' : List Binding)
    (bound : s.extra = (workItemScopeSQLAmong mapping scope candidates).bindings ++ others)
    (items : List WorkItem) (stored : ∀ w ∈ items, w ∈ s.db.workItems ∧ w.orgId = s.orgID) :
    List.Forall₂
      (KeepsAnswer candidates (workItemScopeSQLAmong mapping scope candidates)
        (workItemScopeSQL mapping scope) s
        (s.rebind ((workItemScopeSQL mapping scope).bindings ++ others')))
      (joinRows s (workItemScopeSQLAmong mapping scope candidates).joinSQL items)
      (joinRows (s.rebind ((workItemScopeSQL mapping scope).bindings ++ others'))
        (workItemScopeSQL mapping scope).joinSQL items) := by
  rw [workItemScopeSQL]
  have narrowBinds := scope_binds bound mode
  have wideBinds : ∀ tables, ScopeBinds
      ((s.rebind ((workItemScopeSQLAmong mapping scope .zero).bindings ++ others')).env tables)
      mapping scope selectors :=
    fun tables => scope_binds rfl mode tables
  generalize (workItemScopeSQLAmong mapping scope .zero).bindings ++ others' = extra at *
  have agree := aggregate_agree (narrowBinds []).granted (wideBinds []).granted
  rw [among_joinSQL mapping mode candidates, among_joinSQL mapping mode .zero, joinRows_eq,
    joinRows_eq, List.forall₂_map_left_iff, List.forall₂_map_right_iff, List.forall₂_same]
  intro w inside
  have shows := joinedRow_shows s "authorized" candidates w
  have shows' := joinedRow_shows (s.rebind extra) "authorized" .zero w
  refine ⟨rfl, fun candidate => ?_, fun passed => ?_⟩
  · rw [facts_candidate agree (stored w inside).1 (stored w inside).2 candidate] at shows
    have engine := (Statement.env_engine s (joinedRow s "authorized" candidates w).tables).trans
      (Statement.env_engine (s.rebind extra)
        (joinedRow (s.rebind extra) "authorized" .zero w).tables).symm
    exact sameAnswers_of_facts mode candidates .zero _ _ engine shows shows' (narrowBinds _)
      (wideBinds _)
  · have reads := authorizationExpr_reads shows (narrowBinds _) (readsSlugs s _) mode candidates
    have reads' := authorizationExpr_reads shows' (wideBinds _) (readsSlugs (s.rebind extra) _) mode
      .zero
    rw [Statement.env_engine] at reads reads'
    have narrowed := (passes_iff reads).mp passed
    exact (passes_iff reads').mpr ((facts_narrowed agree).authorizes_mono narrowed)

def linkedCandidates : WorkItemCandidates := workItemCandidateIDs (some [ascii "ISSUE-1"])

theorem linked_item_narrowing :
    Contains (linkedStatement linkedCandidates) linkedCandidates linkedItem.workItemId ∧
      List.Forall₂
        (KeepsAnswer linkedCandidates
          (workItemScopeSQLAmong asciiMapping grantOneScope linkedCandidates)
          (workItemScopeSQL asciiMapping grantOneScope) (linkedStatement linkedCandidates)
          ((linkedStatement linkedCandidates).rebind
            ((workItemScopeSQL asciiMapping grantOneScope).bindings ++ [])))
        (joinRows (linkedStatement linkedCandidates)
          (workItemScopeSQLAmong asciiMapping grantOneScope linkedCandidates).joinSQL [linkedItem])
        (joinRows ((linkedStatement linkedCandidates).rebind
            ((workItemScopeSQL asciiMapping grantOneScope).bindings ++ []))
          (workItemScopeSQL asciiMapping grantOneScope).joinSQL [linkedItem]) := by
  refine ⟨.inr ⟨[ascii "ISSUE-1"], by decide +kernel, List.mem_singleton.mpr rfl⟩, ?_⟩
  refine candidate_narrowing_keeps_answers asciiMapping grantOneScope grantOne rfl linkedCandidates
    (linkedStatement linkedCandidates) [] [] (List.append_nil _).symm [linkedItem] ?_
  intro w inside
  rw [List.mem_singleton.mp inside]
  exact ⟨List.mem_singleton.mpr rfl, rfl⟩

end DevHealth.Readers

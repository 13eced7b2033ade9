import DevHealth.Readers.AuthorizationDecision

/-! # Authorized rows name their grant

Every slug that the two aggregates collect passed the grant of the principal.  With the
truth of the expressions this gives the law of the rendered SQL: the decision is true
exactly when a path is, and a path that is true discloses granted repositories. -/
set_option autoImplicit false
namespace DevHealth.Readers

open Go Lib Lib.Sql Lib.Relation Clickhouse

variable {s : Statement} {selector : String} {candidates : WorkItemCandidates} {set : Selected}

theorem readsSlugs (s : Statement) (tables : Scope) : ReadsSlugs (s.env tables) := s.server.slugPattern

/-! ## The facts of a joined row -/

def repoName (s : Statement) (w : WorkItem) : Option Bytes :=
  match s.db.repos.rows.find? (ownsItem w) with
  | some r => some r.repo
  | none => if s.server.engine.joinUseNulls then none else some []

def projectEvidence (s : Statement) (selector : String) (candidates : WorkItemCandidates)
    (w : WorkItem) : List Bytes :=
  (((projectAuthSQL s selector candidates).find? (ofProject w)).map
    ProjectAuth.repositories).getD []

def linkAuthOf (s : Statement) (selector : String) (candidates : WorkItemCandidates)
    (w : WorkItem) : Option LinkAuth :=
  (linkAuthSQL s selector candidates).find? (ofItem w)

def rowFacts (s : Statement) (selector : String) (candidates : WorkItemCandidates)
    (w : WorkItem) : RowFacts where
  repoId := w.repoId
  projectId := w.projectId
  repo := repoName s w
  projectRepositories := projectEvidence s selector candidates w
  linkRepositories := ((linkAuthOf s selector candidates w).map LinkAuth.repositories).getD []
  excludedProvenances :=
    ((linkAuthOf s selector candidates w).map LinkAuth.excludedProvenances).getD []

theorem joinedRow_shows (s : Statement) (selector : String) (candidates : WorkItemCandidates) (w : WorkItem) :
    Shows (s.env (joinedRow s selector candidates w).tables) (rowFacts s selector candidates w) where
  repoId := rfl
  projectId := rfl
  repo := by
    change repositoryRow s w .repo = some (.ofOption .str (repoName s w))
    rw [repositoryRow, repoName]
    cases s.db.repos.rows.find? (ownsItem w) with
    | some r => rfl
    | none =>
      simp only [Option.map_none, Option.getD_none, Repo.unmatched, unmatchedColumn]
      split <;> rfl
  projectRepositories := by
    change projectRow s selector candidates w .wiaProjectRepositories =
      some (.array (projectEvidence s selector candidates w))
    rw [projectRow, projectEvidence]
    cases (projectAuthSQL s selector candidates).find? (ofProject w) <;> rfl
  linkRepositories := by
    change linkRow s selector candidates w .wiaLinkRepositories =
      some (.array (((linkAuthOf s selector candidates w).map LinkAuth.repositories).getD []))
    rw [linkRow, linkAuthOf]
    cases (linkAuthSQL s selector candidates).find? (ofItem w) <;> rfl
  excludedProvenances := by
    change linkRow s selector candidates w .wiaLinkExcludedProvenances =
      some (.array (((linkAuthOf s selector candidates w).map LinkAuth.excludedProvenances).getD []))
    rw [linkRow, linkAuthOf]
    cases (linkAuthSQL s selector candidates).find? (ofItem w) <;> rfl

/-! ## The candidates

The condition of a candidate set is apart from the rest of the link's condition. -/

theorem amongLinks_readable (nonzero : candidates.relation ≠ []) (c : Column) :
    Readable .conj ([.column c, .inSet] ++ candidates.relation) := by
  obtain ⟨relation, bindings, built⟩ := candidates
  cases built with
  | zero => exact absurd rfl nonzero
  | ids ids => exact ⟨.each (.plain (.inSet (.column c) (.param workItemCandidateIDsBinding))), rfl⟩
  | subquery selectSQL bindings filled free =>
    exact ⟨.each (.plain (.inSet (.column c) (.subquery selectSQL))), rfl⟩

/-- A value is in the candidate set; the zero set narrows nothing. -/
def narrows (s : Statement) (candidates : WorkItemCandidates) (tables : Scope) (c : Column) : Bool :=
  decide (candidates.relation = []) || s.passes tables ([.column c, .inSet] ++ candidates.relation)

/-- The condition of a link without the candidates and the grant. -/
def linkKept : Sql :=
  sql [[.column (Alias.wiaLink.dot .orgId), .cmp .eq, .param "org_id", .and],
    keyPresentSQL (Alias.wiaLink.dot .workItemId) .stringKey, [.and],
    keyPresentSQL (Alias.wiaLink.dot .repoId) .uuidKey]

theorem linkOrg_readable :
    Readable .conj ([.column (Alias.wiaLink.dot .orgId)] ++ .cmp .eq :: [.param "org_id"]) :=
  ⟨.each (.plain (.cmp .eq (.column (Alias.wiaLink.dot .orgId)) (.param "org_id"))), rfl⟩

theorem linkKeys_readable (s : Statement) (pair : IssuePrLink × Repo) :
    Readable .conj (keyPresentSQL (Alias.wiaLink.dot .workItemId) .stringKey ++ .and ::
      keyPresentSQL (Alias.wiaLink.dot .repoId) .uuidKey) := by
  have keys : Denotes (s.env (linkTables pair)) .conj _ _ :=
    (keyPresent_string_reads (Alias.wiaLink.dot .workItemId) (some pair.1.workItemId) rfl).and
      (keyPresent_uuid_reads (Alias.wiaLink.dot .repoId) (some pair.1.repoId) rfl)
  exact keys.readable

theorem linkWhere_passes (s : Statement) (selector : String) (candidates : WorkItemCandidates)
    (pair : IssuePrLink × Repo) :
    s.passes (linkTables pair) (linkWhere selector candidates) =
      (narrows s candidates (linkTables pair) (Alias.wiaLink.dot .workItemId) &&
        (s.passes (linkTables pair) linkKept && s.passes (linkTables pair)
          (grantedRepositoryMatchSQL selector (Alias.wiaLinkRepo.dot .repo)))) := by
  have org := linkOrg_readable
  have keys := linkKeys_readable s pair
  have grant := grantedMatch_readable selector (Alias.wiaLinkRepo.dot .repo)
  have kept : s.passes (linkTables pair) linkKept =
      (holds (s.env (linkTables pair)) _ && holds (s.env (linkTables pair)) _) :=
    holds_and _ org keys
  by_cases zero : candidates.relation = []
  · have whole := holds_and (s.env (linkTables pair)) (org.and keys) grant
    simp only [narrows, zero, decide_true, Bool.true_or, Bool.true_and]
    simpa [Statement.passes, linkWhere, linkKept, zero, sql] using whole
  · have among := amongLinks_readable zero (Alias.wiaLink.dot .workItemId)
    have split : linkWhere selector candidates =
        ([.column (Alias.wiaLink.dot .orgId)] ++ .cmp .eq :: [.param "org_id"]) ++ .and ::
          (([.column (Alias.wiaLink.dot .workItemId), .inSet] ++ candidates.relation) ++ .and ::
            ((keyPresentSQL (Alias.wiaLink.dot .workItemId) .stringKey ++ .and ::
              keyPresentSQL (Alias.wiaLink.dot .repoId) .uuidKey) ++ .and ::
              grantedRepositoryMatchSQL selector (Alias.wiaLinkRepo.dot .repo))) := by
      simp [linkWhere, zero, sql]
    rw [kept, Statement.passes, split, holds_and _ org (among.and (keys.and grant)),
      holds_and _ among (keys.and grant), holds_and _ keys grant]
    simp only [narrows, zero, decide_false, Bool.false_or, Statement.passes]
    ac_rfl

/-! ## What the aggregates collect -/

theorem text_eq {tables : Scope} {expression : Sql} {text : Bytes}
    (reads : Denotes (s.env tables) .prim expression (.str text)) :
    s.text tables expression = text := by
  rw [Statement.text, reads.disj_of_prim.value_eq]
  rfl

theorem mem_sortedUnique {values : List Bytes} {x : Bytes} : x ∈ sortedUnique values ↔ x ∈ values := by
  rw [sortedUnique, mem_sortStrings, List.mem_dedup]

theorem granted_text {tables : Scope} {c : Column} (repo : Option Bytes)
    (column : tables.column c = some (.ofOption .str repo)) (binds : Binds (s.env tables) selector set)
    (passed : s.passes tables (grantedRepositoryMatchSQL selector c) = true) :
    granted set.slugs set.owners (s.text tables (repositorySlugSQL c)) = true := by
  have reads : Denotes (s.env tables) .conj _ _ :=
    grantedMatch_reads c repo column (readsSlugs s tables) binds.slugs binds.owners
  rw [text_eq (repositorySlug_reads c column)]
  exact Truth.ofBool_yes.mp ((passes_iff reads).mp passed)

section

variable (binds : ∀ tables, Binds (s.env tables) selector set)

include binds

theorem ownedRepository_granted {projects : List ProjectTeam} {o : OwnedRepository}
    (inside : o ∈ ownedRepositoriesSQL s selector projects) :
    granted set.slugs set.owners o.repository = true := by
  simp only [ownedRepositoriesSQL, List.mem_map, List.mem_filter] at inside
  obtain ⟨row, ⟨-, passed⟩, rfl⟩ := inside
  have column : (ownedTables row).column (Alias.wiaOwnedRepo.dot .repo) =
      some (.ofOption .str (some row.2.repo)) := rfl
  have slug := granted_text (some row.2.repo) column (binds (ownedTables row)) passed
  exact slug

theorem projectAuth_granted {a : ProjectAuth} (inside : a ∈ projectAuthSQL s selector candidates)
    {slug : Bytes} (collected : slug ∈ a.repositories) :
    granted set.slugs set.owners slug = true := by
  rw [projectAuthSQL] at inside
  obtain ⟨⟨provider, scope⟩, -, rfl⟩ := mem_groupBy.mp inside
  obtain ⟨⟨p, o⟩, grouped, rfl⟩ := List.mem_map.mp (mem_sortedUnique.mp collected)
  obtain ⟨joined, -⟩ := List.mem_filter.mp grouped
  exact ownedRepository_granted binds (mem_innerJoin.mp joined).2.1

theorem linkAuth_granted {a : LinkAuth} (inside : a ∈ linkAuthSQL s selector candidates)
    {slug : Bytes} (collected : slug ∈ a.repositories) :
    granted set.slugs set.owners slug = true := by
  rw [linkAuthSQL] at inside
  obtain ⟨workItemId, -, rfl⟩ := mem_groupBy.mp inside
  obtain ⟨pair, native, rfl⟩ := List.mem_map.mp (mem_sortedUnique.mp collected)
  obtain ⟨grouped, -⟩ := List.mem_filter.mp native
  obtain ⟨kept, -⟩ := List.mem_filter.mp grouped
  have passed := (List.mem_filter.mp kept).2
  rw [linkWhere_passes, Bool.and_eq_true, Bool.and_eq_true] at passed
  have column : (linkTables pair).column (Alias.wiaLinkRepo.dot .repo) =
      some (.ofOption .str (some pair.2.repo)) := rfl
  exact granted_text (some pair.2.repo) column (binds (linkTables pair)) passed.2.2

/-- A path other than the organization grant that is true rests on granted repositories. -/
theorem evidence_granted {w : WorkItem} {path : WorkItemAuthorizationPath}
    (repository : path ≠ .organizationGrant)
    (taken : (rowFacts s selector candidates w).path s.server.engine set path = .yes) :
    (rowFacts s selector candidates w).evidence s.server.engine path ≠ [] ∧
      ∀ slug ∈ (rowFacts s selector candidates w).evidence s.server.engine path,
        granted set.slugs set.owners slug = true := by
  cases path with
  | organizationGrant => exact absurd rfl repository
  | directRepository =>
    simp only [RowFacts.path, RowFacts.direct, Truth.and_yes, Truth.ofBool_yes] at taken
    refine ⟨List.cons_ne_nil _ _, fun slug inside => ?_⟩
    rw [List.mem_singleton.mp inside]
    exact taken.2
  | projectOwnership =>
    simp only [RowFacts.path, RowFacts.project, Truth.and_yes, Truth.ofBool_yes,
      decide_eq_true_eq] at taken
    refine ⟨taken.2.2, fun slug inside => ?_⟩
    simp only [RowFacts.evidence, rowFacts, projectEvidence] at inside
    cases found : (projectAuthSQL s selector candidates).find? (ofProject w) with
    | none => simp [found] at inside
    | some a =>
      rw [found] at inside
      exact projectAuth_granted binds (List.mem_of_find?_eq_some found) inside
  | pullRequestLink =>
    simp only [RowFacts.path, RowFacts.link, Truth.and_yes, Truth.ofBool_yes,
      decide_eq_true_eq] at taken
    refine ⟨taken.2, fun slug inside => ?_⟩
    simp only [RowFacts.evidence, rowFacts, linkAuthOf] at inside
    cases found : (linkAuthSQL s selector candidates).find? (ofItem w) with
    | none => simp [found] at inside
    | some a =>
      rw [found] at inside
      exact linkAuth_granted binds (List.mem_of_find?_eq_some found) inside

end

/-! ## Decision and evidence -/

structure DecisionWithEvidence (mapping : CaseMapping) (selectors : RepositorySelectorScope)
    (result : WorkItemScopeSQLResult) (s : Statement) (row : JoinedRow) : Prop where
  paths : result.provenance.map WorkItemAuthorizationPathSQL.path = workItemAuthorizationPaths
  decided : s.passes row.tables result.authorizationExpr = true ↔
    ∃ p ∈ result.provenance, s.passes row.tables p.expr = true
  silent : ∀ p ∈ result.provenance, s.passes row.tables p.expr = false →
    value (s.env row.tables) p.repositoriesExpr = some (.array [])
  evident : ∀ p ∈ result.provenance, p.path ≠ .organizationGrant →
    s.passes row.tables p.expr = true →
    ∃ slugs, value (s.env row.tables) p.repositoriesExpr = some (.array slugs) ∧ slugs ≠ [] ∧
      ∀ slug ∈ slugs, Repokey.validSlug slug = true ∧
        (slug ∈ normalizeRepositorySlugs mapping selectors.granted.exactSlugs ∨
          firstSegment slug ∈ normalizeRepositoryOwners mapping selectors.granted.owners)
  ownRepository : row.item.HasRepository → ∀ p ∈ result.provenance,
    p.path = .projectOwnership ∨ p.path = .pullRequestLink → s.passes row.tables p.expr = false
  request : selectors.requested.isSome = true → ¬row.item.HasRepository →
    s.passes row.tables result.authorizationExpr = false

section

variable {mapping : CaseMapping} {scope : AuthorizationScope} {selectors : RepositorySelectorScope}
  {f : RowFacts} {engine : Engine}

theorem takes_yes {path : WorkItemAuthorizationPath} : f.takes mapping scope selectors engine path = .yes ↔
      f.path engine (selectors.granted.selected mapping) path = .yes ∧
        ∀ t ∈ f.idTruths scope ++ f.requestedTruths mapping selectors engine, t = .yes := by
  rw [RowFacts.takes, Truth.all_yes, List.forall_mem_cons]

theorem grants_yes : f.grants mapping selectors engine = .yes ↔ ∃ path ∈ workItemAuthorizationPaths,
      f.path engine (selectors.granted.selected mapping) path = .yes := by
  simp only [RowFacts.grants, Truth.or_yes, workItemAuthorizationPaths, List.exists_mem_cons_iff,
    List.not_mem_nil, false_and, exists_false, or_false]
  rfl

theorem authorizes_yes :
    f.authorizes mapping scope selectors engine = .yes ↔ ∃ path ∈ workItemAuthorizationPaths,
      f.takes mapping scope selectors engine path = .yes := by
  rw [RowFacts.authorizes, Truth.all_yes]
  simp only [List.forall_mem_append, List.forall_mem_cons, List.not_mem_nil, false_implies,
    forall_true_iff, and_true, grants_yes, takes_yes]
  constructor
  · rintro ⟨⟨ids, path, inside, taken⟩, requested⟩
    exact ⟨path, inside, taken, ids, requested⟩
  · rintro ⟨path, inside, taken, ids, requested⟩
    exact ⟨⟨ids, path, inside, taken⟩, requested⟩

theorem requested_present {set : RepositorySelectorSet} (asked : selectors.requested = some set)
    (authorized : f.authorizes mapping scope selectors engine = .yes) : f.present = .yes := by
  rw [RowFacts.authorizes, Truth.all_yes] at authorized
  have requested := authorized (f.requested engine (set.selected mapping)) (by
    simp [RowFacts.requestedTruths, asked])
  rw [RowFacts.requested, Truth.and_yes] at requested
  exact requested.1

theorem ofRepository_no (present : f.present = .yes) {path : WorkItemAuthorizationPath}
    (repoLess : path = .projectOwnership ∨ path = .pullRequestLink) (set : Selected) :
    f.path engine set path ≠ .yes := by
  intro taken
  have absent : f.present.not = .yes := by
    rcases repoLess with rfl | rfl
    · rw [RowFacts.path, RowFacts.project, Truth.and_yes] at taken
      exact taken.1
    · rw [RowFacts.path, RowFacts.link, Truth.and_yes] at taken
      exact taken.1
  rw [present] at absent
  cases absent

end

/-- Decision and evidence agree, for every selector-mode scope, every candidate set, every
contents of the tables and every joined row. -/
theorem authorization_decision_and_evidence (mapping : CaseMapping) (scope : AuthorizationScope)
    (selectors : RepositorySelectorScope) (mode : scope.repositorySelectors = some selectors)
    (candidates : WorkItemCandidates) (s : Statement) (others : List Binding)
    (bound : s.extra = (workItemScopeSQLAmong mapping scope candidates).bindings ++ others)
    (items : List WorkItem) (row : JoinedRow)
    (joined : row ∈ joinRows s (workItemScopeSQLAmong mapping scope candidates).joinSQL items) :
    DecisionWithEvidence mapping selectors (workItemScopeSQLAmong mapping scope candidates) s
      row := by
  rw [among_joinSQL mapping mode, joinRows_eq] at joined
  obtain ⟨w, -, rfl⟩ := List.mem_map.mp joined
  have shows := joinedRow_shows s "authorized" candidates w
  have binds := scope_binds bound mode
  have slugs := readsSlugs s (joinedRow s "authorized" candidates w).tables
  have decision := passes_iff (authorizationExpr_reads shows (binds _) slugs mode candidates)
  have readings := fun p inside => provenance_reads (p := p) shows (binds _) slugs mode candidates inside
  have pathOf : ∀ p ∈ (workItemScopeSQLAmong mapping scope candidates).provenance,
      (s.passes (joinedRow s "authorized" candidates w).tables p.expr = true ↔
        (rowFacts s "authorized" candidates w).takes mapping scope selectors s.server.engine p.path =
          .yes) :=
    fun p inside => passes_iff (readings p inside).1
  have paths : (workItemScopeSQLAmong mapping scope candidates).provenance.map
      WorkItemAuthorizationPathSQL.path = workItemAuthorizationPaths := by
    rw [among_provenance mode, List.map_map]
    exact List.map_id _
  constructor
  · exact paths
  · rw [decision, authorizes_yes, ← paths]
    constructor
    · rintro ⟨path, inside, taken⟩
      obtain ⟨p, listed, rfl⟩ := List.mem_map.mp inside
      exact ⟨p, listed, (pathOf p listed).mpr taken⟩
    · rintro ⟨p, listed, passed⟩
      exact ⟨p.path, List.mem_map_of_mem listed, (pathOf p listed).mp passed⟩
  · intro p listed failed
    have untaken := mt (pathOf p listed).mpr (by rw [failed]; exact Bool.false_ne_true)
    rw [(readings p listed).2.disj_of_prim.value_eq, RowFacts.disclosed]
    exact congrArg (fun slugs => some (Value.array slugs)) (if_neg untaken)
  · intro p listed repository passed
    have taken := (pathOf p listed).mp passed
    obtain ⟨some_slug, each⟩ := evidence_granted (fun tables => (binds tables).granted) repository
      (takes_yes.mp taken).1
    refine ⟨_, (readings p listed).2.disj_of_prim.value_eq, ?_⟩
    rw [RowFacts.disclosed]
    rw [show (s.env (joinedRow s "authorized" candidates w).tables).engine = s.server.engine from rfl,
      if_pos taken]
    refine ⟨some_slug, fun slug inside => ?_⟩
    have grant := each slug inside
    rw [granted, Bool.and_eq_true, selects, Bool.or_eq_true, decide_eq_true_eq,
      decide_eq_true_eq] at grant
    exact grant
  · intro own p listed repoLess
    have present : (rowFacts s "authorized" candidates w).present = .yes := uuidPresent_yes.mpr own
    rw [← Bool.not_eq_true, pathOf p listed, takes_yes]
    exact fun both => ofRepository_no present repoLess _ both.1
  · intro asked own
    obtain ⟨set, present⟩ := Option.isSome_iff_exists.mp asked
    rw [← Bool.not_eq_true, decision]
    exact fun authorized => own (uuidPresent_yes.mp (requested_present present authorized))

def grantOne : RepositorySelectorScope :=
  { granted := { all := false, exactSlugs := [ascii "Acme/One"], owners := [] }
    requested := none }

def grantOneScope : AuthorizationScope :=
  { grantedRepositoryIDs := none
    requestedRepositoryIDs := none
    repositorySelectors := some grantOne }

def oneRepo : Uuid := ⟨Vector.replicate 32 (Fin.last 15)⟩

def linkedItem : WorkItem := ⟨ascii "org", ascii "ISSUE-1", ascii "jira", some .zero, none⟩

/-- The item is linked to a pull request of the granted repository. -/
def linkedDatabase : Database where
  workItems := [linkedItem]
  repos := ⟨[⟨ascii "org", oneRepo, ascii "acme/one"⟩], List.nodup_singleton _⟩
  projects := .empty
  teamProjectOwnership := []
  teamRepoOwnership := []
  workGraphIssuePr := [⟨ascii "org", oneRepo, ascii "ISSUE-1", ascii "native"⟩]

def linkedStatement (candidates : WorkItemCandidates) : Statement where
  server := asciiServer
  db := linkedDatabase
  select := fun _ => none
  orgID := ascii "org"
  ids := []
  extra := (workItemScopeSQLAmong asciiMapping grantOneScope candidates).bindings

theorem linked_item_decision :
    ∃ row ∈ joinRows (linkedStatement .zero)
        (workItemScopeSQLAmong asciiMapping grantOneScope .zero).joinSQL [linkedItem],
      (linkedStatement .zero).passes row.tables
          (workItemScopeSQLAmong asciiMapping grantOneScope .zero).authorizationExpr = true ∧
        DecisionWithEvidence asciiMapping grantOne
          (workItemScopeSQLAmong asciiMapping grantOneScope .zero) (linkedStatement .zero) row := by
  have joined : joinedRow (linkedStatement .zero) "authorized" .zero linkedItem ∈
      joinRows (linkedStatement .zero)
        (workItemScopeSQLAmong asciiMapping grantOneScope .zero).joinSQL [linkedItem] := by
    rw [among_joinSQL asciiMapping rfl, joinRows_eq]
    exact List.mem_singleton.mpr rfl
  refine ⟨_, joined, by decide +kernel, ?_⟩
  exact authorization_decision_and_evidence asciiMapping grantOneScope grantOne rfl .zero
    (linkedStatement .zero) [] (List.append_nil _).symm [linkedItem] _ joined

end DevHealth.Readers

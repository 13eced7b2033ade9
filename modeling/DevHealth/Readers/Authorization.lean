import DevHealth.Readers.Selectors

/-! # Work-item authorization

`WorkItemScopeSQLAmong` and the joins it renders.  `JoinSQL` is the list of its `LEFT JOIN`
clauses; a clause is the relation on its right side, the condition, and what its columns
are for a row that matches nothing.  The expressions are the texts of the source. -/
set_option autoImplicit false
namespace DevHealth.Readers

open Go Lib Lib.Sql Lib.Relation Clickhouse

/-! ## Candidates -/

def workItemCandidateIDsBinding : String := "wia_candidate_work_item_ids"

def reservedWorkItemBindingName (name : Bytes) : Bool :=
  name == ascii "org_id" || name == ascii "ids" ||
    ["authorized_", "requested_", "wia_"].any fun start => (ascii start).isPrefixOf name

/-- The candidate sets the package builds: none, a bound list, or a subquery of the caller
whose bindings have names of their own. -/
inductive BuiltCandidates : Sql → List Binding → Prop
  | zero : BuiltCandidates [] []
  | ids (ids : List Bytes) :
      BuiltCandidates [.param workItemCandidateIDsBinding]
        [⟨ascii workItemCandidateIDsBinding, .strings ids⟩]
  | subquery (selectSQL : String) (bindings : List Binding)
      (filled : trimSpace (ascii selectSQL) ≠ [])
      (free : ∀ b ∈ bindings, reservedWorkItemBindingName b.name = false) :
      BuiltCandidates [.subquery selectSQL] bindings

structure WorkItemCandidates where
  relation : Sql
  bindings : List Binding
  built : BuiltCandidates relation bindings

namespace WorkItemCandidates

def zero : WorkItemCandidates := ⟨[], [], .zero⟩

end WorkItemCandidates

def workItemCandidateIDs (ids : Option (List Bytes)) : WorkItemCandidates :=
  ⟨_, _, .ids (ids.getD [])⟩

/-- A blank subquery or a reserved name is a programming error. -/
def workItemCandidateSubquery (selectSQL : String) (bindings : List Binding) :
    Option WorkItemCandidates :=
  if filled : trimSpace (ascii selectSQL) = [] then none
  else if free : ∀ b ∈ bindings, reservedWorkItemBindingName b.name = false then
    some ⟨_, _, .subquery selectSQL bindings filled free⟩
  else none

/-! ## Left joins -/

/-- A row of `work_items AS w` with the tables joined to it so far. -/
structure JoinedRow where
  item : WorkItem
  joined : Scope

def JoinedRow.tables (row : JoinedRow) : Scope := (some .w, row.item.get) :: row.joined

structure LeftJoin where
  table : Alias
  right : Statement → List Row
  unmatched : Engine → Row
  on : Sql

def LeftJoin.apply (s : Statement) (rows : List JoinedRow) (join : LeftJoin) : List JoinedRow :=
  (leftJoin (fun row right => s.passes (row.tables ++ [(some join.table, right)]) join.on) rows
    (join.right s)).map fun (row, right) =>
      { row with
        joined := row.joined ++
          [(some join.table, right.getD (join.unmatched s.server.engine))] }

/-- `FROM work_items AS w` with the clauses appended. -/
def joinRows (s : Statement) (joins : List LeftJoin) (items : List WorkItem) : List JoinedRow :=
  joins.foldl (LeftJoin.apply s) (items.map fun item => ⟨item, []⟩)

/-- A column of an unmatched row: NULL or the default of its type, by the setting. -/
def unmatchedColumn (engine : Engine) (default : Value) : Value :=
  if engine.joinUseNulls then .null else default

/-! ## The repository of an item -/

def workItemRepositoryOn : Sql :=
  [.column (Alias.r.dot .id), .cmp .eq, .column (Alias.w.dot .repoId), .and,
    .column (Alias.r.dot .orgId), .cmp .eq, .column (Alias.w.dot .orgId)]

def Repo.unmatched (engine : Engine) : Row
  | .orgId => some (unmatchedColumn engine (.str []))
  | .id => some (unmatchedColumn engine (.uuid .zero))
  | .repo => some (unmatchedColumn engine (.str []))
  | _ => none

def workItemRepositoryJoin : LeftJoin where
  table := .r
  right := fun s => s.db.repos.rows.map Repo.get
  unmatched := Repo.unmatched
  on := workItemRepositoryOn

def workItemRepoPresent : Sql := keyPresentSQL (Alias.w.dot .repoId) .uuidKey

/-! ## Repositories through the project -/

def Statement.text (s : Statement) (tables : Scope) (expression : Sql) : Bytes :=
  ((value (s.env tables) expression).bind asStr).getD []

/-- `arraySort(groupUniqArray(…))` -/
def sortedUnique (values : List Bytes) : List Bytes := sortStrings values.dedup

def organizationRepos (s : Statement) : List Repo :=
  s.db.repos.rows.filter fun r => s.passes [(none, r.get)] orgScope

/-- The distinct pairs of provider and project the candidates carry. -/
def candidateScopes (s : Statement) (relation : Sql) : List (Bytes × Option Bytes) :=
  ((s.db.workItems.filter fun w => s.passes [(none, w.get)]
    (sql [orgScope, [.and, .column (bare .workItemId), .inSet], relation])).map
      fun w => (w.provider, w.projectId)).dedup

/-- `(provider, scope) IN candidateScopes` -/
def amongScopes (s : Statement) (relation : Sql) (r : IdentityScope) : Bool :=
  decide ((r.provider, some r.scope) ∈ candidateScopes s relation)

def currentOwnership : Sql := ownershipValidityPredicate { active := false, hasStart := false }

def ownedProjectsSQL (s : Statement) (candidates : WorkItemCandidates) : List ProjectTeam :=
  let owned := projectOwnershipCatalogJoinSQL s currentOwnership
  if candidates.relation = [] then owned
  else
    let kept := (projectIdentityCatalogSQL s).filter (amongScopes s candidates.relation)
    owned.filter fun p => decide ((p.provider, p.id) ∈ kept.map fun r => (r.provider, r.id))

def projectScopesSQL (s : Statement) (candidates : WorkItemCandidates) : List IdentityScope :=
  if candidates.relation = [] then projectIdentityCatalogSQL s
  else (projectIdentityCatalogSQL s).filter (amongScopes s candidates.relation)

structure OwnedRepository where
  provider : Bytes
  id : Bytes
  repository : Bytes

def OwnedRepository.get (o : OwnedRepository) : Row
  | .wiaOwnedProvider => some (.str o.provider)
  | .wiaOwnedId => some (.str o.id)
  | _ => none

def ownedTables (row : (ProjectTeam × TeamRepo) × Repo) : Scope :=
  [(some .wiaOwnedProject, row.1.1.get), (some .wiaTeamRepo, row.1.2.get),
    (some .wiaOwnedRepo, row.2.get)]

/-- The granted repositories of the teams that own the projects. -/
def ownedRepositoriesSQL (s : Statement) (selector : String) (projects : List ProjectTeam) :
    List OwnedRepository :=
  let teams := innerJoin
    (fun (p : ProjectTeam) (t : TeamRepo) =>
      s.passes [(some .wiaOwnedProject, p.get), (some .wiaTeamRepo, t.get)]
        [.column (Alias.wiaTeamRepo.dot .teamId), .cmp .eq,
          .column (Alias.wiaOwnedProject.dot .teamId)])
    projects (teamRepositoryOwnershipSQL s currentOwnership)
  let repos := innerJoin
    (fun (pair : ProjectTeam × TeamRepo) (r : Repo) => s.passes (ownedTables (pair, r))
      [.column (Alias.wiaOwnedRepo.dot .id), .cmp .eq, .column (Alias.wiaTeamRepo.dot .repoId)])
    teams (organizationRepos s)
  (repos.filter fun row => s.passes (ownedTables row)
    (grantedRepositoryMatchSQL selector (Alias.wiaOwnedRepo.dot .repo))).map fun row =>
      { provider := row.1.1.provider
        id := row.1.1.id
        repository := s.text (ownedTables row) (repositorySlugSQL (Alias.wiaOwnedRepo.dot .repo)) }

structure ProjectAuth where
  provider : Bytes
  scope : Bytes
  repositories : List Bytes

def ProjectAuth.get (a : ProjectAuth) : Row
  | .wiaProjectProvider => some (.str a.provider)
  | .wiaProjectScope => some (.str a.scope)
  | .wiaProjectRepositories => some (.array a.repositories)
  | _ => none

/-- An array column cannot be NULL. -/
def ProjectAuth.unmatched (engine : Engine) : Row
  | .wiaProjectProvider => some (unmatchedColumn engine (.str []))
  | .wiaProjectScope => some (unmatchedColumn engine (.str []))
  | .wiaProjectRepositories => some (.array [])
  | _ => none

def ownedOn : Sql :=
  [.column (Alias.wiaOwned.dot .wiaOwnedProvider), .cmp .eq, .column (Alias.wiaScope.dot .provider),
    .and, .column (Alias.wiaOwned.dot .wiaOwnedId), .cmp .eq, .column (Alias.wiaScope.dot .id)]

def projectAuthSQL (s : Statement) (selector : String) (candidates : WorkItemCandidates) :
    List ProjectAuth :=
  let owned := ownedRepositoriesSQL s selector (ownedProjectsSQL s candidates)
  groupBy (fun pair : IdentityScope × OwnedRepository => (pair.1.provider, pair.1.scope))
    (fun (provider, scope) group =>
      { provider, scope, repositories := sortedUnique (group.map fun pair => pair.2.repository) })
    (innerJoin
      (fun (p : IdentityScope) (o : OwnedRepository) =>
        s.passes [(some .wiaScope, p.get), (some .wiaOwned, o.get)] ownedOn)
      (projectScopesSQL s candidates) owned)

def projectAuthOn : Sql :=
  [.column (Alias.wiaProjectAuth.dot .wiaProjectProvider), .cmp .eq,
    .column (Alias.w.dot .provider), .and, .column (Alias.wiaProjectAuth.dot .wiaProjectScope),
    .cmp .eq, .column (Alias.w.dot .projectId)]

def workItemProjectAuthorizationJoinSQL (selector : String) (candidates : WorkItemCandidates) :
    LeftJoin where
  table := .wiaProjectAuth
  right := fun s => (projectAuthSQL s selector candidates).map ProjectAuth.get
  unmatched := ProjectAuth.unmatched
  on := projectAuthOn

/-! ## Repositories through linked pull requests -/

def workItemAuthorizingLinkProvenance : Bytes := ascii "native"

def authorizingLink : Sql :=
  [.column (Alias.wiaLink.dot .provenance), .cmp .eq, .str workItemAuthorizingLinkProvenance]

structure LinkAuth where
  workItemId : Bytes
  repositories : List Bytes
  excludedProvenances : List Bytes

def LinkAuth.get (a : LinkAuth) : Row
  | .wiaLinkWorkItemId => some (.str a.workItemId)
  | .wiaLinkRepositories => some (.array a.repositories)
  | .wiaLinkExcludedProvenances => some (.array a.excludedProvenances)
  | _ => none

def LinkAuth.unmatched (engine : Engine) : Row
  | .wiaLinkWorkItemId => some (unmatchedColumn engine (.str []))
  | .wiaLinkRepositories => some (.array [])
  | .wiaLinkExcludedProvenances => some (.array [])
  | _ => none

def linkTables (pair : IssuePrLink × Repo) : Scope :=
  [(some .wiaLink, pair.1.get), (some .wiaLinkRepo, pair.2.get)]

def linkWhere (selector : String) (candidates : WorkItemCandidates) : Sql :=
  let among : Sql :=
    if candidates.relation = [] then []
    else sql [[.column (Alias.wiaLink.dot .workItemId), .inSet], candidates.relation, [.and]]
  sql [[.column (Alias.wiaLink.dot .orgId), .cmp .eq, .param "org_id", .and], among,
    keyPresentSQL (Alias.wiaLink.dot .workItemId) .stringKey, [.and],
    keyPresentSQL (Alias.wiaLink.dot .repoId) .uuidKey, [.and],
    grantedRepositoryMatchSQL selector (Alias.wiaLinkRepo.dot .repo)]

def linkAuthSQL (s : Statement) (selector : String) (candidates : WorkItemCandidates) :
    List LinkAuth :=
  let links := innerJoin
    (fun (l : IssuePrLink) (r : Repo) => s.passes (linkTables (l, r))
      [.column (Alias.wiaLinkRepo.dot .id), .cmp .eq, .column (Alias.wiaLink.dot .repoId)])
    s.db.workGraphIssuePr (organizationRepos s)
  groupBy (fun pair : IssuePrLink × Repo => pair.1.workItemId)
    (fun workItemId group =>
      { workItemId
        repositories := sortedUnique
          ((group.filter fun pair => s.passes (linkTables pair) authorizingLink).map
            fun pair => s.text (linkTables pair) (repositorySlugSQL (Alias.wiaLinkRepo.dot .repo)))
        excludedProvenances := sortedUnique
          ((group.filter fun pair =>
              s.passes (linkTables pair) (sql [[.not, .lparen], authorizingLink, [.rparen]])).map
            fun pair =>
              s.text (linkTables pair) [.column (Alias.wiaLink.dot .provenance)]) })
    (links.filter fun pair => s.passes (linkTables pair) (linkWhere selector candidates))

def linkAuthOn : Sql :=
  [.column (Alias.wiaLinkAuth.dot .wiaLinkWorkItemId), .cmp .eq, .column (Alias.w.dot .workItemId)]

def workItemPullRequestLinkJoinSQL (selector : String) (candidates : WorkItemCandidates) :
    LeftJoin where
  table := .wiaLinkAuth
  right := fun s => (linkAuthSQL s selector candidates).map LinkAuth.get
  unmatched := LinkAuth.unmatched
  on := linkAuthOn

/-! ## The expressions -/

inductive WorkItemAuthorizationPath where
  | organizationGrant
  | directRepository
  | projectOwnership
  | pullRequestLink
  deriving DecidableEq

def WorkItemAuthorizationPath.text : WorkItemAuthorizationPath → String
  | .organizationGrant => "organization_grant"
  | .directRepository => "direct_repo"
  | .projectOwnership => "project_ownership"
  | .pullRequestLink => "pr_link"

def workItemAuthorizationPaths : List WorkItemAuthorizationPath :=
  [.organizationGrant, .directRepository, .projectOwnership, .pullRequestLink]

structure WorkItemAuthorizationPathSQL where
  path : WorkItemAuthorizationPath
  expr : Sql
  repositoriesExpr : Sql

structure WorkItemScopeSQLResult where
  joinSQL : List LeftJoin
  authorizationExpr : Sql
  bindings : List Binding
  provenance : List WorkItemAuthorizationPathSQL
  excludedLinkProvenancesExpr : Sql

def emptyRepositories : Sql :=
  [.func .cast, .lparen, .lbracket, .rbracket, .comma, .str (ascii "Array(String)"), .rparen]

def projectRepositories : Sql := [.column (Alias.wiaProjectAuth.dot .wiaProjectRepositories)]

def linkRepositories : Sql := [.column (Alias.wiaLinkAuth.dot .wiaLinkRepositories)]

def boolToFlag (value : Bool) : UInt8 := if value then 1 else 0

def organizationExpr (selector : String) : Sql :=
  [.param (selector ++ "_repo_all"), .cmp .eq, .int 1]

def directExpr (selector : String) : Sql :=
  sql [[.lparen], workItemRepoPresent, [.and], workItemRepoSlugValid, [.and],
    repositorySelectorMatch selector, [.rparen]]

def repoLess : Sql := sql [[.not, .lparen], workItemRepoPresent, [.rparen]]

def projectExpr : Sql :=
  sql [[.lparen], repoLess, [.and], keyPresentSQL (Alias.w.dot .projectId) .stringKey,
    [.and, .func .notEmpty, .lparen], projectRepositories, [.rparen, .rparen]]

def linkExpr : Sql :=
  sql [[.lparen], repoLess, [.and, .func .notEmpty, .lparen], linkRepositories,
    [.rparen, .rparen]]

def selectorBindings (selector : String) (all : Bool) (slugs owners : List Bytes) : List Binding :=
  [⟨ascii (selector ++ "_repo_all"), .uint (boolToFlag all).toUInt64⟩,
    ⟨ascii (selector ++ "_repo_slugs"), .strings slugs⟩, ⟨ascii (selector ++ "_repo_owners"), .strings owners⟩]

variable (mapping : CaseMapping)

def renderRepositorySelectorSet (set : RepositorySelectorSet) (selector : String) :
    Sql × List Binding × List WorkItemAuthorizationPathSQL :=
  let exactSlugs := normalizeRepositorySlugs mapping set.exactSlugs
  let owners := normalizeRepositoryOwners mapping set.owners
  let paths : List WorkItemAuthorizationPathSQL :=
    [⟨.organizationGrant, organizationExpr selector, emptyRepositories⟩,
      ⟨.directRepository, directExpr selector, sql [[.lbracket], workItemRepoSlug, [.rbracket]]⟩,
      ⟨.projectOwnership, projectExpr, projectRepositories⟩,
      ⟨.pullRequestLink, linkExpr, linkRepositories⟩]
  let selectorMatch := sql [[.lparen], organizationExpr selector, [.or], directExpr selector, [.or],
    projectExpr, [.or], linkExpr, [.rparen]]
  (selectorMatch, selectorBindings selector set.all exactSlugs owners, paths)

def requestedExpr : Sql :=
  let validMatch := sql [[.lparen], workItemRepoSlugValid, [.and],
    repositorySelectorMatch "requested", [.rparen]]
  sql [[.lparen], workItemRepoPresent, [.and], workItemRepoNamed,
    [.and, .lparen, .param "requested_repo_all", .cmp .eq, .int 1, .or], validMatch,
    [.rparen, .rparen]]

def renderRequestedRepositorySelectorSet (set : RepositorySelectorSet) : Sql × List Binding :=
  let exactSlugs := normalizeRepositorySlugs mapping set.exactSlugs
  let owners := normalizeRepositoryOwners mapping set.owners
  (requestedExpr, selectorBindings "requested" set.all exactSlugs owners)

/-- `toString(w.repo_id) IN {param}`, for a list that is not nil. -/
def repositoryIDRestriction (param : String) (ids : Option (List Bytes)) : List (Sql × Binding) :=
  ids.toList.map fun ids =>
    ([.func .toString, .lparen, .column (Alias.w.dot .repoId), .rparen, .inSet, .param param],
      ⟨ascii param, .strings ids⟩)

/-- A path with the restrictions of the request, and its evidence while it is true. -/
def restrictPath (restrictions : List Sql) (path : WorkItemAuthorizationPathSQL) :
    WorkItemAuthorizationPathSQL :=
  let expr := join [.and] (path.expr :: restrictions)
  { path := path.path
    expr
    repositoriesExpr := sql [[.func .cond, .lparen], expr, [.comma], path.repositoriesExpr,
      [.comma], emptyRepositories, [.rparen]] }

def excludedLinkProvenances : Sql :=
  sql [[.func .cond, .lparen], repoLess,
    [.comma, .column (Alias.wiaLinkAuth.dot .wiaLinkExcludedProvenances), .comma],
    emptyRepositories, [.rparen]]

def workItemScopeSQLAmong (scope : AuthorizationScope) (candidates : WorkItemCandidates) :
    WorkItemScopeSQLResult :=
  let ids := repositoryIDRestriction "authorized_repo_ids" scope.grantedRepositoryIDs ++
    repositoryIDRestriction "requested_repo_ids" scope.requestedRepositoryIDs
  let expressions := ids.map Prod.fst
  let bindings := ids.map Prod.snd
  match scope.repositorySelectors with
  | none =>
    { joinSQL := []
      authorizationExpr := if expressions = [] then [.int 1] else join [.and] expressions
      bindings
      provenance := []
      excludedLinkProvenancesExpr := [] }
  | some selectors =>
    let (grantedExpr, grantedBindings, paths) :=
      renderRepositorySelectorSet mapping selectors.granted "authorized"
    let requested := selectors.requested.toList.map (renderRequestedRepositorySelectorSet mapping)
    let restrictions := expressions ++ requested.map Prod.fst
    { joinSQL := [workItemRepositoryJoin,
        workItemProjectAuthorizationJoinSQL "authorized" candidates,
        workItemPullRequestLinkJoinSQL "authorized" candidates]
      authorizationExpr := join [.and] (expressions ++ [grantedExpr] ++ requested.map Prod.fst)
      bindings := bindings ++ candidates.bindings ++ grantedBindings ++
        requested.flatMap Prod.snd
      provenance := paths.map (restrictPath restrictions)
      excludedLinkProvenancesExpr := excludedLinkProvenances }

def workItemScopeSQL (scope : AuthorizationScope) : WorkItemScopeSQLResult :=
  workItemScopeSQLAmong mapping scope .zero

end DevHealth.Readers

import DevHealth.Readers.TimeBound

/-! # Project identity and ownership

The fragments of `ownership.go`: the identity values a project answers to, the teams that
own a project, and the repositories a team owns.  Each is the relation its `SELECT`
gives, clause by clause; the conditions are the texts of the source. -/
set_option autoImplicit false
namespace DevHealth.Readers

open Go Lib Lib.Sql Lib.Relation Clickhouse

/-! ## Presence of a key -/

inductive KeyKind where
  | uuidKey
  | stringKey
  deriving DecidableEq

def zeroUUID : Bytes := ascii "00000000-0000-0000-0000-000000000000"

def keyPresentSQL (column : Column) : KeyKind → Sql
  | .uuidKey =>
    [.func .toString, .lparen, .column column, .rparen, .cmp .ne, .str [], .and,
      .func .toString, .lparen, .column column, .rparen, .cmp .ne, .str zeroUUID]
  | .stringKey => [.column column, .cmp .ne, .str []]

/-! ## Validity of an ownership row -/

def TimeBound.param (bound : TimeBound) : String :=
  if bound.hasStart then boundStartParam else boundEndParam

def ownershipValidityPredicate (bound : TimeBound) : Sql :=
  if bound.active then
    [.and, .lparen, .column (bare .validTo), .isNull, .or, .column (bare .validTo), .cmp .gt,
      .param bound.param, .rparen]
  else
    [.and, .column (bare .validFrom), .cmp .le, .func .now64, .lparen, .int 3, .rparen, .and,
      .column (bare .validTo), .isNull]

/-! ## Project identity -/

structure ProjectIdentity where
  provider : Bytes
  id : Bytes
  projectKey : Bytes
  keyResolutionCount : Nat
  deriving DecidableEq

def ProjectIdentity.get (p : ProjectIdentity) : Row
  | .provider => some (.str p.provider)
  | .id => some (.str p.id)
  | .projectKey => some (.str p.projectKey)
  | .keyResolutionCount => some (.int p.keyResolutionCount)
  | _ => none

/-- `ifNull(project_key, '')` -/
def Project.key (p : Project) : Bytes := p.projectKey.getD []

def orgScope : Sql := [.column (bare .orgId), .cmp .eq, .param "org_id"]

/-- Every project of the organization, with how many projects share its key. -/
def projectIdentityCatalogRowsSQL (s : Statement) : List ProjectIdentity :=
  let projects := s.db.projects.rows.filter fun p => s.passes [(none, p.get)] orgScope
  projects.map fun p =>
    { provider := p.provider
      id := p.id
      projectKey := p.key
      keyResolutionCount :=
        countOver (fun q => (q.provider, q.key)) (fun q => q.key != []) projects p }

/-- The requested projects; the count stays over the whole organization. -/
def projectIdentityRowsSQL (s : Statement) : List ProjectIdentity :=
  (projectIdentityCatalogRowsSQL s).filter fun p =>
    s.passes [(none, p.get)]
      [.func .concat, .lparen, .column (bare .provider), .comma, .str (ascii ":"), .comma,
        .column (bare .id), .rparen, .inSet, .param "ids"]

structure IdentityScope where
  provider : Bytes
  id : Bytes
  projectKey : Bytes
  keyResolutionCount : Nat
  scope : Bytes
  scopeKind : Bytes
  deriving DecidableEq

def IdentityScope.get (p : IdentityScope) : Row
  | .provider => some (.str p.provider)
  | .id => some (.str p.id)
  | .projectKey => some (.str p.projectKey)
  | .keyResolutionCount => some (.int p.keyResolutionCount)
  | .scope => some (.str p.scope)
  | .scopeKind => some (.str p.scopeKind)
  | _ => none

def keyScopeEmitted : Sql :=
  [.lparen, .column (bare .projectKey), .cmp .ne, .str [], .and,
    .column (bare .keyResolutionCount), .cmp .eq, .int 1, .rparen]

def maxStr : List Bytes → Bytes
  | [] => []
  | [a] => a
  | a :: rest => if strLe a (maxStr rest) then maxStr rest else a

/-- `ARRAY JOIN` of the three arrays of one project, element by element. -/
def scopeRows (emitted : Bool) (p : ProjectIdentity) : List IdentityScope :=
  let scope := if emitted then [p.id, p.projectKey] else [p.id]
  let scopeKind := if emitted then [ascii "id", ascii "key"] else [ascii "id"]
  let keyResolutionCount := if emitted then [1, p.keyResolutionCount] else [1]
  (scope.zip (scopeKind.zip keyResolutionCount)).map fun (value, kind, count) =>
    { provider := p.provider
      id := p.id
      projectKey := p.projectKey
      keyResolutionCount := count
      scope := value
      scopeKind := kind }

/-- One row for each identity value a project answers to. -/
def projectIdentityExpansionSQL (s : Statement) (rows : List ProjectIdentity) :
    List IdentityScope :=
  groupBy (fun r : IdentityScope => (r.provider, r.id, r.projectKey, r.keyResolutionCount, r.scope))
    (fun (provider, id, projectKey, keyResolutionCount, scope) group =>
      { provider, id, projectKey, keyResolutionCount, scope
        scopeKind := maxStr (group.map IdentityScope.scopeKind) })
    (rows.flatMap fun p => scopeRows (s.passes [(none, p.get)] keyScopeEmitted) p)

def projectIdentityJoinSQL (s : Statement) : List IdentityScope :=
  projectIdentityExpansionSQL s (projectIdentityRowsSQL s)

def projectIdentityCatalogSQL (s : Statement) : List IdentityScope :=
  projectIdentityExpansionSQL s (projectIdentityCatalogRowsSQL s)

/-- The match of a column that carries a project identity. -/
def projectIdentityMatchSQL (table : Alias) (column : Name) : Sql :=
  [.column (table.dot column), .cmp .eq, .column (Alias.p.dot .scope)]

/-! ## Ownership of projects -/

structure OwnershipValue where
  provider : Bytes
  scopeValue : Bytes
  teamId : Bytes
  requiredScopeKind : Bytes
  deriving DecidableEq

def OwnershipValue.get (o : OwnershipValue) : Row
  | .provider => some (.str o.provider)
  | .scopeValue => some (.str o.scopeValue)
  | .teamId => some (.str o.teamId)
  | .requiredScopeKind => some (.str o.requiredScopeKind)
  | _ => none

structure ProjectTeam where
  provider : Bytes
  id : Bytes
  teamId : Bytes
  deriving DecidableEq

def ProjectTeam.get (p : ProjectTeam) : Row
  | .provider => some (.str p.provider)
  | .id => some (.str p.id)
  | .teamId => some (.str p.teamId)
  | _ => none

/-- The arm of `project_id`, which matches a scope row of either kind. -/
def ownershipByProjectID (s : Statement) (ownershipPredicate : Sql) : List OwnershipValue :=
  groupBy (fun o : TeamProjectOwnership => (o.provider, o.projectId, o.teamId))
    (fun (provider, projectId, teamId) _ =>
      { provider, scopeValue := projectId, teamId, requiredScopeKind := [] })
    (s.db.teamProjectOwnership.filter fun o => s.passes [(none, o.get)]
      (orgScope ++ [.and, .column (bare .projectId), .isNotNull] ++ ownershipPredicate))

/-- The arm of `project_key`, which matches a key scope row only. -/
def ownershipByProjectKey (s : Statement) (ownershipPredicate : Sql) : List OwnershipValue :=
  groupBy (fun o : TeamProjectOwnership => (o.provider, o.projectKey, o.teamId))
    (fun (provider, projectKey, teamId) _ =>
      { provider, scopeValue := projectKey.getD [], teamId, requiredScopeKind := ascii "key" })
    (s.db.teamProjectOwnership.filter fun o => s.passes [(none, o.get)]
      (orgScope ++ [.and, .column (bare .projectKey), .isNotNull, .and,
        .column (bare .projectKey), .cmp .ne, .str []] ++ ownershipPredicate))

def projectOwnershipJoinOver (s : Statement) (projects : List IdentityScope)
    (ownershipPredicate : Sql) : List ProjectTeam :=
  let ownership := ownershipByProjectID s ownershipPredicate ++
    ownershipByProjectKey s ownershipPredicate
  let joined := innerJoin
    (fun (p : IdentityScope) (o : OwnershipValue) =>
      s.passes [(some .p, p.get), (some .o, o.get)]
        [.column (Alias.o.dot .provider), .cmp .eq, .column (Alias.p.dot .provider), .and,
          .column (Alias.o.dot .scopeValue), .cmp .eq, .column (Alias.p.dot .scope)])
    projects ownership
  groupBy (fun pair : IdentityScope × OwnershipValue =>
      (pair.1.provider, pair.1.id, pair.2.teamId))
    (fun (provider, id, teamId) _ => { provider, id, teamId })
    (joined.filter fun (p, o) => s.passes [(some .p, p.get), (some .o, o.get)]
      [.column (Alias.o.dot .requiredScopeKind), .cmp .eq, .str [], .or,
        .column (Alias.p.dot .scopeKind), .cmp .eq, .column (Alias.o.dot .requiredScopeKind)])

def projectOwnershipJoinSQL (s : Statement) (ownershipPredicate : Sql) : List ProjectTeam :=
  projectOwnershipJoinOver s (projectIdentityJoinSQL s) ownershipPredicate

def projectOwnershipCatalogJoinSQL (s : Statement) (ownershipPredicate : Sql) :
    List ProjectTeam :=
  projectOwnershipJoinOver s (projectIdentityCatalogSQL s) ownershipPredicate

/-! ## Ownership of repositories -/

structure TeamRepo where
  teamId : Bytes
  repoId : Option Uuid
  deriving DecidableEq

def TeamRepo.get (t : TeamRepo) : Row
  | .teamId => some (.str t.teamId)
  | .repoId => some (.ofOption .uuid t.repoId)
  | _ => none

def teamRepositoryOwnershipSQL (s : Statement) (ownershipPredicate : Sql) : List TeamRepo :=
  groupBy (fun o : TeamRepoOwnership => (o.teamId, o.repoId))
    (fun (teamId, repoId) _ => { teamId, repoId })
    (s.db.teamRepoOwnership.filter fun o => s.passes [(none, o.get)]
      (orgScope ++ .and :: keyPresentSQL (bare .repoId) .uuidKey ++ ownershipPredicate))

end DevHealth.Readers

import DevHealth.Clickhouse.Bindings
import DevHealth.Clickhouse.Expression
import DevHealth.Lib.Relation
import DevHealth.Repokey

/-! # Statements of the readers

The tables the work-item authorization reads, with the columns it reads of them, and a
statement: the server it runs on, the tables and the values bound to its parameters.  A
fragment of a statement is the relation it selects, and the conditions in it are texts
that are read by operator precedence and evaluated with NULL as a third value. -/
set_option autoImplicit false
namespace DevHealth.Readers

open Go Lib Lib.Relation Clickhouse

/-! ## Columns -/

inductive Name where
  | orgId
  | id
  | repo
  | repoId
  | workItemId
  | provider
  | projectId
  | projectKey
  | teamId
  | validFrom
  | validTo
  | provenance
  | keyResolutionCount
  | scope
  | scopeKind
  | scopeValue
  | requiredScopeKind
  | workScopeId
  | wiaOwnedProvider
  | wiaOwnedId
  | wiaProjectProvider
  | wiaProjectScope
  | wiaProjectRepositories
  | wiaLinkWorkItemId
  | wiaLinkRepositories
  | wiaLinkExcludedProvenances
  deriving DecidableEq

inductive Alias where
  | w
  | r
  | p
  | o
  | ec
  | cf
  | wiaScope
  | wiaOwned
  | wiaOwnedProject
  | wiaTeamRepo
  | wiaOwnedRepo
  | wiaProjectAuth
  | wiaLink
  | wiaLinkRepo
  | wiaLinkAuth
  deriving DecidableEq

structure Column where
  table : Option Alias
  name : Name
  deriving DecidableEq

def Alias.dot (a : Alias) (name : Name) : Column := ⟨some a, name⟩

def bare (name : Name) : Column := ⟨none, name⟩

abbrev Sql := Text Column

def sql (parts : List Sql) : Sql := parts.flatten

abbrev Row := Name → Option Value

/-- The tables in the scope of an expression.  A qualified name is a column of its table,
and a bare name of the first table that has it. -/
abbrev Scope := List (Option Alias × Row)

def Scope.column (tables : Scope) (c : Column) : Option Value :=
  match c.table with
  | some a => (tables.find? fun t => t.1 == some a).bind fun t => t.2 c.name
  | none => tables.findSome? fun t => t.2 c.name

/-! ## Tables -/

structure WorkItem where
  orgId : Bytes
  workItemId : Bytes
  provider : Bytes
  repoId : Option Uuid
  projectId : Option Bytes
  deriving DecidableEq

structure Repo where
  orgId : Bytes
  id : Uuid
  repo : Bytes
  deriving DecidableEq

structure Project where
  orgId : Bytes
  provider : Bytes
  id : Bytes
  projectKey : Option Bytes
  deriving DecidableEq

structure TeamProjectOwnership where
  orgId : Bytes
  provider : Bytes
  teamId : Bytes
  projectId : Bytes
  projectKey : Option Bytes
  validFrom : Int
  validTo : Option Int

structure TeamRepoOwnership where
  orgId : Bytes
  teamId : Bytes
  repoId : Option Uuid
  validFrom : Int
  validTo : Option Int

/-- A row of `work_graph_issue_pr`. -/
structure IssuePrLink where
  orgId : Bytes
  repoId : Uuid
  workItemId : Bytes
  provenance : Bytes

def WorkItem.get (w : WorkItem) : Row
  | .orgId => some (.str w.orgId)
  | .workItemId => some (.str w.workItemId)
  | .provider => some (.str w.provider)
  | .repoId => some (.ofOption .uuid w.repoId)
  | .projectId => some (.ofOption .str w.projectId)
  | _ => none

def Repo.get (r : Repo) : Row
  | .orgId => some (.str r.orgId)
  | .id => some (.uuid r.id)
  | .repo => some (.str r.repo)
  | _ => none

def Project.get (p : Project) : Row
  | .orgId => some (.str p.orgId)
  | .provider => some (.str p.provider)
  | .id => some (.str p.id)
  | .projectKey => some (.ofOption .str p.projectKey)
  | _ => none

def TeamProjectOwnership.get (o : TeamProjectOwnership) : Row
  | .orgId => some (.str o.orgId)
  | .provider => some (.str o.provider)
  | .teamId => some (.str o.teamId)
  | .projectId => some (.str o.projectId)
  | .projectKey => some (.ofOption .str o.projectKey)
  | .validFrom => some (.time o.validFrom)
  | .validTo => some (.ofOption .time o.validTo)
  | _ => none

def TeamRepoOwnership.get (o : TeamRepoOwnership) : Row
  | .orgId => some (.str o.orgId)
  | .teamId => some (.str o.teamId)
  | .repoId => some (.ofOption .uuid o.repoId)
  | .validFrom => some (.time o.validFrom)
  | .validTo => some (.ofOption .time o.validTo)
  | _ => none

def IssuePrLink.get (l : IssuePrLink) : Row
  | .orgId => some (.str l.orgId)
  | .repoId => some (.uuid l.repoId)
  | .workItemId => some (.str l.workItemId)
  | .provenance => some (.str l.provenance)
  | _ => none

def Repo.sortingKey (r : Repo) : Bytes × Uuid := (r.orgId, r.id)

def Project.sortingKey (p : Project) : Bytes × Bytes × Bytes := (p.orgId, p.provider, p.id)

/-- The tables.  `FINAL` reads one row for each sorting key of `repos` and `projects`; of
the other tables nothing depends on it. -/
structure Database where
  workItems : List WorkItem
  repos : Keyed Repo.sortingKey
  projects : Keyed Project.sortingKey
  teamProjectOwnership : List TeamProjectOwnership
  teamRepoOwnership : List TeamRepoOwnership
  workGraphIssuePr : List IssuePrLink

/-! ## Statements -/

/-- What the server has for a bound value, read at the type its parameter is declared with; no statement here
binds an `int`. -/
def boundValue : BindingValue → Option Value
  | .nil => some .null
  | .time t => some (.micros (t.wall / 1000000 * 1000))
  | .strings values => some (.array values)
  | .string s => some (.str s)
  | .uint n => some (.int n.toNat)
  | .int _ | .slice | .other => none

def boundIn (bindings : List Binding) (name : String) : Option BindingValue :=
  (bindings.find? fun b => b.name == ascii name).map Binding.value

/-- A server whose `match` reads the slug pattern as Go's `regexp` does: both take the
syntax of RE2. -/
structure Server where
  engine : Engine
  slugPattern : ∀ slug, engine.search slug Repokey.slugPatternText =
    Repokey.slugPattern.accepts slug

/-- A statement as `QueryOrgScopedNamed` sends it; `select` answers a subquery of the
caller. -/
structure Statement where
  server : Server
  db : Database
  select : String → Option (List Bytes)
  orgID : Bytes
  ids : List Bytes
  extra : List Binding

namespace Statement

def bindings (s : Statement) : List Binding :=
  [⟨ascii "org_id", .string s.orgID⟩, ⟨ascii "ids", .strings s.ids⟩] ++ s.extra

def param (s : Statement) (name : String) : Option Value :=
  (boundIn s.bindings name).bind boundValue

def env (s : Statement) (tables : Scope) : Env Column where
  engine := s.server.engine
  column := tables.column
  param := s.param
  subquery := s.select

def passes (s : Statement) (tables : Scope) (condition : Sql) : Bool :=
  holds (s.env tables) condition

theorem env_engine (s : Statement) (tables : Scope) : (s.env tables).engine = s.server.engine := rfl

theorem param_orgID (s : Statement) : s.param "org_id" = some (.str s.orgID) := rfl

theorem param_ids (s : Statement) : s.param "ids" = some (.array s.ids) := rfl

/-- A text as the server reads it at the type of its parameter: a string as it is, a list and a number from
their digits and marks, and an instant in the form that all instants are sent in. -/
inductive ReadAs : Bytes → Value → Prop
  | null : ReadAs (ascii "\\\\N") .null
  | str (s : Bytes) : ReadAs s (.str s)
  | array {text : Bytes} {values : List Bytes} : readStringArray text = some values → ReadAs text (.array values)
  | int (n : Nat) : ReadAs (decimal n) (.int n)
  | time (t : Time) : ReadAs t.formatMillis (.micros (t.wall / 1000000 * 1000))

theorem readAs_boundValue {value : BindingValue} {text : Bytes} {v : Value}
    (sent : clickHouseParameter value = .ok text) (bound : boundValue value = some v) : ReadAs text v := by
  cases value with
  | nil =>
    obtain rfl := Except.ok.inj sent
    obtain rfl := Option.some.inj bound
    exact .null
  | time t =>
    obtain rfl := Except.ok.inj sent
    obtain rfl := Option.some.inj bound
    exact .time t
  | string s =>
    obtain rfl := Except.ok.inj sent
    obtain rfl := Option.some.inj bound
    exact .str s
  | uint n =>
    obtain rfl := Except.ok.inj sent
    obtain rfl := Option.some.inj bound
    exact .int n.toNat
  | int _ | slice | other => cases bound
  | strings values =>
    cases bound
    by_cases plain : ∀ value ∈ values, Clickhouse.backslash ∉ value
    · obtain rfl := Except.ok.inj ((stringArray_ok plain).symm.trans sent)
      exact .array (arrayMarks.read_write values)
    · push Not at plain
      obtain ⟨value, inside, marked⟩ := plain
      obtain ⟨e, refused⟩ := stringArray_error inside marked
      cases refused.symm.trans sent

/-- What a parameter is bound to is what is sent for it, as the server reads it. -/
theorem param_sent {s : Statement} {parameters : Parameters} (translated : translateBindings s.bindings = .ok parameters)
    {name : String} {v : Value} (bound : s.param name = some v) :
    ∃ text, parameters.lookup (ascii name) = some text ∧ ReadAs text v := by
  obtain ⟨value, found, reads⟩ := Option.bind_eq_some_iff.mp bound
  obtain ⟨b, first, rfl⟩ := Option.map_eq_some_iff.mp found
  obtain ⟨text, sent⟩ := translateLoop_ok translated b (List.mem_of_find?_eq_some first)
  refine ⟨text, ?_, readAs_boundValue sent reads⟩
  rw [lookup_translated translated, first, List.lookup_nil, Option.none_or, Option.bind_some, sent]
  rfl

end Statement

/-- A server as it behaves on ASCII names without white space other than spaces. -/
def asciiServer : Server where
  engine :=
    { lowerUTF8 := fun s => s.map fun b => if between 'A' 'Z' b then b + 32 else b
      replaceRegexpAll := fun s _ _ => s
      search := fun slug _ => Repokey.slugPattern.accepts slug
      now := 1000
      joinUseNulls := false }
  slugPattern := fun _ => rfl

end DevHealth.Readers

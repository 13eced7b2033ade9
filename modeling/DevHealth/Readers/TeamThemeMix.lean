import DevHealth.Readers.WorkUnits

/-! # The theme mix of teams

`ReadTeamThemeMix`.  A work unit names issues and pull requests as its evidence; each is
resolved to a work item, the work items to the teams they are attributed to, and the unit
goes to the team with the most of its work items.  The statement is modelled clause by
clause, in exact arithmetic and with the server's default settings, under which an outer
join fills a column that is not nullable with its default.  `org_id` is the organization
in every clause. -/
set_option autoImplicit false
namespace DevHealth.Readers

open Go Lib Lib.Relation Clickhouse Clickhouse.ByteOrder

/-! ## Tables -/

/-- A row of `repos`, with what the lookup reads. -/
structure RepoRow where
  orgId : Bytes
  id : Uuid
  repo : Bytes
  provider : Bytes
  lastSynced : Int
  deriving DecidableEq

inductive AttributionSource where
  | nativeTeam
  | linkedIssue
  | projectOwnership
  | repoOwnership
  | assigneeMembership
  | unassigned
  | issueProject
  | manualFallback
  deriving DecidableEq, Repr

/-- A row of `work_item_team_attributions`. -/
structure TeamAttribution where
  orgId : Bytes
  repoId : Uuid
  workItemId : Bytes
  teamId : Option Bytes
  teamName : Option Bytes
  source : AttributionSource
  isPrimary : Nat
  computedAt : Int
  deriving DecidableEq

def TeamAttribution.sortingKey (t : TeamAttribution) : Bytes × Uuid × Bytes × Bytes × AttributionSource :=
  (t.orgId, t.repoId, t.workItemId, t.teamId.getD [], t.source)

/-- What a read is made over.  `jsonExtract` is `JSONExtract(json, key, 'Array(String)')`. -/
structure ThemeRead where
  investments : Investments
  repos : List RepoRow
  attributions : Replacing TeamAttribution.sortingKey TeamAttribution.computedAt
  jsonExtract : Bytes → Bytes → List Bytes
  orgID : Bytes
  ids : List Bytes
  bound : TimeBound
  params : BoundParams

/-! ## Evidence -/

/-- The parts of a text between the occurrences of a separator, the first `skip` bytes left out. -/
def splitFrom (separator : Bytes) : Nat → Bytes → List Bytes
  | _, [] => [[]]
  | skip + 1, _ :: rest => splitFrom separator skip rest
  | 0, b :: rest =>
    if separator.isPrefixOf (b :: rest) then [] :: splitFrom separator (separator.length - 1) rest
    else
      match splitFrom separator 0 rest with
      | [] => [[b]]
      | first :: more => (b :: first) :: more

def splitByString (separator s : Bytes) : List Bytes := splitFrom separator 0 s

def pullMark : Bytes := ascii "#pr"

/-- `^[0-9a-fA-F-]{36}#pr[0-9]+$` -/
def pullRefPattern : Regex UInt8 :=
  .seq (.exactly (.cls fun b => between '0' '9' b || between 'a' 'f' b || between 'A' 'F' b || b == dash) 36)
    (.seq (.lit pullMark) (.plus (.cls (between '0' '9'))))

/-- A row of `repo_lookup`. -/
structure RepoLookup where
  repoUuid : Bytes
  repo : Bytes
  provider : Bytes
  deriving DecidableEq

def gitlab : Bytes := ascii "gitlab"

/-- `resolved_wi_id`: a pull request of a repository that is not known, or is not of one
provider, has no id. -/
def resolvedWorkItemId (ref : Bytes) (repository : Option RepoLookup) : Bytes :=
  let repo := (repository.map RepoLookup.repo).getD []
  let provider := (repository.map RepoLookup.provider).getD []
  if !pullRefPattern.accepts ref then ref
  else if repo = [] ∨ provider = [] then []
  else (if provider = gitlab then ascii "gitlab:" else ascii "ghpr:") ++ repo ++
    (if provider = gitlab then ascii "!" else ascii "#") ++ ((splitByString pullMark ref)[1]?).getD []

/-- `nullIf(value, '')` -/
def nullIfEmpty (value : Option Bytes) : Option Bytes := value.filter fun v => v ≠ []

/-- `max` of strings, without the NULLs. -/
def maxName (names : List (Option Bytes)) : Option Bytes := names.reduceOption.max?

/-! ## Votes -/

/-- The votes of a unit for a team; the empty team has those without a team. -/
structure TeamVote where
  workUnitId : Bytes
  teamId : Bytes
  teamName : Option Bytes
  cnt : Nat
  deriving DecidableEq

def TeamVote.rank (v : TeamVote) : Nat ×ₗ Bytes := toLex (v.cnt, v.teamId)

structure UnitTeam where
  workUnitId : Bytes
  teamId : Bytes
  teamName : Option Bytes
  deriving DecidableEq

/-- `ifNull(nullIf(team_id, ''), '')` of the attribution that was joined, if any. -/
def voteTeam (t : Option TeamAttribution) : Bytes := (nullIfEmpty (t.bind TeamAttribution.teamId)).getD []

/-- `ifNull(nullIf(team_name, ''), nullIf(team_id, ''))` -/
def voteName (t : Option TeamAttribution) : Option Bytes :=
  (nullIfEmpty (t.bind TeamAttribution.teamName)).or (nullIfEmpty (t.bind TeamAttribution.teamId))

def countVotes (key : Bytes × Bytes) (rows : List ((Bytes × Bytes) × Option TeamAttribution)) : TeamVote where
  workUnitId := key.1
  teamId := key.2
  teamName := maxName (rows.map fun r => voteName r.2)
  cnt := ((rows.filter fun r => (voteName r.2).isSome).map fun r => r.1.2).dedup.length

/-- `argMax` leaves out the rows whose column is NULL. -/
def electTeam (workUnitId : Bytes) (votes : List TeamVote) : UnitTeam where
  workUnitId := workUnitId
  teamId := (argMax TeamVote.teamId TeamVote.rank votes).getD []
  teamName := (argMax TeamVote.teamName TeamVote.rank (votes.filter fun v => v.teamName.isSome)).join

namespace ThemeRead

variable (q : ThemeRead)

def latestUnits : List WorkUnit :=
  groupBy (fun r => (r.orgId, r.workUnitId)) (fun k rows => latestColumns k.2 rows) (q.investments.ofOrg q.orgID)

def windowed : List WorkUnit := q.latestUnits.filter fun w => q.bound.passesRange q.params w.fromTs w.toTs

def repoLookup : List RepoLookup :=
  groupBy (fun r => (r.orgId, r.id))
    (fun k rows =>
      { repoUuid := k.2.text
        repo := (argMax RepoRow.repo RepoRow.lastSynced rows).getD []
        provider :=
          if (rows.map RepoRow.provider).dedup.length = 1 then
            (argMax RepoRow.provider RepoRow.lastSynced rows).getD []
          else [] })
    (q.repos.filter fun r => r.orgId = q.orgID)

/-- Each work item with the time of its newest attribution. -/
def newestAttributions : List (Bytes × Int) :=
  groupBy TeamAttribution.workItemId (fun item rows => (item, ((rows.map TeamAttribution.computedAt).max?).getD 0))
    (q.attributions.rows.filter fun t => t.orgId = q.orgID)

/-- The primary attributions that are their work item's newest. -/
def wita : List TeamAttribution :=
  q.attributions.final.filter fun t =>
    t.orgId = q.orgID ∧ t.isPrimary = 1 ∧ (t.workItemId, t.computedAt) ∈ q.newestAttributions

def evidenceRefs (w : WorkUnit) : List Bytes :=
  (q.jsonExtract w.structuralEvidence (ascii "issues") ++ q.jsonExtract w.structuralEvidence (ascii "prs")).dedup

def resolved : List (Bytes × Bytes) :=
  (leftJoin (fun unit (r : RepoLookup) => decide (r.repoUuid = ((splitByString pullMark unit.2)[0]?).getD []))
    (q.windowed.flatMap fun w => (q.evidenceRefs w).map fun ref => (w, ref)) q.repoLookup).map
    fun row => (row.1.1.workUnitId, resolvedWorkItemId row.1.2 row.2)

def teamVotes : List TeamVote :=
  groupBy (fun r => (r.1.1, voteTeam r.2)) countVotes
    (leftJoin (fun unit (t : TeamAttribution) => decide (t.workItemId = unit.2)) q.resolved q.wita)

def votes : List UnitTeam := groupBy TeamVote.workUnitId electTeam q.teamVotes

def attributed : List (UnitTeam × WorkUnit) :=
  (innerJoin (fun v w => decide (w.workUnitId = v.workUnitId)) q.votes q.windowed).filter
    fun row => row.1.teamId ≠ [] ∧ row.1.teamId ∈ q.ids

end ThemeRead

/-! ## The mix -/

def bugfixSubcategoryKey : Bytes := ascii "quality.bugfix"

inductive MixKind where
  | theme
  | subcategory
  deriving DecidableEq, Repr

structure TeamThemeMixRow where
  teamID : Bytes
  teamName : Option Bytes
  kind : MixKind
  key : Bytes
  workUnits : Rat
  deriving DecidableEq

def themeRows (attributed : List (UnitTeam × WorkUnit)) : List TeamThemeMixRow :=
  groupBy (fun r : UnitTeam × Bytes × Rat => (r.1.teamId, r.2.1))
    (fun k rows => ⟨k.1, maxName (rows.map fun r => r.1.teamName), .theme, k.2, (rows.map fun r => r.2.2).sum⟩)
    (attributed.flatMap fun row => row.2.themeDistribution.map fun entry => (row.1, entry))

def bugfixRows (attributed : List (UnitTeam × WorkUnit)) : List TeamThemeMixRow :=
  groupBy (fun r : UnitTeam × WorkUnit => r.1.teamId)
    (fun team rows => ⟨team, maxName (rows.map fun r => r.1.teamName), .subcategory, bugfixSubcategoryKey,
      (rows.map fun r => r.2.subcategoryDistribution.at bugfixSubcategoryKey).sum⟩)
    attributed

def mixRows (attributed : List (UnitTeam × WorkUnit)) : List TeamThemeMixRow :=
  themeRows attributed ++ bugfixRows attributed

def MixKind.text : MixKind → Bytes
  | .theme => ascii "theme"
  | .subcategory => ascii "subcategory"

/-- `ORDER BY team_id, kind, key` -/
def TeamThemeMixRow.order (r : TeamThemeMixRow) : Bytes ×ₗ Bytes ×ₗ Bytes :=
  toLex (r.teamID, toLex (r.kind.text, r.key))

def defaultRowLimit : Nat := 200

def ThemeRead.teamThemeMix (q : ThemeRead) : List TeamThemeMixRow :=
  ((mixRows q.attributed).insertionSort fun a b => a.order ≤ b.order).take defaultRowLimit

end DevHealth.Readers

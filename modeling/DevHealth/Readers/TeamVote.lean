import DevHealth.Readers.TeamThemeMix
import Mathlib.Data.List.Perm.Basic

/-! # The vote of a work unit

What the clauses of `ReadTeamThemeMix` say of one unit, against the vote as it is
documented.  The items without a team have a vote of their own, under the empty team, and
it counts those that have a name; where it beats every team the unit is counted for none.
A ref that resolves to no work item votes under the empty id, if that is attributed. -/
set_option autoImplicit false
namespace DevHealth.Readers

open Go Lib Lib.Relation Clickhouse Clickhouse.ByteOrder

/-! ## The documented vote -/

namespace ThemeRead

/-- A primary attribution, and its work item's newest. -/
structure IsPrimaryLatest (q : ThemeRead) (t : TeamAttribution) : Prop where
  ofOrg : t.orgId = q.orgID
  primary : t.isPrimary = 1
  newest : ∀ other ∈ q.attributions.rows, other.orgId = q.orgID → other.workItemId = t.workItemId →
    other.computedAt ≤ t.computedAt

instance (q : ThemeRead) (t : TeamAttribution) : Decidable (q.IsPrimaryLatest t) :=
  decidable_of_iff (t.orgId = q.orgID ∧ t.isPrimary = 1 ∧ ∀ other ∈ q.attributions.rows,
      other.orgId = q.orgID → other.workItemId = t.workItemId → other.computedAt ≤ t.computedAt)
    ⟨fun ⟨ofOrg, primary, newest⟩ => ⟨ofOrg, primary, newest⟩, fun ⟨ofOrg, primary, newest⟩ => ⟨ofOrg, primary, newest⟩⟩

variable (q : ThemeRead)

def primaryLatest : List TeamAttribution := q.attributions.final.filter fun t => q.IsPrimaryLatest t

/-- The id of an evidence ref, empty if it resolves to no work item. -/
def resolve (ref : Bytes) : Bytes :=
  resolvedWorkItemId ref (q.repoLookup.find? fun r => decide (r.repoUuid = ((splitByString pullMark ref)[0]?).getD []))

def refIds (w : WorkUnit) : List Bytes := ((q.evidenceRefs w).map q.resolve).dedup

def items (w : WorkUnit) : List Bytes := (q.refIds w).filter fun item => item ≠ []

section Items

variable (items : List Bytes)

def itemsWith (has : TeamAttribution → Bool) : List Bytes :=
  items.filter fun item => q.primaryLatest.any fun t => decide (t.workItemId = item) && has t

def teamItems (team : Bytes) : List Bytes := q.itemsWith items fun t => t.teamId = some team

/-- The items that are attributed to a name without a team. -/
def namedItems : List Bytes :=
  q.itemsWith items fun t => nullIfEmpty t.teamId = none ∧ nullIfEmpty t.teamName ≠ none

def itemTeams : List Bytes :=
  ((q.primaryLatest.filter fun t => t.workItemId ∈ items).filterMap fun t => nullIfEmpty t.teamId).dedup

def teamRank (team : Bytes) : Nat ×ₗ Bytes := toLex ((q.teamItems items team).length, team)

/-- The team with the most items, the largest of those on a tie. -/
def topTeam : Option Bytes := (q.itemTeams items).argmax (q.teamRank items)

end Items

def documentedTeam (w : WorkUnit) : Option Bytes := q.topTeam (q.items w)

end ThemeRead

variable {team : Bytes}

variable {value : Option Bytes} {item : Bytes} {v : TeamVote}

section Null

theorem nullIfEmpty_eq_some : nullIfEmpty value = some team ↔ value = some team ∧ team ≠ [] := by
  rw [nullIfEmpty, Option.filter_eq_some_iff, decide_eq_true_eq]

theorem nullIfEmpty_getD_eq (nonempty : team ≠ []) :
    (nullIfEmpty value).getD [] = team ↔ value = some team := by
  cases found : nullIfEmpty value with
  | none =>
    rw [Option.getD_none]
    refine iff_of_false nonempty.symm ?_
    intro same
    rw [nullIfEmpty_eq_some.mpr ⟨same, nonempty⟩] at found
    cases found
  | some team' =>
    obtain ⟨rfl, -⟩ := nullIfEmpty_eq_some.mp found
    rw [Option.getD_some, Option.some.injEq]

theorem nullIfEmpty_getD_nil : (nullIfEmpty value).getD [] = [] ↔ nullIfEmpty value = none := by
  cases found : nullIfEmpty value with
  | none => exact iff_of_true rfl rfl
  | some team =>
    obtain ⟨-, nonempty⟩ := nullIfEmpty_eq_some.mp found
    rw [Option.getD_some]
    exact iff_of_false nonempty (Option.some_ne_none team)

end Null

namespace ThemeRead

variable {q : ThemeRead} {w : WorkUnit} {items : List Bytes}

/-! ## The clauses before the vote -/

theorem mem_windowed_iff : w ∈ q.windowed ↔ ∃ r, InWindow q.investments q.orgID q.bound q.params r ∧ w = r.toWorkUnit := by
  apply mem_windowed Prod.snd
  · intro r inR p inP
    rw [Prod.mk.injEq, (Investments.mem_ofOrg.mp inR).2, (Investments.mem_ofOrg.mp inP).2]
    exact and_iff_right rfl
  · exact fun _ _ => rfl

theorem windowed_unique : (q.windowed.map WorkUnit.workUnitId).Nodup := by
  have groups : (q.latestUnits.map WorkUnit.workUnitId).Nodup := by
    apply groupBy_unique_on
    intro x inX y inY same
    have unit : x.workUnitId = y.workUnitId := same
    rw [(Investments.mem_ofOrg.mp inX).2, (Investments.mem_ofOrg.mp inY).2, unit]
  exact groups.sublist (List.filter_sublist.map _)

theorem windowed_eq {v : WorkUnit} (inV : v ∈ q.windowed) (inW : w ∈ q.windowed)
    (same : v.workUnitId = w.workUnitId) : v = w :=
  List.inj_on_of_nodup_map windowed_unique inV inW same

theorem repoLookup_unique : (q.repoLookup.map RepoLookup.repoUuid).Nodup := by
  apply groupBy_unique_on
  intro x inX y inY same
  rw [List.mem_filter, decide_eq_true_eq] at inX inY
  have id : x.id = y.id := Uuid.text_injective same
  rw [inX.2, inY.2, id]

theorem mem_resolved {unit item : Bytes} :
    (unit, item) ∈ q.resolved ↔ ∃ w ∈ q.windowed, w.workUnitId = unit ∧ item ∈ q.refIds w := by
  have one : ∀ x ∈ q.windowed.flatMap fun w => (q.evidenceRefs w).map fun ref => (w, ref),
      (q.repoLookup.filter fun r => decide (r.repoUuid = ((splitByString pullMark x.2)[0]?).getD [])).length ≤ 1 := by
    intro x _
    exact matches_le_one RepoLookup.repoUuid repoLookup_unique fun r _ named => of_decide_eq_true named
  rw [resolved, leftJoin_eq one, List.map_map, List.mem_map]
  constructor
  · rintro ⟨⟨w, ref⟩, inside, same⟩
    obtain ⟨v, inWindow, found⟩ := List.mem_flatMap.mp inside
    obtain ⟨ref', evidence, pair⟩ := List.mem_map.mp found
    cases pair
    cases same
    exact ⟨w, inWindow, rfl, List.mem_dedup.mpr (List.mem_map_of_mem evidence)⟩
  · rintro ⟨w, inWindow, rfl, found⟩
    obtain ⟨ref, evidence, rfl⟩ := List.mem_map.mp (List.mem_dedup.mp found)
    exact ⟨(w, ref), List.mem_flatMap.mpr ⟨w, inWindow, List.mem_map_of_mem evidence⟩, rfl⟩

theorem mem_newestAttributions {time : Int} : (item, time) ∈ q.newestAttributions ↔
      (∃ t ∈ q.attributions.rows, t.orgId = q.orgID ∧ t.workItemId = item ∧ t.computedAt = time) ∧
        ∀ t ∈ q.attributions.rows, t.orgId = q.orgID → t.workItemId = item → t.computedAt ≤ time := by
  have grouped : ∀ t item, t ∈ (q.attributions.rows.filter fun t => t.orgId = q.orgID).filter
      (fun t => t.workItemId = item) ↔ t ∈ q.attributions.rows ∧ t.orgId = q.orgID ∧ t.workItemId = item := by
    intro t item
    rw [List.mem_filter, List.mem_filter, decide_eq_true_eq, decide_eq_true_eq, and_assoc]
  have newest : ∀ m, (((q.attributions.rows.filter fun t => t.orgId = q.orgID).filter
      fun t => t.workItemId = item).map TeamAttribution.computedAt).max? = some m ↔
      (∃ t ∈ q.attributions.rows, t.orgId = q.orgID ∧ t.workItemId = item ∧ t.computedAt = m) ∧
        ∀ t ∈ q.attributions.rows, t.orgId = q.orgID → t.workItemId = item → t.computedAt ≤ m := by
    intro m
    rw [List.max?_eq_some_iff, List.forall_mem_map]
    simp only [List.mem_map, grouped, and_imp, and_assoc]
  rw [newestAttributions, mem_groupBy]
  constructor
  · rintro ⟨k, ⟨x, inside, rfl⟩, same⟩
    obtain ⟨rfl, rfl⟩ := Prod.mk.inj same
    obtain ⟨stored, ofOrg⟩ := List.mem_filter.mp inside
    have own := List.mem_map_of_mem (f := TeamAttribution.computedAt)
      ((grouped x x.workItemId).mpr ⟨stored, of_decide_eq_true ofOrg, rfl⟩)
    cases found : (((q.attributions.rows.filter fun t => t.orgId = q.orgID).filter
        fun t => t.workItemId = x.workItemId).map TeamAttribution.computedAt).max? with
    | none =>
      rw [List.max?_eq_none_iff] at found
      rw [found] at own
      cases own
    | some m => exact (newest m).mp found
  · intro highest
    obtain ⟨⟨t, stored, ofOrg, sameItem, -⟩, -⟩ := id highest
    refine ⟨item, ⟨t, List.mem_filter.mpr ⟨stored, decide_eq_true ofOrg⟩, sameItem⟩, ?_⟩
    rw [(newest time).mpr highest, Option.getD_some]

theorem wita_eq : q.wita = q.primaryLatest := by
  apply List.filter_congr
  intro t inside
  obtain ⟨stored, -⟩ := q.attributions.kept t inside
  rw [decide_eq_decide, mem_newestAttributions]
  constructor
  · rintro ⟨ofOrg, primary, -, newest⟩
    exact ⟨ofOrg, primary, newest⟩
  · rintro ⟨ofOrg, primary, newest⟩
    exact ⟨ofOrg, primary, ⟨t, stored, ofOrg, rfl, rfl⟩, newest⟩

/-! ## The votes of a unit -/

/-- The rows that are counted: a unit, a work item of it, and an attribution if there is one. -/
def ballots (q : ThemeRead) : List ((Bytes × Bytes) × Option TeamAttribution) :=
  leftJoin (fun unit (t : TeamAttribution) => decide (t.workItemId = unit.2)) q.resolved q.wita

theorem mem_ballots (inWindow : w ∈ q.windowed) {t : TeamAttribution} :
    ((w.workUnitId, item), some t) ∈ q.ballots ↔
      item ∈ q.refIds w ∧ t ∈ q.primaryLatest ∧ t.workItemId = item := by
  rw [ballots, mem_leftJoin, mem_resolved, wita_eq]
  constructor
  · rintro ⟨⟨v, inV, same, inside⟩, ⟨y, found, named, joined⟩ | ⟨absent, -⟩⟩
    · cases joined
      rw [windowed_eq inV inWindow same] at inside
      exact ⟨inside, found, of_decide_eq_true named⟩
    · cases absent
  · rintro ⟨inside, found, named⟩
    exact ⟨⟨w, inWindow, rfl, inside⟩, .inl ⟨t, found, decide_eq_true named, rfl⟩⟩

/-- The items a vote for a team counts; for the empty team, those with a name. -/
def voteItems (q : ThemeRead) (items : List Bytes) (team : Bytes) : List Bytes :=
  q.itemsWith items fun t => decide (voteTeam (some t) = team) && (voteName (some t)).isSome

theorem mem_itemsWith {has : TeamAttribution → Bool} :
    item ∈ q.itemsWith items has ↔ item ∈ items ∧ ∃ t ∈ q.primaryLatest, t.workItemId = item ∧ has t = true := by
  rw [itemsWith, List.mem_filter, List.any_eq_true]
  simp

theorem nodup_itemsWith (has : TeamAttribution → Bool) : (q.itemsWith (q.refIds w) has).Nodup :=
  (List.nodup_dedup _).filter _

theorem itemsWith_congr {has has' : TeamAttribution → Bool} (same : ∀ t, has t = has' t) :
    q.itemsWith items has = q.itemsWith items has' := by
  rw [funext same]

theorem voteTeam_some_eq {t : TeamAttribution} (nonempty : team ≠ []) :
    voteTeam (some t) = team ↔ t.teamId = some team := nullIfEmpty_getD_eq nonempty

theorem voteItems_team (nonempty : team ≠ []) : q.voteItems items team = q.teamItems items team := by
  apply itemsWith_congr
  intro t
  rw [Bool.eq_iff_iff, Bool.and_eq_true, decide_eq_true_eq, decide_eq_true_eq, voteTeam_some_eq nonempty]
  constructor
  · exact And.left
  · intro named
    refine ⟨named, ?_⟩
    have known : nullIfEmpty t.teamId = some team := nullIfEmpty_eq_some.mpr ⟨named, nonempty⟩
    rw [voteName, Option.bind_some, Option.bind_some, known, Option.isSome_or, Option.isSome_some, Bool.or_true]

theorem voteItems_blank : q.voteItems items [] = q.namedItems items := by
  apply itemsWith_congr
  intro t
  rw [Bool.eq_iff_iff, Bool.and_eq_true, decide_eq_true_eq, decide_eq_true_eq, voteTeam, Option.bind_some,
    nullIfEmpty_getD_nil]
  apply and_congr_right
  intro absent
  rw [voteName, Option.bind_some, Option.bind_some, absent, Option.or_none, Option.isSome_iff_ne_none]

theorem countVotes_cnt (inWindow : w ∈ q.windowed) (team : Bytes) : (countVotes (w.workUnitId, team)
      (q.ballots.filter fun r => (r.1.1, voteTeam r.2) = (w.workUnitId, team))).cnt =
      (q.voteItems (q.refIds w) team).length := by
  apply List.Perm.length_eq
  rw [voteItems, List.perm_ext_iff_of_nodup (List.nodup_dedup _) (nodup_itemsWith _)]
  intro item
  rw [List.mem_dedup, mem_itemsWith, List.mem_map]
  constructor
  · rintro ⟨⟨⟨unit, item⟩, o⟩, inside, rfl⟩
    obtain ⟨grouped, hasName⟩ := List.mem_filter.mp inside
    obtain ⟨stored, key⟩ := List.mem_filter.mp grouped
    rw [decide_eq_true_eq, Prod.mk.injEq] at key
    obtain ⟨rfl, votes⟩ := key
    cases o with
    | none => cases hasName
    | some t =>
      obtain ⟨ofUnit, found, named⟩ := (mem_ballots inWindow).mp stored
      exact ⟨ofUnit, t, found, named, by rw [Bool.and_eq_true, decide_eq_true_eq]; exact ⟨votes, hasName⟩⟩
  · rintro ⟨ofUnit, t, found, named, both⟩
    rw [Bool.and_eq_true, decide_eq_true_eq] at both
    refine ⟨((w.workUnitId, item), some t), List.mem_filter.mpr ⟨List.mem_filter.mpr ⟨?_, ?_⟩, both.2⟩, rfl⟩
    · exact (mem_ballots inWindow).mpr ⟨ofUnit, found, named⟩
    · rw [decide_eq_true_eq, both.1]

def votesOf (q : ThemeRead) (w : WorkUnit) : List TeamVote := q.teamVotes.filter fun v => v.workUnitId = w.workUnitId

theorem teamVotes_eq : q.teamVotes = groupBy (fun r => (r.1.1, voteTeam r.2)) countVotes q.ballots := rfl

theorem mem_votesOf : v ∈ q.votesOf w ↔ (∃ r ∈ q.ballots, r.1.1 = w.workUnitId ∧ voteTeam r.2 = v.teamId) ∧
      v = countVotes (w.workUnitId, v.teamId)
        (q.ballots.filter fun r => (r.1.1, voteTeam r.2) = (w.workUnitId, v.teamId)) := by
  rw [votesOf, List.mem_filter, decide_eq_true_eq, teamVotes_eq, mem_groupBy]
  constructor
  · rintro ⟨⟨⟨unit, team⟩, ⟨r, inside, key⟩, rfl⟩, same⟩
    obtain ⟨unitSame, teamSame⟩ := Prod.mk.inj key
    have ofUnit : unit = w.workUnitId := same
    subst ofUnit
    exact ⟨⟨r, inside, unitSame, teamSame⟩, rfl⟩
  · rintro ⟨⟨r, inside, unitSame, teamSame⟩, counted⟩
    refine ⟨⟨(w.workUnitId, v.teamId), ⟨r, inside, by rw [unitSame, teamSame]⟩, counted⟩, ?_⟩
    rw [counted]
    rfl

theorem votesOf_cnt (inWindow : w ∈ q.windowed) (inside : v ∈ q.votesOf w) :
    v.cnt = (q.voteItems (q.refIds w) v.teamId).length := by
  rw [← countVotes_cnt inWindow, ← (mem_votesOf.mp inside).2]

theorem exists_vote (inWindow : w ∈ q.windowed) (counts : q.voteItems (q.refIds w) team ≠ []) :
    ∃ v ∈ q.votesOf w, v.teamId = team := by
  obtain ⟨item, inside⟩ := List.exists_mem_of_ne_nil _ counts
  obtain ⟨ofUnit, t, found, named, both⟩ := mem_itemsWith.mp inside
  rw [Bool.and_eq_true, decide_eq_true_eq] at both
  have ballot := (mem_ballots inWindow).mpr ⟨ofUnit, found, named⟩
  let v := countVotes (w.workUnitId, team)
    (q.ballots.filter fun r => (r.1.1, voteTeam r.2) = (w.workUnitId, team))
  exact ⟨v, mem_votesOf.mpr ⟨⟨_, ballot, rfl, both.1⟩, rfl⟩, rfl⟩

theorem mem_itemTeams : team ∈ q.itemTeams items ↔ team ≠ [] ∧ q.teamItems items team ≠ [] := by
  rw [itemTeams, List.mem_dedup, List.mem_filterMap]
  constructor
  · rintro ⟨t, inside, named⟩
    obtain ⟨found, ofUnit⟩ := List.mem_filter.mp inside
    obtain ⟨same, nonempty⟩ := nullIfEmpty_eq_some.mp named
    refine ⟨nonempty, List.ne_nil_of_mem (a := t.workItemId) ?_⟩
    exact mem_itemsWith.mpr ⟨of_decide_eq_true ofUnit, t, found, rfl, decide_eq_true same⟩
  · rintro ⟨nonempty, counts⟩
    obtain ⟨item, inside⟩ := List.exists_mem_of_ne_nil _ counts
    obtain ⟨ofUnit, t, found, rfl, same⟩ := mem_itemsWith.mp inside
    exact ⟨t, List.mem_filter.mpr ⟨found, decide_eq_true ofUnit⟩,
      nullIfEmpty_eq_some.mpr ⟨of_decide_eq_true same, nonempty⟩⟩

theorem vote_team (inWindow : w ∈ q.windowed) (inside : v ∈ q.votesOf w) (nonempty : v.teamId ≠ []) :
    v.teamId ∈ q.itemTeams (q.refIds w) := by
  obtain ⟨⟨⟨⟨unit, item⟩, o⟩, ballot, rfl, votes⟩, -⟩ := mem_votesOf.mp inside
  cases o with
  | none =>
    rw [← votes] at nonempty
    exact absurd rfl nonempty
  | some t =>
    obtain ⟨ofUnit, found, named⟩ := (mem_ballots inWindow).mp ballot
    rw [mem_itemTeams]
    refine ⟨nonempty, List.ne_nil_of_mem (a := item) ?_⟩
    exact mem_itemsWith.mpr ⟨ofUnit, t, found, named, decide_eq_true ((voteTeam_some_eq nonempty).mp votes)⟩

/-! ## The winner -/

theorem topTeam_eq_some :
    q.topTeam items = some team ↔
      team ∈ q.itemTeams items ∧ ∀ other ∈ q.itemTeams items, q.teamRank items other ≤ q.teamRank items team := by
  have same : q.topTeam items = argMax id (q.teamRank items) (q.itemTeams items) := by
    rw [argMax, Option.map_id]
    rfl
  rw [same, argMax_eq_some fun a _ b _ ranks => congrArg (fun rank => (ofLex rank).2) ranks]
  constructor
  · rintro ⟨a, inside, rfl, highest⟩
    exact ⟨inside, highest⟩
  · rintro ⟨inside, highest⟩
    exact ⟨team, inside, rfl, highest⟩

theorem topTeam_eq_none : q.topTeam items = none ↔ q.itemTeams items = [] := List.argmax_eq_none

theorem teamItems_le_of_rank {team other : Bytes} (below : q.teamRank items other ≤ q.teamRank items team) :
    (q.teamItems items other).length ≤ (q.teamItems items team).length :=
  Prod.Lex.monotone_fst _ _ below

/-- The elected team has the most ids, and no more ids are named without a team. -/
theorem elected_iff (inWindow : w ∈ q.windowed) (nonempty : team ≠ []) :
    argMax TeamVote.teamId TeamVote.rank (q.votesOf w) = some team ↔
      q.topTeam (q.refIds w) = some team ∧
        (q.namedItems (q.refIds w)).length ≤ (q.teamItems (q.refIds w) team).length := by
  rw [argMax_eq_some fun a _ b _ ranks => congrArg (fun rank => (ofLex rank).2) ranks, topTeam_eq_some]
  constructor
  · rintro ⟨v, inside, rfl, highest⟩
    have cnt := votesOf_cnt inWindow inside
    rw [voteItems_team nonempty] at cnt
    refine ⟨⟨vote_team inWindow inside nonempty, ?_⟩, ?_⟩
    · intro other voted
      obtain ⟨nonemptyOther, counts⟩ := mem_itemTeams.mp voted
      rw [← voteItems_team nonemptyOther] at counts
      obtain ⟨v', inside', rfl⟩ := exists_vote inWindow counts
      have below := highest v' inside'
      rw [TeamVote.rank, TeamVote.rank, cnt, votesOf_cnt inWindow inside', voteItems_team nonemptyOther] at below
      exact below
    · rw [← voteItems_blank]
      by_cases counts : q.voteItems (q.refIds w) [] = []
      · rw [counts]
        exact Nat.zero_le _
      · obtain ⟨v', inside', blank⟩ := exists_vote inWindow counts
        have below : v'.cnt ≤ v.cnt := Prod.Lex.monotone_fst _ _ (highest v' inside')
        rwa [cnt, votesOf_cnt inWindow inside', blank] at below
  · rintro ⟨⟨voted, highest⟩, few⟩
    have counts : q.voteItems (q.refIds w) team ≠ [] := by
      rw [voteItems_team nonempty]
      exact (mem_itemTeams.mp voted).2
    obtain ⟨v, inside, rfl⟩ := exists_vote inWindow counts
    refine ⟨v, inside, rfl, ?_⟩
    intro v' inside'
    rw [TeamVote.rank, TeamVote.rank, votesOf_cnt inWindow inside, votesOf_cnt inWindow inside', voteItems_team nonempty]
    by_cases blank : v'.teamId = []
    · rw [blank, voteItems_blank, Prod.Lex.toLex_le_toLex]
      rcases Nat.lt_or_eq_of_le few with less | equal
      · exact .inl less
      · exact .inr ⟨equal, le_of_not_gt (List.not_lt_nil _)⟩
    · rw [voteItems_team blank]
      exact highest _ (vote_team inWindow inside' blank)

end ThemeRead

end DevHealth.Readers

import DevHealth.Readers.TeamVote

/-! # Which units a team's mix counts

A unit in the window is counted for its documented team, once, in the mix of each theme and
of the tracked subcategory, exactly when no more of its items are attributed to a name
without a team than to that team, the empty id of its unresolved refs changes nothing, and
the mix has no more rows than are returned. -/
set_option autoImplicit false
namespace DevHealth.Readers

open Go Lib Lib.Relation Clickhouse Clickhouse.ByteOrder

namespace ThemeRead

variable {q : ThemeRead} {w : WorkUnit}

/-! ## Attributed units -/

theorem votes_unique : (q.votes.map UnitTeam.workUnitId).Nodup := groupBy_unique (fun _ _ => rfl) _

theorem mem_votes {v : UnitTeam} : v ∈ q.votes ↔ (∃ x ∈ q.teamVotes, x.workUnitId = v.workUnitId) ∧
      v = electTeam v.workUnitId (q.teamVotes.filter fun x => x.workUnitId = v.workUnitId) := by
  rw [votes, mem_groupBy]
  constructor
  · rintro ⟨k, present, rfl⟩
    exact ⟨present, rfl⟩
  · rintro ⟨present, elected⟩
    exact ⟨v.workUnitId, present, elected⟩

theorem mem_attributed {v : UnitTeam} : (v, w) ∈ q.attributed ↔
      w ∈ q.windowed ∧ v = electTeam w.workUnitId (q.votesOf w) ∧ v.teamId ≠ [] ∧ v.teamId ∈ q.ids := by
  rw [attributed, List.mem_filter, mem_innerJoin, decide_eq_true_eq, decide_eq_true_eq, mem_votes]
  constructor
  · rintro ⟨⟨⟨-, elected⟩, inWindow, unit⟩, nonempty, requested⟩
    rw [← unit] at elected
    exact ⟨inWindow, elected, nonempty, requested⟩
  · rintro ⟨inWindow, elected, nonempty, requested⟩
    have unit : v.workUnitId = w.workUnitId := by rw [elected]; rfl
    refine ⟨⟨⟨?_, by rw [unit]; exact elected⟩, inWindow, unit.symm⟩, nonempty, requested⟩
    -- the empty list of votes elects the empty team
    by_contra none
    have empty : q.votesOf w = [] := by
      rw [votesOf, List.filter_eq_nil_iff]
      intro x inside same
      exact none ⟨x, inside, (of_decide_eq_true same).trans unit.symm⟩
    rw [elected, empty] at nonempty
    exact nonempty rfl

theorem nodup_attributed : q.attributed.Nodup :=
  (nodup_innerJoin votes_unique.of_map windowed_unique.of_map).filter _

theorem attributed_eq {a b : UnitTeam × WorkUnit} (inA : a ∈ q.attributed) (inB : b ∈ q.attributed)
    (same : a.2 = b.2) : a = b := by
  obtain ⟨v, w⟩ := a
  obtain ⟨v', w'⟩ := b
  subst same
  rw [(mem_attributed.mp inA).2.1, (mem_attributed.mp inB).2.1]

theorem electTeam_eq {team : Bytes} (nonempty : team ≠ []) :
    (electTeam w.workUnitId (q.votesOf w)).teamId = team ↔
      argMax TeamVote.teamId TeamVote.rank (q.votesOf w) = some team := by
  rw [electTeam]
  cases argMax TeamVote.teamId TeamVote.rank (q.votesOf w) with
  | none => exact iff_of_false nonempty.symm (Option.some_ne_none team).symm
  | some elected => rw [Option.getD_some, Option.some.injEq]

/-- Every team that has a primary and newest attribution is requested. -/
def AllRequested (q : ThemeRead) : Prop := ∀ t ∈ q.primaryLatest, ∀ team ∈ nullIfEmpty t.teamId, team ∈ q.ids

instance (q : ThemeRead) : Decidable q.AllRequested :=
  inferInstanceAs (Decidable (∀ t ∈ q.primaryLatest, ∀ team ∈ nullIfEmpty t.teamId, team ∈ q.ids))

theorem requested_of_itemTeams (every : q.AllRequested) {items : List Bytes} {team : Bytes}
    (voted : team ∈ q.itemTeams items) : team ∈ q.ids := by
  obtain ⟨t, inside, named⟩ := List.mem_filterMap.mp (List.mem_dedup.mp voted)
  exact every t (List.mem_filter.mp inside).1 team named

def countedFor (q : ThemeRead) (w : WorkUnit) : List Bytes :=
  (q.attributed.filter fun row => row.2 = w).map fun row => row.1.teamId

theorem mem_countedFor (every : q.AllRequested) (inWindow : w ∈ q.windowed) {team : Bytes} :
    team ∈ q.countedFor w ↔ q.topTeam (q.refIds w) = some team ∧
      (q.namedItems (q.refIds w)).length ≤ (q.teamItems (q.refIds w) team).length := by
  rw [countedFor, List.mem_map]
  constructor
  · rintro ⟨⟨v, w'⟩, inside, rfl⟩
    obtain ⟨found, same⟩ := List.mem_filter.mp inside
    have unit : w' = w := of_decide_eq_true same
    subst unit
    obtain ⟨-, elected, nonempty, -⟩ := mem_attributed.mp found
    rw [← elected_iff inWindow nonempty, ← electTeam_eq nonempty, ← elected]
  · rintro ⟨top, few⟩
    have voted := (topTeam_eq_some.mp top).1
    have nonempty := (mem_itemTeams.mp voted).1
    have elected := (electTeam_eq nonempty).mpr ((elected_iff inWindow nonempty).mpr ⟨top, few⟩)
    refine ⟨(electTeam w.workUnitId (q.votesOf w), w), List.mem_filter.mpr ⟨?_, decide_eq_true rfl⟩, elected⟩
    rw [mem_attributed, elected]
    exact ⟨inWindow, rfl, nonempty, requested_of_itemTeams every voted⟩

theorem nodup_countedFor : (q.countedFor w).Nodup := by
  rw [countedFor]
  refine List.Nodup.map_on ?_ (nodup_attributed.filter _)
  intro a inA b inB _
  obtain ⟨foundA, sameA⟩ := List.mem_filter.mp inA
  obtain ⟨foundB, sameB⟩ := List.mem_filter.mp inB
  exact attributed_eq foundA foundB ((of_decide_eq_true sameA).trans (of_decide_eq_true sameB).symm)

/-! ## The documented mix -/

def unitsOf (q : ThemeRead) (team : Bytes) : List WorkUnit :=
  q.windowed.filter fun w => q.documentedTeam w = some team

end ThemeRead

/-- What a unit has a share in: the tracked subcategory and its themes. -/
def mixKeys (w : WorkUnit) : List (MixKind × Bytes) :=
  (.subcategory, bugfixSubcategoryKey) :: w.themeDistribution.map fun entry => (.theme, entry.1)

/-- The rows of the documented mix, without their sums: each team with what its units have a share in. -/
def ThemeRead.documentedRows (q : ThemeRead) : List (Bytes × MixKind × Bytes) :=
  (q.windowed.flatMap fun w =>
    (q.documentedTeam w).toList.flatMap fun team => (mixKeys w).map fun k => (team, k)).dedup

def TeamThemeMixRow.cell (r : TeamThemeMixRow) : Bytes × MixKind × Bytes := (r.teamID, r.kind, r.key)

def mixTotal (rows : List TeamThemeMixRow) (kind : MixKind) (team key : Bytes) : Rat :=
  ((rows.filter fun r => r.teamID = team ∧ r.kind = kind ∧ r.key = key).map TeamThemeMixRow.workUnits).sum

def share (d : Distribution) (key : Bytes) : Rat := ((d.filter fun entry => entry.1 = key).map Prod.snd).sum

/-- Each unit in the window is counted for its documented team, once, and for no other, and the
result has the rows of every team that has a unit. -/
structure ThemeRead.FollowsVote (q : ThemeRead) : Prop where
  window : ∀ w, w ∈ q.windowed ↔ ∃ r, InWindow q.investments q.orgID q.bound q.params r ∧ w = r.toWorkUnit
  counted : ∀ w ∈ q.windowed, q.countedFor w = (q.documentedTeam w).toList
  only : ∀ row ∈ q.attributed, row.2 ∈ q.windowed
  rows : ∀ cell, cell ∈ q.teamThemeMix.map TeamThemeMixRow.cell ↔ cell ∈ q.documentedRows
  themes : ∀ team key, mixTotal q.teamThemeMix .theme team key =
    ((q.unitsOf team).map fun w => share w.themeDistribution key).sum
  bugfix : ∀ team, mixTotal q.teamThemeMix .subcategory team bugfixSubcategoryKey =
    ((q.unitsOf team).map fun w => w.subcategoryDistribution.at bugfixSubcategoryKey).sum

/-- With the empty id of the unresolved refs among its items, the documented team of a unit still has
the most, and as many as are named without a team; where there is no documented team, each team of the
empty id has fewer than those. -/
structure ThemeRead.TeamsHold (q : ThemeRead) (w : WorkUnit) : Prop where
  named : ∀ team ∈ q.documentedTeam w,
    (q.namedItems (q.refIds w)).length ≤ (q.teamItems (q.refIds w) team).length
  most : ∀ team ∈ q.documentedTeam w, ∀ other ∈ q.itemTeams (q.refIds w),
    q.teamRank (q.refIds w) other ≤ q.teamRank (q.refIds w) team
  none : q.documentedTeam w = none → ∀ team ∈ q.itemTeams (q.refIds w),
    (q.teamItems (q.refIds w) team).length < (q.namedItems (q.refIds w)).length

namespace ThemeRead

variable {q : ThemeRead}

/-! ## Sums -/

theorem sum_shares (rows : List (UnitTeam × WorkUnit)) (team key : Bytes) :
    (((rows.flatMap fun row => row.2.themeDistribution.map fun entry => (row.1, entry)).filter
        fun r => (r.1.teamId, r.2.1) = (team, key)).map fun r => r.2.2).sum =
      ((rows.filter fun row => row.1.teamId = team).map fun row => share row.2.themeDistribution key).sum := by
  induction rows with
  | nil => rfl
  | cons row rows ih =>
    have own : ((row.2.themeDistribution.map fun entry => (row.1, entry)).filter
        fun r => (r.1.teamId, r.2.1) = (team, key)).map (fun r => r.2.2) =
        if row.1.teamId = team then
          (row.2.themeDistribution.filter fun entry => entry.1 = key).map Prod.snd
        else [] := by
      rw [List.filter_map, List.map_map]
      split_ifs with same
      · simp only [Function.comp_def, Prod.mk.injEq, same, true_and]
      · simp only [Function.comp_def, Prod.mk.injEq, same, false_and, decide_false, List.filter_false, List.map_nil]
    rw [List.flatMap_cons, List.filter_append, List.map_append, List.sum_append, ih, own, List.filter_cons]
    by_cases same : row.1.teamId = team
    · rw [if_pos same, if_pos (decide_eq_true same), List.map_cons, List.sum_cons, share]
    · rw [if_neg same, if_neg (by rwa [decide_eq_true_eq]), List.sum_nil, zero_add]

theorem theme_total (rows : List (UnitTeam × WorkUnit)) (team key : Bytes) :
    mixTotal (mixRows rows) .theme team key =
      ((rows.filter fun row => row.1.teamId = team).map fun row => share row.2.themeDistribution key).sum := by
  have themes : (themeRows rows).filter (fun r => r.teamID = team ∧ r.kind = .theme ∧ r.key = key) =
      (themeRows rows).filter fun r => (r.teamID, r.key) = (team, key) := by
    apply List.filter_congr
    intro r inside
    obtain ⟨k, -, rfl⟩ := mem_groupBy.mp inside
    simp only [true_and, Prod.mk.injEq]
  have others : (bugfixRows rows).filter (fun r => r.teamID = team ∧ r.kind = .theme ∧ r.key = key) = [] := by
    rw [List.filter_eq_nil_iff]
    intro r inside same
    obtain ⟨k, -, rfl⟩ := mem_groupBy.mp inside
    have kind := (of_decide_eq_true same).2.1
    cases kind
  rw [mixTotal, mixRows, List.filter_append, themes, others, List.append_nil, ← sum_shares]
  exact sum_groupBy (fun r : TeamThemeMixRow => (r.teamID, r.key)) TeamThemeMixRow.workUnits (fun _ _ => rfl)
    (fun _ _ => rfl) _ (team, key)

theorem bugfix_total (rows : List (UnitTeam × WorkUnit)) (team : Bytes) :
    mixTotal (mixRows rows) .subcategory team bugfixSubcategoryKey =
      ((rows.filter fun row => row.1.teamId = team).map
        fun row => row.2.subcategoryDistribution.at bugfixSubcategoryKey).sum := by
  have others : (themeRows rows).filter
      (fun r => r.teamID = team ∧ r.kind = .subcategory ∧ r.key = bugfixSubcategoryKey) = [] := by
    rw [List.filter_eq_nil_iff]
    intro r inside same
    obtain ⟨k, -, rfl⟩ := mem_groupBy.mp inside
    have kind := (of_decide_eq_true same).2.1
    cases kind
  have own : (bugfixRows rows).filter
      (fun r => r.teamID = team ∧ r.kind = .subcategory ∧ r.key = bugfixSubcategoryKey) =
      (bugfixRows rows).filter fun r => r.teamID = team := by
    apply List.filter_congr
    intro r inside
    obtain ⟨k, -, rfl⟩ := mem_groupBy.mp inside
    simp only [and_true]
  rw [mixTotal, mixRows, List.filter_append, others, List.nil_append, own]
  exact sum_groupBy TeamThemeMixRow.teamID TeamThemeMixRow.workUnits (fun _ _ => rfl) (fun _ _ => rfl) _ team

theorem attributed_perm (counted : ∀ w ∈ q.windowed, q.countedFor w = (q.documentedTeam w).toList) (team : Bytes) :
    ((q.attributed.filter fun row => row.1.teamId = team).map Prod.snd).Perm (q.unitsOf team) := by
  have left : ((q.attributed.filter fun row => row.1.teamId = team).map Prod.snd).Nodup := by
    refine List.Nodup.map_on ?_ (nodup_attributed.filter _)
    intro a inA b inB same
    exact attributed_eq (List.mem_filter.mp inA).1 (List.mem_filter.mp inB).1 same
  have right : (q.unitsOf team).Nodup := windowed_unique.of_map.filter _
  rw [List.perm_ext_iff_of_nodup left right]
  intro w
  have mem : w ∈ (q.attributed.filter fun row => row.1.teamId = team).map Prod.snd ↔
      w ∈ q.windowed ∧ team ∈ q.countedFor w := by
    rw [countedFor, List.mem_map, List.mem_map]
    constructor
    · rintro ⟨⟨v, w'⟩, inside, rfl⟩
      obtain ⟨found, same⟩ := List.mem_filter.mp inside
      exact ⟨(mem_attributed.mp found).1, (v, w'), List.mem_filter.mpr ⟨found, decide_eq_true rfl⟩,
        of_decide_eq_true same⟩
    · rintro ⟨-, ⟨v, w'⟩, inside, same⟩
      obtain ⟨found, unit⟩ := List.mem_filter.mp inside
      exact ⟨(v, w'), List.mem_filter.mpr ⟨found, decide_eq_true same⟩, of_decide_eq_true unit⟩
  rw [mem, unitsOf, List.mem_filter, decide_eq_true_eq]
  apply and_congr_right
  intro inWindow
  rw [counted w inWindow, Option.mem_toList]

/-! ## Rows -/

theorem nodup_cells (rows : List (UnitTeam × WorkUnit)) : ((mixRows rows).map TeamThemeMixRow.cell).Nodup := by
  have themes : ((themeRows rows).map TeamThemeMixRow.cell).Nodup := by
    apply List.Nodup.of_map (f := fun c => (c.1, c.2.2))
    rw [List.map_map]
    exact groupBy_unique (fun _ _ => rfl) _
  have bugfix : ((bugfixRows rows).map TeamThemeMixRow.cell).Nodup := by
    apply List.Nodup.of_map (f := Prod.fst)
    rw [List.map_map]
    exact groupBy_unique (fun _ _ => rfl) _
  rw [mixRows, List.map_append]
  refine themes.append bugfix ?_
  intro cell inThemes inBugfix
  obtain ⟨r, inR, rfl⟩ := List.mem_map.mp inThemes
  obtain ⟨s, inS, same⟩ := List.mem_map.mp inBugfix
  obtain ⟨k, -, rfl⟩ := mem_groupBy.mp inR
  obtain ⟨k', -, rfl⟩ := mem_groupBy.mp inS
  cases same

theorem mem_cells (rows : List (UnitTeam × WorkUnit)) (team : Bytes) (k : MixKind × Bytes) :
    (team, k) ∈ (mixRows rows).map TeamThemeMixRow.cell ↔ ∃ row ∈ rows, row.1.teamId = team ∧ k ∈ mixKeys row.2 := by
  rw [mixRows, List.map_append, List.mem_append, List.mem_map, List.mem_map]
  constructor
  · rintro (⟨r, inside, same⟩ | ⟨r, inside, same⟩)
    · obtain ⟨k, ⟨x, found, rfl⟩, rfl⟩ := mem_groupBy.mp inside
      obtain ⟨row, inRow, entries⟩ := List.mem_flatMap.mp found
      obtain ⟨entry, inEntry, rfl⟩ := List.mem_map.mp entries
      cases same
      exact ⟨row, inRow, rfl, List.mem_cons_of_mem _ (List.mem_map_of_mem inEntry)⟩
    · obtain ⟨k, ⟨row, inRow, rfl⟩, rfl⟩ := mem_groupBy.mp inside
      cases same
      exact ⟨row, inRow, rfl, List.mem_cons_self⟩
  · rintro ⟨row, inRow, rfl, inKeys⟩
    rcases List.mem_cons.mp inKeys with rfl | theme
    · exact .inr ⟨_, mem_groupBy.mpr ⟨_, ⟨row, inRow, rfl⟩, rfl⟩, rfl⟩
    · obtain ⟨entry, inEntry, rfl⟩ := List.mem_map.mp theme
      refine .inl ⟨_, mem_groupBy.mpr ⟨(row.1.teamId, entry.1), ⟨(row.1, entry), ?_, rfl⟩, rfl⟩, rfl⟩
      exact List.mem_flatMap.mpr ⟨row, inRow, List.mem_map_of_mem inEntry⟩

theorem mem_documentedRows {team : Bytes} {k : MixKind × Bytes} :
    (team, k) ∈ q.documentedRows ↔ ∃ w ∈ q.unitsOf team, k ∈ mixKeys w := by
  rw [documentedRows, List.mem_dedup, List.mem_flatMap]
  constructor
  · rintro ⟨w, inWindow, found⟩
    obtain ⟨team', documented, cells⟩ := List.mem_flatMap.mp found
    obtain ⟨k', inKeys, same⟩ := List.mem_map.mp cells
    cases same
    exact ⟨w, List.mem_filter.mpr ⟨inWindow, decide_eq_true (Option.mem_toList.mp documented)⟩, inKeys⟩
  · rintro ⟨w, found, inKeys⟩
    obtain ⟨inWindow, documented⟩ := List.mem_filter.mp found
    exact ⟨w, inWindow, List.mem_flatMap.mpr
      ⟨team, Option.mem_toList.mpr (of_decide_eq_true documented), List.mem_map_of_mem inKeys⟩⟩

theorem mem_mixRows_iff (counted : ∀ w ∈ q.windowed, q.countedFor w = (q.documentedTeam w).toList)
    (cell : Bytes × MixKind × Bytes) :
    cell ∈ (mixRows q.attributed).map TeamThemeMixRow.cell ↔ cell ∈ q.documentedRows := by
  obtain ⟨team, k⟩ := cell
  rw [mem_cells, mem_documentedRows]
  simp only [← (attributed_perm counted team).mem_iff, List.mem_map, List.mem_filter, decide_eq_true_eq]
  constructor
  · rintro ⟨row, inside, named, inKeys⟩
    exact ⟨row.2, ⟨row, ⟨inside, named⟩, rfl⟩, inKeys⟩
  · rintro ⟨-, ⟨row, ⟨inside, named⟩, rfl⟩, inKeys⟩
    exact ⟨row, inside, named, inKeys⟩

theorem teamThemeMix_perm (few : (mixRows q.attributed).length ≤ defaultRowLimit) :
    q.teamThemeMix.Perm (mixRows q.attributed) := by
  rw [teamThemeMix, List.take_of_length_le]
  · exact List.perm_insertionSort _ _
  · rwa [List.length_insertionSort]

theorem mixTotal_perm {rows rows' : List TeamThemeMixRow} (same : rows.Perm rows') (kind : MixKind) (team key : Bytes) :
    mixTotal rows kind team key = mixTotal rows' kind team key :=
  ((same.filter _).map _).sum_eq

/-! ## When the vote is followed -/

theorem itemTeams_mono {items items' : List Bytes} (within : ∀ item ∈ items, item ∈ items') {team : Bytes}
    (voted : team ∈ q.itemTeams items) : team ∈ q.itemTeams items' := by
  obtain ⟨t, inside, named⟩ := List.mem_filterMap.mp (List.mem_dedup.mp voted)
  obtain ⟨found, has⟩ := List.mem_filter.mp inside
  refine List.mem_dedup.mpr (List.mem_filterMap.mpr ⟨t, List.mem_filter.mpr ⟨found, ?_⟩, named⟩)
  exact decide_eq_true (within _ (of_decide_eq_true has))

theorem countedFor_iff (every : q.AllRequested) {w : WorkUnit} (inWindow : w ∈ q.windowed) :
    q.countedFor w = (q.documentedTeam w).toList ↔ q.TeamsHold w := by
  constructor
  · intro counted
    have top : ∀ team ∈ q.documentedTeam w, q.topTeam (q.refIds w) = some team ∧
        (q.namedItems (q.refIds w)).length ≤ (q.teamItems (q.refIds w) team).length := by
      intro team documented
      rw [← mem_countedFor every inWindow, counted]
      exact Option.mem_toList.mpr documented
    refine ⟨fun team documented => (top team documented).2,
      fun team documented => (topTeam_eq_some.mp (top team documented).1).2, ?_⟩
    intro absent team voted
    obtain ⟨best, found⟩ := Option.ne_none_iff_exists'.mp (mt topTeam_eq_none.mp (List.ne_nil_of_mem voted))
    have below := teamItems_le_of_rank ((topTeam_eq_some.mp found).2 team voted)
    refine lt_of_le_of_lt below (not_le.mp ?_)
    intro few
    have inside := (mem_countedFor every inWindow).mpr ⟨found, few⟩
    rw [counted, absent] at inside
    cases inside
  · intro holds
    apply eq_toList nodup_countedFor
    intro team
    rw [mem_countedFor every inWindow]
    cases documented : q.documentedTeam w with
    | none =>
      refine iff_of_false ?_ (Option.some_ne_none team).symm
      rintro ⟨top, few⟩
      exact absurd few (not_le.mpr (holds.none documented team (topTeam_eq_some.mp top).1))
    | some own =>
      have voted := itemTeams_mono (fun _ inside => (List.mem_filter.mp inside).1) (topTeam_eq_some.mp documented).1
      rw [topTeam_eq_some.mpr ⟨voted, holds.most own documented⟩]
      refine and_iff_left_of_imp ?_
      rintro ⟨rfl⟩
      exact holds.named team documented

/-- The mix follows the documented vote when in every unit the documented team holds against the items
that are named without a team and against the empty id, and the mix is not cut. -/
theorem followsVote_iff (q : ThemeRead) (every : q.AllRequested) :
    q.FollowsVote ↔
      (∀ r, InWindow q.investments q.orgID q.bound q.params r → q.TeamsHold r.toWorkUnit) ∧
        q.documentedRows.length ≤ defaultRowLimit := by
  constructor
  · intro follows
    refine ⟨?_, ?_⟩
    · intro r inWindow
      have inside : r.toWorkUnit ∈ q.windowed := mem_windowed_iff.mpr ⟨r, inWindow, rfl⟩
      exact (countedFor_iff every inside).mp (follows.counted _ inside)
    · calc q.documentedRows.length
          ≤ (q.teamThemeMix.map TeamThemeMixRow.cell).length :=
            ((List.nodup_dedup _).subperm fun cell inside => (follows.rows cell).mpr inside).length_le
        _ = q.teamThemeMix.length := List.length_map _
        _ ≤ defaultRowLimit := List.length_take_le _ _
  · rintro ⟨holds, few⟩
    have counted : ∀ w ∈ q.windowed, q.countedFor w = (q.documentedTeam w).toList := by
      intro w inWindow
      obtain ⟨r, inRange, rfl⟩ := mem_windowed_iff.mp inWindow
      exact (countedFor_iff every inWindow).mpr (holds r inRange)
    have cells : ((mixRows q.attributed).map TeamThemeMixRow.cell).Perm q.documentedRows :=
      (List.perm_ext_iff_of_nodup (nodup_cells _) (List.nodup_dedup _)).mpr (mem_mixRows_iff counted)
    have uncut : q.teamThemeMix.Perm (mixRows q.attributed) := by
      apply teamThemeMix_perm
      rwa [← cells.length_eq, List.length_map] at few
    refine ⟨fun w => mem_windowed_iff, counted, fun row inside => (mem_attributed.mp inside).1, ?_, ?_, ?_⟩
    · intro cell
      exact ((uncut.map _).trans cells).mem_iff
    · intro team key
      rw [mixTotal_perm uncut, theme_total,
        ← ((attributed_perm counted team).map fun w => share w.themeDistribution key).sum_eq, List.map_map]
      rfl
    · intro team
      rw [mixTotal_perm uncut, bugfix_total, ← ((attributed_perm counted team).map
        fun w => w.subcategoryDistribution.at bugfixSubcategoryKey).sum_eq, List.map_map]
      rfl

end ThemeRead

/-! ## A unit whose items are mostly named without a team -/

def attribution (item : String) (teamId teamName : Option Bytes) : TeamAttribution :=
  ⟨ascii "org", Uuid.zero, ascii item, teamId, teamName, .nativeTeam, 1, 5⟩

def theUnit : WorkUnit := ⟨ascii "unit", 0, 1, [(ascii "quality", 1)], [], []⟩

/-- A read of one unit, whose issues are the given ones, over some attributions. -/
def voteOver (issues : List String) (rows : List TeamAttribution)
    (unique : (rows.map TeamAttribution.sortingKey).Nodup) : ThemeRead where
  investments := ⟨[⟨theUnit, ascii "org", 5⟩], by decide⟩
  repos := []
  attributions := .merged rows unique
  jsonExtract := fun _ key => if key = ascii "issues" then issues.map ascii else []
  orgID := ascii "org"
  ids := [ascii "A"]
  bound := ⟨false, false⟩
  params := ⟨0, 0⟩

/-- One item of team `A`, one of a name, and a ref without an item. -/
def evenVote : ThemeRead :=
  voteOver ["1", "2", ""]
    [attribution "1" (some (ascii "A")) none, attribution "2" none (some (ascii "Ghosts"))] (by decide)

theorem evenVote_followed : evenVote.FollowsVote := by
  apply (evenVote.followsVote_iff (by decide)).mpr
  refine ⟨?_, by decide⟩
  intro r inWindow
  have single : r.toWorkUnit = theUnit := by
    rw [List.mem_singleton.mp inWindow.stored]
  rw [single]
  exact ⟨by decide, by decide, by decide⟩

/-- One item of team `A`, two of a name. -/
def outvoted : ThemeRead :=
  voteOver ["1", "2", "3"]
    [attribution "1" (some (ascii "A")) (some (ascii "A")), attribution "2" none (some (ascii "Ghosts")),
      attribution "3" (some []) (some (ascii "Ghosts"))] (by decide)

theorem outvoted_counted_for_none :
    outvoted.AllRequested ∧ outvoted.documentedTeam theUnit = some (ascii "A") ∧ outvoted.countedFor theUnit = [] ∧
      ¬ outvoted.FollowsVote := by
  have documented : outvoted.documentedTeam theUnit = some (ascii "A") := by decide
  have none : outvoted.countedFor theUnit = [] := by decide
  refine ⟨by decide, documented, none, ?_⟩
  intro follows
  have counted := follows.counted theUnit (by decide)
  rw [documented, none] at counted
  cases counted

end DevHealth.Readers

import DevHealth.Go.Bytes
import DevHealth.Lib.Window
import Mathlib

/-! # The metrics of a team's latest day

`teamMetricsLatestDaySQL` reads a table that keeps old rows until a merge in the background
drops them.  Its innermost selection leaves the newest row of each repository and day, so
that nothing behind it can tell whether a merge has taken place. -/
set_option autoImplicit false
namespace DevHealth.Readers

open Go Lib.Relation

/-! ## Model -/

/-- A row of `team_metrics_daily`; a legacy row has an empty repository. -/
structure TeamMetricsDaily where
  orgId : Bytes
  teamId : Bytes
  teamName : Bytes
  day : Int
  repoId : Bytes
  commitsCount : Rat
  afterHoursCommitsCount : Rat
  weekendCommitsCount : Rat
  afterHoursCommitRatio : Rat
  weekendCommitRatio : Rat
  computedAt : Int
  deriving DecidableEq

structure TeamLatestDay where
  teamId : Bytes
  teamName : Bytes
  day : Int
  totalCommits : Rat
  totalAfterHours : Rat
  totalWeekend : Rat
  afterHoursCommitRatio : Rat
  weekendCommitRatio : Rat
  deriving DecidableEq

/-- `cityHash64` of the value columns. -/
abbrev RowHash := Bytes × Rat × Rat × Rat × Rat × Rat → Nat

section Statement

variable (cityHash64 : RowHash)

def TeamMetricsDaily.rowHash (r : TeamMetricsDaily) : Nat :=
  cityHash64 (r.teamName, r.commitsCount, r.afterHoursCommitsCount, r.weekendCommitsCount,
    r.afterHoursCommitRatio, r.weekendCommitRatio)

/-- The order of the newest row: by `computed_at`, then by the hash. -/
def TeamMetricsDaily.recency (r : TeamMetricsDaily) : Int ×ₗ Nat := toLex (r.computedAt, r.rowHash cityHash64)

/-- `WHERE org_id = … AND …`; a filter is a condition on the team and the day. -/
def selectedRows (orgID : Bytes) (filters : Bytes → Int → Bool) (rows : List TeamMetricsDaily) :
    List TeamMetricsDaily :=
  rows.filter fun r => decide (r.orgId = orgID) && filters r.teamId r.day

/-- `WHERE rn = 1` -/
def newestRows (rows : List TeamMetricsDaily) : List TeamMetricsDaily :=
  latest (fun r => (r.teamId, r.day, r.repoId)) (TeamMetricsDaily.recency cityHash64) rows

/-- `WHERE repo_id != '' OR real_repo_count = 0` -/
def withoutLegacy (rows : List TeamMetricsDaily) : List TeamMetricsDaily :=
  rows.filter fun r =>
    decide (r.repoId ≠ []) ||
      decide (countOver (fun r => (r.teamId, r.day)) (fun r => decide (r.repoId ≠ [])) rows r = 0)

/-- `WHERE day_rn = 1` -/
def latestDayRows (rows : List TeamMetricsDaily) : List TeamMetricsDaily :=
  top TeamMetricsDaily.teamId TeamMetricsDaily.day rows

def sumOf (count : TeamMetricsDaily → Rat) (rows : List TeamMetricsDaily) : Rat := (rows.map count).sum

/-- `argMax(team_name, (computed_at, row_hash))` -/
def newestName (rows : List TeamMetricsDaily) : Bytes :=
  (argMax TeamMetricsDaily.teamName (TeamMetricsDaily.recency cityHash64) rows).getD []

def ratio (part whole : Rat) : Rat := if 0 < whole then part / whole else 0

def sumDay (key : Bytes × Int) (rows : List TeamMetricsDaily) : TeamLatestDay where
  teamId := key.1
  teamName := newestName cityHash64 rows
  day := key.2
  totalCommits := sumOf TeamMetricsDaily.commitsCount rows
  totalAfterHours := sumOf TeamMetricsDaily.afterHoursCommitsCount rows
  totalWeekend := sumOf TeamMetricsDaily.weekendCommitsCount rows
  afterHoursCommitRatio :=
    ratio (sumOf TeamMetricsDaily.afterHoursCommitsCount rows) (sumOf TeamMetricsDaily.commitsCount rows)
  weekendCommitRatio :=
    ratio (sumOf TeamMetricsDaily.weekendCommitsCount rows) (sumOf TeamMetricsDaily.commitsCount rows)

def teamMetricsLatestDaySQL (orgID : Bytes) (filters : Bytes → Int → Bool) (rows : List TeamMetricsDaily) :
    List TeamLatestDay :=
  groupBy (fun r => (r.teamId, r.day)) (sumDay cityHash64)
    (latestDayRows (withoutLegacy (newestRows cityHash64 (selectedRows orgID filters rows))))

end Statement

/-! ## Superseded rows -/

def TeamMetricsDaily.sortingKey (r : TeamMetricsDaily) : Bytes × Bytes × Bytes × Int :=
  (r.orgId, r.teamId, r.repoId, r.day)

/-- No two rows of an organization, a team, a repository and a day were computed at the same time. -/
def NoTies (rows : List TeamMetricsDaily) : Prop := (rows.map fun r => (r.sortingKey, r.computedAt)).Nodup

instance (rows : List TeamMetricsDaily) : Decidable (NoTies rows) :=
  inferInstanceAs (Decidable (rows.map fun r => (r.sortingKey, r.computedAt)).Nodup)

def Superseded (rows : List TeamMetricsDaily) (r : TeamMetricsDaily) : Prop :=
  ∃ newer ∈ rows, newer.sortingKey = r.sortingKey ∧ r.computedAt < newer.computedAt

instance (rows : List TeamMetricsDaily) (r : TeamMetricsDaily) : Decidable (Superseded rows r) :=
  inferInstanceAs (Decidable (∃ newer ∈ rows, _))

variable {r : TeamMetricsDaily}

section Newest

variable {cityHash64 : RowHash} {orgID : Bytes} {filters : Bytes → Int → Bool} {rows : List TeamMetricsDaily}

theorem mem_selectedRows :
    r ∈ selectedRows orgID filters rows ↔ r ∈ rows ∧ r.orgId = orgID ∧ filters r.teamId r.day = true := by
  rw [selectedRows, List.mem_filter, Bool.and_eq_true, decide_eq_true_eq]

theorem recency_le {r s : TeamMetricsDaily} : r.recency cityHash64 ≤ s.recency cityHash64 ↔
      r.computedAt < s.computedAt ∨ r.computedAt = s.computedAt ∧ r.rowHash cityHash64 ≤ s.rowHash cityHash64 :=
  Prod.Lex.toLex_le_toLex

theorem NoTies.eq (noTies : NoTies rows) {r s : TeamMetricsDaily} (inR : r ∈ rows) (inS : s ∈ rows)
    (key : r.sortingKey = s.sortingKey) (time : r.computedAt = s.computedAt) : r = s := by
  apply List.inj_on_of_nodup_map noTies inR inS
  rw [key, time]

theorem sortingKey_of_partition {r s : TeamMetricsDaily} (org : r.orgId = s.orgId)
    (same : (r.teamId, r.day, r.repoId) = (s.teamId, s.day, s.repoId)) : r.sortingKey = s.sortingKey := by
  simp only [Prod.mk.injEq] at same
  rw [TeamMetricsDaily.sortingKey, TeamMetricsDaily.sortingKey, org, same.1, same.2.1, same.2.2]

theorem partition_of_sortingKey {r s : TeamMetricsDaily} (same : r.sortingKey = s.sortingKey) :
    r.orgId = s.orgId ∧ (r.teamId, r.day, r.repoId) = (s.teamId, s.day, s.repoId) := by
  simp only [TeamMetricsDaily.sortingKey, Prod.mk.injEq] at same
  rw [same.1, same.2.1, same.2.2.1, same.2.2.2]
  exact ⟨rfl, rfl⟩

theorem highest_iff_not_superseded (noTies : NoTies rows) (selected : r ∈ selectedRows orgID filters rows) :
    IsHighest (fun r => (r.teamId, r.day, r.repoId)) (TeamMetricsDaily.recency cityHash64)
        (selectedRows orgID filters rows) r ↔ ¬ Superseded rows r := by
  obtain ⟨inside, org, passes⟩ := mem_selectedRows.mp selected
  constructor
  · rintro highest ⟨newer, found, same, later⟩
    obtain ⟨sameOrg, samePart⟩ := partition_of_sortingKey same
    have chosen : newer ∈ selectedRows orgID filters rows := by
      rw [mem_selectedRows, sameOrg, (Prod.mk.inj samePart).1, (Prod.mk.inj (Prod.mk.inj samePart).2).1]
      exact ⟨found, org, passes⟩
    have below := recency_le.mp (highest newer chosen samePart)
    omega
  · intro current s chosen same
    obtain ⟨found, sameOrg, -⟩ := mem_selectedRows.mp chosen
    have key := sortingKey_of_partition (sameOrg.trans org.symm) same
    rcases lt_trichotomy s.computedAt r.computedAt with older | tied | newer
    · exact recency_le.mpr (.inl older)
    · rw [noTies.eq found inside key tied]
    · exact absurd ⟨s, found, key, newer⟩ current

theorem newestRows_eq (noTies : NoTies rows) : newestRows cityHash64 (selectedRows orgID filters rows) =
      selectedRows orgID filters (rows.filter fun r => ¬ Superseded rows r) := by
  have part : ∀ r ∈ selectedRows orgID filters rows, r ∈ rows := fun r inside => (mem_selectedRows.mp inside).1
  have distinct : ((selectedRows orgID filters rows).map fun r =>
      ((r.teamId, r.day, r.repoId), r.recency cityHash64)).Nodup := by
    apply List.Nodup.map_on
    · intro r inR s inS same
      obtain ⟨partition, recency⟩ := Prod.mk.inj same
      obtain ⟨foundR, orgR, -⟩ := mem_selectedRows.mp inR
      obtain ⟨foundS, orgS, -⟩ := mem_selectedRows.mp inS
      have time : r.computedAt = s.computedAt := congrArg (fun recency => (ofLex recency).1) recency
      exact noTies.eq foundR foundS (sortingKey_of_partition (orgR.trans orgS.symm) partition) time
    · exact (List.Nodup.of_map _ noTies).filter _
  rw [newestRows, latest_eq_filter distinct]
  have commuted : selectedRows orgID filters (rows.filter fun r => ¬ Superseded rows r) =
      (selectedRows orgID filters rows).filter fun r => ¬ Superseded rows r := by
    rw [selectedRows, selectedRows, List.filter_filter, List.filter_filter]
    apply List.filter_congr
    intro r _
    exact Bool.and_comm _ _
  rw [commuted]
  apply List.filter_congr
  intro r inside
  rw [decide_eq_decide]
  exact highest_iff_not_superseded noTies inside

theorem current_of_removed {keep : TeamMetricsDaily → Bool}
    (removed : ∀ r ∈ rows, keep r = false → Superseded rows r) :
    (rows.filter keep).filter (fun r => ¬ Superseded (rows.filter keep) r) =
      rows.filter fun r => ¬ Superseded rows r := by
  rw [List.filter_filter]
  apply List.filter_congr
  intro r inside
  rw [Bool.eq_iff_iff, Bool.and_eq_true, decide_eq_true_eq, decide_eq_true_eq]
  constructor
  · rintro ⟨current, -⟩ ⟨newer, found, same, later⟩
    obtain ⟨top, inTop, sameTop, above, highest⟩ :=
      exists_highest TeamMetricsDaily.sortingKey TeamMetricsDaily.computedAt found
    have kept : keep top = true := by
      by_contra dropped
      obtain ⟨newest, inNewest, sameNewest, laterNewest⟩ := removed top inTop (Bool.not_eq_true _ ▸ dropped)
      have below := highest newest inNewest sameNewest
      omega
    exact current ⟨top, List.mem_filter.mpr ⟨inTop, kept⟩, sameTop.trans same, by omega⟩
  · intro current
    refine ⟨?_, ?_⟩
    · rintro ⟨newer, found, same, later⟩
      exact current ⟨newer, (List.mem_filter.mp found).1, same, later⟩
    · by_contra dropped
      exact current (removed r inside (Bool.not_eq_true _ ▸ dropped))

/-! ## The served day -/

/-- The rows a day's sums are over: the newest of each repository, and of the legacy bucket only
when the day has no repository. -/
def countedRows (orgID : Bytes) (rows : List TeamMetricsDaily) (team : Bytes) (day : Int) : List TeamMetricsDaily :=
  rows.filter fun r => r.orgId = orgID ∧ r.teamId = team ∧ r.day = day ∧ ¬ Superseded rows r ∧
    (r.repoId ≠ [] ∨ ∀ s ∈ rows, s.orgId = orgID → s.teamId = team → s.day = day → s.repoId = [])

/-- The rows that none supersedes, of those selected. -/
def currentRows (orgID : Bytes) (filters : Bytes → Int → Bool) (rows : List TeamMetricsDaily) :
    List TeamMetricsDaily :=
  selectedRows orgID filters (rows.filter fun r => ¬ Superseded rows r)

theorem mem_currentRows : r ∈ currentRows orgID filters rows ↔
      r ∈ rows ∧ ¬ Superseded rows r ∧ r.orgId = orgID ∧ filters r.teamId r.day = true := by
  rw [currentRows, mem_selectedRows, List.mem_filter, decide_eq_true_eq, and_assoc]

theorem exists_current (selected : r ∈ selectedRows orgID filters rows) :
    ∃ c ∈ currentRows orgID filters rows, c.teamId = r.teamId ∧ c.day = r.day ∧ c.repoId = r.repoId := by
  obtain ⟨inside, org, passes⟩ := mem_selectedRows.mp selected
  obtain ⟨c, found, same, -, highest⟩ :=
    exists_highest TeamMetricsDaily.sortingKey TeamMetricsDaily.computedAt inside
  have current : ¬ Superseded rows c := by
    rintro ⟨newer, inNewer, sameNewer, later⟩
    have below := highest newer inNewer sameNewer
    omega
  obtain ⟨sameOrg, samePart⟩ := partition_of_sortingKey same
  simp only [Prod.mk.injEq] at samePart
  refine ⟨c, mem_currentRows.mpr ⟨found, current, sameOrg.trans org, ?_⟩, samePart⟩
  rw [samePart.1, samePart.2.1]
  exact passes

theorem mem_withoutLegacy {current : List TeamMetricsDaily} : r ∈ withoutLegacy current ↔ r ∈ current ∧
      (r.repoId ≠ [] ∨ ∀ s ∈ current, s.teamId = r.teamId → s.day = r.day → s.repoId = []) := by
  rw [withoutLegacy, List.mem_filter, Bool.or_eq_true, decide_eq_true_eq, decide_eq_true_eq, countOver_zero]
  simp only [Prod.mk.injEq, and_imp, decide_eq_false_iff_not, ne_eq, not_not]

theorem noRepository_iff {team : Bytes} {day : Int} (passes : filters team day = true) :
    (∀ s ∈ currentRows orgID filters rows, s.teamId = team → s.day = day → s.repoId = []) ↔
      ∀ s ∈ rows, s.orgId = orgID → s.teamId = team → s.day = day → s.repoId = [] := by
  constructor
  · intro none s inside org sameTeam sameDay
    have selected : s ∈ selectedRows orgID filters rows := by
      rw [mem_selectedRows, sameTeam, sameDay]
      exact ⟨inside, org, passes⟩
    obtain ⟨c, current, team', day', repo'⟩ := exists_current selected
    rw [← repo']
    exact none c current (team'.trans sameTeam) (day'.trans sameDay)
  · intro none s current
    obtain ⟨inside, -, org, -⟩ := mem_currentRows.mp current
    exact none s inside org

theorem exists_kept (selected : r ∈ selectedRows orgID filters rows) :
    ∃ w ∈ withoutLegacy (currentRows orgID filters rows), w.teamId = r.teamId ∧ w.day = r.day := by
  obtain ⟨c, current, team, day, -⟩ := exists_current selected
  by_cases real : ∃ s ∈ currentRows orgID filters rows, s.teamId = r.teamId ∧ s.day = r.day ∧ s.repoId ≠ []
  · obtain ⟨s, inside, sameTeam, sameDay, repo⟩ := real
    exact ⟨s, mem_withoutLegacy.mpr ⟨inside, .inl repo⟩, sameTeam, sameDay⟩
  · refine ⟨c, mem_withoutLegacy.mpr ⟨current, .inr ?_⟩, team, day⟩
    intro s inside sameTeam sameDay
    by_contra repo
    exact real ⟨s, inside, sameTeam.trans team, sameDay.trans day, repo⟩

theorem served_eq {x : TeamMetricsDaily}
    (served : x ∈ latestDayRows (withoutLegacy (currentRows orgID filters rows))) :
    ((latestDayRows (withoutLegacy (currentRows orgID filters rows))).filter
        fun r => (r.teamId, r.day) = (x.teamId, x.day)) = countedRows orgID rows x.teamId x.day := by
  obtain ⟨kept, highest⟩ := mem_top.mp served
  obtain ⟨current, -⟩ := mem_withoutLegacy.mp kept
  obtain ⟨-, -, -, passes⟩ := mem_currentRows.mp current
  have kind : SelectedFrom rows (latestDayRows (withoutLegacy (currentRows orgID filters rows))) :=
    ((SelectedFrom.filter ⟨_, rfl⟩ _).filter _).filter _
  have counted : SelectedFrom rows (countedRows orgID rows x.teamId x.day) := ⟨_, rfl⟩
  apply (kind.filter _).ext counted
  intro r
  rw [List.mem_filter, decide_eq_true_eq, countedRows, List.mem_filter, decide_eq_true_eq, latestDayRows, mem_top,
    mem_withoutLegacy, mem_currentRows]
  constructor
  · rintro ⟨⟨⟨⟨inside, unsuperseded, org, -⟩, repository⟩, -⟩, same⟩
    obtain ⟨team, day⟩ := Prod.mk.inj same
    rw [team, day, noRepository_iff passes] at repository
    exact ⟨inside, org, team, day, unsuperseded, repository⟩
  · rintro ⟨inside, org, team, day, unsuperseded, repository⟩
    rw [← noRepository_iff passes, ← team, ← day] at repository
    rw [← team, ← day] at passes
    refine ⟨⟨⟨⟨inside, unsuperseded, org, passes⟩, repository⟩, ?_⟩, by rw [team, day]⟩
    intro s other sameTeam
    rw [day]
    exact highest s other (sameTeam.trans team)

/-! ## What the statement returns -/

/-- The row is the team's latest day of those the filter leaves, with the sums over its
counted rows. -/
structure IsLatestDay (orgID : Bytes) (filters : Bytes → Int → Bool) (rows : List TeamMetricsDaily)
    (out : TeamLatestDay) : Prop where
  passes : filters out.teamId out.day = true
  hasDay : ∃ r ∈ rows, r.orgId = orgID ∧ r.teamId = out.teamId ∧ r.day = out.day
  latest : ∀ r ∈ rows, r.orgId = orgID → r.teamId = out.teamId → filters r.teamId r.day = true → r.day ≤ out.day
  commits : out.totalCommits =
    ((countedRows orgID rows out.teamId out.day).map TeamMetricsDaily.commitsCount).sum
  afterHours : out.totalAfterHours =
    ((countedRows orgID rows out.teamId out.day).map TeamMetricsDaily.afterHoursCommitsCount).sum
  weekend : out.totalWeekend =
    ((countedRows orgID rows out.teamId out.day).map TeamMetricsDaily.weekendCommitsCount).sum
  afterHoursRatio : out.afterHoursCommitRatio = ratio out.totalAfterHours out.totalCommits
  weekendRatio : out.weekendCommitRatio = ratio out.totalWeekend out.totalCommits
  name : ∃ r ∈ countedRows orgID rows out.teamId out.day, out.teamName = r.teamName ∧
    ∀ s ∈ countedRows orgID rows out.teamId out.day, s.computedAt ≤ r.computedAt

theorem newestName_spec {counted : List TeamMetricsDaily} (nonempty : counted ≠ []) :
    ∃ r ∈ counted, newestName cityHash64 counted = r.teamName ∧ ∀ s ∈ counted, s.computedAt ≤ r.computedAt := by
  cases best : argMax TeamMetricsDaily.teamName (TeamMetricsDaily.recency cityHash64) counted with
  | none => exact absurd (argMax_eq_none.mp best) nonempty
  | some name =>
    obtain ⟨r, found, rfl, highest⟩ := argMax_highest best
    refine ⟨r, found, by rw [newestName, best]; rfl, ?_⟩
    intro s inside
    rcases recency_le.mp (highest s inside) with older | ⟨tied, -⟩
    · exact le_of_lt older
    · exact le_of_eq tied

theorem isLatestDay_sumDay {x : TeamMetricsDaily}
    (served : x ∈ latestDayRows (withoutLegacy (currentRows orgID filters rows))) :
    IsLatestDay orgID filters rows
      (sumDay cityHash64 (x.teamId, x.day) (countedRows orgID rows x.teamId x.day)) := by
  obtain ⟨kept, highest⟩ := mem_top.mp served
  obtain ⟨current, -⟩ := mem_withoutLegacy.mp kept
  obtain ⟨inside, -, org, passes⟩ := mem_currentRows.mp current
  have own : x ∈ countedRows orgID rows x.teamId x.day := by
    rw [← served_eq served, List.mem_filter]
    exact ⟨served, decide_eq_true rfl⟩
  refine ⟨passes, ⟨x, inside, org, rfl, rfl⟩, ?_, rfl, rfl, rfl, rfl, rfl,
    newestName_spec (List.ne_nil_of_mem own)⟩
  intro r inR orgR team passesR
  obtain ⟨w, inW, sameTeam, sameDay⟩ := exists_kept (mem_selectedRows.mpr ⟨inR, orgR, passesR⟩)
  rw [← sameDay]
  exact highest w inW (sameTeam.trans team)

theorem mem_teamMetricsLatestDay (noTies : NoTies rows) {out : TeamLatestDay} :
    out ∈ teamMetricsLatestDaySQL cityHash64 orgID filters rows ↔
      ∃ x ∈ latestDayRows (withoutLegacy (currentRows orgID filters rows)),
        out = sumDay cityHash64 (x.teamId, x.day) (countedRows orgID rows x.teamId x.day) := by
  rw [teamMetricsLatestDaySQL, newestRows_eq noTies, mem_groupBy]
  constructor
  · rintro ⟨k, ⟨x, served, rfl⟩, rfl⟩
    exact ⟨x, served, by rw [← served_eq served]; rfl⟩
  · rintro ⟨x, served, rfl⟩
    exact ⟨(x.teamId, x.day), ⟨x, served, rfl⟩, by rw [← served_eq served]; rfl⟩

/-- The statement does not depend on superseded rows. -/
theorem teamMetricsLatestDay_removed (noTies : NoTies rows) {keep : TeamMetricsDaily → Bool}
    (removed : ∀ r ∈ rows, keep r = false → Superseded rows r) :
    teamMetricsLatestDaySQL cityHash64 orgID filters (rows.filter keep) =
      teamMetricsLatestDaySQL cityHash64 orgID filters rows := by
  have stillNoTies : NoTies (rows.filter keep) := noTies.sublist (List.filter_sublist.map _)
  rw [teamMetricsLatestDaySQL, teamMetricsLatestDaySQL, newestRows_eq stillNoTies, newestRows_eq noTies,
    current_of_removed removed]

theorem exists_latestDay_iff (noTies : NoTies rows) (team : Bytes) :
    (∃ out ∈ teamMetricsLatestDaySQL cityHash64 orgID filters rows, out.teamId = team) ↔
      ∃ r ∈ rows, r.orgId = orgID ∧ r.teamId = team ∧ filters r.teamId r.day = true := by
  constructor
  · rintro ⟨out, returned, rfl⟩
    obtain ⟨x, served, rfl⟩ := (mem_teamMetricsLatestDay noTies).mp returned
    obtain ⟨current, -⟩ := mem_withoutLegacy.mp (mem_top.mp served).1
    obtain ⟨inside, -, org, passes⟩ := mem_currentRows.mp current
    exact ⟨x, inside, org, rfl, passes⟩
  · rintro ⟨r, inside, org, rfl, passes⟩
    obtain ⟨w, kept, sameTeam, -⟩ := exists_kept (mem_selectedRows.mpr ⟨inside, org, passes⟩)
    obtain ⟨x, found, same, -, highest⟩ := exists_highest TeamMetricsDaily.teamId TeamMetricsDaily.day kept
    exact ⟨_, (mem_teamMetricsLatestDay noTies).mpr ⟨x, mem_top.mpr ⟨found, highest⟩, rfl⟩, same.trans sameTeam⟩

theorem latestDay_unique (noTies : NoTies rows) :
    ((teamMetricsLatestDaySQL cityHash64 orgID filters rows).map TeamLatestDay.teamId).Nodup := by
  have groups : ((teamMetricsLatestDaySQL cityHash64 orgID filters rows).map
      fun out => (out.teamId, out.day)).Nodup := groupBy_unique (fun _ _ => rfl) _
  apply List.Nodup.map_on
  · intro a inA b inB team
    obtain ⟨x, servedX, rfl⟩ := (mem_teamMetricsLatestDay noTies).mp inA
    obtain ⟨y, servedY, rfl⟩ := (mem_teamMetricsLatestDay noTies).mp inB
    obtain ⟨keptX, highestX⟩ := mem_top.mp servedX
    obtain ⟨keptY, highestY⟩ := mem_top.mp servedY
    have sameTeam : x.teamId = y.teamId := team
    have sameDay : x.day = y.day := le_antisymm (highestY x keptX sameTeam) (highestX y keptY sameTeam.symm)
    rw [sameTeam, sameDay]
  · exact groups.of_map

/-- The statement does not depend on superseded rows, and returns for each team its latest day. -/
theorem teamMetricsLatestDay_merged (cityHash64 : RowHash) (orgID : Bytes) (filters : Bytes → Int → Bool)
    (rows : List TeamMetricsDaily) (noTies : NoTies rows) :
    (∀ keep : TeamMetricsDaily → Bool, (∀ r ∈ rows, keep r = false → Superseded rows r) →
      teamMetricsLatestDaySQL cityHash64 orgID filters (rows.filter keep) =
        teamMetricsLatestDaySQL cityHash64 orgID filters rows) ∧
    (∀ team, (∃ out ∈ teamMetricsLatestDaySQL cityHash64 orgID filters rows, out.teamId = team) ↔
      ∃ r ∈ rows, r.orgId = orgID ∧ r.teamId = team ∧ filters r.teamId r.day = true) ∧
    ((teamMetricsLatestDaySQL cityHash64 orgID filters rows).map TeamLatestDay.teamId).Nodup ∧
    ∀ out ∈ teamMetricsLatestDaySQL cityHash64 orgID filters rows, IsLatestDay orgID filters rows out := by
  refine ⟨fun keep removed => teamMetricsLatestDay_removed noTies removed, exists_latestDay_iff noTies,
    latestDay_unique noTies, ?_⟩
  intro out returned
  obtain ⟨x, served, rfl⟩ := (mem_teamMetricsLatestDay noTies).mp returned
  exact isLatestDay_sumDay served

end Newest

/-- A day with the legacy bucket and two repositories, one of them computed again. -/
def mergedDay : List TeamMetricsDaily :=
  [⟨ascii "org", ascii "team", ascii "Old", 7, ascii "a", 1, 0, 0, 0, 0, 10⟩,
    ⟨ascii "org", ascii "team", ascii "New", 7, ascii "a", 4, 1, 0, 0, 0, 20⟩,
    ⟨ascii "org", ascii "team", ascii "New", 7, ascii "b", 2, 0, 1, 0, 0, 15⟩,
    ⟨ascii "org", ascii "team", ascii "Old", 7, [], 9, 9, 9, 0, 0, 5⟩]

theorem mergedDay_unchanged :
    teamMetricsLatestDaySQL (fun _ => 0) (ascii "org") (fun _ _ => true)
        (mergedDay.filter fun r => r.computedAt ≠ 10) =
      teamMetricsLatestDaySQL (fun _ => 0) (ascii "org") (fun _ _ => true) mergedDay := by
  apply (teamMetricsLatestDay_merged (fun _ => 0) (ascii "org") (fun _ _ => true) mergedDay (by decide)).1
  decide

end DevHealth.Readers

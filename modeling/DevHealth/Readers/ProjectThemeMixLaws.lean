import DevHealth.Readers.ProjectThemeMix

/-! # Which units a project's mix counts

The rows of `ReadProjectThemeMix` are those of the requested projects that have a unit, each
counting every unit of its project once.  A project's row depends on the tables and on the
window, not on what else is asked for. -/
set_option autoImplicit false
namespace DevHealth.Readers

open Go Lib Lib.Relation Clickhouse Clickhouse.ByteOrder

namespace ProjectThemeRead

/-! ## The units of a project -/

variable (q : ProjectThemeRead)

/-- A placement names the project: its id, or its key when no other project has it. -/
def Names (p : Project) (projectId : Bytes) : Prop :=
  projectId = p.id ∨ q.SoleKey p ∧ projectId = p.key

instance (p : Project) (projectId : Bytes) : Decidable (q.Names p projectId) :=
  inferInstanceAs (Decidable (_ ∨ _))

def Places (p : Project) (item : Bytes) : Prop := ∃ m ∈ q.placements, m.subjectId = item ∧ q.Names p m.projectId

instance (p : Project) (item : Bytes) : Decidable (q.Places p item) := inferInstanceAs (Decidable (∃ m ∈ _, _))

def MultiPlaced (item : Bytes) : Prop :=
  ∃ m ∈ q.placements, ∃ n ∈ q.placements, m.subjectId = item ∧ n.subjectId = item ∧
    ∃ a ∈ m.repoId, ∃ b ∈ n.repoId, a ≠ b

instance (item : Bytes) : Decidable (q.MultiPlaced item) := inferInstanceAs (Decidable (∃ m ∈ _, ∃ n ∈ _, _))

def Attributes (p : Project) (w : WorkUnit) : Prop := ∃ item ∈ q.issues w, q.Places p item

instance (p : Project) (w : WorkUnit) : Decidable (q.Attributes p w) := inferInstanceAs (Decidable (∃ item ∈ _, _))

def unitsOf (p : Project) : List WorkUnit := q.windowed.filter fun w => q.Attributes p w

/-- The unit is also attributed to another project of the organization. -/
def Spans (p : Project) (w : WorkUnit) : Prop := ∃ other ∈ q.projects, other ≠ p ∧ q.Attributes other w

instance (p : Project) (w : WorkUnit) : Decidable (q.Spans p w) := inferInstanceAs (Decidable (∃ other ∈ _, _))

/-- An item that is placed under two repositories attributes the unit to the project. -/
def ReachedByMultiPlaced (p : Project) (w : WorkUnit) : Prop :=
  ∃ item ∈ q.issues w, q.Places p item ∧ q.MultiPlaced item

instance (p : Project) (w : WorkUnit) : Decidable (q.ReachedByMultiPlaced p w) :=
  inferInstanceAs (Decidable (∃ item ∈ _, _))

def documentedRow (p : Project) : ProjectThemeMixRow where
  projectSubjectKey := subject p.provider p.id
  featureDelivery := ((q.unitsOf p).map fun w => w.themeDistribution.at (ascii "feature_delivery")).sum
  operational := ((q.unitsOf p).map fun w => w.themeDistribution.at (ascii "operational")).sum
  maintenance := ((q.unitsOf p).map fun w => w.themeDistribution.at (ascii "maintenance")).sum
  quality := ((q.unitsOf p).map fun w => w.themeDistribution.at (ascii "quality")).sum
  risk := ((q.unitsOf p).map fun w => w.themeDistribution.at (ascii "risk")).sum
  bugfixWeighted := ((q.unitsOf p).map fun w => w.subcategoryDistribution.at bugfixSubcategoryKey).sum
  workUnits := (q.unitsOf p).length
  spanningUnits := (q.unitsOf p).countP fun w => q.Spans p w
  multiPlacedUnits := (q.unitsOf p).countP fun w => q.ReachedByMultiPlaced p w

def asking (ids : List Bytes) : ProjectThemeRead := { q with ids := ids }

/-- The rows of a read are the documented rows of the requested projects that have units, and
are the same when more is asked for. -/
structure CountsUnits : Prop where
  inWindow : ∀ w, w ∈ q.windowed ↔ ∃ r, InWindow q.investments q.orgID q.bound q.params r ∧ w = r.toWorkUnit
  distinct : (q.windowed.map WorkUnit.workUnitId).Nodup
  rows : q.projectThemeMix.Perm ((q.requested.filter fun p => q.unitsOf p ≠ []).map q.documentedRow)
  more : ∀ ids, q.ids ⊆ ids →
    ((q.asking ids).projectThemeMix.filter fun r => r.projectSubjectKey ∈ q.ids).Perm q.projectThemeMix

/-! ## Resolved units -/

variable {q}

theorem windowed_unique : (q.windowed.map WorkUnit.workUnitId).Nodup :=
  (groupBy_unique (fun _ _ => rfl) _).sublist (List.filter_sublist.map _)

theorem windowed_eq {v w : WorkUnit} (inV : v ∈ q.windowed) (inW : w ∈ q.windowed)
    (same : v.workUnitId = w.workUnitId) : v = w :=
  List.inj_on_of_nodup_map windowed_unique inV inW same

theorem multiPlacedOf_one {item : Bytes} : q.multiPlacedOf item = 1 ↔ q.MultiPlaced item := by
  have more : 1 < q.repoCount item ↔ q.MultiPlaced item := by
    rw [repoCount, ← List.card_toFinset, Finset.one_lt_card]
    simp only [List.mem_toFinset, List.mem_filterMap, List.mem_filter, decide_eq_true_eq]
    constructor
    · rintro ⟨a, ⟨m, ⟨inM, ofM⟩, isA⟩, b, ⟨n, ⟨inN, ofN⟩, isB⟩, apart⟩
      exact ⟨m, inM, n, inN, ofM, ofN, a, isA, b, isB, apart⟩
    · rintro ⟨m, inM, n, inN, ofM, ofN, a, isA, b, isB, apart⟩
      exact ⟨a, ⟨m, ⟨inM, ofM⟩, isA⟩, b, ⟨n, ⟨inN, ofN⟩, isB⟩, apart⟩
  rw [← more, multiPlacedOf]
  split_ifs with many <;> simp [many]

theorem mem_touched {r : ResolvedUnit} :
    r ∈ q.touched ↔ ∃ p ∈ q.projects, ∃ w ∈ q.windowed, ∃ item ∈ q.issues w, q.Places p item ∧
      r = ⟨p.provider, p.id, w.workUnitId, q.multiPlacedOf item⟩ := by
  simp only [touched, unitProject, unitIssue, itemProject, List.mem_map, List.mem_flatMap, Prod.exists,
    mem_innerJoin, mem_catalog, decide_eq_true_eq]
  constructor
  · rintro ⟨scope, up, ⟨⟨p, inside, answers⟩, ⟨unit, ref, ip, ⟨⟨w, inWindow, item, named, pair⟩, ⟨m, placed, rfl⟩, on⟩, rfl⟩,
      found⟩, rfl⟩
    cases pair
    refine ⟨p, inside, w, inWindow, _, named, ⟨m, placed, on, ?_⟩, ?_⟩
    · exact answers.scope.imp found.trans (And.imp_right found.trans)
    · rw [answers.provider, answers.id, ← on]
  · rintro ⟨p, inside, w, inWindow, _, named, ⟨m, placed, rfl, names⟩, rfl⟩
    refine ⟨⟨p.provider, p.id, p.key, 1, m.projectId,
      if q.SoleKey p ∧ m.projectId = p.key then kindKey else kindID⟩, _,
      ⟨⟨p, inside, rfl, rfl, rfl, rfl, names, rfl⟩, ⟨_, _, _, ⟨⟨w, inWindow, _, named, rfl⟩, ⟨m, placed, rfl⟩, rfl⟩, rfl⟩,
        rfl⟩, rfl⟩

theorem max_flags {l : List Nat} (flags : ∀ n ∈ l, n = 0 ∨ n = 1) : l.max?.getD 0 = if 1 ∈ l then 1 else 0 := by
  cases largest : l.max? with
  | none =>
    rw [List.max?_eq_none_iff.mp largest]
    rfl
  | some n =>
    obtain ⟨inside, above⟩ := List.max?_eq_some_iff.mp largest
    rw [Option.getD_some]
    rcases flags n inside with rfl | rfl
    · rw [if_neg fun one => absurd (above 1 one) (by omega)]
    · rw [if_pos inside]

theorem mem_resolved {r : ResolvedUnit} : r ∈ q.resolved ↔ ∃ p ∈ q.projects, ∃ w ∈ q.unitsOf p,
      r = ⟨p.provider, p.id, w.workUnitId, if q.ReachedByMultiPlaced p w then 1 else 0⟩ := by
  have largest : ∀ p ∈ q.projects, ∀ w ∈ q.windowed,
      (((q.touched.filter fun r => (r.projectProvider, r.projectId, r.workUnitId) =
        (p.provider, p.id, w.workUnitId)).map ResolvedUnit.multiPlaced).max?).getD 0 =
        if q.ReachedByMultiPlaced p w then 1 else 0 := by
    intro p inside w inWindow
    rw [max_flags]
    · refine if_congr ?_ rfl rfl
      simp only [List.mem_map, List.mem_filter, mem_touched, decide_eq_true_eq, Prod.mk.injEq]
      constructor
      · rintro ⟨r, ⟨⟨p', inside', w', inWindow', item, named, places, rfl⟩, provider, id, unit⟩, one⟩
        obtain rfl := Statement.projects_unique inside' inside provider id
        obtain rfl := windowed_eq inWindow' inWindow unit
        exact ⟨item, named, places, multiPlacedOf_one.mp one⟩
      · rintro ⟨item, named, places, multi⟩
        exact ⟨_, ⟨⟨p, inside, w, inWindow, item, named, places, rfl⟩, rfl, rfl, rfl⟩, multiPlacedOf_one.mpr multi⟩
    · intro n flag
      obtain ⟨r, found, rfl⟩ := List.mem_map.mp flag
      obtain ⟨-, -, -, -, item, -, -, rfl⟩ := mem_touched.mp (List.mem_filter.mp found).1
      exact (ite_eq_or_eq _ 1 0).symm
  rw [resolved, mem_groupBy]
  constructor
  · rintro ⟨k, ⟨x, found, rfl⟩, rfl⟩
    obtain ⟨p, inside, w, inWindow, item, named, places, rfl⟩ := mem_touched.mp found
    refine ⟨p, inside, w, List.mem_filter.mpr ⟨inWindow, decide_eq_true ⟨item, named, places⟩⟩, ?_⟩
    rw [← largest p inside w inWindow]
  · rintro ⟨p, inside, w, own, rfl⟩
    obtain ⟨inWindow, attributes⟩ := List.mem_filter.mp own
    obtain ⟨item, named, places⟩ := of_decide_eq_true attributes
    refine ⟨_, ⟨_, mem_touched.mpr ⟨p, inside, w, inWindow, item, named, places, rfl⟩, rfl⟩, ?_⟩
    rw [← largest p inside w inWindow]

theorem resolved_unique : (q.resolved.map fun r => (r.projectProvider, r.projectId, r.workUnitId)).Nodup :=
  groupBy_unique (fun _ _ => rfl) _

/-! ## Counted units -/

def countedRow (q : ProjectThemeRead) (p : Project) (w : WorkUnit) : (ResolvedUnit × WorkUnit) × Option UnitSpan :=
  ((⟨p.provider, p.id, w.workUnitId, if q.ReachedByMultiPlaced p w then 1 else 0⟩, w),
    q.unitSpan.find? fun span => decide (span.workUnitId = w.workUnitId))

theorem counted_eq : q.counted =
    (innerJoin (fun (a : ResolvedUnit) (w : WorkUnit) => decide (w.workUnitId = a.workUnitId)) q.attributed q.windowed).map
      fun row => (row, q.unitSpan.find? fun span => decide (span.workUnitId = row.1.workUnitId)) := by
  apply leftJoin_eq
  intro row _
  apply matches_le_one UnitSpan.workUnitId (groupBy_unique (fun _ _ => rfl) _)
  intro span _ same
  exact of_decide_eq_true same

theorem mem_counted {x : (ResolvedUnit × WorkUnit) × Option UnitSpan} :
    x ∈ q.counted ↔ ∃ p ∈ q.requested, ∃ w ∈ q.unitsOf p, x = q.countedRow p w := by
  simp only [counted_eq, List.mem_map, Prod.exists, mem_innerJoin, attributed, List.mem_filter, mem_resolved,
    decide_eq_true_eq, Statement.requested]
  constructor
  · rintro ⟨r, v, ⟨⟨⟨p, inside, w, own, rfl⟩, asked⟩, inWindow, unit⟩, rfl⟩
    obtain rfl := windowed_eq inWindow (List.mem_filter.mp own).1 unit
    exact ⟨p, ⟨inside, asked⟩, v, own, rfl⟩
  · rintro ⟨p, ⟨inside, asked⟩, w, own, rfl⟩
    exact ⟨_, w, ⟨⟨⟨p, inside, w, own, rfl⟩, asked⟩, (List.mem_filter.mp own).1, rfl⟩, rfl⟩

theorem nodup_counted : q.counted.Nodup := by
  rw [counted_eq]
  apply (nodup_innerJoin (resolved_unique.of_map.filter _) windowed_unique.of_map).map
  intro a b same
  exact (Prod.mk.inj same).1

/-- The rows that are counted for a requested project are those of its units. -/
theorem counted_perm {p : Project} (asked : p ∈ q.requested) :
    (q.counted.filter fun x => (x.1.1.projectProvider, x.1.1.projectId) = (p.provider, p.id)).Perm
      ((q.unitsOf p).map (q.countedRow p)) := by
  have right : ((q.unitsOf p).map (q.countedRow p)).Nodup := by
    apply (windowed_unique.of_map.filter _).map
    intro v w same
    exact congrArg (fun x => x.1.2) same
  rw [List.perm_ext_iff_of_nodup (nodup_counted.filter _) right]
  intro x
  rw [List.mem_filter, mem_counted, decide_eq_true_eq, List.mem_map]
  constructor
  · rintro ⟨⟨p', asked', w, own, rfl⟩, same⟩
    obtain rfl := Statement.projects_unique (List.mem_filter.mp asked').1 (List.mem_filter.mp asked).1
      (Prod.mk.inj same).1 (Prod.mk.inj same).2
    exact ⟨w, own, rfl⟩
  · rintro ⟨w, own, rfl⟩
    exact ⟨⟨p, asked, w, own, rfl⟩, rfl⟩

theorem spans_iff {p : Project} (inside : p ∈ q.projects) {w : WorkUnit} (own : w ∈ q.unitsOf p) :
    1 < ((q.unitSpan.find? fun span => decide (span.workUnitId = w.workUnitId)).map UnitSpan.projectCount).getD 0 ↔
      q.Spans p w := by
  obtain ⟨inWindow, attributes⟩ := List.mem_filter.mp own
  have pairs : ∀ pair, pair ∈ (q.resolved.filter fun r => r.workUnitId = w.workUnitId).map
      (fun r => (r.projectProvider, r.projectId)) ↔
      ∃ p ∈ q.projects, q.Attributes p w ∧ pair = (p.provider, p.id) := by
    intro pair
    simp only [List.mem_map, List.mem_filter, mem_resolved, decide_eq_true_eq]
    constructor
    · rintro ⟨r, ⟨⟨p', inside', v, own', rfl⟩, unit⟩, rfl⟩
      obtain ⟨inWindow', attributes'⟩ := List.mem_filter.mp own'
      obtain rfl := windowed_eq inWindow' inWindow unit
      exact ⟨p', inside', of_decide_eq_true attributes', rfl⟩
    · rintro ⟨p', inside', attributes', rfl⟩
      exact ⟨_, ⟨⟨p', inside', w, List.mem_filter.mpr ⟨inWindow, decide_eq_true attributes'⟩, rfl⟩, rfl⟩, rfl⟩
  have present : w.workUnitId ∈ q.resolved.map ResolvedUnit.workUnitId :=
    List.mem_map.mpr ⟨_, mem_resolved.mpr ⟨p, inside, w, own, rfl⟩, rfl⟩
  rw [unitSpan, find_groupBy (fun _ _ => rfl), if_pos present, Option.map_some, Option.getD_some, ← List.card_toFinset,
    Finset.one_lt_card]
  simp only [List.mem_toFinset, pairs]
  constructor
  · rintro ⟨_, ⟨a, inA, attributesA, rfl⟩, _, ⟨b, inB, attributesB, rfl⟩, apart⟩
    by_cases same : a = p
    · refine ⟨b, inB, ?_, attributesB⟩
      intro equal
      exact apart (by rw [same, equal])
    · exact ⟨a, inA, same, attributesA⟩
  · rintro ⟨other, inOther, apart, attributesOther⟩
    refine ⟨_, ⟨p, inside, of_decide_eq_true attributes, rfl⟩, _, ⟨other, inOther, attributesOther, rfl⟩, ?_⟩
    intro same
    exact apart (Statement.projects_unique inOther inside (Prod.mk.inj same).1.symm (Prod.mk.inj same).2.symm)

theorem sumProject_perm {key : Bytes × Bytes} {rows rows' : List ((ResolvedUnit × WorkUnit) × Option UnitSpan)}
    (perm : rows.Perm rows') : sumProject key rows = sumProject key rows' := by
  have sums : ∀ f : (ResolvedUnit × WorkUnit) × Option UnitSpan → Rat, (rows.map f).sum = (rows'.map f).sum :=
    fun f => (perm.map f).sum_eq
  simp only [sumProject, sums, perm.length_eq, perm.countP_eq]

theorem sumProject_eq {p : Project} (inside : p ∈ q.projects) :
    sumProject (p.provider, p.id) ((q.unitsOf p).map (q.countedRow p)) = q.documentedRow p := by
  simp only [sumProject, documentedRow, List.map_map, List.length_map, List.countP_map, ProjectThemeMixRow.mk.injEq]
  refine ⟨trivial, rfl, rfl, rfl, rfl, rfl, rfl, trivial, List.countP_congr ?_, List.countP_congr ?_⟩
  · intro w own
    rw [Function.comp_apply, decide_eq_true_eq, decide_eq_true_eq]
    simp only [countedRow]
    exact spans_iff inside own
  · intro w own
    simp [countedRow]

/-! ## The rows of a read -/

theorem projectThemeMix_perm (q : ProjectThemeRead) :
    q.projectThemeMix.Perm ((q.requested.filter fun p => q.unitsOf p ≠ []).map q.documentedRow) := by
  have keys : (q.counted.map fun x => (x.1.1.projectProvider, x.1.1.projectId)).dedup.Perm
      ((q.requested.filter fun p => q.unitsOf p ≠ []).map fun p => (p.provider, p.id)) := by
    have right : ((q.requested.filter fun p => q.unitsOf p ≠ []).map fun p => (p.provider, p.id)).Nodup := by
      apply ((q.projects_nodup.filter _).filter _).map_on
      intro a inA b inB same
      exact Statement.projects_unique (List.mem_filter.mp (List.mem_filter.mp inA).1).1
        (List.mem_filter.mp (List.mem_filter.mp inB).1).1 (Prod.mk.inj same).1 (Prod.mk.inj same).2
    rw [List.perm_ext_iff_of_nodup (List.nodup_dedup _) right]
    intro pair
    simp only [List.mem_dedup, List.mem_map, List.mem_filter, mem_counted, decide_eq_true_eq]
    constructor
    · rintro ⟨_, ⟨p, asked, w, own, rfl⟩, rfl⟩
      exact ⟨p, ⟨asked, List.ne_nil_of_mem own⟩, rfl⟩
    · rintro ⟨p, ⟨asked, some_⟩, rfl⟩
      obtain ⟨w, own⟩ := List.exists_mem_of_ne_nil _ some_
      exact ⟨_, ⟨p, asked, w, own, rfl⟩, rfl⟩
  rw [projectThemeMix, groupBy]
  refine (keys.map _).trans (List.Perm.of_eq ?_)
  rw [List.map_map]
  apply List.map_congr_left
  intro p inside
  have asked : p ∈ q.requested := (List.mem_filter.mp inside).1
  exact (sumProject_perm (counted_perm asked)).trans (sumProject_eq (List.mem_filter.mp asked).1)

/-- A read counts the units of the requested projects. -/
theorem countsUnits (q : ProjectThemeRead) : q.CountsUnits := by
  refine ⟨fun w => mem_windowed id (fun _ _ _ _ => Iff.rfl) fun _ _ => rfl, windowed_unique, projectThemeMix_perm q, ?_⟩
  intro ids wider
  refine (List.Perm.filter _ (projectThemeMix_perm (q.asking ids))).trans ?_
  refine List.Perm.trans (List.Perm.of_eq ?_) (projectThemeMix_perm q).symm
  rw [List.filter_map, List.filter_filter]
  apply congrArg (List.map q.documentedRow)
  rw [Statement.requested, Statement.requested, List.filter_filter, List.filter_filter]
  apply List.filter_congr
  intro p _
  rw [Bool.eq_iff_iff]
  simp only [Function.comp_apply, Bool.and_eq_true, decide_eq_true_eq]
  constructor
  · rintro ⟨⟨asked, some_⟩, -⟩
    exact ⟨some_, asked⟩
  · rintro ⟨some_, asked⟩
    exact ⟨⟨asked, some_⟩, wider asked⟩

end ProjectThemeRead

end DevHealth.Readers

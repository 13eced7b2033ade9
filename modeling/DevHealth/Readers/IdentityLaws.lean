import DevHealth.Readers.Identity

/-! # The two forms of the identity expansion

The catalog form has one row for each value a project answers to, and the filtered form is
its restriction to the requested projects.  The guard on a key compares keys with keys:
what a value names is one project exactly when no key in use is the id of another project. -/
set_option autoImplicit false
namespace DevHealth.Readers

open Go Lib Lib.Sql Lib.Relation Clickhouse

variable {s : Statement}

def subject (provider id : Bytes) : Bytes := provider ++ ascii ":" ++ id

theorem requested_iff (p : ProjectIdentity) : s.passes [(none, p.get)]
        [.func .concat, .lparen, .column (bare .provider), .comma, .str (ascii ":"), .comma,
          .column (bare .id), .rparen, .inSet, .param "ids"] = true ↔
      subject p.provider p.id ∈ s.ids := by
  have text : Denotes (s.env [(none, p.get)]) .prim _ (.str (subject p.provider p.id)) :=
    Denotes.call₃ .concat (Denotes.column (bare .provider) rfl).disj_of_prim
      (Denotes.str (ascii ":")).disj_of_prim (Denotes.column (bare .id) rfl).disj_of_prim
      (by simp [call, strict, asStr, subject])
  have reads := passes_iff (text.inSet (Denotes.param "ids" s.param_ids) rfl)
  rw [Truth.ofBool_yes, decide_eq_true_eq] at reads
  exact reads

theorem projectIdentityRows_eq (s : Statement) : projectIdentityRowsSQL s =
      (s.projects.filter fun p => decide (subject p.provider p.id ∈ s.ids)).map (Project.identity s) := by
  rw [projectIdentityRowsSQL, projectIdentityCatalogRows_eq, List.filter_map]
  congr 1
  refine List.filter_congr fun p _ => ?_
  rw [Bool.eq_iff_iff, decide_eq_true_eq]
  exact requested_iff (p.identity s)

theorem mem_catalog {r : IdentityScope} :
    r ∈ projectIdentityCatalogSQL s ↔ ∃ p ∈ s.projects, AnswersTo s p r := by
  rw [projectIdentityCatalogSQL, projectIdentityCatalogRows_eq]
  exact mem_expansion fun _ inside => inside

theorem projectIdentityJoin_eq (s : Statement) :
    projectIdentityJoinSQL s = (projectIdentityCatalogSQL s).filter
      fun r => decide (subject r.provider r.id ∈ s.ids) := by
  rw [projectIdentityJoinSQL, projectIdentityRows_eq, projectIdentityCatalogSQL,
    projectIdentityCatalogRows_eq, expansion_eq fun _ inside => (List.mem_filter.mp inside).1,
    expansion_eq fun _ inside => inside]
  have rows : (s.projects.filter fun p => decide (subject p.provider p.id ∈ s.ids)).flatMap
      (Project.fanned s) = (s.projects.flatMap (Project.fanned s)).filter
        fun r => decide (subject r.groupKey.1 r.groupKey.2.1 ∈ s.ids) := by
    refine flatMap_filter fun p inside r fanned => ?_
    obtain ⟨provider, id, -⟩ := (mem_fanned inside).mp fanned
    rw [IdentityScope.groupKey, provider, id]
  rw [rows]
  exact groupBy_filter IdentityScope.groupKey (fun _ _ => rfl)
    (fun k => decide (subject k.1 k.2.1 ∈ s.ids)) _

structure CatalogExpansion (s : Statement) : Prop where
  onePerValue : ((projectIdentityCatalogSQL s).map fun r => (r.provider, r.id, r.scope)).Nodup
  countsOne : ∀ r ∈ projectIdentityCatalogSQL s, r.keyResolutionCount = 1
  idRow : ∀ p ∈ s.projects, ∃ r ∈ projectIdentityCatalogSQL s,
    r.provider = p.provider ∧ r.id = p.id ∧ r.scope = p.id
  keyRow : ∀ p ∈ s.projects,
    (∃ r ∈ projectIdentityCatalogSQL s,
      r.provider = p.provider ∧ r.id = p.id ∧ r.scope = p.key ∧ r.scopeKind = kindKey) ↔
      p.key ≠ [] ∧ ∀ q ∈ s.projects, q.provider = p.provider → q.key = p.key → q = p
  oneRowWhenEqual : ∀ p ∈ s.projects, s.SoleKey p → p.id = p.key →
    ∀ r ∈ projectIdentityCatalogSQL s, r.provider = p.provider → r.id = p.id →
      r.scope = p.id ∧ r.scopeKind = kindKey
  noOther : ∀ r ∈ projectIdentityCatalogSQL s, ∃ p ∈ s.projects,
    r.provider = p.provider ∧ r.id = p.id ∧
      (r.scope = p.id ∨ r.scope = p.key ∧ r.scopeKind = kindKey)

theorem catalogExpansion (s : Statement) : CatalogExpansion s where
  onePerValue := by
    rw [projectIdentityCatalogSQL, projectIdentityCatalogRows_eq]
    exact expansion_unique fun _ inside => inside
  countsOne := by
    intro r inside
    obtain ⟨p, -, answers⟩ := mem_catalog.mp inside
    exact answers.counted
  idRow := by
    intro p inside
    refine ⟨⟨p.provider, p.id, p.key, 1, p.id,
      if s.SoleKey p ∧ p.id = p.key then kindKey else kindID⟩, ?_, rfl, rfl, rfl⟩
    exact mem_catalog.mpr ⟨p, inside, rfl, rfl, rfl, rfl, .inl rfl, rfl⟩
  keyRow := by
    intro p inside
    constructor
    · rintro ⟨r, row, provider, id, scope, kind⟩
      obtain ⟨q, other, answers⟩ := mem_catalog.mp row
      have same : q = p := Statement.projects_unique other inside
        (answers.provider.symm.trans provider) (answers.id.symm.trans id)
      subst same
      by_contra unsole
      have label := answers.scopeKind
      rw [if_neg fun both => unsole both.1, kind] at label
      exact absurd label (by decide)
    · intro sole
      refine ⟨⟨p.provider, p.id, p.key, 1, p.key, kindKey⟩, ?_, rfl, rfl, rfl, rfl⟩
      exact mem_catalog.mpr ⟨p, inside, rfl, rfl, rfl, rfl, .inr ⟨sole, rfl⟩, (if_pos ⟨sole, rfl⟩).symm⟩
  oneRowWhenEqual := by
    intro p inside sole equal r row provider id
    obtain ⟨q, other, answers⟩ := mem_catalog.mp row
    have same : q = p := Statement.projects_unique other inside
      (answers.provider.symm.trans provider) (answers.id.symm.trans id)
    subst same
    have scope : r.scope = q.id := by
      rcases answers.scope with scope | ⟨-, scope⟩
      · exact scope
      · exact scope.trans equal.symm
    exact ⟨scope, answers.scopeKind.trans (if_pos ⟨sole, scope.trans equal⟩)⟩
  noOther := by
    intro r row
    obtain ⟨p, inside, answers⟩ := mem_catalog.mp row
    refine ⟨p, inside, answers.provider, answers.id, ?_⟩
    rcases answers.scope with scope | ⟨sole, scope⟩
    · exact .inl scope
    · exact .inr ⟨scope, answers.scopeKind.trans (if_pos ⟨sole, scope⟩)⟩

/-- Both forms of the identity expansion, for every catalog and every list of subjects. -/
theorem identity_expansion_forms (s : Statement) :
    CatalogExpansion s ∧
      projectIdentityJoinSQL s = (projectIdentityCatalogSQL s).filter
        fun r => decide (subject r.provider r.id ∈ s.ids) :=
  ⟨catalogExpansion s, projectIdentityJoin_eq s⟩

end DevHealth.Readers

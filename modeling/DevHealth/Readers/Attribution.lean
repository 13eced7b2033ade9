import DevHealth.Readers.OwnershipExact

/-! # When an identity value names one project

A scope row is an id or a key, and both stand in one column.  The guard of the expansion
counts keys against keys, so a key that is also the id of another project of the provider
keeps its row, and the value then names two projects.  An ownership row can also name two
projects by its two columns. -/
set_option autoImplicit false
namespace DevHealth.Readers

open Go Lib Lib.Sql Lib.Relation Clickhouse

variable {s : Statement}

def Statement.withOwnership (s : Statement) (rows : List TeamProjectOwnership) : Statement :=
  { s with db := { s.db with teamProjectOwnership := rows } }

/-- A predicate does not depend on what the ownership table holds. -/
def OwnershipPredicate.over (predicate : OwnershipPredicate s) (rows : List TeamProjectOwnership) :
    OwnershipPredicate (s.withOwnership rows) where
  condition := predicate.condition
  truth := predicate.truth
  reads := predicate.reads

def attributed (s : Statement) (ownershipPredicate : Sql) (rows : List IdentityScope)
    (o : TeamProjectOwnership) : List ProjectTeam :=
  projectOwnershipJoinOver (s.withOwnership [o]) rows ownershipPredicate

/-- An identity value names one project of a provider at most: as a scope value, in an
ownership row and in a column that `ProjectIdentityMatchSQL` compares. -/
structure NamesOneProject (s : Statement) (ownershipPredicate : Sql) (rows : List IdentityScope) :
    Prop where
  value : ∀ a ∈ rows, ∀ b ∈ rows, a.provider = b.provider → a.scope = b.scope → a.id = b.id
  ownershipRow : ∀ o ∈ s.db.teamProjectOwnership, ∀ a ∈ attributed s ownershipPredicate rows o,
    ∀ b ∈ attributed s ownershipPredicate rows o, a.provider = b.provider → a.id = b.id
  workScope : ∀ table, table ≠ Alias.p → ∀ (column : Name) (row : Row), ∀ a ∈ rows, ∀ b ∈ rows,
    a.provider = b.provider →
    s.passes [(some table, row), (some .p, a.get)] (projectIdentityMatchSQL table column) = true →
    s.passes [(some table, row), (some .p, b.get)] (projectIdentityMatchSQL table column) = true →
    a.id = b.id

/-- No key in use is the id of another project, and no ownership row names two projects by
its two columns. -/
structure DistinctNames (s : Statement) (predicate : OwnershipPredicate s) (ps : List Project) :
    Prop where
  keyIsNoID : ∀ p ∈ ps, ∀ q ∈ ps, q.provider = p.provider → s.SoleKey p → q.id = p.key → q = p
  columnsAgree : ∀ o, Counts s predicate o → ∀ p ∈ ps, ∀ q ∈ ps,
    p.provider = o.provider → q.provider = o.provider →
    (o.projectId = p.id ∨ s.SoleKey p ∧ o.projectId = p.key) →
    s.SoleKey q → o.projectKey = some q.key → p = q

theorem match_value {table : Alias} (apart : table ≠ .p) {column : Name} {row : Row} {r : IdentityScope}
    (matched : s.passes [(some table, row), (some .p, r.get)]
      (projectIdentityMatchSQL table column) = true) : row column = some (.str r.scope) := by
  let tree : Expr Column Func .disj :=
    .single (.each (.plain (.cmp .eq (.column (table.dot column)) (.column (Alias.p.dot .scope)))))
  have left : Scope.column [(some table, row), (some .p, r.get)] (table.dot column) =
      row column := by
    simp [Scope.column, Alias.dot]
  have right : Scope.column [(some table, row), (some .p, r.get)] (Alias.p.dot .scope) =
      some (.str r.scope) := by
    simp [Scope.column, Alias.dot, apart, IdentityScope.get]
  rw [Statement.passes, holds, value, show projectIdentityMatchSQL table column = tree.text from rfl,
    read_text] at matched
  simp only [tree, eval, Statement.env, left, right, Option.bind_eq_bind, Option.bind_some] at matched
  cases found : row column with
  | none => simp [found] at matched
  | some v =>
    rw [found] at matched
    cases v with
    | str value =>
      have equal : value = r.scope := by simpa [Clickhouse.compare, compareOf] using matched
      rw [equal]
    | _ => simp [Clickhouse.compare] at matched

section

variable {predicate : OwnershipPredicate s} {ps : List Project} {rows : List IdentityScope}

theorem DistinctNames.same (distinct : DistinctNames s predicate ps)
    (ofOrg : ∀ p ∈ ps, p ∈ s.projects) {p q : Project} (inP : p ∈ ps) (inQ : q ∈ ps)
    (provider : q.provider = p.provider) {value : Bytes}
    (left : value = p.id ∨ s.SoleKey p ∧ value = p.key)
    (right : value = q.id ∨ s.SoleKey q ∧ value = q.key) : p = q := by
  rcases left with id | ⟨sole, key⟩
  · rcases right with id' | ⟨sole', key'⟩
    · exact Statement.projects_unique (ofOrg p inP) (ofOrg q inQ) provider.symm (id.symm.trans id')
    · exact distinct.keyIsNoID q inQ p inP provider.symm sole' (id.symm.trans key')
  · rcases right with id' | ⟨sole', key'⟩
    · exact (distinct.keyIsNoID p inP q inQ provider sole (id'.symm.trans key)).symm
    · exact (sole.2 q (ofOrg q inQ) provider (key'.symm.trans key)).symm

theorem answersTo_withOwnership {os : List TeamProjectOwnership} {p : Project}
    {r : IdentityScope} : AnswersTo (s.withOwnership os) p r ↔ AnswersTo s p r :=
  ⟨fun ⟨provider, id, key, counted, scope, kind⟩ => ⟨provider, id, key, counted, scope, kind⟩,
    fun ⟨provider, id, key, counted, scope, kind⟩ => ⟨provider, id, key, counted, scope, kind⟩⟩

/-- One ownership row gives its team to the projects its columns name. -/
theorem mem_attributed (expands : ∀ r, r ∈ rows ↔ ∃ p ∈ ps, AnswersTo s p r)
    {o : TeamProjectOwnership} {t : ProjectTeam} :
    t ∈ attributed s predicate.text rows o ↔
      (o.orgId = s.orgID ∧ predicate.truth o = .yes) ∧ t.teamId = o.teamId ∧
        ∃ p ∈ ps, t.provider = p.provider ∧ t.id = p.id ∧ o.provider = p.provider ∧
          (o.projectId = p.id ∨ s.SoleKey p ∧ (o.projectId = p.key ∨ o.projectKey = some p.key)) := by
  have joined : t ∈ attributed s predicate.text rows o ↔ ∃ p ∈ ps, t.provider = p.provider ∧
      t.id = p.id ∧ Owns (s.withOwnership [o]) (predicate.over [o]) p t.teamId :=
    mem_ownership (predicate.over [o]) fun r => by simpa only [answersTo_withOwnership] using expands r
  rw [joined]
  constructor
  · rintro ⟨p, inside, provider, id, o', ⟨stored, ofOrg, valid⟩, ofProvider, team, named⟩
    obtain rfl := List.mem_singleton.mp stored
    exact ⟨⟨ofOrg, valid⟩, team.symm, p, inside, provider, id, ofProvider, named⟩
  · rintro ⟨⟨ofOrg, valid⟩, team, p, inside, provider, id, ofProvider, named⟩
    exact ⟨p, inside, provider, id, o, ⟨List.mem_singleton.mpr rfl, ofOrg, valid⟩, ofProvider,
      team.symm, named⟩

theorem namesOne_iff (ofOrg : ∀ p ∈ ps, p ∈ s.projects)
    (expands : ∀ r, r ∈ rows ↔ ∃ p ∈ ps, AnswersTo s p r) :
    NamesOneProject s predicate.text rows ↔ DistinctNames s predicate ps := by
  constructor
  · intro one
    constructor
    · intro p inP q inQ provider sole equal
      have keyRow : (⟨p.provider, p.id, p.key, 1, p.key, kindKey⟩ : IdentityScope) ∈ rows :=
        (expands _).mpr ⟨p, inP, rfl, rfl, rfl, rfl, .inr ⟨sole, rfl⟩, (if_pos ⟨sole, rfl⟩).symm⟩
      have idRow : (⟨q.provider, q.id, q.key, 1, q.id,
          if s.SoleKey q ∧ q.id = q.key then kindKey else kindID⟩ : IdentityScope) ∈ rows :=
        (expands _).mpr ⟨q, inQ, rfl, rfl, rfl, rfl, .inl rfl, rfl⟩
      have sameID : q.id = p.id := one.value _ idRow _ keyRow provider equal
      exact Statement.projects_unique (ofOrg q inQ) (ofOrg p inP) provider sameID
    · intro o counts p inP q inQ providerP providerQ named sole key
      have givesP : ⟨p.provider, p.id, o.teamId⟩ ∈ attributed s predicate.text rows o := by
        refine (mem_attributed expands).mpr ⟨⟨counts.ofOrg, counts.valid⟩, rfl, p, inP, rfl, rfl,
          providerP.symm, ?_⟩
        rcases named with id | ⟨sole, id⟩
        · exact .inl id
        · exact .inr ⟨sole, .inl id⟩
      have givesQ : ⟨q.provider, q.id, o.teamId⟩ ∈ attributed s predicate.text rows o :=
        (mem_attributed expands).mpr ⟨⟨counts.ofOrg, counts.valid⟩, rfl, q, inQ, rfl, rfl,
          providerQ.symm, .inr ⟨sole, .inr key⟩⟩
      have provider : p.provider = q.provider := providerP.trans providerQ.symm
      have sameID : p.id = q.id := one.ownershipRow o counts.stored _ givesP _ givesQ provider
      exact Statement.projects_unique (ofOrg p inP) (ofOrg q inQ) provider sameID
  · intro distinct
    have value : ∀ a ∈ rows, ∀ b ∈ rows, a.provider = b.provider → a.scope = b.scope → a.id = b.id := by
      intro a left b right provider scope
      obtain ⟨p, inP, ansP⟩ := (expands a).mp left
      obtain ⟨q, inQ, ansQ⟩ := (expands b).mp right
      have sameProvider : q.provider = p.provider := by
        rw [← ansP.provider, ← ansQ.provider, provider]
      have same := distinct.same ofOrg inP inQ sameProvider ansP.scope (scope ▸ ansQ.scope)
      rw [ansP.id, ansQ.id, same]
    refine ⟨value, ?_, ?_⟩
    · intro o stored a left b right _
      obtain ⟨⟨inOrg, valid⟩, -, p, inP, -, idP, providerP, namedP⟩ := (mem_attributed expands).mp left
      obtain ⟨-, -, q, inQ, -, idQ, providerQ, namedQ⟩ := (mem_attributed expands).mp right
      have counts : Counts s predicate o := ⟨stored, inOrg, valid⟩
      have provider : q.provider = p.provider := providerQ.symm.trans providerP
      have same : p = q := by
        rcases namedP with id | ⟨sole, id | key⟩
        · rcases namedQ with id' | ⟨sole', id' | key'⟩
          · exact distinct.same ofOrg inP inQ provider (.inl id) (.inl id')
          · exact distinct.same ofOrg inP inQ provider (.inl id) (.inr ⟨sole', id'⟩)
          · exact distinct.columnsAgree o counts p inP q inQ providerP.symm providerQ.symm (.inl id)
              sole' key'
        · rcases namedQ with id' | ⟨sole', id' | key'⟩
          · exact distinct.same ofOrg inP inQ provider (.inr ⟨sole, id⟩) (.inl id')
          · exact distinct.same ofOrg inP inQ provider (.inr ⟨sole, id⟩) (.inr ⟨sole', id'⟩)
          · exact distinct.columnsAgree o counts p inP q inQ providerP.symm providerQ.symm
              (.inr ⟨sole, id⟩) sole' key'
        · rcases namedQ with id' | ⟨sole', id' | key'⟩
          · exact (distinct.columnsAgree o counts q inQ p inP providerQ.symm providerP.symm
              (.inl id') sole key).symm
          · exact (distinct.columnsAgree o counts q inQ p inP providerQ.symm providerP.symm
              (.inr ⟨sole', id'⟩) sole key).symm
          · have equal : p.key = q.key := Option.some.inj (key.symm.trans key')
            exact distinct.same ofOrg inP inQ provider (.inr ⟨sole, rfl⟩) (.inr ⟨sole', equal⟩)
      rw [idP, idQ, same]
    · intro table apart column row a left b right provider matchA matchB
      have scopes := (match_value apart matchA).symm.trans (match_value apart matchB)
      exact value a left b right provider (Value.str.inj (Option.some.inj scopes))

end

/-- Two Linear projects: the key of the second is the id of the first. -/
def keyIsID : Statement where
  server := asciiServer
  db :=
    { workItems := []
      repos := .empty
      projects := ⟨[⟨ascii "o", ascii "linear", ascii "x", none⟩,
        ⟨ascii "o", ascii "linear", ascii "y", some (ascii "x")⟩], by decide⟩
      teamProjectOwnership :=
        [⟨ascii "o", ascii "linear", ascii "team", ascii "x", none, 0, none⟩]
      teamRepoOwnership := []
      workGraphIssuePr := [] }
  select := fun _ => none
  orgID := ascii "o"
  ids := []
  extra := []

/-- Both projects have a row with the value `x`, and one ownership row gives its team to
both of them. -/
theorem key_names_another_project :
    (∃ a ∈ projectIdentityCatalogSQL keyIsID, ∃ b ∈ projectIdentityCatalogSQL keyIsID,
      a.provider = b.provider ∧ a.scope = b.scope ∧ a.id ≠ b.id) ∧
    ∃ o ∈ keyIsID.db.teamProjectOwnership,
      attributed keyIsID (ownershipValidityPredicate ⟨false, false⟩)
        (projectIdentityCatalogSQL keyIsID) o =
        [⟨ascii "linear", ascii "x", ascii "team"⟩, ⟨ascii "linear", ascii "y", ascii "team"⟩] := by
  decide +kernel

/-- In both forms of the expansion an identity value names one project of a provider if and
only if no key in use is another project's id and no ownership row names two projects. -/
theorem identity_value_names_one_iff (s : Statement) (predicate : OwnershipPredicate s) :
    (NamesOneProject s predicate.text (projectIdentityCatalogSQL s) ↔
        DistinctNames s predicate s.projects) ∧
      (NamesOneProject s predicate.text (projectIdentityJoinSQL s) ↔
        DistinctNames s predicate s.requested) :=
  ⟨namesOne_iff (fun _ inside => inside) fun _ => mem_catalog,
    namesOne_iff (fun _ inside => (List.mem_filter.mp inside).1) fun _ => mem_filtered⟩

end DevHealth.Readers

import DevHealth.Readers.IdentityLaws

/-! # Which teams own a project

The ownership join, for every catalog, every ownership table and every validity predicate:
a team owns a project through a row that carries the project's id, or its key when no other
project of the provider has that key. -/
set_option autoImplicit false
namespace DevHealth.Readers

open Go Lib Lib.Sql Lib.Relation Clickhouse

variable {s : Statement} {tables : Scope}

/-! ## Validity predicates -/

/-- A condition on ownership rows, appended to a `WHERE` with `AND`. -/
structure OwnershipPredicate (s : Statement) where
  condition : Sql
  truth : TeamProjectOwnership → Truth
  reads : ∀ o, Denotes (s.env [(none, o.get)]) .conj condition (.ofTruth (truth o))

def OwnershipPredicate.text (predicate : OwnershipPredicate s) : Sql := .and :: predicate.condition

/-- `valid_to > instant`, in milliseconds and in microseconds. -/
def endsAfter (instant : Int) : Option Int → Truth
  | none => .unknown
  | some ended => .ofBool (!decide (ended * 1000 ≤ instant))

/-- The validity of a row: current on the current axis, not ended before a bounded window. -/
def TimeBound.admits (bound : TimeBound) (now instant validFrom : Int) (validTo : Option Int) :
    Truth :=
  if bound.active then
    (Truth.ofBool (decide (validTo = none))).or (endsAfter instant validTo)
  else (Truth.ofBool (decide (validFrom ≤ now))).and (.ofBool (decide (validTo = none)))

theorem ofOption_null {α : Type} {f : α → Value} (filled : ∀ a, f a ≠ .null) (a : Option α) :
    (Value.ofOption f a = .null) ↔ a = none := by
  cases a with
  | none => simp [Value.ofOption]
  | some a => simpa [Value.ofOption] using filled a

theorem validTo_isNull {validTo : Option Int}
    (column : tables.column (bare .validTo) = some (.ofOption .time validTo)) :
    Denotes (s.env tables) .conj [.column (bare .validTo), .isNull]
      (.ofTruth (.ofBool (decide (validTo = none)))) := by
  have operand : Denotes (s.env tables) .prim _ _ := Denotes.column (bare .validTo) column
  have reads := operand.isNull
  simp only [ofOption_null (f := Value.time) (by simp)] at reads
  exact reads

theorem ownershipValidity_reads (bound : TimeBound) {instant validFrom : Int} {validTo : Option Int}
    (bounds : bound.active = true → s.param bound.param = some (.micros instant))
    (started : tables.column (bare .validFrom) = some (.time validFrom))
    (ended : tables.column (bare .validTo) = some (.ofOption .time validTo)) :
    Denotes (s.env tables) .conj (ownershipValidityPredicate bound).tail
      (.ofTruth (bound.admits s.server.engine.now instant validFrom validTo)) := by
  have isNull : Denotes (s.env tables) .conj _ _ := validTo_isNull ended
  cases active : bound.active with
  | false =>
    have now : Denotes (s.env tables) .prim _ (.time s.server.engine.now) :=
      Denotes.call₁ .now64 (Denotes.int 3).disj_of_prim rfl
    have from_now : Denotes (s.env tables) .conj _ (.ofTruth (.ofBool (decide
        (validFrom ≤ s.server.engine.now)))) :=
      (Denotes.column (bare .validFrom) started).cmp .le now rfl
    unfold ownershipValidityPredicate TimeBound.admits
    rw [active]
    exact from_now.and isNull
  | true =>
    have after : Denotes (s.env tables) .conj [.column (bare .validTo), .cmp .gt, .param bound.param]
        (.ofTruth (endsAfter instant validTo)) := by
      refine (Denotes.column (bare .validTo) ended).cmp .gt (Denotes.param bound.param (bounds active)) ?_
      cases validTo <;> rfl
    unfold ownershipValidityPredicate TimeBound.admits
    rw [active]
    exact (isNull.disj_of_conj.or after.disj_of_conj).paren.conj_of_prim

/-- `OwnershipValidityPredicate(bound)`, where a bounded statement binds its instant. -/
def OwnershipPredicate.ofBound (bound : TimeBound) (instant : Int)
    (bounds : bound.active = true → s.param bound.param = some (.micros instant)) :
    OwnershipPredicate s where
  condition := (ownershipValidityPredicate bound).tail
  truth := fun o => bound.admits s.server.engine.now instant o.validFrom o.validTo
  reads := fun _ => ownershipValidity_reads bound bounds rfl rfl

theorem ownershipValidityPredicate_text (bound : TimeBound) (instant : Int)
    (bounds : bound.active = true → s.param bound.param = some (.micros instant)) :
    (OwnershipPredicate.ofBound bound instant bounds).text = ownershipValidityPredicate bound := by
  rw [OwnershipPredicate.text]
  unfold OwnershipPredicate.ofBound
  dsimp only
  unfold ownershipValidityPredicate
  cases bound.active <;> rfl

/-! ## The two arms -/

variable (predicate : OwnershipPredicate s)

/-- An ownership row of the organization that satisfies the predicate. -/
structure Counts (s : Statement) (predicate : OwnershipPredicate s) (o : TeamProjectOwnership) :
    Prop where
  stored : o ∈ s.db.teamProjectOwnership
  ofOrg : o.orgId = s.orgID
  valid : predicate.truth o = .yes

theorem byProjectID_reads (o : TeamProjectOwnership) : Denotes (s.env [(none, o.get)]) .conj
      (orgScope ++ [.and, .column (bare .projectId), .isNotNull] ++ predicate.text)
      (.ofTruth (((Truth.ofBool (decide (o.orgId = s.orgID))).and
        (.ofBool (decide (Value.str o.projectId ≠ .null)))).and (predicate.truth o))) := by
  have org : Denotes (s.env [(none, o.get)]) .conj _ _ := orgScope_reads rfl
  have operand : Denotes (s.env [(none, o.get)]) .prim _ (.str o.projectId) :=
    Denotes.column (bare .projectId) rfl
  exact (org.and operand.isNotNull).and (predicate.reads o)

theorem byProjectID_passes (o : TeamProjectOwnership) : s.passes [(none, o.get)]
        (orgScope ++ [.and, .column (bare .projectId), .isNotNull] ++ predicate.text) = true ↔
      o.orgId = s.orgID ∧ predicate.truth o = .yes := by
  refine (passes_iff (byProjectID_reads predicate o)).trans ?_
  simp

/-- `project_key != ''` -/
def keyFilled : Option Bytes → Truth
  | none => .unknown
  | some key => .ofBool (decide (key ≠ []))

theorem keyFilled_yes {projectKey : Option Bytes} :
    keyFilled projectKey = .yes ↔ ∃ key, projectKey = some key ∧ key ≠ [] := by
  cases projectKey with
  | none => simp [keyFilled]
  | some key => simp [keyFilled]

theorem byProjectKey_reads (o : TeamProjectOwnership) : Denotes (s.env [(none, o.get)]) .conj
      (orgScope ++ [.and, .column (bare .projectKey), .isNotNull, .and,
        .column (bare .projectKey), .cmp .ne, .str []] ++ predicate.text)
      (.ofTruth (((Truth.ofBool (decide (o.orgId = s.orgID))).and
        ((Truth.ofBool (decide (Value.ofOption .str o.projectKey ≠ .null))).and
          (keyFilled o.projectKey))).and (predicate.truth o))) := by
  have org : Denotes (s.env [(none, o.get)]) .conj _ _ := orgScope_reads rfl
  have operand : Denotes (s.env [(none, o.get)]) .prim _ (.ofOption .str o.projectKey) :=
    Denotes.column (bare .projectKey) rfl
  have filled : Denotes (s.env [(none, o.get)]) .conj
      [.column (bare .projectKey), .cmp .ne, .str []] (.ofTruth (keyFilled o.projectKey)) := by
    refine operand.cmp .ne (Denotes.str []) ?_
    cases o.projectKey <;> rfl
  exact (org.and (operand.isNotNull.and filled)).and (predicate.reads o)

theorem byProjectKey_passes (o : TeamProjectOwnership) : s.passes [(none, o.get)]
        (orgScope ++ [.and, .column (bare .projectKey), .isNotNull, .and,
          .column (bare .projectKey), .cmp .ne, .str []] ++ predicate.text) = true ↔
      o.orgId = s.orgID ∧ (∃ key, o.projectKey = some key ∧ key ≠ []) ∧ predicate.truth o = .yes := by
  refine (passes_iff (byProjectKey_reads predicate o)).trans ?_
  have notNull : Value.ofOption Value.str o.projectKey ≠ .null ↔ o.projectKey ≠ none :=
    not_congr (ofOption_null (by simp) _)
  simp only [Truth.and_yes, Truth.ofBool_yes, decide_eq_true_eq, notNull, keyFilled_yes, and_assoc]
  refine and_congr_right fun _ => ?_
  constructor
  · rintro ⟨-, filled, valid⟩
    exact ⟨filled, valid⟩
  · rintro ⟨⟨key, same, filled⟩, valid⟩
    exact ⟨by simp [same], ⟨key, same, filled⟩, valid⟩

theorem mem_ownershipByProjectID {v : OwnershipValue} : v ∈ ownershipByProjectID s predicate.text ↔
      ∃ o, Counts s predicate o ∧ v = ⟨o.provider, o.projectId, o.teamId, []⟩ := by
  rw [ownershipByProjectID, mem_groupBy]
  simp only [List.mem_filter, byProjectID_passes]
  constructor
  · rintro ⟨k, ⟨o, ⟨stored, ofOrg, valid⟩, rfl⟩, rfl⟩
    exact ⟨o, ⟨stored, ofOrg, valid⟩, rfl⟩
  · rintro ⟨o, ⟨stored, ofOrg, valid⟩, rfl⟩
    exact ⟨_, ⟨o, ⟨stored, ofOrg, valid⟩, rfl⟩, rfl⟩

theorem mem_ownershipByProjectKey {v : OwnershipValue} : v ∈ ownershipByProjectKey s predicate.text ↔
      ∃ o key, Counts s predicate o ∧ o.projectKey = some key ∧ key ≠ [] ∧
        v = ⟨o.provider, key, o.teamId, kindKey⟩ := by
  rw [ownershipByProjectKey, mem_groupBy]
  simp only [List.mem_filter, byProjectKey_passes]
  constructor
  · rintro ⟨k, ⟨o, ⟨stored, ofOrg, ⟨key, same, filled⟩, valid⟩, rfl⟩, rfl⟩
    refine ⟨o, key, ⟨stored, ofOrg, valid⟩, same, filled, ?_⟩
    rw [same]
    rfl
  · rintro ⟨o, key, ⟨stored, ofOrg, valid⟩, same, filled, rfl⟩
    refine ⟨_, ⟨o, ⟨stored, ofOrg, ⟨key, same, filled⟩, valid⟩, rfl⟩, ?_⟩
    rw [same]
    rfl

/-! ## The join -/

theorem ownershipOn_reads (p : IdentityScope) (v : OwnershipValue) :
    Denotes (s.env [(some .p, p.get), (some .o, v.get)]) .conj
      [.column (Alias.o.dot .provider), .cmp .eq, .column (Alias.p.dot .provider), .and,
        .column (Alias.o.dot .scopeValue), .cmp .eq, .column (Alias.p.dot .scope)]
      (.ofTruth ((Truth.ofBool (decide (v.provider = p.provider))).and
        (.ofBool (decide (v.scopeValue = p.scope))))) := by
  have providers : Denotes (s.env [(some .p, p.get), (some .o, v.get)]) .conj _ _ :=
    (Denotes.column (Alias.o.dot .provider) rfl).cmp .eq (Denotes.column (Alias.p.dot .provider) rfl) rfl
  have scopes : Denotes (s.env [(some .p, p.get), (some .o, v.get)]) .conj _ _ :=
    (Denotes.column (Alias.o.dot .scopeValue) rfl).cmp .eq (Denotes.column (Alias.p.dot .scope) rfl) rfl
  exact providers.and scopes

theorem ownershipOn_iff (p : IdentityScope) (v : OwnershipValue) :
    s.passes [(some .p, p.get), (some .o, v.get)]
        [.column (Alias.o.dot .provider), .cmp .eq, .column (Alias.p.dot .provider), .and,
          .column (Alias.o.dot .scopeValue), .cmp .eq, .column (Alias.p.dot .scope)] = true ↔
      v.provider = p.provider ∧ v.scopeValue = p.scope := by
  refine (passes_iff (ownershipOn_reads p v)).trans ?_
  simp

theorem ownershipWhere_reads (p : IdentityScope) (v : OwnershipValue) :
    Denotes (s.env [(some .p, p.get), (some .o, v.get)]) .disj
      [.column (Alias.o.dot .requiredScopeKind), .cmp .eq, .str [], .or,
        .column (Alias.p.dot .scopeKind), .cmp .eq, .column (Alias.o.dot .requiredScopeKind)]
      (.ofTruth ((Truth.ofBool (decide (v.requiredScopeKind = []))).or
        (.ofBool (decide (p.scopeKind = v.requiredScopeKind))))) := by
  have any : Denotes (s.env [(some .p, p.get), (some .o, v.get)]) .conj _ _ :=
    (Denotes.column (Alias.o.dot .requiredScopeKind) rfl).cmp .eq (Denotes.str []) rfl
  have kind : Denotes (s.env [(some .p, p.get), (some .o, v.get)]) .conj _ _ :=
    (Denotes.column (Alias.p.dot .scopeKind) rfl).cmp .eq
      (Denotes.column (Alias.o.dot .requiredScopeKind) rfl) rfl
  exact any.disj_of_conj.or kind.disj_of_conj

theorem ownershipWhere_iff (p : IdentityScope) (v : OwnershipValue) :
    s.passes [(some .p, p.get), (some .o, v.get)]
        [.column (Alias.o.dot .requiredScopeKind), .cmp .eq, .str [], .or,
          .column (Alias.p.dot .scopeKind), .cmp .eq,
          .column (Alias.o.dot .requiredScopeKind)] = true ↔
      v.requiredScopeKind = [] ∨ p.scopeKind = v.requiredScopeKind := by
  refine (ownershipWhere_reads p v).holds_iff.trans ?_
  simp

theorem mem_projectOwnershipJoinOver {projects : List IdentityScope} {ownershipPredicate : Sql}
    {t : ProjectTeam} :
    t ∈ projectOwnershipJoinOver s projects ownershipPredicate ↔
      ∃ r ∈ projects, ∃ v ∈ ownershipByProjectID s ownershipPredicate ++
          ownershipByProjectKey s ownershipPredicate,
        v.provider = r.provider ∧ v.scopeValue = r.scope ∧
          (v.requiredScopeKind = [] ∨ r.scopeKind = v.requiredScopeKind) ∧
          t = ⟨r.provider, r.id, v.teamId⟩ := by
  rw [projectOwnershipJoinOver, mem_groupBy]
  constructor
  · rintro ⟨k, ⟨⟨r, v⟩, kept, rfl⟩, rfl⟩
    obtain ⟨joined, kinds⟩ := List.mem_filter.mp kept
    obtain ⟨row, value, on⟩ := mem_innerJoin.mp joined
    obtain ⟨provider, scope⟩ := (ownershipOn_iff r v).mp on
    exact ⟨r, row, v, value, provider, scope, (ownershipWhere_iff r v).mp kinds, rfl⟩
  · rintro ⟨r, row, v, value, provider, scope, kinds, rfl⟩
    refine ⟨_, ⟨(r, v), List.mem_filter.mpr ⟨?_, (ownershipWhere_iff r v).mpr kinds⟩, rfl⟩, rfl⟩
    exact mem_innerJoin.mpr ⟨row, value, (ownershipOn_iff r v).mpr ⟨provider, scope⟩⟩

theorem projectOwnershipJoinOver_nodup (projects : List IdentityScope) (ownershipPredicate : Sql) :
    (projectOwnershipJoinOver s projects ownershipPredicate).Nodup := by
  rw [projectOwnershipJoinOver]
  exact List.Nodup.of_map (fun t : ProjectTeam => (t.provider, t.id, t.teamId))
    (groupBy_unique (fun _ _ => rfl) _)

/-! ## Exact meaning -/

/-- A team owns a project through an ownership row that carries the id of the project, or
its key when it is the only project of the provider with that key. -/
def Owns (s : Statement) (predicate : OwnershipPredicate s) (p : Project) (team : Bytes) : Prop :=
  ∃ o, Counts s predicate o ∧ o.provider = p.provider ∧ o.teamId = team ∧
    (o.projectId = p.id ∨ s.SoleKey p ∧ (o.projectId = p.key ∨ o.projectKey = some p.key))

theorem owns_of_match {p : Project} {r : IdentityScope} {v : OwnershipValue} (answers : AnswersTo s p r)
    (value : v ∈ ownershipByProjectID s predicate.text ++ ownershipByProjectKey s predicate.text)
    (provider : v.provider = r.provider) (scope : v.scopeValue = r.scope)
    (kinds : v.requiredScopeKind = [] ∨ r.scopeKind = v.requiredScopeKind) :
    Owns s predicate p v.teamId := by
  rcases List.mem_append.mp value with byID | byKey
  · obtain ⟨o, counts, rfl⟩ := (mem_ownershipByProjectID predicate).mp byID
    refine ⟨o, counts, provider.trans answers.provider, rfl, ?_⟩
    rcases answers.scope with id | ⟨sole, key⟩
    · exact .inl (scope.trans id)
    · exact .inr ⟨sole, .inl (scope.trans key)⟩
  · obtain ⟨o, key, counts, same, -, rfl⟩ := (mem_ownershipByProjectKey predicate).mp byKey
    have labelled : r.scopeKind = kindKey := by
      rcases kinds with empty | kind
      · exact absurd (show kindKey = [] from empty) (by decide)
      · exact kind
    have sole : s.SoleKey p ∧ r.scope = p.key := by
      by_contra other
      have label := answers.scopeKind
      rw [if_neg other, labelled] at label
      exact absurd label (by decide)
    refine ⟨o, counts, provider.trans answers.provider, rfl, .inr ⟨sole.1, .inr ?_⟩⟩
    rw [same, show key = r.scope from scope, sole.2]

section

variable {ps : List Project} {rows : List IdentityScope}
  (expands : ∀ r, r ∈ rows ↔ ∃ p ∈ ps, AnswersTo s p r)

include expands

theorem match_of_value {p : Project} (inside : p ∈ ps) {v : OwnershipValue}
    (value : v ∈ ownershipByProjectID s predicate.text ++ ownershipByProjectKey s predicate.text)
    (provider : v.provider = p.provider)
    (answers : v.scopeValue = p.id ∨ s.SoleKey p ∧ v.scopeValue = p.key)
    (kinds : v.requiredScopeKind = [] ∨
      (s.SoleKey p ∧ v.scopeValue = p.key) ∧ v.requiredScopeKind = kindKey) :
    ⟨p.provider, p.id, v.teamId⟩ ∈ projectOwnershipJoinOver s rows predicate.text := by
  rw [mem_projectOwnershipJoinOver]
  refine ⟨⟨p.provider, p.id, p.key, 1, v.scopeValue,
    if s.SoleKey p ∧ v.scopeValue = p.key then kindKey else kindID⟩,
    (expands _).mpr ⟨p, inside, rfl, rfl, rfl, rfl, answers, rfl⟩, v, value, provider, rfl, ?_, rfl⟩
  rcases kinds with any | ⟨sole, key⟩
  · exact .inl any
  · exact .inr ((if_pos sole).trans key.symm)

theorem mem_ownership {t : ProjectTeam} : t ∈ projectOwnershipJoinOver s rows predicate.text ↔
      ∃ p ∈ ps, t.provider = p.provider ∧ t.id = p.id ∧ Owns s predicate p t.teamId := by
  constructor
  · intro returned
    obtain ⟨r, row, v, value, provider, scope, kinds, rfl⟩ := mem_projectOwnershipJoinOver.mp returned
    obtain ⟨p, inside, answers⟩ := (expands r).mp row
    exact ⟨p, inside, answers.provider, answers.id,
      owns_of_match predicate answers value provider scope kinds⟩
  · obtain ⟨tprovider, tid, tteam⟩ := t
    rintro ⟨p, inside, rfl, rfl, o, counts, provider, rfl, named⟩
    have byID : (⟨o.provider, o.projectId, o.teamId, []⟩ : OwnershipValue) ∈
        ownershipByProjectID s predicate.text ++ ownershipByProjectKey s predicate.text :=
      List.mem_append_left _ ((mem_ownershipByProjectID predicate).mpr ⟨o, counts, rfl⟩)
    rcases named with id | ⟨sole, id | key⟩
    · exact match_of_value predicate expands inside byID provider (.inl id) (.inl rfl)
    · exact match_of_value predicate expands inside byID provider (.inr ⟨sole, id⟩) (.inl rfl)
    · have byKey : (⟨o.provider, p.key, o.teamId, kindKey⟩ : OwnershipValue) ∈
          ownershipByProjectID s predicate.text ++ ownershipByProjectKey s predicate.text :=
        List.mem_append_right _ ((mem_ownershipByProjectKey predicate).mpr
          ⟨o, p.key, counts, key, sole.1, rfl⟩)
      exact match_of_value predicate expands inside byKey provider (.inr ⟨sole, rfl⟩)
        (.inr ⟨⟨sole, rfl⟩, rfl⟩)

end

/-- The rows are the teams that own one of the projects, each once. -/
structure ExactOwnership (s : Statement) (predicate : OwnershipPredicate s) (ps : List Project)
    (rows : List ProjectTeam) : Prop where
  once : ∀ p ∈ ps, ∀ team, Owns s predicate p team → rows.count ⟨p.provider, p.id, team⟩ = 1
  noOther : ∀ t ∈ rows, ∃ p ∈ ps,
    t.provider = p.provider ∧ t.id = p.id ∧ Owns s predicate p t.teamId

theorem exactOwnership_of_expands {ps : List Project} {rows : List IdentityScope}
    (expands : ∀ r, r ∈ rows ↔ ∃ p ∈ ps, AnswersTo s p r) :
    ExactOwnership s predicate ps (projectOwnershipJoinOver s rows predicate.text) where
  once := by
    intro p inside team owns
    refine List.count_eq_one_of_mem (projectOwnershipJoinOver_nodup rows _) ?_
    exact (mem_ownership predicate expands).mpr ⟨p, inside, rfl, rfl, owns⟩
  noOther := fun _ returned => (mem_ownership predicate expands).mp returned

def Statement.requested (s : Statement) : List Project :=
  s.projects.filter fun p => decide (subject p.provider p.id ∈ s.ids)

theorem mem_filtered {r : IdentityScope} :
    r ∈ projectIdentityJoinSQL s ↔ ∃ p ∈ s.requested, AnswersTo s p r := by
  rw [projectIdentityJoinSQL, projectIdentityRows_eq]
  exact mem_expansion fun _ inside => (List.mem_filter.mp inside).1

theorem not_soleKey_of_shared {p q : Project} (other : q ∈ s.projects) (apart : p ≠ q)
    (provider : q.provider = p.provider) (key : q.key = p.key) : ¬s.SoleKey p :=
  fun sole => apart (sole.2 q other provider key).symm

/-- Project ownership in both forms; a key that two projects share gives a team to neither. -/
theorem project_ownership_exact (s : Statement) (predicate : OwnershipPredicate s) :
    ExactOwnership s predicate s.projects (projectOwnershipCatalogJoinSQL s predicate.text) ∧
      ExactOwnership s predicate s.requested (projectOwnershipJoinSQL s predicate.text) ∧
      ∀ p ∈ s.projects, ∀ q ∈ s.projects, p ≠ q → q.provider = p.provider → q.key = p.key →
        ∀ team, (∀ o, Counts s predicate o → o.provider = p.provider → o.teamId = team →
          o.projectId ≠ p.id) →
        ⟨p.provider, p.id, team⟩ ∉ projectOwnershipCatalogJoinSQL s predicate.text := by
  have catalog := exactOwnership_of_expands predicate (fun r => mem_catalog (r := r))
  refine ⟨catalog, exactOwnership_of_expands predicate fun r => mem_filtered, ?_⟩
  intro p inside q other apart provider key team unnamed returned
  obtain ⟨p', inside', sameProvider, sameID, o, counts, ofProvider, ofTeam, named⟩ :=
    catalog.noOther _ returned
  have same : p = p' := Statement.projects_unique inside inside' sameProvider sameID
  subst same
  rcases named with id | ⟨sole, -⟩
  · exact unnamed o counts ofProvider ofTeam id
  · exact not_soleKey_of_shared other apart provider key sole

end DevHealth.Readers

import DevHealth.Readers.Ownership

/-! # What the identity expansion says

A project answers to its id, and to its key when the key is not empty and no other project
of the same organization and provider has it. -/
set_option autoImplicit false
namespace DevHealth.Readers

open Go Lib Lib.Sql Lib.Relation Clickhouse

variable {s : Statement} {tables : Scope} {t : Truth} {condition : Sql}

theorem passes_iff (reads : Denotes (s.env tables) .conj condition (.ofTruth t)) :
    s.passes tables condition = true ↔ t = .yes :=
  reads.disj_of_conj.holds_iff

theorem orgScope_reads {org : Bytes} (column : tables.column (bare .orgId) = some (.str org)) :
    Denotes (s.env tables) .conj orgScope (.ofTruth (.ofBool (decide (org = s.orgID)))) :=
  (Denotes.column _ column).cmp .eq (Denotes.param "org_id" s.param_orgID) rfl

theorem keyScopeEmitted_iff (p : ProjectIdentity) : s.passes [(none, p.get)] keyScopeEmitted = true ↔
      p.projectKey ≠ [] ∧ p.keyResolutionCount = 1 := by
  have key : Denotes (s.env [(none, p.get)]) .conj _ _ :=
    (Denotes.column (bare .projectKey) rfl).cmp .ne (Denotes.str []) rfl
  have count : Denotes (s.env [(none, p.get)]) .conj _ _ :=
    (Denotes.column (bare .keyResolutionCount) rfl).cmp .eq (Denotes.int 1) rfl
  have both := passes_iff (key.and count).disj_of_conj.paren.conj_of_prim
  rw [Truth.and_yes, compareOf, compareOf, Truth.ofBool_yes, Truth.ofBool_yes, decide_eq_true_eq,
    decide_eq_true_eq] at both
  exact both

/-! ## The projects of the organization -/

namespace Statement

def projects (s : Statement) : List Project :=
  s.db.projects.rows.filter fun p => decide (p.orgId = s.orgID)

/-- The key of the project is not empty, and no other project of its provider has it. -/
def SoleKey (s : Statement) (p : Project) : Prop :=
  p.key ≠ [] ∧ ∀ q ∈ s.projects, q.provider = p.provider → q.key = p.key → q = p

instance (s : Statement) (p : Project) : Decidable (s.SoleKey p) :=
  inferInstanceAs (Decidable (_ ∧ ∀ q ∈ s.projects, _))

theorem mem_projects {p : Project} : p ∈ s.projects ↔ p ∈ s.db.projects.rows ∧ p.orgId = s.orgID := by
  rw [projects, List.mem_filter, decide_eq_true_eq]

theorem projects_unique {p q : Project} (left : p ∈ s.projects) (right : q ∈ s.projects)
    (provider : p.provider = q.provider) (id : p.id = q.id) : p = q := by
  obtain ⟨inP, orgP⟩ := mem_projects.mp left
  obtain ⟨inQ, orgQ⟩ := mem_projects.mp right
  refine List.inj_on_of_nodup_map s.db.projects.unique inP inQ ?_
  simp only [Project.sortingKey, orgP, orgQ, provider, id]

theorem projects_nodup (s : Statement) : s.projects.Nodup :=
  (List.Nodup.of_map _ s.db.projects.unique).filter _

end Statement

def Project.identity (s : Statement) (p : Project) : ProjectIdentity where
  provider := p.provider
  id := p.id
  projectKey := p.key
  keyResolutionCount :=
    countOver (fun q => (q.provider, q.key)) (fun q => q.key != []) s.projects p

theorem orgScope_iff {row : Row} {org : Bytes} (column : row .orgId = some (.str org)) :
    s.passes [(none, row)] orgScope = true ↔ org = s.orgID := by
  have found : Scope.column [(none, row)] (bare .orgId) = some (.str org) := by
    simp [Scope.column, bare, column]
  rw [passes_iff (orgScope_reads found), Truth.ofBool_yes, decide_eq_true_eq]

theorem projectIdentityCatalogRows_eq (s : Statement) :
    projectIdentityCatalogRowsSQL s = s.projects.map (Project.identity s) := by
  have ofOrg : (s.db.projects.rows.filter fun p => s.passes [(none, p.get)] orgScope) = s.projects := by
    refine List.filter_congr fun p _ => ?_
    rw [Bool.eq_iff_iff, decide_eq_true_eq]
    exact orgScope_iff rfl
  rw [projectIdentityCatalogRowsSQL, ofOrg]
  rfl

theorem keyResolutionCount_one {p : Project} (inside : p ∈ s.projects) :
    ((p.identity s).projectKey ≠ [] ∧ (p.identity s).keyResolutionCount = 1) ↔ s.SoleKey p := by
  refine and_congr_right fun filled => ?_
  have filledKey : p.key ≠ [] := filled
  have counted : (decide ((p.provider, p.key) = (p.provider, p.key)) && (p.key != [])) = true := by
    simpa using filledKey
  refine (countP_eq_one s.projects_nodup inside counted).trans ?_
  refine forall_congr' fun q => forall_congr' fun _ => ?_
  constructor
  · intro only provider key
    refine only ?_
    simpa [provider, key] using filledKey
  · intro only both
    rw [Bool.and_eq_true, decide_eq_true_eq, Prod.mk.injEq] at both
    exact only both.1.1 both.1.2

/-! ## The expansion -/

def kindID : Bytes := ascii "id"
def kindKey : Bytes := ascii "key"

theorem maxStr_kinds {kinds : List Bytes} (some_kind : kinds ≠ [])
    (known : ∀ kind ∈ kinds, kind = kindID ∨ kind = kindKey) :
    maxStr kinds = if kindKey ∈ kinds then kindKey else kindID := by
  induction kinds with
  | nil => exact absurd rfl some_kind
  | cons kind rest ih =>
    cases rest with
    | nil =>
      obtain rfl | rfl := known kind (List.mem_singleton.mpr rfl)
      · decide
      · decide
    | cons next rest =>
      have later := ih (List.cons_ne_nil _ _) fun k inside =>
        known k (List.mem_cons_of_mem _ inside)
      have unfolded : maxStr (kind :: next :: rest) =
          if strLe kind (maxStr (next :: rest)) then maxStr (next :: rest) else kind := rfl
      by_cases found : kindKey ∈ next :: rest
      · rw [if_pos found] at later
        rw [unfolded, later, if_pos (List.mem_cons_of_mem _ found)]
        obtain rfl | rfl := known kind (List.mem_cons_self ..)
        · decide
        · decide
      · rw [if_neg found] at later
        rw [unfolded, later]
        obtain rfl | rfl := known kind (List.mem_cons_self ..)
        · rw [if_neg (List.not_mem_cons_of_ne_of_not_mem (by decide) found)]
          decide
        · rw [if_pos (List.mem_cons_self ..)]
          decide

structure AnswersTo (s : Statement) (p : Project) (r : IdentityScope) : Prop where
  provider : r.provider = p.provider
  id : r.id = p.id
  projectKey : r.projectKey = p.key
  counted : r.keyResolutionCount = 1
  scope : r.scope = p.id ∨ s.SoleKey p ∧ r.scope = p.key
  scopeKind : r.scopeKind = if s.SoleKey p ∧ r.scope = p.key then kindKey else kindID

def Project.fanned (s : Statement) (p : Project) : List IdentityScope :=
  scopeRows (decide (s.SoleKey p)) (p.identity s)

def IdentityScope.groupKey (r : IdentityScope) : Bytes × Bytes × Bytes × Nat × Bytes :=
  (r.provider, r.id, r.projectKey, r.keyResolutionCount, r.scope)

theorem mem_fanned {p : Project} (inside : p ∈ s.projects) {r : IdentityScope} : r ∈ p.fanned s ↔
      r.provider = p.provider ∧ r.id = p.id ∧ r.projectKey = p.key ∧ r.keyResolutionCount = 1 ∧
        ((r.scope = p.id ∧ r.scopeKind = kindID) ∨
          s.SoleKey p ∧ r.scope = p.key ∧ r.scopeKind = kindKey) := by
  obtain ⟨provider, id, projectKey, count, scope, kind⟩ := r
  by_cases sole : s.SoleKey p
  · have one : (p.identity s).keyResolutionCount = 1 := ((keyResolutionCount_one inside).mpr sole).2
    simp only [Project.fanned, scopeRows, sole, decide_true, if_true, List.zip_cons_cons,
      List.zip_nil_right, List.map_cons, List.map_nil, List.mem_cons, List.not_mem_nil, or_false,
      IdentityScope.mk.injEq, one, true_and]
    constructor
    · rintro (⟨rfl, rfl, rfl, rfl, rfl, rfl⟩ | ⟨rfl, rfl, rfl, rfl, rfl, rfl⟩)
      · exact ⟨rfl, rfl, rfl, rfl, .inl ⟨rfl, rfl⟩⟩
      · exact ⟨rfl, rfl, rfl, rfl, .inr ⟨rfl, rfl⟩⟩
    · rintro ⟨rfl, rfl, rfl, rfl, ⟨rfl, rfl⟩ | ⟨rfl, rfl⟩⟩
      · exact .inl ⟨rfl, rfl, rfl, rfl, rfl, rfl⟩
      · exact .inr ⟨rfl, rfl, rfl, rfl, rfl, rfl⟩
  · simp only [Project.fanned, scopeRows, sole, decide_false, Bool.false_eq_true, if_false,
      List.zip_cons_cons, List.zip_nil_right, List.map_cons, List.map_nil, List.mem_cons,
      List.not_mem_nil, or_false, IdentityScope.mk.injEq, false_and]
    constructor
    · rintro ⟨rfl, rfl, rfl, rfl, rfl, rfl⟩
      exact ⟨rfl, rfl, rfl, rfl, rfl, rfl⟩
    · rintro ⟨rfl, rfl, rfl, rfl, rfl, rfl⟩
      exact ⟨rfl, rfl, rfl, rfl, rfl, rfl⟩

section Expansion

variable {ps : List Project} (ofOrg : ∀ p ∈ ps, p ∈ s.projects)

include ofOrg

theorem expansion_eq : projectIdentityExpansionSQL s (ps.map (Project.identity s)) =
      groupBy IdentityScope.groupKey
        (fun (provider, id, projectKey, keyResolutionCount, scope) group =>
          { provider, id, projectKey, keyResolutionCount, scope
            scopeKind := maxStr (group.map IdentityScope.scopeKind) })
        (ps.flatMap (Project.fanned s)) := by
  have rows : (ps.map (Project.identity s)).flatMap
      (fun p => scopeRows (s.passes [(none, p.get)] keyScopeEmitted) p) = ps.flatMap (Project.fanned s) := by
    rw [List.flatMap_map]
    refine List.flatMap_congr fun p inside => ?_
    have emitted : s.passes [(none, (p.identity s).get)] keyScopeEmitted = decide (s.SoleKey p) := by
      rw [Bool.eq_iff_iff, decide_eq_true_eq, keyScopeEmitted_iff]
      exact keyResolutionCount_one (ofOrg p inside)
    rw [emitted]
    rfl
  rw [projectIdentityExpansionSQL, rows]
  rfl

theorem mem_group {p : Project} (inside : p ∈ ps) {value : Bytes} {r : IdentityScope} :
    r ∈ (ps.flatMap (Project.fanned s)).filter
        (fun r => r.groupKey = (p.provider, p.id, p.key, 1, value)) ↔
      r ∈ p.fanned s ∧ r.scope = value := by
  simp only [List.mem_filter, List.mem_flatMap, decide_eq_true_eq, IdentityScope.groupKey, Prod.mk.injEq]
  constructor
  · rintro ⟨⟨q, other, row⟩, provider, id, -, -, scope⟩
    obtain ⟨sameProvider, sameID, -⟩ := (mem_fanned (ofOrg q other)).mp row
    have same : q = p := Statement.projects_unique (ofOrg q other) (ofOrg p inside)
      (sameProvider.symm.trans provider) (sameID.symm.trans id)
    exact ⟨same ▸ row, scope⟩
  · rintro ⟨row, scope⟩
    obtain ⟨provider, id, key, count, -⟩ := (mem_fanned (ofOrg p inside)).mp row
    exact ⟨⟨p, inside, row⟩, provider, id, key, count, scope⟩

theorem mem_kinds {p : Project} (inside : p ∈ ps) (value kind : Bytes) :
    kind ∈ ((ps.flatMap (Project.fanned s)).filter
        (fun r => r.groupKey = (p.provider, p.id, p.key, 1, value))).map IdentityScope.scopeKind ↔
      (value = p.id ∧ kind = kindID) ∨ s.SoleKey p ∧ value = p.key ∧ kind = kindKey := by
  rw [List.mem_map]
  constructor
  · rintro ⟨r, grouped, rfl⟩
    obtain ⟨row, rfl⟩ := (mem_group ofOrg inside).mp grouped
    exact ((mem_fanned (ofOrg p inside)).mp row).2.2.2.2
  · intro labelled
    refine ⟨⟨p.provider, p.id, p.key, 1, value, kind⟩, (mem_group ofOrg inside).mpr ⟨?_, rfl⟩, rfl⟩
    exact (mem_fanned (ofOrg p inside)).mpr ⟨rfl, rfl, rfl, rfl, labelled⟩

theorem group_kind {p : Project} (inside : p ∈ ps) {value : Bytes}
    (answers : value = p.id ∨ s.SoleKey p ∧ value = p.key) :
    maxStr (((ps.flatMap (Project.fanned s)).filter
        (fun r => r.groupKey = (p.provider, p.id, p.key, 1, value))).map IdentityScope.scopeKind) =
      if s.SoleKey p ∧ value = p.key then kindKey else kindID := by
  have labels := mem_kinds ofOrg inside value
  rw [maxStr_kinds]
  · refine if_congr ((labels _).trans ?_) rfl rfl
    constructor
    · rintro (⟨-, wrong⟩ | ⟨sole, key, -⟩)
      · exact absurd wrong (by decide)
      · exact ⟨sole, key⟩
    · rintro ⟨sole, key⟩
      exact .inr ⟨sole, key, rfl⟩
  · rcases answers with id | ⟨sole, key⟩
    · exact List.ne_nil_of_mem ((labels _).mpr (.inl ⟨id, rfl⟩))
    · exact List.ne_nil_of_mem ((labels _).mpr (.inr ⟨sole, key, rfl⟩))
  · intro kind inside
    rcases (labels kind).mp inside with ⟨-, id⟩ | ⟨-, -, key⟩
    · exact .inl id
    · exact .inr key

/-- The expansion has the rows its projects answer to, and no others. -/
theorem mem_expansion {r : IdentityScope} :
    r ∈ projectIdentityExpansionSQL s (ps.map (Project.identity s)) ↔ ∃ p ∈ ps, AnswersTo s p r := by
  rw [expansion_eq ofOrg, mem_groupBy]
  constructor
  · rintro ⟨k, ⟨x, row, rfl⟩, rfl⟩
    obtain ⟨p, inside, fanned⟩ := List.mem_flatMap.mp row
    obtain ⟨provider, id, key, count, scope⟩ := (mem_fanned (ofOrg p inside)).mp fanned
    have answers : x.scope = p.id ∨ s.SoleKey p ∧ x.scope = p.key := by
      rcases scope with ⟨same, -⟩ | ⟨sole, same, -⟩
      · exact .inl same
      · exact .inr ⟨sole, same⟩
    refine ⟨p, inside, provider, id, key, count, answers, ?_⟩
    have sameKey : x.groupKey = (p.provider, p.id, p.key, 1, x.scope) := by
      rw [IdentityScope.groupKey, provider, id, key, count]
    rw [sameKey]
    exact group_kind ofOrg inside answers
  · rintro ⟨p, inside, answers⟩
    refine ⟨(p.provider, p.id, p.key, 1, r.scope), ?_, ?_⟩
    · rcases answers.scope with same | ⟨sole, same⟩
      · refine ⟨⟨p.provider, p.id, p.key, 1, r.scope, kindID⟩, List.mem_flatMap.mpr ⟨p, inside, ?_⟩,
          rfl⟩
        exact (mem_fanned (ofOrg p inside)).mpr ⟨rfl, rfl, rfl, rfl, .inl ⟨same, rfl⟩⟩
      · refine ⟨⟨p.provider, p.id, p.key, 1, r.scope, kindKey⟩, List.mem_flatMap.mpr ⟨p, inside, ?_⟩, rfl⟩
        exact (mem_fanned (ofOrg p inside)).mpr ⟨rfl, rfl, rfl, rfl, .inr ⟨sole, same, rfl⟩⟩
    · obtain ⟨provider, id, key, count, scope, kind⟩ := answers
      have grouped := group_kind ofOrg inside scope
      obtain ⟨rprovider, rid, rkey, rcount, rscope, rkind⟩ := r
      simp only at provider id key count kind grouped
      subst provider id key count
      rw [grouped, kind]

theorem expansion_unique : ((projectIdentityExpansionSQL s (ps.map (Project.identity s))).map
      fun r => (r.provider, r.id, r.scope)).Nodup := by
  have groups : ((projectIdentityExpansionSQL s (ps.map (Project.identity s))).map
      IdentityScope.groupKey).Nodup := by
    rw [expansion_eq ofOrg]
    exact groupBy_unique (fun _ _ => rfl) _
  have rows : (projectIdentityExpansionSQL s (ps.map (Project.identity s))).Nodup := groups.of_map
  refine rows.map_on fun a left b right same => ?_
  obtain ⟨p, inP, ansA⟩ := (mem_expansion ofOrg).mp left
  obtain ⟨q, inQ, ansB⟩ := (mem_expansion ofOrg).mp right
  simp only [Prod.mk.injEq] at same
  have sameProject : p = q := Statement.projects_unique (ofOrg p inP) (ofOrg q inQ)
    (by rw [← ansA.provider, ← ansB.provider, same.1]) (by rw [← ansA.id, ← ansB.id, same.2.1])
  subst sameProject
  refine List.inj_on_of_nodup_map groups left right ?_
  simp only [IdentityScope.groupKey, ansA.projectKey, ansB.projectKey, ansA.counted, ansB.counted, same]

end Expansion

end DevHealth.Readers

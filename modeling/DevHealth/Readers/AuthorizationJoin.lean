import DevHealth.Readers.Authorization
import DevHealth.Readers.Identity

/-! # The authorization join keeps rows

Each clause has at most one right row for a work item: `repos` by its sorting key, the two
aggregates by their groups.  So the joins return one row for each work item, and which row
it is can be said without the joins. -/
set_option autoImplicit false
namespace DevHealth.Readers

open Go Lib Lib.Sql Lib.Relation Clickhouse

variable {s : Statement}

/-! ## One clause -/

theorem LeftJoin.apply_map {β κ : Type} (join : LeftJoin) (row : WorkItem → JoinedRow)
    {ys : List β} {get : β → Row} {key : β → κ} {asks : WorkItem → β → Bool}
    (right : join.right s = ys.map get) (unique : (ys.map key).Nodup)
    (on : ∀ w y, s.passes ((row w).tables ++ [(some join.table, get y)]) join.on = asks w y)
    (one : ∀ w, ∃ k, ∀ y, asks w y = true → key y = k) (items : List WorkItem) :
    join.apply s (items.map row) = items.map fun w =>
      { row w with
        joined := (row w).joined ++ [(some join.table,
          ((ys.find? (asks w)).map get).getD (join.unmatched s.server.engine))] } := by
  have few : ∀ x ∈ items.map row, ((join.right s).filter fun right =>
      s.passes (x.tables ++ [(some join.table, right)]) join.on).length ≤ 1 := by
    intro x inside
    obtain ⟨w, -, rfl⟩ := List.mem_map.mp inside
    obtain ⟨k, asked⟩ := one w
    rw [right, List.filter_map, List.length_map]
    refine matches_le_one key unique fun y _ found => asked y ?_
    rw [← on]
    exact found
  rw [LeftJoin.apply, leftJoin_eq few, List.map_map, List.map_map]
  refine List.map_congr_left fun w _ => ?_
  have found : (join.right s).find? (fun right =>
      s.passes ((row w).tables ++ [(some join.table, right)]) join.on) = (ys.find? (asks w)).map get := by
    rw [right, List.find?_map]
    congr 2
    funext y
    exact on w y
  simp only [Function.comp_apply, found]

/-! ## The three conditions -/

def ownsItem (w : WorkItem) (r : Repo) : Bool :=
  decide (w.repoId = some r.id) && decide (r.orgId = w.orgId)

def ofProject (w : WorkItem) (a : ProjectAuth) : Bool :=
  decide (a.provider = w.provider) && decide (w.projectId = some a.scope)

def ofItem (w : WorkItem) (a : LinkAuth) : Bool := decide (a.workItemId = w.workItemId)

theorem compare_option_yes {α : Type} [DecidableEq α] {f : α → Value}
    (compares : ∀ a b, Clickhouse.compare .eq (f a) (f b) = some (.ofBool (decide (a = b))))
    (a : α) (b : Option α) :
    ∃ t, Clickhouse.compare .eq (f a) (.ofOption f b) = some t ∧ (t = .yes ↔ b = some a) := by
  cases b with
  | none =>
    refine ⟨.unknown, ?_, by simp⟩
    have null : ∀ v : Value, Clickhouse.compare .eq v .null = some .unknown := by
      intro v
      cases v <;> rfl
    exact null (f a)
  | some b =>
    refine ⟨_, compares a b, ?_⟩
    rw [Truth.ofBool_yes, decide_eq_true_eq, Option.some.injEq, eq_comm]

theorem repositoryOn_eq (w : WorkItem) (r : Repo) :
    s.passes [(some .w, w.get), (some .r, r.get)] workItemRepositoryOn = ownsItem w r := by
  obtain ⟨t, compared, same⟩ := compare_option_yes (f := Value.uuid) (fun _ _ => rfl) r.id w.repoId
  have ids : Denotes (s.env [(some .w, w.get), (some .r, r.get)]) .conj _ _ :=
    (Denotes.column (Alias.r.dot .id) rfl).cmp .eq (Denotes.column (Alias.w.dot .repoId) rfl) compared
  have orgs : Denotes (s.env [(some .w, w.get), (some .r, r.get)]) .conj _ _ :=
    (Denotes.column (Alias.r.dot .orgId) rfl).cmp .eq (Denotes.column (Alias.w.dot .orgId) rfl) rfl
  rw [Bool.eq_iff_iff]
  refine (passes_iff (ids.and orgs)).trans ?_
  rw [Truth.and_yes, same, compareOf, Truth.ofBool_yes, ownsItem, Bool.and_eq_true,
    decide_eq_true_eq, decide_eq_true_eq]

theorem projectAuthOn_eq (w : WorkItem) (repository : Row) (a : ProjectAuth) :
    s.passes [(some .w, w.get), (some .r, repository), (some .wiaProjectAuth, a.get)]
      projectAuthOn = ofProject w a := by
  obtain ⟨t, compared, same⟩ := compare_option_yes (f := Value.str) (fun _ _ => rfl) a.scope w.projectId
  have providers : Denotes (s.env [(some .w, w.get), (some .r, repository),
      (some .wiaProjectAuth, a.get)]) .conj _ _ :=
    (Denotes.column (Alias.wiaProjectAuth.dot .wiaProjectProvider) rfl).cmp .eq
      (Denotes.column (Alias.w.dot .provider) rfl) rfl
  have scopes : Denotes (s.env [(some .w, w.get), (some .r, repository),
      (some .wiaProjectAuth, a.get)]) .conj _ _ :=
    (Denotes.column (Alias.wiaProjectAuth.dot .wiaProjectScope) rfl).cmp .eq
      (Denotes.column (Alias.w.dot .projectId) rfl) compared
  rw [Bool.eq_iff_iff]
  refine (passes_iff (providers.and scopes)).trans ?_
  rw [Truth.and_yes, same, compareOf, Truth.ofBool_yes, ofProject, Bool.and_eq_true,
    decide_eq_true_eq, decide_eq_true_eq]

theorem linkAuthOn_eq (w : WorkItem) (repository project : Row) (a : LinkAuth) :
    s.passes [(some .w, w.get), (some .r, repository), (some .wiaProjectAuth, project),
      (some .wiaLinkAuth, a.get)] linkAuthOn = ofItem w a := by
  have items : Denotes (s.env [(some .w, w.get), (some .r, repository),
      (some .wiaProjectAuth, project), (some .wiaLinkAuth, a.get)]) .conj _ _ :=
    (Denotes.column (Alias.wiaLinkAuth.dot .wiaLinkWorkItemId) rfl).cmp .eq
      (Denotes.column (Alias.w.dot .workItemId) rfl) rfl
  rw [Bool.eq_iff_iff]
  refine (passes_iff items).trans ?_
  rw [compareOf, Truth.ofBool_yes, ofItem]

/-! ## The joined row -/

theorem projectAuth_unique (s : Statement) (selector : String) (candidates : WorkItemCandidates) :
    ((projectAuthSQL s selector candidates).map fun a => (a.provider, a.scope)).Nodup := by
  rw [projectAuthSQL]
  exact groupBy_unique (fun _ _ => rfl) _

theorem linkAuth_unique (s : Statement) (selector : String) (candidates : WorkItemCandidates) :
    ((linkAuthSQL s selector candidates).map LinkAuth.workItemId).Nodup := by
  rw [linkAuthSQL]
  exact groupBy_unique (fun _ _ => rfl) _

def repositoryRow (s : Statement) (w : WorkItem) : Row :=
  ((s.db.repos.rows.find? (ownsItem w)).map Repo.get).getD (Repo.unmatched s.server.engine)

def projectRow (s : Statement) (selector : String) (candidates : WorkItemCandidates)
    (w : WorkItem) : Row :=
  (((projectAuthSQL s selector candidates).find? (ofProject w)).map ProjectAuth.get).getD
    (ProjectAuth.unmatched s.server.engine)

def linkRow (s : Statement) (selector : String) (candidates : WorkItemCandidates)
    (w : WorkItem) : Row :=
  (((linkAuthSQL s selector candidates).find? (ofItem w)).map LinkAuth.get).getD
    (LinkAuth.unmatched s.server.engine)

def joinedRow (s : Statement) (selector : String) (candidates : WorkItemCandidates)
    (w : WorkItem) : JoinedRow where
  item := w
  joined := [(some .r, repositoryRow s w), (some .wiaProjectAuth, projectRow s selector candidates w),
    (some .wiaLinkAuth, linkRow s selector candidates w)]

theorem joinRows_eq (s : Statement) (selector : String) (candidates : WorkItemCandidates)
    (items : List WorkItem) :
    joinRows s [workItemRepositoryJoin, workItemProjectAuthorizationJoinSQL selector candidates,
        workItemPullRequestLinkJoinSQL selector candidates] items =
      items.map (joinedRow s selector candidates) := by
  have repository := LeftJoin.apply_map (s := s) workItemRepositoryJoin (fun w => ⟨w, []⟩) rfl
    s.db.repos.unique repositoryOn_eq (fun w => by
      refine ⟨(w.orgId, w.repoId.getD .zero), fun r asked => ?_⟩
      rw [ownsItem, Bool.and_eq_true, decide_eq_true_eq, decide_eq_true_eq] at asked
      rw [Repo.sortingKey, asked.1, asked.2, Option.getD_some]) items
  have project := LeftJoin.apply_map (s := s) (workItemProjectAuthorizationJoinSQL selector candidates)
    (fun w => ⟨w, [(some .r, repositoryRow s w)]⟩) rfl (projectAuth_unique s selector candidates)
    (fun w a => projectAuthOn_eq w (repositoryRow s w) a) (fun w => by
      refine ⟨(w.provider, w.projectId.getD []), fun a asked => ?_⟩
      rw [ofProject, Bool.and_eq_true, decide_eq_true_eq, decide_eq_true_eq] at asked
      rw [asked.1, asked.2, Option.getD_some]) items
  have link := LeftJoin.apply_map (s := s) (workItemPullRequestLinkJoinSQL selector candidates)
    (fun w => ⟨w, [(some .r, repositoryRow s w),
      (some .wiaProjectAuth, projectRow s selector candidates w)]⟩) rfl
    (linkAuth_unique s selector candidates)
    (fun w a => linkAuthOn_eq w (repositoryRow s w) (projectRow s selector candidates w) a)
    (fun w => ⟨w.workItemId, fun a asked => of_decide_eq_true asked⟩) items
  rw [joinRows, List.foldl_cons, List.foldl_cons, List.foldl_cons, List.foldl_nil, repository]
  exact (congrArg (fun rows => LeftJoin.apply s rows _) project).trans link

theorem among_joinSQL (mapping : CaseMapping) {scope : AuthorizationScope}
    {selectors : RepositorySelectorScope} (mode : scope.repositorySelectors = some selectors)
    (candidates : WorkItemCandidates) :
    (workItemScopeSQLAmong mapping scope candidates).joinSQL =
      [workItemRepositoryJoin, workItemProjectAuthorizationJoinSQL "authorized" candidates,
        workItemPullRequestLinkJoinSQL "authorized" candidates] := by
  unfold workItemScopeSQLAmong
  rw [mode]

/-- The joins never drop and never duplicate a work item, for every scope and candidate set. -/
theorem authorization_join_keeps_rows (mapping : CaseMapping) (scope : AuthorizationScope)
    (candidates : WorkItemCandidates) (s : Statement) (items : List WorkItem) :
    (joinRows s (workItemScopeSQLAmong mapping scope candidates).joinSQL items).map
      JoinedRow.item = items := by
  have kept : ∀ row : WorkItem → JoinedRow, (∀ w, (row w).item = w) →
      (items.map row).map JoinedRow.item = items := by
    intro row same
    rw [List.map_map]
    exact (List.map_congr_left fun w _ => same w).trans (List.map_id _)
  cases mode : scope.repositorySelectors with
  | none =>
    have none : (workItemScopeSQLAmong mapping scope candidates).joinSQL = [] := by
      unfold workItemScopeSQLAmong
      rw [mode]
    rw [none]
    exact kept _ fun _ => rfl
  | some selectors =>
    rw [among_joinSQL mapping mode, joinRows_eq]
    exact kept _ fun _ => rfl

end DevHealth.Readers

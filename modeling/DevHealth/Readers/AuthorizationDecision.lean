import DevHealth.Readers.AuthorizationFacts

/-! # Decision and evidence of the authorization

The truth of `AuthorizationExpr` and of every path over the facts of a row, the slugs each
path discloses, and that the decision is the disjunction of the paths. -/
set_option autoImplicit false
namespace DevHealth.Readers

open Go Lib Lib.Sql Lib.Relation Clickhouse

/-! ## Bindings -/

theorem boundIn_append (xs ys : List Binding) (name : String) :
    boundIn (xs ++ ys) name = (boundIn xs name).or (boundIn ys name) := by
  rw [boundIn, List.find?_append, Option.map_or]
  rfl

theorem boundIn_none {xs : List Binding} {name : String} (other : ∀ b ∈ xs, b.name ≠ ascii name) :
    boundIn xs name = none := by
  rw [boundIn, Option.map_eq_none_iff, List.find?_eq_none]
  exact fun b inside => by simpa using other b inside

theorem restriction_name {param : String} {ids : Option (List Bytes)} {b : Binding}
    (inside : b ∈ (repositoryIDRestriction param ids).map Prod.snd) : b.name = ascii param := by
  cases ids with
  | none => simp [repositoryIDRestriction] at inside
  | some ids =>
    simp only [repositoryIDRestriction, Option.toList_some, List.map_cons, List.map_nil,
      List.mem_singleton] at inside
    rw [inside]

theorem restriction_other {param name : String} (apart : param ≠ name) (ids : Option (List Bytes)) :
    boundIn ((repositoryIDRestriction param ids).map Prod.snd) name = none :=
  boundIn_none fun _ inside same => apart (ascii_injective ((restriction_name inside).symm.trans same))

/-- A candidate set binds none of the names the package binds for the scope. -/
theorem candidates_other (candidates : WorkItemCandidates) {name : String}
    (reserved : reservedWorkItemBindingName (ascii name) = true)
    (apart : workItemCandidateIDsBinding ≠ name) : boundIn candidates.bindings name = none := by
  refine boundIn_none fun b inside => ?_
  obtain ⟨relation, bindings, built⟩ := candidates
  cases built with
  | zero => cases inside
  | ids ids =>
    rw [List.mem_singleton.mp inside]
    exact fun same => apart (ascii_injective same)
  | subquery selectSQL bindings filled free =>
    intro same
    have taken := free b inside
    rw [same, reserved] at taken
    cases taken

def selectorNames (selector : String) : List String :=
  [selector ++ "_repo_all", selector ++ "_repo_slugs", selector ++ "_repo_owners"]

theorem selector_other {selector name : String} (apart : name ∉ selectorNames selector) (all : Bool)
    (slugs owners : List Bytes) :
    boundIn (selectorBindings selector all slugs owners) name = none := by
  refine boundIn_none fun b inside same => apart ?_
  have named : b.name ∈ (selectorNames selector).map ascii :=
    List.mem_map_of_mem (f := Binding.name) inside
  rwa [same, List.mem_map_of_injective ascii_injective] at named

structure ScopeBinds (env : Env Column) (mapping : CaseMapping) (scope : AuthorizationScope)
    (selectors : RepositorySelectorScope) : Prop where
  grantedIDs : ∀ ids, scope.grantedRepositoryIDs = some ids →
    env.param "authorized_repo_ids" = some (.array ids)
  requestedIDs : ∀ ids, scope.requestedRepositoryIDs = some ids →
    env.param "requested_repo_ids" = some (.array ids)
  granted : Binds env "authorized" (selectors.granted.selected mapping)
  requested : ∀ set, selectors.requested = some set →
    Binds env "requested" (set.selected mapping)

section

variable {mapping : CaseMapping} {scope : AuthorizationScope} {selectors : RepositorySelectorScope}
  {candidates : WorkItemCandidates} {s : Statement}

theorem among_bindings (mode : scope.repositorySelectors = some selectors) :
    (workItemScopeSQLAmong mapping scope candidates).bindings =
      (repositoryIDRestriction "authorized_repo_ids" scope.grantedRepositoryIDs).map Prod.snd ++
      ((repositoryIDRestriction "requested_repo_ids" scope.requestedRepositoryIDs).map Prod.snd ++
      (candidates.bindings ++
      (selectorBindings "authorized" selectors.granted.all
        (selectors.granted.selected mapping).slugs (selectors.granted.selected mapping).owners ++
      selectors.requested.toList.flatMap fun set => selectorBindings "requested" set.all
        (set.selected mapping).slugs (set.selected mapping).owners))) := by
  unfold workItemScopeSQLAmong
  rw [mode]
  simp [renderRepositorySelectorSet, renderRequestedRepositorySelectorSet, List.flatMap_map,
    RepositorySelectorSet.selected]

def namesBefore : List String :=
  ["org_id", "ids", "authorized_repo_ids", "requested_repo_ids", workItemCandidateIDsBinding]

theorem authorized_names : ∀ name ∈ selectorNames "authorized",
    name ∉ namesBefore ∧ reservedWorkItemBindingName (ascii name) = true := by
  decide

theorem requested_names : ∀ name ∈ selectorNames "requested",
    name ∉ namesBefore ∧ reservedWorkItemBindingName (ascii name) = true ∧ name ∉ selectorNames "authorized" := by
  decide

section

variable {others : List Binding}
  (bound : s.extra = (workItemScopeSQLAmong mapping scope candidates).bindings ++ others)

include bound

theorem param_extra {name : String} (apart : name ∉ ["org_id", "ids"]) : s.param name =
      (boundIn ((workItemScopeSQLAmong mapping scope candidates).bindings ++ others) name).bind boundValue := by
  have first : boundIn [⟨ascii "org_id", .string s.orgID⟩, ⟨ascii "ids", .strings s.ids⟩] name = none := by
    refine boundIn_none fun b inside same => apart ?_
    have named : b.name ∈ ["org_id", "ids"].map ascii := List.mem_map_of_mem (f := Binding.name) inside
    rwa [same, List.mem_map_of_injective ascii_injective] at named
  rw [Statement.param, Statement.bindings, boundIn_append, first, Option.none_or, bound]

variable (mode : scope.repositorySelectors = some selectors)

include mode

theorem param_selector {name : String} (apart : name ∉ namesBefore)
    (reserved : reservedWorkItemBindingName (ascii name) = true) :
    s.param name = (boundIn (selectorBindings "authorized" selectors.granted.all
        (selectors.granted.selected mapping).slugs (selectors.granted.selected mapping).owners ++
      ((selectors.requested.toList.flatMap fun set => selectorBindings "requested" set.all
        (set.selected mapping).slugs (set.selected mapping).owners) ++ others)) name).bind boundValue := by
  simp only [namesBefore, List.mem_cons, List.not_mem_nil, or_false, not_or] at apart
  obtain ⟨org, ids, granted, requested, candidate⟩ := apart
  rw [param_extra bound (by simp [org, ids]), among_bindings mode]
  simp only [List.append_assoc]
  rw [boundIn_append, restriction_other (Ne.symm granted), Option.none_or, boundIn_append,
    restriction_other (Ne.symm requested), Option.none_or, boundIn_append,
    candidates_other _ reserved (Ne.symm candidate), Option.none_or]

theorem scope_binds (tables : Scope) : ScopeBinds (s.env tables) mapping scope selectors := by
  have grantedSet : ∀ name ∈ selectorNames "authorized", ∀ value,
      boundIn (selectorBindings "authorized" selectors.granted.all (selectors.granted.selected mapping).slugs
        (selectors.granted.selected mapping).owners) name = some value →
      ∀ v, boundValue value = some v → s.param name = some v := by
    intro name named value found v reads
    have known := authorized_names name named
    rw [param_selector bound mode known.1 known.2, boundIn_append, found]
    exact reads
  have requestedSet : ∀ set, selectors.requested = some set → ∀ name ∈ selectorNames "requested",
      ∀ value, boundIn (selectorBindings "requested" set.all (set.selected mapping).slugs
        (set.selected mapping).owners) name = some value →
      ∀ v, boundValue value = some v → s.param name = some v := by
    intro set present name named value found v reads
    have known := requested_names name named
    rw [param_selector bound mode known.1 known.2.1, boundIn_append, selector_other known.2.2,
      Option.none_or, present]
    simp only [Option.toList_some, List.flatMap_cons, List.flatMap_nil, List.append_nil]
    rw [boundIn_append, found]
    exact reads
  constructor
  · intro ids given
    refine (param_extra bound (by decide)).trans ?_
    rw [among_bindings mode, given]
    rfl
  · intro ids given
    refine (param_extra bound (by decide)).trans ?_
    rw [among_bindings mode]
    simp only [List.append_assoc]
    rw [boundIn_append, restriction_other (by decide), given]
    rfl
  · constructor
    · exact grantedSet _ (by decide) _ rfl _ rfl
    · exact grantedSet _ (by decide) _ rfl _ rfl
    · exact grantedSet _ (by decide) _ rfl _ rfl
  · intro set present
    constructor
    · exact requestedSet set present _ (by decide) _ rfl _ rfl
    · exact requestedSet set present _ (by decide) _ rfl _ rfl
    · exact requestedSet set present _ (by decide) _ rfl _ rfl

end

end

/-! ## The expressions of a result -/

section

variable {env : Env Column} {f : RowFacts}

theorem join_reads {texts : List Sql} {ts : List Truth}
    (reads : List.Forall₂ (fun text t => Denotes env .conj text (.ofTruth t)) texts ts)
    (some_text : texts ≠ []) : Denotes env .conj (join [.and] texts) (.ofTruth (.all ts)) := by
  induction reads with
  | nil => exact absurd rfl some_text
  | @cons text t texts ts first rest ih =>
    cases rest with
    | nil =>
      have last : Truth.all [t] = t := by cases t <;> rfl
      rw [last]
      exact first
    | cons second more =>
      have joined := first.and (ih (List.cons_ne_nil _ _))
      simpa [join, Truth.all] using joined

/-- `toString(w.repo_id) IN ids` -/
def idIn (ids : List Bytes) : Option Uuid → Truth
  | none => .unknown
  | some id => .ofBool (decide (id.text ∈ ids))

theorem restriction_reads (shows : Shows env f) {param : String} {ids : Option (List Bytes)}
    (bound : ∀ list, ids = some list → env.param param = some (.array list)) :
    List.Forall₂ (fun text t => Denotes env .conj text (.ofTruth t))
      ((repositoryIDRestriction param ids).map Prod.fst)
      (ids.toList.map fun list => idIn list f.repoId) := by
  cases ids with
  | none => exact .nil
  | some list =>
    refine .cons ?_ .nil
    have column := shows.repoId
    have operand : Denotes env .disj _ _ := (Denotes.column (Alias.w.dot .repoId) column).disj_of_prim
    have set := Denotes.param param (bound list rfl)
    cases stored : f.repoId with
    | none =>
      rw [stored] at operand
      have text : Denotes env .prim _ .null := Denotes.call₁ .toString operand rfl
      exact text.inSet set rfl
    | some id =>
      rw [stored] at operand
      have text : Denotes env .prim _ (.str id.text) := Denotes.call₁ .toString operand rfl
      exact text.inSet set rfl

def pathExpr (selector : String) : WorkItemAuthorizationPath → Sql
  | .organizationGrant => organizationExpr selector
  | .directRepository => directExpr selector
  | .projectOwnership => projectExpr
  | .pullRequestLink => linkExpr

def pathRepositories : WorkItemAuthorizationPath → Sql
  | .organizationGrant => emptyRepositories
  | .directRepository => sql [[.lbracket], workItemRepoSlug, [.rbracket]]
  | .projectOwnership => projectRepositories
  | .pullRequestLink => linkRepositories

def pathSQL (selector : String) (path : WorkItemAuthorizationPath) : WorkItemAuthorizationPathSQL :=
  ⟨path, pathExpr selector path, pathRepositories path⟩

theorem path_reads (shows : Shows env f) (slugs : ReadsSlugs env) {selector : String} {set : Selected}
    (binds : Binds env selector set) (path : WorkItemAuthorizationPath) :
    Denotes env .conj (pathExpr selector path) (.ofTruth (f.path env.engine set path)) := by
  cases path with
  | organizationGrant => exact flag_reads binds.all
  | directRepository => exact (direct_reads shows slugs binds).conj_of_prim
  | projectOwnership => exact (project_reads shows).conj_of_prim
  | pullRequestLink => exact (link_reads shows).conj_of_prim

theorem pathRepositories_reads (shows : Shows env f) (path : WorkItemAuthorizationPath) :
    Denotes env .prim (pathRepositories path) (.array (f.evidence env.engine path)) := by
  cases path with
  | organizationGrant => exact emptyRepositories_reads
  | directRepository => exact (workItemRepoSlug_reads shows).singleton
  | projectOwnership => exact Denotes.column _ shows.projectRepositories
  | pullRequestLink => exact Denotes.column _ shows.linkRepositories

variable (mapping : CaseMapping) (scope : AuthorizationScope) (selectors : RepositorySelectorScope)
  (engine : Engine)

/-! The truth of a result over the facts of a row. -/

namespace RowFacts

variable (f : RowFacts)

def idTruths : List Truth :=
  (scope.grantedRepositoryIDs.toList.map fun ids => idIn ids f.repoId) ++
    scope.requestedRepositoryIDs.toList.map fun ids => idIn ids f.repoId

def requestedTruths : List Truth :=
  selectors.requested.toList.map fun set => f.requested engine (set.selected mapping)

def grants : Truth :=
  let set := selectors.granted.selected mapping
  (Truth.ofBool set.all).or ((f.direct engine set).or (f.project.or f.link))

def authorizes : Truth :=
  .all (f.idTruths scope ++ [f.grants mapping selectors engine] ++
    f.requestedTruths mapping selectors engine)

def takes (path : WorkItemAuthorizationPath) : Truth :=
  .all (f.path engine (selectors.granted.selected mapping) path ::
    (f.idTruths scope ++ f.requestedTruths mapping selectors engine))

def disclosed (path : WorkItemAuthorizationPath) : List Bytes :=
  if f.takes mapping scope selectors engine path = .yes then f.evidence engine path else []

end RowFacts

variable {mapping scope selectors}

theorem among_expr (mode : scope.repositorySelectors = some selectors) (candidates : WorkItemCandidates) :
    (workItemScopeSQLAmong mapping scope candidates).authorizationExpr =
      join [.and] (((repositoryIDRestriction "authorized_repo_ids" scope.grantedRepositoryIDs).map
        Prod.fst ++ (repositoryIDRestriction "requested_repo_ids"
          scope.requestedRepositoryIDs).map Prod.fst) ++
        [(renderRepositorySelectorSet mapping selectors.granted "authorized").1] ++
        selectors.requested.toList.map fun _ => requestedExpr) := by
  unfold workItemScopeSQLAmong
  rw [mode]
  simp only [List.map_append, List.map_map]
  rfl

theorem among_provenance (mode : scope.repositorySelectors = some selectors)
    (candidates : WorkItemCandidates) :
    (workItemScopeSQLAmong mapping scope candidates).provenance =
      workItemAuthorizationPaths.map fun path => restrictPath
        (((repositoryIDRestriction "authorized_repo_ids" scope.grantedRepositoryIDs).map Prod.fst ++
          (repositoryIDRestriction "requested_repo_ids" scope.requestedRepositoryIDs).map Prod.fst) ++
          selectors.requested.toList.map fun _ => requestedExpr) (pathSQL "authorized" path) := by
  unfold workItemScopeSQLAmong
  rw [mode]
  simp only [List.map_append, List.map_map]
  rfl

theorem among_excluded (mode : scope.repositorySelectors = some selectors) (candidates : WorkItemCandidates) :
    (workItemScopeSQLAmong mapping scope candidates).excludedLinkProvenancesExpr =
      excludedLinkProvenances := by
  unfold workItemScopeSQLAmong
  rw [mode]

section

variable (shows : Shows env f) (binds : ScopeBinds env mapping scope selectors)

include shows binds

theorem ids_reads : List.Forall₂ (fun text t => Denotes env .conj text (.ofTruth t))
      ((repositoryIDRestriction "authorized_repo_ids" scope.grantedRepositoryIDs).map Prod.fst ++
        (repositoryIDRestriction "requested_repo_ids" scope.requestedRepositoryIDs).map Prod.fst)
      (f.idTruths scope) :=
  List.rel_append (restriction_reads shows binds.grantedIDs) (restriction_reads shows binds.requestedIDs)

variable (slugs : ReadsSlugs env)

include slugs

theorem requestedSet_reads : List.Forall₂ (fun text t => Denotes env .conj text (.ofTruth t))
      (selectors.requested.toList.map fun _ => requestedExpr)
      (f.requestedTruths mapping selectors env.engine) := by
  rw [RowFacts.requestedTruths]
  cases present : selectors.requested with
  | none => exact .nil
  | some set => exact .cons (requested_reads shows slugs (binds.requested set present)) .nil

theorem grants_reads :
    Denotes env .conj (renderRepositorySelectorSet mapping selectors.granted "authorized").1
      (.ofTruth (f.grants mapping selectors env.engine)) := by
  have path := fun p => (path_reads shows slugs binds.granted p).disj_of_conj
  have any : Denotes env .disj _ (.ofTruth (f.grants mapping selectors env.engine)) :=
    (path .organizationGrant).or ((path .directRepository).or
      ((path .projectOwnership).or (path .pullRequestLink)))
  have reads := any.paren.conj_of_prim
  simpa [renderRepositorySelectorSet, pathExpr, sql] using reads

theorem authorizationExpr_reads (mode : scope.repositorySelectors = some selectors)
    (candidates : WorkItemCandidates) :
    Denotes env .conj (workItemScopeSQLAmong mapping scope candidates).authorizationExpr
      (.ofTruth (f.authorizes mapping scope selectors env.engine)) := by
  rw [among_expr mode]
  refine join_reads ?_ (by simp)
  exact List.rel_append (List.rel_append (ids_reads shows binds)
    (.cons (grants_reads shows binds slugs) .nil)) (requestedSet_reads shows binds slugs)

theorem provenance_reads (mode : scope.repositorySelectors = some selectors)
    (candidates : WorkItemCandidates) {p : WorkItemAuthorizationPathSQL}
    (inside : p ∈ (workItemScopeSQLAmong mapping scope candidates).provenance) :
    Denotes env .conj p.expr (.ofTruth (f.takes mapping scope selectors env.engine p.path)) ∧
      Denotes env .prim p.repositoriesExpr
        (.array (f.disclosed mapping scope selectors env.engine p.path)) := by
  rw [among_provenance mode] at inside
  obtain ⟨path, -, rfl⟩ := List.mem_map.mp inside
  have expr : Denotes env .conj _ (.ofTruth (f.takes mapping scope selectors env.engine path)) :=
    join_reads (.cons (path_reads shows slugs binds.granted path)
      (List.rel_append (ids_reads shows binds) (requestedSet_reads shows binds slugs)))
      (List.cons_ne_nil _ _)
  refine ⟨expr, ?_⟩
  have chosen : Denotes env .prim _ (.array (f.disclosed mapping scope selectors env.engine path)) :=
    Denotes.call₃ .cond expr.disj_of_conj (pathRepositories_reads shows path).disj_of_prim
      emptyRepositories_reads.disj_of_prim (by
        rw [call, truth_ofTruth, Option.map_some, RowFacts.disclosed]
        split <;> rfl)
  simpa [restrictPath, pathSQL, sql] using chosen

end

end

end DevHealth.Readers

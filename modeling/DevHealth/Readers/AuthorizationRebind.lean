import DevHealth.Readers.AuthorizationEvidence

/-! # The same statement with other bindings

A statement without candidates binds fewer parameters.  Apart from the candidates the two
aggregates read the organization and the grant only, so they are the same relations in both
statements. -/
set_option autoImplicit false
namespace DevHealth.Readers

open Go Lib Lib.Sql Lib.Relation Clickhouse

def Statement.rebind (s : Statement) (extra : List Binding) : Statement := { s with extra }

@[simp] theorem Statement.rebind_db (s : Statement) (extra : List Binding) : (s.rebind extra).db = s.db := rfl

/-- The parameters the two aggregates read, candidates apart. -/
def aggregateParams : List String := "org_id" :: selectorNames "authorized"

def readsOnly (params : List String) (text : Sql) : Bool :=
  text.all fun
    | .param name => decide (name ∈ params)
    | _ => true

theorem mem_of_readsOnly {params : List String} {text : Sql} (only : readsOnly params text = true)
    {name : String} (inside : Token.param name ∈ text) : name ∈ params := by
  have found := List.all_eq_true.mp only _ inside
  simpa using found

theorem authorizingLink_readable : Readable .conj authorizingLink :=
  ⟨.each (.plain (.cmp .eq (.column (Alias.wiaLink.dot .provenance))
    (.str workItemAuthorizingLinkProvenance))), rfl⟩

theorem excludedLink_readable : Readable .conj (sql [[.not, .lparen], authorizingLink, [.rparen]]) :=
  ⟨.each (.not (.plain (.value (.paren (.single (.each (.plain (.cmp .eq
    (.column (Alias.wiaLink.dot .provenance)) (.str workItemAuthorizingLinkProvenance))))))))), rfl⟩

section

variable {s : Statement} {extra : List Binding}
  (agree : ∀ name ∈ aggregateParams, (s.rebind extra).param name = s.param name)

include agree

theorem value_rebind {text : Sql} (readable : Readable .disj text)
    (only : readsOnly aggregateParams text = true) (tables : Scope) :
    value ((s.rebind extra).env tables) text = value (s.env tables) text :=
  value_congr ⟨rfl, rfl, rfl⟩ readable fun name inside =>
    agree name (mem_of_readsOnly only inside)

theorem passes_rebind {condition : Sql} (readable : Readable .disj condition)
    (only : readsOnly aggregateParams condition = true) (tables : Scope) :
    (s.rebind extra).passes tables condition = s.passes tables condition := by
  rw [Statement.passes, Statement.passes, holds, holds, value_rebind agree readable only]

theorem text_rebind {expression : Sql} (readable : Readable .disj expression)
    (only : readsOnly aggregateParams expression = true) (tables : Scope) :
    (s.rebind extra).text tables expression = s.text tables expression := by
  rw [Statement.text, Statement.text, value_rebind agree readable only]

omit agree in
theorem catalog_rebind : projectIdentityCatalogSQL (s.rebind extra) = projectIdentityCatalogSQL s := by
  rw [projectIdentityCatalogSQL, projectIdentityCatalogSQL, projectIdentityCatalogRows_eq,
    projectIdentityCatalogRows_eq, expansion_eq fun _ inside => inside,
    expansion_eq fun _ inside => inside]
  rfl

/-- Current ownership, as a predicate of ownership rows. -/
def current (s : Statement) : OwnershipPredicate s :=
  .ofBound { active := false, hasStart := false } 0 (fun active => nomatch active)

omit agree in
theorem current_text : (current s).text = currentOwnership := ownershipValidityPredicate_text _ _ _

theorem byProjectID_rebind : ownershipByProjectID (s.rebind extra) currentOwnership =
      ownershipByProjectID s currentOwnership := by
  have condition := fun o : TeamProjectOwnership =>
    passes_rebind agree (byProjectID_reads (current s) o).disj_of_conj.readable
      (by rw [current_text]; decide) [(none, o.get)]
  simp only [current_text] at condition
  simp only [ownershipByProjectID, condition, Statement.rebind_db]

theorem byProjectKey_rebind : ownershipByProjectKey (s.rebind extra) currentOwnership =
      ownershipByProjectKey s currentOwnership := by
  have condition := fun o : TeamProjectOwnership =>
    passes_rebind agree (byProjectKey_reads (current s) o).disj_of_conj.readable
      (by rw [current_text]; decide) [(none, o.get)]
  simp only [current_text] at condition
  simp only [ownershipByProjectKey, condition, Statement.rebind_db]

theorem ownership_rebind : projectOwnershipCatalogJoinSQL (s.rebind extra) currentOwnership =
      projectOwnershipCatalogJoinSQL s currentOwnership := by
  have on := fun (p : IdentityScope) (o : OwnershipValue) =>
    passes_rebind agree (ownershipOn_reads (s := s) p o).disj_of_conj.readable (by decide)
      [(some .p, p.get), (some .o, o.get)]
  have kinds := fun (p : IdentityScope) (o : OwnershipValue) =>
    passes_rebind agree (ownershipWhere_reads (s := s) p o).readable (by decide)
      [(some .p, p.get), (some .o, o.get)]
  simp only [projectOwnershipCatalogJoinSQL, projectOwnershipJoinOver, catalog_rebind,
    byProjectID_rebind agree, byProjectKey_rebind agree, on, kinds]

theorem teamRepos_rebind : teamRepositoryOwnershipSQL (s.rebind extra) currentOwnership =
      teamRepositoryOwnershipSQL s currentOwnership := by
  have condition : ∀ o : TeamRepoOwnership, (s.rebind extra).passes [(none, o.get)]
          (orgScope ++ .and :: keyPresentSQL (bare .repoId) .uuidKey ++ currentOwnership) =
        s.passes [(none, o.get)]
          (orgScope ++ .and :: keyPresentSQL (bare .repoId) .uuidKey ++ currentOwnership) := by
    intro o
    have org : Denotes (s.env [(none, o.get)]) .conj _ _ := orgScope_reads rfl
    have repo : Denotes (s.env [(none, o.get)]) .conj _ _ := keyPresent_uuid_reads (bare .repoId) o.repoId rfl
    have valid : Denotes (s.env [(none, o.get)]) .conj currentOwnership.tail
        (.ofTruth (TimeBound.admits _ s.server.engine.now 0 o.validFrom o.validTo)) :=
      ownershipValidity_reads { active := false, hasStart := false }
        (fun active => nomatch active) rfl rfl
    exact passes_rebind agree ((org.and repo).and valid).disj_of_conj.readable (by decide) _
  simp only [teamRepositoryOwnershipSQL, condition, Statement.rebind_db]

theorem organizationRepos_rebind : organizationRepos (s.rebind extra) = organizationRepos s := by
  have org : ∀ r : Repo, (s.rebind extra).passes [(none, r.get)] orgScope =
      s.passes [(none, r.get)] orgScope := by
    intro r
    have reads : Denotes (s.env [(none, r.get)]) .conj _ _ := orgScope_reads rfl
    exact passes_rebind agree reads.disj_of_conj.readable (by decide) _
  simp only [organizationRepos, org, Statement.rebind_db]

theorem ownedRepositories_rebind (projects : List ProjectTeam) :
    ownedRepositoriesSQL (s.rebind extra) "authorized" projects =
      ownedRepositoriesSQL s "authorized" projects := by
  have teams := passes_rebind agree (columnsEqual_readable (Alias.wiaTeamRepo.dot .teamId)
    (Alias.wiaOwnedProject.dot .teamId)).disj_of_conj (by decide)
  have repos := passes_rebind agree (columnsEqual_readable (Alias.wiaOwnedRepo.dot .id)
    (Alias.wiaTeamRepo.dot .repoId)).disj_of_conj (by decide)
  have grant := passes_rebind agree
    (grantedMatch_readable "authorized" (Alias.wiaOwnedRepo.dot .repo)).disj_of_conj (by decide)
  have slug := text_rebind agree (repositorySlug_readable (Alias.wiaOwnedRepo.dot .repo)) (by decide)
  simp only [ownedRepositoriesSQL, teamRepos_rebind agree, organizationRepos_rebind agree, teams,
    repos, grant, slug]

theorem projectAuth_rebind :
    projectAuthSQL (s.rebind extra) "authorized" .zero = projectAuthSQL s "authorized" .zero := by
  have readable : Readable .conj ownedOn := (columnsEqual_readable
    (Alias.wiaOwned.dot .wiaOwnedProvider) (Alias.wiaScope.dot .provider)).and
    (columnsEqual_readable (Alias.wiaOwned.dot .wiaOwnedId) (Alias.wiaScope.dot .id))
  have on := passes_rebind agree readable.disj_of_conj (by decide)
  simp [projectAuthSQL, ownedProjectsSQL, projectScopesSQL, WorkItemCandidates.zero, catalog_rebind,
    ownership_rebind agree, ownedRepositories_rebind agree, on]

theorem linkAuth_rebind :
    linkAuthSQL (s.rebind extra) "authorized" .zero = linkAuthSQL s "authorized" .zero := by
  have on := passes_rebind agree (columnsEqual_readable (Alias.wiaLinkRepo.dot .id)
    (Alias.wiaLink.dot .repoId)).disj_of_conj (by decide)
  have kept : ∀ pair : IssuePrLink × Repo,
      (s.rebind extra).passes (linkTables pair) (linkWhere "authorized" .zero) =
        s.passes (linkTables pair) (linkWhere "authorized" .zero) := fun pair =>
    passes_rebind agree ((linkOrg_readable.and (linkKeys_readable s pair)).and
      (grantedMatch_readable "authorized" (Alias.wiaLinkRepo.dot .repo))).disj_of_conj (by decide) _
  have native := passes_rebind agree authorizingLink_readable.disj_of_conj (by decide)
  have other := passes_rebind agree excludedLink_readable.disj_of_conj (by decide)
  have slug := text_rebind agree (repositorySlug_readable (Alias.wiaLinkRepo.dot .repo)) (by decide)
  have column : Readable .disj [.column (Alias.wiaLink.dot .provenance)] :=
    ⟨.single (.each (.plain (.value (.column (Alias.wiaLink.dot .provenance))))), rfl⟩
  have provenance := text_rebind agree column (by decide)
  simp only [linkAuthSQL, organizationRepos_rebind agree, Statement.rebind_db, on, kept, native,
    other, slug, provenance]

end

end DevHealth.Readers

import DevHealth.Readers.AuthorizationJoin
import DevHealth.Readers.OwnershipExact

/-! # What the authorization expressions read

A joined row is known to the expressions through a few columns.  Over those facts, and the
values bound to the parameters, every expression has a truth value or an array that is
said here without SQL. -/
set_option autoImplicit false
namespace DevHealth.Readers

open Go Lib Lib.Sql Lib.Relation Clickhouse

variable {env : Env Column}

/-! ## Presence of a key -/

/-- `toString(id) != '' AND toString(id) != zero` -/
def uuidPresent : Option Uuid → Truth
  | none => .unknown
  | some id => .ofBool (decide (id ≠ .zero))

theorem keyPresent_uuid_reads (c : Column) (id : Option Uuid)
    (column : env.column c = some (.ofOption .uuid id)) :
    Denotes env .conj (keyPresentSQL c .uuidKey) (.ofTruth (uuidPresent id)) := by
  have operand : Denotes env .disj _ _ := (Denotes.column c column).disj_of_prim
  cases id with
  | none =>
    have text : Denotes env .prim _ .null := Denotes.call₁ .toString operand rfl
    exact (text.cmp .ne (Denotes.str []) rfl).and (text.cmp .ne (Denotes.str zeroUUID) rfl)
  | some id =>
    have text : Denotes env .prim _ (.str id.text) := Denotes.call₁ .toString operand rfl
    have both := (text.cmp .ne (Denotes.str []) rfl).and (text.cmp .ne (Denotes.str zeroUUID) rfl)
    rw [compareOf, compareOf, Truth.ofBool_and] at both
    have zero : Uuid.zero.text = zeroUUID := by decide +kernel
    have present : (decide (id.text ≠ []) && decide (id.text ≠ zeroUUID)) =
        decide (id ≠ .zero) := by
      rw [← zero, Bool.eq_iff_iff, Bool.and_eq_true, decide_eq_true_eq, decide_eq_true_eq,
        decide_eq_true_eq, Uuid.text_injective.ne_iff]
      exact and_iff_right id.text_ne_nil
    rw [present] at both
    exact both

theorem keyPresent_string_reads (c : Column) (key : Option Bytes)
    (column : env.column c = some (.ofOption .str key)) :
    Denotes env .conj (keyPresentSQL c .stringKey) (.ofTruth (keyFilled key)) := by
  refine (Denotes.column c column).cmp .ne (Denotes.str []) ?_
  cases key <;> rfl

/-- The item carries a real repository: an id other than the zero UUID. -/
def WorkItem.HasRepository (w : WorkItem) : Prop := ∃ id, w.repoId = some id ∧ id ≠ .zero

theorem uuidPresent_yes {w : WorkItem} : uuidPresent w.repoId = .yes ↔ w.HasRepository := by
  rw [WorkItem.HasRepository]
  cases w.repoId <;> simp [uuidPresent]

/-! ## The facts of a row -/

structure RowFacts where
  repoId : Option Uuid
  projectId : Option Bytes
  repo : Option Bytes
  projectRepositories : List Bytes
  linkRepositories : List Bytes
  excludedProvenances : List Bytes

structure Shows (env : Env Column) (f : RowFacts) : Prop where
  repoId : env.column (Alias.w.dot .repoId) = some (.ofOption .uuid f.repoId)
  projectId : env.column (Alias.w.dot .projectId) = some (.ofOption .str f.projectId)
  repo : env.column (Alias.r.dot .repo) = some (.ofOption .str f.repo)
  projectRepositories : env.column (Alias.wiaProjectAuth.dot .wiaProjectRepositories) =
    some (.array f.projectRepositories)
  linkRepositories : env.column (Alias.wiaLinkAuth.dot .wiaLinkRepositories) =
    some (.array f.linkRepositories)
  excludedProvenances : env.column (Alias.wiaLinkAuth.dot .wiaLinkExcludedProvenances) =
    some (.array f.excludedProvenances)

structure Selected where
  all : Bool
  slugs : List Bytes
  owners : List Bytes

def RepositorySelectorSet.selected (mapping : CaseMapping) (set : RepositorySelectorSet) :
    Selected where
  all := set.all
  slugs := normalizeRepositorySlugs mapping set.exactSlugs
  owners := normalizeRepositoryOwners mapping set.owners

structure Binds (env : Env Column) (selector : String) (set : Selected) : Prop where
  all : env.param (selector ++ "_repo_all") = some (.int (boolToFlag set.all).toNat)
  slugs : env.param (selector ++ "_repo_slugs") = some (.array set.slugs)
  owners : env.param (selector ++ "_repo_owners") = some (.array set.owners)

/-- The server reads the slug pattern as Go does. -/
def ReadsSlugs (env : Env Column) : Prop :=
  ∀ slug, env.engine.search slug Repokey.slugPatternText = Repokey.slugPattern.accepts slug

/-! ## Truth of the parts -/

namespace RowFacts

variable (engine : Engine) (f : RowFacts)

def present : Truth := uuidPresent f.repoId

def slug : Bytes := slugOf engine f.repo

def direct (set : Selected) : Truth :=
  f.present.and (.ofBool (granted set.slugs set.owners (f.slug engine)))

def project : Truth :=
  f.present.not.and ((keyFilled f.projectId).and (.ofBool (decide (f.projectRepositories ≠ []))))

def link : Truth := f.present.not.and (.ofBool (decide (f.linkRepositories ≠ [])))

def path (set : Selected) : WorkItemAuthorizationPath → Truth
  | .organizationGrant => .ofBool set.all
  | .directRepository => f.direct engine set
  | .projectOwnership => f.project
  | .pullRequestLink => f.link

def requested (set : Selected) : Truth :=
  f.present.and ((Truth.ofBool (decide (f.slug engine ≠ []))).and
    ((Truth.ofBool set.all).or (.ofBool (granted set.slugs set.owners (f.slug engine)))))

def evidence : WorkItemAuthorizationPath → List Bytes
  | .organizationGrant => []
  | .directRepository => [f.slug engine]
  | .projectOwnership => f.projectRepositories
  | .pullRequestLink => f.linkRepositories

end RowFacts

section

variable {f : RowFacts} {set : Selected} {selector : String}

theorem emptyRepositories_reads : Denotes env .prim emptyRepositories (.array []) :=
  Denotes.call₂ .cast Denotes.emptyArray.disj_of_prim
    (Denotes.str (ascii "Array(String)")).disj_of_prim (by simp [call, strict])

theorem flag_reads {name : String} {all : Bool} (bound : env.param name = some (.int (boolToFlag all).toNat)) :
    Denotes env .conj [.param name, .cmp .eq, .int 1] (.ofTruth (.ofBool all)) := by
  refine (Denotes.param name bound).cmp .eq (Denotes.int 1) ?_
  cases all <;> rfl

theorem present_reads (shows : Shows env f) : Denotes env .conj workItemRepoPresent (.ofTruth f.present) :=
  keyPresent_uuid_reads _ _ shows.repoId

theorem repoLess_reads (shows : Shows env f) : Denotes env .conj repoLess (.ofTruth f.present.not) := by
  have reads := (present_reads shows).disj_of_conj.paren.not
  simpa [repoLess, sql] using reads

theorem workItemRepoSlug_reads (shows : Shows env f) :
    Denotes env .prim workItemRepoSlug (.str (f.slug env.engine)) :=
  repositorySlug_reads (Alias.r.dot .repo) shows.repo

theorem ownMatch_reads (shows : Shows env f) (slugs : ReadsSlugs env) (binds : Binds env selector set) :
    Denotes env .conj (sql [workItemRepoSlugValid, [.and], repositorySelectorMatch selector])
      (.ofTruth (.ofBool (granted set.slugs set.owners (f.slug env.engine)))) :=
  grantedMatch_reads _ _ shows.repo slugs binds.slugs binds.owners

theorem direct_reads (shows : Shows env f) (slugs : ReadsSlugs env) (binds : Binds env selector set) :
    Denotes env .prim (directExpr selector) (.ofTruth (f.direct env.engine set)) := by
  have both : Denotes env .conj _ (.ofTruth (f.direct env.engine set)) :=
    (present_reads shows).and (ownMatch_reads shows slugs binds)
  have reads := both.disj_of_conj.paren
  simpa [directExpr, sql] using reads

theorem notEmpty_reads {c : Column} {items : List Bytes} (column : env.column c = some (.array items)) :
    Denotes env .conj [.func .notEmpty, .lparen, .column c, .rparen]
      (.ofTruth (.ofBool (decide (items ≠ [])))) :=
  (Denotes.call₁ .notEmpty (Denotes.column c column).disj_of_prim rfl).conj_of_prim

theorem project_reads (shows : Shows env f) : Denotes env .prim projectExpr (.ofTruth f.project) := by
  have all : Denotes env .conj _ (.ofTruth f.project) :=
    (repoLess_reads shows).and ((keyPresent_string_reads _ _ shows.projectId).and
      (notEmpty_reads shows.projectRepositories))
  have reads := all.disj_of_conj.paren
  simpa [projectExpr, projectRepositories, sql] using reads

theorem link_reads (shows : Shows env f) : Denotes env .prim linkExpr (.ofTruth f.link) := by
  have both : Denotes env .conj _ (.ofTruth f.link) :=
    (repoLess_reads shows).and (notEmpty_reads shows.linkRepositories)
  have reads := both.disj_of_conj.paren
  simpa [linkExpr, linkRepositories, sql] using reads

theorem requested_reads (shows : Shows env f) (slugs : ReadsSlugs env) (binds : Binds env "requested" set) :
    Denotes env .conj requestedExpr (.ofTruth (f.requested env.engine set)) := by
  have named : Denotes env .conj workItemRepoNamed (.ofTruth (.ofBool (decide (f.slug env.engine ≠ [])))) :=
    (workItemRepoSlug_reads shows).cmp .ne (Denotes.str []) rfl
  have validMatch := (ownMatch_reads shows slugs binds).disj_of_conj.paren
  have choice := ((flag_reads binds.all).disj_of_conj.or validMatch.disj_of_prim).paren
  have all : Denotes env .conj _ (.ofTruth (f.requested env.engine set)) :=
    (present_reads shows).and (named.and choice.conj_of_prim)
  have reads := all.disj_of_conj.paren.conj_of_prim
  have text : requestedExpr = sql [[.lparen], workItemRepoPresent, [.and], workItemRepoNamed,
    [.and, .lparen, .param ("requested" ++ "_repo_all"), .cmp .eq, .int 1, .or],
    sql [[.lparen], workItemRepoSlugValid, [.and], repositorySelectorMatch "requested", [.rparen]],
    [.rparen, .rparen]] := rfl
  rw [text]
  simpa [sql] using reads

end

end DevHealth.Readers

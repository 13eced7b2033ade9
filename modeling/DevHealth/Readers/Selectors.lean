import DevHealth.Go.Fold
import DevHealth.Go.Strings
import DevHealth.Readers.Ownership

/-! # Repository selectors

The selectors of `authorization.go`: the lists a caller gives, their normal form, and the
conditions that compare a stored repository name with them.  A condition is the text the
source puts together from its parts, lexeme by lexeme. -/
set_option autoImplicit false
namespace DevHealth.Readers

open Go Lib Lib.Sql Clickhouse

structure RepositorySelectorSet where
  all : Bool
  exactSlugs : List Bytes
  owners : List Bytes

structure RepositorySelectorScope where
  granted : RepositorySelectorSet
  requested : Option RepositorySelectorSet

structure AuthorizationScope where
  grantedRepositoryIDs : Option (List Bytes)
  requestedRepositoryIDs : Option (List Bytes)
  repositorySelectors : Option RepositorySelectorScope

/-! ## Normal forms -/

/-- `[a-z0-9](?:[a-z0-9._-]{0,98}[a-z0-9])?` -/
def repositoryOwnerPattern : Regex UInt8 := Repokey.group

/-- The loop of both normalisers: names that are accepted, each once. -/
def normalizeNames (accept : Bytes → Option Bytes) : List Bytes → List Bytes → List Bytes
  | [], _ => []
  | raw :: values, seen =>
    match accept raw with
    | none => normalizeNames accept values seen
    | some normalized =>
      if normalized ∈ seen then normalizeNames accept values seen
      else normalized :: normalizeNames accept values (normalized :: seen)

variable (mapping : CaseMapping)

def acceptSlug (raw : Bytes) : Option Bytes :=
  let normalized := toLower mapping (trimSpace raw)
  if Repokey.validSlug normalized then some normalized else none

def acceptOwner (raw : Bytes) : Option Bytes :=
  let normalized := trimSuffix (toLower mapping (trimSpace raw)) (ascii "/*")
  if normalized = [] ∨ 0x2F ∈ normalized ∨ repositoryOwnerPattern.accepts normalized = false then
    none
  else some normalized

def normalizeRepositorySlugs (values : List Bytes) : List Bytes :=
  sortStrings (normalizeNames (acceptSlug mapping) values [])

def normalizeRepositoryOwners (values : List Bytes) : List Bytes :=
  sortStrings (normalizeNames (acceptOwner mapping) values [])

/-! ## Conditions on a repository name -/

def workItemRepositoryWhitespacePattern : Bytes :=
  ascii "^[\\p\x7bZs\x7d\\p\x7bZl\x7d\\p\x7bZp\x7d\\t\\n\\r\\v\\f\\x\x7b85\x7d]+|" ++
    ascii "[\\p\x7bZs\x7d\\p\x7bZl\x7d\\p\x7bZp\x7d\\t\\n\\r\\v\\f\\x\x7b85\x7d]+$"

/-- U+212A, the Kelvin sign. -/
def kelvin : Bytes := [0xE2, 0x84, 0xAA]

/-- U+0130, the dotted capital I. -/
def dottedI : Bytes := [0xC4, 0xB0]

def workItemRepoSlug : Sql :=
  [.func .replaceAll, .lparen, .func .replaceAll, .lparen, .func .lowerUTF8, .lparen,
    .func .replaceRegexpAll, .lparen, .func .trimBoth, .lparen, .func .ifNull, .lparen,
    .column (Alias.r.dot .repo), .comma, .str [], .rparen, .rparen, .comma,
    .str workItemRepositoryWhitespacePattern, .comma, .str [], .rparen, .rparen, .comma,
    .str kelvin, .comma, .str (ascii "k"), .rparen, .comma, .str dottedI, .comma,
    .str (ascii "i"), .rparen]

def workItemRepoNamed : Sql := workItemRepoSlug ++ [.cmp .ne, .str []]

/-- `workItemRepoSlug` over another repository name. -/
def repositorySlugSQL (column : Column) : Sql :=
  replaceOnce [.func .ifNull, .lparen, .column (Alias.r.dot .repo), .comma, .str [], .rparen]
    [.func .ifNull, .lparen, .column column, .comma, .str [], .rparen] workItemRepoSlug

def slugValidSQL (slug : Sql) : Sql :=
  sql [[.lparen, .func .length, .lparen], slug,
    [.rparen, .cmp .le, .int Repokey.maxBytes, .and, .func .search, .lparen], slug,
    [.comma, .str Repokey.slugPatternText, .rparen, .cmp .eq, .int 1, .rparen]]

def workItemRepoSlugValid : Sql := slugValidSQL workItemRepoSlug

def repositorySelectorMatchOver (selector : String) (slug : Sql) : Sql :=
  sql [[.lparen, .func .has, .lparen, .param (selector ++ "_repo_slugs"), .comma], slug,
    [.rparen, .or, .func .has, .lparen, .param (selector ++ "_repo_owners"), .comma,
      .func .arrayElement, .lparen, .func .splitByChar, .lparen, .str (ascii "/"), .comma], slug,
    [.rparen, .comma, .int 1, .rparen, .rparen, .rparen]]

def repositorySelectorMatch (selector : String) : Sql :=
  repositorySelectorMatchOver selector workItemRepoSlug

def grantedRepositoryMatchSQL (selector : String) (column : Column) : Sql :=
  let slug := repositorySlugSQL column
  sql [slugValidSQL slug, [.and], repositorySelectorMatchOver selector slug]

/-! ## What the conditions say -/

def slugOf (engine : Engine) (repo : Option Bytes) : Bytes :=
  replaceAll (replaceAll (engine.lowerUTF8 (engine.replaceRegexpAll (trimBoth (repo.getD []))
    workItemRepositoryWhitespacePattern [])) kelvin (ascii "k")) dottedI (ascii "i")

def firstSegment (slug : Bytes) : Bytes := slug.takeWhile (· != 0x2F)

def selects (slugs owners : List Bytes) (slug : Bytes) : Bool :=
  decide (slug ∈ slugs) || decide (firstSegment slug ∈ owners)

variable {env : Env Column} {slug : Sql} {name : Bytes}

theorem repositorySlug_reads (c : Column) {repo : Option Bytes}
    (column : env.column c = some (.ofOption .str repo)) :
    Denotes env .prim (repositorySlugSQL c) (.str (slugOf env.engine repo)) := by
  have stored : Denotes env .prim _ (.str (repo.getD [])) :=
    Denotes.call₂ .ifNull (Denotes.column c column).disj_of_prim (Denotes.str []).disj_of_prim
      (by cases repo <;> rfl)
  have trimmed : Denotes env .prim _ _ := Denotes.call₁ .trimBoth stored.disj_of_prim rfl
  have stripped : Denotes env .prim _ _ :=
    Denotes.call₃ .replaceRegexpAll trimmed.disj_of_prim
      (Denotes.str workItemRepositoryWhitespacePattern).disj_of_prim (Denotes.str []).disj_of_prim
      rfl
  have lowered : Denotes env .prim _ _ := Denotes.call₁ .lowerUTF8 stripped.disj_of_prim rfl
  have k : Denotes env .prim _ _ :=
    Denotes.call₃ .replaceAll lowered.disj_of_prim (Denotes.str kelvin).disj_of_prim
      (Denotes.str (ascii "k")).disj_of_prim rfl
  exact Denotes.call₃ .replaceAll k.disj_of_prim (Denotes.str dottedI).disj_of_prim
    (Denotes.str (ascii "i")).disj_of_prim rfl

theorem slugValid_reads (reads : Denotes env .prim slug (.str name))
    (searches : env.engine.search name Repokey.slugPatternText = Repokey.slugPattern.accepts name) :
    Denotes env .prim (slugValidSQL slug) (.ofTruth (.ofBool (Repokey.validSlug name))) := by
  have length : Denotes env .conj _ (.ofTruth (.ofBool (decide (name.length ≤ Repokey.maxBytes)))) :=
    (Denotes.call₁ .length reads.disj_of_prim rfl).cmp .le (Denotes.int Repokey.maxBytes) rfl
  have found : Denotes env .conj _ (.ofTruth (.ofBool (Repokey.slugPattern.accepts name))) :=
    (Denotes.call₂ .search reads.disj_of_prim (Denotes.str Repokey.slugPatternText).disj_of_prim
      rfl).cmp .eq (Denotes.int 1) (by rw [searches]; cases Repokey.slugPattern.accepts name <;> rfl)
  have both := (length.and found).disj_of_conj.paren
  rw [Truth.ofBool_and] at both
  rw [Repokey.validSlug]
  simpa [slugValidSQL, sql] using both

theorem selectorMatch_reads {selector : String} {slugs owners : List Bytes}
    (reads : Denotes env .prim slug (.str name))
    (slugsBound : env.param (selector ++ "_repo_slugs") = some (.array slugs))
    (ownersBound : env.param (selector ++ "_repo_owners") = some (.array owners)) :
    Denotes env .prim (repositorySelectorMatchOver selector slug)
      (.ofTruth (.ofBool (selects slugs owners name))) := by
  have exact_slug : Denotes env .prim _ (.ofTruth (.ofBool (decide (name ∈ slugs)))) :=
    Denotes.call₂ .has (Denotes.param _ slugsBound).disj_of_prim reads.disj_of_prim rfl
  obtain ⟨more, parts⟩ := splitByChar_first 0x2F name
  have split : Denotes env .prim _ (.array (splitByChar 0x2F name)) :=
    Denotes.call₂ .splitByChar (Denotes.str (ascii "/")).disj_of_prim reads.disj_of_prim rfl
  have first : Denotes env .prim _ (.str (firstSegment name)) :=
    Denotes.call₂ .arrayElement split.disj_of_prim (Denotes.int 1).disj_of_prim (by rw [parts]; rfl)
  have owner : Denotes env .prim _ (.ofTruth (.ofBool (decide (firstSegment name ∈ owners)))) :=
    Denotes.call₂ .has (Denotes.param _ ownersBound).disj_of_prim first.disj_of_prim rfl
  have either := (exact_slug.disj_of_prim.or owner.disj_of_prim).paren
  rw [Truth.ofBool_or] at either
  rw [selects]
  simpa [repositorySelectorMatchOver, sql] using either

/-- The slug has the grammar of a repository key and is granted. -/
def granted (slugs owners : List Bytes) (slug : Bytes) : Bool :=
  Repokey.validSlug slug && selects slugs owners slug

theorem grantedMatch_reads {selector : String} {slugs owners : List Bytes} (c : Column)
    (repo : Option Bytes) (column : env.column c = some (.ofOption .str repo))
    (searches : ∀ name, env.engine.search name Repokey.slugPatternText = Repokey.slugPattern.accepts name)
    (slugsBound : env.param (selector ++ "_repo_slugs") = some (.array slugs))
    (ownersBound : env.param (selector ++ "_repo_owners") = some (.array owners)) :
    Denotes env .conj (grantedRepositoryMatchSQL selector c)
      (.ofTruth (.ofBool (granted slugs owners (slugOf env.engine repo)))) := by
  have slug := repositorySlug_reads c column
  have both := (slugValid_reads slug (searches _)).conj_of_prim.and
    (selectorMatch_reads slug slugsBound ownersBound).conj_of_prim
  rw [Truth.ofBool_and] at both
  rw [granted]
  simpa [grantedRepositoryMatchSQL, sql] using both

/-! A text that has a value over one row is an expression over every row. -/

def blankEnv : Env Column where
  engine := asciiServer.engine
  column := fun _ => some (.str [])
  param := fun _ => some (.array [])
  subquery := fun _ => none

theorem repositorySlug_readable (c : Column) : Readable .disj (repositorySlugSQL c) := by
  have reads : Denotes blankEnv .prim _ (.str (slugOf _ (some []))) := repositorySlug_reads c rfl
  exact reads.disj_of_prim.readable

theorem grantedMatch_readable (selector : String) (c : Column) :
    Readable .conj (grantedRepositoryMatchSQL selector c) := by
  have reads : Denotes blankEnv .conj (grantedRepositoryMatchSQL selector c) _ :=
    grantedMatch_reads c (some []) rfl asciiServer.slugPattern rfl rfl
  exact reads.readable

theorem columnsEqual_readable (a b : Column) : Readable .conj [.column a, .cmp .eq, .column b] :=
  ⟨.each (.plain (.cmp .eq (.column a) (.column b))), rfl⟩

end DevHealth.Readers

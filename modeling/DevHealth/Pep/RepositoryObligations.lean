import DevHealth.Pep.ExactAllow

/-! # Which repositories a decision allows

The answer of `RepositoryAllowed` in terms of the document: only an allow names
repositories, by `repository_scope` or by `repository_allowlist` and never by both, and
where it has neither no repository is allowed. -/
set_option autoImplicit false
namespace DevHealth.Pep

open Go Lib

variable {v : Json .value} {body members inner : Json (.body .object)}

/-! ## The document -/

def Lists (inner : Json (.body .object)) (key : Bytes) : Prop :=
  ∃ items : Json (.body .array), named inner (ascii "repository_allowlist") = some (.box items) ∧
    ∃ e ∈ items.entries, stringOf e.2 = some key

/-- The obligations cover the key: the whole organization, the key itself or the
wildcard. -/
def CoversRepository (members : Json (.body .object)) (key : Bytes) : Prop :=
  ∃ inner : Json (.body .object), named members (ascii "obligations") = some (.box inner) ∧
    (namedString inner (ascii "repository_scope") = some scopeOrganization ∨
      Lists inner key ∨ Lists inner (ascii "*"))

/-- Neither repository member, or an allowlist with nothing in it. -/
def NoRepositories (members : Json (.body .object)) : Prop :=
  ∀ inner : Json (.body .object), named members (ascii "obligations") = some (.box inner) →
    named inner (ascii "repository_scope") = none ∧
      ∀ items : Json (.body .array),
        named inner (ascii "repository_allowlist") = some (.box items) → items.entries = []

/-! ## What the readers give -/

theorem optionally_ok {α : Type} {name : Bytes} {absent a : α} {read : RawMessage → Except Error α} :
    optionally ((rawMembers inner).get name) absent read = .ok a ↔
      (named inner name = none ∧ a = absent) ∨ ∃ v, named inner name = some v ∧ read v.text = .ok a := by
  rw [get_rawMembers]
  cases named inner name with
  | none => simp [optionally, eq_comm]
  | some v => simp [optionally]

theorem readScope_ok (nests : v.nesting ≤ maxNestingDepth) {scope : Bytes} :
    readScope v.text = .ok scope ↔ stringOf v = some scopeOrganization ∧ scope = scopeOrganization := by
  simp only [readScope, bind_ok, need_ok, require_ok, pure_ok, asString_text nests, beq_iff_eq]
  constructor
  · rintro ⟨s, read, _, rfl, same⟩
    exact ⟨read, same.symm⟩
  · rintro ⟨read, rfl⟩
    exact ⟨_, read, (), rfl, rfl⟩

theorem readAllowlist_ok (nests : v.nesting ≤ maxNestingDepth) {found : Option (List Bytes)}
    (read : readAllowlist v.text = .ok found) :
    ∃ list, StringList Repokey.IsKey v list ∧ found = some list := by
  simp only [readAllowlist, bind_ok, need_ok, require_ok, pure_ok, asArray_text nests] at read
  obtain ⟨_, ⟨items, rfl, rfl⟩, _, -, list, looped, rfl⟩ := read
  exact ⟨list, (stringsLoop_list checkRepository_ok (box_nesting nests)).mp looped, rfl⟩

theorem StringList.mem_iff {p : Bytes → Prop} {items : Json (.body .array)} {list : List Bytes}
    (strings : StringList p (.box items) list) (key : Bytes) :
    key ∈ list ↔ ∃ e ∈ items.entries, stringOf e.2 = some key := by
  obtain ⟨_, same, texts, -⟩ := strings
  cases same
  have inside : key ∈ list ↔ some key ∈ list.map some := by simp
  rw [inside, ← texts, List.mem_map]

theorem decodeObligations_repositories (nests : v.nesting ≤ maxNestingDepth) {o : Obligations}
    (read : decodeObligations v.text = .ok o) :
    ∃ inner : Json (.body .object), v = .box inner ∧ o.granted = true ∧ (o.scope = scopeOrganization ↔
        namedString inner (ascii "repository_scope") = some scopeOrganization) ∧
      ∀ key, key ∈ o.allowlist ↔ Lists inner key := by
  simp only [decodeObligations, bind_ok, need_ok, require_ok, pure_ok, asObject_text nests] at read
  obtain ⟨_, ⟨inner, rfl, rfl⟩, _, -, tenant, -, _, -, scope, scopeRead, allowlist, listRead,
    redaction, -, assurance, -, stepUp, -, rfl⟩ := read
  have deeper := box_nesting nests
  refine ⟨inner, rfl, rfl, ?_, ?_⟩
  · rw [optionally_ok] at scopeRead
    show scope = scopeOrganization ↔ _
    rcases scopeRead with ⟨absent, rfl⟩ | ⟨w, found, read⟩
    · have unscoped : [] ≠ scopeOrganization := by decide
      simp [namedString, absent, unscoped]
    · obtain ⟨string, rfl⟩ := (readScope_ok (named_nesting deeper found)).mp read
      simp [namedString, found, string]
  · intro key
    rw [optionally_ok] at listRead
    show key ∈ allowlist.getD [] ↔ _
    rcases listRead with ⟨absent, rfl⟩ | ⟨w, found, read⟩
    · simp [Lists, absent]
    · obtain ⟨list, strings, rfl⟩ := readAllowlist_ok (named_nesting deeper found) read
      obtain ⟨items, rfl, -⟩ := id strings
      rw [Option.getD_some, strings.mem_iff]
      constructor
      · intro inside
        exact ⟨items, found, inside⟩
      · rintro ⟨items', found', inside⟩
        rw [found] at found'
        cases found'
        exact inside

theorem repositoryAllowed_iff {o : Obligations} {key : Bytes} : o.repositoryAllowed key = true ↔
      o.granted = true ∧ Repokey.IsSlug key ∧
        (o.scope = scopeOrganization ∨ key ∈ o.allowlist ∨ ascii "*" ∈ o.allowlist) := by
  rw [← Repokey.validSlug_iff]
  unfold Obligations.repositoryAllowed
  cases o.granted with
  | false => simp
  | true =>
    cases Repokey.validSlug key with
    | false => simp
    | true =>
      by_cases whole : o.scope = scopeOrganization
      · simp [whole]
      · simp only [Bool.not_true, Bool.or_self, Bool.false_eq_true, if_false,
          List.any_eq_true, Bool.or_eq_true, beq_iff_eq, true_and, whole, false_or]
        constructor
        · rintro ⟨k, inside, rfl | rfl⟩
          · exact Or.inr inside
          · exact Or.inl inside
        · rintro (inside | inside)
          · exact ⟨key, inside, Or.inr rfl⟩
          · exact ⟨_, inside, Or.inl rfl⟩

variable {req : Request} {bytes : Bytes} {now : Time}

theorem wire_repositories {w : Wire} (nests : body.nesting ≤ maxNestingDepth)
    (read : decodeWire (rawMembers body) req now = .ok w) (allowed : w.allowed = true)
    (key : Bytes) :
    w.obligations.repositoryAllowed key = true ↔
      Repokey.IsSlug key ∧ CoversRepository body key := by
  simp only [decodeWire, bind_ok, pure_ok] at read
  obtain ⟨_, -, _, -, _, -, isAllowed, -, _, -, _, -, _, -, _, -, _, -, obligations,
    obligationsRead, _, -, rfl⟩ := read
  cases allowed
  show obligations.repositoryAllowed key = true ↔ _
  rw [get_rawMembers] at obligationsRead
  rw [repositoryAllowed_iff]
  cases found : named body (ascii "obligations") with
  | none =>
    rw [found] at obligationsRead
    cases obligationsRead
    have noScope : (newObligations ObligationSpec.zero).scope ≠ scopeOrganization := by decide
    have noList : (newObligations ObligationSpec.zero).allowlist = [] := rfl
    simp [noScope, noList, CoversRepository, found]
  | some v =>
    rw [found] at obligationsRead
    simp only [Option.map_some, readObligations, bind_ok] at obligationsRead
    obtain ⟨_, -, decoded⟩ := obligationsRead
    obtain ⟨inner, rfl, granted, scope, list⟩ :=
      decodeObligations_repositories (named_nesting nests found) decoded
    rw [scope, list, list]
    simp [granted, CoversRepository, found]

/-! ## The whole reader -/

theorem DocumentText.nesting (text : DocumentText bytes members) :
    (Json.box members).nesting ≤ maxNestingDepth := by
  obtain ⟨_, _, _, _, _, depth, _⟩ := text
  exact nesting_of_depth depth

theorem DocumentText.read (text : DocumentText bytes members)
    (allows : (parseDecision bytes req now).allowed = true) :
    ∃ w, decodeWire (rawMembers members) req now = .ok w ∧ w.allowed = true ∧
      parseDecision bytes req now = fromWire w := by
  have nests := text.nesting
  obtain ⟨lead, trail, rfl, leadBlank, trailBlank, -⟩ := text
  have object : asObject (lead ++ ((Json.box members).text ++ trail)) = some (rawMembers members) := by
    rw [asObject_trim leadBlank trailBlank]
    exact (asObject_text nests).mpr ⟨members, rfl, rfl⟩
  unfold parseDecision at allows ⊢
  by_cases rejected : rejectDuplicates (lead ++ ((Json.box members).text ++ trail)) = true
  · rw [if_pos rejected] at allows
    cases allows
  · rw [if_neg rejected, object] at allows
    rw [if_neg rejected, object]
    obtain ⟨w, read, allowed⟩ := decodeDecision_allowed.mp allows
    refine ⟨w, read, allowed, ?_⟩
    show decodeDecision (rawMembers members) req now = _
    rw [decodeDecision, read]

theorem fromWire_obligations {w : Wire} (allows : (fromWire w).allowed = true) :
    (fromWire w).obligations = w.obligations := by
  rw [fromWire_allowed, Bool.and_eq_true] at allows
  simp [fromWire, allows.1, allows.2]

theorem DocumentText.repositories (text : DocumentText bytes members)
    (allows : (parseDecision bytes req now).allowed = true) (key : Bytes) :
    (parseDecision bytes req now).obligations.repositoryAllowed key = true ↔
      Repokey.IsSlug key ∧ CoversRepository members key := by
  obtain ⟨w, read, allowed, same⟩ := text.read allows
  rw [same] at allows ⊢
  rw [fromWire_obligations allows]
  exact wire_repositories (box_nesting text.nesting) read allowed key

theorem allowed_of_repository {key : Bytes}
    (allows : (parseDecision bytes req now).obligations.repositoryAllowed key = true) :
    (parseDecision bytes req now).allowed = true := by
  by_contra refused
  rw [parseDecision_obligations (Bool.eq_false_iff.mpr refused)] at allows
  simp [Obligations.repositoryAllowed, Obligations.zero] at allows

theorem not_covered_of_noRepositories (silent : NoRepositories members) (key : Bytes) :
    ¬CoversRepository members key := by
  rintro ⟨inner, found, scope | ⟨items, listed, e, inside, -⟩ | ⟨items, listed, e, inside, -⟩⟩
  · rw [namedString, (silent inner found).1] at scope
    cases scope
  · rw [(silent inner found).2 items listed] at inside
    cases inside
  · rw [(silent inner found).2 items listed] at inside
    cases inside

/-- Default deny for repositories.  A key is allowed exactly when the document is an allow,
the key is a slug and the obligations cover it; an allow never has both members, its
allowlist holds at most 256 distinct keys in their grammar; and with neither member, or
with an empty allowlist, it allows no repository. -/
theorem repositoryAllowed_exact (bytes : Bytes) (req : Request) (now : Time) :
    (∀ key, (parseDecision bytes req now).obligations.repositoryAllowed key = true ↔
      ExactAllow bytes req.organizationID ∧ Repokey.IsSlug key ∧
        ∃ members, DocumentText bytes members ∧ CoversRepository members key) ∧
    (ExactAllow bytes req.organizationID → ∀ members, DocumentText bytes members →
      (∀ inner, named members (ascii "obligations") = some (.box inner) →
        (named inner (ascii "repository_scope") = none ∨
          named inner (ascii "repository_allowlist") = none) ∧
        ∀ v, named inner (ascii "repository_allowlist") = some v →
          ∃ list, StringList Repokey.IsKey v list ∧ list.length ≤ 256) ∧
      (NoRepositories members →
        ∀ key, (parseDecision bytes req now).obligations.repositoryAllowed key = false)) := by
  have exact_iff : (parseDecision bytes req now).allowed = true ↔ ExactAllow bytes req.organizationID :=
    parseDecision_allowed
  rw [← exact_iff]
  constructor
  · intro key
    constructor
    · intro allows
      have allowed := allowed_of_repository allows
      obtain ⟨members, text, -⟩ := parseDecision_allowed.mp allowed
      obtain ⟨slug, covers⟩ := (text.repositories allowed key).mp allows
      exact ⟨allowed, slug, members, text, covers⟩
    · rintro ⟨allowed, slug, members, text, covers⟩
      exact (text.repositories allowed key).mpr ⟨slug, covers⟩
  · intro allowed members text
    obtain ⟨w, read, wireAllowed, -⟩ := text.read allowed
    have document := (decodeWire_allows (box_nesting text.nesting)).mp ⟨w, read, wireAllowed⟩
    refine ⟨?_, ?_⟩
    · intro inner found
      obtain ⟨_, same, obligations⟩ := document.obligations _ found
      cases same
      exact ⟨obligations.oneRepositoryMember, obligations.allowlist⟩
    · intro silent key
      apply Bool.eq_false_iff.mpr
      intro allows
      exact not_covered_of_noRepositories silent key ((text.repositories allowed key).mp allows).2

end DevHealth.Pep

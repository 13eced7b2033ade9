import DevHealth.Pep.Document

/-! # An allow comes only from an exact document

The strict walk and the map reader look at the same bytes twice.  On the text of a
tree both are described by the tree, so the whole reader is: it allows exactly the
documents of `ExactAllow`. -/
set_option autoImplicit false
namespace DevHealth.Pep

open Go Lib

variable {t v : Json .value} {body : Json (.body .object)}

/-! ## Obligations -/

def Succeeds {α : Type} (x : Except Error α) : Prop := ∃ a, x = .ok a

theorem succeeds_bind {α β : Type} {x : Except Error α} {f : α → Except Error β} :
    Succeeds (x >>= f) ↔ ∃ a, x = .ok a ∧ Succeeds (f a) := by
  simp only [Succeeds, bind_ok]
  constructor
  · rintro ⟨b, a, read, rest⟩
    exact ⟨a, read, b, rest⟩
  · rintro ⟨a, read, b, rest⟩
    exact ⟨b, a, read, rest⟩

theorem succeeds_pure {α : Type} (a : α) : Succeeds (pure a : Except Error α) := ⟨a, rfl⟩

theorem exists_ok {α : Type} {x : Except Error α} : (∃ a, x = .ok a) ↔ Succeeds x := Iff.rfl

variable {req : Request} {list : List Bytes} {now : Time} {p : Bytes → Bool} {name : Bytes}

theorem succeeds_optionally {α : Type} {absent : α} {read : RawMessage → Except Error α}
    {P : Json .value → Prop}
    (reads : ∀ {v : Json .value}, v.nesting ≤ maxNestingDepth → (Succeeds (read v.text) ↔ P v))
    (nests : body.nesting ≤ maxNestingDepth) :
    Succeeds (optionally ((rawMembers body).get name) absent read) ↔ ∀ v, named body name = some v → P v := by
  rw [get_rawMembers]
  cases found : named body name with
  | none => simp [Succeeds, optionally]
  | some v => simp [optionally, reads (named_nesting nests found)]

theorem readTenant_text (nests : v.nesting ≤ maxNestingDepth) :
    Succeeds (readTenant v.text) ↔ ∃ s, stringOf v = some s ∧ s ≠ [] := by
  simp only [readTenant, succeeds_bind, need_ok, require_ok, succeeds_pure, asString_text nests]
  simp

theorem readScope_text (nests : v.nesting ≤ maxNestingDepth) :
    Succeeds (readScope v.text) ↔ stringOf v = some scopeOrganization := by
  simp only [readScope, succeeds_bind, need_ok, require_ok, succeeds_pure, asString_text nests]
  simp

theorem readAssurance_text (nests : v.nesting ≤ maxNestingDepth) :
    Succeeds (readAssurance v.text) ↔ ∃ s ∈ assuranceLevels, stringOf v = some s := by
  simp only [readAssurance, succeeds_bind, need_ok, require_ok, succeeds_pure, asString_text nests]
  simp [contains_iff, and_comm]

theorem readStepUp_text : Succeeds (readStepUp v.text) ↔ ∃ b, v = .bool b := by
  simp only [Succeeds, readStepUp, need_ok, asBool_text]
  cases v <;> simp [boolOf]

theorem stringsLoop_ok {check : List Bytes → Bytes → Except Error Unit} {p : Bytes → Prop}
    (checks : ∀ seen s, check seen s = .ok () ↔ s ∉ seen ∧ p s) (items : List (Json .value))
    (nests : ∀ v ∈ items, v.nesting ≤ maxNestingDepth) :
    ∀ seen, seen.Nodup → (stringsLoop check (items.map Json.text) seen = .ok list ↔
        ∃ added, list = seen ++ added ∧ items.map stringOf = added.map some ∧ list.Nodup ∧
          ∀ s ∈ added, p s) := by
  induction items with
  | nil =>
    intro seen distinct
    simp only [List.map_nil, stringsLoop]
    constructor
    · intro same
      cases same
      exact ⟨[], by simp [distinct]⟩
    · rintro ⟨added, rfl, none, -⟩
      simp [List.map_eq_nil_iff.mp none.symm]
  | cons v items ih =>
    intro seen distinct
    have rest := ih fun w inside => nests w (List.mem_cons_of_mem _ inside)
    simp only [List.map_cons, stringsLoop, bind_ok, need_ok,
      asString_text (nests v (List.mem_cons_self ..)), checks]
    constructor
    · rintro ⟨s, read, _, ⟨fresh, holds⟩, success⟩
      have longer : (seen ++ [s]).Nodup := by
        refine List.nodup_append.mpr ⟨distinct, by simp, ?_⟩
        intro a inside b last same
        rw [List.mem_singleton] at last
        exact fresh (last ▸ same ▸ inside)
      obtain ⟨added, rfl, strings, all, each⟩ := (rest _ longer).mp success
      refine ⟨s :: added, by simp, by simp [read, strings], all, ?_⟩
      simpa [holds] using each
    · rintro ⟨added, rfl, strings, all, each⟩
      cases added with
      | nil => cases strings
      | cons s added =>
        obtain ⟨read, strings⟩ := List.cons.inj strings
        have longer : (seen ++ [s] ++ added).Nodup := by simpa using all
        have fresh : s ∉ seen := by
          intro inside
          exact (List.nodup_append.mp all).2.2 s inside s (List.mem_cons_self ..) rfl
        refine ⟨s, read, (), ⟨fresh, each s (List.mem_cons_self ..)⟩, ?_⟩
        refine (rest _ (List.Nodup.of_append_left longer)).mpr ⟨added, by simp, strings, all, ?_⟩
        exact fun a inside => each a (List.mem_cons_of_mem _ inside)

theorem stringsLoop_list {check : List Bytes → Bytes → Except Error Unit} {p : Bytes → Prop}
    (checks : ∀ seen s, check seen s = .ok () ↔ s ∉ seen ∧ p s) {items : Json (.body .array)}
    (nests : items.nesting ≤ maxNestingDepth) :
    stringsLoop check (items.entries.map fun e => e.2.text) [] = .ok list ↔
      StringList p (.box items) list := by
  have each : ∀ v ∈ items.entries.map Prod.snd, v.nesting ≤ maxNestingDepth := by
    intro v inside
    obtain ⟨e, member, rfl⟩ := List.mem_map.mp inside
    exact (Json.entries_nesting member).trans nests
  have texts : (items.entries.map fun e => e.2.text) = (items.entries.map Prod.snd).map Json.text := by simp
  rw [texts, stringsLoop_ok checks _ each [] List.nodup_nil]
  simp only [StringList, List.nil_append, List.map_map, Json.box.injEq, heq_eq_eq, true_and]
  constructor
  · rintro ⟨_, rfl, rest⟩
    exact ⟨items, rfl, rest⟩
  · rintro ⟨_, rfl, rest⟩
    exact ⟨list, rfl, rest⟩

theorem checkRepository_ok (seen : List Bytes) (s : Bytes) :
    checkRepository seen s = .ok () ↔ s ∉ seen ∧ Repokey.IsKey s := by
  simp [checkRepository, ← Repokey.valid_iff, ← contains_iff, and_comm]

theorem checkRedaction_ok (seen : List Bytes) (s : Bytes) :
    checkRedaction seen s = .ok () ↔ s ∉ seen ∧ s ∈ redactionClasses := by
  simp [checkRedaction, ← contains_iff]

theorem StringList.length_eq {p : Bytes → Prop} {items : Json (.body .array)}
    (strings : StringList p (.box items) list) : items.entries.length = list.length := by
  obtain ⟨_, same, texts, _⟩ := strings
  cases same
  simpa using congrArg List.length texts

theorem readAllowlist_text (nests : v.nesting ≤ maxNestingDepth) : Succeeds (readAllowlist v.text) ↔
      ∃ list, StringList Repokey.IsKey v list ∧ list.length ≤ maxRepositoryAllowlist := by
  simp only [readAllowlist, succeeds_bind, need_ok, require_ok, succeeds_pure, asArray_text nests,
    and_true, decide_eq_true_eq]
  constructor
  · rintro ⟨_, ⟨items, rfl, rfl⟩, _, bounded, list, read⟩
    have strings := (stringsLoop_list checkRepository_ok (box_nesting nests)).mp read
    refine ⟨list, strings, ?_⟩
    rw [← strings.length_eq]
    simpa using bounded
  · rintro ⟨list, strings, bounded⟩
    obtain ⟨items, rfl, -⟩ := id strings
    refine ⟨_, ⟨items, rfl, rfl⟩, (), ?_, list, ?_⟩
    · simpa [strings.length_eq] using bounded
    · exact (stringsLoop_list checkRepository_ok (box_nesting nests)).mpr strings

theorem readRedaction_text (nests : v.nesting ≤ maxNestingDepth) : Succeeds (readRedaction v.text) ↔
      ∃ list, StringList (fun s => s ∈ redactionClasses) v list := by
  simp only [readRedaction, succeeds_bind, need_ok, asArray_text nests]
  constructor
  · rintro ⟨_, ⟨items, rfl, rfl⟩, list, read⟩
    exact ⟨list, (stringsLoop_list checkRedaction_ok (box_nesting nests)).mp read⟩
  · rintro ⟨list, strings⟩
    obtain ⟨items, rfl, -⟩ := id strings
    exact ⟨_, ⟨items, rfl, rfl⟩, list, (stringsLoop_list checkRedaction_ok (box_nesting nests)).mpr strings⟩

theorem decodeObligations_text (nests : v.nesting ≤ maxNestingDepth) : Succeeds (decodeObligations v.text) ↔
      ∃ inner : Json (.body .object), v = .box inner ∧ ObligationsDocument inner := by
  simp only [decodeObligations, succeeds_bind, need_ok, require_ok, succeeds_pure, and_true,
    asObject_text nests, exists_and_right, exists_const, exists_ok]
  constructor
  · rintro ⟨_, ⟨inner, rfl, rfl⟩, names, tenant, one, scope, allowlist, redaction, assurance, stepUp⟩
    have deeper := box_nesting nests
    exact ⟨inner, rfl,
      { names := by simpa [keys_rawMembers, contains_iff] using names
        oneRepositoryMember := by simpa [get_rawMembers] using one
        tenant := (succeeds_optionally readTenant_text deeper).mp tenant
        scope := (succeeds_optionally readScope_text deeper).mp scope
        allowlist := (succeeds_optionally readAllowlist_text deeper).mp allowlist
        redaction := (succeeds_optionally readRedaction_text deeper).mp redaction
        assurance := (succeeds_optionally readAssurance_text deeper).mp assurance
        stepUp := (succeeds_optionally (fun _ => readStepUp_text) deeper).mp stepUp }⟩
  · rintro ⟨inner, rfl, document⟩
    have deeper := box_nesting nests
    refine ⟨_, ⟨inner, rfl, rfl⟩, ?_, ?_, ?_, ?_, ?_, ?_, ?_, ?_⟩
    · simpa [keys_rawMembers, contains_iff] using document.names
    · exact (succeeds_optionally readTenant_text deeper).mpr document.tenant
    · simpa [get_rawMembers] using document.oneRepositoryMember
    · exact (succeeds_optionally readScope_text deeper).mpr document.scope
    · exact (succeeds_optionally readAllowlist_text deeper).mpr document.allowlist
    · exact (succeeds_optionally readRedaction_text deeper).mpr document.redaction
    · exact (succeeds_optionally readAssurance_text deeper).mpr document.assurance
    · exact (succeeds_optionally (fun _ => readStepUp_text) deeper).mpr document.stepUp

/-! ## Decisions -/

theorem readPattern_member {pattern : Regex UInt8} {name s : Bytes} (nests : body.nesting ≤ maxNestingDepth) :
    readPattern pattern (member (rawMembers body) name) = .ok s ↔
      s ∈ pattern.lang ∧ namedString body name = some s := by
  simp only [readPattern, bind_ok, need_ok, require_ok, pure_ok, asString_member nests, Regex.accepts_iff]
  constructor
  · rintro ⟨_, found, _, fits, rfl⟩
    exact ⟨fits, found⟩
  · rintro ⟨fits, found⟩
    exact ⟨s, found, (), fits, rfl⟩

theorem readReason_member {allowed : Bool} {r : Reason} (nests : body.nesting ≤ maxNestingDepth) :
    readReason allowed (member (rawMembers body) (ascii "reason_code")) = .ok r ↔
      allowReason r = allowed ∧ (namedString body (ascii "reason_code")).bind wireReason = some r := by
  simp only [readReason, bind_ok, need_ok, require_ok, pure_ok, asString_member nests,
    Option.bind_eq_some_iff, beq_iff_eq]
  constructor
  · rintro ⟨code, found, _, known, _, same, rfl⟩
    exact ⟨same.symm, code, found, known⟩
  · rintro ⟨same, code, found, known⟩
    exact ⟨code, found, r, known, (), same.symm, rfl⟩

theorem wireReason_code {s : Bytes} {r : Reason} (known : wireReason s = some r) : s = ascii r.code := by
  unfold wireReason at known
  split at known
  · rename_i found
    cases known
    have same := List.find?_some found
    exact (beq_iff_eq.mp same).symm
  · have same := List.find?_some known
    exact (beq_iff_eq.mp same).symm

theorem allowReason_text {found : Option Bytes} :
    (∃ r, allowReason r = true ∧ found.bind wireReason = some r) ↔ ∃ s ∈ allowTexts, found = some s := by
  constructor
  · rintro ⟨r, allows, known⟩
    obtain ⟨s, rfl, known⟩ := Option.bind_eq_some_iff.mp known
    refine ⟨s, ?_, rfl⟩
    rw [wireReason_code known]
    cases r <;> first | decide +kernel | cases allows
  · rintro ⟨s, listed, rfl⟩
    simp only [allowTexts, List.mem_cons, List.not_mem_nil, or_false] at listed
    rcases listed with rfl | rfl | rfl | rfl
    · exact ⟨.allowedByMembershipDefault, by decide +kernel⟩
    · exact ⟨.allowedByRepositoryGrant, by decide +kernel⟩
    · exact ⟨.allowedByRole, by decide +kernel⟩
    · exact ⟨.allowedByPlatformAdmin, by decide +kernel⟩

theorem member_null :
    trimSpace (member (rawMembers body) name) = ascii "null" ↔ named body name = some .null := by
  rw [member_rawMembers]
  cases named body name with
  | none => exact ⟨fun same => absurd same (by decide), nofun⟩
  | some v =>
    simp only [Option.map_some, Option.getD_some, trimSpace_text, Option.some.injEq]
    constructor
    · intro same
      exact text_literal (Or.inl rfl) same
    · rintro rfl
      rfl

theorem readOrganization_member {found : Option Bytes} (nests : body.nesting ≤ maxNestingDepth) :
    readOrganization (member (rawMembers body) (ascii "organization_id")) = .ok found ↔
      (named body (ascii "organization_id") = some .null ∧ found = none) ∨
        ∃ s, s ≠ [] ∧ namedString body (ascii "organization_id") = some s ∧ found = some s := by
  rw [readOrganization]
  split_ifs with null
  · rw [member_null] at null
    simp [null, namedString, stringOf, eq_comm]
  · rw [member_null] at null
    simp only [bind_ok, need_ok, require_ok, pure_ok, asString_member nests, null, false_and, false_or]
    constructor
    · rintro ⟨s, read, _, some_bytes, rfl⟩
      exact ⟨s, by simpa using some_bytes, read, rfl⟩
    · rintro ⟨s, some_bytes, read, rfl⟩
      exact ⟨s, read, (), by simpa using some_bytes, rfl⟩

theorem parseRevision_member {n : Nat} : parseRevision (trimSpace (member (rawMembers body) name)) = some n ↔
      ∃ digits valid, named body name = some (.num digits valid) ∧
        digits ∈ integerToken.lang ∧ digitsValue digits < 2 ^ 63 ∧ n = digitsValue digits := by
  rw [parseRevision_iff, member_rawMembers]
  cases named body name with
  | none =>
    constructor
    · rintro ⟨token, -⟩
      exact absurd rfl (integerToken_digits token).1
    · rintro ⟨_, _, absent, -⟩
      cases absent
  | some v =>
    simp only [Option.map_some, Option.getD_some, trimSpace_text, Option.some.injEq]
    constructor
    · rintro ⟨token, rest⟩
      obtain ⟨digits, valid, rfl⟩ := num_of_digits (integerToken_digits token)
      exact ⟨digits, valid, rfl, token, rest⟩
    · rintro ⟨digits, valid, rfl, token, rest⟩
      exact ⟨token, rest⟩

theorem readExpiry_member {time : Time} (nests : body.nesting ≤ maxNestingDepth) :
    readExpiry (member (rawMembers body) (ascii "expires_at")) = .ok time ↔
      ∃ s ∈ expiresAtPattern.lang, namedString body (ascii "expires_at") = some s ∧
        parseRFC3339 s = some time ∧ time.WithinYears := by
  simp only [readExpiry, bind_ok, need_ok, asString_member nests, parseExpiry_iff]
  constructor
  · rintro ⟨s, read, fits, rest⟩
    exact ⟨s, fits, read, rest⟩
  · rintro ⟨s, fits, read, rest⟩
    exact ⟨s, read, fits, rest⟩

theorem readObligations_member (nests : body.nesting ≤ maxNestingDepth) :
    Succeeds (readObligations true ((rawMembers body).get (ascii "obligations"))) ↔
      ∀ v, named body (ascii "obligations") = some v →
        ∃ inner : Json (.body .object), v = .box inner ∧ ObligationsDocument inner := by
  rw [get_rawMembers]
  cases found : named body (ascii "obligations") with
  | none => simp [Succeeds, readObligations]
  | some v =>
    simp [readObligations, succeeds_bind, require_ok, exists_const,
      decodeObligations_text (named_nesting nests found), forall_eq']

theorem readOrganization_matches {org : Bytes} (nests : body.nesting ≤ maxNestingDepth) :
    (∃ found, readOrganization (member (rawMembers body) (ascii "organization_id")) = .ok found ∧
        (found.isSome == (org != []) && (found.isNone || found == some org)) = true) ↔
      (org = [] ∧ named body (ascii "organization_id") = some .null) ∨
        (org ≠ [] ∧ namedString body (ascii "organization_id") = some org) := by
  simp only [readOrganization_member nests]
  constructor
  · rintro ⟨found, ⟨null, rfl⟩ | ⟨s, -, read, rfl⟩, same⟩
    · exact Or.inl ⟨by simpa using same, null⟩
    · simp only [Option.isSome_some, Option.isNone_some, Bool.false_or, Bool.and_eq_true,
        beq_iff_eq, Option.some.injEq] at same
      obtain ⟨filled, rfl⟩ := same
      exact Or.inr ⟨by simpa using filled.symm, read⟩
  · rintro (⟨rfl, null⟩ | ⟨filled, read⟩)
    · exact ⟨none, Or.inl ⟨null, rfl⟩, rfl⟩
    · exact ⟨some org, Or.inr ⟨org, filled, read, rfl⟩, by simp [filled]⟩

theorem boolMember_iff {b : Bool} :
    (named body name).bind boolOf = some b ↔ named body name = some (.bool b) := by
  cases named body name with
  | none => simp
  | some v => cases v <;> simp [boolOf]

theorem decodeWire_allows (nests : body.nesting ≤ maxNestingDepth) :
    (∃ w, decodeWire (rawMembers body) req now = .ok w ∧ w.allowed = true) ↔
      AllowDocument req.organizationID body := by
  simp only [decodeWire, bind_ok, require_ok, need_ok, pure_ok, keysWithin_rawMembers,
    asString_member nests, readPattern_member nests, asBool_member, boolMember_iff,
    readReason_member nests, parseRevision_member, readExpiry_member nests]
  constructor
  · rintro ⟨w, ⟨_, keys, _, schema, decisionID, idRead, allowed, allowedRead, reason, reasonRead,
      principalID, principalRead, organization, organizationRead, revision,
      ⟨digits, valid, revisionRead, token, small, -⟩, expiresAt,
      ⟨text, inPattern, expiresRead, instant⟩, obligations, obligationsRead, _, same, rfl⟩,
      isAllowed⟩
    cases isAllowed
    exact
      { required := keys.1
        closed := by simpa using keys.2
        schema := by simpa using schema
        decisionID := ⟨decisionID, idRead⟩
        allowed := allowedRead
        reason := allowReason_text.mp ⟨reason, reasonRead⟩
        principalID := ⟨principalID, principalRead⟩
        organization := (readOrganization_matches nests).mp ⟨_, organizationRead, same⟩
        revision := ⟨digits, valid, revisionRead, token, small⟩
        expires := ⟨text, inPattern, expiresRead, expiresAt, instant⟩
        obligations := (readObligations_member nests).mp ⟨_, obligationsRead⟩ }
  · intro document
    obtain ⟨decisionID, idRead⟩ := document.decisionID
    obtain ⟨reason, reasonRead⟩ := allowReason_text.mpr document.reason
    obtain ⟨principalID, principalRead⟩ := document.principalID
    obtain ⟨organization, organizationRead, same⟩ :=
      (readOrganization_matches nests).mpr document.organization
    obtain ⟨digits, valid, revisionRead, token, small⟩ := document.revision
    obtain ⟨text, inPattern, expiresRead, expiresAt, instant⟩ := document.expires
    obtain ⟨obligations, obligationsRead⟩ := (readObligations_member nests).mpr document.obligations
    exact ⟨_, ⟨(), ⟨document.required, by simpa using document.closed⟩, (),
      by simpa using document.schema, decisionID, idRead, true, document.allowed, reason,
      reasonRead, principalID, principalRead, organization, organizationRead, _,
      ⟨digits, valid, revisionRead, token, small, rfl⟩, expiresAt,
      ⟨text, inPattern, expiresRead, instant⟩, obligations, obligationsRead, (), same, rfl⟩, rfl⟩

/-! ## The numbers of an allow -/

theorem memberNames_nodup (distinct : (Json.box body).NoRepeats fun a b => unquote a == unquote b) :
    (memberNames body).Nodup := by
  have apart := distinct.1
  rw [List.pairwise_map] at apart
  exact List.pairwise_map.mpr (apart.imp fun differ => by simpa using differ)

theorem allNumbers_of_string {s : Bytes} (string : stringOf v = some s) : v.AllNumbers p := by
  cases v with
  | str content valid => trivial
  | _ => cases string

theorem StringList.allNumbers {q : Bytes → Prop} (strings : StringList q v list) : v.AllNumbers p := by
  obtain ⟨items, rfl, texts, -⟩ := strings
  refine Json.allNumbers_of_entries (t := items) nofun ?_
  intro e inside
  have some_text : stringOf e.2 ∈ list.map some := texts ▸ List.mem_map.mpr ⟨e, inside, rfl⟩
  obtain ⟨s, -, string⟩ := List.mem_map.mp some_text
  exact allNumbers_of_string string.symm

theorem ObligationsDocument.allNumbers (document : ObligationsDocument body)
    (distinct : (Json.box body).NoRepeats fun a b => unquote a == unquote b) :
    (Json.box body).AllNumbers p := by
  refine Json.allNumbers_of_entries (t := body) nofun ?_
  rintro ⟨content, v⟩ inside
  have found := named_of_entry (memberNames_nodup distinct) inside
  have known := document.names _ (List.mem_map.mpr ⟨_, inside, rfl⟩)
  simp only [obligationNames, List.mem_cons, List.not_mem_nil, or_false] at known
  rcases known with name | name | name | name | name | name <;> rw [name] at found
  · obtain ⟨s, string, -⟩ := document.tenant v found
    exact allNumbers_of_string string
  · obtain ⟨list, strings, -⟩ := document.allowlist v found
    exact strings.allNumbers
  · exact allNumbers_of_string (document.scope v found)
  · obtain ⟨list, strings⟩ := document.redaction v found
    exact strings.allNumbers
  · obtain ⟨s, -, string⟩ := document.assurance v found
    exact allNumbers_of_string string
  · obtain ⟨b, rfl⟩ := document.stepUp v found
    trivial

theorem allNumbers_of_namedString {name s : Bytes} (string : namedString body name = some s)
    (found : named body name = some v) :
    v.AllNumbers p := by
  rw [namedString, found] at string
  exact allNumbers_of_string string

/-- The only number of an allow is its policy revision, and that one has a double. -/
theorem AllowDocument.allNumbers {org : Bytes} (document : AllowDocument org body)
    (distinct : (Json.box body).NoRepeats fun a b => unquote a == unquote b) :
    (Json.box body).AllNumbers fitsDouble := by
  refine Json.allNumbers_of_entries (t := body) nofun ?_
  rintro ⟨content, v⟩ inside
  have found := named_of_entry (memberNames_nodup distinct) inside
  have known := document.closed _ (List.mem_map.mpr ⟨_, inside, rfl⟩)
  simp only [requiredMembers, List.mem_cons, List.not_mem_nil, or_false] at known
  rcases known with (name | name | name | name | name | name | name | name) | name <;>
    rw [name] at found
  · exact allNumbers_of_namedString document.schema found
  · obtain ⟨s, -, string⟩ := document.decisionID
    exact allNumbers_of_namedString string found
  · have same := document.allowed
    rw [found] at same
    cases same
    trivial
  · obtain ⟨s, -, string⟩ := document.reason
    exact allNumbers_of_namedString string found
  · obtain ⟨s, -, string⟩ := document.principalID
    exact allNumbers_of_namedString string found
  · rcases document.organization with ⟨-, null⟩ | ⟨-, string⟩
    · rw [found] at null
      cases null
      trivial
    · exact allNumbers_of_namedString string found
  · obtain ⟨digits, valid, same, token, small⟩ := document.revision
    rw [found] at same
    cases same
    exact fitsDouble_integer (integerToken_digits token).2 small
  · obtain ⟨s, -, string, -⟩ := document.expires
    exact allNumbers_of_namedString string found
  · obtain ⟨inner, rfl, obligations⟩ := document.obligations v found
    exact obligations.allNumbers (Json.noRepeats_entry distinct.2 inside)

/-! ## The whole reader -/

theorem fromWire_allowed (w : Wire) : (fromWire w).allowed = (w.allowed && allowReason w.reason) := by
  rw [fromWire]
  cases w.allowed <;> cases allowReason w.reason <;> rfl

theorem obligations_of_not_allowed_wire (w : Wire) (refused : (fromWire w).allowed = false) :
    (fromWire w).obligations = Obligations.zero := by
  rw [fromWire] at refused ⊢
  split_ifs at refused ⊢ <;> first | rfl | simp_all

theorem decodeWire_reason {o : RawObject} {w : Wire} (read : decodeWire o req now = .ok w) :
    w.allowed = allowReason w.reason := by
  simp only [decodeWire, readReason, bind_ok, require_ok, pure_ok] at read
  obtain ⟨_, _, _, _, _, _, _, _, _, ⟨_, _, _, _, _, same, rfl⟩, _, _, _, _, _, _, _, _, _, _, _, _,
    rfl⟩ := read
  simpa using same

theorem decodeDecision_allowed {o : RawObject} : (decodeDecision o req now).allowed = true ↔
      ∃ w, decodeWire o req now = .ok w ∧ w.allowed = true := by
  rw [decodeDecision]
  cases read : decodeWire o req now with
  | error e => simp
  | ok w =>
    have same := decodeWire_reason read
    simp [fromWire_allowed, ← same]

theorem decodeDecision_obligations {o : RawObject} (refused : (decodeDecision o req now).allowed = false) :
    (decodeDecision o req now).obligations = Obligations.zero := by
  rw [decodeDecision] at refused ⊢
  cases read : decodeWire o req now with
  | error e => rfl
  | ok w =>
    rw [read] at refused
    exact obligations_of_not_allowed_wire w refused

theorem parseDecision_obligations {bytes : Bytes} (refused : (parseDecision bytes req now).allowed = false) :
    (parseDecision bytes req now).obligations = Obligations.zero := by
  rw [parseDecision] at refused ⊢
  cases rejected : rejectDuplicates bytes with
  | true => rfl
  | false =>
    cases read : asObject bytes with
    | none => rfl
    | some o =>
      simp only [rejected, read, Bool.false_eq_true, if_false] at refused ⊢
      exact decodeDecision_obligations refused

theorem asObject_trim {lead trail : Bytes} (leadBlank : IsBlank lead) (trailBlank : IsBlank trail) :
    asObject (lead ++ (t.text ++ trail)) = asObject t.text := by
  simp only [asObject, trimSpace_value leadBlank trailBlank, trimSpace_text]

theorem parseDecision_document {lead trail : Bytes} (leadBlank : IsBlank lead)
    (trailBlank : IsBlank trail) (strict : Strict (· == ·) maxDepth 0 t) :
    (parseDecision (lead ++ (t.text ++ trail)) req now).allowed = true ↔
      ∃ members : Json (.body .object), t = .box members ∧ AllowDocument req.organizationID members := by
  have accepted : rejectDuplicates (lead ++ (t.text ++ trail)) = false :=
    (rejectDuplicates_iff _).mpr ⟨lead, t, trail, rfl, leadBlank, trailBlank, strict⟩
  have nests := nesting_of_depth strict.depth
  rw [parseDecision, accepted, asObject_trim leadBlank trailBlank]
  cases read : asObject t.text with
  | none =>
    simp only [Bool.false_eq_true, if_false, deny_allowed, false_iff]
    rintro ⟨members, rfl, -⟩
    have found := (asObject_text nests).mpr ⟨members, rfl, rfl⟩
    rw [read] at found
    cases found
  | some o =>
    obtain ⟨members, rfl, rfl⟩ := (asObject_text nests).mp read
    simp only [Bool.false_eq_true, if_false, decodeDecision_allowed, decodeWire_allows (box_nesting nests)]
    constructor
    · intro document
      exact ⟨members, rfl, document⟩
    · rintro ⟨_, same, document⟩
      cases same
      exact document

theorem parseDecision_allowed {bytes : Bytes} :
    (parseDecision bytes req now).allowed = true ↔ ExactAllow bytes req.organizationID := by
  constructor
  · intro allows
    have accepted : rejectDuplicates bytes = false := by
      cases rejected : rejectDuplicates bytes with
      | false => rfl
      | true => simp [parseDecision, rejected] at allows
    obtain ⟨lead, t, trail, rfl, leadBlank, trailBlank, strict⟩ :=
      (rejectDuplicates_iff bytes).mp accepted
    obtain ⟨members, rfl, document⟩ :=
      (parseDecision_document leadBlank trailBlank strict).mp allows
    exact ⟨members, ⟨lead, trail, rfl, leadBlank, trailBlank, strict.depth, strict.names⟩, document⟩
  · rintro ⟨members, ⟨lead, trail, rfl, leadBlank, trailBlank, depth, distinct⟩, document⟩
    have strict : Strict (· == ·) maxDepth 0 (Json.box members) :=
      ⟨depth, (Nat.zero_add _).trans_le (nesting_of_depth depth), distinct, document.allNumbers distinct⟩
    exact (parseDecision_document leadBlank trailBlank strict).mpr ⟨members, rfl, document⟩

/-- A decision allows if and only if the document is exact; every other decision
carries obligations that grant nothing. -/
theorem parseDecision_exact (bytes : Bytes) (req : Request) (now : Time) :
    ((parseDecision bytes req now).allowed = true ↔ ExactAllow bytes req.organizationID) ∧
      ((parseDecision bytes req now).allowed = false →
        (∀ org, (parseDecision bytes req now).obligations.tenantAllows org = false) ∧
        (∀ key, (parseDecision bytes req now).obligations.repositoryAllowed key = false) ∧
        ∀ level, (parseDecision bytes req now).obligations.assuranceSatisfiedBy level = false) := by
  refine ⟨parseDecision_allowed, ?_⟩
  intro refused
  apply Obligations.checks_of_not_granted
  rw [parseDecision_obligations refused]
  rfl

end DevHealth.Pep

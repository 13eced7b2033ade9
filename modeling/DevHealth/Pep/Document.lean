import DevHealth.Pep.Wire
import DevHealth.RepokeyLaws

/-! # Which documents allow

A decision document in terms of its syntax tree: `AllowDocument` lists what the
contract asks of the members of an allow.  The readers of `Wire` work on raw
bytes; the equations below give their values on the text of a tree. -/
set_option autoImplicit false
namespace DevHealth.Pep

open Go Lib

/-! ## The contract -/

/-- A list of distinct strings with a property. -/
def StringList (p : Bytes → Prop) (v : Json .value) (list : List Bytes) : Prop :=
  ∃ items : Json (.body .array), v = .box items ∧
    items.entries.map (fun e => stringOf e.2) = list.map some ∧ list.Nodup ∧ ∀ s ∈ list, p s

/-- Obligations made only of known, well-formed members. -/
structure ObligationsDocument (body : Json (.body .object)) : Prop where
  names : ∀ name ∈ memberNames body, name ∈ obligationNames
  oneRepositoryMember : named body (ascii "repository_scope") = none ∨
    named body (ascii "repository_allowlist") = none
  tenant : ∀ v, named body (ascii "tenant_scope") = some v → ∃ s, stringOf v = some s ∧ s ≠ []
  scope : ∀ v, named body (ascii "repository_scope") = some v →
    stringOf v = some scopeOrganization
  allowlist : ∀ v, named body (ascii "repository_allowlist") = some v →
    ∃ list, StringList Repokey.IsKey v list ∧
      list.length ≤ maxRepositoryAllowlist
  redaction : ∀ v, named body (ascii "redaction") = some v →
    ∃ list, StringList (fun s => s ∈ redactionClasses) v list
  assurance : ∀ v, named body (ascii "minimum_assurance") = some v →
    ∃ s ∈ assuranceLevels, stringOf v = some s
  stepUp : ∀ v, named body (ascii "step_up") = some v → ∃ b, v = .bool b

def allowTexts : List Bytes :=
  [ascii "allowed_by_membership_default", ascii "allowed_by_repository_grant", ascii "allowed_by_role",
    ascii "allowed_by_platform_admin"]

/-- The members of a document that allows a request of this organization. -/
structure AllowDocument (organizationID : Bytes) (body : Json (.body .object)) : Prop where
  required : ∀ name ∈ requiredMembers, name ∈ memberNames body
  closed : ∀ name ∈ memberNames body, name ∈ requiredMembers ∨ name = ascii "obligations"
  schema : namedString body (ascii "schema_version") = some decisionSchema
  decisionID : ∃ s ∈ decisionIDPattern.lang, namedString body (ascii "decision_id") = some s
  allowed : named body (ascii "allowed") = some (.bool true)
  reason : ∃ s ∈ allowTexts, namedString body (ascii "reason_code") = some s
  principalID : ∃ s ∈ principalIDPattern.lang, namedString body (ascii "principal_id") = some s
  organization : (organizationID = [] ∧ named body (ascii "organization_id") = some .null) ∨
    (organizationID ≠ [] ∧ namedString body (ascii "organization_id") = some organizationID)
  revision : ∃ digits valid, named body (ascii "policy_revision") = some (.num digits valid) ∧
    digits ∈ integerToken.lang ∧ digitsValue digits < 2 ^ 63
  expires : ∃ s ∈ expiresAtPattern.lang, namedString body (ascii "expires_at") = some s ∧
    ∃ t, parseRFC3339 s = some t ∧ t.WithinYears
  obligations : ∀ v, named body (ascii "obligations") = some v →
    ∃ inner : Json (.body .object), v = .box inner ∧ ObligationsDocument inner

/-- The bytes are one object with only white space around it, no deeper than the bound
and with no repeated name. -/
def DocumentText (bytes : Bytes) (members : Json (.body .object)) : Prop :=
  ∃ lead trail, bytes = lead ++ ((Json.box members).text ++ trail) ∧ IsBlank lead ∧
    IsBlank trail ∧ (Json.box members).depth ≤ maxDepth ∧
    (Json.box members).NoRepeats fun a b => unquote a == unquote b

/-- The text of an object whose members allow. -/
def ExactAllow (bytes : Bytes) (organizationID : Bytes) : Prop :=
  ∃ members, DocumentText bytes members ∧ AllowDocument organizationID members

/-! ## The readers on the text of a tree -/

theorem head_text_string {t : Json .value} (head : t.text.head? = some 0x22) :
    ∃ content valid, t = .str content valid := by
  cases t with
  | str content valid => exact ⟨content, valid, rfl⟩
  | null => cases head
  | bool b => cases b <;> cases head
  | num digits valid =>
    obtain ⟨b, s, rfl, lead⟩ := head_of_number valid
    cases head
    exact absurd lead (by decide)
  | @box b body => cases b <;> cases head

theorem head_text_box {t : Json .value} {b : Box} (head : t.text.head? = some b.opens) :
    ∃ body : Json (.body b), t = .box body := by
  cases t with
  | @box other body =>
    have same : other = b := by cases b <;> cases other <;> first | rfl | cases head
    subst same
    exact ⟨body, rfl⟩
  | str content valid => cases b <;> cases head
  | null => cases b <;> cases head
  | bool x => cases b <;> cases x <;> cases head
  | num digits valid =>
    obtain ⟨c, s, rfl, lead⟩ := head_of_number valid
    cases b <;> cases head <;> exact absurd lead (by decide)

variable {t : Json .value}

theorem asString_text (nests : t.nesting ≤ maxNestingDepth) : asString t.text = stringOf t := by
  simp only [asString, trimSpace_text]
  split_ifs with head
  · obtain ⟨content, valid, rfl⟩ := head_text_string head
    simp [unmarshalString, scanDocument_value _ nests, shapeOf, stringOf]
  · cases t with
    | str content valid => exact absurd rfl head
    | _ => rfl

theorem asBox_text {α : Type} {b : Box} {unmarshal : Bytes → Option α}
    {elements : Json (.body b) → α} {out : α} (nests : t.nesting ≤ maxNestingDepth)
    (reads : ∀ body : Json (.body b), (Json.box body).nesting ≤ maxNestingDepth →
      unmarshal (Json.box body).text = some (elements body)) :
    (if (trimSpace t.text).head? = some b.opens then unmarshal (trimSpace t.text) else none) = some out ↔
      ∃ body : Json (.body b), t = .box body ∧ out = elements body := by
  rw [trimSpace_text]
  constructor
  · intro success
    split_ifs at success with head
    obtain ⟨body, rfl⟩ := head_text_box head
    rw [reads body nests] at success
    exact ⟨body, rfl, (Option.some.inj success).symm⟩
  · rintro ⟨body, rfl, rfl⟩
    have head : (Json.box body).text.head? = some b.opens := rfl
    rw [if_pos head, reads body nests]

theorem asObject_text (nests : t.nesting ≤ maxNestingDepth) {o : RawObject} : asObject t.text = some o ↔
      ∃ body : Json (.body .object), t = .box body ∧ o = rawMembers body := by
  refine asBox_text (b := .object) nests ?_
  intro body nests
  simp [unmarshalObject, scanDocument_value _ nests, shapeOf, rawEntries, rawMembers]

theorem asArray_text (nests : t.nesting ≤ maxNestingDepth) {items : List RawMessage} :
    asArray t.text = some items ↔
      ∃ body : Json (.body .array), t = .box body ∧ items = body.entries.map fun e => e.2.text := by
  refine asBox_text (b := .array) nests ?_
  intro body nests
  simp [unmarshalArray, scanDocument_value _ nests, shapeOf, rawEntries]

theorem text_literal {x : Json .value} (literal : x = .null ∨ ∃ b, x = .bool b)
    (same : t.text = x.text) : t = x := by
  cases t with
  | null => rcases literal with rfl | ⟨_ | _, rfl⟩ <;> first | rfl | exact absurd same (by decide)
  | bool b =>
    rcases literal with rfl | ⟨_ | _, rfl⟩ <;> cases b <;> first | rfl | exact absurd same (by decide)
  | str content valid => rcases literal with rfl | ⟨_ | _, rfl⟩ <;> cases same
  | @box b body => rcases literal with rfl | ⟨_ | _, rfl⟩ <;> cases b <;> cases same
  | num digits valid =>
    obtain ⟨c, s, rfl, lead⟩ := head_of_number valid
    rcases literal with rfl | ⟨_ | _, rfl⟩ <;> cases same <;> exact absurd lead (by decide)

theorem asBool_text : asBool t.text = boolOf t := by
  simp only [asBool, trimSpace_text]
  split_ifs with isTrue isFalse
  · have same : t = .bool true := text_literal (Or.inr ⟨true, rfl⟩) isTrue
    rw [same]
    rfl
  · have same : t = .bool false := text_literal (Or.inr ⟨false, rfl⟩) isFalse
    rw [same]
    rfl
  · cases t with
    | bool b =>
      cases b
      · exact absurd rfl isFalse
      · exact absurd rfl isTrue
    | _ => rfl

/-! ## The members of an object -/

variable {body : Json (.body .object)} {name : Bytes}

theorem member_rawMembers (body : Json (.body .object)) (name : Bytes) :
    member (rawMembers body) name = ((named body name).map Json.text).getD [] := by
  rw [member, get_rawMembers]

theorem asString_member (nests : body.nesting ≤ maxNestingDepth) :
    asString (member (rawMembers body) name) = namedString body name := by
  rw [member_rawMembers, namedString]
  cases found : named body name with
  | none => rfl
  | some v => exact asString_text (named_nesting nests found)

theorem asBool_member : asBool (member (rawMembers body) name) = (named body name).bind boolOf := by
  rw [member_rawMembers]
  cases named body name with
  | none => rfl
  | some v => exact asBool_text

theorem keysWithin_rawMembers {required optional : List Bytes} :
    keysWithin (rawMembers body) required optional = true ↔ (∀ k ∈ required, k ∈ memberNames body) ∧
        ∀ k ∈ memberNames body, k ∈ required ∨ k ∈ optional := by
  simp [keysWithin, get_rawMembers, keys_rawMembers, contains_iff, isSome_named]

end DevHealth.Pep

import DevHealth.Go.Strings
import DevHealth.Go.Utf8
import DevHealth.Lib.Fallible

/-! # The key of a token request

`requestKey`: the audience and the scope actions, checked, and the key under which the
client keeps their token.  Neither part can hold a space, so that the key says which
audience and which actions it is for. -/
set_option autoImplicit false
namespace DevHealth.Workloadtoken

open Go Lib

def maxAudienceBytes : Nat := 64
def maxScopeActions : Nat := 64
def maxActionBytes : Nat := 128

def printable (value : Bytes) : Bool :=
  (runes value).all fun r => !(decide (r ≤ 32) || decide (0x7F ≤ r))

/-- The two tests `requestKey` makes of a part: the audience, and each action. -/
def validPart (limit : Nat) (value : Bytes) : Bool :=
  !(value == [] || decide (limit < value.length) || !printable value)

def requestKey (audience : Bytes) (scope : List Bytes) : Except String (Bytes × List Bytes) := do
  ensure (validPart maxAudienceBytes audience)
    "workloadtoken: the audience must be 1 to 64 printable characters without spaces"
  ensure (!decide (maxScopeActions < scope.length)) "workloadtoken: too many scope actions"
  ensure (scope.all (validPart maxActionBytes))
    "workloadtoken: a scope action must be 1 to 128 printable characters without spaces"
  let actions := compact (sortStrings scope)
  return (audience ++ ascii " " ++ join (ascii " ") actions, actions)

/-- An audience and a scope that `requestKey` accepts, with what it returns. -/
structure Request where
  audience : Bytes
  scope : List Bytes
  key : Bytes
  actions : List Bytes
  keyed : requestKey audience scope = .ok (key, actions)
  deriving DecidableEq

def Request.of (audience : Bytes) (scope : List Bytes) : Except String Request :=
  match keyed : requestKey audience scope with
  | .error e => .error e
  | .ok (key, actions) => .ok ⟨audience, scope, key, actions, keyed⟩

/-! ## What the key tells -/

def space : UInt8 := 0x20

theorem printable_bytes {value : Bytes} (holds : printable value = true) : space ∉ value := by
  intro inside
  have small : ∀ r : Nat, (!(decide (r ≤ 32) || decide (0x7F ≤ r))) = true → r < 0x80 := by
    intro r passes
    simp only [Bool.not_eq_true', Bool.or_eq_false_iff, decide_eq_false_iff_not] at passes
    omega
  rw [printable, runes_all_ascii small, List.all_eq_true] at holds
  exact absurd (holds space inside) (by decide)

theorem validPart_legible {limit : Nat} {value : Bytes} (valid : validPart limit value = true) :
    Legible space value := by
  simp only [validPart, Bool.not_eq_true', Bool.or_eq_false_iff, beq_eq_false_iff_ne,
    Bool.not_eq_false'] at valid
  exact ⟨valid.1.1, printable_bytes valid.2⟩

theorem requestKey_ok {audience key : Bytes} {scope actions : List Bytes} :
    requestKey audience scope = .ok (key, actions) ↔
      validPart maxAudienceBytes audience = true ∧ scope.length ≤ maxScopeActions ∧
        (∀ action ∈ scope, validPart maxActionBytes action = true) ∧
        actions = compact (sortStrings scope) ∧
        key = audience ++ space :: join [space] actions := by
  have mark : ascii " " = [space] := by decide
  simp only [requestKey, bind_ok, ensure_ok, pure_ok, mark]
  constructor
  · rintro ⟨_, audienceValid, _, short, _, each, same⟩
    cases same
    refine ⟨audienceValid, ?_, ?_, rfl, by simp⟩
    · simpa using short
    · simpa using each
  · rintro ⟨audienceValid, short, each, rfl, rfl⟩
    refine ⟨(), audienceValid, (), ?_, (), ?_, by simp⟩
    · simpa using short
    · simpa using each

namespace Request

variable (r r' : Request)

theorem mem_actions (action : Bytes) : action ∈ r.actions ↔ action ∈ r.scope := by
  rw [(requestKey_ok.mp r.keyed).2.2.2.1, mem_compact, mem_sortStrings]

theorem audience_legible : Legible space r.audience := validPart_legible (requestKey_ok.mp r.keyed).1

theorem actions_legible : ∀ action ∈ r.actions, Legible space action := by
  intro action sent
  exact validPart_legible ((requestKey_ok.mp r.keyed).2.2.1 action ((r.mem_actions action).mp sent))

theorem key_eq : r.key = r.audience ++ space :: join [space] r.actions := (requestKey_ok.mp r.keyed).2.2.2.2

variable {r r'}

theorem key_inj (same : r.key = r'.key) : r.audience = r'.audience ∧ r.actions = r'.actions := by
  rw [r.key_eq, r'.key_eq] at same
  obtain ⟨audience, joined⟩ := append_mark_inj r.audience_legible.2 r'.audience_legible.2 same
  exact ⟨audience, join_inj r.actions_legible r'.actions_legible joined⟩

theorem scope_of_key (same : r.key = r'.key) (action : Bytes) : action ∈ r.scope ↔ action ∈ r'.scope := by
  rw [← r.mem_actions, ← r'.mem_actions, (key_inj same).2]

variable (r) in
theorem actions_sorted : r.actions.Pairwise (· < ·) := by
  rw [(requestKey_ok.mp r.keyed).2.2.2.1]
  exact compact_sorted (sorted_sortStrings r.scope)

/-- The key is that of the audience and the set of actions, and the actions are that set in
strict order. -/
theorem key_canonical (r r' : Request) :
    (r.key = r'.key ↔ r.audience = r'.audience ∧ ∀ action, action ∈ r.scope ↔ action ∈ r'.scope) ∧
      r.actions.Pairwise (· < ·) ∧ ∀ action, action ∈ r.actions ↔ action ∈ r.scope := by
  refine ⟨⟨?_, ?_⟩, r.actions_sorted, r.mem_actions⟩
  · intro same
    exact ⟨(key_inj same).1, scope_of_key same⟩
  · intro both
    obtain ⟨audience, scope⟩ := both
    have actions : r.actions = r'.actions := by
      apply sorted_ext r.actions_sorted r'.actions_sorted
      intro action
      rw [r.mem_actions, r'.mem_actions]
      exact scope action
    rw [r.key_eq, r'.key_eq, audience, actions]

end Request
end DevHealth.Workloadtoken

import DevHealth.Authverify.Document
import DevHealth.Authverify.WorkloadToken
import DevHealth.Workloadtoken.Check

/-! # The documents inside a workload token

Client and verifier read the header and the claims with two parsers of their own.  Both
are described by the same predicates on the syntax tree of the document; here is the side
of the client. -/
set_option autoImplicit false
namespace DevHealth.Workloadtoken

open Go Lib
open Authverify (Shallow DateMember Document NamesApart Plain number_nonempty)

variable {body : Json (.body .object)} {name : Bytes} {raw : Bytes}

/-! ## Members -/

/-- The client reads `null` as an empty string, so only a text that is not empty shows
that a string was there. -/
theorem memberText_iff (shallow : Shallow body) {s : Bytes} (filled : s ≠ []) :
    memberText (rawMembers body) name = some s ↔ namedString body name = some s := by
  rw [memberText, get_rawMembers, namedString]
  cases found : named body name with
  | none => rfl
  | some v =>
    have read := scanDocument_value v (shallow.named found)
    simp only [Option.map_some, Option.bind_some, unmarshalString, read]
    cases v with
    | null => simp [shapeOf, stringOf, filled.symm]
    | str content valid => rfl
    | @box b inner => cases b <;> rfl
    | _ => rfl

/-! ## Dates -/

theorem head_of_json_ne_plus (v : Json .value) {rest : Bytes} : v.text ≠ 0x2B :: rest := by
  cases v with
  | num digits valid =>
    obtain ⟨b, s, rfl, lead⟩ := head_of_number valid
    rintro same
    cases same
    exact absurd lead (by decide)
  | @box b inner => cases b <;> exact nofun
  | bool b => cases b <;> exact nofun
  | _ => exact nofun

theorem parseInt_text {v : Json .value} {n : Int} (read : parseInt v.text = some n) (positive : 1 ≤ n) :
    ∃ digits valid, v = .num digits valid ∧ (∀ b ∈ digits, isDigit b = true) ∧
      (digitsValue digits : Int) = n := by
  have digits : v.text ≠ [] ∧ ∀ b ∈ v.text, isDigit b = true := by
    cases split : v.text with
    | nil =>
      rw [split] at read
      cases read
    | cons b rest =>
      rw [split] at read
      have notPlus : b ≠ 0x2B := by
        rintro rfl
        exact head_of_json_ne_plus v split
      simp only [parseInt, notPlus, if_false] at read
      split_ifs at read with minus
      · obtain ⟨m, -, limited⟩ := Option.bind_eq_some_iff.mp read
        split_ifs at limited
        cases limited
        omega
      · obtain ⟨m, parsed, -⟩ := Option.bind_eq_some_iff.mp read
        simp only [parseDigits] at parsed
        split_ifs at parsed with all
        exact ⟨all.1, List.all_eq_true.mp all.2⟩
  obtain ⟨ds, valid, rfl⟩ := num_of_digits digits
  refine ⟨ds, valid, rfl, digits.2, ?_⟩
  rw [parseInt_digits digits.1 digits.2] at read
  split_ifs at read
  exact Option.some.inj read

theorem readDate_iff {name : String} {n : Int} :
    readDate (rawMembers body) name = .ok n ↔ DateMember body (ascii name) n := by
  simp only [readDate, bind_ok, obtainOr_ok, ensure_ok, pure_ok, Bool.and_eq_true,
    decide_eq_true_eq, get_rawMembers]
  constructor
  · rintro ⟨value, read, _, ⟨low, high⟩, rfl⟩
    cases found : named body (ascii name) with
    | none =>
      rw [found] at read
      cases read
    | some v =>
      simp only [found, Option.map_some, Option.getD_some, trimSpace_text] at read
      obtain ⟨digits, valid, rfl, all, same⟩ := parseInt_text read low
      exact ⟨digits, valid, found, all, same, low, high⟩
  · rintro ⟨digits, valid, found, all, rfl, low, high⟩
    refine ⟨_, ?_, (), ⟨low, high⟩, rfl⟩
    have filled := number_nonempty valid
    have small : digitsValue digits < 2 ^ 63 := by
      simp only [Authverify.maxNumericDate] at high
      omega
    rw [found, Option.map_some, Option.getD_some, trimSpace_text]
    show parseInt digits = _
    rw [parseInt_digits filled all, if_pos small]

/-! ## Documents -/

/-- The client's reader: distinct members, as many as there are names, and all of these. -/
theorem uniqueObject_document {names : List Bytes} (distinct : names.Nodup) {members : RawObject} :
    (uniqueObject raw = some members ∧ members.length = names.length ∧
        ∀ name ∈ names, (members.get name).isSome = true) ↔
      ∃ body, Document names raw body ∧ Shallow body ∧ members = rawMembers body := by
  rw [uniqueObject_iff]
  constructor
  · rintro ⟨⟨lead, body, trail, text, leadBlank, trailBlank, apart, shallow, rfl⟩, count, present⟩
    refine ⟨body, ⟨⟨lead, trail, text, leadBlank, trailBlank⟩, ?_⟩, shallow, rfl⟩
    have inside : names ⊆ memberNames body := by
      intro name member
      rw [← keys_rawMembers]
      exact RawObject.isSome_get.mp (present name member)
    have length : (memberNames body).length ≤ names.length := by
      rw [← count]
      simp [memberNames, rawMembers]
    exact ((List.subperm_of_subset distinct inside).perm_of_length_le length).symm
  · rintro ⟨body, document, shallow, rfl⟩
    obtain ⟨lead, trail, text, leadBlank, trailBlank⟩ := document.text
    refine ⟨⟨lead, body, trail, text, leadBlank, trailBlank,
      document.members.nodup_iff.mpr distinct, shallow, rfl⟩, ?_, ?_⟩
    · have length := document.members.length_eq
      simpa [memberNames, rawMembers] using length
    · intro name inside
      obtain ⟨v, found⟩ := document.named_some inside
      simp [get_rawMembers, found]

end DevHealth.Workloadtoken

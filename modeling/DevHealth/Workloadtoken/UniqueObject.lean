import DevHealth.Go.JsonDecode

/-! # Objects with distinct members

The token client reads an object token by token and decodes each member as it comes, so
that a repeated name is seen.  `uniqueObject_iff` says what it accepts: one object with
white space around it whose names are all different. -/
set_option autoImplicit false
namespace DevHealth.Workloadtoken

open Go Lib

def membersLoop : Nat → RawObject → Decoder → Option (RawObject × Decoder)
  | 0, members, d => if d.more then none else some (members, d)
  | fuel + 1, members, d =>
    if d.more then
      match d.token with
      | .ok (.scalar (.str content), d) =>
        if (members.get (unquote content)).isSome then none
        else
          match d.decode with
          | some (_, raw, d) => membersLoop fuel (members ++ [(unquote content, raw)]) d
          | none => none
      | _ => none
    else some (members, d)

def uniqueObject (raw : Bytes) : Option RawObject :=
  match (Decoder.start raw).token with
  | .ok (.opens .object, d) =>
    match membersLoop d.rest.length [] d with
    | some (members, d) =>
      match d.token with
      | .ok (.closes .object, d) => if d.atEnd then some members else none
      | _ => none
    | none => none
  | _ => none

/-! ## What is left of an object -/

/-- All of it right after the opening bracket, or what follows a member. -/
def restKind : TokenState → Kind
  | .objectStart => .body .object
  | _ => .tail .object

variable {members : RawObject} {state : TokenState} {fuel : Nat}

theorem rest_close {gap : Bytes} (blank : IsBlank gap) :
    ∃ t : Json (restKind state), t.text = gap ++ [Box.object.closes] ∧ t.entries = [] := by
  cases state with
  | objectStart => exact ⟨.empty gap blank, rfl, rfl⟩
  | _ => exact ⟨.close gap blank, rfl, rfl⟩

theorem rest_cons {d : Decoder} {before lead : Bytes} (place : NamePlace d before)
    (label : Label .object) (blank : IsBlank lead) (value : Json .value)
    (tail : Json (.tail .object)) :
    ∃ t : Json (restKind d.state), t.text = before ++ (label.text ++ (lead ++ (value.text ++ tail.text))) ∧
        t.entries = (label.content, value) :: tail.entries := by
  rcases place with ⟨start, rfl⟩ | ⟨between, gap, gapBlank, rfl⟩
  · rw [start]
    exact ⟨.first label lead blank value tail, rfl, rfl⟩
  · rw [between]
    exact ⟨.next gap gapBlank label lead blank value tail, by simp [Json.text], rfl⟩

/-- The rest of an object, read from `d` to `after`, and the members it adds. -/
structure RestRead (d after : Decoder) (members out : RawObject) (t : Json (restKind d.state)) :
    Prop where
  text : d.rest = t.text ++ after.rest
  added : out = members ++ rawMembers t
  distinct : out.keys.Nodup
  nests : ∀ e ∈ t.entries, e.2.nesting ≤ maxNestingDepth

variable {outer : TokenState} {stack : List TokenState} {after : Decoder}

theorem members_closed {d : Decoder} (ended : d.more = false)
    (inside : d.state = .objectStart ∨ d.state = .objectComma) (around : d.stack = outer :: stack)
    (distinct : members.keys.Nodup) (closed : d.token = .ok (.closes .object, after)) :
    after.state = outer.valueEnd ∧ ∃ t, RestRead d after members members t := by
  have place : d.state = boxStart .object ∨ d.state = boxComma .object := inside
  obtain ⟨gap, r, blank, text, rfl⟩ := token_close_inv ended place around closed
  obtain ⟨t, same, entries⟩ : ∃ t : Json (restKind d.state), _ := rest_close blank
  refine ⟨rfl, t, ?_, ?_, distinct, ?_⟩
  · rw [text, same]
    simp
  · simp [rawMembers, entries]
  · simp [entries]

theorem membersRound_inv {members out : RawObject} {d last : Decoder} (more : d.more = true)
    (success : membersLoop (fuel + 1) members d = some (out, last)) :
    ∃ content named shape raw next, d.token = .ok (.scalar (.str content), named) ∧
      unquote content ∉ members.keys ∧ named.decode = some (shape, raw, next) ∧
      membersLoop fuel (members ++ [(unquote content, raw)]) next = some (out, last) := by
  simp only [membersLoop, more, if_true] at success
  split at success
  · rename_i content named read
    split_ifs at success with seen
    split at success
    · rename_i shape raw next decoded
      exact ⟨content, named, shape, raw, next, read, mt RawObject.isSome_get.mpr seen, decoded, success⟩
    · cases success
  · cases success

theorem keys_nodup_append {name : Bytes} (distinct : members.keys.Nodup)
    (fresh : name ∉ members.keys) (raw : RawMessage) :
    (RawObject.keys (members ++ [(name, raw)])).Nodup := by
  have same : RawObject.keys (members ++ [(name, raw)]) = members.keys ++ [name] := by
    simp [RawObject.keys]
  rw [same, ← List.concat_eq_append]
  exact distinct.concat fresh

theorem membersLoop_sound (fuel : Nat) :
    ∀ {members out : RawObject} {d last : Decoder}, d.stack = outer :: stack →
      (d.state = .objectStart ∨ d.state = .objectComma) → members.keys.Nodup →
      membersLoop fuel members d = some (out, last) →
      last.token = .ok (.closes .object, after) →
      after.state = outer.valueEnd ∧ ∃ t, RestRead d after members out t := by
  induction fuel with
  | zero =>
    intro members out d last around inside distinct success closed
    cases more : d.more with
    | true => simp [membersLoop, more] at success
    | false =>
      simp only [membersLoop, more, Bool.false_eq_true, if_false] at success
      cases success
      exact members_closed more inside around distinct closed
  | succ fuel ih =>
    intro members out d last around inside distinct success closed
    cases more : d.more with
    | false =>
      simp only [membersLoop, more, Bool.false_eq_true, if_false] at success
      cases success
      exact members_closed more inside around distinct closed
    | true =>
      obtain ⟨content, named, shape, raw, next, read, fresh, decoded, success⟩ :=
        membersRound_inv more success
      obtain ⟨before, gap, r, place, blank, valid, text, rfl⟩ := name_text more inside read
      obtain ⟨nameGap, lead, value, nameBlank, leadBlank, split, rfl, nests, state, same⟩ :=
        decode_member rfl decoded
      have longer := keys_nodup_append distinct fresh value.text
      obtain ⟨nextRest, nextState, nextStack⟩ := next
      cases (state : nextState = .objectComma)
      obtain ⟨afterState, tail, tailRead⟩ := ih (same.trans around) (Or.inr rfl) longer success closed
      let label : Label .object := .name gap content nameGap blank valid nameBlank
      obtain ⟨t, whole, entries⟩ := rest_cons place label leadBlank value tail
      refine ⟨afterState, t, ?_, ?_, tailRead.distinct, ?_⟩
      · have inner : nextRest = tail.text ++ after.rest := tailRead.text
        simp only at split
        rw [text, whole, split, inner]
        simp only [label, Label.text, List.append_assoc, List.cons_append, List.nil_append]
        rfl
      · rw [tailRead.added, rawMembers, rawMembers, entries]
        simp only [label, Label.content, List.map_cons, List.append_assoc, List.cons_append, List.nil_append]
        rfl
      · intro e inEntries
        rw [entries] at inEntries
        rcases List.mem_cons.mp inEntries with rfl | inTail
        · exact nests
        · exact tailRead.nests e inTail

/-! ## The members of a tree are read back -/

/-- The loop collects `out` and stops in front of the end of the object. -/
def Collects (fuel : Nat) (members out : RawObject) (d after : Decoder) : Prop :=
  ∃ last, membersLoop fuel members d = some (out, last) ∧
    last.token = .ok (.closes .object, after)

theorem membersLoop_closed {gap r : Bytes} (blank : IsBlank gap)
    (inside : state = .objectStart ∨ state = .objectComma) :
    Collects fuel members members ⟨gap ++ Box.object.closes :: r, state, outer :: stack⟩
      ⟨r, outer.valueEnd, stack⟩ := by
  have ended : Decoder.more ⟨gap ++ Box.object.closes :: r, state, outer :: stack⟩ = false := by
    rw [Decoder.more, skipSpace_blank blank, skipSpace_cons (by decide)]
    rfl
  refine ⟨⟨gap ++ Box.object.closes :: r, state, outer :: stack⟩, ?_, ?_⟩
  · cases fuel <;> simp [membersLoop, ended]
  · rw [Decoder.token, tokenFrom_blank blank, token_close .object inside]

theorem membersLoop_element {before lead r : Bytes} (place : Before .object state before)
    (label : Label .object) (blank : IsBlank lead) {value : Json .value}
    (nests : value.nesting ≤ maxNestingDepth) (fresh : unquote label.content ∉ members.keys)
    (ends : Ends r) :
    membersLoop (fuel + 1) members ⟨before ++ (label.text ++ (lead ++ (value.text ++ r))), state, stack⟩ =
      membersLoop fuel (members ++ [(unquote label.content, value.text)]) ⟨r, .objectComma, stack⟩ := by
  obtain ⟨more, read⟩ := name_read place label stack (lead ++ (value.text ++ r))
  have decoded : Decoder.decode ⟨label.gap ++ colon :: (lead ++ (value.text ++ r)), .objectColon,
      stack⟩ = some (shapeOf value, value.text, ⟨r, .objectComma, stack⟩) :=
    decode_member_text label.gap_blank blank nests ends
  have unseen : (members.get (unquote label.content)).isSome = false := by
    rw [Bool.eq_false_iff]
    exact mt RawObject.isSome_get.mp fresh
  simp [membersLoop, more, read, unseen, decoded]

def ReadIn (state : TokenState) (k : Kind) : Prop :=
  (state = .objectStart ∧ k = .body .object) ∨ (state = .objectComma ∧ k = .tail .object)

theorem collects_element {before lead : Bytes} (place : Before .object state before)
    (label : Label .object) (blank : IsBlank lead) {value : Json .value}
    {tail : Json (.tail .object)} (r : Bytes)
    (distinct : (RawObject.keys (members ++ ((unquote label.content, value.text) :: rawMembers tail))).Nodup)
    (enough : tail.entries.length + 1 ≤ fuel)
    (nests : ∀ e ∈ (label.content, value) :: tail.entries, e.2.nesting ≤ maxNestingDepth)
    (rest : ∀ fuel members, (RawObject.keys (members ++ rawMembers tail)).Nodup →
      tail.entries.length ≤ fuel → (∀ e ∈ tail.entries, e.2.nesting ≤ maxNestingDepth) →
      Collects fuel members (members ++ rawMembers tail)
        ⟨tail.text ++ r, .objectComma, outer :: stack⟩ ⟨r, outer.valueEnd, stack⟩) :
    Collects fuel members (members ++ ((unquote label.content, value.text) :: rawMembers tail))
      ⟨before ++ (label.text ++ (lead ++ (value.text ++ (tail.text ++ r)))), state, outer :: stack⟩
      ⟨r, outer.valueEnd, stack⟩ := by
  obtain ⟨less, rfl⟩ : ∃ less, fuel = less + 1 := Nat.exists_eq_add_one.mpr (by omega)
  obtain ⟨valueNests, tailNests⟩ := List.forall_mem_cons.mp nests
  have grown := rest less (members ++ [(unquote label.content, value.text)])
    (by simpa using distinct) (Nat.le_of_succ_le_succ enough) tailNests
  have fresh : unquote label.content ∉ members.keys := by
    intro inside
    rw [RawObject.keys, List.map_append, List.nodup_append] at distinct
    exact distinct.2.2 _ inside _ (List.mem_cons_self ..) rfl
  rw [Collects, membersLoop_element place label blank valueNests fresh (ends_of_tail tail r)]
  simpa [Collects] using grown

theorem membersLoop_text {k : Kind} (t : Json k) : ∀ state, ReadIn state k → ∀ (r : Bytes) fuel members,
      (RawObject.keys (members ++ rawMembers t)).Nodup → t.entries.length ≤ fuel →
      (∀ e ∈ t.entries, e.2.nesting ≤ maxNestingDepth) →
      Collects fuel members (members ++ rawMembers t) ⟨t.text ++ r, state, outer :: stack⟩
        ⟨r, outer.valueEnd, stack⟩ := by
  induction t
  -- only the bodies and the tails of objects are read by the loop
  all_goals
    intro state place r fuel members distinct enough nests
    rcases place with ⟨rfl, same⟩ | ⟨rfl, same⟩ <;> cases same
  case empty gap blank =>
    simpa [Json.text, rawMembers, Json.entries] using membersLoop_closed blank (Or.inl rfl)
  case close gap blank =>
    simpa [Json.text, rawMembers, Json.entries] using membersLoop_closed blank (Or.inr rfl)
  case first lead leadBlank value _ label tail ih =>
    have whole := collects_element .start label leadBlank r distinct enough nests (ih _ (Or.inr ⟨rfl, rfl⟩) r)
    simpa [boxStart, Json.text, rawMembers, Json.entries] using whole
  case next gap blank lead leadBlank value _ label tail ih =>
    have whole := collects_element (.comma blank) label leadBlank r distinct enough nests
      (ih _ (Or.inr ⟨rfl, rfl⟩) r)
    simpa [boxComma, Json.text, rawMembers, Json.entries] using whole

theorem uniqueObject_iff {raw : Bytes} : uniqueObject raw = some members ↔
      ∃ lead, ∃ body : Json (.body .object), ∃ trail,
        raw = lead ++ ((Json.box body).text ++ trail) ∧ IsBlank lead ∧ IsBlank trail ∧
        (memberNames body).Nodup ∧ (∀ e ∈ body.entries, e.2.nesting ≤ maxNestingDepth) ∧
        members = rawMembers body := by
  constructor
  · intro success
    unfold uniqueObject at success
    split at success
    · rename_i d opened
      split at success
      · rename_i out last loop
        split at success
        · rename_i after closed
          split_ifs at success with ended
          cases success
          obtain ⟨lead, s, leadBlank, split, -, token⟩ := token_value_inv rfl opened
          cases token
          obtain ⟨state, body, read⟩ :=
            membersLoop_sound _ rfl (Or.inl rfl) (by simp [RawObject.keys]) loop closed
          have trail : IsBlank after.rest := (atEnd_iff state).mp ended
          have text := read.text
          have added := read.added
          have distinct := read.distinct
          rw [List.nil_append] at added
          subst added
          rw [keys_rawMembers] at distinct
          refine ⟨lead, body, after.rest, ?_, leadBlank, trail, distinct, read.nests, rfl⟩
          exact Eq.trans split (congrArg (fun s => lead ++ Box.object.opens :: s) text)
        · cases success
      · cases success
    · cases success
  · rintro ⟨lead, body, trail, rfl, leadBlank, trailBlank, distinct, nests, rfl⟩
    have opened : (Decoder.start (lead ++ ((Json.box body).text ++ trail))).token =
        .ok (.opens .object, ⟨body.text ++ trail, .objectStart, [.topValue]⟩) := by
      rw [Decoder.start, Decoder.token, tokenFrom_blank leadBlank, Json.text, List.cons_append]
      exact token_open .object rfl (Nat.zero_lt_succ _)
    have enough : body.entries.length ≤ (body.text ++ trail).length := by
      have le := entries_le_text body
      rw [List.length_append]
      omega
    have distinctKeys : (RawObject.keys ([] ++ rawMembers body)).Nodup := by
      rw [List.nil_append, keys_rawMembers]
      exact distinct
    obtain ⟨last, loop, closed⟩ : Collects (body.text ++ trail).length [] ([] ++ rawMembers body)
        ⟨body.text ++ trail, .objectStart, [.topValue]⟩ ⟨trail, TokenState.topValue.valueEnd, []⟩ :=
      membersLoop_text body _ (Or.inl ⟨rfl, rfl⟩) trail _ _ distinctKeys enough nests
    have ended : Decoder.atEnd ⟨trail, TokenState.topValue.valueEnd, []⟩ = true :=
      (atEnd_iff rfl).mpr trailBlank
    simp only [uniqueObject, opened, loop, closed, ended, if_true, List.nil_append]

end DevHealth.Workloadtoken

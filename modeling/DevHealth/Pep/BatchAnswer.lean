import DevHealth.Pep.ExactAllow

/-! # A batch answer binds to its own requests

`parseBatch` is all or nothing: one refusal, in any of its three passes, denies every
item for the same reason; otherwise the item at each position comes from the element
at that position of the array and from the request at that position. -/
set_option autoImplicit false
namespace DevHealth.Pep

open Go Lib

/-! ## Refusals are local -/

theorem localError_isLocal {o : RawObject} {req : Request} {now : Time}
    (isLocal : (decodeDecision o req now).isLocal = true) :
    (localError (decodeDecision o req now)).reason.isLocal = true := by
  rw [decodeDecision] at isLocal ⊢
  cases read : decodeWire o req now with
  | error e =>
    rw [read] at isLocal
    exact isLocal
  | ok w =>
    have malformed : Reason.malformed.isLocal = true := by decide
    simp only [fromWire]
    split_ifs <;> exact malformed

theorem decodeEach_refuses (now : Time) : ∀ (inners : List RawObject) (reqs : List Request),
      Refuses (fun e => e.reason.isLocal = true) (decodeEach now inners reqs) := by
  intro inners
  induction inners with
  | nil =>
    intro reqs e failed
    cases failed
  | cons inner inners ih =>
    intro reqs e failed
    cases reqs with
    | nil => cases failed
    | cons req reqs =>
      rw [decodeEach] at failed
      split_ifs at failed with isLocal
      · cases failed
        exact localError_isLocal isLocal
      · cases rest : decodeEach now inners reqs with
        | ok out =>
          rw [rest] at failed
          cases failed
        | error e' =>
          rw [rest] at failed
          cases failed
          exact ih reqs e rest

theorem readBatch_refuses (bytes : Bytes) (reqs : List Request) (now : Time) :
    Refuses (fun e => e.reason.isLocal = true) (readBatch bytes reqs now) := by
  have malformed : (fail .malformed).reason.isLocal = true := by decide
  have mismatch : (fail .mismatch).reason.isLocal = true := by decide
  rw [readBatch]
  refine refuses_bind (refuses_ensure malformed) fun _ _ => ?_
  refine refuses_bind (refuses_obtainOr malformed) fun o _ => ?_
  refine refuses_bind (refuses_ensure malformed) fun _ _ => ?_
  refine refuses_bind (refuses_ensure malformed) fun _ _ => ?_
  refine refuses_bind (refuses_obtainOr malformed) fun items _ => ?_
  refine refuses_bind (refuses_ensure malformed) fun _ _ => ?_
  refine refuses_bind (refuses_obtainOr malformed) fun entries _ => ?_
  refine refuses_bind (refuses_ensure mismatch) fun _ _ => ?_
  refine refuses_bind (refuses_ensure mismatch) fun _ _ => ?_
  exact decodeEach_refuses now _ reqs

/-! ## The passes -/

/-- The element at a position, with its own index and its own request. -/
structure BoundElement (now : Time) (i : Nat) (element : Json .value) (req : Request)
    (d : Decision) : Prop where
  verdict : d.isLocal = false
  built : ∃ entry inner : Json (.body .object), ∃ digits valid,
    element = .box entry ∧
    named entry (ascii "index") = some (.num digits valid) ∧
    digits ∈ integerToken.lang ∧ digitsValue digits = i ∧
    named entry (ascii "decision") = some (.box inner) ∧
    d = decodeDecision (rawMembers inner) req now

/-- The answer is one document whose array has an element for each request, in order. -/
def BoundBatch (bytes : Bytes) (reqs : List Request) (now : Time) (out : List Decision) : Prop :=
  ∃ lead, ∃ members : Json (.body .object), ∃ trail, ∃ items : Json (.body .array),
    bytes = lead ++ ((Json.box members).text ++ trail) ∧ IsBlank lead ∧ IsBlank trail ∧
    named members (ascii "decisions") = some (.box items) ∧
    items.entries.length = reqs.length ∧
    ∀ (i : Nat) element req d, (items.entries.map Prod.snd)[i]? = some element → reqs[i]? = some req →
      out[i]? = some d → BoundElement now i element req d

theorem decodeEach_ok {now : Time} : ∀ {inners : List RawObject} {reqs : List Request} {out : List Decision},
      decodeEach now inners reqs = .ok out → inners.length = reqs.length →
      out.length = reqs.length ∧
        ∀ (i : Nat) inner req d, inners[i]? = some inner → reqs[i]? = some req → out[i]? = some d →
          d.isLocal = false ∧ d = decodeDecision inner req now := by
  intro inners
  induction inners with
  | nil =>
    intro reqs out read lengths
    have none : reqs = [] := List.length_eq_zero_iff.mp lengths.symm
    subst none
    cases read
    simp
  | cons inner inners ih =>
    intro reqs out read lengths
    cases reqs with
    | nil => cases lengths
    | cons req reqs =>
      rw [decodeEach] at read
      split_ifs at read with isLocal
      cases rest : decodeEach now inners reqs with
      | error e =>
        rw [rest] at read
        cases read
      | ok tail =>
        rw [rest] at read
        cases read
        obtain ⟨length, each⟩ := ih rest (Nat.succ.inj lengths)
        refine ⟨congrArg Nat.succ length, ?_⟩
        intro i inner' req' d atInner atReq atOut
        cases i with
        | zero =>
          cases atInner
          cases atReq
          cases atOut
          exact ⟨by simpa using isLocal, rfl⟩
        | succ i => exact each i inner' req' d atInner atReq atOut

theorem asObject_member {body : Json (.body .object)} {name : Bytes} {o : RawObject}
    (nests : body.nesting ≤ maxNestingDepth) :
    asObject (member (rawMembers body) name) = some o ↔
      ∃ inner : Json (.body .object), named body name = some (.box inner) ∧ o = rawMembers inner := by
  rw [member_rawMembers]
  cases found : named body name with
  | none => simp [asObject, show trimSpace [] = [] from rfl]
  | some v => simp [asObject_text (named_nesting nests found)]

theorem asArray_member {body : Json (.body .object)} {name : Bytes} {items : List RawMessage}
    (nests : body.nesting ≤ maxNestingDepth) :
    asArray (member (rawMembers body) name) = some items ↔
      ∃ inner : Json (.body .array), named body name = some (.box inner) ∧
        items = inner.entries.map fun e => e.2.text := by
  rw [member_rawMembers]
  cases found : named body name with
  | none => simp [asArray, show trimSpace [] = [] from rfl]
  | some v => simp [asArray_text (named_nesting nests found)]

theorem readEntry_text {element : Json .value} (nests : element.nesting ≤ maxNestingDepth)
    {i : Nat} {o : RawObject} (read : readEntry element.text = some (i, o)) :
    ∃ entry inner : Json (.body .object), ∃ digits valid,
      element = .box entry ∧ named entry (ascii "index") = some (.num digits valid) ∧
      digits ∈ integerToken.lang ∧ digitsValue digits = i ∧
      named entry (ascii "decision") = some (.box inner) ∧ o = rawMembers inner := by
  simp only [readEntry, Option.bind_eq_bind, Option.bind_eq_some_iff, asObject_text nests,
    Option.pure_def, Option.some.injEq, Prod.mk.injEq] at read
  obtain ⟨_, ⟨entry, rfl, rfl⟩, _, _, index, indexRead, _, _, _, innerRead, rfl, rfl⟩ := read
  obtain ⟨digits, valid, found, token, -, rfl⟩ := parseRevision_member.mp indexRead
  obtain ⟨inner, decision, rfl⟩ := (asObject_member (box_nesting nests)).mp innerRead
  exact ⟨entry, inner, digits, valid, rfl, found, token, rfl, decision, rfl⟩

theorem readBatch_ok {bytes : Bytes} {reqs : List Request} {now : Time} {out : List Decision}
    (read : readBatch bytes reqs now = .ok out) :
    out.length = reqs.length ∧ BoundBatch bytes reqs now out := by
  simp only [readBatch, bind_ok, require_ok, need_ok, Bool.not_eq_true', decide_eq_true_eq] at read
  obtain ⟨_, accepted, o, objectRead, _, _, _, _, raws, arrayRead, _, _, entries, entriesRead, _,
    lengths, _, indexes, each⟩ := read
  obtain ⟨lead, t, trail, rfl, leadBlank, trailBlank, strict⟩ := (rejectDuplicates_iff bytes).mp accepted
  have nests := nesting_of_depth strict.depth
  rw [asObject_trim leadBlank trailBlank] at objectRead
  obtain ⟨members, rfl, rfl⟩ := (asObject_text nests).mp objectRead
  obtain ⟨items, found, rfl⟩ := (asArray_member (box_nesting nests)).mp arrayRead
  have itemsNest := box_nesting (named_nesting (box_nesting nests) found)
  have passed := mapM_some entriesRead
  have count : entries.length = items.entries.length := by
    simpa using (congrArg List.length passed).symm
  rw [List.length_map] at lengths
  have paired : (entries.map Prod.snd).length = reqs.length := by
    rw [List.length_map, count, lengths]
  obtain ⟨outLength, built⟩ := decodeEach_ok each paired
  refine ⟨outLength, lead, members, trail, items, rfl, leadBlank, trailBlank, found, lengths, ?_⟩
  intro i element req d atElement atReq atOut
  have inRange : i < entries.length := by
    have inReqs := (List.getElem?_eq_some_iff.mp atReq).1
    omega
  obtain ⟨⟨index, o⟩, atEntry⟩ : ∃ e, entries[i]? = some e := ⟨_, List.getElem?_eq_getElem inRange⟩
  -- the index of the element at a position is that position
  have position : index = i := by
    have same := congrArg (fun list => list[i]?) indexes
    simp only [List.getElem?_map, atEntry, Option.map_some, List.getElem?_range inRange,
      Option.some.injEq] at same
    exact same
  have elementRead : readEntry element.text = some (index, o) := by
    have same := congrArg (fun list => list[i]?) passed
    simp only [List.getElem?_map, Option.map_eq_some_iff, atEntry, Option.map_some] at same atElement
    obtain ⟨e, atItem, rfl⟩ := atElement
    simpa [atItem] using same
  have elementNests : element.nesting ≤ maxNestingDepth := by
    obtain ⟨e, inside, rfl⟩ := List.mem_map.mp (List.mem_of_getElem? atElement)
    exact (Json.entries_nesting inside).trans itemsNest
  obtain ⟨entry, inner, digits, valid, rfl, indexFound, token, value, decision, rfl⟩ :=
    readEntry_text elementNests elementRead
  have atInner : (entries.map Prod.snd)[i]? = some (rawMembers inner) := by
    rw [List.getElem?_map, atEntry]
    rfl
  obtain ⟨verdict, same⟩ := built i _ req d atInner atReq atOut
  exact ⟨verdict, entry, inner, digits, valid, rfl, indexFound, token, value.trans position, decision, same⟩

/-- One decision for each request: all of them the same local deny, or each of them the
verdict of the element at its own position for the request at its own position. -/
theorem parseBatch_binds (bytes : Bytes) (reqs : List Request) (now : Time) :
    (parseBatch bytes reqs now).length = reqs.length ∧
      ((∃ reason : Reason, ∀ d ∈ parseBatch bytes reqs now,
          d.isLocal = true ∧ d.allowed = false ∧ d.reasonOf = reason) ∨
        BoundBatch bytes reqs now (parseBatch bytes reqs now)) := by
  rw [parseBatch]
  cases read : readBatch bytes reqs now with
  | ok out =>
    obtain ⟨length, bound⟩ := readBatch_ok read
    exact ⟨length, Or.inr bound⟩
  | error e =>
    have isLocal := readBatch_refuses bytes reqs now e read
    refine ⟨by simp [denyAll], Or.inl ⟨e.reason, ?_⟩⟩
    intro d inside
    rw [List.eq_of_mem_replicate inside]
    exact ⟨isLocal, rfl, rfl⟩

end DevHealth.Pep

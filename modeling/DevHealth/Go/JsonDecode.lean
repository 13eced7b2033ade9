import DevHealth.Go.JsonMembers

/-! # `Decoder.Decode`

Decoding one value from the stream of a decoder, at its start or between its tokens: the
separator that the state asks for is consumed, the value is read whole, and the decoder
stands behind it. -/
set_option autoImplicit false
namespace DevHealth.Go

open Lib

def separator (mark : UInt8) (s : Bytes) : Option Bytes :=
  match skipSpace s with
  | [] => none
  | b :: r => if b = mark then some r else none

def Decoder.prepare (d : Decoder) : Option Decoder :=
  match d.state with
  | .arrayComma => (separator comma d.rest).map fun r => ⟨r, .arrayValue, d.stack⟩
  | .objectColon => (separator colon d.rest).map fun r => ⟨r, .objectValue, d.stack⟩
  | _ => some d

/-- `Decode` up to the conversion: the value, its raw bytes, and the decoder behind it. -/
def Decoder.decode (d : Decoder) : Option (Shape × RawMessage × Decoder) := do
  let d ← d.prepare
  guard d.state.allowsValue
  let value := skipSpace d.rest
  let (shape, r) ← scanValue maxNestingDepth value
  return (shape, value.take (value.length - r.length), ⟨r, d.state.valueEnd, d.stack⟩)

/-- `Decode` into a nil map: an object, or `none` for `null` and for any other value. -/
def Decoder.decodeObject (d : Decoder) : Option RawObject :=
  match d.decode with
  | some (.box .object entries, _, _) =>
    some (entries.map fun (name, raw) => (unquote name, raw))
  | _ => none

theorem separator_some {mark : UInt8} {s r : Bytes} (found : separator mark s = some r) :
    ∃ gap, IsBlank gap ∧ s = gap ++ mark :: r := by
  obtain ⟨gap, blank, split⟩ := exists_blank_of_skipSpace s
  rw [separator] at found
  split at found
  · cases found
  · rename_i b rest skipped
    split_ifs at found with same
    cases found
    exact ⟨gap, blank, by rw [split, skipped, same]⟩

theorem separator_blank {mark : UInt8} {gap r : Bytes} (blank : IsBlank gap)
    (solid : isSpace mark = false) : separator mark (gap ++ mark :: r) = some r := by
  simp [separator, skipSpace_blank blank, skipSpace_cons solid]

theorem decode_member {d next : Decoder} {shape : Shape} {raw : RawMessage}
    (state : d.state = .objectColon) (read : d.decode = some (shape, raw, next)) :
    ∃ gap lead, ∃ t : Json .value, IsBlank gap ∧ IsBlank lead ∧
      d.rest = gap ++ colon :: (lead ++ (t.text ++ next.rest)) ∧ raw = t.text ∧
      t.nesting ≤ maxNestingDepth ∧ next.state = .objectComma ∧ next.stack = d.stack := by
  simp only [Decoder.decode, Decoder.prepare, state, Option.bind_eq_bind,
    Option.bind_eq_some_iff, Option.map_eq_some_iff] at read
  obtain ⟨_, ⟨rest, found, rfl⟩, _, _, ⟨_, r⟩, scanned, same⟩ := read
  cases same
  obtain ⟨gap, gapBlank, split⟩ := separator_some found
  obtain ⟨lead, leadBlank, leadSplit⟩ := exists_blank_of_skipSpace rest
  obtain ⟨t, text, -, nests⟩ := scanValue_sound _ _ _ _ scanned
  refine ⟨gap, lead, t, gapBlank, leadBlank, ?_, ?_, nests, rfl, rfl⟩
  · rw [split, leadSplit, text]
  · simp only at text ⊢
    rw [text, List.length_append, Nat.add_sub_cancel, List.take_left]

variable {t : Json .value} {b : Box}

theorem decode_member_text {gap lead r : Bytes} {stack : List TokenState} (gapBlank : IsBlank gap)
    (leadBlank : IsBlank lead) (nests : t.nesting ≤ maxNestingDepth) (ends : Ends r) :
    Decoder.decode ⟨gap ++ colon :: (lead ++ (t.text ++ r)), .objectColon, stack⟩ =
      some (shapeOf t, t.text, ⟨r, .objectComma, stack⟩) := by
  have scanned : scanValue maxNestingDepth (t.text ++ r) = some (shapeOf t, r) :=
    (scans t : Scans t) maxNestingDepth r nests ends
  simp [Decoder.decode, Decoder.prepare, separator_blank gapBlank (by decide : isSpace colon = false),
    TokenState.allowsValue, TokenState.valueEnd, skipSpace_value leadBlank, scanned]

theorem decode_text {lead trail : Bytes} (leadBlank : IsBlank lead) (trailBlank : IsBlank trail)
    (nests : t.nesting ≤ maxNestingDepth) :
    (Decoder.start (lead ++ (t.text ++ trail))).decode =
      some (shapeOf t, t.text, ⟨trail, .topValue, []⟩) := by
  have scanned : scanValue maxNestingDepth (t.text ++ trail) = some (shapeOf t, trail) :=
    (scans t : Scans t) maxNestingDepth trail nests (ends_of_blank trailBlank)
  simp [Decoder.decode, Decoder.prepare, Decoder.start, TokenState.allowsValue,
    TokenState.valueEnd, skipSpace_value leadBlank, scanned]

theorem decode_start {encoded : Bytes} {shape : Shape} {raw : RawMessage} {next : Decoder}
    (read : (Decoder.start encoded).decode = some (shape, raw, next)) :
    ∃ lead, ∃ t : Json .value, ∃ r, IsBlank lead ∧ encoded = lead ++ (t.text ++ r) ∧
      raw = t.text ∧ t.nesting ≤ maxNestingDepth := by
  simp only [Decoder.decode, Decoder.prepare, Decoder.start, TokenState.allowsValue,
    Option.bind_eq_bind, Option.bind_eq_some_iff] at read
  obtain ⟨_, same, _, _, ⟨_, r⟩, scanned, result⟩ := read
  cases same
  cases result
  obtain ⟨lead, leadBlank, leadSplit⟩ := exists_blank_of_skipSpace encoded
  obtain ⟨t, text, -, nests⟩ := scanValue_sound _ _ _ _ scanned
  refine ⟨lead, t, r, leadBlank, ?_, ?_, nests⟩
  · rw [leadSplit, text]
  · simp only at text ⊢
    rw [text, List.length_append, Nat.add_sub_cancel, List.take_left]

theorem decodeObject_text {lead trail : Bytes} (leadBlank : IsBlank lead)
    (trailBlank : IsBlank trail) (nests : t.nesting ≤ maxNestingDepth) {o : RawObject} :
    (Decoder.start (lead ++ (t.text ++ trail))).decodeObject = some o ↔
      ∃ body : Json (.body .object), t = .box body ∧ o = rawMembers body := by
  rw [Decoder.decodeObject, decode_text leadBlank trailBlank nests]
  cases t with
  | @box b body =>
    cases b with
    | object =>
      simp only [shapeOf, rawEntries, List.map_map, Option.some.injEq, Json.box.injEq, heq_eq_eq, true_and]
      constructor
      · intro same
        exact ⟨body, rfl, same.symm⟩
      · rintro ⟨_, rfl, rfl⟩
        rfl
    | array => simp [shapeOf]
  | _ => simp [shapeOf]

/-! ## Two trees of one text -/

/-- White space around a value aside, the text says which scalar or container it is, with
which elements. -/
theorem shapeOf_text {t u : Json .value} {lead trail lead' trail' : Bytes}
    (leadBlank : IsBlank lead) (trailBlank : IsBlank trail) (leadBlank' : IsBlank lead')
    (trailBlank' : IsBlank trail')
    (same : lead ++ (t.text ++ trail) = lead' ++ (u.text ++ trail')) : shapeOf t = shapeOf u := by
  have first : scanValue (max t.nesting u.nesting) (t.text ++ trail) = some (shapeOf t, trail) :=
    (scans t : Scans t) _ trail (Nat.le_max_left ..) (ends_of_blank trailBlank)
  have second : scanValue (max t.nesting u.nesting) (u.text ++ trail') = some (shapeOf u, trail') :=
    (scans u : Scans u) _ trail' (Nat.le_max_right ..) (ends_of_blank trailBlank')
  have skipped := congrArg skipSpace same
  rw [skipSpace_value leadBlank, skipSpace_value leadBlank'] at skipped
  rw [skipped, second] at first
  exact (congrArg Prod.fst (Option.some.inj first)).symm

theorem box_of_text {body : Json (.body b)} {lead trail lead' r : Bytes}
    (leadBlank : IsBlank lead) (trailBlank : IsBlank trail) (leadBlank' : IsBlank lead')
    (same : lead ++ (t.text ++ trail) = lead' ++ ((Json.box body).text ++ r)) :
    shapeOf t = shapeOf (.box body) ∧ trail = r := by
  have first : scanValue (max t.nesting (Json.box body).nesting) (t.text ++ trail) =
      some (shapeOf t, trail) :=
    (scans t : Scans t) _ trail (Nat.le_max_left ..) (ends_of_blank trailBlank)
  have second := scanValue_body (scans body) (Nat.le_max_right t.nesting (Json.box body).nesting) r
  have skipped := congrArg skipSpace same
  rw [skipSpace_value leadBlank, skipSpace_value leadBlank'] at skipped
  rw [skipped, second] at first
  exact ⟨(congrArg Prod.fst (Option.some.inj first)).symm, (congrArg Prod.snd (Option.some.inj first)).symm⟩

theorem shapeOf_eq {t u : Json .value} (same : t.text = u.text) : shapeOf t = shapeOf u :=
  shapeOf_text isBlank_nil isBlank_nil isBlank_nil isBlank_nil (by simpa using same)

theorem entry_of_shape {body body' : Json (.body b)} (same : rawEntries body = rawEntries body')
    {e : Bytes × Json .value} (inside : e ∈ body'.entries) :
    ∃ e' ∈ body.entries, shapeOf e'.2 = shapeOf e.2 := by
  have listed : (e.1, e.2.text) ∈ rawEntries body := by
    rw [same]
    exact List.mem_map.mpr ⟨e, inside, rfl⟩
  obtain ⟨e', member, equal⟩ := List.mem_map.mp listed
  exact ⟨e', member, shapeOf_eq (Prod.mk.inj equal).2⟩

theorem names_of_shape {body body' : Json (.body b)} (same : rawEntries body = rawEntries body') :
    body.entries.map Prod.fst = body'.entries.map Prod.fst := by
  have names := congrArg (List.map Prod.fst) same
  simp only [rawEntries, List.map_map] at names
  exact names

theorem stringOf_eq (v : Json .value) : stringOf v =
      match shapeOf v with
      | .scalar (.str content) => some (unquote content)
      | _ => none := by
  cases v <;> rfl

theorem stringOf_shape {v w : Json .value} (same : shapeOf v = shapeOf w) : stringOf v = stringOf w := by
  rw [stringOf_eq, stringOf_eq, same]

theorem namedString_of_text {body body' : Json (.body .object)}
    (same : (Json.box body).text = (Json.box body').text) (name : Bytes) :
    namedString body name = namedString body' name := by
  have shape := shapeOf_eq same
  simp only [shapeOf, Shape.box.injEq, true_and] at shape
  have members : rawMembers body = rawMembers body' := by
    have mapped := congrArg (List.map fun e : Bytes × Bytes => (unquote e.1, e.2)) shape
    simp only [rawEntries, List.map_map] at mapped
    exact mapped
  have raw := congrArg (fun o => RawObject.get o name) members
  simp only [get_rawMembers] at raw
  rw [namedString, namedString]
  cases found : named body name with
  | none =>
    rw [found, Option.map_none, eq_comm, Option.map_eq_none_iff] at raw
    rw [raw]
  | some v =>
    rw [found, Option.map_some, eq_comm, Option.map_eq_some_iff] at raw
    obtain ⟨w, found', text⟩ := raw
    rw [found']
    exact stringOf_shape (shapeOf_eq text.symm)

theorem noRepeats_box {same : Bytes → Bytes → Bool} {body : Json (.body b)} : (Json.box body).NoRepeats same ↔
      (b = .object → (body.entries.map Prod.fst).Pairwise fun x y => same x y = false) ∧
        body.NoRepeats same := by
  cases b with
  | array => simp [Json.NoRepeats]
  | object => simp [Json.NoRepeats]

theorem strict_scalar (same : Bytes → Bytes → Bool) (fits : Bytes → Bool) {x : Scalar}
    (shape : shapeOf t = .scalar x) :
    t.NoRepeats same ∧ (t.AllNumbers fits ↔ ∀ digits, x = .num digits → fits digits = true) := by
  cases t with
  | box body => cases shape
  | num digits valid =>
    cases shape
    refine ⟨trivial, fun fit other same => ?_, fun fit => fit digits rfl⟩
    cases same
    exact fit
  | _ =>
    cases shape
    refine ⟨trivial, fun _ digits same => ?_, fun _ => trivial⟩
    cases same

theorem box_of_shape {entries : List (Bytes × Bytes)} (shape : shapeOf t = .box b entries) :
    ∃ body : Json (.body b), t = .box body ∧ rawEntries body = entries := by
  cases t with
  | box body =>
    cases shape
    exact ⟨body, rfl, rfl⟩
  | _ => cases shape

/-- A tree of the text of a tree without repeated names and with fitting numbers has none
and fits either. -/
theorem strict_of_shape {same : Bytes → Bytes → Bool} {fits : Bytes → Bool} (levels : Nat) :
    ∀ t u : Json .value, t.nesting ≤ levels → shapeOf t = shapeOf u → t.NoRepeats same →
      t.AllNumbers fits → u.NoRepeats same ∧ u.AllNumbers fits := by
  induction levels using Nat.strong_induction_on with
  | _ levels ih =>
    intro t u shallow shape names numbers
    cases kind : shapeOf t with
    | scalar x =>
      have mine := strict_scalar same fits kind
      have other := strict_scalar same fits (shape ▸ kind)
      exact ⟨other.1, other.2.mpr (mine.2.mp numbers)⟩
    | box b listed =>
      obtain ⟨body, rfl, first⟩ := box_of_shape kind
      obtain ⟨body', rfl, second⟩ := box_of_shape (shape ▸ kind)
      have entries : rawEntries body = rawEntries body' := first.trans second.symm
      have each : ∀ e ∈ body'.entries, e.2.NoRepeats same ∧ e.2.AllNumbers fits := by
        intro e inside
        obtain ⟨e', member, inner⟩ := entry_of_shape entries inside
        have less : e'.2.nesting < levels :=
          (Nat.lt_succ_of_le (Json.entries_nesting member)).trans_le shallow
        exact ih _ less e'.2 e.2 (Nat.le_refl _) inner
          (Json.noRepeats_entry (noRepeats_box.mp names).2 member)
          (Json.allNumbers_entry (t := body) numbers member)
      refine ⟨noRepeats_box.mpr ⟨?_, ?_⟩, ?_⟩
      · rw [← names_of_shape entries]
        exact (noRepeats_box.mp names).1
      · apply Json.noRepeats_of_entries (by intro same; cases same)
        exact fun e inside => (each e inside).1
      · apply Json.allNumbers_of_entries (t := body') (by intro same; cases same)
        exact fun e inside => (each e inside).2

theorem nesting_of_shape (levels : Nat) :
    ∀ t u : Json .value, t.nesting ≤ levels → shapeOf t = shapeOf u → u.nesting ≤ levels := by
  induction levels using Nat.strong_induction_on with
  | _ levels ih =>
    intro t u shallow shape
    cases u with
    | @box b body =>
      obtain ⟨body', rfl, entries⟩ := box_of_shape shape
      refine (Nat.succ_le_succ ?_).trans shallow
      apply Json.nesting_of_entries (by intro same; cases same)
      intro e inside
      obtain ⟨e', member, inner⟩ := entry_of_shape entries inside
      have less := Json.entries_nesting member
      exact (ih _ ((Nat.lt_succ_of_le less).trans_le shallow) e'.2 e.2 (Nat.le_refl _) inner).trans less
    | _ => exact Nat.zero_le _

theorem object_of_head {r : Bytes} (starts : (t.text ++ r).head? = some Box.object.opens) :
    ∃ body : Json (.body .object), t = .box body := by
  cases t with
  | null => cases starts
  | bool b => cases b <;> cases starts
  | str content valid => cases starts
  | num digits valid =>
    obtain ⟨b, s, rfl, first⟩ := head_of_number valid
    cases starts
    rcases first with minus | digit
    · exact absurd minus (by decide)
    · exact absurd digit (by decide)
  | @box b body =>
    cases b with
    | array => cases starts
    | object => exact ⟨body, rfl⟩

end DevHealth.Go

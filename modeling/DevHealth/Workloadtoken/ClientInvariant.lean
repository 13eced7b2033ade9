import DevHealth.Workloadtoken.ClientSystem

/-! # What holds at every moment of a token client

Every cached token came from an exchange for the key of its slot.  A call whose exchange is
running holds the flight of its slot, and no other call does. -/
set_option autoImplicit false
namespace DevHealth.Workloadtoken

open Go Lib

/-- The exchange of call `id`, sent for the audience and the actions of `r`, answered with
the token of `e`. -/
structure Brought (es : List (Record Event)) (id : CallId) (r : Request) (e : Entry) : Prop where
  audience : e.audience = r.audience
  sent : ∃ subject, ⟨id, .token r (.sent (exchangeForm subject r.audience r.actions) e.sent)⟩ ∈ es
  answered : ∃ answer, ⟨id, .token r (.answered (.ok answer))⟩ ∈ es ∧ SameToken e answer

def Stage.Stands (es : List (Record Event)) (sh : Shared) (id : CallId) (r : Request) :
    Stage → Prop
  | .loop | .wait _ => ∀ now, ⟨id, .token r (.began now)⟩ ∉ es
  | .exchange => (sh.slot r.key).flight = some id
  | .sent start => (sh.slot r.key).flight = some id ∧
      ∃ subject, ⟨id, .token r (.sent (exchangeForm subject r.audience r.actions) start)⟩ ∈ es
  | .answered result => (sh.slot r.key).flight = some id ∧ ∀ e, result = .ok e → Brought es id r e
  | .returned => True

/-- A `Token` call was called, has one request, and stands at its stage; any other call has
no event of a `Token` call. -/
def Pc.Stands (es : List (Record Event)) (sh : Shared) (id : CallId) : Pc → Prop
  | .token r stage => ⟨id, .token r .called⟩ ∈ es ∧
      (∀ r' what, ⟨id, .token r' what⟩ ∈ es → r' = r) ∧ stage.Stands es sh id r
  | _ => ∀ r what, ⟨id, .token r what⟩ ∉ es

def Event.Begins (key : Bytes) (e : Event) : Prop :=
  ∃ r now, e = .token r (.began now) ∧ r.key = key

def Event.Ends (e : Event) : Prop := ∃ r what, e = .token r what ∧ what.ends = true

/-- A call whose exchange is running holds the flight of its slot. -/
def FlightHeld (es : List (Record Event)) (sh : Shared) : Prop :=
  ∀ key id, Working (Event.Begins key) Event.Ends es id → (sh.slot key).flight = some id

structure Sound (es : List (Record Event)) (sh : Shared) : Prop where
  cached : ∀ key stored, (sh.slot key).entry = some stored →
    ∃ r, r.key = key ∧ Brought es stored.source r stored.entry
  flights : FlightHeld es sh

abbrev Held := Standing Sound (fun es sh id pc => Pc.Stands es sh id pc)

variable {folding : CaseFolding} {c : TokenClient} {es : List (Record Event)} {sh sh' : Shared}
  {id other : CallId} {r : Request} {e : Event} {pc pc' : Pc}

/-! ## Facts of the history stay -/

theorem Brought.later {entry : Entry} (brought : Brought es id r entry) (rec : Record Event) :
    Brought (es ++ [rec]) id r entry := by
  obtain ⟨subject, sent⟩ := brought.sent
  obtain ⟨answer, answered, same⟩ := brought.answered
  exact ⟨brought.audience, ⟨subject, List.mem_append_left _ sent⟩,
    ⟨answer, List.mem_append_left _ answered, same⟩⟩

theorem Brought.same {entry entry' : Entry} (brought : Brought es id r entry)
    (same : SameToken entry' entry) : Brought es id r entry' := by
  obtain ⟨answer, answered, equal⟩ := brought.answered
  refine ⟨same.audience.trans brought.audience, ?_, answer, answered, same.trans equal⟩
  rw [same.sent]
  exact brought.sent

theorem mem_beside {r' : Request} {what : What} (away : id ≠ other)
    (inside : (⟨id, .token r' what⟩ : Record Event) ∈ es ++ [⟨other, e⟩]) :
    ⟨id, .token r' what⟩ ∈ es := by
  rcases List.mem_append.mp inside with old | new
  · exact old
  · have same : id = other := congrArg Record.call (List.mem_singleton.mp new)
    exact absurd same away

theorem Stage.Stands.beside {stage : Stage} (stands : stage.Stands es sh id r) (away : id ≠ other)
    (flight : (sh.slot r.key).flight = some id → (sh'.slot r.key).flight = some id) :
    stage.Stands (es ++ [⟨other, e⟩]) sh' id r := by
  cases stage with
  | loop | wait =>
    intro now inside
    exact stands now (mem_beside away inside)
  | exchange => exact flight stands
  | sent start =>
    obtain ⟨held, subject, sent⟩ := stands
    exact ⟨flight held, subject, List.mem_append_left _ sent⟩
  | answered result =>
    obtain ⟨held, brought⟩ := stands
    exact ⟨flight held, fun entry arrived => (brought entry arrived).later _⟩
  | returned => trivial

theorem Pc.Stands.beside (stands : pc.Stands es sh id) (away : id ≠ other)
    (flight : ∀ key, (sh.slot key).flight = some id → (sh'.slot key).flight = some id) :
    pc.Stands (es ++ [⟨other, e⟩]) sh' id := by
  cases pc with
  | token r stage =>
    obtain ⟨called, one, stage⟩ := stands
    exact ⟨List.mem_append_left _ called, fun r' what inside => one r' what (mem_beside away inside),
      stage.beside away (flight r.key)⟩
  | invalidate r | done => exact fun r' what inside => stands r' what (mem_beside away inside)

theorem one_request {what : What} (one : ∀ r' what, ⟨id, .token r' what⟩ ∈ es → r' = r) :
    ∀ r' what', (⟨id, .token r' what'⟩ : Record Event) ∈ es ++ [⟨id, .token r what⟩] → r' = r := by
  intro r' what' inside
  rcases List.mem_append.mp inside with old | new
  · exact one r' what' old
  · have same := List.mem_singleton.mp new
    simp only [Record.mk.injEq, Event.token.injEq, true_and] at same
    exact same.1

/-! ## One step -/

theorem flight_beside (moved : Advanced c other sh pc sh' pc' e) (stands : pc.Stands es sh other)
    (away : id ≠ other) {key : Bytes} (held : (sh.slot key).flight = some id) :
    (sh'.slot key).flight = some id := by
  cases moved with
  | enters r now slot stage what happened =>
    by_cases here : key = r.key
    · subst here
      rw [Shared.slot_set]
      cases happened with
      | served stored found => exact held
      | waits flight missing running => exact held
      | turnedAway missing idle early => exact held
      | began idle due =>
        rw [idle] at held
        cases held
    · rw [Shared.slot_set_other _ _ here]
      exact held
  | wakes | cancels | unsent | sends | receives => exact held
  | leaves r result checked recorded fallback slot what happened =>
    rw [Shared.slot_close]
    by_cases here : key = r.key
    · -- The flight of this slot is the mover's own.
      subst here
      have own := stands.2.2.1
      rw [own] at held
      exact absurd (Option.some.inj held).symm away
    · rw [Shared.slot_set_other _ _ here]
      exact held
  | invalidates r =>
    by_cases here : key = r.key
    · subst here
      rw [Shared.slot_invalidate]
      exact held
    · rw [Shared.slot_invalidate_other _ here]
      exact held

theorem stands_after (moved : Advanced c id sh pc sh' pc' e) (stands : pc.Stands es sh id) :
    pc'.Stands (es ++ [⟨id, e⟩]) sh' id := by
  have older : ∀ rec ∈ es, rec ∈ es ++ [⟨id, e⟩] := fun rec => List.mem_append_left _
  have newest : (⟨id, e⟩ : Record Event) ∈ es ++ [⟨id, e⟩] := by simp
  cases moved with
  | enters r now slot stage what happened =>
    obtain ⟨called, one, fresh⟩ := stands
    refine ⟨older _ called, one_request one, ?_⟩
    cases happened with
    | served stored found => trivial
    | waits flight missing running =>
      intro now' inside
      rcases List.mem_append.mp inside with old | new
      · exact fresh now' old
      · simp at new
    | turnedAway missing idle early => trivial
    | began idle due =>
      show ((sh.set r.key _).slot r.key).flight = some id
      rw [Shared.slot_set]
  | wakes r flight closed =>
    obtain ⟨called, one, fresh⟩ := stands
    refine ⟨older _ called, one_request one, ?_⟩
    intro now' inside
    rcases List.mem_append.mp inside with old | new
    · exact fresh now' old
    · simp at new
  | cancels r flight => exact ⟨older _ stands.1, one_request stands.2.1, trivial⟩
  | unsent r err =>
    obtain ⟨called, one, held⟩ := stands
    exact ⟨older _ called, one_request one, held, fun entry arrived => by cases arrived⟩
  | sends r subject start =>
    obtain ⟨called, one, held⟩ := stands
    exact ⟨older _ called, one_request one, held, subject, newest⟩
  | receives r start result arrives =>
    obtain ⟨called, one, held, subject, sent⟩ := stands
    refine ⟨older _ called, one_request one, held, ?_⟩
    intro entry arrived
    subst arrived
    obtain ⟨audience, started⟩ := arrives entry rfl
    exact ⟨audience, ⟨subject, started.symm ▸ older _ sent⟩, entry, newest, .refl entry⟩
  | leaves r result checked recorded fallback slot what happened =>
    exact ⟨older _ stands.1, one_request stands.2.1, trivial⟩
  | invalidates r =>
    intro r' what inside
    rcases List.mem_append.mp inside with old | new
    · exact stands r' what old
    · simp at new

theorem cached_after (moved : Advanced c id sh pc sh' pc' e) (stands : pc.Stands es sh id)
    (cached : ∀ key stored, (sh.slot key).entry = some stored →
      ∃ r, r.key = key ∧ Brought es stored.source r stored.entry)
    (key : Bytes) (stored : Stored) (present : (sh'.slot key).entry = some stored) :
    ∃ r, r.key = key ∧ Brought (es ++ [⟨id, e⟩]) stored.source r stored.entry := by
  have kept (was : (sh.slot key).entry = some stored) :
      ∃ r, r.key = key ∧ Brought (es ++ [⟨id, e⟩]) stored.source r stored.entry := by
    obtain ⟨r, same, brought⟩ := cached key stored was
    exact ⟨r, same, brought.later _⟩
  have checked {now : Time} (found : usable c.toClient (sh.slot key).entry now = some stored) :
      ∃ r, r.key = key ∧ Brought (es ++ [⟨id, e⟩]) stored.source r stored.entry := by
    obtain ⟨held, was, source, same, -⟩ := usable_some found
    obtain ⟨r, equal, brought⟩ := cached key held was
    exact ⟨r, equal, source ▸ (brought.same same).later _⟩
  cases moved with
  | enters r now slot stage what happened =>
    by_cases here : key = r.key
    · subst here
      rw [Shared.slot_set] at present
      cases happened with
      | served stored' found =>
        cases present
        exact checked found
      | waits | turnedAway => cases present
      | began idle due => exact checked present
    · rw [Shared.slot_set_other _ _ here] at present
      exact kept present
  | wakes | cancels | unsent | sends | receives => exact kept present
  | leaves r result checked' recorded fallback slot what happened =>
    rw [Shared.slot_close] at present
    by_cases here : key = r.key
    · subst here
      rw [Shared.slot_set] at present
      cases happened with
      | renewed fresh arrived passing =>
        cases present
        have brought := stands.2.2.2 fresh arrived
        exact ⟨r, rfl, (brought.same filled_same).later _⟩
      | kept err stored' bad found =>
        cases present
        exact checked found
      | failed err last bad missing => cases present
    · rw [Shared.slot_set_other _ _ here] at present
      exact kept present
  | invalidates r =>
    by_cases here : key = r.key
    · subst here
      rw [Shared.slot_invalidate] at present
      cases present
    · rw [Shared.slot_invalidate_other _ here] at present
      exact kept present

theorem flight_of_began {now : Time} (moved : Advanced c id sh pc sh' pc' (.token r (.began now))) :
    (sh'.slot r.key).flight = some id := by
  cases moved with
  | enters r now slot stage what happened =>
    cases happened with
    | began idle due => rw [Shared.slot_set]
  | leaves r result checked recorded fallback slot what happened => cases happened

theorem flight_kept (moved : Advanced c id sh pc sh' pc' e) (stands : pc.Stands es sh id)
    {now : Time} (began : ⟨id, .token r (.began now)⟩ ∈ es) (goes : ¬e.Ends)
    (held : (sh.slot r.key).flight = some id) : (sh'.slot r.key).flight = some id := by
  cases moved with
  | enters r' now' slot stage what happened =>
    obtain ⟨-, one, fresh⟩ := stands
    obtain rfl := one _ _ began
    exact absurd began (fresh now)
  | wakes | cancels | unsent | sends | receives => exact held
  | leaves r' result checked recorded fallback slot what happened =>
    have ended : what.ends = true := by cases happened <;> rfl
    exact absurd ⟨r', what, rfl, ended⟩ goes
  | invalidates r' => exact absurd began (stands _ _)

theorem flights_after (moved : Advanced c id sh pc sh' pc' e) (stands : pc.Stands es sh id)
    (flights : FlightHeld es sh) : FlightHeld (es ++ [⟨id, e⟩]) sh' := by
  intro key other going
  rcases working_snoc going with ⟨rfl, r, now, rfl, rfl⟩ | ⟨earlier, goes⟩
  · exact flight_of_began moved
  · have held := flights key other earlier
    by_cases mover : other = id
    · subst mover
      obtain ⟨_, began, r, now, rfl, rfl⟩ := earlier.mem
      exact flight_kept moved stands began (goes rfl) held
    · exact flight_beside moved stands mover held

/-! ## Every run -/

theorem begin_stands (opens : Opening (pc, e))
    (fresh : ∀ rec ∈ es, rec.call ≠ id) : pc.Stands (es ++ [⟨id, e⟩]) sh id := by
  have none_yet : ∀ event, (⟨id, event⟩ : Record Event) ∉ es := fun event inside =>
    fresh _ inside rfl
  cases opens with
  | token r =>
    refine ⟨by simp, one_request fun r' what inside => absurd inside (none_yet _), ?_⟩
    intro now inside
    simp [none_yet] at inside
  | refused | invalidate | ignored =>
    intro r what inside
    simp [none_yet] at inside

theorem flights_begin (opens : Opening (pc, e)) (flights : FlightHeld es sh) :
    FlightHeld (es ++ [⟨id, e⟩]) sh := by
  intro key other going
  rcases working_snoc going with ⟨-, r, now, rfl, -⟩ | ⟨earlier, -⟩
  · cases opens
  · exact flights key other earlier

theorem sound_initial : Sound [] Shared.initial := by
  constructor
  · intro key stored present
    cases present
  · intro key id going
    exact absurd going not_working_nil

theorem held {cond : Calls Shared Pc → Record Event → Prop} {s : Calls Shared Pc}
    (run : RunWhere (system folding c).step cond (Calls.idle Shared.initial) es s) : Held es s := by
  refine RunWhere.calls sound_initial ?_ ?_ ?_ run
  · intro es s id args _ before fresh
    have opens := opening args
    refine ⟨⟨?_, flights_begin opens before.common.flights⟩, begin_stands opens fresh⟩
    intro key stored present
    obtain ⟨r, same, brought⟩ := before.common.cached key stored present
    exact ⟨r, same, brought.later _⟩
  · intro es s id pc input sh' pc' e _ before stood moves _
    have stands := before.own id pc stood
    have moved := advanced moves
    exact ⟨⟨cached_after moved stands before.common.cached,
      flights_after moved stands before.common.flights⟩, stands_after moved stands⟩
  · intro es s t rec other pc _ before happened _ away stood
    have stands := before.own other pc stood
    cases happened with
    | began id args fresh => exact stands.beside away fun key flight => flight
    | moved id pc₀ pc' input sh' e stood₀ moves =>
      exact stands.beside away fun key flight =>
        flight_beside (advanced moves) (before.own id pc₀ stood₀) away flight

end DevHealth.Workloadtoken

import DevHealth.Workloadtoken.ClientSafety

/-! # What `Invalidate` takes back

`Invalidate` drops the token of a slot.  An exchange that is in flight at that moment is not
dropped: its answer is stored when it arrives, and later calls are served from it.  When no
exchange of the slot is in flight, no later call is served a token of an earlier exchange. -/
set_option autoImplicit false
namespace DevHealth.Workloadtoken

open Go Lib

/-- No call that was made after an invalidation returns, for the same audience and scope, a
token of an exchange that had begun before it. -/
def InvalidateTakesEffect (events : List (Record Event)) : Prop :=
  ∀ before between after i id r₀ r what stored,
    events = before ++ ⟨i, .invalidated r₀⟩ :: (between ++ ⟨id, .token r what⟩ :: after) →
    r.key = r₀.key → ⟨id, .token r .called⟩ ∈ between → what.token = some stored →
    ∀ r' now, ⟨stored.source, .token r' (.began now)⟩ ∉ before

/-- An invalidation comes when no exchange of its slot is in flight. -/
def invalidatesIdle (s : Calls Shared Pc) (rec : Record Event) : Bool :=
  match rec.event with
  | .invalidated r => (s.shared.slot r.key).flight.isNone
  | _ => true

/-- The exchange of the call began after every invalidation of the slot. -/
def BegunSince (es : List (Record Event)) (key : Bytes) (id : CallId) : Prop :=
  ∀ before after i r, es = before ++ ⟨i, .invalidated r⟩ :: after → r.key = key →
    ∀ r' now, ⟨id, .token r' (.began now)⟩ ∉ before

/-- The token of the slot, and the exchange in flight, are from after every invalidation. -/
structure Renewed (es : List (Record Event)) (slot : Slot) (key : Bytes) : Prop where
  flight : ∀ id, slot.flight = some id → BegunSince es key id
  entry : ∀ stored, slot.entry = some stored → BegunSince es key stored.source

variable {folding : CaseFolding} {c : TokenClient} {es : List (Record Event)} {sh sh' : Shared}
  {id : CallId} {pc pc' : Pc} {e : Event} {key : Bytes} {slot slot' : Slot}

theorem BegunSince.later {other : CallId} (since : BegunSince es key id)
    (unaffected : ∀ r, e = .invalidated r → r.key ≠ key) :
    BegunSince (es ++ [⟨other, e⟩]) key id := by
  intro before after i r split same
  rcases snoc_eq_append_cons.mp split with ⟨-, -, last⟩ | ⟨rest, -, rfl⟩
  · exact absurd same (unaffected r (congrArg Record.event last))
  · exact since before rest i r rfl same

theorem Renewed.later {other : CallId} (renewed : Renewed es slot key)
    (unaffected : ∀ r, e = .invalidated r → r.key ≠ key) :
    Renewed (es ++ [⟨other, e⟩]) slot key :=
  ⟨fun f running => (renewed.flight f running).later unaffected,
    fun stored present => (renewed.entry stored present).later unaffected⟩

theorem Renewed.usable {now : Time} {stored : Stored} (renewed : Renewed es slot key)
    (found : usable c.toClient slot.entry now = some stored) : BegunSince es key stored.source := by
  obtain ⟨kept, was, source, -, -⟩ := usable_some found
  exact source ▸ renewed.entry kept was

theorem BegunSince.now {r : Request} {now : Time} (fresh : ∀ r' now', ⟨id, .token r' (.began now')⟩ ∉ es) :
    BegunSince (es ++ [⟨id, .token r (.began now)⟩]) key id := by
  intro before after i r₀ split same r' now' inside
  rcases snoc_eq_append_cons.mp split with ⟨-, -, last⟩ | ⟨rest, -, rfl⟩
  · cases congrArg Record.event last
  · exact fresh r' now' (List.mem_append_left _ inside)

theorem entered_renewed {r : Request} {now : Time} {stage : Stage} {what : What}
    (happened : Entered c id slot now (slot', stage, what))
    (fresh : ∀ r' now', ⟨id, .token r' (.began now')⟩ ∉ es) (renewed : Renewed es slot key) :
    Renewed (es ++ [⟨id, .token r what⟩]) slot' key := by
  have unaffected : ∀ r₀, Event.token r what = .invalidated r₀ → r₀.key ≠ key :=
    fun r₀ other => by cases other
  cases happened with
  | served stored found =>
    refine ⟨(renewed.later unaffected).flight, ?_⟩
    rintro _ ⟨⟩
    exact (renewed.usable found).later unaffected
  | waits flight missing running | turnedAway missing idle early =>
    exact ⟨(renewed.later unaffected).flight, fun stored present => by cases present⟩
  | began idle due =>
    refine ⟨?_, fun stored present => (renewed.usable present).later unaffected⟩
    rintro _ ⟨⟩
    exact .now fresh

theorem left_renewed {r : Request} {result : Except ExchangeError Entry}
    {checked recorded fallback : Time} {what : What}
    (happened : Left c id slot result checked recorded fallback (slot', what))
    (held : slot.flight = some id) (renewed : Renewed es slot key) :
    Renewed (es ++ [⟨id, .token r what⟩]) slot' key := by
  have unaffected : ∀ r₀, Event.token r what = .invalidated r₀ → r₀.key ≠ key :=
    fun r₀ other => by cases other
  cases happened with
  | renewed fresh arrived passing =>
    refine ⟨fun f running => (by cases running), ?_⟩
    rintro _ ⟨⟩
    exact (renewed.flight id held).later unaffected
  | kept err stored bad found =>
    refine ⟨fun f running => (by cases running), ?_⟩
    rintro _ ⟨⟩
    exact (renewed.usable found).later unaffected
  | failed err last bad missing =>
    exact ⟨fun f running => (by cases running), fun stored present => by cases present⟩

theorem renewed_after (moved : Advanced c id sh pc sh' pc' e) (stands : pc.Stands es sh id)
    (idle : ∀ r, e = .invalidated r → (sh.slot r.key).flight = none)
    (renewed : Renewed es (sh.slot key) key) : Renewed (es ++ [⟨id, e⟩]) (sh'.slot key) key := by
  cases moved with
  | enters r now slot stage what happened =>
    by_cases here : key = r.key
    · subst here
      rw [Shared.slot_set]
      obtain ⟨-, one, fresh⟩ := stands
      refine entered_renewed happened ?_ renewed
      intro r' now' inside
      obtain rfl := one _ _ inside
      exact fresh now' inside
    · rw [Shared.slot_set_other _ _ here]
      exact renewed.later fun r₀ other => by cases other
  | wakes | cancels | unsent | sends | receives =>
    exact renewed.later fun r₀ other => by cases other
  | leaves r result checked recorded fallback slot what happened =>
    rw [Shared.slot_close]
    by_cases here : key = r.key
    · subst here
      rw [Shared.slot_set]
      exact left_renewed happened stands.2.2.1 renewed
    · rw [Shared.slot_set_other _ _ here]
      exact renewed.later fun r₀ other => by cases other
  | invalidates r =>
    by_cases here : key = r.key
    · subst here
      have none_running := idle r rfl
      rw [Shared.slot_invalidate]
      refine ⟨?_, fun stored present => by cases present⟩
      intro f running
      rw [show (sh.slot r.key).invalidate.flight = (sh.slot r.key).flight from rfl, none_running] at running
      cases running
    · rw [Shared.slot_invalidate_other _ here]
      refine renewed.later ?_
      rintro r₀ ⟨⟩
      exact Ne.symm here

theorem renewed_run {s : Calls Shared Pc}
    (run : RunWhere (system folding c).step (fun s rec => invalidatesIdle s rec = true)
      (Calls.idle Shared.initial) es s) (key : Bytes) : Renewed es (s.shared.slot key) key := by
  induction run with
  | refl => exact ⟨fun f running => (by cases running), fun stored present => by cases present⟩
  | @snoc es s t m rec before success meets ih =>
    cases Behaviour.stepped success with
    | began id args fresh =>
      refine ih.later ?_
      intro r other
      have opens : Opening ((begin args).1, (begin args).2) := opening args
      have first : (begin args).2 = .invalidated r := other
      rw [first] at opens
      exact absurd opens Opening.not_invalidated
    | moved id pc pc' input sh' e stood moves =>
      refine renewed_after (advanced moves) ((held before).own id pc stood) ?_ ih
      rintro r rfl
      simpa [invalidatesIdle] using meets

theorem returned_since {s : Calls Shared Pc} {r : Request} {stage stage' : Stage} {what : What}
    {stored : Stored} (stood : Pc.Stands es s.shared id (.token r stage))
    (moved : Advanced c id s.shared (.token r stage) sh' (.token r stage') (.token r what))
    (renewed : Renewed es (s.shared.slot r.key) r.key) (returned : what.token = some stored) :
    BegunSince es r.key stored.source := by
  cases moved with
  | enters _ now slot _ _ happened =>
    cases happened with
    | served stored found =>
      cases returned
      exact renewed.usable found
    | waits | turnedAway | began => cases returned
  | wakes | cancels | unsent | sends | receives => cases returned
  | leaves _ result checked recorded fallback slot _ happened =>
    cases happened with
    | renewed fresh arrived passing =>
      cases returned
      exact renewed.flight id stood.2.2.1
    | kept err stored bad found =>
      cases returned
      exact renewed.usable found
    | failed => cases returned

/-- In every run in which an invalidation comes when no exchange of its slot is in flight. -/
theorem invalidate_takes_effect {events : List (Record Event)} {s : Calls Shared Pc}
    (run : RunWhere (system folding c).step (fun s rec => invalidatesIdle s rec = true)
      (Calls.idle Shared.initial) events s) : InvalidateTakesEffect events := by
  intro before between after i id r₀ r what stored split same _ returned
  have regroup : events = (before ++ ⟨i, .invalidated r₀⟩ :: between) ++
      ⟨id, .token r what⟩ :: after := by simpa using split
  subst regroup
  obtain ⟨s, m, t, reached, success, -, -⟩ := RunWhere.split run
  have later : what ≠ .called := by
    rintro rfl
    cases returned
  obtain ⟨stage, stage', stood, moved⟩ := token_step success later
  have since := returned_since ((held reached).own id _ stood) moved (renewed_run reached r.key)
    returned
  exact since before between i r₀ rfl same.symm

/-! ### Two runs -/

def invalidateMoves (id : CallId) : List (Move Invocation Input) :=
  [.start id (.invalidate (ascii "auth-service") []), .advance id .invalidate]

def leaveMove (id : CallId) : Move Invocation Input :=
  .advance id (.leave (Time.unix 1001) (Time.unix 1001) (Time.unix 1001))

def renewal (id : CallId) : List (Record Event) :=
  exchangeEvents id ++ [⟨id, .token sampleRequest (.renewed (sampleStored id) (Time.unix 1001))⟩]

def opened (id : CallId) : List (Record Event) :=
  [⟨id, .token sampleRequest .called⟩, ⟨id, .token sampleRequest (.began (Time.unix 1000))⟩]

/-- The invalidation comes while the exchange of call 0 is in flight.  Call 2, made after it,
is served the token of that exchange. -/
theorem invalidated_flight_served :
    ¬∀ events s, Run (system asciiFolding sampleTokenClient).step (Calls.idle Shared.initial)
      events s → InvalidateTakesEffect events := by
  intro claim
  have success : (exec (system asciiFolding sampleTokenClient).step (fun _ _ => true)
      (Calls.idle Shared.initial) (callMoves 0 1000 ++ invalidateMoves 1 ++ exchangeMoves 0 ++
        leaveMove 0 :: callMoves 2 1100)).map Prod.snd =
      some ((opened 0 ++ [⟨1, .invalidating sampleRequest⟩]) ++ ⟨1, .invalidated sampleRequest⟩ ::
        ((renewal 0 ++ [⟨2, .token sampleRequest .called⟩]) ++
          ⟨2, .token sampleRequest (.served (sampleStored 0) (Time.unix 1100))⟩ :: [])) := by
    decide +kernel
  obtain ⟨⟨s, es⟩, executed, rfl⟩ := Option.map_eq_some_iff.mp success
  have effect := claim _ s (runWhere_of_exec (fun _ _ _ => trivial) executed) _ _ _ _ _ _ _ _ _ rfl
    rfl (by simp) rfl
  exact effect sampleRequest (Time.unix 1000) (by simp [opened, sampleStored])

/-- The invalidation comes after the exchange of call 0; call 2 exchanges again. -/
def idleHistory : List (Record Event) :=
  (opened 0 ++ renewal 0 ++ [⟨1, .invalidating sampleRequest⟩]) ++
    ⟨1, .invalidated sampleRequest⟩ :: ((opened 2 ++ exchangeEvents 2) ++
      ⟨2, .token sampleRequest (.renewed (sampleStored 2) (Time.unix 1001))⟩ :: [])

theorem invalidated_idle_renewed : InvalidateTakesEffect idleHistory := by
  have success : (exec (system asciiFolding sampleTokenClient).step invalidatesIdle
      (Calls.idle Shared.initial) (callMoves 0 1000 ++ exchangeMoves 0 ++
        leaveMove 0 :: (invalidateMoves 1 ++ callMoves 2 1000 ++ exchangeMoves 2 ++
        [leaveMove 2]))).map Prod.snd = some idleHistory := by
    decide +kernel
  obtain ⟨⟨s, es⟩, executed, reached⟩ := Option.map_eq_some_iff.mp success
  rw [← reached]
  exact invalidate_takes_effect (runWhere_of_exec (fun _ _ passed => passed) executed)

end DevHealth.Workloadtoken

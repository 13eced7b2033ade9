import DevHealth.Workloadtoken.Client

/-! # Concurrent calls on one token client

Any number of `Token` and `Invalidate` calls share one client.  A `Token` call moves by its
two locked sections, and between them by the exchange, which holds no lock: its subject is
read and its request sent, and its answer arrives.  The clock, the file, the network and the
end of a context are inputs, so that a run is any interleaving with any of them. -/
set_option autoImplicit false
namespace DevHealth.Workloadtoken

open Go Lib

structure Shared where
  slots : Bytes → Option Slot
  closed : List CallId

namespace Shared

def initial : Shared := ⟨fun _ => none, []⟩

def slot (sh : Shared) (key : Bytes) : Slot := (sh.slots key).getD Slot.empty

def set (sh : Shared) (key : Bytes) (slot : Slot) : Shared :=
  { sh with slots := Function.update sh.slots key (some slot) }

def close (sh : Shared) (flight : CallId) : Shared := { sh with closed := flight :: sh.closed }

def invalidate (sh : Shared) (key : Bytes) : Shared :=
  match sh.slots key with
  | none => sh
  | some slot => sh.set key slot.invalidate

variable (sh : Shared) {key other : Bytes}

@[simp] theorem slot_set (key : Bytes) (s : Slot) : (sh.set key s).slot key = s := by
  simp [set, slot]

theorem slot_set_other (s : Slot) (away : other ≠ key) : (sh.set key s).slot other = sh.slot other := by
  simp [set, slot, away]

@[simp] theorem slot_close (flight : CallId) (key : Bytes) : (sh.close flight).slot key = sh.slot key := rfl

/-- A slot that is not there is as good as an empty one. -/
@[simp] theorem slot_invalidate (key : Bytes) : (sh.invalidate key).slot key = (sh.slot key).invalidate := by
  unfold invalidate
  cases held : sh.slots key with
  | none => simp [slot, held, Slot.empty, Slot.invalidate]
  | some s =>
    have here : sh.slot key = s := by simp [slot, held]
    simp [here]

theorem slot_invalidate_other (away : other ≠ key) : (sh.invalidate key).slot other = sh.slot other := by
  unfold invalidate
  split
  · rfl
  · exact sh.slot_set_other _ away

end Shared

inductive Invocation where
  | token (hasContext : Bool) (audience : Bytes) (scope : List Bytes)
  | invalidate (audience : Bytes) (scope : List Bytes)

inductive Pc where
  | token (r : Request) (stage : Stage)
  | invalidate (r : Request)
  | done

inductive CallError where
  | contextRequired
  | invalid (err : String)
  deriving DecidableEq, Repr

inductive Event where
  | token (r : Request) (what : What)
  | refused (err : CallError)
  | invalidating (r : Request)
  | invalidated (r : Request)
  | ignored
  deriving DecidableEq

inductive Input where
  | enter (now : Time)
  | wake
  | cancel
  | send (file : Except String Bytes) (built : Bool) (start : Time)
  | answer (outcome : Outcome)
  | leave (checked recorded fallback : Time)
  | invalidate

def begin : Invocation → Pc × Event
  | .token hasContext audience scope =>
    if !hasContext then (.done, .refused .contextRequired)
    else
      match Request.of audience scope with
      | .error e => (.done, .refused (.invalid e))
      | .ok r => (.token r .loop, .token r .called)
  | .invalidate audience scope =>
    match Request.of audience scope with
    | .error _ => (.done, .ignored)
    | .ok r => (.invalidate r, .invalidating r)

section

variable (folding : CaseFolding) (c : TokenClient)

def advance (id : CallId) (sh : Shared) : Pc → Input → Option (Shared × Pc × Event)
  | .token r .loop, .enter now =>
    let (slot, stage, what) := enter c id (sh.slot r.key) now
    some (sh.set r.key slot, .token r stage, .token r what)
  | .token r (.wait flight), .wake =>
    if flight ∈ sh.closed then some (sh, .token r .loop, .token r .woke) else none
  | .token r (.wait _), .cancel => some (sh, .token r .returned, .token r .cancelled)
  | .token r .exchange, .send file built start =>
    match prepare c.subject file built r.audience r.actions with
    | .error err => some (sh, .token r (.answered (.error err)), .token r (.unsent err))
    | .ok form => some (sh, .token r (.sent start), .token r (.sent form start))
  | .token r (.sent start), .answer outcome =>
    let result := receive folding r.audience start outcome
    some (sh, .token r (.answered result), .token r (.answered result))
  | .token r (.answered result), .leave checked recorded fallback =>
    let (slot, what) := leave c id result (sh.slot r.key) checked recorded fallback
    some ((sh.set r.key slot).close id, .token r .returned, .token r what)
  | .invalidate r, .invalidate => some (sh.invalidate r.key, .done, .invalidated r)
  | _, _ => none

def system : Behaviour Shared Pc Invocation Input Event := ⟨begin, advance folding c⟩

/-! ## What a call can do -/

inductive Opening : Pc × Event → Prop
  | token (r : Request) : Opening (.token r .loop, .token r .called)
  | refused (err : CallError) : Opening (.done, .refused err)
  | invalidate (r : Request) : Opening (.invalidate r, .invalidating r)
  | ignored : Opening (.done, .ignored)

theorem opening (args : Invocation) : Opening (begin args) := by
  cases args with
  | token hasContext audience scope =>
    simp only [begin]
    split_ifs
    · exact .refused _
    · split
      · exact .refused _
      · exact .token _
  | invalidate audience scope =>
    simp only [begin]
    split
    · exact .ignored
    · exact .invalidate _

theorem Opening.called {pc : Pc} {r : Request} {what : What}
    (opens : Opening (pc, .token r what)) : what = .called := by
  cases opens
  rfl

theorem Opening.not_invalidated {pc : Pc} {r : Request} : ¬Opening (pc, .invalidated r) := by
  intro opens
  cases opens

inductive Advanced (id : CallId) (sh : Shared) : Pc → Shared → Pc → Event → Prop
  | enters (r : Request) (now : Time) (slot : Slot) (stage : Stage) (what : What)
      (happened : Entered c id (sh.slot r.key) now (slot, stage, what)) :
      Advanced id sh (.token r .loop) (sh.set r.key slot) (.token r stage) (.token r what)
  | wakes (r : Request) (flight : CallId) (closed : flight ∈ sh.closed) :
      Advanced id sh (.token r (.wait flight)) sh (.token r .loop) (.token r .woke)
  | cancels (r : Request) (flight : CallId) :
      Advanced id sh (.token r (.wait flight)) sh (.token r .returned) (.token r .cancelled)
  | unsent (r : Request) (err : ExchangeError) :
      Advanced id sh (.token r .exchange) sh (.token r (.answered (.error err)))
        (.token r (.unsent err))
  | sends (r : Request) (subject : Bytes × Bytes) (start : Time) :
      Advanced id sh (.token r .exchange) sh (.token r (.sent start))
        (.token r (.sent (exchangeForm subject r.audience r.actions) start))
  | receives (r : Request) (start : Time) (result : Except ExchangeError Entry)
      (arrives : ∀ e, result = .ok e → e.audience = r.audience ∧ e.sent = start) :
      Advanced id sh (.token r (.sent start)) sh (.token r (.answered result))
        (.token r (.answered result))
  | leaves (r : Request) (result : Except ExchangeError Entry) (checked recorded fallback : Time)
      (slot : Slot) (what : What)
      (happened : Left c id (sh.slot r.key) result checked recorded fallback (slot, what)) :
      Advanced id sh (.token r (.answered result)) ((sh.set r.key slot).close id)
        (.token r .returned) (.token r what)
  | invalidates (r : Request) :
      Advanced id sh (.invalidate r) (sh.invalidate r.key) .done (.invalidated r)

variable {folding c} {id : CallId} {sh sh' : Shared} {pc pc' : Pc} {input : Input} {e : Event}

theorem prepare_ok {subject : Subject} {file : Except String Bytes} {built : Bool}
    {audience : Bytes} {actions : List Bytes} {form : Form}
    (success : prepare subject file built audience actions = .ok form) :
    ∃ token, form = exchangeForm token audience actions := by
  simp only [prepare, bind_ok, pure_ok] at success
  obtain ⟨token, -, -, -, same⟩ := success
  exact ⟨token, same.symm⟩

theorem advanced (moves : advance folding c id sh pc input = some (sh', pc', e)) :
    Advanced c id sh pc sh' pc' e := by
  cases pc with
  | done => cases input <;> cases moves
  | invalidate r =>
    cases input with
    | invalidate =>
      cases moves
      exact .invalidates r
    | _ => cases moves
  | token r stage =>
    cases stage with
    | returned => cases input <;> cases moves
    | loop =>
      cases input with
      | enter now =>
        cases moves
        exact .enters r now _ _ _ (entered c id (sh.slot r.key) now)
      | _ => cases moves
    | wait flight =>
      cases input with
      | wake =>
        simp only [advance] at moves
        split at moves
        · rename_i closed
          cases moves
          exact .wakes r flight closed
        · cases moves
      | cancel =>
        cases moves
        exact .cancels r flight
      | _ => cases moves
    | exchange =>
      cases input with
      | send file built start =>
        simp only [advance] at moves
        split at moves
        · rename_i err failed
          cases moves
          exact .unsent r err
        · rename_i form success
          cases moves
          obtain ⟨token, rfl⟩ := prepare_ok success
          exact .sends r token start
      | _ => cases moves
    | sent start =>
      cases input with
      | answer outcome =>
        cases moves
        exact .receives r start _ fun entry success => receive_ok success
      | _ => cases moves
    | answered result =>
      cases input with
      | leave checked recorded fallback =>
        cases moves
        exact .leaves r result checked recorded fallback _ _ (left ..)
      | _ => cases moves

end

/-! ## What the events say -/

namespace What

def token : What → Option Stored
  | .served stored _ | .renewed stored _ | .kept _ _ _ stored => some stored
  | _ => none

def isError : What → Bool
  | .turnedAway _ _ | .cancelled | .failed _ _ _ => true
  | _ => false

def ends : What → Bool
  | .renewed _ _ | .kept _ _ _ _ | .failed _ _ _ => true
  | _ => false

def failure : What → Option Time
  | .kept _ recorded _ _ | .failed _ recorded _ => some recorded
  | _ => none

def reading : What → Option Time
  | .served _ now | .waits _ now | .turnedAway _ now | .began now | .sent _ now => some now
  | .renewed _ last | .kept _ _ last _ | .failed _ _ last => some last
  | _ => none

end What

def Event.reading : Event → Option Time
  | .token _ what => what.reading
  | _ => none

def lastReading (id : CallId) (es : List (Record Event)) : Option Time :=
  (es.filterMap fun rec => if rec.call = id then rec.event.reading else none).getLast?

theorem lastReading_snoc {id : CallId} {es : List (Record Event)} {e : Event} {now : Time}
    (read : e.reading = some now) : lastReading id (es ++ [⟨id, e⟩]) = some now := by
  simp [lastReading, List.filterMap_append, read]

end DevHealth.Workloadtoken

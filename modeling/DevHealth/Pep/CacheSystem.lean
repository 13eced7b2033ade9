import DevHealth.Pep.CacheRep
import DevHealth.Pep.Request
import DevHealth.Lib.Run

/-! # Concurrent calls on one decision cache

Any number of `Decide` and `DecideBatch` calls share one cache with `Invalidate`,
`InvalidateAll` and `Close`.  Every locked section is one step; between two
sections of a call any other call may run.  An action carries what the scheduler
and the environment choose: which call moves, the clock reading of its section,
the answer of the decision point.  An event records what the step did. -/
set_option autoImplicit false
namespace DevHealth.Pep.System

open Go Lib

abbrev CallId := Nat

/-- Locals of a `DecideBatch` call: `out`, `hits` and `misses`. -/
structure Batch where
  reqs : List Request
  out : List Decision
  hits : List Nat
  misses : List Nat
  deriving DecidableEq, Repr

inductive Round where
  | misses
  | hits
  deriving DecidableEq, Repr

def Batch.indexes (b : Batch) : Round → List Nat
  | .misses => b.misses
  | .hits => b.hits

def Batch.request (b : Batch) (i : Nat) : Request :=
  b.reqs.getD i ⟨[], [], [], [], [], []⟩

/-- Where a call stands.  `returning out served answered` has computed its result:
`served` are the positions read from the cache and `answered` those that the
decision point answered during this call. -/
inductive Pc where
  | get (req : Request)
  | stamp (req : Request)
  | send (req : Request) (stamp : Nat) (asked : Time)
  | waiting (req : Request) (stamp : Nat) (asked : Time)
  | observe (req : Request) (stamp : Nat) (asked : Time) (d : Decision)
  | batchGet (b : Batch) (next : Nat)
  | batchStamp (b : Batch) (round : Round)
  | batchSend (b : Batch) (round : Round) (stamp : Nat) (asked : Time)
  | batchWaiting (b : Batch) (round : Round) (stamp : Nat) (asked : Time)
  | batchObserve (b : Batch) (round : Round) (stamp : Nat) (asked : Time)
      (todo : List (Nat × Decision))
  | batchCheck (b : Batch)
  | returning (out : List Decision) (served answered : List Nat)
  | done

inductive Invocation where
  | decide (req : Request)
  | decideBatch (reqs : List Request)

inductive Action where
  | start (id : CallId) (call : Invocation)
  | locked (id : CallId) (now : Time)
  | send (id : CallId)
  | answer (id : CallId) (answers : List Decision)
  | finish (id : CallId)
  | invalidate (aggregateType aggregateID : Bytes) (revision : Int)
  | invalidateAll
  | close

/-- `observed` is a PDP verdict that an open cache recorded, `dropped` one that
`observe` returned on at once: a local deny, or any verdict after `Close`. -/
inductive Event where
  | started (id : CallId)
  | got (id : CallId) (req : Request) (now : Time) (hit : Option Decision)
  | stamped (id : CallId) (stamp : Nat) (asked : Time)
  | sent (id : CallId) (reqs : List Request)
  | answered (id : CallId) (answers : List (Request × Decision))
  | observed (id : CallId) (req : Request) (d : Decision)
  | dropped (id : CallId) (req : Request) (d : Decision)
  | checked (id : CallId) (below : Bool)
  | returned (id : CallId) (out : List Decision) (served answered : List Nat)
  | invalidated
  | invalidateRefused
  | closed
  deriving DecidableEq, Repr

/-- The start of `Decide`: an invalid request is a local deny that touches nothing. -/
def beginDecide (req : Request) : Pc :=
  if !req.valid then .returning [deny (fail .localInvalid)] [] []
  else .get req

def beginBatch (reqs : List Request) : Pc :=
  if reqs = [] then .returning [] [] []
  else if maxBatch < reqs.length then .returning (denyAll (fail .localInvalid) reqs.length) [] []
  else if !reqs.all Request.valid then
    .returning (denyAll (fail .localInvalid) reqs.length) [] []
  else .batchGet ⟨reqs, List.replicate reqs.length Decision.zero, [], []⟩ 0

def begin : Invocation → Pc
  | .decide req => beginDecide req
  | .decideBatch reqs => beginBatch reqs

/-- One round of the read loop: a hit fills its position, a miss is kept for later. -/
def Batch.record (b : Batch) (i : Nat) : Option Decision → Batch
  | some d => { b with out := b.out.set i d, hits := b.hits ++ [i] }
  | none => { b with misses := b.misses ++ [i] }

/-- After the read of a single call: a hit is the answer. -/
def afterGet (req : Request) : Option Decision → Pc
  | some d => .returning [d] [0] []
  | none => .stamp req

/-- After one read of the loop.  Once it ends, the misses are asked, unless there
are none. -/
def afterBatchGet (b : Batch) (next : Nat) : Pc :=
  if next + 1 < b.reqs.length then .batchGet b (next + 1)
  else if b.misses = [] then .batchCheck b
  else .batchStamp b .misses

def afterAsk (b : Batch) : Round → Pc
  | .misses => .batchCheck b
  | .hits => .returning b.out [] (b.misses ++ b.hits)

/-- The error of a batch with a local deny among its answers: the first one's own
error, or no decision when it has none of the client's. -/
def askError (answers : List Decision) : Option Error :=
  (answers.find? Decision.isLocal).map fun d =>
    match d.errOf with
    | some (.client e) => e
    | _ => fail .noDecision

variable {K : Type} [DecidableEq K] (keyOf : Request → K)

def observeEvent (c : Cache K) (id : CallId) (req : Request) (d : Decision) : Event :=
  if d.isLocal || c.closed then .dropped id req d else .observed id req d

def lockedSection (c : Cache K) (id : CallId) (now : Time) :
    Pc → Option (Cache K × Pc × Event)
  | .get req =>
    let (c', hit) := c.get (keyOf req) now
    some (c', afterGet req hit, .got id req now hit)
  | .stamp req => some (c, .send req c.seq now, .stamped id c.seq now)
  | .observe req stamp asked d =>
    some (c.observe (keyOf req) d stamp asked now, .returning [d] [] [0],
      observeEvent c id req d)
  | .batchGet b next =>
    let req := b.request next
    let (c', hit) := c.get (keyOf req) now
    some (c', afterBatchGet (b.record next hit) next, .got id req now hit)
  | .batchStamp b round => some (c, .batchSend b round c.seq now, .stamped id c.seq now)
  | .batchObserve b round stamp asked ((i, d) :: todo) =>
    let req := b.request i
    let b' := { b with out := b.out.set i d }
    some (c.observe (keyOf req) d stamp asked now,
      if todo = [] then afterAsk b' round else .batchObserve b' round stamp asked todo,
      observeEvent c id req d)
  | .batchCheck b =>
    if c.belowWatermark b.out b.hits then some (c, .batchStamp b .hits, .checked id true)
    else some (c, .returning b.out b.hits b.misses, .checked id false)
  | _ => none

def sendStep (id : CallId) : Pc → Option (Pc × Event)
  | .send req stamp asked => some (.waiting req stamp asked, .sent id [req])
  | .batchSend b round stamp asked =>
    some (.batchWaiting b round stamp asked, .sent id ((b.indexes round).map b.request))
  | _ => none

/-- The client answers: one decision for each request that was sent. -/
def answerStep (id : CallId) (answers : List Decision) : Pc → Option (Pc × Event)
  | .waiting req stamp asked =>
    match answers with
    | [d] => some (.observe req stamp asked d, .answered id [(req, d)])
    | _ => none
  | .batchWaiting b round stamp asked =>
    if answers.length = (b.indexes round).length then
      let pairs := ((b.indexes round).map b.request).zip answers
      match askError answers with
      | some e => some (.returning (denyAll e b.reqs.length) [] [], .answered id pairs)
      | none =>
        some (.batchObserve b round stamp asked ((b.indexes round).zip answers),
          .answered id pairs)
    else none
  | _ => none

def finishStep (id : CallId) : Pc → Option (Pc × Event)
  | .returning out served answered => some (.done, .returned id out served answered)
  | _ => none

structure Sys (K : Type) where
  cache : Cache K
  calls : CallId → Option Pc

def initial [Inhabited K] (limits : CacheLimits) : Sys K := ⟨Cache.empty limits, fun _ => none⟩

def Sys.move (s : Sys K) (id : CallId) (next : Pc → Option (Pc × Event)) :
    Option (Sys K × Event) :=
  match s.calls id with
  | none => none
  | some pc => (next pc).map fun (pc', e) => (⟨s.cache, Function.update s.calls id (some pc')⟩, e)

def flush (s : Sys K) : Sys K × Event :=
  let (c, done) := s.cache.invalidateAll
  (⟨c, s.calls⟩, if done then .invalidated else .invalidateRefused)

def step (s : Sys K) : Action → Option (Sys K × Event)
  | .start id call =>
    match s.calls id with
    | some _ => none
    | none => some (⟨s.cache, Function.update s.calls id (some (begin call))⟩, .started id)
  | .locked id now =>
    match s.calls id with
    | none => none
    | some pc => (lockedSection keyOf s.cache id now pc).map fun (c, pc', e) =>
      (⟨c, Function.update s.calls id (some pc')⟩, e)
  | .send id => s.move id (sendStep id)
  | .answer id answers => s.move id (answerStep id answers)
  | .finish id => s.move id (finishStep id)
  | .invalidate _ _ _ => some (flush s)
  | .invalidateAll => some (flush s)
  | .close => some (⟨s.cache.close, s.calls⟩, .closed)

/-! ## What a step does to the cache -/

/-- Events of the steps that leave the cache alone.  A call returns what it had
computed. -/
def Aside (s : Sys K) : Event → Prop
  | .got _ _ _ _ | .observed _ _ _ | .invalidated | .closed => False
  | .returned id out served answered => s.calls id = some (.returning out served answered)
  | _ => True

/-- The call is about to record `d` for `req`, with its stamp and reading. -/
def Pending (s : Sys K) (id : CallId) (req : Request) (d : Decision) (stamp : Nat)
    (asked : Time) : Prop :=
  s.calls id = some (.observe req stamp asked d) ∨
    ∃ b round i todo, s.calls id = some (.batchObserve b round stamp asked ((i, d) :: todo)) ∧
      req = b.request i

inductive Effect (s t : Sys K) : Event → Prop
  | aside {e : Event} : t.cache = s.cache → Aside s e → Effect s t e
  | read (id : CallId) (req : Request) (now : Time) :
      t.cache = (s.cache.get (keyOf req) now).1 →
      Effect s t (.got id req now (s.cache.get (keyOf req) now).2)
  | recorded (id : CallId) (req : Request) (d : Decision) (stamp : Nat) (asked now : Time) :
      Pending s id req d stamp asked → s.cache.closed = false → d.isLocal = false →
      t.cache = s.cache.observe (keyOf req) d stamp asked now → Effect s t (.observed id req d)
  | flushed : s.cache.closed = false → t.cache = s.cache.invalidateAll.1 → Effect s t .invalidated
  | shut : t.cache = s.cache.close → Effect s t .closed

variable {keyOf} {s t : Sys K} {e : Event} {id : CallId}

omit [DecidableEq K] in
theorem move_inv {next : Pc → Option (Pc × Event)} (stepped : s.move id next = some (t, e)) :
    ∃ pc pc', s.calls id = some pc ∧ next pc = some (pc', e) ∧
      t = ⟨s.cache, Function.update s.calls id (some pc')⟩ := by
  unfold Sys.move at stepped
  cases found : s.calls id with
  | none => simp [found] at stepped
  | some pc =>
    rw [found] at stepped
    obtain ⟨⟨pc', e'⟩, moved, result⟩ := Option.map_eq_some_iff.mp stepped
    cases result
    exact ⟨pc, pc', rfl, moved, rfl⟩

theorem locked_inv {now : Time} (stepped : step keyOf s (.locked id now) = some (t, e)) :
    ∃ pc c' pc', s.calls id = some pc ∧ lockedSection keyOf s.cache id now pc = some (c', pc', e) ∧
      t = ⟨c', Function.update s.calls id (some pc')⟩ := by
  simp only [step] at stepped
  cases found : s.calls id with
  | none => simp [found] at stepped
  | some pc =>
    rw [found] at stepped
    obtain ⟨⟨c', pc', e'⟩, moved, result⟩ := Option.map_eq_some_iff.mp stepped
    cases result
    exact ⟨pc, c', pc', rfl, moved, rfl⟩

theorem move_effect {next : Pc → Option (Pc × Event)} (stepped : s.move id next = some (t, e))
    (outside : ∀ pc pc' e, s.calls id = some pc → next pc = some (pc', e) → Aside s e) :
    Effect keyOf s t e := by
  obtain ⟨pc, pc', found, moved, rfl⟩ := move_inv stepped
  exact .aside rfl (outside pc pc' e found moved)

theorem flush_effect : Effect keyOf s (flush s).1 (flush s).2 := by
  by_cases isClosed : s.cache.closed = true
  · have same : s.cache.invalidateAll = (s.cache, false) := by simp [Cache.invalidateAll, isClosed]
    simp only [flush, same]
    exact .aside rfl trivial
  · have isOpen : s.cache.closed = false := Bool.eq_false_iff.mpr isClosed
    have done : s.cache.invalidateAll.2 = true := by simp [Cache.invalidateAll, isOpen]
    simp only [flush, done, if_true]
    exact .flushed isOpen rfl

theorem observe_effect {req : Request} {d : Decision} {stamp : Nat} {asked now : Time}
    (pending : Pending s id req d stamp asked)
    (after : t.cache = s.cache.observe (keyOf req) d stamp asked now) :
    Effect keyOf s t (observeEvent s.cache id req d) := by
  unfold observeEvent
  by_cases skipped : (d.isLocal || s.cache.closed) = true
  · rw [if_pos skipped]
    refine .aside (after.trans ?_) trivial
    unfold Cache.observe
    rcases Bool.or_eq_true_iff.mp skipped with isLocal | isClosed
    · simp [isLocal]
    · simp [isClosed]
  · rw [if_neg skipped]
    simp only [Bool.or_eq_true, not_or, Bool.not_eq_true] at skipped
    exact .recorded id req d stamp asked now pending skipped.2 skipped.1 after

theorem locked_effect {c' : Cache K} {now : Time} {pc pc' : Pc} (found : s.calls id = some pc)
    (moved : lockedSection keyOf s.cache id now pc = some (c', pc', e)) :
    Effect keyOf s ⟨c', Function.update s.calls id (some pc')⟩ e := by
  cases pc with
  | get req => cases moved; exact .read id req now rfl
  | batchGet b next => cases moved; exact .read id (b.request next) now rfl
  | stamp req | batchStamp b round => cases moved; exact .aside rfl trivial
  | observe req stamp asked d => cases moved; exact observe_effect (Or.inl found) rfl
  | batchObserve b round stamp asked todo =>
    cases todo with
    | nil => cases moved
    | cons item todo =>
      obtain ⟨i, d⟩ := item
      cases moved
      exact observe_effect (Or.inr ⟨b, round, i, todo, found, rfl⟩) rfl
  | batchCheck b =>
    simp only [lockedSection] at moved
    split at moved <;> cases moved <;> exact .aside rfl trivial
  | _ => cases moved

inductive Answered (id : CallId) (answers : List Decision) : Pc → Pc → Event → Prop
  | one (req : Request) (stamp : Nat) (asked : Time) (d : Decision) : answers = [d] →
      Answered id answers (.waiting req stamp asked) (.observe req stamp asked d) (.answered id [(req, d)])
  | failed (b : Batch) (round : Round) (stamp : Nat) (asked : Time) (e : Error) :
      answers.length = (b.indexes round).length → askError answers = some e →
      Answered id answers (.batchWaiting b round stamp asked) (.returning (denyAll e b.reqs.length) [] [])
        (.answered id (((b.indexes round).map b.request).zip answers))
  | all (b : Batch) (round : Round) (stamp : Nat) (asked : Time) :
      answers.length = (b.indexes round).length → askError answers = none →
      Answered id answers (.batchWaiting b round stamp asked)
        (.batchObserve b round stamp asked ((b.indexes round).zip answers))
        (.answered id (((b.indexes round).map b.request).zip answers))

theorem answered {answers : List Decision} {pc pc' : Pc} (moved : answerStep id answers pc = some (pc', e)) :
    Answered id answers pc pc' e := by
  cases pc with
  | waiting req stamp asked =>
    simp only [answerStep] at moved
    split at moved <;> cases moved
    exact .one req stamp asked _ rfl
  | batchWaiting b round stamp asked =>
    simp only [answerStep] at moved
    split_ifs at moved with count
    split at moved <;> cases moved
    · exact .failed b round stamp asked _ count (by assumption)
    · exact .all b round stamp asked count (by assumption)
  | _ => cases moved

theorem step_effect {a : Action} (stepped : step keyOf s a = some (t, e)) : Effect keyOf s t e := by
  cases a with
  | start id call =>
    simp only [step] at stepped
    split at stepped <;> cases stepped
    exact .aside rfl trivial
  | locked id now =>
    obtain ⟨pc, c', pc', found, moved, rfl⟩ := locked_inv stepped
    exact locked_effect found moved
  | send id =>
    refine move_effect stepped fun pc pc' e _ moved => ?_
    cases pc <;> cases moved <;> exact True.intro
  | answer id answers =>
    refine move_effect stepped fun pc pc' e _ moved => ?_
    cases answered moved <;> exact True.intro
  | finish id =>
    refine move_effect stepped fun pc pc' e found moved => ?_
    cases pc <;> cases moved
    exact found
  | invalidate aggregateType aggregateID revision | invalidateAll =>
    cases stepped
    exact flush_effect
  | close => cases stepped; exact .shut rfl

end DevHealth.Pep.System

import DevHealth.Pep.Client
import DevHealth.Pep.CacheSafety

/-! # Calls that the decision point does not answer

A local deny is not a verdict.  A call of the cache whose request came back so leaves the
cache as it is, from the send of the request to the return of the call, whatever the other
calls do in between; and a batch, whose hits were read before, returns the same local deny
for all of its requests. -/
set_option autoImplicit false
namespace DevHealth.Pep.System

open Go Lib

variable {K : Type} [DecidableEq K] {keyOf : Request → K}

def Event.callOf : Event → Option CallId
  | .started id | .got id _ _ _ | .stamped id _ _ | .sent id _ | .answered id _
  | .observed id _ _ | .dropped id _ _ | .checked id _ | .returned id _ _ _ => some id
  | .invalidated | .invalidateRefused | .closed => none

/-! ## How one call moves -/

/-- A step of the call at `pc`: a locked section, or a step that leaves the cache alone. -/
inductive Moves (keyOf : Request → K) (id : CallId) (c : Cache K) (pc : Pc) (c' : Cache K)
    (pc' : Pc) (e : Event) : Prop
  | locked (now : Time) : lockedSection keyOf c id now pc = some (c', pc', e) →
      Moves keyOf id c pc c' pc' e
  | sent : c' = c → sendStep id pc = some (pc', e) → Moves keyOf id c pc c' pc' e
  | answered (answers : List Decision) : c' = c → answerStep id answers pc = some (pc', e) →
      Moves keyOf id c pc c' pc' e
  | finished : c' = c → finishStep id pc = some (pc', e) → Moves keyOf id c pc c' pc' e

omit [DecidableEq K] in
theorem observeEvent_callOf (c : Cache K) (id : CallId) (req : Request) (d : Decision) :
    (observeEvent c id req d).callOf = some id := by
  unfold observeEvent
  split_ifs <;> rfl

variable {id : CallId} {e : Event} {s t : Sys K}

theorem lockedSection_callOf {c c' : Cache K} {now : Time} {pc pc' : Pc}
    (moved : lockedSection keyOf c id now pc = some (c', pc', e)) : e.callOf = some id := by
  cases pc with
  | get req | stamp req | batchGet b next | batchStamp b round =>
    cases moved
    rfl
  | observe req stamp asked d =>
    cases moved
    exact observeEvent_callOf c id req d
  | batchObserve b round stamp asked todo =>
    cases todo with
    | nil => cases moved
    | cons item todo =>
      cases moved
      exact observeEvent_callOf c id _ _
  | batchCheck b =>
    simp only [lockedSection] at moved
    split at moved <;> cases moved <;> rfl
  | _ => cases moved

omit [DecidableEq K] in
theorem moved_call {id other : CallId} {pc old new : Pc} (found : s.calls id = some pc)
    (own : s.calls other = some old) (calls : t.calls = Function.update s.calls other (some new))
    (named : e.callOf = some other) :
    (e.callOf ≠ some id ∧ t.calls id = some pc) ∨
      (other = id ∧ old = pc ∧ e.callOf = some id ∧ t.calls id = some new) := by
  rw [calls, named]
  by_cases same : other = id
  · subst same
    rw [found] at own
    cases own
    exact Or.inr ⟨rfl, rfl, rfl, Function.update_self ..⟩
  · refine Or.inl ⟨fun equal => same (Option.some.inj equal), ?_⟩
    rw [Function.update_of_ne (Ne.symm same)]
    exact found

omit [DecidableEq K] in
theorem move_call {id other : CallId} {pc : Pc} {next : Pc → Option (Pc × Event)}
    (found : s.calls id = some pc) (stepped : s.move other next = some (t, e))
    (named : ∀ old new e, next old = some (new, e) → e.callOf = some other) :
    (e.callOf ≠ some id ∧ t.calls id = some pc) ∨
      ∃ pc', other = id ∧ e.callOf = some id ∧ t.calls id = some pc' ∧ t.cache = s.cache ∧
        next pc = some (pc', e) := by
  obtain ⟨old, new, own, moved, rfl⟩ := move_inv stepped
  refine (moved_call found own rfl (named old new e moved)).imp_right ?_
  rintro ⟨rfl, rfl, mine, now⟩
  exact ⟨new, rfl, mine, now, rfl, moved⟩

/-- What a step does to a call that has started: nothing, or one move of its own. -/
theorem step_call {a : Action} {pc : Pc} (found : s.calls id = some pc)
    (stepped : step keyOf s a = some (t, e)) :
    (e.callOf ≠ some id ∧ t.calls id = some pc) ∨ ∃ pc', e.callOf = some id ∧ t.calls id = some pc' ∧
        Moves keyOf id s.cache pc t.cache pc' e := by
  cases a with
  | start other call =>
    simp only [step] at stepped
    cases own : s.calls other with
    | some old => simp [own] at stepped
    | none =>
      rw [own] at stepped
      cases stepped
      have apart : id ≠ other := by
        rintro rfl
        rw [found] at own
        cases own
      refine Or.inl ⟨fun equal => apart (Option.some.inj equal).symm, ?_⟩
      exact (Function.update_of_ne apart _ _).trans found
  | locked other now =>
    obtain ⟨old, c', new, own, moved, rfl⟩ := locked_inv stepped
    refine (moved_call found own rfl (lockedSection_callOf moved)).imp_right ?_
    rintro ⟨rfl, rfl, mine, here⟩
    exact ⟨new, mine, here, .locked now moved⟩
  | send other =>
    have named (old new e) (moved : sendStep other old = some (new, e)) : e.callOf = some other := by
      cases old <;> cases moved <;> rfl
    refine (move_call found stepped named).imp_right ?_
    rintro ⟨pc', rfl, mine, here, same, moved⟩
    exact ⟨pc', mine, here, .sent same moved⟩
  | answer other answers =>
    have named (old new e) (moved : answerStep other answers old = some (new, e)) :
        e.callOf = some other := by
      cases answered moved <;> rfl
    refine (move_call found stepped named).imp_right ?_
    rintro ⟨pc', rfl, mine, here, same, moved⟩
    exact ⟨pc', mine, here, .answered answers same moved⟩
  | finish other =>
    have named (old new e) (moved : finishStep other old = some (new, e)) : e.callOf = some other := by
      cases old <;> cases moved
      rfl
    refine (move_call found stepped named).imp_right ?_
    rintro ⟨pc', rfl, mine, here, same, moved⟩
    exact ⟨pc', mine, here, .finished same moved⟩
  | invalidate aggregateType aggregateID revision | invalidateAll =>
    have outside : (flush s).2.callOf = none := by
      simp only [flush]
      split <;> rfl
    have flushed : flush s = (t, e) := Option.some.inj stepped
    rw [flushed] at outside
    have calls : t.calls = s.calls := congrArg (fun r => r.1.calls) flushed.symm
    refine Or.inl ⟨?_, by rw [calls, found]⟩
    rw [outside]
    intro other
    cases other
  | close =>
    cases stepped
    refine Or.inl ⟨?_, found⟩
    intro other
    cases other

/-! ## A failed answer -/

/-- What the client gives the call that waits, for one reply of the network. -/
def pdpAnswer (reply : Reply) (now : Time) : Pc → Option (List Decision)
  | .waiting req _ _ => some [Client.decide req reply now]
  | .batchWaiting b round _ _ =>
    some (Client.decideBatch ((b.indexes round).map b.request) reply now)
  | _ => none

/-- Every answer to the call comes from the client, for some reply and clock reading, and
has a local deny in it. -/
def AnswersFail (id : CallId) (s : Sys K) : Event → Prop
  | .answered other pairs => other = id →
      (∃ pc reply now, s.calls id = some pc ∧
        pdpAnswer reply now pc = some (pairs.map Prod.snd)) ∧
      ∃ pair ∈ pairs, pair.2.isLocal = true
  | _ => True

def results (id : CallId) (es : List Event) : List (List Decision) :=
  es.filterMap fun e =>
    match e with
    | .returned other out _ _ => if other = id then some out else none
    | _ => none

def Event.isAnswerTo (id : CallId) : Event → Bool
  | .answered other _ => other == id
  | _ => false

/-- The way of a failed call from the state in which it is about to send: whether it has
its answer, what it has returned, and where it stands. -/
inductive Failing : Pc → Bool → List (List Decision) → Pc → Prop
  | send (req : Request) (stamp : Nat) (asked : Time) :
      Failing (.send req stamp asked) false [] (.send req stamp asked)
  | waiting (req : Request) (stamp : Nat) (asked : Time) :
      Failing (.send req stamp asked) false [] (.waiting req stamp asked)
  | observe (req : Request) (stamp : Nat) (asked : Time) (d : Decision) : d.isLocal = true →
      Failing (.send req stamp asked) true [] (.observe req stamp asked d)
  | returning (req : Request) (stamp : Nat) (asked : Time) (d : Decision) : d.isLocal = true →
      Failing (.send req stamp asked) true [] (.returning [d] [] [0])
  | done (req : Request) (stamp : Nat) (asked : Time) (d : Decision) : d.isLocal = true →
      Failing (.send req stamp asked) true [[d]] .done
  | batchSend (b : Batch) (round : Round) (stamp : Nat) (asked : Time) :
      Failing (.batchSend b round stamp asked) false [] (.batchSend b round stamp asked)
  | batchWaiting (b : Batch) (round : Round) (stamp : Nat) (asked : Time) :
      Failing (.batchSend b round stamp asked) false [] (.batchWaiting b round stamp asked)
  | batchReturning (b : Batch) (round : Round) (stamp : Nat) (asked : Time) (e : Error) :
      e.reason.isLocal = true →
      Failing (.batchSend b round stamp asked) true [] (.returning (denyAll e b.reqs.length) [] [])
  | batchDone (b : Batch) (round : Round) (stamp : Nat) (asked : Time) (e : Error) :
      e.reason.isLocal = true →
      Failing (.batchSend b round stamp asked) true [denyAll e b.reqs.length] .done

theorem askError_whole {n : Nat} {answers : List Decision} (whole : Whole n answers)
    (failed : ∃ d ∈ answers, d.isLocal = true) :
    ∃ e : Error, e.reason.isLocal = true ∧ askError answers = some e := by
  obtain ⟨d, inside, isLocal⟩ := failed
  rcases whole.2 with verdicts | ⟨e, local_, rfl⟩
  · rw [verdicts d inside] at isLocal
    cases isLocal
  · have same : d = deny e := List.eq_of_mem_replicate inside
    subst same
    refine ⟨e, local_, ?_⟩
    have positive : n ≠ 0 := by
      rintro rfl
      cases inside
    obtain ⟨m, rfl⟩ := Nat.exists_eq_succ_of_ne_zero positive
    have first : (denyAll e (m + 1)).find? Decision.isLocal = some (deny e) := by
      rw [denyAll, List.replicate_succ, List.find?_cons_of_pos isLocal]
    rw [askError, first]
    rfl

omit [DecidableEq K] in
theorem asked_error {s : Sys K} {b : Batch} {round : Round} {stamp : Nat} {asked : Time}
    {answers : List Decision} (found : s.calls id = some (.batchWaiting b round stamp asked))
    (meets : AnswersFail id s (.answered id (((b.indexes round).map b.request).zip answers)))
    (count : answers.length = (b.indexes round).length) :
    ∃ e : Error, e.reason.isLocal = true ∧ askError answers = some e := by
  obtain ⟨⟨at_, reply, now, here, given⟩, pair, inside, isLocal⟩ := meets rfl
  rw [found] at here
  cases here
  have lengths : ((b.indexes round).map b.request).length = answers.length := by
    rw [List.length_map, count]
  rw [List.map_snd_zip lengths.ge] at given
  have whole := decideBatch_whole ((b.indexes round).map b.request) reply now
  rw [Option.some.inj given] at whole
  exact askError_whole whole ⟨pair.2, (List.of_mem_zip inside).2, isLocal⟩

omit [DecidableEq K] in
theorem failing_answer {s : Sys K} {first pc pc' : Pc} {answers : List Decision}
    {out : List (List Decision)} {told : Bool} (stage : Failing first told out pc)
    (found : s.calls id = some pc) (moved : answerStep id answers pc = some (pc', e))
    (meets : AnswersFail id s e) :
    e.isAnswerTo id = true ∧ results id [e] = [] ∧ Failing first true out pc' := by
  cases answered moved with
  | one req stamp asked d single =>
    cases stage
    obtain ⟨-, pair, inside, isLocal⟩ := meets rfl
    rw [List.mem_singleton.mp inside] at isLocal
    exact ⟨beq_self_eq_true id, rfl, .observe req stamp asked d isLocal⟩
  | failed b round stamp asked err count error =>
    cases stage
    obtain ⟨_, isLocal, same⟩ := asked_error found meets count
    rw [error] at same
    cases same
    exact ⟨beq_self_eq_true id, rfl, .batchReturning b round stamp asked err isLocal⟩
  | all b round stamp asked count none =>
    obtain ⟨_, -, same⟩ := asked_error found meets count
    rw [none] at same
    cases same

theorem failing_move {first pc pc' : Pc} {out : List (List Decision)} {told : Bool}
    (stage : Failing first told out pc) (found : s.calls id = some pc)
    (moves : Moves keyOf id s.cache pc t.cache pc' e) (meets : AnswersFail id s e) :
    t.cache = s.cache ∧ Failing first (told || e.isAnswerTo id) (out ++ results id [e]) pc' := by
  cases moves with
  | locked now moved =>
    -- the only locked section on the way is the one that records the answer
    cases stage with
    | observe req stamp asked d isLocal =>
      simp only [lockedSection, Option.some.injEq, Prod.mk.injEq] at moved
      obtain ⟨kept, rfl, rfl⟩ := moved
      have same : s.cache.observe (keyOf req) d stamp asked now = s.cache := by
        unfold Cache.observe
        rw [if_pos isLocal]
      have event : observeEvent s.cache id req d = .dropped id req d := by
        simp [observeEvent, isLocal]
      rw [event]
      exact ⟨kept.symm.trans same, .returning req stamp asked d isLocal⟩
    | _ => cases moved
  | sent same moved =>
    refine ⟨same, ?_⟩
    cases stage with
    | send req stamp asked =>
      cases moved
      exact .waiting req stamp asked
    | batchSend b round stamp asked =>
      cases moved
      exact .batchWaiting b round stamp asked
    | _ => cases moved
  | answered answers same moved =>
    obtain ⟨isAnswer, nothing, next⟩ := failing_answer stage found moved meets
    rw [isAnswer, Bool.or_true, nothing, List.append_nil]
    exact ⟨same, next⟩
  | finished same moved =>
    refine ⟨same, ?_⟩
    cases stage with
    | returning req stamp asked d isLocal =>
      cases moved
      have returned : results id [Event.returned id [d] [] [0]] = [[d]] := by simp [results]
      rw [returned]
      exact .done req stamp asked d isLocal
    | batchReturning b round stamp asked err isLocal =>
      cases moved
      have returned : results id [Event.returned id (denyAll err b.reqs.length) [] []] =
          [denyAll err b.reqs.length] := by simp [results]
      rw [returned]
      exact .batchDone b round stamp asked err isLocal
    | _ => cases moved

omit [DecidableEq K] in
theorem results_append (id : CallId) (es more : List Event) :
    results id (es ++ more) = results id es ++ results id more :=
  List.filterMap_append ..

omit [DecidableEq K] in
theorem other_event (other : e.callOf ≠ some id) : e.isAnswerTo id = false ∧ results id [e] = [] := by
  cases e with
  | answered id' pairs =>
    have apart : id' ≠ id := fun same => other (congrArg some same)
    exact ⟨beq_eq_false_iff_ne.mpr apart, rfl⟩
  | returned id' out served answered =>
    have apart : id' ≠ id := fun same => other (congrArg some same)
    exact ⟨rfl, by simp [results, apart]⟩
  | _ => exact ⟨rfl, rfl⟩

theorem failing_run {first : Pc} {es : List Event} (start : Failing first false [] first)
    (found : s.calls id = some first) (run : RunWhere (step keyOf) (AnswersFail id) s es t) :
    ∃ pc, t.calls id = some pc ∧ Failing first (es.any (Event.isAnswerTo id)) (results id es) pc := by
  induction run with
  | refl => exact ⟨first, found, start⟩
  | @snoc es s t a e before stepped meets ih =>
    obtain ⟨pc, here, stage⟩ := ih
    rw [List.any_append, results_append, List.any_cons, List.any_nil, Bool.or_false]
    rcases step_call here stepped with ⟨other, same⟩ | ⟨pc', -, next, moves⟩
    · obtain ⟨noAnswer, nothing⟩ := other_event other
      rw [noAnswer, nothing, Bool.or_false, List.append_nil]
      exact ⟨pc, same, stage⟩
    · exact ⟨pc', next, (failing_move stage here moves meets).2⟩

/-- The call at `pc` is about to hand its requests to the client. -/
def Pc.sends : Pc → Bool
  | .send _ _ _ | .batchSend _ _ _ _ => true
  | _ => false

theorem failing_start {pc : Pc} (sends : pc.sends = true) : Failing pc false [] pc := by
  cases pc with
  | send req stamp asked => exact .send req stamp asked
  | batchSend b round stamp asked => exact .batchSend b round stamp asked
  | _ => cases sends

/-- Whatever the decision point does: from the send of a request whose answer has a local
deny on, no step of that call changes the cache, and between them only other calls can.
A batch that has such an answer stands at its return or has returned: as many local denies
as it has requests, all with one reason. -/
theorem failed_call_changes_nothing (keyOf : Request → K) (s t : Sys K) (id : CallId) (pc : Pc)
    (es : List Event) (found : s.calls id = some pc) (sends : pc.sends = true)
    (run : RunWhere (step keyOf) (AnswersFail id) s es t) :
    (∀ a u e, step keyOf t a = some (u, e) → AnswersFail id t e → e.callOf = some id →
      u.cache = t.cache) ∧
    ((∀ e ∈ es, e.callOf = some id) → t.cache = s.cache) ∧
    ∀ b round stamp asked, pc = .batchSend b round stamp asked →
      (∃ pairs, .answered id pairs ∈ es) →
      ∃ out : List Decision, out.length = b.reqs.length ∧
        (∃ reason : Reason, ∀ d ∈ out, d.isLocal = true ∧ d.allowed = false ∧ d.reasonOf = reason) ∧
        (t.calls id = some (.returning out [] []) ∨ results id es = [out]) := by
  have start := failing_start sends
  have still {es : List Event} {t u : Sys K} {a : Action} {e : Event}
      (run : RunWhere (step keyOf) (AnswersFail id) s es t)
      (stepped : step keyOf t a = some (u, e)) (meets : AnswersFail id t e)
      (mine : e.callOf = some id) : u.cache = t.cache := by
    obtain ⟨pc', here, stage⟩ := failing_run start found run
    rcases step_call here stepped with ⟨other, -⟩ | ⟨next, -, -, moves⟩
    · exact absurd mine other
    · exact (failing_move stage here moves meets).1
  refine ⟨fun a u e => still run, ?_, ?_⟩
  · intro alone
    induction run with
    | refl => rfl
    | @snoc es t u a e before stepped meets ih =>
      have earlier := ih fun e' inside => alone e' (List.mem_append_left _ inside)
      have mine : e.callOf = some id := alone e (by simp)
      exact (still before stepped meets mine).trans earlier
  · rintro b round stamp asked rfl ⟨pairs, inside⟩
    obtain ⟨pc', here, stage⟩ := failing_run start found run
    have told : es.any (Event.isAnswerTo id) = true :=
      List.any_eq_true.mpr ⟨_, inside, beq_self_eq_true id⟩
    have denied (err : Error) (isLocal : err.reason.isLocal = true) (d : Decision)
        (member : d ∈ denyAll err b.reqs.length) :
        d.isLocal = true ∧ d.allowed = false ∧ d.reasonOf = err.reason := by
      rw [List.eq_of_mem_replicate member]
      exact ⟨isLocal, rfl, rfl⟩
    have length (err : Error) : (denyAll err b.reqs.length).length = b.reqs.length := by
      simp [denyAll]
    rw [told] at stage
    generalize returned : results id es = outs at stage ⊢
    cases stage with
    | batchReturning _ _ _ _ err isLocal =>
      exact ⟨_, length err, ⟨err.reason, denied err isLocal⟩, Or.inl here⟩
    | batchDone _ _ _ _ err isLocal =>
      exact ⟨_, length err, ⟨err.reason, denied err isLocal⟩, Or.inr rfl⟩

def failsWith (id : CallId) (reply : Reply) (now : Time) (s : Sys K) : Event → Bool
  | .answered _ pairs =>
    ((s.calls id).bind (pdpAnswer reply now) == some (pairs.map Prod.snd)) &&
      pairs.any fun pair => pair.2.isLocal
  | _ => true

omit [DecidableEq K] in
theorem answersFail_of_check {reply : Reply} {now : Time} (s : Sys K) (e : Event)
    (passed : failsWith id reply now s e = true) : AnswersFail id s e := by
  cases e with
  | answered other pairs =>
    intro _
    obtain ⟨given, failed⟩ := Bool.and_eq_true_iff.mp passed
    obtain ⟨pc, found, answer⟩ := Option.bind_eq_some_iff.mp (beq_iff_eq.mp given)
    exact ⟨⟨pc, reply, now, found, answer⟩, List.any_eq_true.mp failed⟩
  | _ => trivial

def halfRead : Batch :=
  ⟨[sampleRequest "api", sampleRequest "web"], [sampleAllow 6, Decision.zero], [0], [1]⟩

def halfAsked : Sys Bytes :=
  ⟨Cache.empty sampleLimits,
    Function.update (fun _ => none) 1 (some (.batchSend halfRead .misses 0 (Time.unix 10)))⟩

/-- The network gives no response: both items are denied. -/
theorem halfAsked_denied :
    ∃ es t, RunWhere (step (cacheKey isPrintAscii sampleDigest)) (AnswersFail 1) halfAsked es t ∧
      t.cache = halfAsked.cache ∧ ∃ out : List Decision, out.length = 2 ∧
        (∃ reason : Reason, ∀ d ∈ out, d.isLocal = true ∧ d.allowed = false ∧ d.reasonOf = reason) ∧
        (t.calls 1 = some (.returning out [] []) ∨ results 1 es = [out]) := by
  have success : (exec (step (cacheKey isPrintAscii sampleDigest))
      (failsWith 1 (.failed .other) (Time.unix 11)) halfAsked
      [.send 1, .answer 1 [deny (fail .unreachable)], .finish 1]).map Prod.snd =
      some [.sent 1 [sampleRequest "web"],
        .answered 1 [(sampleRequest "web", deny (fail .unreachable))],
        .returned 1 (denyAll (fail .unreachable) 2) [] []] := by
    decide +kernel
  obtain ⟨⟨t, es⟩, executed, rfl⟩ := Option.map_eq_some_iff.mp success
  have run := runWhere_of_exec answersFail_of_check executed
  obtain ⟨-, same, denied⟩ := failed_call_changes_nothing _ halfAsked t 1 _ _ rfl rfl run
  refine ⟨_, t, run, same ?_, denied halfRead .misses 0 (Time.unix 10) rfl
    ⟨_, List.mem_cons_of_mem _ (List.mem_cons_self ..)⟩⟩
  decide

end DevHealth.Pep.System

import DevHealth.Workloadtoken.ClientSafety

/-! # One exchange at a time, and the wait after a failure

The exchanges of a slot never overlap.  A slot counts the failures since its last success or
invalidation, and the next exchange begins no earlier than the backoff of that count allows. -/
set_option autoImplicit false
namespace DevHealth.Workloadtoken

open Go Lib

def Event.resets (key : Bytes) : Event → Bool
  | .token r (.renewed _ _) => r.key == key
  | .invalidated r => r.key == key
  | _ => false

/-- The reading at which a failure of the slot was recorded. -/
def Event.failure (key : Bytes) : Event → Option Time
  | .token r what => if r.key = key then what.failure else none
  | _ => none

def streak (key : Bytes) (es : List (Record Event)) : List Time :=
  es.foldl (fun times rec => if rec.event.resets key then [] else
    times ++ (rec.event.failure key).toList) []

variable {folding : CaseFolding} {c : TokenClient} {es : List (Record Event)} {sh sh' : Shared}
  {id : CallId} {pc pc' : Pc} {e : Event} {key : Bytes}

theorem streak_snoc (key : Bytes) (es : List (Record Event)) (rec : Record Event) :
    streak key (es ++ [rec]) = if rec.event.resets key then [] else
      streak key es ++ (rec.event.failure key).toList := by
  rw [streak, List.foldl_append]
  rfl

theorem streak_quiet (resets : e.resets key = false) (fails : e.failure key = none) :
    streak key (es ++ [⟨id, e⟩]) = streak key es := by
  simp [streak_snoc, resets, fails]

theorem streak_append (before : List (Record Event)) {between : List (Record Event)}
    (unbroken : ∀ rec ∈ between, rec.event.resets key = false) :
    streak key (before ++ between) =
      streak key before ++ between.filterMap fun rec => rec.event.failure key := by
  induction between using List.reverseRecOn with
  | nil => simp
  | append_singleton between last ih =>
    have here := unbroken last (by simp)
    have rest := ih fun rec inside => unbroken rec (List.mem_append_left _ inside)
    rw [← List.append_assoc, streak_snoc, rest, here, List.filterMap_append]
    cases fails : last.event.failure key <;> simp [fails]

/-! ## The slot counts the streak -/

/-- The slot has counted these failures and waits from the last of them. -/
structure Counts (c : TokenClient) (slot : Slot) (times : List Time) : Prop where
  failures : slot.failures = (times.length : Int).bmod (2 ^ 64)
  retryAt : ∀ earlier time, times = earlier ++ [time] →
    slot.retryAt = time.add (c.backoff ((earlier.length + 1 : Int).bmod (2 ^ 64)))

theorem Counts.keep {slot slot' : Slot} {times : List Time} (counts : Counts c slot times)
    (failures : slot'.failures = slot.failures) (retryAt : slot'.retryAt = slot.retryAt) :
    Counts c slot' times :=
  ⟨failures.trans counts.failures, fun earlier time split =>
    retryAt.trans (counts.retryAt earlier time split)⟩

theorem Counts.fresh {slot : Slot} (none_yet : slot.failures = 0) : Counts c slot [] :=
  ⟨none_yet, fun earlier time split => by simp at split⟩

theorem Counts.fail {slot : Slot} {times : List Time} (counts : Counts c slot times)
    (err : ExchangeError) (recorded : Time) (entry : Option Stored) :
    Counts c (slot.afterFailure c err recorded entry) (times ++ [recorded]) := by
  constructor
  · simp [Slot.afterFailure, counts.failures]
  · intro earlier time split
    obtain ⟨rfl, rfl⟩ := List.append_singleton_inj.mp split
    simp [Slot.afterFailure, counts.failures]

theorem counts_after (moved : Advanced c id sh pc sh' pc' e)
    (before : Counts c (sh.slot key) (streak key es)) :
    Counts c (sh'.slot key) (streak key (es ++ [⟨id, e⟩])) := by
  cases moved with
  | enters r now slot stage what happened =>
    have quiet : streak key (es ++ [⟨id, .token r what⟩]) = streak key es := by
      apply streak_quiet
      · cases happened <;> rfl
      · cases happened <;> simp [Event.failure, What.failure]
    rw [quiet]
    by_cases here : key = r.key
    · subst here
      rw [Shared.slot_set]
      cases happened <;> exact before.keep rfl rfl
    · rw [Shared.slot_set_other _ _ here]
      exact before
  | wakes | cancels | unsent | sends | receives =>
    rw [streak_quiet rfl (by simp [Event.failure, What.failure])]
    exact before
  | leaves r result checked recorded fallback slot what happened =>
    rw [Shared.slot_close]
    by_cases here : key = r.key
    · subst here
      rw [Shared.slot_set, streak_snoc]
      cases happened with
      | renewed fresh arrived passing =>
        simp only [Event.resets, beq_self_eq_true, if_true]
        exact .fresh rfl
      | kept err stored bad found =>
        simpa [Event.resets, Event.failure, What.failure] using before.fail err recorded (some stored)
      | failed err last bad missing =>
        simpa [Event.resets, Event.failure, What.failure] using before.fail err recorded none
    · have elsewhere : r.key ≠ key := Ne.symm here
      have quiet : streak key (es ++ [⟨id, .token r what⟩]) = streak key es := by
        apply streak_quiet
        · cases happened <;> simp [Event.resets, elsewhere]
        · simp [Event.failure, elsewhere]
      rw [Shared.slot_set_other _ _ here, quiet]
      exact before
  | invalidates r =>
    by_cases here : key = r.key
    · subst here
      rw [Shared.slot_invalidate, streak_snoc]
      simp only [Event.resets, beq_self_eq_true, if_true]
      exact .fresh rfl
    · have elsewhere : r.key ≠ key := Ne.symm here
      rw [Shared.slot_invalidate_other _ here, streak_quiet (by simp [Event.resets, elsewhere]) rfl]
      exact before

theorem begin_quiet (opens : Opening (pc, e)) : e.resets key = false ∧ e.failure key = none := by
  cases opens with
  | token r => exact ⟨rfl, by simp [Event.failure, What.failure]⟩
  | refused | invalidate | ignored => exact ⟨rfl, rfl⟩

theorem counts_run {cond : Calls Shared Pc → Record Event → Prop} {s : Calls Shared Pc}
    (run : RunWhere (system folding c).step cond (Calls.idle Shared.initial) es s) (key : Bytes) :
    Counts c (s.shared.slot key) (streak key es) := by
  induction run with
  | refl => exact .fresh rfl
  | @snoc es s t m rec before success _ ih =>
    cases Behaviour.stepped success with
    | began id args fresh =>
      obtain ⟨resets, fails⟩ := begin_quiet (opening args)
      have quiet : streak key (es ++ [⟨id, (begin args).2⟩]) = streak key es := streak_quiet resets fails
      exact quiet ▸ ih
    | moved id pc pc' input sh' e stood moves => exact counts_after (advanced moves) ih

/-! ## Exchanges of one slot -/

theorem began_step {s t : Calls Shared Pc} {m : Move Invocation Input} {r : Request} {now : Time}
    (success : (system folding c).step s m = some (t, ⟨id, .token r (.began now)⟩)) :
    (s.shared.slot r.key).flight = none ∧ now.before (s.shared.slot r.key).retryAt = false := by
  obtain ⟨stage, stage', -, moved⟩ := token_step success (by simp)
  generalize t.shared = sh' at moved
  cases moved with
  | enters _ _ slot _ _ happened =>
    cases happened with
    | began idle due => exact ⟨idle, due⟩
  | leaves _ result checked recorded fallback slot _ happened => cases happened

/-- Two exchanges of one slot do not overlap, and after `n` failures in a row, here those of
`earlier` and the one at `time`, the next one begins at least the backoff later, as long as
the count of failures fits an `int`. -/
theorem one_exchange_with_backoff {events : List (Record Event)} {s : Calls Shared Pc}
    (run : Run (system folding c).step (Calls.idle Shared.initial) events s) :
    (∀ before between after id id' r r' now now',
      events = before ++ ⟨id, .token r (.began now)⟩ ::
        (between ++ ⟨id', .token r' (.began now')⟩ :: after) → r.key = r'.key →
      ∃ r'' what, ⟨id, .token r'' what⟩ ∈ between ∧ what.ends = true) ∧
    (∀ before between after id r now earlier time,
      events = before ++ between ++ ⟨id, .token r (.began now)⟩ :: after →
      (∀ rec ∈ between, rec.event.resets r.key = false) →
      (between.filterMap fun rec => rec.event.failure r.key) = earlier ++ [time] →
      (streak r.key (before ++ between)).length < 2 ^ 63 →
      min (c.bounds.floor * 2 ^ earlier.length) c.bounds.ceiling ≤ Time.distance now time) := by
  constructor
  · intro before between after id id' r r' now now' split same
    have regroup : events = (before ++ ⟨id, .token r (.began now)⟩ :: between) ++
        ⟨id', .token r' (.began now')⟩ :: after := by simpa using split
    subst regroup
    obtain ⟨s, m, t, reached, success, -, -⟩ := RunWhere.split run
    have idle := (began_step success).1
    have begins : Event.Begins r'.key (.token r (.began now)) := ⟨r, now, rfl, same⟩
    have either : (∃ e, ⟨id, e⟩ ∈ between ∧ Event.Ends e) ∨
        Working (Event.Begins r'.key) Event.Ends
          (before ++ ⟨id, .token r (.began now)⟩ :: between) id :=
      ended_or_working before between begins
    rcases either with ⟨e, inside, r'', what, rfl, ended⟩ | going
    · exact ⟨r'', what, inside, ended⟩
    · rw [(held reached).common.flights r'.key id going] at idle
      cases idle
  · intro before between after id r now earlier time split unbroken fails fits
    subst split
    obtain ⟨s, m, t, reached, success, -, -⟩ := RunWhere.split run
    have due := (began_step success).2
    have counted : streak r.key (before ++ between) = (streak r.key before ++ earlier) ++ [time] := by
      rw [streak_append before unbroken, fails, List.append_assoc]
    rw [counted, List.length_append, List.length_singleton] at fits
    have retryAt := (counts_run reached r.key).retryAt _ _ counted
    rw [Int.bmod_eq_of_le (by omega) (by omega)] at retryAt
    rw [retryAt, Time.before, Time.distance_add, decide_eq_false_iff_not] at due
    have more : c.backoff (earlier.length + 1) ≤
        c.backoff ((streak r.key before ++ earlier).length + 1) :=
      backoff_mono c (by simp)
    rw [backoff_eq] at more
    omega

/-- A failure in second 10, and a second call that exchanges in second 12. -/
def retryHistory : List (Record Event) :=
  unsentHistory 0 10 ++ [⟨0, .token sampleRequest (openFailure 10)⟩,
    ⟨1, .token sampleRequest .called⟩, ⟨1, .token sampleRequest (.began (Time.unix 12))⟩]

theorem retry_run : ∃ s, Run (system asciiFolding sampleTokenClient).step
    (Calls.idle Shared.initial) retryHistory s := by
  apply exists_run (failMoves 0 10 ++ callMoves 1 12)
  decide +kernel

theorem retry_waits :
    (∃ r what, (⟨0, .token r what⟩ : Record Event) ∈
        [(⟨0, .token sampleRequest (.unsent (.subjectUnreadable "open"))⟩ : Record Event),
          ⟨0, .token sampleRequest (openFailure 10)⟩, ⟨1, .token sampleRequest .called⟩] ∧
      what.ends = true) ∧
      min (defaultBackoffFloor * 2 ^ 0) defaultBackoffCeiling ≤
        Time.distance (Time.unix 12) (Time.unix 10) := by
  obtain ⟨s, run⟩ := retry_run
  obtain ⟨single, waits⟩ := one_exchange_with_backoff run
  refine ⟨single [⟨0, .token sampleRequest .called⟩] _ [] 0 1 sampleRequest sampleRequest
    (Time.unix 10) (Time.unix 12) rfl rfl, ?_⟩
  exact waits (unsentHistory 0 10) [⟨0, .token sampleRequest (openFailure 10)⟩,
    ⟨1, .token sampleRequest .called⟩] [] 1 sampleRequest (Time.unix 12) [] (Time.unix 10) rfl
    (by decide +kernel) (by decide +kernel) (by decide +kernel)

/-! ## A count that overflows -/

/-- Waits of one and two nanoseconds. -/
def hastyClient : TokenClient :=
  { sampleTokenClient with bounds := ⟨1, 2, by decide, by decide, by decide⟩ }

/-- `n` calls have failed, one after the other. -/
structure Failed (n : Nat) (es : List (Record Event)) (s : Calls Shared Pc) : Prop where
  run : Run (system asciiFolding hastyClient).step (Calls.idle Shared.initial) es s
  unbroken : ∀ rec ∈ es, rec.event.resets sampleRequest.key = false
  failures : (es.filterMap fun rec => rec.event.failure sampleRequest.key).length = n
  fresh : ∀ id, n ≤ id → s.pcs id = none
  idle : (s.shared.slot sampleRequest.key).flight = none
  empty : (s.shared.slot sampleRequest.key).entry = none

section
variable {n : Nat} {s : Calls Shared Pc}

theorem Failed.begins (failed : Failed n es s) {slot : Slot} (here : s.shared.slot sampleRequest.key = slot) :
    Run (system asciiFolding hastyClient).step (Calls.idle Shared.initial)
      (es ++ [⟨n, .token sampleRequest .called⟩] ++ [⟨n, .token sampleRequest (.began slot.retryAt)⟩])
      (s.place (s.shared.set sampleRequest.key { slot with flight := some n }) n
        (.token sampleRequest .exchange)) := by
  have due : slot.retryAt.before slot.retryAt = false := by
    rw [Time.before, Time.distance_self]
    rfl
  have enters : enter hastyClient n slot slot.retryAt =
      ({ slot with flight := some n }, .exchange, .began slot.retryAt) := by
    have empty : slot.entry = none := here ▸ failed.empty
    have idle : slot.flight = none := here ▸ failed.idle
    simp [enter, usable, empty, idle, due]
  have called : Run _ _ _ (s.place s.shared n (.token sampleRequest .loop)) :=
    failed.run.called (failed.fresh n le_rfl) (.token true (ascii "auth-service") []) rfl
  apply called.moved (.enter slot.retryAt)
  simp only [system, advance, here, enters]

theorem Failed.next (failed : Failed n es s) : ∃ es' t, Failed (n + 1) es' t := by
  have unsent := (failed.begins rfl).moved (.send (.error "open") true Time.zero) rfl
  generalize (s.shared.slot sampleRequest.key).retryAt = now at unsent
  have left := unsent.moved (.leave now now now) rfl
  simp only [Shared.slot_set, failed.empty] at left
  refine ⟨_, _, left, ?_, ?_, ?_, ?_, ?_⟩
  · simpa [or_imp, forall_and, Event.resets] using failed.unbroken
  · simp only [List.filterMap_append, List.length_append, failed.failures]
    rfl
  · intro id above
    have beside : id ≠ n := by omega
    exact (s.place_other _ _ beside).trans (failed.fresh id (by omega))
  · simp [Calls.place]
  · simp [Calls.place]

end

theorem failed_calls (n : Nat) : ∃ es s, Failed n es s := by
  induction n with
  | zero => exact ⟨[], _, .refl, by simp, rfl, fun _ _ => rfl, rfl, rfl⟩
  | succ n ih =>
    obtain ⟨es, s, failed⟩ := ih
    exact failed.next

/-- After `2 ^ 63` failures in a row the count is negative, and the next exchange begins after
the floor again. -/
theorem overflown_count_waits_floor : ∃ events s id now earlier time,
    Run (system asciiFolding hastyClient).step (Calls.idle Shared.initial)
      (events ++ [⟨id, .token sampleRequest (.began now)⟩]) s ∧
    (∀ rec ∈ events, rec.event.resets sampleRequest.key = false) ∧
    (events.filterMap fun rec => rec.event.failure sampleRequest.key) = earlier ++ [time] ∧
    ¬min (hastyClient.bounds.floor * 2 ^ earlier.length) hastyClient.bounds.ceiling ≤
      Time.distance now time := by
  obtain ⟨es, s, failed⟩ := failed_calls (2 ^ 63)
  have count := failed.failures
  rcases List.eq_nil_or_concat' (es.filterMap fun rec => rec.event.failure sampleRequest.key) with
    empty | ⟨earlier, time, fails⟩
  · rw [empty] at count
    cases count
  · rw [fails, List.length_append, List.length_singleton] at count
    have retryAt := (counts_run failed.run sampleRequest.key).retryAt earlier time
      ((streak_append [] failed.unbroken).trans fails)
    have wraps : (earlier.length + 1 : Int).bmod (2 ^ 64) = -2 ^ 63 := by
      rw [← Nat.cast_succ, Nat.succ_eq_add_one, count]
      rfl
    have waits : hastyClient.backoff (-2 ^ 63) = 1 := by decide
    refine ⟨_, _, _, _, earlier, time, failed.begins rfl, ?_, ?_, ?_⟩
    · simpa [or_imp, forall_and, Event.resets] using failed.unbroken
    · rw [List.filterMap_append, fails]
      exact List.append_nil _
    · have large : (2 : Int) ^ 1 ≤ 2 ^ earlier.length := pow_le_pow_right₀ (by decide) (by omega)
      have least : min (hastyClient.bounds.floor * 2 ^ earlier.length) hastyClient.bounds.ceiling = 2 := by
        rw [min_eq_right]
        · rfl
        · exact large.trans_eq (one_mul _).symm
      rw [least, retryAt, wraps, waits, Time.distance_swap, Time.distance_add, Time.distance_self]
      decide

end DevHealth.Workloadtoken

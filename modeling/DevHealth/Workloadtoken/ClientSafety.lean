import DevHealth.Workloadtoken.Agreement
import DevHealth.Workloadtoken.ClientInvariant

/-! # What a `Token` call returns

A token that is handed out came from an exchange for the audience and the actions asked for,
and passes the check at the call's last clock reading.  An error is returned only when the
slot held no token that passes there, or when the context ended in the wait. -/
set_option autoImplicit false
namespace DevHealth.Workloadtoken

open Go Lib

variable {folding : CaseFolding} {c : TokenClient} {es : List (Record Event)}
  {s t : Calls Shared Pc} {m : Move Invocation Input} {id : CallId} {r : Request} {what : What}

theorem token_step (success : (system folding c).step s m = some (t, ⟨id, .token r what⟩))
    (later : what ≠ .called) :
    ∃ stage stage', s.pcs id = some (.token r stage) ∧
      Advanced c id s.shared (.token r stage) t.shared (.token r stage') (.token r what) := by
  have unopened : ∀ args, (begin args).2 ≠ .token r what := by
    intro args first
    have opens : Opening ((begin args).1, (begin args).2) := opening args
    rw [first] at opens
    exact later opens.called
  obtain ⟨pc, pc', input, stood, -, moves⟩ := Behaviour.moved_of_step success unopened
  have moved := advanced moves
  generalize t.shared = sh' at moved ⊢
  cases moved with
  | enters r now slot stage what happened => exact ⟨_, _, stood, .enters r now slot stage what happened⟩
  | wakes r flight closed => exact ⟨_, _, stood, .wakes r flight closed⟩
  | cancels r flight => exact ⟨_, _, stood, .cancels r flight⟩
  | unsent r err => exact ⟨_, _, stood, .unsent r err⟩
  | sends r subject start => exact ⟨_, _, stood, .sends r subject start⟩
  | receives r start result arrives => exact ⟨_, _, stood, .receives r start result arrives⟩
  | leaves r result checked recorded fallback slot what happened =>
    exact ⟨_, _, stood, .leaves r result checked recorded fallback slot what happened⟩

/-! ## Tokens -/

/-- The token is that of an exchange for the request's key. -/
def FromExchange (es : List (Record Event)) (r : Request) (stored : Stored) : Prop :=
  ∃ r', r'.key = r.key ∧ Brought es stored.source r' stored.entry

theorem returned_token {stage stage' : Stage} {sh' : Shared} {stored : Stored} (before : Held es s)
    (stood : s.pcs id = some (.token r stage))
    (moved : Advanced c id s.shared (.token r stage) sh' (.token r stage') (.token r what))
    (returned : what.token = some stored) :
    FromExchange es r stored ∧
      ∃ now, what.reading = some now ∧ passes c.toClient stored.entry now = true := by
  have checked {now : Time} {stored : Stored}
      (found : usable c.toClient (s.shared.slot r.key).entry now = some stored) :
      FromExchange es r stored ∧ passes c.toClient stored.entry now = true := by
    obtain ⟨kept, was, source, same, passing⟩ := usable_some found
    obtain ⟨r', equal, brought⟩ := before.common.cached r.key kept was
    exact ⟨⟨r', equal, source ▸ brought.same same⟩, passing⟩
  cases moved with
  | enters _ now slot _ _ happened =>
    cases happened with
    | served stored found =>
      cases returned
      exact ⟨(checked found).1, now, rfl, (checked found).2⟩
    | waits | turnedAway | began => cases returned
  | wakes | cancels | unsent | sends | receives => cases returned
  | leaves _ result time recorded fallback slot _ happened =>
    cases happened with
    | renewed fresh arrived passing =>
      cases returned
      have brought := (before.own id _ stood).2.2.2 fresh arrived
      exact ⟨⟨r, rfl, brought.same filled_same⟩, time, rfl, filled_same.passes.trans passing⟩
    | kept err stored bad found =>
      cases returned
      exact ⟨(checked found).1, fallback, rfl, (checked found).2⟩
    | failed => cases returned

/-- Every token that `Token` returns, in any interleaving, with any answers and any clock. -/
theorem token_safety {events before after : List (Record Event)} {stored : Stored}
    (run : Run (system folding c).step (Calls.idle Shared.initial) events s)
    (split : events = before ++ ⟨id, .token r what⟩ :: after)
    (returned : what.token = some stored) :
    ⟨id, .token r .called⟩ ∈ before ∧
      (∃ now, lastReading id (before ++ [⟨id, .token r what⟩]) = some now ∧
        passes c.toClient stored.entry now = true) ∧
      ∃ r' subject answer,
        ⟨stored.source, .token r'
          (.sent (exchangeForm subject r.audience r.actions) stored.entry.sent)⟩ ∈ before ∧
        ⟨stored.source, .token r' (.answered (.ok answer))⟩ ∈ before ∧
        answer.token = stored.entry.token ∧ r'.audience = r.audience ∧
        ∀ action, action ∈ r'.scope ↔ action ∈ r.scope := by
  subst split
  obtain ⟨s, m, t, earlier, success, -, -⟩ := RunWhere.split run
  have later : what ≠ .called := by
    rintro rfl
    cases returned
  obtain ⟨stage, stage', stood, moved⟩ := token_step success later
  have holds := held earlier
  obtain ⟨⟨r', key, brought⟩, now, reading, passing⟩ := returned_token holds stood moved returned
  obtain ⟨subject, sent⟩ := brought.sent
  obtain ⟨answer, answered, same⟩ := brought.answered
  obtain ⟨audience, actions⟩ := Request.key_inj key
  refine ⟨(holds.own id _ stood).1, ⟨now, lastReading_snoc reading, passing⟩, r', subject, answer,
    ?_, answered, same.token.symm, audience, Request.scope_of_key key⟩
  rw [← audience, ← actions]
  exact sent

/-! ### A call that exchanges -/

def sampleTokenClient : TokenClient :=
  { sampleClient with
    subject := .kubernetes
    timeout := defaultTimeout
    bounds := ⟨defaultBackoffFloor, defaultBackoffCeiling, by decide, by decide, by decide⟩ }

def sampleRequest : Request :=
  ⟨ascii "auth-service", [], ascii "auth-service ", [], by decide +kernel⟩

/-- A call begins, and enters its first section at the given second. -/
def callMoves (id : CallId) (second : Int) : List (Move Invocation Input) :=
  [.start id (.token true (ascii "auth-service") []), .advance id (.enter (Time.unix second))]

def sampleSubject : Bytes := ascii "aaaa.aaaa.aaaa"

def sampleBody : Bytes :=
  ascii "\x7b\"access_token\":\"" ++ sampleToken ++
    ascii "\",\"token_type\":\"bearer\",\"expires_in\":300," ++
    ascii "\"issued_token_type\":\"urn:ietf:params:oauth:token-type:jwt\"\x7d"

/-- The token of the sample, asked for in second 1000, with its window. -/
def sampleStored (id : CallId) : Stored :=
  ⟨id, { token := sampleToken, audience := ascii "auth-service", sent := Time.unix 1000
         lifetime := 300 * nanosPerSecond, notBefore := Time.unix 1000
         refreshAt := Time.unix 1150, usableUntil := Time.unix 1270 }⟩

def sampleAnswer : Entry :=
  { (sampleStored 0).entry with
    notBefore := Time.zero, refreshAt := Time.zero, usableUntil := Time.zero }

def exchangeMoves (id : CallId) : List (Move Invocation Input) :=
  [.advance id (.send (.ok sampleSubject) true (Time.unix 1000)),
    .advance id (.answer (.response 200 true sampleBody ⟨answerMembers, .refl _⟩))]

def exchangeEvents (id : CallId) : List (Record Event) :=
  [⟨id, .token sampleRequest (.sent
      (exchangeForm (sampleSubject, tokenTypeJWT) (ascii "auth-service") []) (Time.unix 1000))⟩,
    ⟨id, .token sampleRequest (.answered (.ok sampleAnswer))⟩]

def answeredHistory : List (Record Event) :=
  ⟨0, .token sampleRequest .called⟩ :: ⟨0, .token sampleRequest (.began (Time.unix 1000))⟩ ::
    exchangeEvents 0

theorem renewal_run : ∃ s, Run (system asciiFolding sampleTokenClient).step
    (Calls.idle Shared.initial) (answeredHistory ++
      [⟨0, .token sampleRequest (.renewed (sampleStored 0) (Time.unix 1001))⟩]) s := by
  apply exists_run (callMoves 0 1000 ++ exchangeMoves 0 ++
    [.advance 0 (.leave (Time.unix 1001) (Time.unix 1001) (Time.unix 1001))])
  decide +kernel

theorem renewed_token_safe :
    (∃ now, lastReading 0 (answeredHistory ++
        [⟨0, .token sampleRequest (.renewed (sampleStored 0) (Time.unix 1001))⟩]) = some now ∧
      passes sampleClient (sampleStored 0).entry now = true) ∧
      ∃ r' subject, ⟨0, .token r' (.sent (exchangeForm subject (ascii "auth-service") [])
        (Time.unix 1000))⟩ ∈ answeredHistory := by
  obtain ⟨s, run⟩ := renewal_run
  obtain ⟨-, checked, r', subject, -, sent, -⟩ := token_safety run rfl rfl
  exact ⟨checked, r', subject, sent⟩

/-! ## Errors -/

theorem Request.of_ok {audience : Bytes} {scope : List Bytes} {keyed : Bytes × List Bytes}
    (valid : requestKey audience scope = .ok keyed) :
    Request.of audience scope = .ok ⟨audience, scope, keyed.1, keyed.2, valid⟩ := by
  unfold Request.of
  split
  · rename_i e failed
    rw [valid] at failed
    cases failed
  · rename_i key actions success
    have same := Except.ok.inj (valid.symm.trans success)
    subst same
    rfl

theorem failed_call {stage stage' : Stage} {sh' : Shared} (stood : s.pcs id = some (.token r stage))
    (moved : Advanced c id s.shared (.token r stage) sh' (.token r stage') (.token r what))
    (fails : what.isError = true) :
    (what = .cancelled ∧ ∃ flight, s.pcs id = some (.token r (.wait flight))) ∨
      ∃ now, what.reading = some now ∧ ∀ kept, (s.shared.slot r.key).entry = some kept →
        passes c.toClient kept.entry now = false := by
  cases moved with
  | enters _ now slot _ _ happened =>
    cases happened with
    | turnedAway missing idle early =>
      exact Or.inr ⟨now, rfl, fun kept present => usable_none missing present⟩
    | served | waits | began => cases fails
  | cancels _ flight => exact Or.inl ⟨rfl, flight, stood⟩
  | wakes | unsent | sends | receives => cases fails
  | leaves _ result checked recorded fallback slot _ happened =>
    cases happened with
    | failed err last bad missing => exact Or.inr ⟨last, rfl, missing⟩
    | renewed | kept => cases fails

theorem failed_exchange {stage stage' : Stage} {sh sh' : Shared} {time : Time} {now : Stored}
    (moved : Advanced c id sh (.token r stage) sh' (.token r stage') (.token r what))
    (failed : what.failure = some time) (present : (sh'.slot r.key).entry = some now) :
    ∃ kept, (sh.slot r.key).entry = some kept ∧ now.source = kept.source ∧
      SameToken now.entry kept.entry := by
  cases moved with
  | enters _ _ slot _ _ happened => cases happened <;> cases failed
  | wakes | cancels | unsent | sends | receives => cases failed
  | leaves _ result checked recorded fallback slot _ happened =>
    rw [Shared.slot_close, Shared.slot_set] at present
    cases happened with
    | renewed => cases failed
    | kept err stored bad found =>
      cases present
      obtain ⟨kept, was, source, same, -⟩ := usable_some found
      exact ⟨kept, was, source, same⟩
    | failed err last bad missing => cases present

/-- A call with a context, an audience and a scope that are valid is not refused.  It returns
an error only without a usable token, or when its context ended in the wait; and a failed
exchange puts no other token in the place of the cached one. -/
theorem failed_refresh_keeps_token {events : List (Record Event)}
    (run : Run (system folding c).step (Calls.idle Shared.initial) events s) :
    (∀ audience scope keyed, requestKey audience scope = .ok keyed →
      ∃ r, r.audience = audience ∧ r.scope = scope ∧
        begin (.token true audience scope) = (.token r .loop, .token r .called)) ∧
      ∀ before id r what after, events = before ++ ⟨id, .token r what⟩ :: after →
        ∃ s m t, Run (system folding c).step (Calls.idle Shared.initial) before s ∧
          (system folding c).step s m = some (t, ⟨id, .token r what⟩) ∧
          (what.isError = true →
            (what = .cancelled ∧ ∃ flight, s.pcs id = some (.token r (.wait flight))) ∨
              ∃ now, lastReading id (before ++ [⟨id, .token r what⟩]) = some now ∧
                ∀ kept, (s.shared.slot r.key).entry = some kept →
                  passes c.toClient kept.entry now = false) ∧
          (what.failure.isSome = true → ∀ now, (t.shared.slot r.key).entry = some now →
            ∃ kept, (s.shared.slot r.key).entry = some kept ∧ now.source = kept.source ∧
              SameToken now.entry kept.entry) := by
  refine ⟨?_, ?_⟩
  · intro audience scope keyed valid
    refine ⟨⟨audience, scope, keyed.1, keyed.2, valid⟩, rfl, rfl, ?_⟩
    simp only [begin, Request.of_ok valid]
    rfl
  · intro before id r what after split
    subst split
    obtain ⟨s, m, t, earlier, success, -, -⟩ := RunWhere.split run
    refine ⟨s, m, t, earlier, success, ?_⟩
    by_cases first : what = .called
    · subst first
      constructor
      · intro fails
        cases fails
      · intro failed
        cases failed
    · obtain ⟨stage, stage', stood, moved⟩ := token_step success first
      constructor
      · intro fails
        rcases failed_call stood moved fails with ended | ⟨now, reading, missing⟩
        · exact Or.inl ended
        · exact Or.inr ⟨now, lastReading_snoc reading, missing⟩
      · intro failed now present
        obtain ⟨time, recorded⟩ := Option.isSome_iff_exists.mp failed
        exact failed_exchange moved recorded present

/-- The subject cannot be opened, so that the exchange fails in the second it begins. -/
def failMoves (id : CallId) (second : Int) : List (Move Invocation Input) :=
  callMoves id second ++ [.advance id (.send (.error "open") true (Time.unix second)),
    .advance id (.leave (Time.unix second) (Time.unix second) (Time.unix second))]

def unsentHistory (id : CallId) (second : Int) : List (Record Event) :=
  [⟨id, .token sampleRequest .called⟩, ⟨id, .token sampleRequest (.began (Time.unix second))⟩,
    ⟨id, .token sampleRequest (.unsent (.subjectUnreadable "open"))⟩]

def openFailure (second : Int) : What :=
  .failed (.subjectUnreadable "open") (Time.unix second) (Time.unix second)

theorem entry_of_kept {err : ExchangeError} {recorded last : Time} {stored : Stored}
    (success : (system folding c).step s m = some (t, ⟨id, .token r (.kept err recorded last stored)⟩)) :
    (t.shared.slot r.key).entry = some stored := by
  obtain ⟨stage, stage', -, moved⟩ := token_step success (by simp)
  generalize t.shared = sh' at moved ⊢
  cases moved with
  | enters _ _ slot _ _ happened => cases happened
  | leaves _ result checked recorded fallback slot _ happened =>
    cases happened with
    | kept err stored bad found =>
      rw [Shared.slot_close, Shared.slot_set]
      rfl

/-- The second call refreshes the token of the first and cannot open its subject; a third has begun. -/
def refreshHistory : List (Record Event) :=
  answeredHistory ++ ⟨0, .token sampleRequest (.renewed (sampleStored 0) (Time.unix 1001))⟩ ::
    (unsentHistory 1 1269 ++ [⟨2, .token sampleRequest .called⟩])

/-- Before and after the second 1270, up to which the token can be used. -/
def lastUse : Time := Time.ofNanos 1269900000000
def pastUse : Time := Time.ofNanos 1270500000000

def keptEvent : Record Event :=
  ⟨1, .token sampleRequest (.kept (.subjectUnreadable "open") lastUse lastUse (sampleStored 0))⟩

def refusedEvent : Record Event :=
  ⟨2, .token sampleRequest (.turnedAway (some (.subjectUnreadable "open")) pastUse)⟩

theorem refresh_run : ∃ s, Run (system asciiFolding sampleTokenClient).step (Calls.idle Shared.initial)
    (refreshHistory ++ [keptEvent, refusedEvent]) s := by
  apply exists_run (callMoves 0 1000 ++ exchangeMoves 0 ++
    .advance 0 (.leave (Time.unix 1001) (Time.unix 1001) (Time.unix 1001)) :: (callMoves 1 1269 ++
      [.advance 1 (.send (.error "open") true (Time.unix 1269)), .start 2 (.token true (ascii "auth-service") []),
        .advance 1 (.leave lastUse lastUse lastUse), .advance 2 (.enter pastUse)]))
  decide +kernel

theorem refresh_fails_with_token :
    (∃ s m t kept, (system asciiFolding sampleTokenClient).step s m = some (t, keptEvent) ∧
        (s.shared.slot sampleRequest.key).entry = some kept ∧
        (t.shared.slot sampleRequest.key).entry = some (sampleStored 0) ∧
        SameToken (sampleStored 0).entry kept.entry) ∧
      ∃ s now, Run (system asciiFolding sampleTokenClient).step (Calls.idle Shared.initial)
          (refreshHistory ++ [keptEvent]) s ∧
        (s.shared.slot sampleRequest.key).entry = some (sampleStored 0) ∧
        lastReading 2 (refreshHistory ++ [keptEvent] ++ [refusedEvent]) = some now ∧
        passes sampleClient (sampleStored 0).entry now = false := by
  obtain ⟨s, run⟩ := refresh_run
  have keeps := (failed_refresh_keeps_token run).2
  obtain ⟨s, m, t, -, success, -, failed⟩ := keeps refreshHistory 1 sampleRequest _ [refusedEvent] rfl
  obtain ⟨kept, was, -, same⟩ := failed rfl (sampleStored 0) (entry_of_kept success)
  obtain ⟨s', -, -, reached, -, refused, -⟩ :=
    keeps (refreshHistory ++ [keptEvent]) 2 sampleRequest _ [] (List.append_cons _ _ _)
  obtain ⟨u, n, -, stored, -⟩ := RunWhere.last reached
  rcases refused rfl with ⟨ended, -⟩ | ⟨now, reading, missing⟩
  · cases ended
  · exact ⟨⟨s, m, t, kept, success, was, entry_of_kept success, same⟩,
      s', now, reached, entry_of_kept stored, reading, missing _ (entry_of_kept stored)⟩

end DevHealth.Workloadtoken

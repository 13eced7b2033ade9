import DevHealth.Lib.Calls
import DevHealth.Workloadtoken.Exchange

/-! # The token client

`New`, the backoff, and the two locked sections of `Token`: the one at the head of its
loop, which serves the cached token, waits, turns the caller away or begins an exchange,
and the one after the exchange, which keeps the answer or records the failure. -/
set_option autoImplicit false
namespace DevHealth.Workloadtoken

open Go Lib

/-! ## Configuration -/

inductive ConfigField where
  | subject
  | transport
  | issuer
  | exchangeURL
  | timeout
  | refreshFraction
  | safetyMargin
  | backoffFloor
  | backoffCeiling
  deriving DecidableEq, Repr

structure ConfigFieldError where
  field : ConfigField
  err : String
  deriving DecidableEq, Repr

inductive Float64 where
  | nan
  | infinite (negative : Bool)
  | finite (value : Rat)
  deriving DecidableEq, Repr

/-- `transportError` and `endpointError` are what `CheckTransport` and `endpointFor` return
for the transport and the URL. -/
structure Config where
  subject : Option Subject
  path : Bytes
  transportError : Option String
  issuer : Bytes
  endpointError : Option String
  timeout : Int
  refreshFraction : Float64
  safetyMargin : Int
  backoffFloor : Int
  backoffCeiling : Int

def minTimeout : Int := 10 * 1000000
def maxTimeout : Int := 30 * nanosPerSecond
def defaultTimeout : Int := 5 * nanosPerSecond
def defaultRefreshFraction : Rat := 1 / 2
def defaultSafetyMargin : Int := 30 * nanosPerSecond
def maxSafetyMargin : Int := 120 * nanosPerSecond
def defaultBackoffFloor : Int := nanosPerSecond
def defaultBackoffCeiling : Int := 30 * nanosPerSecond
def maxBackoff : Int := 5 * 60 * nanosPerSecond

/-- The bounds of the wait after a failed exchange. -/
structure Backoff where
  floor : Int
  ceiling : Int
  floorPositive : 0 < floor
  ordered : floor ≤ ceiling
  bounded : ceiling ≤ maxBackoff

structure TokenClient extends Client where
  subject : Subject
  timeout : Int
  bounds : Backoff

def newIssuer (issuer : Bytes) :
    Except ConfigFieldError { issuer : Bytes // issuerShape.accepts issuer = true } :=
  if valid : issuerShape.accepts issuer = true then .ok ⟨issuer, valid⟩
  else .error ⟨.issuer, "workloadtoken: the issuer must be the https token issuer URL"⟩

def newTimeout (timeout : Int) : Except ConfigFieldError Int :=
  let timeout := orDefault timeout defaultTimeout
  if timeout < minTimeout ∨ maxTimeout < timeout then
    .error ⟨.timeout, "workloadtoken: the timeout is out of bounds"⟩
  else .ok timeout

def newRefreshFraction (fraction : Float64) : Except ConfigFieldError Rat :=
  let refused : ConfigFieldError :=
    ⟨.refreshFraction, "workloadtoken: the refresh fraction must be in (0, 1)"⟩
  match fraction with
  | .finite value =>
    let value := if value = 0 then defaultRefreshFraction else value
    if 0 < value ∧ value < 1 then .ok value else .error refused
  | _ => .error refused

def newSafetyMargin (margin : Int) : Except ConfigFieldError { margin : Int // 0 < margin } :=
  if refused : orDefault margin defaultSafetyMargin < 0 ∨
      maxSafetyMargin < orDefault margin defaultSafetyMargin then
    .error ⟨.safetyMargin, "workloadtoken: the safety margin is out of bounds"⟩
  else
    .ok ⟨orDefault margin defaultSafetyMargin, by
      have solid : orDefault margin defaultSafetyMargin ≠ 0 := orDefault_ne_zero (by decide)
      omega⟩

def newBackoff (floor ceiling : Int) : Except ConfigFieldError Backoff :=
  let errBackoff := "workloadtoken: the backoff bounds are out of bounds"
  if low : orDefault floor defaultBackoffFloor < 0 ∨
      maxBackoff < orDefault floor defaultBackoffFloor then
    .error ⟨.backoffFloor, errBackoff⟩
  else if high : orDefault ceiling defaultBackoffCeiling < orDefault floor defaultBackoffFloor ∨
      maxBackoff < orDefault ceiling defaultBackoffCeiling then
    .error ⟨.backoffCeiling, errBackoff⟩
  else
    .ok ⟨orDefault floor defaultBackoffFloor, orDefault ceiling defaultBackoffCeiling, by
      have solid : orDefault floor defaultBackoffFloor ≠ 0 := orDefault_ne_zero (by decide)
      omega, by omega, by omega⟩

/-- `New`.  `scale` is the product of a lifetime and the fraction, as floating point rounds
it. -/
def newClient (scale : Rat → Int → Int) (cfg : Config) : Except ConfigFieldError TokenClient := do
  let subject ← obtainOr (if cfg.path = [] then none else cfg.subject)
    ⟨.subject, "workloadtoken: a subject is required"⟩
  if let some err := cfg.transportError then
    throw ⟨.transport, err⟩
  let issuer ← newIssuer cfg.issuer
  if let some err := cfg.endpointError then
    throw ⟨.exchangeURL, err⟩
  let timeout ← newTimeout cfg.timeout
  let fraction ← newRefreshFraction cfg.refreshFraction
  let margin ← newSafetyMargin cfg.safetyMargin
  let bounds ← newBackoff cfg.backoffFloor cfg.backoffCeiling
  return {
    issuer := issuer.1, margin := margin.1, refreshAfter := scale fraction
    issuerValid := issuer.2, marginPositive := margin.2
    subject := subject, timeout := timeout, bounds := bounds }

theorem newBackoff_surjective (bounds : Backoff) : newBackoff bounds.floor bounds.ceiling = .ok bounds := by
  obtain ⟨floor, ceiling, positive, ordered, bounded⟩ := bounds
  have given : orDefault floor defaultBackoffFloor = floor := if_neg (by omega)
  have given' : orDefault ceiling defaultBackoffCeiling = ceiling := if_neg (by omega)
  simp only [newBackoff, given, given']
  rw [dif_neg (by omega), dif_neg (by omega)]

/-! ## Backoff -/

/-- The doubling loop, in 64 bits. -/
def backoffLoop (ceiling : Int) : Nat → Int → Int
  | 0, wait => wait
  | rounds + 1, wait =>
    if wait < ceiling then backoffLoop ceiling rounds ((wait * 2).bmod (2 ^ 64)) else wait

def TokenClient.backoff (c : TokenClient) (failures : Int) : Int :=
  min (backoffLoop c.bounds.ceiling (failures - 1).toNat c.bounds.floor) c.bounds.ceiling

theorem backoffLoop_eq {ceiling : Int} (bounded : ceiling ≤ maxBackoff) (rounds : Nat) :
    ∀ {wait : Int}, 0 < wait →
      min (backoffLoop ceiling rounds wait) ceiling = min (wait * 2 ^ rounds) ceiling := by
  induction rounds with
  | zero =>
    intro wait _
    simp [backoffLoop]
  | succ rounds ih =>
    intro wait positive
    by_cases small : wait < ceiling
    · -- Below the ceiling a doubling stays far from the 64-bit bound.
      have doubled : (wait * 2).bmod (2 ^ 64) = wait * 2 := by
        apply Int.bmod_eq_of_le
        · omega
        · simp only [maxBackoff, nanosPerSecond] at bounded
          omega
      rw [backoffLoop, if_pos small, doubled, ih (by omega), pow_succ', mul_assoc]
    · have reached : ceiling ≤ wait * 2 ^ (rounds + 1) := by
        have grows : wait * 1 ≤ wait * 2 ^ (rounds + 1) :=
          mul_le_mul_of_nonneg_left (one_le_pow₀ (by norm_num)) positive.le
        omega
      rw [backoffLoop, if_neg small, min_eq_right (by omega), min_eq_right reached]

theorem backoff_eq (c : TokenClient) (earlier : Nat) :
    c.backoff (earlier + 1) = min (c.bounds.floor * 2 ^ earlier) c.bounds.ceiling := by
  rw [TokenClient.backoff, add_sub_cancel_right, Int.toNat_natCast]
  exact backoffLoop_eq c.bounds.bounded earlier c.bounds.floorPositive

theorem backoff_mono (c : TokenClient) {earlier later : Nat} (le : earlier ≤ later) :
    c.backoff (earlier + 1) ≤ c.backoff (later + 1) := by
  rw [backoff_eq, backoff_eq]
  apply min_le_min_right
  apply mul_le_mul_of_nonneg_left _ c.bounds.floorPositive.le
  exact pow_le_pow_right₀ (by norm_num) le

/-! ## The slot -/

/-- A token in the cache, with the call whose exchange brought it. -/
structure Stored where
  source : CallId
  entry : Entry
  deriving DecidableEq, Repr

/-- The channel of a flight is known by the call that made it: a call makes at most one. -/
structure Slot where
  entry : Option Stored
  flight : Option CallId
  retryAt : Time
  failures : Int
  lastErr : Option ExchangeError
  deriving DecidableEq, Repr

def Slot.empty : Slot := ⟨none, none, Time.zero, 0, none⟩

inductive Stage where
  | loop
  | wait (flight : CallId)
  | exchange
  | sent (start : Time)
  | answered (result : Except ExchangeError Entry)
  | returned

/-- What a section of a `Token` call did.  `served`, `renewed` and `kept` return a token,
`turnedAway`, `cancelled` and `failed` an error; the last three constructors end an exchange.
A clock reading that decided is part of the event, and `last` is the last one of its
section. -/
inductive What where
  | called
  | served (stored : Stored) (now : Time)
  | waits (flight : CallId) (now : Time)
  | woke
  | cancelled
  | turnedAway (cause : Option ExchangeError) (now : Time)
  | began (now : Time)
  | unsent (err : ExchangeError)
  | sent (form : Form) (start : Time)
  | answered (result : Except ExchangeError Entry)
  | renewed (stored : Stored) (last : Time)
  | kept (err : ExchangeError) (recorded last : Time) (stored : Stored)
  | failed (err : ExchangeError) (recorded last : Time)
  deriving DecidableEq

def passes (c : Client) (e : Entry) (now : Time) : Bool := (checkToken c (some e) now).2.isNone

/-- The entry with the window that the check fills in. -/
def filled (c : Client) (e : Entry) (now : Time) : Entry := (checkToken c (some e) now).1.getD e

def usable (c : Client) (entry : Option Stored) (now : Time) : Option Stored :=
  match entry with
  | none => none
  | some stored =>
    if passes c stored.entry now then
      some { stored with entry := filled c stored.entry now }
    else none

/-- The cached token if there is one; without one the call goes on as it says. -/
def orCached (slot : Slot) (now : Time) (stage : Stage) (what : What) : Slot × Stage × What :=
  match slot.entry with
  | some stored => (slot, .returned, .served stored now)
  | none => (slot, stage, what)

def enter (c : TokenClient) (id : CallId) (slot : Slot) (now : Time) : Slot × Stage × What :=
  let slot := { slot with entry := usable c.toClient slot.entry now }
  match slot.entry.filter fun stored => now.before stored.entry.refreshAt with
  | some stored => (slot, .returned, .served stored now)
  | none =>
    match slot.flight with
    | some flight => orCached slot now (.wait flight) (.waits flight now)
    | none =>
      if now.before slot.retryAt then
        orCached slot now .returned (.turnedAway slot.lastErr now)
      else ({ slot with flight := some id }, .exchange, .began now)

/-- The result of the exchange, once the token is checked. -/
def examine (c : Client) (result : Except ExchangeError Entry) (now : Time) :
    Except ExchangeError Entry :=
  match result with
  | .error err => .error err
  | .ok fresh =>
    match (checkToken c (some fresh) now).2 with
    | some err => .error (.unavailable err)
    | none => .ok (filled c fresh now)

/-- The section after the exchange.  The clock is read for the check of the fresh token, for
the backoff, and for the check of the cached token. -/
def leave (c : TokenClient) (id : CallId) (result : Except ExchangeError Entry) (slot : Slot)
    (checked recorded fallback : Time) : Slot × What :=
  match examine c.toClient result checked with
  | .ok fresh =>
    (⟨some ⟨id, fresh⟩, none, Time.zero, 0, none⟩, .renewed ⟨id, fresh⟩ checked)
  | .error err =>
    let failures := (slot.failures + 1).bmod (2 ^ 64)
    let slot : Slot :=
      { entry := slot.entry, flight := none, failures := failures, lastErr := some err
        retryAt := recorded.add (c.backoff failures) }
    match slot.entry with
    | none => (slot, .failed err recorded recorded)
    | some _ =>
      let slot := { slot with entry := usable c.toClient slot.entry fallback }
      match slot.entry with
      | some stored => (slot, .kept err recorded fallback stored)
      | none => (slot, .failed err recorded fallback)

def Slot.invalidate (slot : Slot) : Slot :=
  { slot with entry := none, retryAt := Time.zero, failures := 0, lastErr := none }

/-! ## What the check reads -/

/-- Two entries of one token: they differ in their windows at most. -/
structure SameToken (e e' : Entry) : Prop where
  token : e.token = e'.token
  audience : e.audience = e'.audience
  sent : e.sent = e'.sent
  lifetime : e.lifetime = e'.lifetime

theorem SameToken.refl (e : Entry) : SameToken e e := ⟨rfl, rfl, rfl, rfl⟩

theorem SameToken.trans {e f g : Entry} (first : SameToken e f) (second : SameToken f g) : SameToken e g :=
  ⟨first.token.trans second.token, first.audience.trans second.audience,
    first.sent.trans second.sent, first.lifetime.trans second.lifetime⟩

variable {c : Client} {e e' : Entry} {now : Time}

theorem fillWindow_same (notBefore expires : Time) :
    SameToken (fillWindow c e notBefore expires) e := ⟨rfl, rfl, rfl, rfl⟩

theorem filled_same : SameToken (filled c e now) e := by
  simp only [filled, checkToken]
  split_ifs
  · exact .refl e
  · split
    · exact .refl e
    · split_ifs <;> exact fillWindow_same ..

theorem SameToken.window (same : SameToken e e') (notBefore expires : Time) :
    fillWindow c e notBefore expires = fillWindow c e' notBefore expires := by
  cases e
  cases e'
  obtain ⟨rfl, rfl, rfl, rfl⟩ := same
  rfl

theorem SameToken.passes (same : SameToken e e') : passes c e now = passes c e' now := by
  simp only [Workloadtoken.passes, checkToken, same.token, same.audience]
  split_ifs
  · rfl
  · split
    · rfl
    · rw [same.window]

theorem usable_some {entry : Option Stored} {stored : Stored} (found : usable c entry now = some stored) :
    ∃ held, entry = some held ∧ stored.source = held.source ∧
      SameToken stored.entry held.entry ∧ passes c stored.entry now = true := by
  cases entry with
  | none => cases found
  | some held =>
    simp only [usable] at found
    split at found
    · rename_i passing
      cases found
      exact ⟨held, rfl, rfl, filled_same, filled_same.passes.trans passing⟩
    · cases found

theorem usable_none {entry : Option Stored} (missing : usable c entry now = none) {held : Stored}
    (present : entry = some held) : passes c held.entry now = false := by
  subst present
  simp only [usable] at missing
  split at missing
  · cases missing
  · rename_i failing
    simpa using failing

/-! ## What the two sections can do -/

section Sections

variable (c : TokenClient) (id : CallId) (slot : Slot)

inductive Entered (now : Time) : Slot × Stage × What → Prop
  | served (stored : Stored) (found : usable c.toClient slot.entry now = some stored) :
      Entered now ({ slot with entry := some stored }, .returned, .served stored now)
  | waits (flight : CallId) (missing : usable c.toClient slot.entry now = none)
      (running : slot.flight = some flight) :
      Entered now ({ slot with entry := none }, .wait flight, .waits flight now)
  | turnedAway (missing : usable c.toClient slot.entry now = none) (idle : slot.flight = none)
      (early : now.before slot.retryAt = true) :
      Entered now ({ slot with entry := none }, .returned, .turnedAway slot.lastErr now)
  | began (idle : slot.flight = none) (due : now.before slot.retryAt = false) :
      Entered now ({ slot with entry := usable c.toClient slot.entry now, flight := some id },
        .exchange, .began now)

theorem entered (now : Time) : Entered c id slot now (enter c id slot now) := by
  have begins (idle : slot.flight = none) (due : ¬now.before slot.retryAt = true) : Entered c id slot now
        ({ slot with entry := usable c.toClient slot.entry now, flight := some id }, .exchange, .began now) :=
    .began idle (Bool.eq_false_iff.mpr due)
  cases found : usable c.toClient slot.entry now with
  | some stored =>
    have serves : Entered c id slot now
        ({ slot with entry := some stored }, .returned, .served stored now) := .served stored found
    simp only [enter, found]
    split
    · rename_i fresh
      obtain ⟨rfl⟩ := Option.filter_eq_some_iff.mp fresh |>.1
      exact serves
    · split
      · exact serves
      · rename_i idle
        split
        · exact serves
        · rename_i due
          rw [found] at begins
          exact begins idle due
  | none =>
    simp only [enter, found, Option.filter_none]
    split
    · rename_i flight running
      exact .waits flight found running
    · rename_i idle
      split
      · rename_i early
        exact .turnedAway found idle early
      · rename_i due
        rw [found] at begins
        exact begins idle due

def Slot.afterFailure (err : ExchangeError) (recorded : Time) (entry : Option Stored) : Slot :=
  let failures := (slot.failures + 1).bmod (2 ^ 64)
  ⟨entry, none, recorded.add (c.backoff failures), failures, some err⟩

inductive Left (result : Except ExchangeError Entry) (checked recorded fallback : Time) :
    Slot × What → Prop
  | renewed (fresh : Entry) (arrived : result = .ok fresh)
      (passing : passes c.toClient fresh checked = true) :
      Left result checked recorded fallback
        (⟨some ⟨id, filled c.toClient fresh checked⟩, none, Time.zero, 0, none⟩,
          .renewed ⟨id, filled c.toClient fresh checked⟩ checked)
  | kept (err : ExchangeError) (stored : Stored)
      (bad : examine c.toClient result checked = .error err)
      (found : usable c.toClient slot.entry fallback = some stored) :
      Left result checked recorded fallback
        (slot.afterFailure c err recorded (some stored), .kept err recorded fallback stored)
  | failed (err : ExchangeError) (last : Time)
      (bad : examine c.toClient result checked = .error err)
      (missing : ∀ held, slot.entry = some held → passes c.toClient held.entry last = false) :
      Left result checked recorded fallback
        (slot.afterFailure c err recorded none, .failed err recorded last)

theorem left (result : Except ExchangeError Entry) (checked recorded fallback : Time) :
    Left c id slot result checked recorded fallback (leave c id result slot checked recorded fallback) := by
  cases bad : examine c.toClient result checked with
  | ok kept =>
    cases result with
    | error err => cases bad
    | ok fresh =>
      simp only [examine] at bad
      split at bad
      · cases bad
      · rename_i clean
        cases bad
        simp only [leave, examine, clean]
        exact .renewed fresh rfl (by simp [passes, clean])
  | error err =>
    cases held : slot.entry with
    | none =>
      simp only [leave, bad, held]
      have fails : Left c id slot result checked recorded fallback
          (slot.afterFailure c err recorded none, .failed err recorded recorded) :=
        .failed err recorded bad (by simp [held])
      exact fails
    | some stored =>
      simp only [leave, bad, held]
      cases found : usable c.toClient (some stored) fallback with
      | some stored' =>
        have keeps : Left c id slot result checked recorded fallback
            (slot.afterFailure c err recorded (some stored'), .kept err recorded fallback stored') :=
          .kept err stored' bad (held ▸ found)
        exact keeps
      | none =>
        have fails : Left c id slot result checked recorded fallback
            (slot.afterFailure c err recorded none, .failed err recorded fallback) :=
          .failed err fallback bad fun other present =>
            usable_none found (held.symm.trans present)
        exact fails

end Sections
end DevHealth.Workloadtoken

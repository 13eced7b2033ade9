import DevHealth.Authverify.WorkloadToken
import DevHealth.Lib.Calls

/-! # The JWKS client

`NewJWKSClient`, and any number of `PublicKey`, `ResolveKey` and `Refresh` calls on one
client.  A lookup reads the clock, then takes the lock; a refresh begins and ends in two
locked sections with the fetch between them.  What the issuer answers is the environment's:
a fetch ends with a key set or with an error. -/
set_option autoImplicit false
namespace DevHealth.Authverify.Jwks

open Go Lib

/-! ## Configuration -/

def second : Int := nanosPerSecond
def minute : Int := 60 * second
def hour : Int := 60 * minute

structure JWKSClientConfig where
  issuer : Bytes
  timeout : Int
  maxBodyBytes : Int
  maxKeys : Int
  cacheTTL : Int
  refreshFloor : Int
  outageGrace : Int

structure JWKSClient where
  issuer : Bytes
  timeout : Int
  maxBodyBytes : Int
  maxKeys : Int
  cacheTTL : Int
  refreshFloor : Int
  outageGrace : Int
  ttlBounded : cacheTTL ≤ hour
  floorPositive : 0 < refreshFloor
  floorWithin : refreshFloor ≤ cacheTTL
  gracePositive : 0 < outageGrace
  graceBounded : outageGrace ≤ hour

def newJWKSClient (cfg : JWKSClientConfig) : Except String JWKSClient :=
  if issuerPattern.accepts cfg.issuer = false then
    .error "authverify: jwks client needs an https issuer"
  else
    let timeout := orDefault cfg.timeout (5 * second)
    let maxBodyBytes := orDefault cfg.maxBodyBytes (64 * 1024)
    let maxKeys := orDefault cfg.maxKeys 32
    let cacheTTL := orDefault cfg.cacheTTL (5 * minute)
    let refreshFloor := orDefault cfg.refreshFloor (30 * second)
    let outageGrace := orDefault cfg.outageGrace (10 * minute)
    if refused : timeout < 0 ∨ 30 * second < timeout ∨ maxBodyBytes < 0 ∨ maxKeys < 0 ∨
        cacheTTL < 0 ∨ hour < cacheTTL ∨ refreshFloor < 0 ∨ cacheTTL < refreshFloor ∨
        outageGrace < 0 ∨ hour < outageGrace then
      .error "authverify: jwks client limits are out of bounds"
    else
      have solid : refreshFloor ≠ 0 := orDefault_ne_zero (by decide)
      have kept : outageGrace ≠ 0 := orDefault_ne_zero (by decide)
      .ok ⟨cfg.issuer, timeout, maxBodyBytes, maxKeys, cacheTTL, refreshFloor, outageGrace,
        by omega, by omega, by omega, by omega, by omega⟩

/-! ## The client -/

/-- The keys of a fetched document: the parser refuses an empty one, a key id that comes
twice, and a key of another size. -/
structure KeySet where
  keys : List (Bytes × Bytes)
  present : keys ≠ []
  distinct : (keys.map Prod.fst).Nodup
  sized : ∀ entry ∈ keys, entry.2.length = publicKeySize
  deriving DecidableEq

def KeySet.get (set : KeySet) (kid : Bytes) : Option Bytes :=
  (set.keys.find? fun entry => entry.1 == kid).map Prod.snd

theorem KeySet.get_sized {set : KeySet} {kid key : Bytes} (found : set.get kid = some key) :
    key.length = publicKeySize := by
  obtain ⟨entry, first, rfl⟩ := Option.map_eq_some_iff.mp found
  exact set.sized entry (List.mem_of_find?_eq_some first)

/-- Every failed discovery or fetch: `ErrJWKSUnavailable`. -/
inductive FetchError where
  | jwksUnavailable
  deriving DecidableEq, Repr

/-- The fields under the lock, and the flights: `results` is the field `err` of the flight
that a call made, `closed` are those whose channel is closed. -/
structure Shared where
  keys : Option KeySet
  fetchedAt : Time
  lastAttempt : Time
  attempted : Bool
  inflight : Option CallId
  lastErr : Option FetchError
  results : CallId → Option FetchError
  closed : List CallId

def Shared.initial : Shared :=
  ⟨none, Time.zero, Time.zero, false, none, none, fun _ => none, []⟩

/-- The key for `kid`: inside the TTL, or after a refresh inside the outage grace. -/
def cached (c : JWKSClient) (sh : Shared) (kid : Bytes) (now : Time) (afterRefresh : Bool) :
    Option Bytes :=
  match sh.keys with
  | none => none
  | some keys =>
    let age := now.sub sh.fetchedAt
    if c.cacheTTL ≤ age ∧ (!afterRefresh ∨ c.cacheTTL + c.outageGrace ≤ age) then none
    else
      match keys.get kid with
      | none => none
      | some key => if key.length = publicKeySize then some key else none

/-- A `PublicKey` call, or a `ResolveKey` call around one. -/
structure Lookup where
  kid : Bytes
  resolve : Bool
  deriving DecidableEq, Repr

inductive Task where
  | lookup (l : Lookup)
  | refresh
  deriving DecidableEq, Repr

/-- Where a call stands: before its next clock reading, its next section, or in its wait. -/
inductive Pc where
  | first (l : Lookup)
  | firstLook (l : Lookup) (now : Time)
  | refresh (task : Task)
  | waiting (task : Task) (flight : CallId)
  | fetching (task : Task)
  | closing (task : Task) (err : Option FetchError)
  | second (l : Lookup)
  | secondLook (l : Lookup) (now : Time)
  | reason (kid : Bytes)
  | returned

/-- `looked` is a section of `cached`: a key that it found is returned, and so is a miss
after the refresh of a `PublicKey` call.  `tooSoon`, `woken` and `closed` end a refresh;
`unknown` and `unavailable` are the two answers of `ResolveKey` to a miss. -/
inductive Event where
  | started (task : Task)
  | read (now : Time)
  | looked (l : Lookup) (afterRefresh : Bool) (now : Time) (found : Option Bytes)
  | joined (flight : CallId)
  | tooSoon (now : Time)
  | began (now : Time)
  | stored (keys : KeySet) (now : Time)
  | missed (err : FetchError)
  | closed (err : Option FetchError)
  | woken (flight : CallId) (err : Option FetchError)
  | unknown (kid : Bytes)
  | unavailable (kid : Bytes) (err : FetchError)
  deriving DecidableEq

inductive Input where
  | read (now : Time)
  | lock
  | enter (now : Time)
  | finish (result : Except FetchError KeySet) (now : Time)
  | close
  | wake

def begin : Task → Pc × Event
  | .lookup l => (.first l, .started (.lookup l))
  | .refresh => (.refresh .refresh, .started .refresh)

/-- After the refresh: the lookup goes on, or `Refresh` returns. -/
def Task.next : Task → Pc
  | .lookup l => .second l
  | .refresh => .returned

/-- The first section of `refresh`. -/
def enter (c : JWKSClient) (id : CallId) (sh : Shared) (task : Task) (now : Time) :
    Shared × Pc × Event :=
  match sh.inflight with
  | some flight => (sh, .waiting task flight, .joined flight)
  | none =>
    if sh.attempted && decide (now.sub sh.lastAttempt < c.refreshFloor) then
      (sh, task.next, .tooSoon now)
    else
      ({ sh with inflight := some id, lastAttempt := now, attempted := true },
        .fetching task, .began now)

/-- The second section of `refresh`. -/
def finish (id : CallId) (sh : Shared) (task : Task) (now : Time) :
    Except FetchError KeySet → Shared × Pc × Event
  | .ok keys =>
    ({ sh with
        keys := some keys, fetchedAt := now, lastErr := none, inflight := none
        results := Function.update sh.results id none },
      .closing task none, .stored keys now)
  | .error err =>
    ({ sh with
        lastErr := some err, inflight := none
        results := Function.update sh.results id (some err) },
      .closing task (some err), .missed err)

def look (c : JWKSClient) (sh : Shared) (l : Lookup) (now : Time) (afterRefresh : Bool)
    (onMiss : Pc) : Shared × Pc × Event :=
  match cached c sh l.kid now afterRefresh with
  | some key => (sh, .returned, .looked l afterRefresh now (some key))
  | none => (sh, onMiss, .looked l afterRefresh now none)

def advance (c : JWKSClient) (id : CallId) (sh : Shared) : Pc → Input → Option (Shared × Pc × Event)
  | .first l, .read now => some (sh, .firstLook l now, .read now)
  | .firstLook l now, .lock => some (look c sh l now false (.refresh (.lookup l)))
  | .refresh task, .enter now => some (enter c id sh task now)
  | .waiting task flight, .wake =>
    if flight ∈ sh.closed then some (sh, task.next, .woken flight (sh.results flight)) else none
  | .fetching task, .finish result now => some (finish id sh task now result)
  | .closing task err, .close =>
    some ({ sh with closed := id :: sh.closed }, task.next, .closed err)
  | .second l, .read now => some (sh, .secondLook l now, .read now)
  | .secondLook l now, .lock =>
    some (look c sh l now true (if l.resolve then .reason l.kid else .returned))
  | .reason kid, .lock =>
    match sh.lastErr with
    | none => some (sh, .returned, .unknown kid)
    | some err => some (sh, .returned, .unavailable kid err)
  | _, _ => none

def system (c : JWKSClient) : Behaviour Shared Pc Task Input Event := ⟨begin, advance c⟩

/-! ## What a call can do -/

inductive Advanced (c : JWKSClient) (id : CallId) (sh : Shared) : Pc → Shared → Pc → Event → Prop
  | reads (l : Lookup) (now : Time) :
      Advanced c id sh (.first l) sh (.firstLook l now) (.read now)
  | finds (l : Lookup) (now : Time) (key : Bytes) (found : cached c sh l.kid now false = some key) :
      Advanced c id sh (.firstLook l now) sh .returned (.looked l false now (some key))
  | misses (l : Lookup) (now : Time) (missing : cached c sh l.kid now false = none) :
      Advanced c id sh (.firstLook l now) sh (.refresh (.lookup l)) (.looked l false now none)
  | joins (task : Task) (flight : CallId) (running : sh.inflight = some flight) :
      Advanced c id sh (.refresh task) sh (.waiting task flight) (.joined flight)
  | tooSoon (task : Task) (now : Time) (idle : sh.inflight = none) (tried : sh.attempted = true)
      (early : now.sub sh.lastAttempt < c.refreshFloor) :
      Advanced c id sh (.refresh task) sh task.next (.tooSoon now)
  | begins (task : Task) (now : Time) (idle : sh.inflight = none)
      (due : sh.attempted = true → c.refreshFloor ≤ now.sub sh.lastAttempt) :
      Advanced c id sh (.refresh task)
        { sh with inflight := some id, lastAttempt := now, attempted := true }
        (.fetching task) (.began now)
  | stores (task : Task) (keys : KeySet) (now : Time) :
      Advanced c id sh (.fetching task)
        { sh with
          keys := some keys, fetchedAt := now, lastErr := none, inflight := none
          results := Function.update sh.results id none }
        (.closing task none) (.stored keys now)
  | fails (task : Task) (err : FetchError) :
      Advanced c id sh (.fetching task)
        { sh with
          lastErr := some err, inflight := none
          results := Function.update sh.results id (some err) }
        (.closing task (some err)) (.missed err)
  | closes (task : Task) (err : Option FetchError) :
      Advanced c id sh (.closing task err) { sh with closed := id :: sh.closed } task.next
        (.closed err)
  | wakes (task : Task) (flight : CallId) (closed : flight ∈ sh.closed) :
      Advanced c id sh (.waiting task flight) sh task.next (.woken flight (sh.results flight))
  | readsAgain (l : Lookup) (now : Time) :
      Advanced c id sh (.second l) sh (.secondLook l now) (.read now)
  | findsAgain (l : Lookup) (now : Time) (key : Bytes)
      (found : cached c sh l.kid now true = some key) :
      Advanced c id sh (.secondLook l now) sh .returned (.looked l true now (some key))
  | missesAgain (l : Lookup) (now : Time) (missing : cached c sh l.kid now true = none) :
      Advanced c id sh (.secondLook l now) sh (if l.resolve then .reason l.kid else .returned)
        (.looked l true now none)
  | unknown (kid : Bytes) (clean : sh.lastErr = none) :
      Advanced c id sh (.reason kid) sh .returned (.unknown kid)
  | unavailable (kid : Bytes) (err : FetchError) (failed : sh.lastErr = some err) :
      Advanced c id sh (.reason kid) sh .returned (.unavailable kid err)

variable {c : JWKSClient} {id : CallId} {sh sh' : Shared} {pc pc' : Pc} {input : Input} {e : Event}

theorem entered {task : Task} {now : Time} (entry : enter c id sh task now = (sh', pc', e)) :
    Advanced c id sh (.refresh task) sh' pc' e := by
  simp only [enter] at entry
  split at entry
  · rename_i flight running
    cases entry
    exact .joins task flight running
  · rename_i idle
    split at entry
    · rename_i early
      simp only [Bool.and_eq_true, decide_eq_true_eq] at early
      cases entry
      exact .tooSoon task now idle early.1 early.2
    · rename_i due
      simp only [Bool.and_eq_true, decide_eq_true_eq, not_and, not_lt] at due
      cases entry
      exact .begins task now idle due

theorem advanced (moves : advance c id sh pc input = some (sh', pc', e)) : Advanced c id sh pc sh' pc' e := by
  cases pc with
  | first l =>
    cases input with
    | read now =>
      cases moves
      exact .reads l now
    | _ => cases moves
  | firstLook l now =>
    cases input with
    | lock =>
      simp only [advance, look] at moves
      split at moves
      · rename_i key found
        cases moves
        exact .finds l now key found
      · rename_i missing
        cases moves
        exact .misses l now missing
    | _ => cases moves
  | refresh task =>
    cases input with
    | enter now => exact entered (Option.some.inj moves)
    | _ => cases moves
  | waiting task flight =>
    cases input with
    | wake =>
      simp only [advance] at moves
      split at moves
      · rename_i closed
        cases moves
        exact .wakes task flight closed
      · cases moves
    | _ => cases moves
  | fetching task =>
    cases input with
    | finish result now =>
      cases result with
      | ok keys =>
        cases moves
        exact .stores task keys now
      | error err =>
        cases moves
        exact .fails task err
    | _ => cases moves
  | closing task err =>
    cases input with
    | close =>
      cases moves
      exact .closes task err
    | _ => cases moves
  | second l =>
    cases input with
    | read now =>
      cases moves
      exact .readsAgain l now
    | _ => cases moves
  | secondLook l now =>
    cases input with
    | lock =>
      simp only [advance, look] at moves
      split at moves
      · rename_i key found
        cases moves
        exact .findsAgain l now key found
      · rename_i missing
        cases moves
        exact .missesAgain l now missing
    | _ => cases moves
  | reason kid =>
    cases input with
    | lock =>
      simp only [advance] at moves
      split at moves
      · rename_i clean
        cases moves
        exact .unknown kid clean
      · rename_i err failed
        cases moves
        exact .unavailable kid err failed
    | _ => cases moves
  | returned => cases input <;> cases moves

end DevHealth.Authverify.Jwks

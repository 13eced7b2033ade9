import DevHealth.Go.NetURLLaws
import DevHealth.Workloadtoken.Request

/-! # The token transport

`Client.Transport` and the `RoundTrip` of what it returns.  A caller's request is read and
checked, and a new one is built for the fixed target; its URL is put together as a text and
parsed.  One call is recorded as the events it causes: the token that is asked for, the
request that is passed on, the body that is closed. -/
set_option autoImplicit false
namespace DevHealth.Workloadtoken

open Go Lib

/-! ## The target -/

section Target

variable (isAddress : Bytes → Bool) (mapping : CaseMapping)

/-- The scheme of a target: `https`, or `http` where that is allowed. -/
def checkScheme (scheme : Bytes) (allowPlainHTTP : Bool) : Except String Unit :=
  if scheme = ascii "https" then .ok ()
  else if scheme = ascii "http" then ensure allowPlainHTTP "workloadtoken: an http URL needs AllowPlainHTTP"
  else .error "workloadtoken: the URL scheme must be https or http"

/-- Only a scheme, a host and a port. -/
def baseURL (raw : Bytes) (allowPlainHTTP : Bool) : Except String URL := do
  let u ← obtainOr (parse isAddress mapping raw) "workloadtoken: the URL must be an absolute URL with a host"
  ensure (!(u.scheme == [] || u.hostname == [] || u.opaquePart != []))
    "workloadtoken: the URL must be an absolute URL with a host"
  checkScheme u.scheme allowPlainHTTP
  ensure (!(u.user.isSome || u.rawQuery != [] || u.forceQuery || u.fragment != [] ||
      (u.path != [] && u.path != ascii "/")))
    "workloadtoken: the URL must hold only a scheme, a host and a port"
  return u

def defaultPort (scheme : Bytes) : Bytes :=
  if scheme = ascii "https" then ascii "443" else if scheme = ascii "http" then ascii "80" else []

def origin (u : URL) : Bytes :=
  let port := if u.port = [] then defaultPort u.scheme else u.port
  u.scheme ++ ascii "://" ++ joinHostPort (toLower mapping u.hostname) port

/-- A transport for a target that was accepted, and a token request that was. -/
structure BearerTransport where
  target : Bytes
  allowPlainHTTP : Bool
  base : URL
  made : baseURL isAddress mapping target allowPlainHTTP = .ok base
  request : Request

/-- `Client.Transport`; `transportError` is what `CheckTransport` returns for `next`. -/
def transport (transportError : Option String) (target : Bytes) (allowPlainHTTP : Bool) (audience : Bytes)
    (scope : List Bytes) : Except String (BearerTransport isAddress mapping) := do
  if let some err := transportError then throw err
  match made : baseURL isAddress mapping target allowPlainHTTP with
  | .error err => throw err
  | .ok base =>
    let request ← Request.of audience scope
    return ⟨target, allowPlainHTTP, base, made, request⟩

variable {isAddress mapping}

def BearerTransport.scheme (t : BearerTransport isAddress mapping) : Bytes := t.base.scheme
def BearerTransport.host (t : BearerTransport isAddress mapping) : Bytes := t.base.host
def BearerTransport.origin (t : BearerTransport isAddress mapping) : Bytes := Workloadtoken.origin mapping t.base

end Target

/-! ## Requests -/

def sentMethods : List Bytes :=
  [ascii "GET", ascii "HEAD", ascii "POST", ascii "PUT", ascii "PATCH", ascii "DELETE"]

def forwardedHeaders : List Bytes :=
  [ascii "Accept", ascii "Content-Type", ascii "User-Agent", ascii "X-Request-Id", ascii "Traceparent",
    ascii "Tracestate"]

structure Carried (Body GetBody Context : Type) where
  body : Option Body
  getBody : Option GetBody
  contentLength : Int
  close : Bool
  context : Context

/-- The caller's request; its header in the order in which it is ranged over. -/
structure CallerRequest (Body GetBody Context : Type) where
  method : Bytes
  url : Option URL
  host : Bytes
  header : List (Bytes × List Bytes)
  isRedirect : Bool
  carried : Carried Body GetBody Context

abbrev Header := Bytes → Option (List Bytes)

structure SentRequest (Body GetBody Context : Type) where
  method : Bytes
  url : URL
  host : Bytes
  header : Header
  carried : Carried Body GetBody Context

def addHeader (header : Header) (name : Bytes) (values : List Bytes) : Header :=
  Function.update header name (some ((header name).getD [] ++ values))

def setHeader (header : Header) (name value : Bytes) : Header :=
  Function.update header name (some [value])

section RoundTrip

variable {Body GetBody Context TokenError Response : Type} {isAddress : Bytes → Bool} {mapping : CaseMapping}
  (folding : CaseFolding)

def forwardEntry (header : Header) (entry : Bytes × List Bytes) : Header :=
  forwardedHeaders.foldl
    (fun header name => if equalFold folding entry.1 name then addHeader header name entry.2 else header) header

def forwardHeader (entries : List (Bytes × List Bytes)) : Header :=
  entries.foldl (forwardEntry folding) fun _ => none

def sentPath (u : URL) : Bytes := if u.escapedPath = [] then ascii "/" else u.escapedPath

def BearerTransport.build (t : BearerTransport isAddress mapping) (req : CallerRequest Body GetBody Context) :
    Option (SentRequest Body GetBody Context) := do
  let u ← req.url
  guard (!(req.isRedirect || u.opaquePart != [] || u.user.isSome))
  let method := if req.method = [] then ascii "GET" else req.method
  guard (method ∈ sentMethods)
  guard (¬ ((u.scheme ≠ [] ∨ u.host ≠ []) ∧ Workloadtoken.origin mapping u ≠ t.origin))
  guard (¬ (req.host ≠ [] ∧
    Workloadtoken.origin mapping { URL.zero with scheme := t.scheme, host := req.host } ≠ t.origin))
  guard ((ascii "/").isPrefixOf (sentPath u))
  let target ← parse isAddress mapping (t.scheme ++ ascii "://" ++ t.host ++ sentPath u)
  some {
    method := method, url := { target with rawQuery := u.rawQuery }, host := t.host
    header := forwardHeader folding req.header, carried := req.carried }

structure TransportFailure where
  canceled : Bool
  deadlineExceeded : Bool
  timeout : Bool
  deriving DecidableEq, Repr

inductive ResourceError where
  | canceled
  | deadlineExceeded
  | timeout
  | plain
  deriving DecidableEq, Repr

def resourceError (err : TransportFailure) : ResourceError :=
  if err.canceled then .canceled
  else if err.deadlineExceeded then .deadlineExceeded
  else if err.timeout then .timeout
  else .plain

inductive NextResult (Response : Type) where
  | response (r : Response)
  | nothing
  | failed (err : TransportFailure)

structure World (Body GetBody Context TokenError Response : Type) where
  token : Context → Request → Except TokenError Bytes
  next : SentRequest Body GetBody Context → NextResult Response

inductive CallEvent (Body GetBody Context TokenError : Type) where
  | token (answer : Except TokenError Bytes)
  | sent (out : SentRequest Body GetBody Context)
  | closed (body : Body)

inductive RoundTripResult (Body GetBody Context TokenError Response : Type) where
  | refused (cause : Option TokenError)
  | resource (err : ResourceError)
  | response (r : Response) (request : CallerRequest Body GetBody Context)

structure RoundTripRun (Body GetBody Context TokenError Response : Type) where
  events : List (CallEvent Body GetBody Context TokenError)
  result : RoundTripResult Body GetBody Context TokenError Response

def closeBody (req : CallerRequest Body GetBody Context) : List (CallEvent Body GetBody Context TokenError) :=
  req.carried.body.toList.map .closed

def received (req : CallerRequest Body GetBody Context) :
    NextResult Response → RoundTripResult Body GetBody Context TokenError Response
  | .failed err => .resource (resourceError err)
  | .nothing => .resource .plain
  | .response r => .response r req

def authorizationKey : Bytes := ascii "Authorization"
def bearer (token : Bytes) : Bytes := ascii "Bearer " ++ token

def SentRequest.authorize (out : SentRequest Body GetBody Context) (token : Bytes) :
    SentRequest Body GetBody Context :=
  { out with header := setHeader out.header authorizationKey (bearer token) }

def BearerTransport.roundTrip (t : BearerTransport isAddress mapping)
    (world : World Body GetBody Context TokenError Response) :
    Option (CallerRequest Body GetBody Context) → RoundTripRun Body GetBody Context TokenError Response
  | none => ⟨[], .refused none⟩
  | some req =>
    match t.build folding req with
    | none => ⟨closeBody req, .refused none⟩
    | some out =>
      match world.token req.carried.context t.request with
      | .error e => ⟨.token (.error e) :: closeBody req, .refused (some e)⟩
      | .ok token =>
        let out := out.authorize token
        ⟨[.token (.ok token), .sent out], received req (world.next out)⟩

/-! ## The header -/

theorem setHeader_self (header : Header) (name value : Bytes) : setHeader header name value name = some [value] :=
  Function.update_self _ _ _

theorem setHeader_of_ne {header : Header} {name other value : Bytes} (differs : other ≠ name) :
    setHeader header name value other = header other :=
  Function.update_of_ne differs _ _

theorem authorize_url (out : SentRequest Body GetBody Context) (token : Bytes) :
    (out.authorize token).url = out.url := rfl

theorem authorize_header (out : SentRequest Body GetBody Context) (token : Bytes) :
    (out.authorize token).header = setHeader out.header authorizationKey (bearer token) := rfl

theorem forwardEntry_other {header : Header} {entry : Bytes × List Bytes} {name : Bytes}
    (other : name ∉ forwardedHeaders) : forwardEntry folding header entry name = header name := by
  rw [forwardEntry]
  generalize forwardedHeaders = names at other
  induction names generalizing header with
  | nil => rfl
  | cons first names ih =>
    rw [List.mem_cons, not_or] at other
    rw [List.foldl_cons, ih other.2]
    split_ifs
    · rw [addHeader, Function.update_of_ne other.1]
    · rfl

theorem forwardHeader_other (entries : List (Bytes × List Bytes)) {name : Bytes}
    (other : name ∉ forwardedHeaders) : forwardHeader folding entries name = none := by
  suffices each : ∀ header : Header, entries.foldl (forwardEntry folding) header name = header name from each _
  induction entries with
  | nil =>
    intro header
    rfl
  | cons entry entries ih =>
    intro header
    rw [List.foldl_cons, ih, forwardEntry_other folding other]

/-! ## The target -/

variable {folding}

theorem BearerTransport.base_parsed (t : BearerTransport isAddress mapping) :
    parse isAddress mapping t.target = some t.base ∧ (t.scheme = ascii "http" ∨ t.scheme = ascii "https") := by
  have made := t.made
  rw [baseURL] at made
  obtain ⟨u, parsed, made⟩ := bind_ok.mp made
  obtain ⟨-, -, made⟩ := bind_ok.mp made
  obtain ⟨_, schemed, made⟩ := bind_ok.mp made
  obtain ⟨-, -, made⟩ := bind_ok.mp made
  rw [pure_ok] at made
  subst made
  refine ⟨obtainOr_ok.mp parsed, ?_⟩
  rw [checkScheme] at schemed
  split_ifs at schemed with secure plain
  · exact .inr secure
  · exact .inl plain

theorem BearerTransport.host_bytes (t : BearerTransport isAddress mapping) : ∀ b ∈ t.host, IsHostByte b :=
  parse_host t.base_parsed.1

/-! ## The request that is built -/

theorem sentPath_valid {u : URL} (rooted : (ascii "/").isPrefixOf (sentPath u) = true) :
    (sentPath u).head? = some slashMark ∧ validEncoded (sentPath u) .path = true := by
  have shape : ∃ rest, sentPath u = slashMark :: rest := by
    rw [List.isPrefixOf_iff_prefix] at rooted
    obtain ⟨rest, same⟩ := rooted
    exact ⟨rest, same.symm⟩
  obtain ⟨rest, shape⟩ := shape
  refine ⟨by rw [shape, List.head?_cons], ?_⟩
  rw [sentPath] at shape ⊢
  split_ifs at shape ⊢ with empty
  · decide
  · rcases escapedPath_cases u with star | ⟨valid, -⟩
    · rw [star] at shape
      cases shape
    · exact valid

theorem BearerTransport.build_cases {t : BearerTransport isAddress mapping}
    {req : CallerRequest Body GetBody Context} {out : SentRequest Body GetBody Context}
    (built : t.build folding req = some out) :
    ∃ u host target, req.url = some u ∧ (ascii "/").isPrefixOf (sentPath u) = true ∧
      parseHost isAddress t.scheme t.host = some host ∧
      URL.setPath { URL.zero with scheme := t.scheme, host := host } (sentPath u) = some target ∧
      out.url = { target with rawQuery := u.rawQuery } ∧ out.host = t.host ∧
      out.header = forwardHeader folding req.header := by
  obtain ⟨u, named, built⟩ := Option.bind_eq_some_iff.mp built
  obtain ⟨-, -, built⟩ := Option.bind_eq_some_iff.mp built
  obtain ⟨-, -, built⟩ := Option.bind_eq_some_iff.mp built
  obtain ⟨-, -, built⟩ := Option.bind_eq_some_iff.mp built
  obtain ⟨-, -, built⟩ := Option.bind_eq_some_iff.mp built
  obtain ⟨_, guarded, built⟩ := Option.bind_eq_some_iff.mp built
  obtain ⟨target, parsed, built⟩ := Option.bind_eq_some_iff.mp built
  cases built
  have rooted : (ascii "/").isPrefixOf (sentPath u) = true := (Option.guard_eq_some' _).mp guarded
  obtain ⟨first, valid⟩ := sentPath_valid rooted
  rw [parse_built t.base_parsed.2 t.host_bytes (pathByte_of_valid valid) first] at parsed
  obtain ⟨host, again, set⟩ := Option.bind_eq_some_iff.mp parsed
  exact ⟨u, host, target, named, rooted, again, set, rfl, rfl, rfl⟩

/-- A request with no URL fields and no header, that every transport builds a request for unless
its host is refused when it is parsed again. -/
def bareRequest (context : Context) : CallerRequest Body GetBody Context :=
  ⟨[], some URL.zero, [], [], false, none, none, 0, false, context⟩

theorem BearerTransport.build_bare {t : BearerTransport isAddress mapping} {host : Bytes} (context : Context)
    (again : parseHost isAddress t.scheme t.host = some host) :
    ∃ out : SentRequest Body GetBody Context,
      t.build folding (bareRequest context) = some out ∧ out.url.host = host := by
  have path : sentPath URL.zero = ascii "/" := by decide
  obtain ⟨target, set⟩ : ∃ target,
      URL.setPath { URL.zero with scheme := t.scheme, host := host } (ascii "/") = some target := ⟨_, rfl⟩
  have parsed : parse isAddress mapping (t.scheme ++ ascii "://" ++ t.host ++ ascii "/") = some target := by
    have bytes : ∀ b ∈ ascii "/", IsPathByte b := pathByte_of_valid (by decide)
    rw [parse_built t.base_parsed.2 t.host_bytes bytes (by decide), again]
    exact set
  have accepted : t.build folding (bareRequest context) = some (⟨ascii "GET", { target with rawQuery := [] },
      t.host, forwardHeader folding [], none, none, 0, false, context⟩ : SentRequest Body GetBody Context) := by
    simp only [BearerTransport.build, bareRequest, Option.bind_eq_bind, Option.bind_some, path, parsed]
    rfl
  exact ⟨_, accepted, setPath_host set⟩

/-! ## What is sent -/

/-- The request is for the target, with the caller's path and query, the token as the only
credential, and forwarded headers. -/
structure IsForTarget (t : BearerTransport isAddress mapping) (u : URL) (token : Bytes)
    (out : SentRequest Body GetBody Context) : Prop where
  scheme : out.url.scheme = t.scheme
  urlHost : out.url.host = t.host
  host : out.host = t.host
  path : out.url.escapedPath = if u.escapedPath = [] then ascii "/" else u.escapedPath
  query : out.url.rawQuery = u.rawQuery
  authorization : out.header authorizationKey = some [bearer token]
  forwarded : ∀ name, out.header name ≠ none → name = authorizationKey ∨ name ∈ forwardedHeaders

def isSent : CallEvent Body GetBody Context TokenError → Bool
  | .sent _ => true
  | _ => false

/-- A call passes at most one request on, built for the target after a token was had; and a call
that is refused passes none and closes the body. -/
structure SendsOnlyBuilt (t : BearerTransport isAddress mapping)
    (req : Option (CallerRequest Body GetBody Context))
    (run : RoundTripRun Body GetBody Context TokenError Response) : Prop where
  once : run.events.countP isSent ≤ 1
  built : ∀ before out after, run.events = before ++ .sent out :: after →
    ∃ caller u token, req = some caller ∧ caller.url = some u ∧ .token (.ok token) ∈ before ∧
      IsForTarget t u token out
  refused : ∀ cause, run.result = .refused cause →
    (∀ out, .sent out ∉ run.events) ∧
      ∀ caller body, req = some caller → caller.carried.body = some body → .closed body ∈ run.events

/-- A built request, with its token, is for the target when the target's host is parsed again as
it is. -/
theorem BearerTransport.build_isForTarget {t : BearerTransport isAddress mapping}
    {req : CallerRequest Body GetBody Context} {out : SentRequest Body GetBody Context} (token : Bytes)
    (stable : ∀ host, parseHost isAddress t.scheme t.host = some host → host = t.host)
    (built : t.build folding req = some out) :
    ∃ u, req.url = some u ∧ IsForTarget t u token (out.authorize token) := by
  obtain ⟨u, host, target, named, rooted, again, set, url, outHost, header⟩ := t.build_cases built
  obtain ⟨first, valid⟩ := sentPath_valid rooted
  refine ⟨u, named, ?_, ?_, outHost, ?_, ?_, ?_, ?_⟩
  · obtain ⟨path, -, rfl⟩ := Option.map_eq_some_iff.mp set
    rw [authorize_url, url]
  · rw [authorize_url, url, ← stable host again]
    exact setPath_host set
  · have same : (out.authorize token).url.escapedPath = target.escapedPath := by
      rw [authorize_url, url]
      rfl
    rw [same]
    exact escapedPath_setPath valid first set
  · rw [authorize_url, url]
  · rw [authorize_header, setHeader_self]
  · intro name present
    by_cases authorization : name = authorizationKey
    · exact .inl authorization
    · right
      by_contra other
      apply present
      rw [authorize_header, setHeader_of_ne authorization, header, forwardHeader_other folding req.header other]

theorem closed_of_body {req : CallerRequest Body GetBody Context} {body : Body}
    (present : req.carried.body = some body) :
    (.closed body : CallEvent Body GetBody Context TokenError) ∈ closeBody req := by
  rw [closeBody, present]
  exact List.mem_singleton_self _

theorem countP_closeBody (req : CallerRequest Body GetBody Context) :
    (closeBody req : List (CallEvent Body GetBody Context TokenError)).countP isSent = 0 := by
  rw [closeBody]
  cases req.carried.body with
  | none => rfl
  | some body => rfl

theorem sendsOnlyBuilt_of_none {t : BearerTransport isAddress mapping}
    {req : Option (CallerRequest Body GetBody Context)}
    {run : RoundTripRun Body GetBody Context TokenError Response} (none : run.events.countP isSent = 0)
    (closes : ∀ caller body, req = some caller → caller.carried.body = some body →
      .closed body ∈ run.events) : SendsOnlyBuilt t req run := by
  have absent : ∀ out, .sent out ∉ run.events := by
    intro out inside
    exact List.countP_eq_zero.mp none _ inside rfl
  refine ⟨by omega, ?_, fun _ _ => ⟨absent, closes⟩⟩
  intro before out after same
  apply absurd _ (absent out)
  rw [same]
  exact List.mem_append_right _ List.mem_cons_self

theorem split_token_sent {answer : Except TokenError Bytes} {out sent : SentRequest Body GetBody Context}
    {before after : List (CallEvent Body GetBody Context TokenError)}
    (same : [.token answer, .sent out] = before ++ .sent sent :: after) : .token answer ∈ before ∧ sent = out := by
  cases before with
  | nil => cases same
  | cons first before =>
    cases before with
    | nil =>
      cases same
      exact ⟨List.mem_cons_self, rfl⟩
    | cons second before =>
      have long := congrArg List.length same
      simp only [List.length_cons, List.length_append, List.length_nil] at long
      omega

theorem received_ne_refused (req : CallerRequest Body GetBody Context) (result : NextResult Response)
    (cause : Option TokenError) : received req result ≠ .refused cause := by
  cases result with
  | response r => nofun
  | nothing => nofun
  | failed err => nofun

theorem BearerTransport.roundTrip_sendsOnlyBuilt {t : BearerTransport isAddress mapping}
    (stable : ∀ host, parseHost isAddress t.scheme t.host = some host → host = t.host)
    (world : World Body GetBody Context TokenError Response) (req : Option (CallerRequest Body GetBody Context)) :
    SendsOnlyBuilt t req (t.roundTrip folding world req) := by
  cases req with
  | none =>
    apply sendsOnlyBuilt_of_none
    · rfl
    · intro caller body absent
      cases absent
  | some req =>
    rw [roundTrip]
    cases built : t.build folding req with
    | none =>
      apply sendsOnlyBuilt_of_none
      · exact countP_closeBody req
      · intro caller body same present
        cases same
        exact closed_of_body present
    | some out =>
      cases answered : world.token req.carried.context t.request with
      | error e =>
        apply sendsOnlyBuilt_of_none
        · exact countP_closeBody req
        · intro caller body same present
          cases same
          exact List.mem_cons_of_mem _ (closed_of_body present)
      | ok token =>
        obtain ⟨u, named, forTarget⟩ := t.build_isForTarget token stable built
        refine ⟨Nat.le_refl 1, ?_, ?_⟩
        · intro before sent after same
          obtain ⟨earlier, rfl⟩ := split_token_sent same
          exact ⟨req, u, token, rfl, named, earlier, forTarget⟩
        · intro cause refused
          exact absurd refused (received_ne_refused req _ cause)

def silentWorld : World Body GetBody Context TokenError Response :=
  ⟨fun _ _ => .ok [], fun _ => .nothing⟩

theorem BearerTransport.bare_sent_elsewhere {t : BearerTransport isAddress mapping} {host : Bytes}
    (again : parseHost isAddress t.scheme t.host = some host) (marked : percent ∈ t.host) (context : Context) :
    ¬ SendsOnlyBuilt t (some (bareRequest context)) (t.roundTrip folding
      (silentWorld : World Body GetBody Context TokenError Response) (some (bareRequest context))) := by
  intro kept
  obtain ⟨out, built, outHost⟩ : ∃ out : SentRequest Body GetBody Context,
      t.build folding (bareRequest context) = some out ∧ out.url.host = host := t.build_bare context again
  have events : (t.roundTrip folding (silentWorld : World Body GetBody Context TokenError Response)
      (some (bareRequest context))).events = [.token (.ok [])] ++ .sent (out.authorize []) :: [] := by
    rw [roundTrip, built]
    rfl
  obtain ⟨caller, u, token, -, -, -, forTarget⟩ := kept.built _ _ _ events
  have same : host = t.host := by
    rw [← outHost]
    exact forTarget.urlHost
  exact (parseHost_shortens again).eq_iff.mp same marked

/-- Every call to a transport sends only what was built for the target, exactly when the target's
parsed host holds no percent sign or is refused when it is parsed again. -/
theorem BearerTransport.sendsOnlyBuilt_iff [Inhabited Context] (t : BearerTransport isAddress mapping)
    (folding : CaseFolding) :
    (∀ (world : World Body GetBody Context TokenError Response) (req : Option (CallerRequest Body GetBody Context)),
        SendsOnlyBuilt t req (t.roundTrip folding world req)) ↔
      (percent ∈ t.host → parseHost isAddress t.scheme t.host = none) := by
  constructor
  · intro kept marked
    by_contra accepted
    obtain ⟨host, again⟩ := Option.ne_none_iff_exists'.mp accepted
    exact t.bare_sent_elsewhere again marked default (kept silentWorld (some (bareRequest default)))
  · intro condition
    apply t.roundTrip_sendsOnlyBuilt
    intro host again
    apply (parseHost_shortens again).eq_iff.mpr
    intro marked
    rw [condition marked] at again
    cases again

/-- The target `https://a%25ff`: its host is `a%ff`, and the host of what is sent `a` with a byte
that is not ASCII. -/
def doubleEscaped : BearerTransport (fun _ => false) asciiMapping where
  target := ascii "https://a%25ff"
  allowPlainHTTP := false
  base := { URL.zero with scheme := ascii "https", host := ascii "a%ff" }
  made := by decide
  request := ⟨ascii "gateway", [], ascii "gateway ", [], by decide⟩

theorem doubleEscaped_sent_elsewhere :
    parseHost (fun _ => false) doubleEscaped.scheme doubleEscaped.host = some [0x61, 0xFF] ∧
      ¬ SendsOnlyBuilt doubleEscaped (some (bareRequest ())) (doubleEscaped.roundTrip asciiFolding
        (silentWorld : World Unit Unit Unit Unit Unit) (some (bareRequest ()))) := by
  have again : parseHost (fun _ => false) doubleEscaped.scheme doubleEscaped.host = some [0x61, 0xFF] := by decide
  exact ⟨again, doubleEscaped.bare_sent_elsewhere again (by decide) ()⟩

end RoundTrip

end DevHealth.Workloadtoken

import DevHealth.Pep.BatchAnswer

/-! # The client of the decision point

One call is one HTTP exchange.  What the network does is a `Reply`; `post` turns it into
the bytes of a response or into a local error, and the two parsers do the rest.  So
whatever the decision point does, a batch comes back without a local deny or as one and
the same local deny for every request. -/
set_option autoImplicit false
namespace DevHealth.Pep

open Go Lib

def maxSingleBody : Nat := 256 * 2 ^ 10
def maxBatchBody : Nat := 4 * 2 ^ 20

/-- What `classify` tells apart in a transport error. -/
inductive TransportFailure where
  | canceled
  | deadlineExceeded
  | netTimeout
  | other
  deriving DecidableEq, Repr

def classify : TransportFailure → Error
  | .canceled => fail .canceled
  | .deadlineExceeded | .netTimeout => fail .timeout
  | .other => fail .unreachable

def failStatus (r : Reason) (status : Nat) : Error := ⟨r, status⟩

/-- A response as `post` reads it.  `isJSON` says that the media type is `application/json`;
`failure` is the error of the body reader once it has given `body`. -/
structure Response where
  status : Nat
  isJSON : Bool
  contentLength : Int
  body : Bytes
  failure : Option TransportFailure
  deriving DecidableEq, Repr

/-- One exchange: the context was done or the call failed, no request could be built, or
there is a response. -/
inductive Reply where
  | failed (failure : TransportFailure)
  | unbuilt
  | response (resp : Response)
  deriving DecidableEq, Repr

def checkStatus (status : Nat) : Except Error Unit :=
  if status = 200 then .ok ()
  else if status = 429 then .error (failStatus .rateLimited status)
  else if 500 ≤ status then .error (failStatus .unavailable status)
  else .error (failStatus .refused status)

/-- `io.ReadAll` of the body up to one byte over the limit: an error of the reader behind
that byte is never met. -/
def readLimited (limit : Nat) (resp : Response) : Except Error Bytes :=
  if limit < resp.body.length then .error (fail .tooLarge)
  else
    match resp.failure with
    | some failure => .error (classify failure)
    | none => .ok resp.body

def post (limit : Nat) : Reply → Except Error Bytes
  | .failed failure => .error (classify failure)
  | .unbuilt => .error (fail .localInvalid)
  | .response resp => do
      checkStatus resp.status
      require resp.isJSON .malformed
      require (decide (resp.contentLength ≤ limit)) .tooLarge
      readLimited limit resp

def Client.decide (req : Request) (reply : Reply) (now : Time) : Decision :=
  if !req.valid then deny (fail .localInvalid)
  else
    match post maxSingleBody reply with
    | .error e => deny e
    | .ok raw => parseDecision raw req now

def Client.decideBatch (reqs : List Request) (reply : Reply) (now : Time) : List Decision :=
  if reqs = [] then []
  else if maxBatch < reqs.length then denyAll (fail .localInvalid) reqs.length
  else if !reqs.all Request.valid then denyAll (fail .localInvalid) reqs.length
  else
    match post maxBatchBody reply with
    | .error e => denyAll e reqs.length
    | .ok raw => parseBatch raw reqs now

/-! ## One reason for a failed batch -/

theorem classify_isLocal (failure : TransportFailure) : (classify failure).reason.isLocal = true := by
  cases failure <;> decide

theorem checkStatus_refuses (status : Nat) :
    Refuses (fun e => e.reason.isLocal = true) (checkStatus status) := by
  intro e failed
  unfold checkStatus at failed
  split_ifs at failed
  · cases failed
    show Reason.rateLimited.isLocal = true
    decide
  · cases failed
    show Reason.unavailable.isLocal = true
    decide
  · cases failed
    show Reason.refused.isLocal = true
    decide

theorem readLimited_refuses (limit : Nat) (resp : Response) :
    Refuses (fun e => e.reason.isLocal = true) (readLimited limit resp) := by
  intro e failed
  unfold readLimited at failed
  by_cases long : limit < resp.body.length
  · rw [if_pos long] at failed
    cases failed
    decide
  · rw [if_neg long] at failed
    cases broken : resp.failure with
    | none =>
      rw [broken] at failed
      cases failed
    | some failure =>
      rw [broken] at failed
      cases failed
      exact classify_isLocal failure

theorem post_refuses (limit : Nat) (reply : Reply) :
    Refuses (fun e => e.reason.isLocal = true) (post limit reply) := by
  cases reply with
  | failed failure =>
    intro e failed
    cases failed
    exact classify_isLocal failure
  | unbuilt =>
    intro e failed
    cases failed
    decide
  | response resp =>
    have malformed : (fail .malformed).reason.isLocal = true := by decide
    have tooLarge : (fail .tooLarge).reason.isLocal = true := by decide
    refine refuses_bind (checkStatus_refuses resp.status) fun _ _ => ?_
    refine refuses_bind (refuses_ensure malformed) fun _ _ => ?_
    refine refuses_bind (refuses_ensure tooLarge) fun _ _ => ?_
    exact readLimited_refuses limit resp

/-- A batch answer is whole: no local deny in it, or one local error for every item. -/
def Whole (n : Nat) (out : List Decision) : Prop :=
  out.length = n ∧ ((∀ d ∈ out, d.isLocal = false) ∨
    ∃ e : Error, e.reason.isLocal = true ∧ out = denyAll e n)

theorem whole_denyAll {e : Error} (isLocal : e.reason.isLocal = true) (n : Nat) : Whole n (denyAll e n) :=
  ⟨by simp [denyAll], Or.inr ⟨e, isLocal, rfl⟩⟩

theorem parseBatch_whole (bytes : Bytes) (reqs : List Request) (now : Time) :
    Whole reqs.length (parseBatch bytes reqs now) := by
  rw [parseBatch]
  cases read : readBatch bytes reqs now with
  | error e => exact whole_denyAll (readBatch_refuses bytes reqs now e read) _
  | ok out =>
    obtain ⟨length, lead, members, trail, items, -, -, -, -, count, bound⟩ := readBatch_ok read
    refine ⟨length, Or.inl ?_⟩
    intro d inside
    obtain ⟨i, small, at_⟩ := List.getElem_of_mem inside
    have atOut : out[i]? = some d := List.getElem?_eq_some_iff.mpr ⟨small, at_⟩
    have atReq : i < reqs.length := length ▸ small
    have atItem : i < (items.entries.map Prod.snd).length := by
      rw [List.length_map, count]
      exact atReq
    exact (bound i _ _ d (List.getElem?_eq_getElem atItem) (List.getElem?_eq_getElem atReq) atOut).verdict

theorem decideBatch_whole (reqs : List Request) (reply : Reply) (now : Time) :
    Whole reqs.length (Client.decideBatch reqs reply now) := by
  have invalid : (fail .localInvalid).reason.isLocal = true := by decide
  unfold Client.decideBatch
  by_cases empty : reqs = []
  · rw [if_pos empty, empty]
    refine ⟨rfl, Or.inl ?_⟩
    intro d inside
    cases inside
  · rw [if_neg empty]
    split_ifs
    · exact whole_denyAll invalid _
    · exact whole_denyAll invalid _
    · cases sent : post maxBatchBody reply with
      | error e => exact whole_denyAll (post_refuses _ reply e sent) _
      | ok raw => exact parseBatch_whole raw reqs now

end DevHealth.Pep

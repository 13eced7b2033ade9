import DevHealth.Llm.OpenAIResponse

/-! # The attempts of a completion

The `Complete` loops of the three clients.  What the budget, the network and the caller's
context do is the environment's, a `World` for each attempt; how an error is classified is a
parameter.  A run is the log of its attempts and how it ended; of a result its two texts are
kept. -/
set_option autoImplicit false
namespace DevHealth.Llm

open Go Lib

/-! ## One attempt -/

/-- One `Budget.Run`: whether it calls `invoke`, and the error it returns. -/
structure BudgetRun (ε : Type) where
  invokes : Bool
  returned : Option ε

inductive Failure (ε : Type) where
  | budget (cause : ε)
  | provider (err : ε)

/-- `encode` is an error of `json.Marshal`; `ended` says that the context has ended when the
attempt is over, `slept` that a sleep after it is not cut short. -/
structure World (ε α : Type) where
  encode : Option ε
  run : BudgetRun ε
  exchange : Except ε α
  ended : Bool
  slept : Bool

/-- The key of the `Budget.Run` it is made in, whether it was sent, its output cap, the error
of the exchange, and the error of `send`. -/
structure Attempt (ε : Type) where
  key : Option Bytes
  sent : Bool
  cap : Option Int
  exchangeErr : Option ε
  failure : Option (Failure ε)
  ended : Bool

variable {ε α : Type}

/-- Whether `send` ran, and the error.  Errors are the same when Go's `==` says so. -/
def guarded [DecidableEq ε] (budget : Option (BudgetRun ε)) (sendErr : Option ε) : Bool × Option (Failure ε) :=
  match budget with
  | none => (true, sendErr.map .provider)
  | some run =>
    (run.invokes, run.returned.map fun err =>
      if run.invokes ∧ sendErr = some err then .provider err else .budget err)

/-- `"%s:attempt:%d"` -/
def attemptKey (requestKey : Bytes) (attempt : Nat) : Bytes :=
  requestKey ++ (ascii ":attempt:" ++ decimal attempt)

/-- `send` of the three clients: the answer is `zero` where no exchange gives one. -/
def send [DecidableEq ε] (budgeted : Bool) (key : Bytes) (cap : Option Int) (zero : α) (w : World ε α) :
    Attempt ε × α :=
  match w.encode with
  | some err => (⟨none, false, cap, none, some (.provider err), w.ended⟩, zero)
  | none =>
    let key := if budgeted then some key else none
    let budget := if budgeted then some w.run else none
    match w.exchange with
    | .error err =>
      let out := guarded budget (some err)
      (⟨key, out.1, cap, if out.1 then some err else none, out.2, w.ended⟩, zero)
    | .ok answer =>
      let out := guarded budget none
      (⟨key, out.1, cap, none, out.2, w.ended⟩, if out.1 then answer else zero)

/-! ## The loops -/

/-- `returned` is the error of `send` as it is, `cancelled` the context's. -/
inductive Completion where
  | answered (text unparsed : Bytes)
  | returned
  | classified (errorClass : ErrorClass)
  | cancelled
  | seedRefused
  deriving DecidableEq, Repr

/-- A `for` loop: a round ends it, or goes on with another state. -/
def rounds {ρ κ σ : Type} (body : Nat → σ → ρ × (κ ⊕ σ)) : Nat → Nat → σ → List ρ × Option κ
  | 0, _, _ => ([], none)
  | left + 1, n, s =>
    match body n s with
    | (record, .inl done) => ([record], some done)
    | (record, .inr next) => (record :: (rounds body left (n + 1) next).1, (rounds body left (n + 1) next).2)

def openAIMaxRetries : Nat := 1
def openAIMinOutputTokens : Int := 2048
def openAIMaxOutputTokens : Int := 8192
def anthropicMaxRetries : Nat := 1
def anthropicMinOutputTokens : Int := 4096
def anthropicMaxOutputTokens : Int := 16000
def compatibleMaxRetries : Nat := 1
def compatibleMinOutputTokens : Int := 4096

/-- The cap of a retry after a cut answer, in 64 bits. -/
def doubledCap (ceiling cap : Int) : Int := max cap (min ceiling ((cap * 2).bmod (2 ^ 64)))

structure AnthropicAnswer where
  text : Bytes
  stopReason : Bytes

structure ChatAnswer where
  text : Bytes
  refused : Bool

def OpenAIAnswer.zero : OpenAIAnswer := ⟨[], [], [], .unknown, false⟩

section Rounds
variable [DecidableEq ε] (classify : ε → ErrorClass) (budgeted : Bool) (requestKey : Bytes)

/-- A round of the three loops.  If `more`, another round follows an error that allows it, from
`next`, and a cut answer, from `raised`. -/
def attemptRound {σ : Type} (number : Nat) (cap : Option Int) (zero : α) (w : World ε α) (more : Bool)
    (next raised : σ) (isCut : α → Bool) (result : α → Completion) : Attempt ε × (Completion ⊕ σ) :=
  let made := send budgeted (attemptKey requestKey number) cap zero w
  (made.1,
    match made.1.failure with
    | some (.budget _) => .inl .returned
    | some (.provider err) =>
      if w.ended then .inl .returned
      else if (classify err).retryable && more then if w.slept then .inr next else .inl .cancelled
      else .inl (.classified (classify err))
    | none =>
      if isCut made.2 && more then if w.slept then .inr raised else .inl .cancelled
      else .inl (result made.2))

variable (configured : Int) (request : Request)

def openAIText (answer : OpenAIAnswer) : Bytes := if answer.refused then [] else (gateJSON answer.text).1

/-- The state is the cap. -/
def openAIRound (world : Nat → World ε OpenAIAnswer) (attempt : Nat) (maxTokens : Int) :
    Attempt ε × (Completion ⊕ Int) :=
  attemptRound classify budgeted requestKey (attempt + 1) (some maxTokens) .zero (world attempt)
    (attempt < openAIMaxRetries) maxTokens (doubledCap openAIMaxOutputTokens maxTokens)
    (fun answer => openAIText answer == [] && !answer.refused && answer.reason == ascii "max_output_tokens")
    fun answer => .answered (openAIText answer)
      (if answer.refused || request.format.isNone then [] else (gateJSON answer.text).2)

def openAIComplete (world : Nat → World ε OpenAIAnswer) : List (Attempt ε) × Option Completion :=
  if request.seed.isSome then ([], some .seedRefused)
  else
    rounds (openAIRound classify budgeted requestKey request world) (openAIMaxRetries + 1) 0
      (max (max configured openAIMinOutputTokens) request.maxOutputTokens)

/-- The state is the cap and the count of retries. -/
def anthropicRound (world : Nat → World ε AnthropicAnswer) (call : Nat) (state : Int × Nat) :
    Attempt ε × (Completion ⊕ (Int × Nat)) :=
  attemptRound classify budgeted requestKey call (some state.1) ⟨[], []⟩ (world call)
    (state.2 < anthropicMaxRetries) (state.1, state.2 + 1)
    (doubledCap anthropicMaxOutputTokens state.1, state.2 + 1)
    (fun answer => request.format.isSome && answer.stopReason != ascii "refusal" &&
      (gateJSON answer.text).1 == [] && answer.stopReason == ascii "max_tokens")
    fun answer =>
      if answer.stopReason = ascii "refusal" then .answered [] []
      else if request.format.isNone then .answered answer.text []
      else .answered (gateJSON answer.text).1 (gateJSON answer.text).2

/-- The loop has no bound of its own: `fuel` is how many rounds are looked at. -/
def anthropicComplete (world : Nat → World ε AnthropicAnswer) (fuel : Nat) :
    List (Attempt ε) × Option Completion :=
  if request.seed.isSome then ([], some .seedRefused)
  else
    rounds (anthropicRound classify budgeted requestKey request world) fuel 1
      (max (max configured anthropicMinOutputTokens) request.maxOutputTokens, 0)

def compatibleRound (world : Nat → World ε ChatAnswer) (attempt : Nat) (cap : Option Int) :
    Attempt ε × (Completion ⊕ Option Int) :=
  attemptRound classify budgeted requestKey (attempt + 1) cap ⟨[], false⟩ (world attempt)
    (attempt < compatibleMaxRetries) cap cap (fun _ => false) fun answer =>
      if request.format.isNone || answer.refused then .answered answer.text []
      else .answered (gateJSON answer.text).1 (gateJSON answer.text).2

/-- `omitCap` is `OutputCapOmit`. -/
def compatibleComplete (kind : Kind) (omitCap : Bool) (world : Nat → World ε ChatAnswer) :
    List (Attempt ε) × Option Completion :=
  if request.seed.isSome && kind == .gemini then ([], some .seedRefused)
  else
    rounds (compatibleRound classify budgeted requestKey request world) (compatibleMaxRetries + 1) 0
      (if omitCap then none
        else some (max (max configured compatibleMinOutputTokens) request.maxOutputTokens))

end Rounds

/-! ## What a run keeps -/

/-- Another attempt may follow this one: its answer was cut, or its error allows a retry. -/
def Attempt.Retried (classify : ε → ErrorClass) (a : Attempt ε) : Prop :=
  (a.failure = none ∧ a.exchangeErr = none) ∨
    ∃ err, a.failure = some (.provider err) ∧ (classify err).retryable = true ∧ a.ended = false

/-- The attempts of a run that ends; `configured` and `requested` are the two caps. -/
structure Bounded (classify : ε → ErrorClass) (budgeted : Bool) (configured requested : Int)
    (run : List (Attempt ε) × Option Completion) : Prop where
  ends : run.2.isSome = true
  two : run.1.length ≤ 2
  admitted : budgeted = true → ∀ a ∈ run.1, a.sent = true → a.key.isSome = true
  keys : (run.1.filterMap Attempt.key).Nodup
  retried : ∀ a ∈ run.1.dropLast, a.Retried classify
  caps : ∀ a ∈ run.1, ∀ cap ∈ a.cap, configured ≤ cap ∧ requested ≤ cap
  rising : run.1.Pairwise fun a b => ∀ cap ∈ a.cap, ∀ cap' ∈ b.cap, cap ≤ cap'

structure Attempt.Made (budgeted : Bool) (requestKey : Bytes) (number : Nat) (cap : Option Int)
    (a : Attempt ε) : Prop where
  cap : a.cap = cap
  key : ∀ k ∈ a.key, k = attemptKey requestKey number
  admitted : budgeted = true → a.sent = true → a.key.isSome = true

variable {classify : ε → ErrorClass} {budgeted : Bool} {requestKey : Bytes} {number : Nat}
  {cap cap' : Option Int} {configured requested : Int} {a b : Attempt ε} {done : Completion}

theorem attemptKey_injective {m n : Nat} (same : attemptKey requestKey m = attemptKey requestKey n) :
    m = n := by
  have digits := List.append_cancel_left (List.append_cancel_left same)
  rw [← (decimal_canonical m).2.1, digits, (decimal_canonical n).2.1]

section Log
variable (made : a.Made budgeted requestKey number cap)
  (high : ∀ c ∈ cap, configured ≤ c ∧ requested ≤ c)
include made high

theorem bounded_one : Bounded classify budgeted configured requested ([a], some done) where
  ends := rfl
  two := Nat.le_succ 1
  admitted budget _ inside := List.mem_singleton.mp inside ▸ made.admitted budget
  keys := by cases found : a.key <;> simp [found]
  retried := by simp
  caps b inside := by
    rw [List.mem_singleton.mp inside, made.cap]
    exact high
  rising := List.pairwise_singleton _ _

theorem bounded_two (made' : b.Made budgeted requestKey (number + 1) cap')
    (retried : a.Retried classify) (rises : ∀ c' ∈ cap', ∃ c ∈ cap, c ≤ c') :
    Bounded classify budgeted configured requested ([a, b], some done) := by
  have keys : ∀ k ∈ a.key, ∀ k' ∈ b.key, k ≠ k' := by
    intro k isKey k' isKey' same
    rw [made.key k isKey, made'.key k' isKey'] at same
    exact absurd (attemptKey_injective same) (Nat.succ_ne_self _).symm
  refine ⟨rfl, Nat.le_refl 2, ?_, ?_, by simpa using retried, ?_, ?_⟩
  · intro budget x inside
    rcases List.mem_pair.mp inside with rfl | rfl
    · exact made.admitted budget
    · exact made'.admitted budget
  · cases first : a.key <;> cases second : b.key <;> simp_all
  · intro x inside c isCap
    rcases List.mem_pair.mp inside with rfl | rfl
    · exact high c (made.cap ▸ isCap)
    · obtain ⟨low, isLow, le⟩ := rises c (made'.cap ▸ isCap)
      exact ⟨(high low isLow).1.trans le, (high low isLow).2.trans le⟩
  · rw [List.pairwise_pair, made.cap, made'.cap]
    intro c isCap c' isCap'
    obtain ⟨low, isLow, le⟩ := rises c' isCap'
    exact Option.mem_unique isLow isCap ▸ le

end Log

theorem rounds_two {ρ κ σ : Type} {body : Nat → σ → ρ × (κ ⊕ σ)} {n : Nat} {s : σ}
    (last : ∀ next, (body n s).2 = .inr next → ∀ other, (body (n + 1) next).2 ≠ .inr other)
    (fuel : Nat) :
    (∃ done, rounds body (fuel + 2) n s = ([(body n s).1], some done)) ∨
    ∃ next done, (body n s).2 = .inr next ∧
      rounds body (fuel + 2) n s = ([(body n s).1, (body (n + 1) next).1], some done) := by
  rw [rounds]
  rcases first : body n s with ⟨record, done | next⟩
  · exact .inl ⟨done, rfl⟩
  · rcases second : body (n + 1) next with ⟨record', done | other⟩
    · refine .inr ⟨next, done, rfl, ?_⟩
      simp only [rounds, second]
    · exact absurd (congrArg Prod.snd second) (last next (congrArg Prod.snd first) other)

theorem bounded_seedRefused : Bounded classify budgeted configured requested ([], some .seedRefused) := by
  refine ⟨rfl, Nat.zero_le 2, ?_, List.nodup_nil, ?_, ?_, List.Pairwise.nil⟩
  all_goals simp

/-! ## The rounds -/

variable [DecidableEq ε] {σ : Type} {zero : α} {isCut : α → Bool} {result : α → Completion}

theorem send_spec {w : World ε α} {made : Attempt ε × α}
    (sends : send budgeted (attemptKey requestKey number) cap zero w = made) :
    made.1.Made budgeted requestKey number cap ∧ made.1.ended = w.ended ∧
      (made.1.exchangeErr ≠ none → made.2 = zero) := by
  subst sends
  have keyed : ∀ k, (if budgeted then some (attemptKey requestKey number) else none) = some k →
      k = attemptKey requestKey number := by
    cases budgeted <;> simp
  obtain ⟨encode, run, exchange, ended, slept⟩ := w
  cases encode with
  | some err => exact ⟨⟨rfl, by simp [send], by simp [send]⟩, rfl, fun _ => rfl⟩
  | none =>
    cases exchange with
    | error err => exact ⟨⟨rfl, keyed, fun budget _ => by simp [send, budget]⟩, rfl, fun _ => rfl⟩
    | ok answer =>
      exact ⟨⟨rfl, keyed, fun budget _ => by simp [send, budget]⟩, rfl, fun failed => absurd rfl failed⟩

theorem attemptRound_spec (quiet : isCut zero = false) {w : World ε α} {more : Bool} {next raised : σ}
    {out : Attempt ε × (Completion ⊕ σ)}
    (round : attemptRound classify budgeted requestKey number cap zero w more next raised isCut result = out) :
    out.1.Made budgeted requestKey number cap ∧
      ∀ s, out.2 = .inr s → more = true ∧ out.1.Retried classify ∧ (s = next ∨ s = raised) := by
  subst round
  simp only [attemptRound]
  generalize sends : send budgeted (attemptKey requestKey number) cap zero w = made
  obtain ⟨isMade, ended, empty⟩ := send_spec sends
  refine ⟨isMade, ?_⟩
  intro s goesOn
  split at goesOn
  · cases goesOn
  · rename_i err failed
    split_ifs at goesOn with late again slept
    rw [Bool.and_eq_true] at again
    rw [Bool.not_eq_true] at late
    exact ⟨again.2, .inr ⟨err, failed, again.1, ended.trans late⟩, .inl (Sum.inr.inj goesOn).symm⟩
  · rename_i fine
    split_ifs at goesOn with again slept
    rw [Bool.and_eq_true] at again
    refine ⟨again.2, .inl ⟨fine, ?_⟩, .inr (Sum.inr.inj goesOn).symm⟩
    by_contra failed
    rw [empty failed, quiet] at again
    exact absurd again.1 (by decide)

/-- A loop of such rounds is bounded when its second round is the last and its caps do not fall. -/
theorem bounded_rounds {body : Nat → σ → Attempt ε × (Completion ⊕ σ)} {capOf : σ → Option Int}
    {numberOf : Nat → Nat} {world : Nat → World ε α} {more : Nat → σ → Bool} {next raised : σ → σ}
    {n : Nat} {s : σ}
    (shape : ∀ m t, attemptRound classify budgeted requestKey (numberOf m) (capOf t) zero (world m)
      (more m t) (next t) (raised t) isCut result = body m t)
    (counts : numberOf (n + 1) = numberOf n + 1) (quiet : isCut zero = false)
    (follows : ∀ t, t = next s ∨ t = raised s →
      more (n + 1) t = false ∧ ∀ c' ∈ capOf t, ∃ c ∈ capOf s, c ≤ c')
    (high : ∀ c ∈ capOf s, configured ≤ c ∧ requested ≤ c) (fuel : Nat) :
    Bounded classify budgeted configured requested (rounds body (fuel + 2) n s) := by
  have spec := fun m t => attemptRound_spec quiet (shape m t)
  have last : ∀ t, (body n s).2 = .inr t → ∀ other, (body (n + 1) t).2 ≠ .inr other := by
    intro t goesOn other again
    have stops := (follows t ((spec n s).2 t goesOn).2.2).1
    rw [((spec (n + 1) t).2 other again).1] at stops
    cases stops
  rcases rounds_two last fuel with ⟨done, run⟩ | ⟨t, done, goesOn, run⟩
  · rw [run]
    exact bounded_one (spec n s).1 high
  · obtain ⟨-, retried, state⟩ := (spec n s).2 t goesOn
    have second := (spec (n + 1) t).1
    rw [counts] at second
    rw [run]
    exact bounded_two (spec n s).1 high second retried (follows t state).2

theorem doubledCap_rises {ceiling cap : Int} :
    ∀ c' ∈ some (doubledCap ceiling cap), ∃ c ∈ some cap, c ≤ c' := by
  intro c' isCap
  exact ⟨cap, rfl, Option.some.inj isCap ▸ le_max_left _ _⟩

/-- Whatever the budget, the provider and the context do, each client makes at most two attempts,
each admitted under its own key, the second only where the first may be retried, and with a cap
that is high enough and does not fall. -/
theorem complete_bounded (classify : ε → ErrorClass) (budgeted : Bool) (requestKey : Bytes)
    (configured : Int) (request : Request) :
    (∀ world, Bounded classify budgeted configured request.maxOutputTokens
      (openAIComplete classify budgeted requestKey configured request world)) ∧
    (∀ world fuel, Bounded classify budgeted configured request.maxOutputTokens
      (anthropicComplete classify budgeted requestKey configured request world (fuel + 2))) ∧
    ∀ kind omitCap world, Bounded classify budgeted configured request.maxOutputTokens
      (compatibleComplete classify budgeted requestKey configured request kind omitCap world) := by
  have high : ∀ floor : Int, ∀ c ∈ some (max (max configured floor) request.maxOutputTokens),
      configured ≤ c ∧ request.maxOutputTokens ≤ c := by
    intro floor c same
    have value := Option.some.inj same
    omega
  refine ⟨?_, ?_, ?_⟩
  · intro world
    unfold openAIComplete
    split
    · exact bounded_seedRefused
    · refine bounded_rounds (fun _ _ => rfl) rfl (by decide) ?_ (high _) 0
      rintro t (rfl | rfl)
      · exact ⟨rfl, fun c isCap => ⟨c, isCap, le_refl c⟩⟩
      · exact ⟨rfl, doubledCap_rises⟩
  · intro world fuel
    unfold anthropicComplete
    split
    · exact bounded_seedRefused
    · have noStop : ([] == ascii "max_tokens") = false := by decide
      refine bounded_rounds (fun _ _ => rfl) rfl ?_ ?_ ?_ fuel
      · simp only [noStop, Bool.and_false]
      · rintro t (rfl | rfl)
        · exact ⟨rfl, fun c isCap => ⟨c, isCap, le_refl c⟩⟩
        · exact ⟨rfl, doubledCap_rises⟩
      · exact high _
  · intro kind omitCap world
    unfold compatibleComplete
    split
    · exact bounded_seedRefused
    · refine bounded_rounds (fun _ _ => rfl) rfl rfl ?_ ?_ 0
      · rintro t (rfl | rfl)
        all_goals exact ⟨rfl, fun c isCap => ⟨c, isCap, le_refl c⟩⟩
      · cases omitCap with
        | true => simp
        | false => exact high _

end DevHealth.Llm

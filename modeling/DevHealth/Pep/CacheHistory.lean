import DevHealth.Pep.CacheSystem

/-! # What the history of a run says about the cache

`Inv` ties the state of the system to the events that led to it: the sequence
number counts the flushes and the non-cacheable verdicts, every call in flight
took its stamp at a known point of the history, every live entry is the answer to
such a call, and every flush and non-cacheable verdict is still guarded against by
one of the three counters. -/
set_option autoImplicit false
namespace DevHealth.Pep.System

open Go Lib

variable {K : Type} [DecidableEq K] {keyOf : Request → K}

def Event.bumps : Event → Bool
  | .invalidated => true
  | .observed _ _ d => !d.storable
  | _ => false

def bumps (es : List Event) : Nat := es.countP Event.bumps

def Rejects (keyOf : Request → K) (key : K) : Event → Prop
  | .observed _ req d => keyOf req = key ∧ d.storable = false
  | _ => False

/-- Call `id` took `stamp` and the reading `asked` at one point of the history,
and `between` is what has happened since. -/
def AskedAt (es : List Event) (id : CallId) (stamp : Nat) (asked : Time)
    (between : List Event) : Prop :=
  ∃ before, es = before ++ .stamped id stamp asked :: between ∧ stamp = bumps before % 2 ^ 64

/-- Within `between` the call sent its requests and was then answered `d` for `req`. -/
def Exchange (id : CallId) (req : Request) (d : Decision) (between : List Event) : Prop :=
  ∃ x reqs y answers z, between = x ++ .sent id reqs :: (y ++ .answered id answers :: z) ∧
    (req, d) ∈ answers

def PcInv (es : List Event) (id : CallId) : Pc → Prop
  | .send _ stamp asked | .batchSend _ _ stamp asked => ∃ between, AskedAt es id stamp asked between
  | .waiting _ stamp asked | .batchWaiting _ _ stamp asked =>
    ∃ x reqs y, AskedAt es id stamp asked (x ++ .sent id reqs :: y)
  | .observe req stamp asked d =>
    ∃ between, AskedAt es id stamp asked between ∧ Exchange id req d between
  | .batchObserve b _ stamp asked todo =>
    ∃ between, AskedAt es id stamp asked between ∧
      ∀ item ∈ todo, Exchange id (b.request item.1) item.2 between
  | _ => True

/-- A live entry is the answer to a call that asked for its key.  When `seq` has
not wrapped, neither a flush nor a non-cacheable verdict for the key came after the
stamp of that call. -/
def Sourced (keyOf : Request → K) (es : List Event) (key : K) (d : Decision) (asked : Time) : Prop :=
  ∃ id stamp between req, AskedAt es id stamp asked between ∧ Exchange id req d between ∧
    keyOf req = key ∧ d.storable = true ∧ d.isLocal = false ∧
    (bumps es < 2 ^ 64 → .invalidated ∉ between ∧ ∀ e ∈ between, ¬ Rejects keyOf key e)

/-- One of the three counters stands at `n` or above for the key. -/
def Guarded (c : Cache K) (key : K) (n : Nat) : Prop :=
  n ≤ c.lastFlush ∨ n ≤ c.floor ∨ ∃ entry, c.lookup key = some entry ∧ n ≤ entry.guard

structure CacheInv (keyOf : Request → K) (es : List Event) (c : Cache K) : Prop where
  wellFormed : c.WellFormed
  seq : c.seq = bumps es % 2 ^ 64
  live : ∀ key e, c.lookup key = some e → e.live = true → Sourced keyOf es key e.decision e.asked
  watermark : ∀ id req d, .observed id req d ∈ es → d.policyRevision ≤ c.watermark
  closed : .closed ∈ es ↔ c.closed = true
  emptied : c.closed = true → c.lru = []
  flushes : bumps es < 2 ^ 64 → ∀ before after, es = before ++ .invalidated :: after →
    bumps before + 1 ≤ c.lastFlush
  tombstones : bumps es < 2 ^ 64 → c.closed = false → ∀ key before after e,
    es = before ++ e :: after → Rejects keyOf key e → Guarded c key (bumps before + 1)

structure Inv (keyOf : Request → K) (es : List Event) (s : Sys K) : Prop where
  cache : CacheInv keyOf es s.cache
  calls : ∀ id pc, s.calls id = some pc → PcInv es id pc

/-! ## Histories only grow -/

@[simp] theorem bumps_append (es more : List Event) : bumps (es ++ more) = bumps es + bumps more :=
  List.countP_append

@[simp] theorem bumps_singleton (e : Event) : bumps [e] = if e.bumps then 1 else 0 := by
  simp [bumps, List.countP_singleton]

variable {asked : Time} {d : Decision} {id : CallId} {key : K} {n : Nat}

theorem AskedAt.snoc {es between : List Event} {stamp : Nat}
    (placed : AskedAt es id stamp asked between) (e : Event) :
    AskedAt (es ++ [e]) id stamp asked (between ++ [e]) := by
  obtain ⟨before, rfl, number⟩ := placed
  exact ⟨before, by simp, number⟩

theorem Exchange.snoc {req : Request} {between : List Event}
    (exchange : Exchange id req d between) (e : Event) : Exchange id req d (between ++ [e]) := by
  obtain ⟨x, reqs, y, answers, z, rfl, member⟩ := exchange
  exact ⟨x, reqs, y, answers, z ++ [e], by simp, member⟩

theorem PcInv.snoc {es : List Event} {pc : Pc} (known : PcInv es id pc) (e : Event) :
    PcInv (es ++ [e]) id pc := by
  cases pc with
  | send req stamp asked | batchSend b round stamp asked =>
    obtain ⟨between, placed⟩ := known
    exact ⟨between ++ [e], placed.snoc e⟩
  | waiting req stamp asked | batchWaiting b round stamp asked =>
    obtain ⟨x, reqs, y, placed⟩ := known
    exact ⟨x, reqs, y ++ [e], by simpa using placed.snoc e⟩
  | observe req stamp asked d =>
    obtain ⟨between, placed, exchange⟩ := known
    exact ⟨between ++ [e], placed.snoc e, exchange.snoc e⟩
  | batchObserve b round stamp asked todo =>
    obtain ⟨between, placed, exchanges⟩ := known
    exact ⟨between ++ [e], placed.snoc e, fun item member => (exchanges item member).snoc e⟩
  | _ => trivial

omit [DecidableEq K] in
theorem Sourced.snoc {es : List Event} (sourced : Sourced keyOf es key d asked) {e : Event}
    (notFlush : e ≠ .invalidated) (notReject : ¬ Rejects keyOf key e) :
    Sourced keyOf (es ++ [e]) key d asked := by
  obtain ⟨id, stamp, between, req, placed, exchange, keyed, storable, verdict, clean⟩ := sourced
  refine ⟨id, stamp, between ++ [e], req, placed.snoc e, exchange.snoc e, keyed, storable, verdict, ?_⟩
  intro few
  obtain ⟨noFlush, noReject⟩ := clean (by rw [bumps_append] at few; omega)
  constructor
  · simpa [noFlush] using notFlush.symm
  · intro x member
    rcases List.mem_append.mp member with old | new
    · exact noReject x old
    · rw [List.mem_singleton.mp new]
      exact notReject

/-! ## Guards -/

omit [DecidableEq K] in
theorem Guarded.kept {c c' : Cache K} (lastFlush : c'.lastFlush = c.lastFlush) (floor : c.floor ≤ c'.floor)
    (guard : ∀ e, c.lookup key = some e →
      e.guard ≤ c'.floor ∨ ∃ e', c'.lookup key = some e' ∧ e.guard ≤ e'.guard)
    (guarded : Guarded c key n) : Guarded c' key n := by
  rcases guarded with flushed | low | ⟨entry, found, le⟩
  · exact Or.inl (lastFlush ▸ flushed)
  · exact Or.inr (Or.inl (low.trans floor))
  · rcases guard entry found with low | ⟨entry', found', grown⟩
    · exact Or.inr (Or.inl (le.trans low))
    · exact Or.inr (Or.inr ⟨entry', found', le.trans grown⟩)

omit [DecidableEq K] in
theorem Guarded.fades {c c' : Cache K} (fades : Cache.Fades c c') (guarded : Guarded c key n) :
    Guarded c' key n :=
  guarded.kept fades.lastFlush fades.floor (fades.guard key)

omit [DecidableEq K] in
theorem Guarded.records {c c' : Cache K} {at_ key : K} {written : Option (Decision × Time)}
    (records : Cache.Records c c' at_ written) (ne : key ≠ at_) (guarded : Guarded c key n) :
    Guarded c' key n :=
  guarded.kept records.lastFlush records.floor fun e => records.guard key e ne

theorem Guarded.store {c : Cache K} (wf : c.WellFormed) (guarded : Guarded c key n) :
    Guarded (c.store key d asked) key n := by
  obtain ⟨_, records, _, kept⟩ := Cache.store_spec wf key d asked
  exact guarded.kept records.lastFlush records.floor kept

omit [DecidableEq K] in
/-- An admitted allow has a stamp above everything its key is guarded against. -/
theorem guarded_le_of_admits {c : Cache K} {stamp : Nat} {asked now : Time}
    (admitted : c.admits key d stamp asked now = true) (guarded : Guarded c key n) : n ≤ stamp := by
  simp only [Cache.admits, Bool.and_eq_true, Bool.not_eq_true', Bool.or_eq_false_iff,
    decide_eq_false_iff_not, Nat.not_lt] at admitted
  obtain ⟨⟨⟨aboveFlush, aboveFloor⟩, aboveGuard⟩, _⟩ := admitted
  rcases guarded with flushed | low | ⟨entry, found, le⟩
  · exact flushed.trans aboveFlush
  · exact low.trans aboveFloor
  · obtain ⟨el, entryAt, rfl⟩ := Option.map_eq_some_iff.mp found
    simp only [entryAt, decide_eq_false_iff_not, Nat.not_lt] at aboveGuard
    exact le.trans aboveGuard

omit [DecidableEq K] in
/-- With every guard at or below the stamp, nothing after the stamp was a flush or
a non-cacheable verdict for the key. -/
theorem clean_of_guards {es between : List Event} {c : Cache K} {stamp : Nat}
    (inv : CacheInv keyOf es c) (few : bumps es < 2 ^ 64) (isOpen : c.closed = false)
    (placed : AskedAt es id stamp asked between) (aboveFlush : c.lastFlush ≤ stamp)
    (above : ∀ n, Guarded c key n → n ≤ stamp) :
    .invalidated ∉ between ∧ ∀ e ∈ between, ¬ Rejects keyOf key e := by
  obtain ⟨before, rfl, number⟩ := placed
  have small : bumps before < 2 ^ 64 := by
    rw [bumps_append] at few
    omega
  rw [Nat.mod_eq_of_lt small] at number
  constructor
  · intro member
    obtain ⟨x, y, rfl⟩ := List.append_of_mem member
    have flushed := inv.flushes few (before ++ .stamped id stamp asked :: x) y (by simp)
    rw [bumps_append] at flushed
    omega
  · intro e member rejects
    obtain ⟨x, y, rfl⟩ := List.append_of_mem member
    have guarded := inv.tombstones few isOpen key (before ++ .stamped id stamp asked :: x) y e
      (by simp) rejects
    have le := above _ guarded
    rw [bumps_append] at le
    omega

end DevHealth.Pep.System

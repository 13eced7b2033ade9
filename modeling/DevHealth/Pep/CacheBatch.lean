import DevHealth.Pep.CacheSafety

/-! # Hits and answers of one batch

`DecideBatch` reads its hits, asks for its misses, and asks for the hits again when
one of them has fallen below the watermark.  The watermark is what carries the
revisions of the miss answers to that test, and `observe` raises it only while the
cache is open.  A `Close` between the reads and the record of a miss answer
therefore lets an old hit out beside a newer answer.  `no_mixed_batch` says that
this is the only way. -/
set_option autoImplicit false
namespace DevHealth.Pep.System

open Go Lib

variable {K : Type} [DecidableEq K] {keyOf : Request → K}

def revisionAt (out : List Decision) (i : Nat) : Nat :=
  (out.getD i Decision.zero).policyRevision

/-- A miss answer that a batch records after `Close` is not above any hit of the
batch. -/
def lateAnswersInOrder (s : Sys K) : Event → Bool
  | .dropped id _ d =>
    match s.calls id with
    | some (.batchObserve b .misses _ _ _) =>
      !s.cache.closed || b.hits.all fun h => decide (d.policyRevision ≤ revisionAt b.out h)
    | _ => true
  | _ => true

/-- Every answered miss is at or below the watermark, or at or below every hit. -/
structure Covered (watermark : Nat) (b : Batch) : Prop where
  apart : ∀ j ∈ b.misses, j ∉ b.hits
  bounded : ∀ j ∈ b.misses, revisionAt b.out j ≤ watermark ∨
    ∀ h ∈ b.hits, revisionAt b.out j ≤ revisionAt b.out h

structure Reading (b : Batch) (next : Nat) : Prop where
  apart : ∀ j ∈ b.misses, j ∉ b.hits
  read : ∀ j, j ∈ b.misses ∨ j ∈ b.hits → j < next
  blank : ∀ j, j ∈ b.misses ∨ next ≤ j → revisionAt b.out j = 0

def BatchInv (watermark : Nat) : Pc → Prop
  | .batchGet b next => Reading b next
  | .batchStamp b .misses | .batchSend b .misses _ _ | .batchWaiting b .misses _ _
  | .batchCheck b => Covered watermark b
  | .batchObserve b .misses _ _ todo =>
    Covered watermark b ∧ ∀ item ∈ todo, item.1 ∈ b.misses ∧ item.2.isLocal = false
  | .returning out served answered =>
    ∀ i ∈ served, ∀ j ∈ answered, revisionAt out j ≤ revisionAt out i
  | _ => True

/-! ## Writing one position -/

theorem revisionAt_set_ne (out : List Decision) {i j : Nat} (d : Decision) (ne : j ≠ i) :
    revisionAt (out.set i d) j = revisionAt out j := by
  simp [revisionAt, List.getD, List.getElem?_set_ne ne.symm]

theorem revisionAt_set_le (out : List Decision) (i : Nat) (d : Decision) :
    revisionAt (out.set i d) i ≤ d.policyRevision := by
  by_cases inside : i < out.length
  · simp [revisionAt, List.getD, List.getElem?_set_self inside]
  · have outside : out.length ≤ i := Nat.not_lt.mp inside
    rw [List.set_eq_of_length_le outside]
    simp [revisionAt, List.getD, List.getElem?_eq_none outside, Decision.zero]

variable {id : CallId} {b : Batch} {s t : Sys K} {e : Event}

theorem Covered.mono {low high : Nat} (covered : Covered low b) (le : low ≤ high) : Covered high b :=
  ⟨covered.apart, fun j member => (covered.bounded j member).imp_left fun below => below.trans le⟩

theorem Covered.record {watermark : Nat} (covered : Covered watermark b) {i : Nat} {d : Decision}
    (isMiss : i ∈ b.misses)
    (bound : d.policyRevision ≤ watermark ∨ ∀ h ∈ b.hits, d.policyRevision ≤ revisionAt b.out h) :
    Covered watermark { b with out := b.out.set i d } := by
  have hitKept : ∀ h ∈ b.hits, revisionAt (b.out.set i d) h = revisionAt b.out h := by
    intro h isHit
    refine revisionAt_set_ne b.out d ?_
    rintro rfl
    exact covered.apart h isMiss isHit
  refine ⟨covered.apart, fun j member => ?_⟩
  by_cases same : j = i
  · subst same
    have le := revisionAt_set_le b.out j d
    refine bound.imp (le.trans ·) fun below h isHit => ?_
    rw [hitKept h isHit]
    exact le.trans (below h isHit)
  · rw [revisionAt_set_ne b.out d same]
    refine (covered.bounded j member).imp_right fun below h isHit => ?_
    rw [hitKept h isHit]
    exact below h isHit

theorem Reading.covered {next : Nat} (reading : Reading b next) (watermark : Nat) : Covered watermark b :=
  ⟨reading.apart, fun j member => Or.inl (by simp [reading.blank j (Or.inl member)])⟩

theorem Reading.record {next : Nat} (reading : Reading b next) (hit : Option Decision) :
    Reading (b.record next hit) (next + 1) := by
  have fresh : next ∉ b.misses ∧ next ∉ b.hits :=
    ⟨fun member => absurd (reading.read next (Or.inl member)) (Nat.lt_irrefl _),
      fun member => absurd (reading.read next (Or.inr member)) (Nat.lt_irrefl _)⟩
  cases hit with
  | none =>
    refine ⟨fun j member => ?_, fun j member => ?_, fun j member => ?_⟩
    · rcases List.mem_append.mp member with old | new
      · exact reading.apart j old
      · rw [List.mem_singleton.mp new]
        exact fresh.2
    · simp only [Batch.record, List.mem_append, List.mem_singleton] at member
      have old := reading.read j
      grind
    · simp only [Batch.record, List.mem_append, List.mem_singleton] at member
      have old := reading.blank j
      grind [Batch.record]
  | some d =>
    refine ⟨fun j member => ?_, fun j member => ?_, fun j member => ?_⟩
    · have isMiss : j ∈ b.misses := member
      simp only [Batch.record, List.mem_append, List.mem_singleton, not_or]
      refine ⟨reading.apart j isMiss, ?_⟩
      rintro rfl
      exact fresh.1 isMiss
    · simp only [Batch.record, List.mem_append, List.mem_singleton] at member
      have old := reading.read j
      grind
    · have ne : j ≠ next := by
        rintro rfl
        rcases member with isMiss | above
        · exact fresh.1 isMiss
        · omega
      have before : j ∈ b.misses ∨ next ≤ j := member.imp_right (by omega)
      exact (revisionAt_set_ne b.out d ne).trans (reading.blank j before)

/-! ## One step of a call -/

theorem BatchInv.mono {low high : Nat} {pc : Pc} (held : BatchInv low pc) (le : low ≤ high) :
    BatchInv high pc := by
  cases pc with
  | batchStamp b round | batchSend b round stamp asked | batchWaiting b round stamp asked =>
    cases round with
    | misses => exact Covered.mono held le
    | hits => trivial
  | batchObserve b round stamp asked todo =>
    cases round with
    | misses => exact ⟨held.1.mono le, held.2⟩
    | hits => trivial
  | batchCheck b => exact Covered.mono held le
  | batchGet b next => exact held
  | returning out served answered => exact held
  | _ => trivial

theorem batchInv_begin (watermark : Nat) (call : Invocation) : BatchInv watermark (begin call) := by
  cases call with
  | decide req =>
    simp only [begin, beginDecide]
    split
    · intro i member
      cases member
    · trivial
  | decideBatch reqs =>
    simp only [begin, beginBatch]
    split_ifs
    · intro i member
      cases member
    · intro i member
      cases member
    · intro i member
      cases member
    · refine ⟨fun j member => ?_, fun j member => ?_, fun j _ => ?_⟩
      · cases member
      · rcases member with member | member <;> cases member
      · simp only [revisionAt, List.getD, List.getElem?_replicate]
        split <;> rfl

theorem batchInv_afterGet (watermark : Nat) (req : Request) (hit : Option Decision) :
    BatchInv watermark (afterGet req hit) := by
  cases hit with
  | none => trivial
  | some d =>
    intro i _ j member
    cases member

theorem batchInv_afterBatchGet {next : Nat} (reading : Reading b (next + 1)) (watermark : Nat) :
    BatchInv watermark (afterBatchGet b next) := by
  unfold afterBatchGet
  split_ifs
  · exact reading
  · exact reading.covered watermark
  · exact reading.covered watermark

omit [DecidableEq K] in
/-- The last test of a batch: with no hit below the watermark, no answered miss is
above a hit. -/
theorem ordered_of_check {c : Cache K} (covered : Covered c.watermark b)
    (above : c.belowWatermark b.out b.hits = false) :
    ∀ i ∈ b.hits, ∀ j ∈ b.misses, revisionAt b.out j ≤ revisionAt b.out i := by
  intro i isHit j isMiss
  have high : c.watermark ≤ revisionAt b.out i := by
    have all := List.any_eq_false.mp above i isHit
    simpa [revisionAt] using all
  rcases covered.bounded j isMiss with below | below
  · exact below.trans high
  · exact below i isHit

theorem observe_raises {c : Cache K} (wf : c.WellFormed) (key : K) {d : Decision} (stamp : Nat)
    (asked now : Time) (verdict : d.isLocal = false) (isOpen : c.closed = false) :
    d.policyRevision ≤ (c.observe key d stamp asked now).watermark := by
  obtain ⟨raisedWf, _, own⟩ := Cache.raise_spec wf d.policyRevision
  simp only [Cache.observe, verdict, isOpen, Bool.false_eq_true, if_false]
  split_ifs
  · exact own.trans (Cache.tombstone_spec raisedWf key).2.1.watermark
  · exact own.trans (Cache.store_spec raisedWf key d asked).2.1.watermark
  · exact own

theorem batchInv_observe {s : Sys K} {i stamp : Nat} {d : Decision} {asked now : Time}
    {todo : List (Nat × Decision)} (wf : s.cache.WellFormed)
    (found : s.calls id = some (.batchObserve b .misses stamp asked ((i, d) :: todo)))
    (covered : Covered s.cache.watermark b)
    (mine : ∀ item ∈ (i, d) :: todo, item.1 ∈ b.misses ∧ item.2.isLocal = false)
    (meets : lateAnswersInOrder s (observeEvent s.cache id (b.request i) d) = true) :
    BatchInv (s.cache.observe (keyOf (b.request i)) d stamp asked now).watermark
      (if todo = [] then afterAsk { b with out := b.out.set i d } .misses
        else .batchObserve { b with out := b.out.set i d } .misses stamp asked todo) := by
  obtain ⟨isMiss, verdict⟩ := mine (i, d) (List.mem_cons_self ..)
  have steady := observe_steady wf (keyOf (b.request i)) d stamp asked now
  have bound : d.policyRevision ≤ (s.cache.observe (keyOf (b.request i)) d stamp asked now).watermark ∨
      ∀ h ∈ b.hits, d.policyRevision ≤ revisionAt b.out h := by
    by_cases isClosed : s.cache.closed = true
    · right
      simpa [observeEvent, lateAnswersInOrder, verdict, isClosed, found] using meets
    · left
      exact observe_raises wf _ stamp asked now verdict (Bool.eq_false_iff.mpr isClosed)
  have recorded := (covered.mono steady.watermark).record isMiss bound
  split
  · exact recorded
  · exact ⟨recorded, fun item member => mine item (List.mem_cons_of_mem _ member)⟩

theorem batchInv_locked {s : Sys K} {c' : Cache K} {now : Time} {pc pc' : Pc}
    (wf : s.cache.WellFormed) (found : s.calls id = some pc)
    (held : BatchInv s.cache.watermark pc)
    (moved : lockedSection keyOf s.cache id now pc = some (c', pc', e))
    (meets : lateAnswersInOrder s e = true) : BatchInv c'.watermark pc' := by
  cases pc with
  | get req => cases moved; exact batchInv_afterGet _ req _
  | batchGet b next =>
    cases moved
    exact batchInv_afterBatchGet (Reading.record held _) _
  | stamp req => cases moved; trivial
  | observe req stamp asked d =>
    cases moved
    intro i member
    cases member
  | batchStamp b round => cases moved; cases round <;> exact held
  | batchObserve b round stamp asked todo =>
    cases todo with
    | nil => cases moved
    | cons item todo =>
      obtain ⟨i, d⟩ := item
      cases moved
      cases round with
      | misses => exact batchInv_observe wf found held.1 held.2 meets
      | hits =>
        split
        · intro i member
          cases member
        · trivial
  | batchCheck b =>
    simp only [lockedSection] at moved
    split at moved
    · cases moved
      trivial
    · rename_i above
      cases moved
      exact ordered_of_check held (Bool.eq_false_iff.mpr above)
  | _ => cases moved

theorem batchInv_answer {watermark : Nat} {answers : List Decision} {pc pc' : Pc}
    (held : BatchInv watermark pc) (moved : answerStep id answers pc = some (pc', e)) :
    BatchInv watermark pc' := by
  cases answered moved with
  | one => trivial
  | failed =>
    intro i member
    cases member
  | all b round stamp asked count noError =>
    cases round with
    | hits => trivial
    | misses =>
      have verdicts := List.find?_eq_none.mp (Option.map_eq_none_iff.mp noError)
      refine ⟨held, fun item member => ⟨(List.of_mem_zip member).1, ?_⟩⟩
      exact Bool.eq_false_iff.mpr (verdicts item.2 (List.of_mem_zip member).2)

/-! ## Whole runs -/

/-- Every call satisfies `BatchInv` for the current watermark. -/
def Ordered (s : Sys K) : Prop := ∀ id pc, s.calls id = some pc → BatchInv s.cache.watermark pc

omit [DecidableEq K] in
theorem ordered_update {pc : Pc} (held : Ordered s) (le : s.cache.watermark ≤ t.cache.watermark)
    (calls : t.calls = Function.update s.calls id (some pc))
    (mine : BatchInv t.cache.watermark pc) : Ordered t := by
  intro other pc' found
  rw [calls] at found
  by_cases same : other = id
  · subst same
    rw [Function.update_self] at found
    cases found
    exact mine
  · rw [Function.update_of_ne same] at found
    exact (held other pc' found).mono le

omit [DecidableEq K] in
theorem ordered_move {s t : Sys K} {id : CallId} {next : Pc → Option (Pc × Event)} {e : Event}
    (held : Ordered s) (stepped : s.move id next = some (t, e))
    (keeps : ∀ pc pc' e, BatchInv s.cache.watermark pc → next pc = some (pc', e) →
      BatchInv s.cache.watermark pc') : Ordered t := by
  obtain ⟨pc, pc', found, moved, rfl⟩ := move_inv stepped
  exact ordered_update held le_rfl rfl (keeps pc pc' e (held id pc found) moved)

theorem ordered_step {a : Action} (wf : s.cache.WellFormed) (held : Ordered s)
    (stepped : step keyOf s a = some (t, e)) (meets : lateAnswersInOrder s e = true) :
    Ordered t := by
  have steady := steady_of_effect wf (step_effect stepped)
  cases a with
  | start id call =>
    simp only [step] at stepped
    split at stepped <;> cases stepped
    exact ordered_update held le_rfl rfl (batchInv_begin _ call)
  | locked id now =>
    obtain ⟨pc, c', pc', found, moved, rfl⟩ := locked_inv stepped
    exact ordered_update held steady.watermark rfl (batchInv_locked wf found (held id pc found) moved meets)
  | send id =>
    refine ordered_move held stepped fun pc pc' e mine moved => ?_
    cases pc with
    | batchSend b round stamp asked => cases moved; cases round <;> exact mine
    | send req stamp asked => cases moved; trivial
    | _ => cases moved
  | answer id answers =>
    exact ordered_move held stepped fun _ _ _ mine moved => batchInv_answer mine moved
  | finish id =>
    refine ordered_move held stepped fun pc pc' e mine moved => ?_
    cases pc <;> cases moved
    trivial
  | invalidate aggregateType aggregateID revision | invalidateAll | close =>
    cases stepped
    exact fun id pc found => (held id pc found).mono steady.watermark

theorem returning_of_effect {out : List Decision} {served answered : List Nat}
    (effect : Effect keyOf s t (.returned id out served answered)) :
    s.calls id = some (.returning out served answered) := by
  cases effect with
  | aside _ computed => exact computed

variable [Inhabited K]

theorem ordered_run {limits : CacheLimits} {es : List Event} {s : Sys K}
    (run : RunWhere (step keyOf) (fun s e => lateAnswersInOrder s e = true) (initial limits) es s) :
    Ordered s := by
  induction run with
  | refl =>
    intro id pc found
    cases found
  | snoc earlier stepped meets ih =>
    exact ordered_step (inv_run earlier.run).cache.wellFormed ih stepped meets

/-- In every run in which no batch records, after `Close`, a miss answer above one
of its hits, no batch returns a position served from the cache with a lower
revision than a position that the decision point answered during the call. -/
theorem no_mixed_batch (keyOf : Request → K) (limits : CacheLimits) (es : List Event) (s : Sys K)
    (run : RunWhere (step keyOf) (fun s e => lateAnswersInOrder s e = true) (initial limits) es s)
    (before after : List Event) (id : CallId) (out : List Decision) (served answered : List Nat)
    (returned : es = before ++ .returned id out served answered :: after) :
    ∀ i ∈ served, ∀ j ∈ answered, revisionAt out j ≤ revisionAt out i := by
  subst returned
  obtain ⟨state, a, t, earlier, stepped, _⟩ := run.split
  exact ordered_run earlier id _ (returning_of_effect (step_effect stepped))

/-- An allow at revision 5 is stored for the first request; a batch then reads it,
misses the second request and is answered, and the cache is closed before the
answer is recorded. -/
def closedBatchActions (answer : Decision) : List Action :=
  missActions 1 (sampleAllow 5) 10 ++
    [.start 2 (.decideBatch [sampleRequest "api", sampleRequest "web"]),
      .locked 2 (Time.unix 20), .locked 2 (Time.unix 20), .locked 2 (Time.unix 20),
      .send 2, .answer 2 [answer], .close, .locked 2 (Time.unix 21), .locked 2 (Time.unix 21),
      .finish 2]

def closedBatchHistory (answer : Decision) : List Event :=
  missEvents 1 (sampleAllow 5) 0 10 ++
    [.started 2, .got 2 (sampleRequest "api") (Time.unix 20) (some (sampleAllow 5)),
      .got 2 (sampleRequest "web") (Time.unix 20) none, .stamped 2 0 (Time.unix 20),
      .sent 2 [sampleRequest "web"], .answered 2 [(sampleRequest "web", answer)], .closed,
      .dropped 2 (sampleRequest "web") answer, .checked 2 false]

/-- The batch returns the stored allow at revision 5 beside an answer at revision 6. -/
theorem mixed_batch_after_close :
    ¬ ∀ (es : List Event) (s : Sys Bytes),
      Run (step (cacheKey isPrintAscii sampleDigest)) (initial sampleLimits) es s →
      ∀ before after id out served answered,
        es = before ++ .returned id out served answered :: after →
        ∀ i ∈ served, ∀ j ∈ answered, revisionAt out j ≤ revisionAt out i := by
  intro claim
  have success : (exec (step (cacheKey isPrintAscii sampleDigest)) (fun _ _ => true)
      (initial sampleLimits) (closedBatchActions (sampleAllow 6))).map Prod.snd =
      some (closedBatchHistory (sampleAllow 6) ++
        [.returned 2 [sampleAllow 5, sampleAllow 6] [0] [1]]) := by
    decide +kernel
  obtain ⟨⟨s, es⟩, executed, rfl⟩ := Option.map_eq_some_iff.mp success
  have ordered := claim _ s (runWhere_of_exec (fun _ _ _ => trivial) executed)
    (closedBatchHistory (sampleAllow 6)) [] 2 [sampleAllow 5, sampleAllow 6] [0] [1] rfl
    0 (by decide) 1 (by decide)
  exact absurd ordered (by decide)

/-- With an answer at revision 5 the same steps meet the condition. -/
theorem no_mixed_batch_closed :
    revisionAt [sampleAllow 5, sampleAllow 5] 1 ≤ revisionAt [sampleAllow 5, sampleAllow 5] 0 := by
  have success : (exec (step (cacheKey isPrintAscii sampleDigest)) lateAnswersInOrder
      (initial sampleLimits) (closedBatchActions (sampleAllow 5))).map Prod.snd =
      some (closedBatchHistory (sampleAllow 5) ++
        [.returned 2 [sampleAllow 5, sampleAllow 5] [0] [1]]) := by
    decide +kernel
  obtain ⟨⟨s, es⟩, executed, rfl⟩ := Option.map_eq_some_iff.mp success
  exact no_mixed_batch (cacheKey isPrintAscii sampleDigest) sampleLimits _ s
    (runWhere_of_exec (fun _ _ passed => passed) executed) (closedBatchHistory (sampleAllow 5)) []
    2 [sampleAllow 5, sampleAllow 5] [0] [1] rfl 0 (by decide) 1 (by decide)

end DevHealth.Pep.System

import DevHealth.Pep.CacheHistory

/-! # Every step keeps the invariant

The sections change the cache in four ways only: a read or a step outside the lock
lets it fade, an open cache observes a verdict, an open cache is flushed, and the
cache is closed.  Each way has its own preservation lemma; `inv_run` is the
invariant of every run. -/
set_option autoImplicit false
namespace DevHealth.Pep.System

open Go Lib

variable {K : Type} [DecidableEq K] {keyOf : Request → K}

def Quiet : Event → Prop
  | .observed _ _ _ | .invalidated | .closed => False
  | _ => True

variable {es : List Event} {id : CallId} {e : Event} {req : Request} {d : Decision} {c : Cache K}
  {s t : Sys K}

theorem bumps_snoc_quiet (quiet : Quiet e) : bumps (es ++ [e]) = bumps es := by
  cases e <;> simp_all [Quiet, Event.bumps]

omit [DecidableEq K] in
theorem not_rejects_of_quiet (quiet : Quiet e) (key : K) : ¬ Rejects keyOf key e := by
  cases e <;> simp_all [Quiet, Rejects]

omit [DecidableEq K] in
theorem cacheInv_quiet {c c' : Cache K} (inv : CacheInv keyOf es c) (wf : c'.WellFormed)
    (fades : Cache.Fades c c') (still : c.closed = true → c' = c) (quiet : Quiet e) :
    CacheInv keyOf (es ++ [e]) c' where
  wellFormed := wf
  seq := by rw [fades.seq, inv.seq, bumps_snoc_quiet quiet]
  live := by
    intro key entry found alive
    refine (inv.live key entry (fades.live key entry found alive) alive).snoc ?_
      (not_rejects_of_quiet quiet key)
    rintro rfl
    exact quiet
  watermark := by
    intro id req d member
    rcases List.mem_append.mp member with old | new
    · exact (inv.watermark id req d old).trans fades.watermark
    · rw [← List.mem_singleton.mp new] at quiet
      exact quiet.elim
  closed := by
    rw [fades.closed, ← inv.closed, List.mem_append, List.mem_singleton]
    refine or_iff_left ?_
    rintro rfl
    exact quiet
  emptied := by
    intro isClosed
    have was : c.closed = true := fades.closed ▸ isClosed
    rw [still was]
    exact inv.emptied was
  flushes := by
    intro few before after whole
    rw [bumps_snoc_quiet quiet] at few
    rcases snoc_eq_append_cons.mp whole with ⟨_, _, rfl⟩ | ⟨rest, _, old⟩
    · exact quiet.elim
    · rw [fades.lastFlush]
      exact inv.flushes few before rest old
  tombstones := by
    intro few isOpen key before after x whole rejects
    rw [bumps_snoc_quiet quiet] at few
    rw [fades.closed] at isOpen
    rcases snoc_eq_append_cons.mp whole with ⟨_, _, rfl⟩ | ⟨rest, _, old⟩
    · exact absurd rejects (not_rejects_of_quiet quiet key)
    · exact (inv.tombstones few isOpen key before rest x old rejects).fades fades

omit [DecidableEq K] in
theorem cacheInv_flushed (inv : CacheInv keyOf es c) (isOpen : c.closed = false) :
    CacheInv keyOf (es ++ [.invalidated]) c.invalidateAll.1 := by
  have shape : c.invalidateAll.1 = Cache.clear { c.bumpSeq with lastFlush := c.bumpSeq.seq } := by
    simp [Cache.invalidateAll, isOpen]
  have total : bumps (es ++ [.invalidated]) = bumps es + 1 := by simp [Event.bumps]
  have flushed : bumps (es ++ [.invalidated]) < 2 ^ 64 → c.invalidateAll.1.lastFlush = bumps es + 1 := by
    intro few
    rw [total] at few
    rw [shape]
    show (c.seq + 1) % 2 ^ 64 = bumps es + 1
    rw [inv.seq, Nat.mod_add_mod, Nat.mod_eq_of_lt few]
  constructor
  · rw [shape]
    exact ⟨List.nodup_nil, by simp [Cache.clear], by simp [Cache.clear]⟩
  · rw [shape, total]
    show (c.seq + 1) % 2 ^ 64 = (bumps es + 1) % 2 ^ 64
    rw [inv.seq, Nat.mod_add_mod]
  · intro key entry found
    rw [shape] at found
    simp [Cache.lookup, Cache.clear] at found
  · intro id req d member
    rw [shape]
    exact inv.watermark id req d (by simpa using member)
  · rw [shape]
    show .closed ∈ es ++ [.invalidated] ↔ c.closed = true
    rw [← inv.closed]
    simp
  · intro _
    rw [shape]
    rfl
  · intro few before after whole
    rw [flushed few]
    have le : bumps before ≤ bumps es := by
      rcases snoc_eq_append_cons.mp whole with ⟨_, rfl, _⟩ | ⟨rest, _, rfl⟩
      · exact le_refl _
      · rw [bumps_append]
        omega
    omega
  · intro few _ key before after e whole rejects
    left
    rw [flushed few]
    rcases snoc_eq_append_cons.mp whole with ⟨_, _, rfl⟩ | ⟨rest, _, rfl⟩
    · exact rejects.elim
    · rw [bumps_append]
      omega

omit [DecidableEq K] in
theorem cacheInv_closed (inv : CacheInv keyOf es c) : CacheInv keyOf (es ++ [.closed]) c.close where
  wellFormed := ⟨List.nodup_nil, by simp [Cache.close, Cache.clear], by simp [Cache.close, Cache.clear]⟩
  seq := by simpa [Cache.close, Cache.clear, Event.bumps] using inv.seq
  live := by simp [Cache.lookup, Cache.close, Cache.clear]
  watermark := by
    intro id req d member
    exact inv.watermark id req d (by simpa using member)
  closed := by simp [Cache.close, Cache.clear]
  emptied := fun _ => rfl
  flushes := by
    intro few before after whole
    rcases snoc_eq_append_cons.mp whole with ⟨_, _, impossible⟩ | ⟨rest, _, old⟩
    · cases impossible
    · exact inv.flushes (by simpa [Event.bumps] using few) before rest old
  tombstones := by simp [Cache.close, Cache.clear]

omit [DecidableEq K] in
theorem observed_watermark {c c' : Cache K} (inv : CacheInv keyOf es c)
    (grown : c.watermark ≤ c'.watermark) (own : d.policyRevision ≤ c'.watermark) (id' : CallId)
    (req' : Request) (d' : Decision) (member : .observed id' req' d' ∈ es ++ [.observed id req d]) :
    d'.policyRevision ≤ c'.watermark := by
  rcases List.mem_append.mp member with old | new
  · exact (inv.watermark id' req' d' old).trans grown
  · cases List.mem_singleton.mp new
    exact own

omit [DecidableEq K] in
theorem observed_flushes {es before after : List Event} (inv : CacheInv keyOf es c)
    (few : bumps (es ++ [.observed id req d]) < 2 ^ 64)
    (whole : es ++ [.observed id req d] = before ++ .invalidated :: after) :
    bumps before + 1 ≤ c.lastFlush := by
  rcases snoc_eq_append_cons.mp whole with ⟨_, _, impossible⟩ | ⟨rest, _, old⟩
  · cases impossible
  · exact inv.flushes (by rw [bumps_append] at few; omega) before rest old

/-- A verdict that is not a cacheable allow leaves a guard above everything before it. -/
theorem cacheInv_tombstone {c raised : Cache K} (inv : CacheInv keyOf es c)
    (isOpen : c.closed = false) (wf : raised.WellFormed) (fades : Cache.Fades c raised)
    (own : d.policyRevision ≤ raised.watermark) (unstorable : d.storable = false) :
    CacheInv keyOf (es ++ [.observed id req d]) (raised.tombstone (keyOf req)) := by
  obtain ⟨buried, records, number, marked⟩ := Cache.tombstone_spec wf (keyOf req)
  have total : bumps (es ++ [.observed id req d]) = bumps es + 1 := by
    simp [Event.bumps, unstorable]
  have stillOpen : (raised.tombstone (keyOf req)).closed = false := by
    rw [records.closed, fades.closed, isOpen]
  have newSeq : (raised.tombstone (keyOf req)).seq = (bumps es + 1) % 2 ^ 64 := by
    rw [number, fades.seq, inv.seq, Nat.mod_add_mod]
  constructor
  · exact buried
  · rw [newSeq, total]
  · intro key entry found alive
    rcases records.live key entry found alive with ⟨ne, old⟩ | ⟨_, impossible⟩
    · refine (inv.live key entry (fades.live key entry old alive) alive).snoc (by simp) ?_
      rintro ⟨same, _⟩
      exact ne same.symm
    · cases impossible
  · exact observed_watermark inv (fades.watermark.trans records.watermark) (own.trans records.watermark)
  · rw [stillOpen]
    simpa [isOpen] using inv.closed
  · simp [stillOpen]
  · intro few before after whole
    rw [records.lastFlush, fades.lastFlush]
    exact observed_flushes inv few whole
  · intro few _ key before after e whole rejects
    by_cases same : key = keyOf req
    · -- the new guard is the number of all bumps so far
      subst same
      have le : bumps before + 1 ≤ (raised.tombstone (keyOf req)).seq := by
        rw [newSeq, Nat.mod_eq_of_lt (by omega)]
        rcases snoc_eq_append_cons.mp whole with ⟨_, rfl, _⟩ | ⟨rest, _, rfl⟩
        · exact le_refl _
        · rw [bumps_append]
          omega
      rcases marked with low | ⟨entry, found, high⟩
      · exact Or.inr (Or.inl (le.trans low))
      · exact Or.inr (Or.inr ⟨entry, found, le.trans high⟩)
    · rcases snoc_eq_append_cons.mp whole with ⟨_, _, rfl⟩ | ⟨rest, _, old⟩
      · exact absurd rejects.1.symm same
      · have guarded := inv.tombstones (by omega) isOpen key before rest e old rejects
        exact (guarded.fades fades).records records same

omit [DecidableEq K] in
theorem cacheInv_raised {c raised : Cache K} (inv : CacheInv keyOf es c)
    (isOpen : c.closed = false) (wf : raised.WellFormed) (fades : Cache.Fades c raised)
    (own : d.policyRevision ≤ raised.watermark) (storable : d.storable = true) :
    CacheInv keyOf (es ++ [.observed id req d]) raised := by
  have total : bumps (es ++ [.observed id req d]) = bumps es := by simp [Event.bumps, storable]
  have harmless : ∀ key, ¬ Rejects keyOf key (.observed id req d) := by
    rintro key ⟨_, unstorable⟩
    rw [storable] at unstorable
    cases unstorable
  constructor
  · exact wf
  · rw [fades.seq, inv.seq, total]
  · intro key entry found alive
    exact (inv.live key entry (fades.live key entry found alive) alive).snoc (by simp) (harmless key)
  · exact observed_watermark inv fades.watermark own
  · rw [fades.closed]
    simpa using inv.closed
  · simp [fades.closed, isOpen]
  · intro few before after whole
    rw [fades.lastFlush]
    exact observed_flushes inv few whole
  · intro few _ key before after e whole rejects
    rcases snoc_eq_append_cons.mp whole with ⟨_, _, rfl⟩ | ⟨rest, _, old⟩
    · exact absurd rejects (harmless key)
    · exact (inv.tombstones (total ▸ few) isOpen key before rest e old rejects).fades fades

/-- An admitted allow becomes the entry of its key: its stamp is above every guard,
so nothing that would have refused it came after the stamp. -/
theorem cacheInv_store {es between : List Event} {raised : Cache K} {stamp : Nat}
    {asked now : Time} (inv : CacheInv keyOf (es ++ [.observed id req d]) raised)
    (isOpen : raised.closed = false) (storable : d.storable = true) (verdict : d.isLocal = false)
    (placed : AskedAt es id stamp asked between) (exchange : Exchange id req d between)
    (admitted : raised.admits (keyOf req) d stamp asked now = true) :
    CacheInv keyOf (es ++ [.observed id req d]) (raised.store (keyOf req) d asked) := by
  obtain ⟨wf, records, number, _⟩ := Cache.store_spec inv.wellFormed (keyOf req) d asked
  have stillOpen : (raised.store (keyOf req) d asked).closed = false := by
    rw [records.closed, isOpen]
  constructor
  · exact wf
  · rw [number, inv.seq]
  · intro key entry found alive
    rcases records.live key entry found alive with ⟨_, old⟩ | ⟨rfl, written⟩
    · exact inv.live key entry old alive
    · obtain ⟨sameDecision, sameAsked⟩ := Prod.mk.inj (Option.some.inj written)
      rw [← sameDecision, ← sameAsked]
      refine ⟨id, stamp, between ++ [.observed id req d], req, placed.snoc _, exchange.snoc _, rfl,
        storable, verdict, ?_⟩
      intro few
      exact clean_of_guards inv few isOpen (placed.snoc _)
        (guarded_le_of_admits admitted (Or.inl (le_refl _)))
        (fun n guarded => guarded_le_of_admits admitted guarded)
  · exact fun id' req' d' member => (inv.watermark id' req' d' member).trans records.watermark
  · rw [records.closed]
    exact inv.closed
  · simp [stillOpen]
  · intro few before after whole
    rw [records.lastFlush]
    exact inv.flushes few before after whole
  · intro few _ key before after e whole rejects
    have guarded := inv.tombstones few isOpen key before after e whole rejects
    by_cases same : key = keyOf req
    · subst same
      exact guarded.store inv.wellFormed
    · exact guarded.records records same

theorem cacheInv_observed {es between : List Event} {stamp : Nat} {asked now : Time}
    (inv : CacheInv keyOf es c) (isOpen : c.closed = false) (verdict : d.isLocal = false)
    (placed : AskedAt es id stamp asked between) (exchange : Exchange id req d between) :
    CacheInv keyOf (es ++ [.observed id req d]) (c.observe (keyOf req) d stamp asked now) := by
  obtain ⟨wf, fades, own⟩ := Cache.raise_spec inv.wellFormed d.policyRevision
  simp only [Cache.observe, verdict, isOpen, Bool.false_eq_true, if_false]
  by_cases storable : d.storable = true
  · have raisedInv : CacheInv keyOf (es ++ [.observed id req d]) (c.raise d.policyRevision) :=
      cacheInv_raised inv isOpen wf fades own storable
    rw [Decision.storable] at storable
    simp only [storable, Bool.not_true, Bool.false_eq_true, if_false]
    split
    · rename_i admitted
      exact cacheInv_store raisedInv (fades.closed.trans isOpen) storable verdict placed exchange admitted
    · exact raisedInv
  · have unstorable : d.storable = false := Bool.eq_false_iff.mpr storable
    have refused : (!(d.allowed && d.cacheable)) = true := by
      rw [Decision.storable] at unstorable
      simp [unstorable]
    rw [if_pos refused]
    exact cacheInv_tombstone inv isOpen wf fades own unstorable

/-! ## Calls -/

theorem pcInv_stamped (es : List Event) (id : CallId) (stamp : Nat) (now : Time)
    (number : stamp = bumps es % 2 ^ 64) :
    ∃ between, AskedAt (es ++ [.stamped id stamp now]) id stamp now between :=
  ⟨[], es, rfl, number⟩

theorem pcInv_afterGet (es : List Event) (id : CallId) (req : Request) (hit : Option Decision) :
    PcInv es id (afterGet req hit) := by
  cases hit <;> trivial

theorem pcInv_afterBatchGet (es : List Event) (id : CallId) (b : Batch) (next : Nat) :
    PcInv es id (afterBatchGet b next) := by
  unfold afterBatchGet
  split_ifs <;> trivial

theorem pcInv_locked {c c' : Cache K} {now : Time} {pc pc' : Pc}
    (number : c.seq = bumps es % 2 ^ 64) (known : PcInv es id pc)
    (moved : lockedSection keyOf c id now pc = some (c', pc', e)) :
    PcInv (es ++ [e]) id pc' := by
  cases pc with
  | get req =>
    cases moved
    exact pcInv_afterGet _ _ _ _
  | stamp req | batchStamp b round =>
    cases moved
    exact pcInv_stamped es id c.seq now number
  | observe req stamp asked d =>
    cases moved
    trivial
  | batchGet b next =>
    cases moved
    exact pcInv_afterBatchGet _ _ _ _
  | batchObserve b round stamp asked todo =>
    cases todo with
    | nil => cases moved
    | cons item todo =>
      obtain ⟨i, d⟩ := item
      cases moved
      split
      · cases round <;> trivial
      · obtain ⟨between, placed, exchanges⟩ := known
        exact ⟨_, placed.snoc _, fun item member =>
          (exchanges item (List.mem_cons_of_mem _ member)).snoc _⟩
  | batchCheck b =>
    simp only [lockedSection] at moved
    split at moved <;> cases moved <;> trivial
  | _ => cases moved

theorem pcInv_send {pc pc' : Pc} (known : PcInv es id pc) (moved : sendStep id pc = some (pc', e)) :
    PcInv (es ++ [e]) id pc' := by
  cases pc with
  | send req stamp asked | batchSend b round stamp asked =>
    cases moved
    obtain ⟨between, placed⟩ := known
    exact ⟨between, _, [], placed.snoc _⟩
  | _ => cases moved

theorem pcInv_answer {answers : List Decision} {pc pc' : Pc} (known : PcInv es id pc)
    (moved : answerStep id answers pc = some (pc', e)) :
    PcInv (es ++ [e]) id pc' := by
  cases answered moved with
  | one req stamp asked d single =>
    obtain ⟨x, reqs, y, placed⟩ := known
    exact ⟨_, placed.snoc _, x, reqs, y, [(req, d)], [], by simp, List.mem_singleton_self _⟩
  | failed => trivial
  | all b round stamp asked count none =>
    obtain ⟨x, reqs, y, placed⟩ := known
    refine ⟨_, placed.snoc _, ?_⟩
    intro item member
    refine ⟨x, reqs, y, ((b.indexes round).map b.request).zip answers, [], by simp, ?_⟩
    rw [List.zip_map_left]
    exact List.mem_map.mpr ⟨item, member, rfl⟩

/-! ## Steps and runs -/

theorem inv_cache (inv : Inv keyOf es s) (effect : Effect keyOf s t e) :
    CacheInv keyOf (es ++ [e]) t.cache := by
  cases effect with
  | aside same outside =>
    rw [same]
    refine cacheInv_quiet inv.cache inv.cache.wellFormed (Cache.Fades.refl _) (fun _ => rfl) ?_
    cases e <;> first | exact outside | trivial
  | read id req now same =>
    rw [same]
    obtain ⟨wf, fades, _⟩ := Cache.get_spec inv.cache.wellFormed (keyOf req) now
    refine cacheInv_quiet inv.cache wf fades ?_ trivial
    intro isClosed
    unfold Cache.get
    split <;> simp [isClosed]
  | recorded id req d stamp asked now pending isOpen verdict same =>
    rw [same]
    rcases pending with found | ⟨b, round, i, todo, found, rfl⟩
    · obtain ⟨between, placed, exchange⟩ := inv.calls id _ found
      exact cacheInv_observed inv.cache isOpen verdict placed exchange
    · obtain ⟨between, placed, exchanges⟩ := inv.calls id _ found
      exact cacheInv_observed inv.cache isOpen verdict placed (exchanges (i, d) (List.mem_cons_self ..))
  | flushed isOpen same =>
    rw [same]
    exact cacheInv_flushed inv.cache isOpen
  | shut same =>
    rw [same]
    exact cacheInv_closed inv.cache

omit [DecidableEq K] in
theorem calls_update {calls : CallId → Option Pc} {pc : Pc}
    (known : ∀ other pc, calls other = some pc → PcInv es other pc)
    (moved : PcInv (es ++ [e]) id pc) (other : CallId) (pc' : Pc)
    (found : Function.update calls id (some pc) other = some pc') :
    PcInv (es ++ [e]) other pc' := by
  by_cases same : other = id
  · subst same
    rw [Function.update_self] at found
    cases found
    exact moved
  · rw [Function.update_of_ne same] at found
    exact (known other pc' found).snoc e

omit [DecidableEq K] in
theorem calls_move {next : Pc → Option (Pc × Event)} (inv : Inv keyOf es s)
    (stepped : s.move id next = some (t, e))
    (keeps : ∀ pc pc' e, PcInv es id pc → next pc = some (pc', e) → PcInv (es ++ [e]) id pc') :
    ∀ other pc, t.calls other = some pc → PcInv (es ++ [e]) other pc := by
  obtain ⟨pc, pc', found, moved, rfl⟩ := move_inv stepped
  exact calls_update inv.calls (keeps pc pc' e (inv.calls id pc found) moved)

theorem inv_calls {a : Action} (inv : Inv keyOf es s) (stepped : step keyOf s a = some (t, e)) :
    ∀ id pc, t.calls id = some pc → PcInv (es ++ [e]) id pc := by
  cases a with
  | start id call =>
    simp only [step] at stepped
    split at stepped <;> cases stepped
    refine calls_update inv.calls ?_
    cases call with
    | decide req =>
      simp only [begin, beginDecide]
      split <;> trivial
    | decideBatch reqs =>
      simp only [begin, beginBatch]
      split_ifs <;> trivial
  | locked id now =>
    obtain ⟨pc, c', pc', found, moved, rfl⟩ := locked_inv stepped
    exact calls_update inv.calls (pcInv_locked inv.cache.seq (inv.calls id pc found) moved)
  | send id => exact calls_move inv stepped fun _ _ _ known moved => pcInv_send known moved
  | answer id answers => exact calls_move inv stepped fun _ _ _ known moved => pcInv_answer known moved
  | finish id =>
    refine calls_move inv stepped fun pc pc' e known moved => ?_
    cases pc <;> cases moved
    trivial
  | invalidate aggregateType aggregateID revision | invalidateAll | close =>
    cases stepped
    exact fun id pc found => (inv.calls id pc found).snoc _

theorem inv_step {a : Action} (inv : Inv keyOf es s) (stepped : step keyOf s a = some (t, e)) :
    Inv keyOf (es ++ [e]) t :=
  ⟨inv_cache inv (step_effect stepped), inv_calls inv stepped⟩

variable [Inhabited K]

omit [DecidableEq K] in
theorem inv_initial (limits : CacheLimits) : Inv keyOf [] (initial limits) where
  cache :=
    { wellFormed := ⟨List.nodup_nil, by simp [initial, Cache.empty], by simp [initial, Cache.empty]⟩
      seq := rfl
      live := by simp [Cache.lookup, initial, Cache.empty]
      watermark := by simp
      closed := by simp [initial, Cache.empty]
      emptied := fun _ => rfl
      flushes := by simp
      tombstones := by simp }
  calls := by simp [initial]

theorem inv_run {limits : CacheLimits} {s : Sys K} (run : Run (step keyOf) (initial limits) es s) :
    Inv keyOf es s :=
  run.invariant (inv_initial limits) fun _ _ _ _ _ held stepped => inv_step held stepped

end DevHealth.Pep.System

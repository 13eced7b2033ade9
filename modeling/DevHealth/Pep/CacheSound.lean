import DevHealth.Pep.CacheRep
import Mathlib.Data.List.Count

/-! # The representation invariant of the decision cache

What holds between the map, the recency list, the counter of live entries and the
sequence numbers after any operations in any order, as long as the sequence counter does
not wrap. -/
set_option autoImplicit false
namespace DevHealth.Pep.Cache

open Go

variable {K : Type}

def liveCount (c : Cache K) : Nat := c.lru.countP fun el => (c.value el).live

structure Sound (c : Cache K) : Prop where
  wellFormed : WellFormed c
  counted : c.allows = (c.liveCount : Int)
  storable : ∀ el ∈ c.lru, (c.value el).live = true → (c.value el).decision.storable = true
  guards : ∀ el ∈ c.lru, (c.value el).guard ≤ c.seq
  floor : c.floor ≤ c.seq
  lastFlush : c.lastFlush ≤ c.seq

def Above (c : Cache K) : Prop :=
  ∀ el ∈ c.lru, (c.value el).live = true → c.watermark ≤ (c.value el).decision.policyRevision

/-- The counters of a cache never go back. -/
structure Grows (c c' : Cache K) : Prop where
  watermark : c.watermark ≤ c'.watermark
  floor : c.floor ≤ c'.floor
  lastFlush : c.lastFlush ≤ c'.lastFlush
  seq : c.seq ≤ c'.seq

theorem Grows.refl (c : Cache K) : Grows c c := ⟨le_rfl, le_rfl, le_rfl, le_rfl⟩

theorem Grows.trans {a b c : Cache K} (first : Grows a b) (second : Grows b c) : Grows a c :=
  ⟨first.watermark.trans second.watermark, first.floor.trans second.floor,
    first.lastFlush.trans second.lastFlush, first.seq.trans second.seq⟩

theorem Fades.grows {c c' : Cache K} (fades : Fades c c') : Grows c c' :=
  ⟨fades.watermark, fades.floor, fades.lastFlush.ge, fades.seq.ge⟩

/-! ## Writing one element -/

variable {c : Cache K} {el : ElementId}

theorem countP_update {list : List ElementId} (distinct : list.Nodup) (member : el ∈ list)
    (f : ElementId → Bool) (b : Bool) :
    ((list.countP (Function.update f el b) : Nat) : Int) = list.countP f + b.toNat - (f el).toNat := by
  have perm := List.perm_cons_erase member
  have rest : (list.erase el).countP (Function.update f el b) = (list.erase el).countP f := by
    apply List.countP_congr
    intro other inside
    have ne : other ≠ el := by
      rintro rfl
      exact (distinct.mem_erase_iff.mp inside).1 rfl
    rw [Function.update_of_ne ne]
  rw [perm.countP_eq, perm.countP_eq f, List.countP_cons, List.countP_cons, rest, Function.update_self]
  cases b <;> cases f el <;> simp

theorem liveCount_write (wf : WellFormed c) (member : el ∈ c.lru) (e : CacheEntry K) :
    ((c.write el e).liveCount : Int) = c.liveCount + e.live.toNat - (c.value el).live.toNat := by
  have same : (fun other => ((c.write el e).value other).live) =
      Function.update (fun other => (c.value other).live) el e.live := by
    funext other
    by_cases here : other = el
    · subst here
      simp [write]
    · simp [write, Function.update_of_ne here]
  rw [liveCount, same]
  exact countP_update wf.nodup member _ _

theorem all_write {P : CacheEntry K → Prop} {e : CacheEntry K} (here : P e)
    (all : ∀ other ∈ c.lru, P (c.value other)) :
    ∀ other ∈ c.lru, P ((c.write el e).value other) := by
  intro other inside
  by_cases same : other = el
  · subst same
    simpa [Cache.write] using here
  · simpa [Cache.write, Function.update_of_ne same] using all other inside

theorem Sound.write (sound : Sound c) (member : el ∈ c.lru) (e : CacheEntry K)
    (keyed : e.key = (c.value el).key) (storable : e.live = true → e.decision.storable = true)
    (guarded : e.guard ≤ c.seq) (n : Int)
    (counted : n = c.allows + e.live.toNat - (c.value el).live.toNat) :
    Sound { c.write el e with allows := n } where
  wellFormed := (write_wellFormed sound.wellFormed keyed).congr (List.Perm.refl _) rfl rfl fun _ => rfl
  counted := by
    have count := liveCount_write sound.wellFormed member e
    rw [sound.counted] at counted
    rw [counted]
    exact count.symm
  storable := all_write (P := fun e => e.live = true → e.decision.storable = true) storable sound.storable
  guards := all_write (P := fun e => e.guard ≤ c.seq) guarded sound.guards
  floor := sound.floor
  lastFlush := sound.lastFlush

theorem Above.write (above : Above c) {e : CacheEntry K}
    (fresh : e.live = true → c.watermark ≤ e.decision.policyRevision) :
    Above (c.write el e) :=
  all_write (P := fun e => e.live = true → c.watermark ≤ e.decision.policyRevision) fresh above

/-! ## The primitive steps -/

theorem kill_sound (sound : Sound c) (member : el ∈ c.lru) : Sound (c.kill el) := by
  unfold kill
  split
  · rename_i alive
    apply sound.write member { c.value el with live := false, decision := Decision.zero } rfl nofun
      (sound.guards el member)
    rw [alive]
    simp
  · exact sound

theorem kill_above (above : Above c) (el : ElementId) : Above (c.kill el) := by
  unfold kill
  split
  · exact above.write (e := { c.value el with live := false, decision := Decision.zero }) nofun
  · exact above

theorem Sound.permuted (sound : Sound c) {lru : List ElementId} (perm : lru.Perm c.lru) :
    Sound { c with lru := lru } where
  wellFormed := sound.wellFormed.congr perm rfl rfl fun _ => rfl
  counted := by
    rw [sound.counted]
    exact congrArg Nat.cast (perm.countP_eq _).symm
  storable := fun el inside => sound.storable el (perm.mem_iff.mp inside)
  guards := fun el inside => sound.guards el (perm.mem_iff.mp inside)
  floor := sound.floor
  lastFlush := sound.lastFlush

theorem moveToFront_sound (sound : Sound c) (member : el ∈ c.lru) : Sound (c.moveToFront el) :=
  sound.permuted (moveToFront_perm member)

theorem moveToFront_above (above : Above c) (member : el ∈ c.lru) : Above (c.moveToFront el) :=
  fun other inside => above other ((moveToFront_perm member).mem_iff.mp inside)

variable [DecidableEq K]

theorem evict_sound (sound : Sound c) (member : el ∈ c.lru) : Sound (c.evict el) := by
  have killed := kill_sound sound member
  have here : el ∈ (c.kill el).lru := by
    rw [kill_lru]
    exact member
  have dead := (kill_value_self c el).1
  refine ⟨evict_wellFormed sound.wellFormed member, ?_, ?_, ?_, ?_, killed.lastFlush⟩
  · -- The element that leaves is dead, so the count of the rest is the count of all.
    have perm := List.perm_cons_erase here
    have count : (c.kill el).liveCount =
        ((c.kill el).lru.erase el).countP fun other => ((c.kill el).value other).live := by
      rw [liveCount, perm.countP_eq, List.countP_cons, dead]
      simp
    show (c.kill el).allows = _
    rw [killed.counted, count]
    rfl
  · intro other inside
    exact killed.storable other (List.mem_of_mem_erase inside)
  · intro other inside
    exact killed.guards other (List.mem_of_mem_erase inside)
  · have guarded := killed.guards el here
    have low := killed.floor
    simp only [evict]
    split
    · exact guarded
    · exact low

theorem evict_above (above : Above c) (el : ElementId) : Above (c.evict el) := by
  intro other inside
  exact kill_above above el other (List.mem_of_mem_erase inside)

theorem evict_length (member : el ∈ c.lru) : (c.evict el).lru.length + 1 = c.lru.length := by
  have positive := List.length_pos_of_mem member
  simp only [evict, kill_lru]
  rw [List.length_erase_of_mem member]
  omega

/-- The loop of `bound` keeps the invariant and ends at the size bound. -/
theorem boundLoop_sound (fuel : Nat) : ∀ {c : Cache K}, Sound c → Above c →
    c.lru.length ≤ c.limits.maxEntries + fuel →
    Sound (boundLoop fuel c) ∧ Above (boundLoop fuel c) ∧
      (boundLoop fuel c).lru.length ≤ c.limits.maxEntries := by
  induction fuel with
  | zero => exact fun sound above small => ⟨sound, above, small⟩
  | succ fuel ih =>
    intro c sound above small
    simp only [boundLoop]
    by_cases long : c.limits.maxEntries < c.lru.length
    · rw [if_pos long]
      cases back : c.lru.getLast? with
      | none =>
        rw [List.getLast?_eq_none_iff] at back
        rw [back] at long
        exact absurd long (Nat.not_lt_zero _)
      | some el =>
        have member := List.mem_of_getLast? back
        have shorter := evict_length member
        have limits : (c.evict el).limits = c.limits := (evict_fades sound.wellFormed member).limits
        have result := ih (evict_sound sound member) (evict_above above el) (by rw [limits]; omega)
        rw [limits] at result
        exact result
    · rw [if_neg long]
      exact ⟨sound, above, Nat.not_lt.mp long⟩

theorem bound_sound (sound : Sound c) (above : Above c) :
    Sound c.bound ∧ Above c.bound ∧ c.bound.lru.length ≤ c.limits.maxEntries :=
  boundLoop_sound c.lru.length sound above (by omega)

omit [DecidableEq K] in
/-- The sweep kills: what is live after it was live before with the same entry, and of the
elements it has passed none is live below the revision. -/
theorem sweep_sound (rev : Nat) (els : List ElementId) : ∀ {c : Cache K}, Sound c → (∀ el ∈ els, el ∈ c.lru) →
    let swept := els.foldl (fun c el =>
      if (c.value el).live && decide ((c.value el).decision.policyRevision < rev) then c.kill el
      else c) c
    Sound swept ∧ swept.lru = c.lru ∧ swept.watermark = c.watermark ∧
      (∀ el, (swept.value el).live = true → swept.value el = c.value el) ∧
      ∀ el ∈ els, (swept.value el).live = true → rev ≤ (swept.value el).decision.policyRevision := by
  induction els with
  | nil => exact fun sound _ => ⟨sound, rfl, rfl, fun _ _ => rfl, nofun⟩
  | cons el els ih =>
    intro c sound inside
    have member := inside el (List.mem_cons_self ..)
    simp only [List.foldl_cons]
    by_cases old : (c.value el).live = true ∧ (c.value el).decision.policyRevision < rev
    · rw [if_pos (by simpa using old)]
      have within : ∀ other ∈ els, other ∈ (c.kill el).lru := by
        intro other later
        rw [kill_lru]
        exact inside other (List.mem_cons_of_mem _ later)
      obtain ⟨sound', lru, watermark, kept, passed⟩ := ih (kill_sound sound member) within
      have stays : ∀ other, ((c.kill el).value other).live = true →
          (c.kill el).value other = c.value other := by
        intro other alive
        have ne : other ≠ el := by
          rintro rfl
          rw [(kill_value_self c other).1] at alive
          cases alive
        exact kill_value_ne c ne
      refine ⟨sound', lru.trans (kill_lru c el), watermark.trans (kill_watermark c el), ?_, ?_⟩
      · intro other alive
        have same := kept other alive
        rw [same] at alive
        exact same.trans (stays other alive)
      · intro other later alive
        rcases List.mem_cons.mp later with rfl | later
        · have same := kept other alive
          rw [same, (kill_value_self c other).1] at alive
          cases alive
        · exact passed other later alive
    · rw [if_neg (by simpa using old)]
      obtain ⟨sound', lru, watermark, kept, passed⟩ :=
        ih sound fun other later => inside other (List.mem_cons_of_mem _ later)
      refine ⟨sound', lru, watermark, kept, ?_⟩
      intro other later alive
      rcases List.mem_cons.mp later with rfl | later
      · have same := kept other alive
        rw [same] at alive ⊢
        by_contra below
        exact old ⟨alive, Nat.not_le.mp below⟩
      · exact passed other later alive

omit [DecidableEq K] in
theorem raise_sound (sound : Sound c) (above : Above c) (rev : Nat) :
    Sound (c.raise rev) ∧ Above (c.raise rev) ∧ (c.raise rev).lru = c.lru := by
  unfold raise
  by_cases higher : c.watermark < rev
  · rw [if_pos higher]
    have lifted : Sound { c with watermark := rev } :=
      ⟨sound.wellFormed.congr (List.Perm.refl _) rfl rfl fun _ => rfl, sound.counted, sound.storable,
        sound.guards, sound.floor, sound.lastFlush⟩
    obtain ⟨swept, lru, watermark, -, passed⟩ := sweep_sound rev c.lru lifted fun _ inside => inside
    refine ⟨swept, ?_, lru⟩
    intro el inside alive
    rw [lru] at inside
    rw [watermark]
    exact passed el inside alive
  · rw [if_neg higher]
    exact ⟨sound, above, rfl⟩

theorem insert_value (wf : WellFormed c) (inside : el ∈ c.lru) (key : K) :
    (c.insert key).1.value el = c.value el :=
  Function.update_of_ne (wf.below el inside).ne _ _

theorem insert_value_new (c : Cache K) (key : K) : (c.insert key).1.value c.nextElement = blankEntry key :=
  Function.update_self ..

theorem all_insert (wf : WellFormed c) {P : CacheEntry K → Prop} {key : K}
    (blank : P (blankEntry key)) (all : ∀ el ∈ c.lru, P (c.value el)) :
    ∀ el ∈ (c.insert key).1.lru, P ((c.insert key).1.value el) := by
  intro el inside
  rcases List.mem_cons.mp inside with rfl | inside
  · rw [insert_value_new]
    exact blank
  · rw [insert_value wf inside]
    exact all el inside

theorem insert_sound (sound : Sound c) {key : K} (absent : c.entries key = none) :
    Sound (c.insert key).1 where
  wellFormed := insert_wellFormed sound.wellFormed absent
  counted := by
    have rest : c.lru.countP (fun el => ((c.insert key).1.value el).live) = c.liveCount := by
      apply List.countP_congr
      intro el inside
      rw [insert_value sound.wellFormed inside]
    show c.allows = (((c.nextElement :: c.lru).countP
      fun el => ((c.insert key).1.value el).live : Nat) : Int)
    rw [List.countP_cons, rest, insert_value_new, sound.counted]
    simp [blankEntry]
  storable := all_insert sound.wellFormed (P := fun e => e.live = true → e.decision.storable = true) nofun
    sound.storable
  guards := all_insert sound.wellFormed (P := fun e => e.guard ≤ c.seq) (Nat.zero_le _) sound.guards
  floor := sound.floor
  lastFlush := sound.lastFlush

theorem insert_above (wf : WellFormed c) (above : Above c) (key : K) : Above (c.insert key).1 :=
  all_insert wf (P := fun e => e.live = true → c.watermark ≤ e.decision.policyRevision) nofun above

theorem elementOf_sound (sound : Sound c) (above : Above c) (key : K) :
    Sound (c.elementOf key).1 ∧ Above (c.elementOf key).1 ∧ (c.elementOf key).2 ∈ (c.elementOf key).1.lru ∧
      (c.elementOf key).1.watermark = c.watermark ∧ (c.elementOf key).1.seq = c.seq := by
  obtain ⟨wf, fades, here⟩ := elementOf_spec sound.wellFormed key
  have member := wf.mem_of_entry here
  have seq := fades.seq
  unfold elementOf at member seq ⊢
  cases found : c.entries key with
  | some el =>
    rw [found] at member
    exact ⟨sound, above, member, rfl, rfl⟩
  | none =>
    rw [found] at member seq
    exact ⟨insert_sound sound found, insert_above sound.wellFormed above key, member, rfl, seq⟩

/-! ## The operations -/

structure Invariant (c : Cache K) : Prop where
  /-- The list holds no element twice, and the map holds exactly its elements, each under
  its own key. -/
  wellFormed : WellFormed c
  bounded : c.lru.length ≤ c.limits.maxEntries
  counted : c.allows = (c.liveCount : Int)
  live : ∀ el ∈ c.lru, (c.value el).live = true →
    (c.value el).decision.allowed = true ∧ (c.value el).decision.cacheable = true ∧
      c.watermark ≤ (c.value el).decision.policyRevision
  guards : ∀ el ∈ c.lru, (c.value el).guard ≤ c.seq
  floor : c.floor ≤ c.seq
  lastFlush : c.lastFlush ≤ c.seq

omit [DecidableEq K] in
theorem invariant_iff : Invariant c ↔ Sound c ∧ Above c ∧ c.lru.length ≤ c.limits.maxEntries := by
  constructor
  · intro inv
    refine ⟨⟨inv.wellFormed, inv.counted, ?_, inv.guards, inv.floor, inv.lastFlush⟩, ?_, inv.bounded⟩
    · intro el inside alive
      obtain ⟨allowed, cacheable, -⟩ := inv.live el inside alive
      exact Bool.and_eq_true_iff.mpr ⟨allowed, cacheable⟩
    · intro el inside alive
      exact (inv.live el inside alive).2.2
  · rintro ⟨sound, above, bounded⟩
    refine ⟨sound.wellFormed, bounded, sound.counted, ?_, sound.guards, sound.floor, sound.lastFlush⟩
    intro el inside alive
    obtain ⟨allowed, cacheable⟩ := Bool.and_eq_true_iff.mp (sound.storable el inside alive)
    exact ⟨allowed, cacheable, above el inside alive⟩

/-- The operations on a cache, each with its arguments and the clock reading it takes. -/
inductive Operation (K : Type) where
  | get (key : K) (now : Time)
  | observe (key : K) (d : Decision) (stamp : Nat) (asked now : Time)
  | invalidateAll
  | close

def perform (c : Cache K) : Operation K → Cache K
  | .get key now => (c.get key now).1
  | .observe key d stamp asked now => c.observe key d stamp asked now
  | .invalidateAll => c.invalidateAll.1
  | .close => c.close

omit [DecidableEq K] in
theorem bumpSeq_seq (room : c.seq + 1 < 2 ^ 64) : c.bumpSeq.seq = c.seq + 1 := Nat.mod_eq_of_lt room

omit [DecidableEq K] in
theorem bumpSeq_sound (sound : Sound c) (room : c.seq + 1 < 2 ^ 64) : Sound c.bumpSeq := by
  have seq := bumpSeq_seq room
  have later : c.seq ≤ c.bumpSeq.seq := by
    rw [seq]
    exact Nat.le_succ _
  exact ⟨sound.wellFormed.congr (List.Perm.refl _) rfl rfl fun _ => rfl, sound.counted,
    sound.storable, fun el inside => (sound.guards el inside).trans later,
    sound.floor.trans later, sound.lastFlush.trans later⟩

theorem tombstone_sound (sound : Sound c) (above : Above c) (key : K) (room : c.seq + 1 < 2 ^ 64) :
    Sound (c.tombstone key) ∧ Above (c.tombstone key) ∧
      (c.tombstone key).lru.length ≤ c.limits.maxEntries := by
  have bumpedAbove : Above c.bumpSeq := above
  obtain ⟨placed, placedAbove, member, -, -⟩ := elementOf_sound (bumpSeq_sound sound room) bumpedAbove key
  set before := (c.bumpSeq.elementOf key).1
  set el := (c.bumpSeq.elementOf key).2
  have limits : before.limits = c.limits :=
    (elementOf_spec (bumpSeq_sound sound room).wellFormed key).2.1.limits
  have killed := kill_sound placed member
  have here : el ∈ (before.kill el).lru := by
    rw [kill_lru]
    exact member
  have dead := (kill_value_self before el).1
  set grave : CacheEntry K := { (before.kill el).value el with guard := (before.kill el).seq }
  have graveDead : grave.live = false := dead
  have written : Sound { (before.kill el).write el grave with allows := (before.kill el).allows } := by
    apply killed.write here grave rfl
    · rw [graveDead]
      exact nofun
    · exact le_rfl
    · rw [graveDead]
      simp
  have writtenAbove : Above ((before.kill el).write el grave) := by
    apply (kill_above placedAbove el).write
    rw [graveDead]
    exact nofun
  have killedLimits : (before.kill el).limits = c.limits := (kill_fades before el).limits.trans limits
  obtain ⟨result, resultAbove, small⟩ :=
    bound_sound (moveToFront_sound written here) (moveToFront_above writtenAbove here)
  exact ⟨result, resultAbove, small.trans (congrArg CacheLimits.maxEntries killedLimits).le⟩

theorem store_sound (sound : Sound c) (above : Above c) (key : K) (d : Decision) (asked : Time)
    (storable : d.storable = true) (fresh : c.watermark ≤ d.policyRevision) :
    Sound (c.store key d asked) ∧ Above (c.store key d asked) ∧
      (c.store key d asked).lru.length ≤ c.limits.maxEntries := by
  obtain ⟨placed, placedAbove, member, watermark, -⟩ := elementOf_sound sound above key
  obtain ⟨-, fades, placedAt⟩ := elementOf_spec sound.wellFormed key
  set before := (c.elementOf key).1
  set el := (c.elementOf key).2
  set entry : CacheEntry K := ⟨key, true, d, asked, (before.value el).guard⟩
  have written : Sound { before.write el entry with
      allows := if (before.value el).live then before.allows else before.allows + 1 } := by
    apply placed.write member entry (placed.wellFormed.key_of_entry placedAt).symm
    · intro _
      exact storable
    · exact placed.guards el member
    · show (if (before.value el).live = true then before.allows else before.allows + 1) =
        before.allows + (true.toNat : Int) - ((before.value el).live.toNat : Int)
      cases (before.value el).live <;> simp
  have writtenAbove : Above (before.write el entry) := by
    apply placedAbove.write
    intro _
    rw [watermark]
    exact fresh
  obtain ⟨result, resultAbove, small⟩ :=
    bound_sound (moveToFront_sound written member) (moveToFront_above writtenAbove member)
  exact ⟨result, resultAbove, small.trans (congrArg CacheLimits.maxEntries fades.limits).le⟩

omit [DecidableEq K] in
theorem get_invariant (inv : Invariant c) (key : K) (now : Time) : Invariant (c.get key now).1 := by
  obtain ⟨sound, above, bounded⟩ := invariant_iff.mp inv
  have shape : (c.get key now).1 = c ∨ ∃ el, c.entries key = some el ∧
      ((c.get key now).1 = c.kill el ∨ (c.get key now).1 = c.moveToFront el) := by
    unfold get
    cases found : c.entries key with
    | none => exact Or.inl rfl
    | some el =>
      simp only
      split_ifs
      · exact Or.inl rfl
      · exact Or.inl rfl
      · exact Or.inr ⟨el, rfl, Or.inl rfl⟩
      · exact Or.inr ⟨el, rfl, Or.inr rfl⟩
  rcases shape with same | ⟨el, found, same | same⟩
  · rw [same]
    exact inv
  · have member := sound.wellFormed.mem_of_entry found
    rw [same]
    refine invariant_iff.mpr ⟨kill_sound sound member, kill_above above el, ?_⟩
    rw [kill_lru, (kill_fades c el).limits]
    exact bounded
  · have member := sound.wellFormed.mem_of_entry found
    rw [same]
    exact invariant_iff.mpr ⟨moveToFront_sound sound member, moveToFront_above above member,
      (moveToFront_perm member).length_eq.trans_le bounded⟩

theorem observe_cases (c : Cache K) (key : K) (d : Decision) (stamp : Nat) (asked now : Time) :
    c.observe key d stamp asked now = c ∨
      c.observe key d stamp asked now = (c.raise d.policyRevision).tombstone key ∨
      (d.storable = true ∧ (c.raise d.policyRevision).watermark ≤ d.policyRevision ∧
        c.observe key d stamp asked now = (c.raise d.policyRevision).store key d asked) ∨
      c.observe key d stamp asked now = c.raise d.policyRevision := by
  simp only [observe]
  split_ifs with isLocal isClosed refused admitted
  · exact Or.inl rfl
  · exact Or.inl rfl
  · exact Or.inr (Or.inl rfl)
  · have storable : d.storable = true := by simpa [Decision.storable] using refused
    simp only [admits, fresh, Bool.and_eq_true, decide_eq_true_eq] at admitted
    exact Or.inr (Or.inr (Or.inl ⟨storable, admitted.2.2, rfl⟩))
  · exact Or.inr (Or.inr (Or.inr rfl))

theorem observe_invariant (inv : Invariant c) (room : c.seq + 1 < 2 ^ 64) (key : K) (d : Decision)
    (stamp : Nat) (asked now : Time) :
    Invariant (c.observe key d stamp asked now) := by
  obtain ⟨sound, above, bounded⟩ := invariant_iff.mp inv
  obtain ⟨raised, raisedAbove, sameList⟩ := raise_sound sound above d.policyRevision
  obtain ⟨-, fades, -⟩ := raise_spec sound.wellFormed d.policyRevision
  rcases observe_cases c key d stamp asked now with
    same | same | ⟨storable, fresh, same⟩ | same
  · rw [same]
    exact inv
  · have noWrap : (c.raise d.policyRevision).seq + 1 < 2 ^ 64 := by
      rw [fades.seq]
      exact room
    obtain ⟨result, resultAbove, small⟩ := tombstone_sound raised raisedAbove key noWrap
    have limits := (tombstone_spec raised.wellFormed key).2.1.limits
    rw [same]
    refine invariant_iff.mpr ⟨result, resultAbove, ?_⟩
    rw [limits]
    exact small
  · obtain ⟨result, resultAbove, small⟩ := store_sound raised raisedAbove key d asked storable fresh
    have limits := (store_spec raised.wellFormed key d asked).2.1.limits
    rw [same]
    refine invariant_iff.mpr ⟨result, resultAbove, ?_⟩
    rw [limits]
    exact small
  · rw [same]
    refine invariant_iff.mpr ⟨raised, raisedAbove, ?_⟩
    rw [sameList, fades.limits]
    exact bounded

omit [DecidableEq K] in
theorem clear_invariant (floor : c.floor ≤ c.seq) (lastFlush : c.lastFlush ≤ c.seq) : Invariant c.clear where
  wellFormed := ⟨List.nodup_nil, by simp [clear], nofun⟩
  bounded := Nat.zero_le _
  counted := rfl
  live := nofun
  guards := nofun
  floor := floor
  lastFlush := lastFlush

theorem perform_invariant (inv : Invariant c) (room : c.seq + 1 < 2 ^ 64) (op : Operation K) :
    Invariant (c.perform op) := by
  cases op with
  | get key now => exact get_invariant inv key now
  | observe key d stamp asked now => exact observe_invariant inv room key d stamp asked now
  | invalidateAll =>
    rw [perform, invalidateAll]
    split_ifs
    · exact inv
    · have later : c.seq ≤ c.bumpSeq.seq := by
        rw [bumpSeq_seq room]
        exact Nat.le_succ _
      exact clear_invariant (inv.floor.trans later) le_rfl
  | close => exact clear_invariant inv.floor inv.lastFlush

/-- No counter goes back, and the sequence goes up by at most one. -/
theorem perform_grows (inv : Invariant c) (room : c.seq + 1 < 2 ^ 64) (op : Operation K) :
    Grows c (c.perform op) ∧ (c.perform op).seq ≤ c.seq + 1 := by
  cases op with
  | get key now =>
    obtain ⟨-, fades, -⟩ := get_spec inv.wellFormed key now
    exact ⟨fades.grows, fades.seq.le.trans (Nat.le_succ _)⟩
  | observe key d stamp asked now =>
    obtain ⟨wf, fades, -⟩ := raise_spec inv.wellFormed d.policyRevision
    rw [perform]
    rcases observe_cases c key d stamp asked now with same | same | ⟨-, -, same⟩ | same
    · rw [same]
      exact ⟨Grows.refl c, Nat.le_succ _⟩
    · obtain ⟨-, records, seq, -⟩ := tombstone_spec wf key
      rw [fades.seq, Nat.mod_eq_of_lt room] at seq
      rw [same, seq]
      refine ⟨fades.grows.trans ⟨records.watermark, records.floor, records.lastFlush.ge, ?_⟩, le_rfl⟩
      rw [seq, fades.seq]
      exact Nat.le_succ _
    · obtain ⟨-, records, seq, -⟩ := store_spec wf key d asked
      rw [same, seq, fades.seq]
      exact ⟨fades.grows.trans ⟨records.watermark, records.floor, records.lastFlush.ge, seq.ge⟩,
        Nat.le_succ _⟩
    · rw [same, fades.seq]
      exact ⟨fades.grows, Nat.le_succ _⟩
  | invalidateAll =>
    rw [perform, invalidateAll]
    split_ifs
    · exact ⟨Grows.refl c, Nat.le_succ _⟩
    · have later : c.seq ≤ c.bumpSeq.seq := by
        rw [bumpSeq_seq room]
        exact Nat.le_succ _
      exact ⟨⟨le_rfl, le_rfl, inv.lastFlush.trans later, later⟩, (bumpSeq_seq room).le⟩
  | close => exact ⟨⟨le_rfl, le_rfl, le_rfl, le_rfl⟩, Nat.le_succ _⟩

omit [DecidableEq K] in
theorem empty_invariant [Inhabited K] (limits : CacheLimits) : Invariant (empty limits : Cache K) where
  wellFormed := ⟨List.nodup_nil, by simp [empty], nofun⟩
  bounded := Nat.zero_le _
  counted := rfl
  live := nofun
  guards := nofun
  floor := le_rfl
  lastFlush := le_rfl

/-- Every operation keeps the invariant and lets no counter go back, and so do operations
in any order, while the sequence counter has room for them. -/
theorem operations_keep_invariant [Inhabited K] :
    (∀ limits : CacheLimits, Invariant (empty limits : Cache K)) ∧
    (∀ (c : Cache K) (op : Operation K), Invariant c → c.seq + 1 < 2 ^ 64 →
      Invariant (c.perform op) ∧ Grows c (c.perform op)) ∧
    ∀ (ops : List (Operation K)) (c : Cache K), Invariant c → c.seq + ops.length < 2 ^ 64 →
      Invariant (ops.foldl perform c) ∧ Grows c (ops.foldl perform c) := by
  have one (c : Cache K) (op : Operation K) (inv : Invariant c) (room : c.seq + 1 < 2 ^ 64) :
      Invariant (c.perform op) ∧ Grows c (c.perform op) :=
    ⟨perform_invariant inv room op, (perform_grows inv room op).1⟩
  refine ⟨empty_invariant, one, ?_⟩
  intro ops
  induction ops with
  | nil => exact fun c inv _ => ⟨inv, Grows.refl c⟩
  | cons op ops ih =>
    intro c inv room
    rw [List.length_cons] at room
    have here : c.seq + 1 < 2 ^ 64 := by omega
    have next := (perform_grows inv here op).2
    obtain ⟨kept, grows⟩ := one c op inv here
    obtain ⟨kept', grows'⟩ := ih (c.perform op) kept (by omega)
    exact ⟨kept', grows.trans grows'⟩

def oneEntry : CacheLimits := .ofEntries 1 (by decide)

/-- A verdict of revision 1 that holds up to second 60. -/
def verdict (allowed : Bool) (reason : Reason) : Decision :=
  { Decision.zero with
    allowed := allowed, reason := some reason, policyRevision := 1, expiresAt := Time.unix 60, cacheable := allowed }

/-- A flush; an allow is stored, revoked, and its element evicted by the allow of another key, which is hit. -/
def busyOperations : List (Operation Bool) :=
  let now := Time.unix 10
  [.invalidateAll, .observe false (verdict true .allowedByRole) 1 now now,
    .observe false (verdict false .grantRevoked) 1 now now, .observe true (verdict true .allowedByRole) 2 now now,
    .get true now]

theorem oneEntry_kept :
    let c := busyOperations.foldl perform (empty oneEntry)
    Invariant c ∧ Grows (empty oneEntry) c ∧ c.entries false = none ∧ (c.entries true).isSome = true ∧
      c.allows = 1 ∧ c.watermark = 1 ∧ c.lastFlush = 1 ∧ c.floor = 2 ∧ c.seq = 2 := by
  obtain ⟨kept, grows⟩ :=
    operations_keep_invariant.2.2 busyOperations _ (operations_keep_invariant.1 oneEntry) (by decide)
  exact ⟨kept, grows, by decide +kernel, by decide +kernel, by decide +kernel, by decide +kernel,
    by decide +kernel, by decide +kernel, by decide +kernel⟩

theorem flushed_seq [Inhabited K] (limits : CacheLimits) (n : Nat) :
    ((List.replicate n .invalidateAll).foldl perform (empty limits : Cache K)).seq = n % 2 ^ 64 ∧
      ((List.replicate n .invalidateAll).foldl perform (empty limits : Cache K)).closed = false := by
  induction n with
  | zero => exact ⟨rfl, rfl⟩
  | succ n ih =>
    obtain ⟨seq, isOpen⟩ := ih
    rw [List.replicate_succ', List.foldl_append, List.foldl_cons, List.foldl_nil]
    simp only [perform, invalidateAll, isOpen, Bool.false_eq_true, if_false, clear, bumpSeq, seq]
    exact ⟨by omega, trivial⟩

/-- The sequence counter has 64 bits: after as many flushes it starts again at zero. -/
theorem seq_goes_back :
    ¬∀ (limits : CacheLimits) (ops : List (Operation Unit)) (op : Operation Unit),
      Grows (ops.foldl perform (empty limits)) ((ops.foldl perform (empty limits)).perform op) := by
  intro claim
  have grows := claim oneEntry (List.replicate (2 ^ 64 - 1) .invalidateAll) .invalidateAll
  obtain ⟨before, -⟩ := flushed_seq (K := Unit) oneEntry (2 ^ 64 - 1)
  obtain ⟨after, -⟩ := flushed_seq (K := Unit) oneEntry (2 ^ 64 - 1 + 1)
  rw [List.replicate_succ', List.foldl_append, List.foldl_cons, List.foldl_nil] at after
  have back := grows.seq
  rw [before, after] at back
  exact absurd back (by decide)

end DevHealth.Pep.Cache

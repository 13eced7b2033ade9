import DevHealth.Pep.Cache

/-! # Representation of the decision cache

The map and the recency list of a well-formed cache hold the same elements, each
under its own key.  `lookup` is then the cache as a partial function of the key,
and `Fades` says what a locked section may do to it without storing anything: no
live entry appears or changes, and a guard is kept or has become part of the
floor. -/
set_option autoImplicit false
namespace DevHealth.Pep.Cache

open Go

variable {K : Type}

structure WellFormed (c : Cache K) : Prop where
  nodup : c.lru.Nodup
  entry_iff : ∀ key el, c.entries key = some el ↔ el ∈ c.lru ∧ (c.value el).key = key
  below : ∀ el ∈ c.lru, el < c.nextElement

def lookup (c : Cache K) (key : K) : Option (CacheEntry K) := (c.entries key).map c.value

structure Fades (c c' : Cache K) : Prop where
  limits : c'.limits = c.limits
  seq : c'.seq = c.seq
  lastFlush : c'.lastFlush = c.lastFlush
  closed : c'.closed = c.closed
  floor : c.floor ≤ c'.floor
  watermark : c.watermark ≤ c'.watermark
  live : ∀ key e, c'.lookup key = some e → e.live = true → c.lookup key = some e
  guard : ∀ key e, c.lookup key = some e →
    e.guard ≤ c'.floor ∨ ∃ e', c'.lookup key = some e' ∧ e.guard ≤ e'.guard

theorem Fades.refl (c : Cache K) : Fades c c :=
  ⟨rfl, rfl, rfl, rfl, le_refl _, le_refl _, fun _ _ found _ => found,
    fun _ e found => Or.inr ⟨e, found, le_refl _⟩⟩

theorem Fades.trans {a b c : Cache K} (first : Fades a b) (second : Fades b c) : Fades a c where
  limits := second.limits.trans first.limits
  seq := second.seq.trans first.seq
  lastFlush := second.lastFlush.trans first.lastFlush
  closed := second.closed.trans first.closed
  floor := first.floor.trans second.floor
  watermark := first.watermark.trans second.watermark
  live := fun key e found alive => first.live key e (second.live key e found alive) alive
  guard := by
    intro key e found
    rcases first.guard key e found with low | ⟨e', found', grown⟩
    · exact Or.inl (low.trans second.floor)
    · rcases second.guard key e' found' with low | ⟨e'', found'', grown'⟩
      · exact Or.inl (grown.trans low)
      · exact Or.inr ⟨e'', found'', grown.trans grown'⟩

variable {c : Cache K} {el : ElementId} {key : K}

theorem WellFormed.mem_of_entry (wf : WellFormed c) (found : c.entries key = some el) :
    el ∈ c.lru := ((wf.entry_iff key el).mp found).1

theorem WellFormed.key_of_entry (wf : WellFormed c) (found : c.entries key = some el) :
    (c.value el).key = key :=
  ((wf.entry_iff key el).mp found).2

theorem WellFormed.congr {c c' : Cache K} (wf : WellFormed c) (perm : c'.lru.Perm c.lru)
    (entries : c'.entries = c.entries) (next : c'.nextElement = c.nextElement)
    (keys : ∀ el, (c'.value el).key = (c.value el).key) : WellFormed c' where
  nodup := perm.nodup_iff.mpr wf.nodup
  entry_iff := by
    intro key el
    rw [entries, keys, perm.mem_iff]
    exact wf.entry_iff key el
  below := by
    intro el member
    rw [next]
    exact wf.below el (perm.mem_iff.mp member)

/-- `el.Value = e` -/
def write (c : Cache K) (el : ElementId) (e : CacheEntry K) : Cache K :=
  { c with value := Function.update c.value el e }

theorem write_wellFormed (wf : WellFormed c) {e : CacheEntry K} (keyed : e.key = (c.value el).key) :
    WellFormed (c.write el e) := by
  refine wf.congr (List.Perm.refl _) rfl rfl ?_
  intro other
  by_cases same : other = el
  · subst same
    simp [write, keyed]
  · simp [write, Function.update_of_ne same]

/-! ## The primitive steps -/

theorem kill_entries (c : Cache K) (el : ElementId) : (c.kill el).entries = c.entries := by
  unfold kill; split <;> rfl

theorem kill_lru (c : Cache K) (el : ElementId) : (c.kill el).lru = c.lru := by
  unfold kill; split <;> rfl

theorem kill_seq (c : Cache K) (el : ElementId) : (c.kill el).seq = c.seq := by
  unfold kill; split <;> rfl

theorem kill_watermark (c : Cache K) (el : ElementId) : (c.kill el).watermark = c.watermark := by
  unfold kill; split <;> rfl

theorem kill_value_self (c : Cache K) (el : ElementId) :
    ((c.kill el).value el).live = false ∧ ((c.kill el).value el).key = (c.value el).key ∧
      ((c.kill el).value el).guard = (c.value el).guard := by
  unfold kill
  split
  · simp
  · rename_i dead
    exact ⟨Bool.eq_false_iff.mpr dead, rfl, rfl⟩

theorem kill_value_ne (c : Cache K) {el other : ElementId} (ne : other ≠ el) :
    (c.kill el).value other = c.value other := by
  unfold kill
  split
  · exact Function.update_of_ne ne _ _
  · rfl

theorem kill_key (c : Cache K) (el other : ElementId) :
    ((c.kill el).value other).key = (c.value other).key := by
  by_cases same : other = el
  · subst same
    exact (kill_value_self c other).2.1
  · rw [kill_value_ne c same]

theorem kill_wellFormed (wf : WellFormed c) (el : ElementId) : WellFormed (c.kill el) :=
  wf.congr (by rw [kill_lru]) (kill_entries c el) (by unfold kill; split <;> rfl) (kill_key c el)

theorem kill_fades (c : Cache K) (el : ElementId) : Fades c (c.kill el) where
  limits := by unfold kill; split <;> rfl
  seq := kill_seq c el
  lastFlush := by unfold kill; split <;> rfl
  closed := by unfold kill; split <;> rfl
  floor := by unfold kill; split <;> exact le_refl _
  watermark := (kill_watermark c el).ge
  live := by
    intro key e found alive
    simp only [lookup, kill_entries] at found ⊢
    obtain ⟨other, entry, rfl⟩ := Option.map_eq_some_iff.mp found
    have ne : other ≠ el := by
      rintro rfl
      rw [(kill_value_self c other).1] at alive
      cases alive
    rw [entry, Option.map_some, kill_value_ne c ne]
  guard := by
    intro key e found
    simp only [lookup, kill_entries] at found ⊢
    obtain ⟨other, entry, rfl⟩ := Option.map_eq_some_iff.mp found
    refine Or.inr ⟨(c.kill el).value other, by rw [entry, Option.map_some], ?_⟩
    by_cases same : other = el
    · subst same
      exact (kill_value_self c other).2.2.ge
    · rw [kill_value_ne c same]

theorem moveToFront_perm (member : el ∈ c.lru) : (c.moveToFront el).lru.Perm c.lru :=
  (List.perm_cons_erase member).symm

theorem moveToFront_wellFormed (wf : WellFormed c) (member : el ∈ c.lru) : WellFormed (c.moveToFront el) :=
  wf.congr (moveToFront_perm member) rfl rfl fun _ => rfl

theorem moveToFront_fades (c : Cache K) (el : ElementId) : Fades c (c.moveToFront el) :=
  ⟨rfl, rfl, rfl, rfl, le_refl _, le_refl _, fun _ _ found _ => found,
    fun _ e found => Or.inr ⟨e, found, le_refl _⟩⟩

variable [DecidableEq K]

theorem evict_wellFormed (wf : WellFormed c) (member : el ∈ c.lru) : WellFormed (c.evict el) := by
  have killed := kill_wellFormed wf el
  have here : el ∈ (c.kill el).lru := by rw [kill_lru]; exact member
  constructor
  · exact killed.nodup.erase el
  · intro key other
    simp only [evict, killed.nodup.mem_erase_iff]
    by_cases same : key = ((c.kill el).value el).key
    · subst same
      simp only [Function.update_self, reduceCtorEq, false_iff]
      rintro ⟨⟨ne, inList⟩, keyed⟩
      -- two elements under one key would be the same element of the map
      have first := (killed.entry_iff _ other).mpr ⟨inList, keyed⟩
      have second := (killed.entry_iff _ el).mpr ⟨here, rfl⟩
      exact ne (Option.some.inj (first.symm.trans second))
    · rw [Function.update_of_ne same, killed.entry_iff key other]
      constructor
      · rintro ⟨inList, keyed⟩
        exact ⟨⟨fun eq => same (by rw [← keyed, eq]), inList⟩, keyed⟩
      · rintro ⟨⟨_, inList⟩, keyed⟩
        exact ⟨inList, keyed⟩
  · intro other inList
    exact killed.below other (List.mem_of_mem_erase inList)

theorem evict_fades (wf : WellFormed c) (member : el ∈ c.lru) : Fades c (c.evict el) := by
  have killed := kill_wellFormed wf el
  have here : el ∈ (c.kill el).lru := by rw [kill_lru]; exact member
  have own : (c.kill el).entries ((c.kill el).value el).key = some el :=
    (killed.entry_iff _ el).mpr ⟨here, rfl⟩
  refine (kill_fades c el).trans ⟨rfl, rfl, rfl, rfl, ?_, le_refl _, ?_, ?_⟩
  · simp only [evict]
    split <;> omega
  · intro key e found _
    simp only [lookup, evict] at found ⊢
    by_cases same : key = ((c.kill el).value el).key
    · simp [same] at found
    · rwa [Function.update_of_ne same] at found
  · intro key e found
    by_cases same : key = ((c.kill el).value el).key
    · left
      simp only [lookup, same, own, Option.map_some, Option.some.injEq] at found
      subst found
      simp only [evict]
      split <;> omega
    · right
      refine ⟨e, ?_, le_refl _⟩
      simpa only [lookup, evict, Function.update_of_ne same] using found

theorem boundLoop_spec (fuel : Nat) : ∀ {c : Cache K}, WellFormed c →
    WellFormed (boundLoop fuel c) ∧ Fades c (boundLoop fuel c) := by
  induction fuel with
  | zero => exact fun wf => ⟨wf, Fades.refl _⟩
  | succ fuel ih =>
    intro c wf
    simp only [boundLoop]
    split
    · cases back : c.lru.getLast? with
      | none => exact ⟨wf, Fades.refl _⟩
      | some el =>
        have member := List.mem_of_getLast? back
        obtain ⟨wf', fades⟩ := ih (evict_wellFormed wf member)
        exact ⟨wf', (evict_fades wf member).trans fades⟩
    · exact ⟨wf, Fades.refl _⟩

theorem bound_wellFormed (wf : WellFormed c) : WellFormed c.bound := (boundLoop_spec _ wf).1

theorem bound_fades (wf : WellFormed c) : Fades c c.bound := (boundLoop_spec _ wf).2

omit [DecidableEq K] in
theorem sweep_spec (rev : Nat) (els : List ElementId) : ∀ {c : Cache K}, WellFormed c →
    WellFormed (els.foldl (fun c el =>
        if (c.value el).live && decide ((c.value el).decision.policyRevision < rev) then c.kill el
        else c) c) ∧
      Fades c (els.foldl (fun c el =>
        if (c.value el).live && decide ((c.value el).decision.policyRevision < rev) then c.kill el
        else c) c) := by
  induction els with
  | nil => exact fun wf => ⟨wf, Fades.refl _⟩
  | cons el els ih =>
    intro c wf
    simp only [List.foldl_cons]
    split
    · obtain ⟨wf', fades⟩ := ih (kill_wellFormed wf el)
      exact ⟨wf', (kill_fades c el).trans fades⟩
    · exact ih wf

omit [DecidableEq K] in
theorem raise_spec (wf : WellFormed c) (rev : Nat) :
    WellFormed (c.raise rev) ∧ Fades c (c.raise rev) ∧ rev ≤ (c.raise rev).watermark := by
  unfold raise
  split
  · rename_i above
    have lifted : WellFormed { c with watermark := rev } := wf.congr (List.Perm.refl _) rfl rfl fun _ => rfl
    have grown : Fades c { c with watermark := rev } :=
      ⟨rfl, rfl, rfl, rfl, le_refl _, above.le, fun _ _ found _ => found,
        fun _ e found => Or.inr ⟨e, found, le_refl _⟩⟩
    obtain ⟨wf', fades⟩ := sweep_spec rev c.lru lifted
    exact ⟨wf', grown.trans fades, fades.watermark⟩
  · exact ⟨wf, Fades.refl _, by omega⟩

theorem insert_wellFormed (wf : WellFormed c) (absent : c.entries key = none) :
    WellFormed (c.insert key).1 := by
  have unused : c.nextElement ∉ c.lru := fun member => (wf.below _ member).false
  constructor
  · exact List.nodup_cons.mpr ⟨unused, wf.nodup⟩
  · intro other el
    simp only [insert, List.mem_cons]
    by_cases new : el = c.nextElement
    · subst new
      simp only [Function.update_self, blankEntry, true_or, true_and]
      by_cases same : other = key
      · simp [same]
      · rw [Function.update_of_ne same]
        constructor
        · exact fun found => absurd (wf.mem_of_entry found) unused
        · exact fun eq => absurd eq.symm same
    · rw [Function.update_of_ne new]
      by_cases same : other = key
      · subst same
        simp only [Function.update_self, Option.some.injEq]
        constructor
        · exact fun eq => absurd eq.symm new
        · rintro ⟨eq | inList, keyed⟩
          · exact absurd eq new
          · rw [(wf.entry_iff other el).mpr ⟨inList, keyed⟩] at absent
            cases absent
      · rw [Function.update_of_ne same, wf.entry_iff other el]
        simp [new]
  · intro el member
    simp only [insert, List.mem_cons] at member ⊢
    rcases member with rfl | member
    · exact Nat.lt_succ_self _
    · exact (wf.below el member).trans (Nat.lt_succ_self _)

theorem insert_fades (wf : WellFormed c) (absent : c.entries key = none) : Fades c (c.insert key).1 := by
  have keep : ∀ other el, c.entries other = some el → (c.insert key).1.lookup other = some (c.value el) := by
    intro other el found
    have ne : other ≠ key := by
      rintro rfl
      rw [found] at absent
      cases absent
    have old : el ≠ c.nextElement := fun eq => (wf.below el (wf.mem_of_entry found)).ne eq
    simp [lookup, insert, Function.update_of_ne ne, found, Function.update_of_ne old]
  refine ⟨rfl, rfl, rfl, rfl, le_refl _, le_refl _, ?_, ?_⟩
  · intro other e found alive
    by_cases same : other = key
    · subst same
      simp only [lookup, insert, Function.update_self, Option.map_some, Option.some.injEq] at found
      subst found
      cases alive
    · cases entry : c.entries other with
      | none => simp [lookup, insert, Function.update_of_ne same, entry] at found
      | some el =>
        rw [keep other el entry] at found
        simpa [lookup, entry] using found
  · intro other e found
    obtain ⟨el, entry, rfl⟩ := Option.map_eq_some_iff.mp found
    exact Or.inr ⟨c.value el, keep other el entry, le_refl _⟩

/-- The element of a key: it is in the map and in the list, and a key that was
there keeps its entry. -/
theorem elementOf_spec (wf : WellFormed c) (key : K) :
    WellFormed (c.elementOf key).1 ∧ Fades c (c.elementOf key).1 ∧
      (c.elementOf key).1.entries key = some (c.elementOf key).2 := by
  unfold elementOf
  cases found : c.entries key with
  | some el => exact ⟨wf, Fades.refl c, found⟩
  | none => exact ⟨insert_wellFormed wf found, insert_fades wf found, by simp [insert]⟩

/-! ## The locked sections -/

/-- A section that writes at one key only: every other live entry was there, and
`written` is what a live entry at the key holds. -/
structure Records (c c' : Cache K) (key : K) (written : Option (Decision × Time)) : Prop where
  limits : c'.limits = c.limits
  lastFlush : c'.lastFlush = c.lastFlush
  closed : c'.closed = c.closed
  floor : c.floor ≤ c'.floor
  watermark : c.watermark ≤ c'.watermark
  live : ∀ other e, c'.lookup other = some e → e.live = true →
    (other ≠ key ∧ c.lookup other = some e) ∨
      (other = key ∧ written = some (e.decision, e.asked))
  guard : ∀ other e, other ≠ key → c.lookup other = some e →
    e.guard ≤ c'.floor ∨ ∃ e', c'.lookup other = some e' ∧ e.guard ≤ e'.guard

theorem write_lookup (wf : WellFormed c) (here : c.entries key = some el) (e : CacheEntry K) (other : K) :
    (c.write el e).lookup other = if other = key then some e else c.lookup other := by
  simp only [lookup, write]
  by_cases same : other = key
  · simp [same, here]
  · rw [if_neg same]
    cases found : c.entries other with
    | none => rfl
    | some el' =>
      have ne : el' ≠ el := by
        rintro rfl
        exact same ((wf.key_of_entry found).symm.trans (wf.key_of_entry here))
      rw [Option.map_some, Option.map_some, Function.update_of_ne ne]

/-- The common shape of a tombstone and of a store: find or make the element,
overwrite it, and let the rest of the section fade. -/
theorem records_of_write {c placed c' : Cache K} {e : CacheEntry K} {n : Nat}
    (before : Fades { c with seq := n } placed) (wf : WellFormed placed)
    (here : placed.entries key = some el) (after : Fades (placed.write el e) c') :
    Records c c' key (if e.live then some (e.decision, e.asked) else none) := by
  refine ⟨after.limits.trans before.limits, after.lastFlush.trans before.lastFlush,
    after.closed.trans before.closed, before.floor.trans after.floor,
    before.watermark.trans after.watermark, ?_, ?_⟩
  · intro other found entry alive
    have written := after.live other found entry alive
    rw [write_lookup wf here] at written
    by_cases same : other = key
    · right
      rw [if_pos same] at written
      cases Option.some.inj written
      exact ⟨same, by rw [if_pos alive]⟩
    · left
      rw [if_neg same] at written
      exact ⟨same, before.live other found written alive⟩
  · intro other old ne found
    rcases before.guard other old found with low | ⟨mid, found', grown⟩
    · exact Or.inl (low.trans after.floor)
    · have kept : (placed.write el e).lookup other = some mid := by
        rw [write_lookup wf here, if_neg ne, found']
      rcases after.guard other mid kept with low | ⟨last, found'', grown'⟩
      · exact Or.inl (grown.trans low)
      · exact Or.inr ⟨last, found'', grown.trans grown'⟩

/-- A tombstone kills the entry of its key and leaves the new sequence number
there as a guard, unless the size bound has already made it the floor. -/
theorem tombstone_spec (wf : WellFormed c) (key : K) :
    WellFormed (c.tombstone key) ∧ Records c (c.tombstone key) key none ∧
      (c.tombstone key).seq = (c.seq + 1) % 2 ^ 64 ∧
      ((c.tombstone key).seq ≤ (c.tombstone key).floor ∨
        ∃ e, (c.tombstone key).lookup key = some e ∧ (c.tombstone key).seq ≤ e.guard) := by
  have bumpedWf : WellFormed c.bumpSeq := wf.congr (List.Perm.refl _) rfl rfl fun _ => rfl
  obtain ⟨placedWf, placing, placedAt⟩ := elementOf_spec bumpedWf key
  set placed := (c.bumpSeq.elementOf key).1
  set el := (c.bumpSeq.elementOf key).2
  have killedWf := kill_wellFormed placedWf el
  have killedAt : (placed.kill el).entries key = some el := by rw [kill_entries, placedAt]
  set grave : CacheEntry K := { (placed.kill el).value el with guard := (placed.kill el).seq }
  have dead : grave.live = false := (kill_value_self placed el).1
  have writtenWf : WellFormed ((placed.kill el).write el grave) := write_wellFormed killedWf rfl
  have member : el ∈ ((placed.kill el).write el grave).lru := killedWf.mem_of_entry killedAt
  have frontWf := moveToFront_wellFormed writtenWf member
  have rest : Fades ((placed.kill el).write el grave) (c.tombstone key) :=
    (moveToFront_fades _ el).trans (bound_fades frontWf)
  have records := records_of_write (n := c.bumpSeq.seq)
    (placing.trans (kill_fades placed el)) killedWf killedAt rest
  rw [dead] at records
  have number : (placed.kill el).seq = (c.seq + 1) % 2 ^ 64 := by
    rw [kill_seq]
    exact placing.seq
  refine ⟨bound_wellFormed frontWf, records, rest.seq.trans number, ?_⟩
  have own : ((placed.kill el).write el grave).lookup key = some grave := by
    rw [write_lookup killedWf killedAt, if_pos rfl]
  rw [rest.seq]
  exact rest.guard key grave own

/-- A store puts the allow under its key and keeps the guard of the key. -/
theorem store_spec (wf : WellFormed c) (key : K) (d : Decision) (asked : Time) :
    WellFormed (c.store key d asked) ∧ Records c (c.store key d asked) key (some (d, asked)) ∧
      (c.store key d asked).seq = c.seq ∧
      ∀ e, c.lookup key = some e → e.guard ≤ (c.store key d asked).floor ∨
        ∃ e', (c.store key d asked).lookup key = some e' ∧ e.guard ≤ e'.guard := by
  obtain ⟨placedWf, placing, placedAt⟩ := elementOf_spec wf key
  set placed := (c.elementOf key).1
  set el := (c.elementOf key).2
  set counted : Cache K :=
    { placed with allows := if (placed.value el).live then placed.allows else placed.allows + 1 }
  have countedWf : WellFormed counted := placedWf.congr (List.Perm.refl _) rfl rfl fun _ => rfl
  have counting : Fades c counted :=
    placing.trans ⟨rfl, rfl, rfl, rfl, le_refl _, le_refl _, fun _ _ found _ => found,
      fun _ e found => Or.inr ⟨e, found, le_refl _⟩⟩
  set entry : CacheEntry K := ⟨key, true, d, asked, (placed.value el).guard⟩
  have writtenWf : WellFormed (counted.write el entry) :=
    write_wellFormed countedWf (placedWf.key_of_entry placedAt).symm
  have member : el ∈ (counted.write el entry).lru := placedWf.mem_of_entry placedAt
  have frontWf := moveToFront_wellFormed writtenWf member
  have rest : Fades (counted.write el entry) (c.store key d asked) :=
    (moveToFront_fades _ el).trans (bound_fades frontWf)
  have own : (counted.write el entry).lookup key = some entry := by
    rw [write_lookup countedWf placedAt, if_pos rfl]
  refine ⟨bound_wellFormed frontWf, records_of_write (n := c.seq) counting countedWf placedAt rest,
    rest.seq.trans placing.seq, ?_⟩
  intro e found
  rcases placing.guard key e found with low | ⟨e', found', grown⟩
  · exact Or.inl (low.trans rest.floor)
  · have same : e' = placed.value el := by
      simpa [lookup, placedAt] using found'.symm
    have kept : e.guard ≤ entry.guard := by
      rw [same] at grown
      exact grown
    rcases rest.guard key entry own with low | ⟨last, found'', grown'⟩
    · exact Or.inl (kept.trans low)
    · exact Or.inr ⟨last, found'', kept.trans grown'⟩

omit [DecidableEq K] in
/-- A hit hands out the live entry of the key as it stands, checked at the
reading; nothing else is handed out, and reading stores nothing. -/
theorem get_spec (wf : WellFormed c) (key : K) (now : Time) :
    WellFormed (c.get key now).1 ∧ Fades c (c.get key now).1 ∧
      ∀ d, (c.get key now).2 = some d → c.closed = false ∧
        ∃ e, c.lookup key = some e ∧ e.live = true ∧ e.decision = d ∧ c.fresh e now = true := by
  unfold get
  cases found : c.entries key with
  | none => exact ⟨wf, Fades.refl c, by simp⟩
  | some el =>
    simp only [Bool.not_eq_true']
    split
    · exact ⟨wf, Fades.refl c, by simp⟩
    · rename_i notClosed
      split
      · exact ⟨wf, Fades.refl c, by simp⟩
      · rename_i alive
        split
        · exact ⟨kill_wellFormed wf el, kill_fades c el, by simp⟩
        · rename_i isFresh
          refine ⟨moveToFront_wellFormed wf (wf.mem_of_entry found), moveToFront_fades c el, ?_⟩
          rintro d ⟨⟩
          exact ⟨by simpa using notClosed, c.value el, by simp [lookup, found],
            by simpa using alive, rfl, by simpa using isFresh⟩

end DevHealth.Pep.Cache

import DevHealth.Authverify.JwksFlights

/-! # How old a key can be

On a clock that does not go back, a key that a lookup returns is of the last set fetched,
and at most the TTL and the outage grace old.  If that set was past the TTL when the call
first read the clock, a later fetch has failed. -/
set_option autoImplicit false
namespace DevHealth.Authverify.Jwks

open Go Lib

variable {c : JWKSClient} {es : List (Record Event)} {id other : CallId} {sh sh' : Shared}
  {pc pc' : Pc} {e : Event} {s t : Calls Shared Pc} {m : Move Task Input} {first now : Time}

/-! ## The clock -/

def Event.reading : Event → Option Time
  | .read now | .tooSoon now | .began now | .stored _ now => some now
  | _ => none

def readings (es : List (Record Event)) : List Time := es.filterMap fun rec => rec.event.reading

def Steady (es : List (Record Event)) : Prop := (readings es).Pairwise Time.NotAfter

instance (es : List (Record Event)) : Decidable (Steady es) :=
  inferInstanceAs (Decidable ((readings es).Pairwise Time.NotAfter))

theorem readings_append (es es' : List (Record Event)) :
    readings (es ++ es') = readings es ++ readings es' := List.filterMap_append

theorem Steady.before {es' : List (Record Event)} (steady : Steady (es ++ es')) : Steady es := by
  rw [Steady, readings_append] at steady
  exact (List.pairwise_append.mp steady).1

theorem Steady.notAfter (steady : Steady (es ++ [⟨id, e⟩])) (reads : e.reading = some now)
    {time : Time} (earlier : time ∈ readings es) : Time.NotAfter time now := by
  rw [Steady, readings_append] at steady
  refine (List.pairwise_append.mp steady).2.2 time earlier now ?_
  exact List.mem_filterMap.mpr ⟨⟨id, e⟩, List.mem_singleton_self _, reads⟩

theorem mem_readings (reads : e.reading = some now) : now ∈ readings (es ++ [⟨id, e⟩]) := by
  rw [readings_append]
  exact List.mem_append_right _ (List.mem_filterMap.mpr ⟨⟨id, e⟩, List.mem_singleton_self _, reads⟩)

theorem mem_readings_later {rec : Record Event} (earlier : now ∈ readings es) :
    now ∈ readings (es ++ [rec]) := by
  rw [readings_append]
  exact List.mem_append_left _ earlier

def Event.lookupReading : Event → Option Time
  | .read now => some now
  | _ => none

def firstReading (id : CallId) (es : List (Record Event)) : Option Time :=
  es.findSome? fun rec => if rec.call = id then rec.event.lookupReading else none

theorem firstReading_snoc (rec : Record Event) : firstReading id (es ++ [rec]) = (firstReading id es).or
      (if rec.call = id then rec.event.lookupReading else none) := by
  simp [firstReading, List.findSome?_append]

theorem firstReading_kept {rec : Record Event} (found : firstReading id es = some first) :
    firstReading id (es ++ [rec]) = some first := by
  rw [firstReading_snoc, found]
  rfl

theorem firstReading_mem (found : firstReading id es = some first) : first ∈ readings es := by
  obtain ⟨⟨call, e⟩, inside, reads⟩ := List.exists_of_findSome?_eq_some found
  refine List.mem_filterMap.mpr ⟨⟨call, e⟩, inside, ?_⟩
  split at reads
  · cases e with
    | read => exact reads
    | _ => cases reads
  · cases reads

theorem firstReading_fresh (fresh : ∀ rec ∈ es, rec.call ≠ id) : firstReading id es = none := by
  apply List.findSome?_eq_none_iff.mpr
  intro rec inside
  exact if_neg (fresh rec inside)

theorem firstReading_beside (away : id ≠ other) :
    firstReading id (es ++ [⟨other, e⟩]) = firstReading id es := by
  rw [firstReading_snoc, if_neg away.symm, Option.or_none]

/-! ## The times of the log -/

/-- The log holds clock readings of the run, and a good fetch ends after it begins. -/
structure Timed (es : List (Record Event)) : Prop where
  starts : ∀ f ∈ fetches es, f.start ∈ readings es
  ends : ∀ f ∈ fetches es, ∀ keys time, f.outcome = some (.ok (keys, time)) →
    time ∈ readings es ∧ Time.NotAfter f.start time

theorem Timed.quiet (timed : Timed es) (quiet : e.Quiet) : Timed (es ++ [⟨id, e⟩]) := by
  constructor
  · rw [quiet.fetches]
    intro f inside
    exact mem_readings_later (timed.starts f inside)
  · rw [quiet.fetches]
    intro f inside keys time good
    obtain ⟨read, order⟩ := timed.ends f inside keys time good
    exact ⟨mem_readings_later read, order⟩

theorem Timed.begins (timed : Timed es) (now : Time) : Timed (es ++ [⟨id, .began now⟩]) := by
  have grown : fetches (es ++ [⟨id, .began now⟩]) = ⟨id, now, none⟩ :: fetches es := fetches_snoc ..
  constructor
  · rw [grown]
    intro f inside
    rcases List.mem_cons.mp inside with rfl | older
    · exact mem_readings rfl
    · exact mem_readings_later (timed.starts f older)
  · rw [grown]
    intro f inside keys time good
    rcases List.mem_cons.mp inside with rfl | older
    · cases good
    · obtain ⟨read, order⟩ := timed.ends f older keys time good
      exact ⟨mem_readings_later read, order⟩

theorem Timed.settles {o : Except FetchError (KeySet × Time)} (timed : Timed es)
    (steady : Steady (es ++ [⟨id, e⟩]))
    (settled : fetches (es ++ [⟨id, e⟩]) = (fetches es).settle o)
    (reads : ∀ keys time, o = .ok (keys, time) → e.reading = some time) :
    Timed (es ++ [⟨id, e⟩]) := by
  obtain ⟨starts, ends⟩ := timed
  rw [Log.settle.eq_def] at settled
  cases log : fetches es with
  | nil =>
    rw [log] at settled
    constructor <;> (rw [settled]; intro f inside; cases inside)
  | cons newest older =>
    rw [log] at settled starts ends
    constructor
    · rw [settled]
      intro f inside
      rcases List.mem_cons.mp inside with rfl | below
      · exact mem_readings_later (starts newest (List.mem_cons_self ..))
      · exact mem_readings_later (starts f (List.mem_cons_of_mem _ below))
    · rw [settled]
      intro f inside keys time good
      rcases List.mem_cons.mp inside with rfl | below
      · have read := reads keys time (Option.some.inj good)
        exact ⟨mem_readings read, steady.notAfter read (starts newest (List.mem_cons_self ..))⟩
      · obtain ⟨read, order⟩ := ends f (List.mem_cons_of_mem _ below) keys time good
        exact ⟨mem_readings_later read, order⟩

theorem timed_after (moved : Advanced c id sh pc sh' pc' e) (steady : Steady (es ++ [⟨id, e⟩]))
    (timed : Timed es) : Timed (es ++ [⟨id, e⟩]) := by
  cases moved with
  | begins task now idle due => exact timed.begins now
  | stores task keys now =>
    refine timed.settles steady (fetches_snoc ..) ?_
    intro keys' time same
    cases same
    rfl
  | fails task err =>
    refine timed.settles steady (fetches_snoc ..) ?_
    intro keys' time same
    cases same
  | _ => exact timed.quiet fun _ _ => rfl

/-! ## A refresh was tried -/

/-- If the keys were past the TTL at the reading, the last fetch failed. -/
def Current (c : JWKSClient) (sh : Shared) (first : Time) : Prop :=
  sh.keys ≠ none → c.cacheTTL ≤ Time.distance first sh.fetchedAt → sh.lastErr ≠ none

theorem current_ends (moved : Advanced c other sh pc sh' pc' e) (ends : e.Ends)
    (steady : Steady (es ++ [⟨other, e⟩])) (read : first ∈ readings es) : Current c sh' first := by
  cases moved with
  | stores task keys now =>
    intro _ old
    have order := (steady.notAfter rfl read).order
    rw [Time.distance_swap] at order
    have floor := c.floorPositive
    have within := c.floorWithin
    dsimp only at old
    omega
  | fails task err =>
    intro _ _
    simp
  | _ => rcases ends with ⟨keys, time, absent⟩ | ⟨err, absent⟩ <;> cases absent

theorem current_after (moved : Advanced c other sh pc sh' pc' e)
    (steady : Steady (es ++ [⟨other, e⟩])) (read : first ∈ readings es)
    (current : Current c sh first) : Current c sh' first := by
  cases moved with
  | stores task keys now =>
    exact current_ends (.stores task keys now) (Or.inl ⟨keys, now, rfl⟩) steady read
  | fails task err => exact current_ends (.fails task err) (Or.inr ⟨err, rfl⟩) steady read
  | _ => exact current

/-- A call that is turned away by the floor: a fetch that was good began inside the floor,
so the keys it brought are within the TTL. -/
theorem current_tooSoon (sound : Sound c es sh) (timed : Timed es)
    (steady : Steady (es ++ [⟨id, .tooSoon now⟩])) (read : first ∈ readings es)
    (idle : sh.inflight = none) (tried : sh.attempted = true)
    (early : now.sub sh.lastAttempt < c.refreshFloor) : Current c sh first := by
  intro _ old clean
  have rep := sound.represents
  cases log : fetches es with
  | nil => exact rep.attempted.mp tried log
  | cons newest older =>
    have inside : newest ∈ fetches es := by simp [log]
    have last := rep.lastAttempt newest older log
    cases outcome : newest.outcome with
    | none => exact rep.all_settled idle newest inside outcome
    | some o =>
      cases o with
      | error err =>
        have failed : (fetches es).lastErr = some err := by simp [log, Log.lastErr, outcome]
        rw [rep.lastErr, failed] at clean
        cases clean
      | ok good =>
        obtain ⟨keys, time⟩ := good
        have served : (fetches es).served = some (keys, time) := by
          simp [log, Log.served, outcome]
        rw [rep.fetchedAt keys time served] at old
        obtain ⟨ended, order⟩ := timed.ends newest inside keys time outcome
        have later := steady.notAfter rfl read
        have after := steady.notAfter rfl ended
        have whole : Time.distance now newest.start = Time.distance now first +
            (Time.distance first time + Time.distance time newest.start) := by
          rw [← Time.distance_trans (later.line.trans after.line.symm) order.line.symm]
          exact Time.distance_trans later.line.symm ((later.line.trans after.line.symm).trans order.line.symm)
        have spread := later.order
        have length := order.order
        have within := c.floorWithin
        have bounded : c.refreshFloor ≤ maxDuration := by
          have ttl := c.ttlBounded
          simp only [hour, minute, second, nanosPerSecond] at ttl
          simp only [maxDuration]
          omega
        have enough : c.refreshFloor ≤ Time.distance now newest.start := by omega
        rw [last] at early
        have late := Time.le_sub_of_le_distance bounded enough
        omega

/-! ## Where a lookup stands -/

/-- The call has read the clock, and the fact holds of its first reading. -/
def Since (es : List (Record Event)) (id : CallId) (fact : Time → Prop) : Prop :=
  ∃ first, firstReading id es = some first ∧ fact first

def Task.Since (es : List (Record Event)) (id : CallId) (fact : Time → Prop) : Task → Prop
  | .lookup _ => Jwks.Since es id fact
  | .refresh => True

def Pc.Fresh (c : JWKSClient) (es : List (Record Event)) (sh : Shared) (id : CallId) : Pc → Prop
  | .first _ => firstReading id es = none
  | .firstLook _ now => firstReading id es = some now
  | .refresh task | .fetching task => task.Since es id fun _ => True
  | .waiting task flight => task.Since es id fun first =>
    sh.inflight = some flight ∨ Current c sh first
  | .closing task _ => task.Since es id (Current c sh)
  | .second _ | .secondLook _ _ => Since es id (Current c sh)
  | .reason _ | .returned => True

variable {fact fact' : Time → Prop} {task : Task} {rec : Record Event}

theorem Since.later (since : Since es id fact)
    (keeps : ∀ first ∈ readings es, fact first → fact' first) : Since (es ++ [rec]) id fact' := by
  obtain ⟨first, found, holds⟩ := since
  exact ⟨first, firstReading_kept found, keeps first (firstReading_mem found) holds⟩

theorem Task.Since.later (since : task.Since es id fact)
    (keeps : ∀ first ∈ readings es, fact first → fact' first) :
    task.Since (es ++ [rec]) id fact' := by
  cases task with
  | lookup l => exact Jwks.Since.later since keeps
  | refresh => trivial

theorem next_fresh (since : task.Since es id fact)
    (keeps : ∀ first ∈ readings es, fact first → Current c sh first) :
    task.next.Fresh c (es ++ [rec]) sh id := by
  cases task with
  | lookup l => exact Jwks.Since.later since keeps
  | refresh => trivial

theorem Sound.not_running (sound : Sound c es sh) (done : Done (fetches es) id) : sh.inflight ≠ some id := by
  intro running
  obtain ⟨start, older, log⟩ := sound.represents.newest running
  obtain ⟨f, inside, caller, ended⟩ := done
  have callers := sound.callers
  rw [log] at inside
  rw [log, List.map_cons, List.nodup_cons] at callers
  rcases List.mem_cons.mp inside with rfl | below
  · exact ended rfl
  · exact callers.1 (mem_callers.mpr ⟨f, below, caller⟩)

theorem fresh_after (moved : Advanced c id sh pc sh' pc' e) (steady : Steady (es ++ [⟨id, e⟩]))
    (stands : pc.Stands es sh id) (sound : Sound c es sh) (timed : Timed es)
    (fresh : pc.Fresh c es sh id) : pc'.Fresh c (es ++ [⟨id, e⟩]) sh' id := by
  cases moved with
  | reads l now =>
    have silent : firstReading id es = none := fresh
    show firstReading id (es ++ [⟨id, .read now⟩]) = some now
    rw [firstReading_snoc, silent, if_pos rfl]
    rfl
  | misses l now missing => exact ⟨now, firstReading_kept fresh, trivial⟩
  | joins task flight running => exact fresh.later fun first _ _ => Or.inl running
  | tooSoon task now idle tried early =>
    exact next_fresh fresh fun first read _ =>
      current_tooSoon sound timed steady read idle tried early
  | begins task now idle due => exact fresh.later fun first _ _ => trivial
  | stores task keys now =>
    exact fresh.later fun first read _ =>
      current_ends (.stores task keys now) (Or.inl ⟨keys, now, rfl⟩) steady read
  | fails task err =>
    exact fresh.later fun first read _ =>
      current_ends (.fails task err) (Or.inr ⟨err, rfl⟩) steady read
  | closes task err => exact next_fresh fresh fun first _ current => current
  | wakes task flight closed =>
    refine next_fresh fresh ?_
    intro first _ settled
    rcases settled with running | current
    · exact absurd running (sound.not_running (sound.closed flight closed))
    · exact current
  | readsAgain l now => exact fresh.later fun first _ current => current
  | missesAgain l now missing =>
    obtain ⟨kid, resolve⟩ := l
    cases resolve <;> trivial
  | finds | findsAgain | unknown | unavailable => trivial

theorem Pc.Fresh.beside (fresh : pc.Fresh c es sh id) (away : id ≠ other)
    (current : ∀ first ∈ readings es, Current c sh first → Current c sh' first)
    (flight : ∀ flight, sh.inflight = some flight →
      sh'.inflight = some flight ∨ ∀ first ∈ readings es, Current c sh' first) :
    pc.Fresh c (es ++ [⟨other, e⟩]) sh' id := by
  cases pc with
  | first l => exact (firstReading_beside away).trans fresh
  | firstLook l now => exact firstReading_kept fresh
  | refresh task | fetching task => exact Task.Since.later fresh fun first _ _ => trivial
  | waiting task joined =>
    refine Task.Since.later fresh ?_
    intro first read settled
    rcases settled with running | was
    · rcases flight joined running with still | now
      · exact Or.inl still
      · exact Or.inr (now first read)
    · exact Or.inr (current first read was)
  | closing task err => exact Task.Since.later fresh current
  | second l | secondLook l now => exact Since.later fresh current
  | reason kid => trivial
  | returned => trivial

theorem inflight_beside (moved : Advanced c other sh pc sh' pc' e)
    (steady : Steady (es ++ [⟨other, e⟩])) {flight : CallId} (running : sh.inflight = some flight) :
    sh'.inflight = some flight ∨ ∀ first ∈ readings es, Current c sh' first := by
  cases moved with
  | begins task now idle due =>
    rw [idle] at running
    cases running
  | stores task keys now =>
    exact Or.inr fun first => current_ends (.stores task keys now) (Or.inl ⟨keys, now, rfl⟩) steady
  | fails task err =>
    exact Or.inr fun first => current_ends (.fails task err) (Or.inr ⟨err, rfl⟩) steady
  | _ => exact Or.inl running

theorem fresh_run (run : Run (system c).step (Calls.idle Shared.initial) es s) :
    Standing (fun es _ => Steady es → Timed es)
      (fun es sh id pc => Steady es → pc.Fresh c es sh id) es s := by
  refine RunWhere.calls ?_ ?_ ?_ ?_ run
  · intro _
    constructor <;> (intro f inside; cases inside)
  · intro es s id task _ before unseen
    constructor
    · intro steady
      exact (before.common steady.before).quiet (begin_quiet task)
    · intro steady
      have silent := firstReading_fresh unseen
      cases task with
      | lookup l =>
        show firstReading id (es ++ [⟨id, .started (.lookup l)⟩]) = none
        rw [firstReading_snoc, silent]
        simp [Event.lookupReading]
      | refresh => trivial
  · intro es s id pc input sh' pc' e run before stood moves _
    have moved := advanced moves
    have sound := (held run).common
    constructor
    · intro steady
      exact timed_after moved steady (before.common steady.before)
    · intro steady
      exact fresh_after moved steady ((held run).own id pc stood) sound
        (before.common steady.before) (before.own id pc stood steady.before)
  · intro es s t rec other pc _ before happened _ away stood steady
    have fresh := before.own other pc stood steady.before
    cases happened with
    | began id task unseen =>
      exact fresh.beside away (fun first _ current => current) fun flight running => Or.inl running
    | moved id pc₀ pc' input sh' e stood₀ moves =>
      exact fresh.beside away (fun first => current_after (advanced moves) steady)
        fun flight => inflight_beside (advanced moves) steady

/-! ## The last good fetch, in the history -/

/-- The last good fetch brought these keys at this time, and `since` has happened since. -/
def LastStored (es : List (Record Event)) (keys : KeySet) (time : Time)
    (since : List (Record Event)) : Prop :=
  ∃ earlier source, es = earlier ++ ⟨source, .stored keys time⟩ :: since ∧
    ∀ rec ∈ since, ∀ keys' time', rec.event ≠ .stored keys' time'

def FailedFetch (es : List (Record Event)) : Prop :=
  ∃ id now err before between after,
    es = before ++ ⟨id, .began now⟩ :: (between ++ ⟨id, .missed err⟩ :: after)

def Recounted (es : List (Record Event)) : Prop :=
  ∀ keys time, (fetches es).served = some (keys, time) →
    ∃ since, LastStored es keys time since ∧
      (∀ id, (fetches es).running = some id → ∃ now, ⟨id, .began now⟩ ∈ since) ∧
      ((fetches es).lastErr ≠ none → FailedFetch since)

theorem LastStored.later {keys : KeySet} {time : Time} {since : List (Record Event)}
    (last : LastStored es keys time since) (unstored : ∀ keys' time', rec.event ≠ .stored keys' time') :
    LastStored (es ++ [rec]) keys time (since ++ [rec]) := by
  obtain ⟨earlier, source, rfl, none_since⟩ := last
  refine ⟨earlier, source, by simp, ?_⟩
  intro rec' inside
  rcases List.mem_append.mp inside with old | new
  · exact none_since rec' old
  · cases List.mem_singleton.mp new
    exact unstored

theorem FailedFetch.later (failed : FailedFetch es) : FailedFetch (es ++ [rec]) := by
  obtain ⟨id, now, err, before, between, after, rfl⟩ := failed
  exact ⟨id, now, err, before, between, after ++ [rec], by simp⟩

theorem Recounted.quiet (recounted : Recounted es) (quiet : e.Quiet)
    (unstored : ∀ keys' time', e ≠ .stored keys' time') : Recounted (es ++ [⟨id, e⟩]) := by
  intro keys time served
  rw [quiet.fetches] at served ⊢
  obtain ⟨since, last, running, failed⟩ := recounted keys time served
  refine ⟨since ++ [⟨id, e⟩], last.later unstored, ?_, fun err => (failed err).later⟩
  intro call runs
  obtain ⟨now, began⟩ := running call runs
  exact ⟨now, List.mem_append_left _ began⟩

theorem Recounted.begins (recounted : Recounted es) : Recounted (es ++ [⟨id, .began now⟩]) := by
  intro keys time served
  have grown : fetches (es ++ [⟨id, .began now⟩]) = ⟨id, now, none⟩ :: fetches es := fetches_snoc ..
  rw [grown] at served ⊢
  obtain ⟨since, last, -, failed⟩ := recounted keys time served
  refine ⟨since ++ [⟨id, .began now⟩], last.later (by simp), ?_, fun err => (failed err).later⟩
  intro call runs
  cases runs
  exact ⟨now, by simp⟩

theorem recounted_after (moved : Advanced c id sh pc sh' pc' e) (stands : pc.Stands es sh id)
    (sound : Sound c es sh) (recounted : Recounted es) : Recounted (es ++ [⟨id, e⟩]) := by
  cases moved with
  | begins task now idle due => exact recounted.begins
  | stores task keys now =>
    obtain ⟨start, older, log⟩ := sound.represents.newest stands.2
    have grown : fetches (es ++ [⟨id, .stored keys now⟩]) = ⟨id, start, some (.ok (keys, now))⟩ :: older := by
      rw [fetches_snoc, log]
      rfl
    intro keys' time served
    rw [grown] at served ⊢
    cases served
    refine ⟨[], ⟨es, id, rfl, by simp⟩, ?_, ?_⟩
    · intro call runs
      cases runs
    · intro clean
      exact absurd rfl clean
  | fails task err =>
    obtain ⟨start, older, log⟩ := sound.represents.newest stands.2
    have grown : fetches (es ++ [⟨id, .missed err⟩]) = ⟨id, start, some (.error err)⟩ :: older := by
      rw [fetches_snoc, log]
      rfl
    intro keys time served
    rw [grown] at served ⊢
    have before : (fetches es).served = some (keys, time) := by
      rw [log]
      exact served
    obtain ⟨since, last, running, -⟩ := recounted keys time before
    refine ⟨since ++ [⟨id, .missed err⟩], last.later (by simp), ?_, ?_⟩
    · intro call runs
      cases runs
    · intro _
      obtain ⟨now, began⟩ := running id (by rw [log]; rfl)
      obtain ⟨a, b, rfl⟩ := List.append_of_mem began
      exact ⟨id, now, err, a, b, [], by simp⟩
  | _ => exact recounted.quiet (fun _ _ => rfl) (by simp)

theorem recounted_run (run : Run (system c).step (Calls.idle Shared.initial) es s) : Recounted es := by
  unfold Run at run
  induction run with
  | refl =>
    intro keys time served
    cases served
  | @snoc es s t m rec before success meets ih =>
    cases Behaviour.stepped success with
    | began id task fresh => cases task <;> exact ih.quiet (fun _ _ => rfl) (by simp [system, begin])
    | moved id pc pc' input shared e stood moves =>
      exact recounted_after (advanced moves) ((held before).own id pc stood) (held before).common ih

/-! ## The keys that are returned -/

theorem cached_some {kid key : Bytes} {late : Bool} (found : cached c sh kid now late = some key) :
    ∃ keys, sh.keys = some keys ∧ keys.get kid = some key ∧
      (late = false → Time.distance now sh.fetchedAt < c.cacheTTL) ∧
      Time.distance now sh.fetchedAt < c.cacheTTL + c.outageGrace := by
  have bounds : c.cacheTTL + c.outageGrace ≤ maxDuration := by
    have ttl := c.ttlBounded
    have grace := c.graceBounded
    simp only [hour, minute, second, nanosPerSecond] at ttl grace
    simp only [maxDuration]
    omega
  have grace := c.gracePositive
  have young {limit : Int} (small : limit ≤ c.cacheTTL + c.outageGrace)
      (less : now.sub sh.fetchedAt < limit) : Time.distance now sh.fetchedAt < limit := by
    by_contra old
    have reached := Time.le_sub_of_le_distance (small.trans bounds) (not_lt.mp old)
    omega
  unfold cached at found
  cases keys : sh.keys with
  | none => simp [keys] at found
  | some set =>
    simp only [keys] at found
    split at found
    · cases found
    · rename_i served
      split at found
      · cases found
      · rename_i key' holds
        split at found
        · cases found
          refine ⟨set, rfl, holds, ?_, ?_⟩
          · rintro rfl
            apply young (by omega)
            by_contra old
            exact served ⟨not_lt.mp old, Or.inl rfl⟩
          · apply young le_rfl
            by_contra old
            exact served ⟨by omega, Or.inr (not_lt.mp old)⟩
        · cases found

theorem found_step {l : Lookup} {late : Bool} {key : Bytes}
    (run : Run (system c).step (Calls.idle Shared.initial) es s) (steady : Steady es)
    (success : (system c).step s m = some (t, ⟨id, .looked l late now (some key)⟩)) :
    cached c s.shared l.kid now late = some key ∧ ⟨id, .read now⟩ ∈ es ∧
      ∃ first, firstReading id es = some first ∧
        (c.cacheTTL ≤ Time.distance first s.shared.fetchedAt → s.shared.lastErr ≠ none) := by
  obtain ⟨pc, pc', stood, moved⟩ := call_step success (by simp)
  generalize t.shared = sh' at moved
  have stands := (held run).own id pc stood
  have fresh := (fresh_run run).own id pc stood steady
  cases moved with
  | finds l now key found =>
    obtain ⟨keys, -, -, young, -⟩ := cached_some found
    refine ⟨found, stands.2.1, now, fresh, ?_⟩
    intro old
    have less := young rfl
    omega
  | findsAgain l now key found =>
    obtain ⟨keys, present, -⟩ := cached_some found
    obtain ⟨first, read, current⟩ := fresh
    exact ⟨found, stands.2, first, read, current (by simp [present])⟩

/-- A key that a lookup returns is of the last good fetch, and younger than the TTL and the
grace at the reading it was looked up with.  If the keys were as old as the TTL at the first
reading of the call, a fetch that began after they were stored has failed. -/
theorem returned_key_fresh (run : Run (system c).step (Calls.idle Shared.initial) es s)
    (steady : Steady es) (before after : List (Record Event)) (id : CallId) (l : Lookup)
    (late : Bool) (now : Time) (key : Bytes)
    (split : es = before ++ ⟨id, .looked l late now (some key)⟩ :: after) :
    ∃ keys time since, LastStored before keys time since ∧ keys.get l.kid = some key ∧
      ⟨id, .read now⟩ ∈ before ∧ Time.distance now time < c.cacheTTL + c.outageGrace ∧
      ∃ first, firstReading id before = some first ∧
        (c.cacheTTL ≤ Time.distance first time → FailedFetch since) := by
  subst split
  obtain ⟨s, m, t, reached, success, -, -⟩ := RunWhere.split run
  obtain ⟨found, read, first, begun, failed⟩ := found_step reached steady.before success
  obtain ⟨keys, present, holds, -, young⟩ := cached_some found
  have rep := (held reached).common.represents
  obtain ⟨⟨keys', time⟩, served, rfl⟩ := Option.map_eq_some_iff.mp (rep.keys ▸ present)
  rw [rep.fetchedAt keys' time served] at young failed
  obtain ⟨since, last, -, recount⟩ := recounted_run reached keys' time served
  refine ⟨keys', time, since, last, holds, read, young, first, begun, ?_⟩
  intro old
  exact recount (rep.lastErr ▸ failed old)

def sampleKeys : KeySet :=
  ⟨[(ascii "k1", List.replicate publicKeySize 7)], by decide, by decide, by decide⟩

/-- The keys of second 12 are past the TTL in second 400, and the refresh then fails. -/
def outageHistory : List (Record Event) :=
  [⟨0, .started .refresh⟩, ⟨0, .began (Time.unix 10)⟩, ⟨0, .stored sampleKeys (Time.unix 12)⟩,
    ⟨0, .closed none⟩, ⟨1, .started (.lookup sampleLookup)⟩, ⟨1, .read (Time.unix 400)⟩,
    ⟨1, .looked sampleLookup false (Time.unix 400) none⟩, ⟨1, .began (Time.unix 400)⟩,
    ⟨1, .missed .jwksUnavailable⟩, ⟨1, .closed (some .jwksUnavailable)⟩, ⟨1, .read (Time.unix 405)⟩]

def sampleFound : Event :=
  .looked sampleLookup true (Time.unix 405) (some (List.replicate publicKeySize 7))

theorem outage_run : ∃ s, Run (system sampleJwks).step (Calls.idle Shared.initial)
    (outageHistory ++ ⟨1, sampleFound⟩ :: []) s := by
  apply exists_run [.start 0 .refresh, .advance 0 (.enter (Time.unix 10)),
      .advance 0 (.finish (.ok sampleKeys) (Time.unix 12)), .advance 0 .close,
      .start 1 (.lookup sampleLookup), .advance 1 (.read (Time.unix 400)), .advance 1 .lock,
      .advance 1 (.enter (Time.unix 400)),
      .advance 1 (.finish (.error .jwksUnavailable) (Time.unix 403)), .advance 1 .close,
      .advance 1 (.read (Time.unix 405)), .advance 1 .lock]
  decide +kernel

theorem outage_key_fresh :
    ∃ keys time since, LastStored outageHistory keys time since ∧
      keys.get (ascii "k1") = some (List.replicate publicKeySize 7) ∧
      ⟨1, .read (Time.unix 405)⟩ ∈ outageHistory ∧
      Time.distance (Time.unix 405) time < sampleJwks.cacheTTL + sampleJwks.outageGrace ∧
      ∃ first, firstReading 1 outageHistory = some first ∧
        (sampleJwks.cacheTTL ≤ Time.distance first time → FailedFetch since) := by
  obtain ⟨s, run⟩ := outage_run
  have steady : Steady (outageHistory ++ ⟨1, sampleFound⟩ :: []) := by decide +kernel
  exact returned_key_fresh run steady outageHistory [] 1 sampleLookup true _ _ rfl

end DevHealth.Authverify.Jwks

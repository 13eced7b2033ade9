import DevHealth.Authverify.AccessToken
import DevHealth.Authverify.JwksFreshness

/-! # When `ResolveKey` answers that a key is unknown

The miss and its reason are read in two sections.  Between them another call may store a set
that holds the key, and a pause before the second lookup may let a good set grow old: both
make an outage, or a known key, look like an unknown one.  Where neither happens, the client
held a set without the key during the call. -/
set_option autoImplicit false
namespace DevHealth.Authverify.Jwks

open Go Lib

variable {c : JWKSClient} {es : List (Record Event)} {id other : CallId} {sh sh' : Shared}
  {pc pc' : Pc} {e : Event} {s t : Calls Shared Pc} {m : Move Task Input} {first now time : Time}
  {task : Task} {rec : Record Event} {keys : KeySet} {kid : Bytes}

/-! ## Moments of a call -/

/-- During the call the clock showed `now`, and the client held `keys`, fetched at `time`. -/
def Moment (es : List (Record Event)) (id : CallId) (task : Task) (now : Time) (keys : KeySet)
    (time : Time) : Prop :=
  ∃ before rec after since, es = before ++ rec :: after ∧ ⟨id, .started task⟩ ∈ before ∧
    rec.event.reading = some now ∧ LastStored (before ++ [rec]) keys time since

/-- During the `ResolveKey` call the client held a set without the key, young enough to
serve from. -/
def Justified (c : JWKSClient) (es : List (Record Event)) (id : CallId) (kid : Bytes) : Prop :=
  ∃ now keys time, Moment es id (.lookup ⟨kid, true⟩) now keys time ∧ keys.get kid = none ∧
    Time.distance now time < c.cacheTTL + c.outageGrace

theorem Moment.later (moment : Moment es id task now keys time) :
    Moment (es ++ [rec]) id task now keys time := by
  obtain ⟨before, rec', after, since, rfl, facts⟩ := moment
  exact ⟨before, rec', after ++ [rec], since, by simp, facts⟩

theorem Justified.later (justified : Justified c es id kid) : Justified c (es ++ [rec]) id kid := by
  obtain ⟨now, keys, time, moment, facts⟩ := justified
  exact ⟨now, keys, time, moment.later, facts⟩

theorem moment_stored (started : ⟨id, .started task⟩ ∈ es) :
    Moment (es ++ [⟨other, .stored keys now⟩]) id task now keys now :=
  ⟨es, ⟨other, .stored keys now⟩, [], [], rfl, started, rfl, es, other, rfl, by simp⟩

theorem distance_self (c : JWKSClient) (time : Time) :
    Time.distance time time < c.cacheTTL + c.outageGrace := by
  rw [Time.distance_self]
  have floor := c.floorPositive
  have within := c.floorWithin
  have grace := c.gracePositive
  omega

/-- The set that the client holds was held at the first reading of the call, or was stored
during the call. -/
def Watched (es : List (Record Event)) (id : CallId) (task : Task) (first : Time) : Prop :=
  ∀ keys time, (fetches es).served = some (keys, time) →
    Moment es id task first keys time ∨ Moment es id task time keys time

theorem watched_reads (started : ⟨id, .started task⟩ ∈ es) (recounted : Recounted es) :
    Watched (es ++ [⟨id, .read now⟩]) id task now := by
  intro keys time served
  rw [Event.Quiet.fetches fun _ _ => rfl] at served
  obtain ⟨since, last, -⟩ := recounted keys time served
  exact Or.inl ⟨es, ⟨id, .read now⟩, [], _, rfl, started, rfl, last.later (by simp)⟩

theorem served_after (moved : Advanced c other sh pc sh' pc' e) (stands : pc.Stands es sh other)
    (sound : Sound c es sh) (served : (fetches (es ++ [⟨other, e⟩])).served = some (keys, time)) :
    (fetches es).served = some (keys, time) ∨ e = .stored keys time := by
  rw [fetches_snoc] at served
  cases moved with
  | stores task keys now =>
    obtain ⟨start, older, log⟩ := sound.represents.newest stands.2
    rw [log] at served
    cases served
    exact Or.inr rfl
  | fails task err =>
    obtain ⟨start, older, log⟩ := sound.represents.newest stands.2
    rw [log] at served ⊢
    exact Or.inl served
  | _ => exact Or.inl served

theorem Watched.later (watched : Watched es id task first) (started : ⟨id, .started task⟩ ∈ es)
    (moved : Advanced c other sh pc sh' pc' e) (stands : pc.Stands es sh other)
    (sound : Sound c es sh) : Watched (es ++ [⟨other, e⟩]) id task first := by
  intro keys time served
  rcases served_after moved stands sound served with earlier | rfl
  · rcases watched keys time earlier with read | stored
    · exact Or.inl read.later
    · exact Or.inr stored.later
  · exact Or.inr (moment_stored started)

theorem Watched.quiet (watched : Watched es id task first) (quiet : e.Quiet) :
    Watched (es ++ [⟨other, e⟩]) id task first := by
  intro keys time served
  rw [quiet.fetches] at served
  rcases watched keys time served with read | stored
  · exact Or.inl read.later
  · exact Or.inr stored.later

/-! ## The second miss -/

theorem served_of_done {log : Log} (done : Done log other) (clean : log.lastErr = none) :
    log.served ≠ none := by
  induction log with
  | nil =>
    obtain ⟨f, inside, -⟩ := done
    cases inside
  | cons newest older ih =>
    cases outcome : newest.outcome with
    | none =>
      obtain ⟨f, inside, caller, ended⟩ := done
      rcases List.mem_cons.mp inside with rfl | below
      · exact absurd outcome ended
      · simp only [Log.lastErr, outcome] at clean
        simp only [Log.served, outcome]
        exact ih ⟨f, below, caller, ended⟩ clean
    | some o =>
      cases o with
      | ok good => simp [Log.served, outcome]
      | error err => simp [Log.lastErr, outcome] at clean

theorem cached_held {key : Bytes} (present : sh.keys = some keys) (holds : keys.get kid = some key)
    (young : now.sub sh.fetchedAt < c.cacheTTL + c.outageGrace) :
    cached c sh kid now true = some key := by
  have served : ¬(c.cacheTTL ≤ now.sub sh.fetchedAt ∧
      (!true ∨ c.cacheTTL + c.outageGrace ≤ now.sub sh.fetchedAt)) := by
    rintro ⟨-, absent | old⟩
    · cases absent
    · omega
  simp only [cached, present, if_neg served, holds, KeySet.get_sized holds, if_true]

/-- A second lookup of a key in the set comes before the grace of the set ends. -/
def Timely (c : JWKSClient) (sh : Shared) (kid : Bytes) (now : Time) : Prop :=
  sh.lastErr = none → ∀ keys key, sh.keys = some keys → keys.get kid = some key →
    now.sub sh.fetchedAt < c.cacheTTL + c.outageGrace

theorem justified_miss (sound : Sound c es sh) (done : Done (fetches es) other)
    (current : Since es id (Current c sh))
    (watched : Since es id (Watched es id (.lookup ⟨kid, true⟩)))
    (missing : cached c sh kid now true = none) (timely : Timely c sh kid now)
    (clean : sh.lastErr = none) : Justified c es id kid := by
  have rep := sound.represents
  have held := served_of_done done (rep.lastErr ▸ clean)
  obtain ⟨⟨keys, time⟩, served⟩ := Option.ne_none_iff_exists'.mp held
  have present : sh.keys = some keys := by rw [rep.keys, served]; rfl
  have absent : keys.get kid = none := by
    by_contra known
    obtain ⟨key, holds⟩ := Option.ne_none_iff_exists'.mp known
    rw [cached_held present holds (timely clean keys key present holds)] at missing
    cases missing
  obtain ⟨first, read, watches⟩ := watched
  rcases watches keys time served with atFirst | atStore
  · obtain ⟨first', same, current⟩ := current
    cases read.symm.trans same
    refine ⟨first, keys, time, atFirst, absent, ?_⟩
    have grace := c.gracePositive
    by_contra old
    refine current (by simp [present]) ?_ clean
    rw [rep.fetchedAt keys time served]
    omega
  · exact ⟨time, keys, time, atStore, absent, distance_self c time⟩

/-! ## Where a call stands -/

/-- No fetch stores a key while a call that missed it has not read the reason yet, and no
call finds a set too old that was good and holds its key. -/
structure Decided (c : JWKSClient) (s : Calls Shared Pc) (rec : Record Event) : Prop where
  undisturbed : ∀ keys now, rec.event = .stored keys now →
    ∀ id kid, s.pcs id = some (.reason kid) → keys.get kid = none
  timely : ∀ l now, rec.event = .looked l true now none → l.resolve = true →
    Timely c s.shared l.kid now

def Pc.Watches (c : JWKSClient) (es : List (Record Event)) (sh : Shared) (id : CallId) : Pc → Prop
  | .first _ | .returned => True
  | .firstLook l now => Watched es id (.lookup l) now
  | .refresh task | .waiting task _ | .fetching task | .closing task _ =>
    task.Since es id (Watched es id task)
  | .second l | .secondLook l _ =>
    Since es id (Watched es id (.lookup l)) ∧ ∃ other, Done (fetches es) other
  | .reason kid => sh.lastErr = none → Justified c es id kid

theorem next_watches (since : task.Since es id (Watched es id task))
    (keeps : ∀ first ∈ readings es, Watched es id task first → Watched (es ++ [rec]) id task first)
    (done : Done (fetches es) other) : task.next.Watches c (es ++ [rec]) sh id := by
  cases task with
  | lookup l =>
    refine ⟨Jwks.Since.later since keeps, other, ?_⟩
    rw [fetches_snoc]
    exact done.record rec
  | refresh => trivial

theorem Sound.exists_done (sound : Sound c es sh) (idle : sh.inflight = none)
    (tried : sh.attempted = true) : ∃ other, Done (fetches es) other := by
  obtain ⟨f, older, log⟩ := List.exists_cons_of_ne_nil (sound.represents.attempted.mp tried)
  have inside : f ∈ fetches es := by simp [log]
  exact ⟨f.caller, f, inside, rfl, sound.represents.all_settled idle f inside⟩

theorem watches_after (moved : Advanced c id sh pc sh' pc' e) (meets : Decided c s ⟨id, e⟩)
    (shared : s.shared = sh) (stands : pc.Stands es sh id) (sound : Sound c es sh)
    (recounted : Recounted es) (fresh : pc.Fresh c es sh id) (watches : pc.Watches c es sh id) :
    pc'.Watches c (es ++ [⟨id, e⟩]) sh' id := by
  have keeps {task : Task} (started : ⟨id, .started task⟩ ∈ es) :
      ∀ first ∈ readings es, Watched es id task first → Watched (es ++ [⟨id, e⟩]) id task first :=
    fun first _ watched => watched.later started moved stands sound
  cases moved with
  | reads l now => exact watched_reads stands.1 recounted
  | misses l now missing => exact ⟨now, firstReading_kept fresh, watches.quiet fun _ _ => rfl⟩
  | joins task flight running => exact Task.Since.later watches (keeps stands.1)
  | tooSoon task now idle tried early =>
    obtain ⟨other, done⟩ := sound.exists_done idle tried
    exact next_watches watches (keeps stands.1) done
  | begins task now idle due
  | stores task keys now
  | fails task err => exact Task.Since.later watches (keeps stands.1)
  | closes task err => exact next_watches watches (keeps stands.1) stands.2.1
  | wakes task flight closed =>
    exact next_watches watches (keeps stands.1) (sound.closed flight closed)
  | readsAgain l now =>
    obtain ⟨since, other, done⟩ := watches
    refine ⟨Since.later since (keeps stands), other, ?_⟩
    rw [fetches_snoc]
    exact done.record _
  | missesAgain l now missing =>
    obtain ⟨kid, resolve⟩ := l
    obtain ⟨since, other, done⟩ := watches
    cases resolve with
    | false => trivial
    | true =>
      intro clean
      have timely := meets.timely _ _ rfl rfl
      rw [shared] at timely
      exact (justified_miss sound done fresh since missing timely clean).later
  | finds | findsAgain | unknown | unavailable => trivial

theorem justified_beside (moved : Advanced c other s.shared pc sh' pc' e)
    (meets : Decided c s ⟨other, e⟩) (stood : s.pcs id = some (.reason kid))
    (started : ⟨id, .started (.lookup ⟨kid, true⟩)⟩ ∈ es)
    (justified : s.shared.lastErr = none → Justified c es id kid) (clean : sh'.lastErr = none) :
    Justified c (es ++ [⟨other, e⟩]) id kid := by
  cases moved with
  | stores task keys now =>
    have absent := meets.undisturbed keys now rfl id kid stood
    exact ⟨now, keys, now, moment_stored started, absent, distance_self c now⟩
  | fails task err => cases clean
  | _ => exact (justified clean).later

theorem Pc.Watches.beside (watches : pc.Watches c es sh id) (stands : pc.Stands es sh id)
    (keeps : ∀ task first, ⟨id, .started task⟩ ∈ es → Watched es id task first →
      Watched (es ++ [rec]) id task first)
    (reason : ∀ kid, pc = .reason kid → sh'.lastErr = none → Justified c (es ++ [rec]) id kid) :
    pc.Watches c (es ++ [rec]) sh' id := by
  have goes {ended : CallId} (earlier : Done (fetches es) ended) : Done (fetches (es ++ [rec])) ended := by
    rw [fetches_snoc]
    exact earlier.record rec
  cases pc with
  | first l => trivial
  | firstLook l now => exact keeps _ now stands.1 watches
  | refresh task
  | waiting task flight
  | fetching task
  | closing task err => exact Task.Since.later watches fun first _ => keeps _ first stands.1
  | second l =>
    obtain ⟨since, ended, done⟩ := watches
    exact ⟨Since.later since fun first _ => keeps _ first stands, ended, goes done⟩
  | secondLook l now =>
    obtain ⟨since, ended, done⟩ := watches
    exact ⟨Since.later since fun first _ => keeps _ first stands.1, ended, goes done⟩
  | reason kid => exact reason kid rfl
  | returned => trivial

theorem watches_run (run : RunWhere (system c).step (Decided c) (Calls.idle Shared.initial) es s) :
    Standing (fun _ _ => True) (fun es sh id pc => Steady es → pc.Watches c es sh id) es s := by
  refine RunWhere.calls trivial ?_ ?_ ?_ run
  · intro es s id task _ _ _
    refine ⟨trivial, ?_⟩
    intro _
    cases task with
    | lookup l => trivial
    | refresh => trivial
  · intro es s id pc input sh' pc' e run before stood moves meets
    refine ⟨trivial, ?_⟩
    intro steady
    exact watches_after (advanced moves) meets rfl ((held run).own id pc stood) (held run).common
      (recounted_run run.run) ((fresh_run run.run).own id pc stood steady.before)
      (before.own id pc stood steady.before)
  · intro es s t rec other pc run before happened meets away stood steady
    have watches := before.own other pc stood steady.before
    have stands := (held run).own other pc stood
    cases happened with
    | began id task unseen =>
      refine watches.beside stands (fun _ _ _ watched => watched.quiet (begin_quiet task)) ?_
      intro kid same clean
      subst same
      exact (watches clean).later
    | moved id pc₀ pc' input sh' e stood₀ moves =>
      have stands₀ := (held run).own id pc₀ stood₀
      refine watches.beside stands (fun _ _ started watched =>
        watched.later started (advanced moves) stands₀ (held run).common) ?_
      intro kid same clean
      subst same
      exact justified_beside (advanced moves) meets stood stands watches clean

/-! ## The answers -/

/-- The key id and the answer of the `ResolveKey` call that an event ends. -/
def Event.resolved : Event → Option (Bytes × Except Unit (Option Bytes))
  | .looked ⟨kid, true⟩ _ _ (some key) => some (kid, .ok (some key))
  | .unknown kid => some (kid, .ok none)
  | .unavailable kid _ => some (kid, .error ())
  | _ => none

/-- What a `ResolveKey` call can answer: a key of the right size, `unknown` with a last fetch
that was good, or the error. -/
inductive Answered (sh : Shared) (pc : Pc) (kid : Bytes) : Except Unit (Option Bytes) → Prop
  | key (key : Bytes) (sized : key.length = publicKeySize) : Answered sh pc kid (.ok (some key))
  | unknown (stood : pc = .reason kid) (clean : sh.lastErr = none) : Answered sh pc kid (.ok none)
  | unavailable : Answered sh pc kid (.error ())

theorem answered_step {answer : Except Unit (Option Bytes)}
    (success : (system c).step s m = some (t, ⟨id, e⟩)) (resolved : e.resolved = some (kid, answer)) :
    ∃ pc, s.pcs id = some pc ∧ Answered s.shared pc kid answer := by
  have later : ∀ task, e ≠ .started task := by
    rintro task rfl
    cases resolved
  obtain ⟨pc, pc', stood, moved⟩ := call_step success later
  refine ⟨pc, stood, ?_⟩
  have sized {now : Time} {late : Bool} {key : Bytes}
      (found : cached c s.shared kid now late = some key) : key.length = publicKeySize := by
    obtain ⟨keys, -, holds, -⟩ := cached_some found
    exact KeySet.get_sized holds
  generalize t.shared = sh' at moved
  cases moved with
  | finds l now key found | findsAgain l now key found =>
    obtain ⟨kid', resolve⟩ := l
    cases resolve with
    | false => cases resolved
    | true =>
      cases resolved
      exact .key key (sized found)
  | unknown kid clean =>
    cases resolved
    exact .unknown rfl clean
  | unavailable kid err failed =>
    cases resolved
    exact .unavailable
  | _ => simp [Event.resolved] at resolved

/-- A verifier refuses a key id that is not denied as unknown only at the answer `unknown`. -/
theorem Answered.unknown_of_refused {answer : Except Unit (Option Bytes)} {platform : Platform}
    {v : Verifier} {token : Bytes} {resolveKey : Bytes → Except Unit (Option Bytes)}
    (answered : Answered sh pc kid answer) (source : v.keys = .resolver resolveKey)
    (answers : resolveKey kid = answer) (named : tokenKid platform.folding token = some kid)
    (allowed : contains v.denied kid = false)
    (refused : v.verify platform token now = .error (refuse .unknownKid)) : answer = .ok none := by
  obtain ⟨kid', same, why⟩ := Verifier.verify_unknownKid refused
  cases named.symm.trans same
  rcases why with denied | ⟨key', known, looked, keyless⟩
  · rw [allowed] at denied
    cases denied
  · rw [source, lookupKey, answers] at looked
    cases answered with
    | key key sized =>
      cases looked
      simp [sized] at keyless
    | unknown reason clean => rfl
    | unavailable => cases looked

/-- In a run whose steps are all decided, `ResolveKey` answers `unknown` only when the client
held, during the call, a set without the key that was young enough; every other miss is the
error.  So a verifier over the client refuses a key id that is not denied as unknown only
then. -/
theorem unknown_only_if_held
    (run : RunWhere (system c).step (Decided c) (Calls.idle Shared.initial) es s)
    (steady : Steady es) (before after : List (Record Event)) (id : CallId) (e : Event) (kid : Bytes)
    (answer : Except Unit (Option Bytes)) (split : es = before ++ ⟨id, e⟩ :: after)
    (resolved : e.resolved = some (kid, answer)) :
    ((∃ key, answer = .ok (some key)) ∨ (answer = .ok none ∧ Justified c before id kid) ∨
      answer = .error ()) ∧
    ∀ (platform : Platform) (v : Verifier) (token : Bytes) (now : Time)
      (resolveKey : Bytes → Except Unit (Option Bytes)),
      v.keys = .resolver resolveKey → resolveKey kid = answer →
      tokenKid platform.folding token = some kid → contains v.denied kid = false →
      v.verify platform token now = .error (refuse .unknownKid) → Justified c before id kid := by
  subst split
  obtain ⟨s, m, t, reached, success, -, -⟩ := RunWhere.split run
  obtain ⟨pc, stood, answered⟩ := answered_step success resolved
  have watches := (watches_run reached).own id pc stood steady.before
  have justified (none_found : answer = .ok none) : Justified c before id kid := by
    subst none_found
    cases answered with
    | unknown reason clean =>
      subst reason
      exact watches clean
  constructor
  · cases answered with
    | key key sized => exact Or.inl ⟨key, rfl⟩
    | unknown reason clean => exact Or.inr (Or.inl ⟨rfl, justified rfl⟩)
    | unavailable => exact Or.inr (Or.inr rfl)
  · intro platform v token now resolveKey source answers named allowed refused
    exact justified (answered.unknown_of_refused source answers named allowed refused)

/-! ## What goes wrong -/

theorem Justified.stored (justified : Justified c es id kid) :
    ∃ source keys time, ⟨source, .stored keys time⟩ ∈ es ∧ keys.get kid = none := by
  obtain ⟨now, keys, time, ⟨before, rec, after, since, rfl, -, -, last⟩, absent, -⟩ := justified
  obtain ⟨earlier, source, split, -⟩ := last
  refine ⟨source, keys, time, ?_, absent⟩
  have inside : ⟨source, .stored keys time⟩ ∈ before ++ [rec] := by simp [split]
  rcases List.mem_append.mp inside with old | new
  · exact List.mem_append_left _ old
  · cases List.mem_singleton.mp new
    simp

def alwaysHeld (kid : Bytes) (es : List (Record Event)) : Bool :=
  es.all fun rec =>
    match rec.event with
    | .stored keys _ => (keys.get kid).isSome
    | _ => true

theorem not_justified (heldThroughout : alwaysHeld kid es = true) : ¬Justified c es id kid := by
  intro justified
  obtain ⟨source, keys, time, inside, absent⟩ := justified.stored
  have holds := List.all_eq_true.mp heldThroughout _ inside
  simp [absent] at holds

/-- The fetch of the call fails; before it reads the reason, another call stores the key. -/
def overtakenHistory : List (Record Event) :=
  [⟨0, .started (.lookup sampleLookup)⟩, ⟨0, .read (Time.unix 10)⟩,
    ⟨0, .looked sampleLookup false (Time.unix 10) none⟩, ⟨0, .began (Time.unix 10)⟩,
    ⟨0, .missed .jwksUnavailable⟩, ⟨0, .closed (some .jwksUnavailable)⟩, ⟨0, .read (Time.unix 12)⟩,
    ⟨0, .looked sampleLookup true (Time.unix 12) none⟩, ⟨1, .started .refresh⟩,
    ⟨1, .began (Time.unix 41)⟩, ⟨1, .stored sampleKeys (Time.unix 42)⟩]

/-- The fetch of the call brings the key; the call then pauses for longer than the grace. -/
def pausedHistory : List (Record Event) :=
  [⟨0, .started (.lookup sampleLookup)⟩, ⟨0, .read (Time.unix 10)⟩,
    ⟨0, .looked sampleLookup false (Time.unix 10) none⟩, ⟨0, .began (Time.unix 10)⟩,
    ⟨0, .stored sampleKeys (Time.unix 12)⟩, ⟨0, .closed none⟩, ⟨0, .read (Time.unix 1000)⟩,
    ⟨0, .looked sampleLookup true (Time.unix 1000) none⟩]

theorem overtaken_run : ∃ s, Run (system sampleJwks).step (Calls.idle Shared.initial)
    (overtakenHistory ++ [⟨0, .unknown (ascii "k1")⟩]) s := by
  apply exists_run [.start 0 (.lookup sampleLookup), .advance 0 (.read (Time.unix 10)), .advance 0 .lock,
      .advance 0 (.enter (Time.unix 10)),
      .advance 0 (.finish (.error .jwksUnavailable) (Time.unix 11)), .advance 0 .close,
      .advance 0 (.read (Time.unix 12)), .advance 0 .lock, .start 1 .refresh,
      .advance 1 (.enter (Time.unix 41)), .advance 1 (.finish (.ok sampleKeys) (Time.unix 42)),
      .advance 0 .lock]
  decide +kernel

theorem paused_run : ∃ s, Run (system sampleJwks).step (Calls.idle Shared.initial)
    (pausedHistory ++ [⟨0, .unknown (ascii "k1")⟩]) s := by
  apply exists_run [.start 0 (.lookup sampleLookup), .advance 0 (.read (Time.unix 10)), .advance 0 .lock,
      .advance 0 (.enter (Time.unix 10)), .advance 0 (.finish (.ok sampleKeys) (Time.unix 12)),
      .advance 0 .close, .advance 0 (.read (Time.unix 1000)), .advance 0 .lock,
      .advance 0 .lock]
  decide +kernel

/-- In two ways, the answer is `unknown` for a key that every set ever stored holds. -/
theorem held_key_unknown :
    ((∃ s, Run (system sampleJwks).step (Calls.idle Shared.initial)
        (overtakenHistory ++ [⟨0, .unknown (ascii "k1")⟩]) s) ∧
      Steady (overtakenHistory ++ [⟨0, .unknown (ascii "k1")⟩]) ∧
      ¬Justified sampleJwks overtakenHistory 0 (ascii "k1")) ∧
    ((∃ s, Run (system sampleJwks).step (Calls.idle Shared.initial)
        (pausedHistory ++ [⟨0, .unknown (ascii "k1")⟩]) s) ∧
      Steady (pausedHistory ++ [⟨0, .unknown (ascii "k1")⟩]) ∧
      ¬Justified sampleJwks pausedHistory 0 (ascii "k1")) :=
  ⟨⟨overtaken_run, by decide +kernel, not_justified (by decide +kernel)⟩,
    ⟨paused_run, by decide +kernel, not_justified (by decide +kernel)⟩⟩

def otherKeys : KeySet :=
  ⟨[(ascii "k2", List.replicate publicKeySize 7)], by decide, by decide, by decide⟩

def unknownHistory : List (Record Event) :=
  [⟨0, .started (.lookup sampleLookup)⟩, ⟨0, .read (Time.unix 10)⟩,
    ⟨0, .looked sampleLookup false (Time.unix 10) none⟩, ⟨0, .began (Time.unix 10)⟩,
    ⟨0, .stored otherKeys (Time.unix 12)⟩, ⟨0, .closed none⟩, ⟨0, .read (Time.unix 13)⟩,
    ⟨0, .looked sampleLookup true (Time.unix 13) none⟩]

/-- Call 0 is not at its reason when a set is stored, and no set that holds the key is looked
up in vain. -/
def plainlyDecided (s : Calls Shared Pc) (rec : Record Event) : Bool :=
  match rec.event with
  | .stored _ _ =>
    match s.pcs 0 with
    | some (.reason _) => false
    | _ => true
  | .looked l true _ none =>
    match s.shared.keys with
    | some keys => (keys.get l.kid).isNone
    | none => true
  | _ => true

theorem decided_of_plainly (alone : ∀ id pc, s.pcs id = some pc → id = 0)
    (plainly : plainlyDecided s rec = true) : Decided c s rec := by
  obtain ⟨call, e⟩ := rec
  constructor
  · rintro keys now rfl id kid stood
    cases alone id _ stood
    simp [plainlyDecided, stood] at plainly
  · rintro l now rfl - - keys key present holds
    simp [plainlyDecided, present, holds] at plainly

theorem unknown_run : ∃ s, RunWhere (system sampleJwks).step (Decided sampleJwks)
    (Calls.idle Shared.initial) (unknownHistory ++ ⟨0, .unknown (ascii "k1")⟩ :: []) s := by
  have success : (exec (system sampleJwks).step plainlyDecided (Calls.idle Shared.initial)
      [.start 0 (.lookup sampleLookup), .advance 0 (.read (Time.unix 10)), .advance 0 .lock,
        .advance 0 (.enter (Time.unix 10)), .advance 0 (.finish (.ok otherKeys) (Time.unix 12)),
        .advance 0 .close, .advance 0 (.read (Time.unix 13)), .advance 0 .lock,
        .advance 0 .lock]).map Prod.snd =
      some (unknownHistory ++ ⟨0, .unknown (ascii "k1")⟩ :: []) := by
    decide +kernel
  have mine : ∀ rec ∈ unknownHistory ++ ⟨0, .unknown (ascii "k1")⟩ :: [], rec.call = 0 := by
    decide
  obtain ⟨⟨s, es⟩, executed, rfl⟩ := Option.map_eq_some_iff.mp success
  refine ⟨s, (runWhere_of_exec (fun _ _ passed => passed) executed).strengthen ?_⟩
  intro before s' rec after split reached plainly
  refine decided_of_plainly ?_ plainly
  intro id pc stood
  obtain ⟨rec', inside, rfl⟩ := reached.recorded stood
  exact mine rec' (by rw [split]; exact List.mem_append_left _ inside)

theorem absent_key_unknown : Justified sampleJwks unknownHistory 0 (ascii "k1") := by
  obtain ⟨s, run⟩ := unknown_run
  have steady : Steady (unknownHistory ++ ⟨0, .unknown (ascii "k1")⟩ :: []) := by decide +kernel
  obtain ⟨answered, -⟩ :=
    unknown_only_if_held run steady unknownHistory [] 0 _ (ascii "k1") (.ok none) rfl rfl
  rcases answered with ⟨key, absent⟩ | ⟨-, justified⟩ | absent
  · cases absent
  · exact justified
  · cases absent

end DevHealth.Authverify.Jwks

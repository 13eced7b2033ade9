import DevHealth.Authverify.Jwks
import Mathlib.Data.List.Chain

/-! # The log of fetches

What the client's fields say is said by the sequence of its fetches: which one is running,
the key set of the last good one, the error of the last one that ended.  Every run keeps the
two in step, and lets at most one fetch run. -/
set_option autoImplicit false
namespace DevHealth.Authverify.Jwks

open Go Lib

/-! ## The log -/

/-- A fetch: its caller, the clock reading at its start, and how it ended. -/
structure Fetch where
  caller : CallId
  start : Time
  outcome : Option (Except FetchError (KeySet × Time))

/-- Newest first. -/
abbrev Log := List Fetch

namespace Log

def settle (log : Log) (outcome : Except FetchError (KeySet × Time)) : Log :=
  match log with
  | [] => []
  | f :: older => { f with outcome := some outcome } :: older

def record (log : Log) (rec : Record Event) : Log :=
  match rec.event with
  | .began now => ⟨rec.call, now, none⟩ :: log
  | .stored keys now => settle log (.ok (keys, now))
  | .missed err => settle log (.error err)
  | _ => log

def running : Log → Option CallId
  | ⟨id, _, none⟩ :: _ => some id
  | _ => none

def served : Log → Option (KeySet × Time)
  | [] => none
  | f :: older =>
    match f.outcome with
    | some (.ok good) => some good
    | _ => served older

def lastErr : Log → Option FetchError
  | [] => none
  | f :: older =>
    match f.outcome with
    | some (.ok _) => none
    | some (.error err) => some err
    | none => lastErr older

end Log

def fetches (es : List (Record Event)) : Log := es.foldl Log.record []

theorem fetches_snoc (es : List (Record Event)) (rec : Record Event) :
    fetches (es ++ [rec]) = (fetches es).record rec := by
  rw [fetches, List.foldl_append]
  rfl

def errOf : Except FetchError (KeySet × Time) → Option FetchError
  | .ok _ => none
  | .error err => some err

/-! ## The client keeps the log -/

structure Represents (sh : Shared) (log : Log) : Prop where
  inflight : sh.inflight = log.running
  settled : ∀ f ∈ log.tail, f.outcome ≠ none
  attempted : sh.attempted = true ↔ log ≠ []
  lastAttempt : ∀ f older, log = f :: older → sh.lastAttempt = f.start
  keys : sh.keys = log.served.map Prod.fst
  fetchedAt : ∀ keys time, log.served = some (keys, time) → sh.fetchedAt = time
  lastErr : sh.lastErr = log.lastErr

variable {c : JWKSClient} {es : List (Record Event)} {id other : CallId} {sh sh' : Shared}
  {pc pc' : Pc} {e : Event} {log : Log}

theorem represents_initial : Represents Shared.initial [] :=
  ⟨rfl, by simp, by simp [Shared.initial], by simp, rfl, by simp [Log.served], rfl⟩

theorem Represents.all_settled (rep : Represents sh log) (idle : sh.inflight = none) :
    ∀ f ∈ log, f.outcome ≠ none := by
  intro f inside pending
  cases log with
  | nil => cases inside
  | cons newest older =>
    rcases List.mem_cons.mp inside with rfl | below
    · have busy : Log.running (f :: older) = some f.caller := by
        obtain ⟨caller, start, outcome⟩ := f
        cases pending
        rfl
      rw [rep.inflight, busy] at idle
      cases idle
    · exact rep.settled f below pending

theorem Represents.newest (rep : Represents sh log) (running : sh.inflight = some id) :
    ∃ start older, log = ⟨id, start, none⟩ :: older := by
  rw [rep.inflight] at running
  cases log with
  | nil => cases running
  | cons newest older =>
    obtain ⟨caller, start, outcome⟩ := newest
    cases outcome with
    | none =>
      cases running
      exact ⟨start, older, rfl⟩
    | some o => cases running

theorem Represents.begins (rep : Represents sh log) (idle : sh.inflight = none) (now : Time) :
    Represents { sh with inflight := some id, lastAttempt := now, attempted := true }
      (⟨id, now, none⟩ :: log) where
  inflight := rfl
  settled := rep.all_settled idle
  attempted := by simp
  lastAttempt := by
    intro f older split
    cases split
    rfl
  keys := rep.keys
  fetchedAt := rep.fetchedAt
  lastErr := rep.lastErr

theorem Represents.stores (rep : Represents sh log) (running : sh.inflight = some id)
    (keys : KeySet) (now : Time) :
    Represents { sh with
        keys := some keys, fetchedAt := now, lastErr := none, inflight := none
        results := Function.update sh.results id none }
      (log.settle (.ok (keys, now))) := by
  obtain ⟨start, older, rfl⟩ := rep.newest running
  refine ⟨rfl, rep.settled, ?_, ?_, rfl, ?_, rfl⟩
  · simpa [Log.settle] using rep.attempted
  · intro f rest split
    cases split
    exact rep.lastAttempt ⟨id, start, none⟩ older rfl
  · intro keys' time good
    cases good
    rfl

theorem Represents.fails (rep : Represents sh log) (running : sh.inflight = some id) (err : FetchError) :
    Represents { sh with
        lastErr := some err, inflight := none
        results := Function.update sh.results id (some err) }
      (log.settle (.error err)) := by
  obtain ⟨start, older, rfl⟩ := rep.newest running
  refine ⟨rfl, rep.settled, ?_, ?_, rep.keys, rep.fetchedAt, rfl⟩
  · simpa [Log.settle] using rep.attempted
  · intro f rest split
    cases split
    exact rep.lastAttempt ⟨id, start, none⟩ older rfl

/-! ## What the calls rely on -/

def Fetched (log : Log) (id : CallId) : Prop := ∃ f ∈ log, f.caller = id

def Done (log : Log) (id : CallId) : Prop := ∃ f ∈ log, f.caller = id ∧ f.outcome ≠ none

def Pc.Stands (es : List (Record Event)) (sh : Shared) (id : CallId) : Pc → Prop
  | .first l => ⟨id, .started (.lookup l)⟩ ∈ es ∧ ¬Fetched (fetches es) id
  | .firstLook l now => ⟨id, .started (.lookup l)⟩ ∈ es ∧ ⟨id, .read now⟩ ∈ es ∧
      ¬Fetched (fetches es) id
  | .refresh task => ⟨id, .started task⟩ ∈ es ∧ ¬Fetched (fetches es) id
  | .waiting task flight => ⟨id, .started task⟩ ∈ es ∧ ⟨id, .joined flight⟩ ∈ es
  | .fetching task => ⟨id, .started task⟩ ∈ es ∧ sh.inflight = some id
  | .closing task err => ⟨id, .started task⟩ ∈ es ∧ Done (fetches es) id ∧ sh.results id = err
  | .second l => ⟨id, .started (.lookup l)⟩ ∈ es
  | .secondLook l now => ⟨id, .started (.lookup l)⟩ ∈ es ∧ ⟨id, .read now⟩ ∈ es
  | .reason kid => ⟨id, .started (.lookup ⟨kid, true⟩)⟩ ∈ es
  | .returned => True

def Event.Begins (e : Event) : Prop := ∃ now, e = .began now
def Event.Ends (e : Event) : Prop := (∃ keys now, e = .stored keys now) ∨ ∃ err, e = .missed err

structure Sound (c : JWKSClient) (es : List (Record Event)) (sh : Shared) : Prop where
  represents : Represents sh (fetches es)
  callers : ((fetches es).map Fetch.caller).Nodup
  results : ∀ f ∈ fetches es, ∀ o, f.outcome = some o → sh.results f.caller = errOf o
  closed : ∀ id ∈ sh.closed, Done (fetches es) id
  spaced : (fetches es).IsChain fun newer older =>
    c.refreshFloor ≤ Time.distance newer.start older.start
  flights : ∀ id, Working Event.Begins Event.Ends es id → sh.inflight = some id

abbrev Held (c : JWKSClient) := Standing (Sound c) (fun es sh id pc => Pc.Stands es sh id pc)

/-! ## Facts of the log stay -/

theorem settle_callers (log : Log) (o : Except FetchError (KeySet × Time)) :
    (log.settle o).map Fetch.caller = log.map Fetch.caller := by
  cases log <;> rfl

theorem mem_callers {id : CallId} : id ∈ log.map Fetch.caller ↔ Fetched log id := by
  simp [Fetched]

theorem fetched_settle {o : Except FetchError (KeySet × Time)} :
    Fetched (log.settle o) id ↔ Fetched log id := by
  rw [← mem_callers, settle_callers, mem_callers]

theorem fetched_beside (away : id ≠ other) (fetched : Fetched (log.record ⟨other, e⟩) id) :
    Fetched log id := by
  cases e with
  | began now =>
    obtain ⟨f, inside, rfl⟩ := fetched
    rcases List.mem_cons.mp inside with rfl | older
    · exact absurd rfl away
    · exact ⟨f, older, rfl⟩
  | stored | missed => exact fetched_settle.mp fetched
  | _ => exact fetched

theorem Done.settle {o : Except FetchError (KeySet × Time)} (done : Done log id) :
    Done (log.settle o) id := by
  obtain ⟨f, inside, caller, ended⟩ := done
  cases log with
  | nil => cases inside
  | cons newest older =>
    rcases List.mem_cons.mp inside with rfl | below
    · exact ⟨_, List.mem_cons_self .., caller, by simp⟩
    · exact ⟨f, List.mem_cons_of_mem _ below, caller, ended⟩

theorem Done.record (done : Done log id) (rec : Record Event) : Done (log.record rec) id := by
  obtain ⟨call, e⟩ := rec
  cases e with
  | began now =>
    obtain ⟨f, inside, ended⟩ := done
    exact ⟨f, List.mem_cons_of_mem _ inside, ended⟩
  | stored | missed => exact done.settle
  | _ => exact done

def Event.Quiet (e : Event) : Prop := ∀ (log : Log) call, log.record ⟨call, e⟩ = log

theorem Event.Quiet.fetches (quiet : e.Quiet) : Jwks.fetches (es ++ [⟨id, e⟩]) = Jwks.fetches es := by
  rw [fetches_snoc, quiet]

theorem Event.Quiet.not_begins (quiet : e.Quiet) : ¬e.Begins := by
  rintro ⟨now, rfl⟩
  have grown := congrArg List.length (quiet [] 0)
  simp [Log.record] at grown

/-! ## One step -/

theorem Sound.quiet (sound : Sound c es sh) (quiet : e.Quiet) : Sound c (es ++ [⟨id, e⟩]) sh := by
  have same : fetches (es ++ [⟨id, e⟩]) = fetches es := quiet.fetches
  refine ⟨?_, ?_, ?_, ?_, ?_, ?_⟩
  · rw [same]
    exact sound.represents
  · rw [same]
    exact sound.callers
  · rw [same]
    exact sound.results
  · rw [same]
    exact sound.closed
  · rw [same]
    exact sound.spaced
  · intro other going
    rcases working_snoc going with ⟨-, begins⟩ | ⟨earlier, -⟩
    · exact absurd begins quiet.not_begins
    · exact sound.flights other earlier

theorem Sound.begins {now : Time} (sound : Sound c es sh) (fresh : ¬Fetched (fetches es) id)
    (idle : sh.inflight = none)
    (due : sh.attempted = true → c.refreshFloor ≤ now.sub sh.lastAttempt) :
    Sound c (es ++ [⟨id, .began now⟩])
      { sh with inflight := some id, lastAttempt := now, attempted := true } := by
  have grown : fetches (es ++ [⟨id, .began now⟩]) = ⟨id, now, none⟩ :: fetches es := fetches_snoc ..
  refine ⟨?_, ?_, ?_, ?_, ?_, ?_⟩
  · rw [grown]
    exact sound.represents.begins idle now
  · rw [grown, List.map_cons, List.nodup_cons, mem_callers]
    exact ⟨fresh, sound.callers⟩
  · rw [grown]
    intro f inside o ended
    rcases List.mem_cons.mp inside with rfl | older
    · cases ended
    · exact sound.results f older o ended
  · rw [fetches_snoc]
    intro other closed
    exact (sound.closed other closed).record _
  · rw [grown, List.isChain_cons]
    refine ⟨?_, sound.spaced⟩
    intro f newest
    obtain ⟨older, split⟩ := List.head?_eq_some_iff.mp newest
    have tried : sh.attempted = true := sound.represents.attempted.mpr (by simp [split])
    rw [← sound.represents.lastAttempt f older split]
    exact Time.le_distance_of_le_sub c.floorPositive (due tried)
  · intro other going
    rcases working_snoc going with ⟨rfl, -⟩ | ⟨earlier, -⟩
    · rfl
    · have running := sound.flights other earlier
      rw [idle] at running
      cases running

theorem Sound.settles {o : Except FetchError (KeySet × Time)} (sound : Sound c es sh)
    (running : sh.inflight = some id) (ends : e.Ends)
    (settled : fetches (es ++ [⟨id, e⟩]) = (fetches es).settle o)
    (represents : Represents sh' ((fetches es).settle o))
    (results : sh'.results = Function.update sh.results id (errOf o))
    (closed : sh'.closed = sh.closed) : Sound c (es ++ [⟨id, e⟩]) sh' := by
  obtain ⟨start, older, log⟩ := sound.represents.newest running
  have callers := sound.callers
  have spaced := sound.spaced
  refine ⟨?_, ?_, ?_, ?_, ?_, ?_⟩
  · rw [settled]
    exact represents
  · rw [settled, settle_callers]
    exact callers
  · rw [settled, log, results]
    intro f inside o' ended
    rcases List.mem_cons.mp inside with rfl | below
    · cases ended
      simp
    · rw [log, List.map_cons, List.nodup_cons] at callers
      have away : f.caller ≠ id := by
        intro same
        exact callers.1 (mem_callers.mpr ⟨f, below, same⟩)
      rw [Function.update_of_ne away]
      exact sound.results f (log ▸ List.mem_cons_of_mem _ below) o' ended
  · rw [settled, closed]
    intro other member
    exact (sound.closed other member).settle
  · rw [log] at spaced
    rw [settled, log]
    cases older with
    | nil => exact List.isChain_singleton _
    | cons next rest =>
      rw [List.isChain_cons_cons] at spaced
      exact List.isChain_cons_cons.mpr spaced
  · intro other going
    rcases working_snoc going with ⟨-, now, rfl⟩ | ⟨earlier, goes⟩
    · rcases ends with ⟨keys, time, other⟩ | ⟨err, other⟩ <;> cases other
    · have busy := sound.flights other earlier
      rw [running] at busy
      exact absurd ends (goes (Option.some.inj busy).symm)

theorem sound_after (moved : Advanced c id sh pc sh' pc' e) (stands : pc.Stands es sh id)
    (sound : Sound c es sh) : Sound c (es ++ [⟨id, e⟩]) sh' := by
  cases moved with
  | begins task now idle due => exact sound.begins stands.2 idle due
  | stores task keys now =>
    exact sound.settles stands.2 (Or.inl ⟨keys, now, rfl⟩) (fetches_snoc ..)
      (sound.represents.stores stands.2 keys now) rfl rfl
  | fails task err =>
    exact sound.settles stands.2 (Or.inr ⟨err, rfl⟩) (fetches_snoc ..)
      (sound.represents.fails stands.2 err) rfl rfl
  | closes task err =>
    have kept : Sound c (es ++ [⟨id, .closed err⟩]) sh := sound.quiet fun _ _ => rfl
    refine { kept with represents := { kept.represents with }, closed := ?_ }
    intro other member
    rcases List.mem_cons.mp member with rfl | earlier
    · rw [fetches_snoc]
      exact stands.2.1.record _
    · exact kept.closed other earlier
  | _ => exact sound.quiet fun _ _ => rfl

theorem next_stands {task : Task} (started : ⟨id, .started task⟩ ∈ es) : task.next.Stands es sh id := by
  cases task with
  | lookup l => exact started
  | refresh => trivial

theorem stands_after (moved : Advanced c id sh pc sh' pc' e) (stands : pc.Stands es sh id)
    (sound : Sound c es sh) : pc'.Stands (es ++ [⟨id, e⟩]) sh' id := by
  have older : ∀ rec ∈ es, rec ∈ es ++ [⟨id, e⟩] := fun rec => List.mem_append_left _
  have newest : (⟨id, e⟩ : Record Event) ∈ es ++ [⟨id, e⟩] := by simp
  have quiet : e.Quiet → ¬Fetched (fetches es) id → ¬Fetched (fetches (es ++ [⟨id, e⟩])) id := by
    intro quiet fresh
    rw [quiet.fetches]
    exact fresh
  cases moved with
  | reads l now => exact ⟨older _ stands.1, newest, quiet (fun _ _ => rfl) stands.2⟩
  | finds l now key found => trivial
  | misses l now missing => exact ⟨older _ stands.1, quiet (fun _ _ => rfl) stands.2.2⟩
  | joins task flight running => exact ⟨older _ stands.1, newest⟩
  | tooSoon task now idle tried early => exact next_stands (older _ stands.1)
  | begins task now idle due => exact ⟨older _ stands.1, rfl⟩
  | stores task keys now | fails task err =>
    obtain ⟨start, rest, log⟩ := sound.represents.newest stands.2
    refine ⟨older _ stands.1, ?_, by simp⟩
    rw [fetches_snoc, log]
    exact ⟨_, List.mem_cons_self .., rfl, by simp⟩
  | closes task err | wakes task flight closed => exact next_stands (older _ stands.1)
  | readsAgain l now => exact ⟨older _ stands, newest⟩
  | findsAgain l now key found => trivial
  | missesAgain l now missing =>
    obtain ⟨kid, resolve⟩ := l
    cases resolve with
    | false => trivial
    | true => exact older _ stands.1
  | unknown kid clean => trivial
  | unavailable kid err failed => trivial

theorem flight_beside (moved : Advanced c other sh pc sh' pc' e) (stands : pc.Stands es sh other)
    (away : id ≠ other) :
    (sh.inflight = some id → sh'.inflight = some id) ∧ sh'.results id = sh.results id := by
  have mine (held : sh.inflight = some other) : sh.inflight = some id → False := by
    intro running
    rw [held] at running
    exact away (Option.some.inj running).symm
  cases moved with
  | begins task now idle due =>
    refine ⟨?_, rfl⟩
    intro running
    rw [idle] at running
    cases running
  | stores task keys now | fails task err =>
    exact ⟨fun running => (mine stands.2 running).elim, Function.update_of_ne away ..⟩
  | _ => exact ⟨fun running => running, rfl⟩

theorem Pc.Stands.beside (stands : pc.Stands es sh id) (away : id ≠ other)
    (flight : sh.inflight = some id → sh'.inflight = some id)
    (result : sh'.results id = sh.results id) : pc.Stands (es ++ [⟨other, e⟩]) sh' id := by
  have older : ∀ rec ∈ es, rec ∈ es ++ [⟨other, e⟩] := fun rec => List.mem_append_left _
  have fresh : ¬Fetched (fetches es) id → ¬Fetched (fetches (es ++ [⟨other, e⟩])) id := by
    intro unfetched fetched
    rw [fetches_snoc] at fetched
    exact unfetched (fetched_beside away fetched)
  cases pc with
  | first l => exact ⟨older _ stands.1, fresh stands.2⟩
  | firstLook l now => exact ⟨older _ stands.1, older _ stands.2.1, fresh stands.2.2⟩
  | refresh task => exact ⟨older _ stands.1, fresh stands.2⟩
  | waiting task flight => exact ⟨older _ stands.1, older _ stands.2⟩
  | fetching task => exact ⟨older _ stands.1, flight stands.2⟩
  | closing task err =>
    refine ⟨older _ stands.1, ?_, result.trans stands.2.2⟩
    rw [fetches_snoc]
    exact stands.2.1.record _
  | second l => exact older _ stands
  | secondLook l now => exact ⟨older _ stands.1, older _ stands.2⟩
  | reason kid => exact older _ stands
  | returned => trivial

/-! ## Every run -/

theorem sound_initial : Sound c [] Shared.initial := by
  refine ⟨represents_initial, List.nodup_nil, ?_, ?_, List.IsChain.nil, ?_⟩
  · intro f inside
    cases inside
  · intro id closed
    cases closed
  · intro id going
    exact absurd going not_working_nil

theorem unfetched (fresh : ∀ rec ∈ es, rec.call ≠ id) : ¬Fetched (fetches es) id := by
  induction es using List.reverseRecOn with
  | nil =>
    rintro ⟨f, inside, -⟩
    cases inside
  | append_singleton es rec ih =>
    obtain ⟨call, e⟩ := rec
    rw [fetches_snoc]
    intro fetched
    have away : id ≠ call := fun same => fresh ⟨call, e⟩ (by simp) same.symm
    exact ih (fun rec inside => fresh rec (List.mem_append_left _ inside)) (fetched_beside away fetched)

theorem begin_quiet (task : Task) : (begin task).2.Quiet := by
  intro log call
  cases task <;> rfl

theorem held {cond : Calls Shared Pc → Record Event → Prop} {s : Calls Shared Pc}
    (run : RunWhere (system c).step cond (Calls.idle Shared.initial) es s) : Held c es s := by
  refine RunWhere.calls sound_initial ?_ ?_ ?_ run
  · intro es s id task _ before fresh
    have quiet := begin_quiet task
    refine ⟨before.common.quiet quiet, ?_⟩
    have none_yet : ¬Fetched (fetches (es ++ [⟨id, (begin task).2⟩])) id := by
      rw [quiet.fetches]
      exact unfetched fresh
    cases task with
    | lookup l | refresh => exact ⟨by simp [system, begin], none_yet⟩
  · intro es s id pc input sh' pc' e _ before stood moves _
    have stands := before.own id pc stood
    have moved := advanced moves
    exact ⟨sound_after moved stands before.common, stands_after moved stands before.common⟩
  · intro es s t rec other pc _ before happened _ away stood
    have stands := before.own other pc stood
    cases happened with
    | began id task fresh => exact stands.beside away (fun running => running) rfl
    | moved id pc₀ pc' input sh' e stood₀ moves =>
      obtain ⟨flight, result⟩ := flight_beside (advanced moves) (before.own id pc₀ stood₀) away
      exact stands.beside away flight result

end DevHealth.Authverify.Jwks

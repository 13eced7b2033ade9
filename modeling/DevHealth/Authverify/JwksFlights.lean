import DevHealth.Authverify.JwksInvariant

/-! # The fetches of a JWKS client

At most one fetch runs at a time, two fetches begin at least the floor apart, a fetch that
fails leaves the keys as they are, and a call that waited gets the result of the fetch it
waited for. -/
set_option autoImplicit false
namespace DevHealth.Authverify.Jwks

open Go Lib

variable {c : JWKSClient} {es : List (Record Event)} {id other : CallId} {sh sh' : Shared}
  {pc pc' : Pc} {e : Event} {s t : Calls Shared Pc} {m : Move Task Input}

def Event.result : Event → Option (Option FetchError)
  | .stored _ _ => some none
  | .missed err => some (some err)
  | _ => none

/-- The log holds the ended fetches of every call with their results. -/
def Reported (es : List (Record Event)) : Prop :=
  ∀ id r, (∃ e, ⟨id, e⟩ ∈ es ∧ e.result = some r) ↔
    ∃ f ∈ fetches es, f.caller = id ∧ f.outcome.map errOf = some r

theorem Reported.quiet (reported : Reported es) (quiet : e.Quiet) (silent : e.result = none) :
    Reported (es ++ [⟨id, e⟩]) := by
  intro other r
  rw [quiet.fetches, ← reported other r]
  constructor
  · rintro ⟨e', inside, ended⟩
    rcases List.mem_append.mp inside with old | new
    · exact ⟨e', old, ended⟩
    · cases List.mem_singleton.mp new
      rw [silent] at ended
      cases ended
  · rintro ⟨e', inside, ended⟩
    exact ⟨e', List.mem_append_left _ inside, ended⟩

theorem Reported.begins (reported : Reported es) (now : Time) : Reported (es ++ [⟨id, .began now⟩]) := by
  intro other r
  have grown : fetches (es ++ [⟨id, .began now⟩]) = ⟨id, now, none⟩ :: fetches es := fetches_snoc ..
  rw [grown]
  constructor
  · rintro ⟨e', inside, ended⟩
    rcases List.mem_append.mp inside with old | new
    · obtain ⟨f, member, facts⟩ := (reported other r).mp ⟨e', old, ended⟩
      exact ⟨f, List.mem_cons_of_mem _ member, facts⟩
    · cases List.mem_singleton.mp new
      cases ended
  · rintro ⟨f, member, caller, ended⟩
    rcases List.mem_cons.mp member with rfl | older
    · cases ended
    · obtain ⟨e', inside, ended⟩ := (reported other r).mpr ⟨f, older, caller, ended⟩
      exact ⟨e', List.mem_append_left _ inside, ended⟩

theorem Reported.settles {o : Except FetchError (KeySet × Time)} (reported : Reported es)
    (rep : Represents sh (fetches es)) (running : sh.inflight = some id)
    (settled : fetches (es ++ [⟨id, e⟩]) = (fetches es).settle o)
    (result : e.result = some (errOf o)) : Reported (es ++ [⟨id, e⟩]) := by
  obtain ⟨start, older, log⟩ := rep.newest running
  intro other r
  have before := reported other r
  rw [log] at before
  rw [settled, log]
  constructor
  · rintro ⟨e', inside, ended⟩
    rcases List.mem_append.mp inside with old | new
    · obtain ⟨f, member, caller, done⟩ := before.mp ⟨e', old, ended⟩
      rcases List.mem_cons.mp member with rfl | below
      · cases done
      · exact ⟨f, List.mem_cons_of_mem _ below, caller, done⟩
    · cases List.mem_singleton.mp new
      rw [result] at ended
      exact ⟨_, List.mem_cons_self .., rfl, ended⟩
  · rintro ⟨f, member, caller, done⟩
    rcases List.mem_cons.mp member with rfl | below
    · exact ⟨e, by simp [← caller], result.trans done⟩
    · obtain ⟨e', inside, ended⟩ := before.mpr ⟨f, List.mem_cons_of_mem _ below, caller, done⟩
      exact ⟨e', List.mem_append_left _ inside, ended⟩

theorem reported_after (moved : Advanced c id sh pc sh' pc' e) (stands : pc.Stands es sh id)
    (sound : Sound c es sh) (reported : Reported es) : Reported (es ++ [⟨id, e⟩]) := by
  cases moved with
  | begins task now idle due => exact reported.begins now
  | stores task keys now
  | fails task err => exact reported.settles sound.represents stands.2 (fetches_snoc ..) rfl
  | _ => exact reported.quiet (fun _ _ => rfl) rfl

theorem reported_run (run : Run (system c).step (Calls.idle Shared.initial) es s) : Reported es := by
  unfold Run at run
  induction run with
  | refl =>
    intro id r
    constructor
    · rintro ⟨e, inside, -⟩
      cases inside
    · rintro ⟨f, inside, -⟩
      cases inside
  | @snoc es s t m rec before success meets ih =>
    cases Behaviour.stepped success with
    | began id task fresh => cases task <;> exact ih.quiet (fun _ _ => rfl) rfl
    | moved id pc pc' input shared e stood moves =>
      exact reported_after (advanced moves) ((held before).own id pc stood) (held before).common ih

/-! ## Where a fetch begins, fails and is waited for -/

theorem call_step (success : (system c).step s m = some (t, ⟨id, e⟩)) (later : ∀ task, e ≠ .started task) :
    ∃ pc pc', s.pcs id = some pc ∧ Advanced c id s.shared pc t.shared pc' e := by
  have unopened : ∀ task, (begin task).2 ≠ e := by
    intro task first
    cases task <;> exact later _ first.symm
  obtain ⟨pc, pc', input, stood, -, moves⟩ := Behaviour.moved_of_step success unopened
  exact ⟨pc, pc', stood, advanced moves⟩

theorem began_step {now : Time} (success : (system c).step s m = some (t, ⟨id, .began now⟩)) :
    s.shared.inflight = none ∧
      (s.shared.attempted = true → c.refreshFloor ≤ now.sub s.shared.lastAttempt) := by
  obtain ⟨pc, pc', -, moved⟩ := call_step success (by simp)
  generalize t.shared = sh' at moved
  cases moved with
  | begins task now idle due => exact ⟨idle, due⟩

theorem missed_step {err : FetchError} (success : (system c).step s m = some (t, ⟨id, .missed err⟩)) :
    t.shared.keys = s.shared.keys ∧ t.shared.fetchedAt = s.shared.fetchedAt := by
  obtain ⟨pc, pc', -, moved⟩ := call_step success (by simp)
  generalize t.shared = sh' at moved ⊢
  cases moved with
  | fails task err => exact ⟨rfl, rfl⟩

theorem woken_step {flight : CallId} {err : Option FetchError} (before : Held c es s)
    (success : (system c).step s m = some (t, ⟨id, .woken flight err⟩)) :
    ⟨id, .joined flight⟩ ∈ es ∧ flight ∈ s.shared.closed ∧ s.shared.results flight = err := by
  obtain ⟨pc, pc', stood, moved⟩ := call_step success (by simp)
  generalize t.shared = sh' at moved
  have stands := before.own id pc stood
  cases moved with
  | wakes task flight closed => exact ⟨stands.2, closed, rfl⟩

theorem newest_began (before between : List (Record Event)) (id : CallId) (now : Time)
    (quiet : ∀ rec ∈ between, ¬rec.event.Begins) :
    ∃ f older, fetches (before ++ ⟨id, .began now⟩ :: between) = f :: older ∧ f.start = now := by
  induction between using List.reverseRecOn with
  | nil => exact ⟨⟨id, now, none⟩, fetches before, fetches_snoc .., rfl⟩
  | append_singleton between rec ih =>
    obtain ⟨f, older, log, start⟩ := ih fun rec inside => quiet rec (List.mem_append_left _ inside)
    have regroup : before ++ ⟨id, .began now⟩ :: (between ++ [rec]) =
        (before ++ ⟨id, .began now⟩ :: between) ++ [rec] := by simp
    rw [regroup, fetches_snoc, log]
    obtain ⟨call, e⟩ := rec
    cases e with
    | began later => exact absurd ⟨later, rfl⟩ (quiet ⟨call, .began later⟩ (by simp))
    | stored | missed => exact ⟨_, older, rfl, start⟩
    | _ => exact ⟨f, older, rfl, start⟩

theorem Sound.closed_result (sound : Sound c es sh) (reported : Reported es) (closed : id ∈ sh.closed) :
    (∃ e, ⟨id, e⟩ ∈ es ∧ e.result = some (sh.results id)) ∧
      ∀ e r, ⟨id, e⟩ ∈ es → e.result = some r → r = sh.results id := by
  constructor
  · obtain ⟨f, inside, rfl, ended⟩ := sound.closed id closed
    obtain ⟨o, outcome⟩ := Option.ne_none_iff_exists'.mp ended
    apply (reported f.caller _).mpr
    refine ⟨f, inside, rfl, ?_⟩
    rw [outcome, sound.results f inside o outcome]
    rfl
  · intro e r inside result
    obtain ⟨f, member, rfl, ended⟩ := (reported id r).mp ⟨e, inside, result⟩
    obtain ⟨o, outcome, rfl⟩ := Option.map_eq_some_iff.mp ended
    exact (sound.results f member o outcome).symm

/-- Two fetches do not overlap; two in a row begin at least the floor apart; the end of one
that failed leaves the keys and their time as they are; and a call that waited for the fetch
of another gets the result of that fetch, the only one the other made. -/
theorem fetches_single_spaced_harmless
    (run : Run (system c).step (Calls.idle Shared.initial) es s) :
    (∀ before between after id id' now now',
      es = before ++ ⟨id, .began now⟩ :: (between ++ ⟨id', .began now'⟩ :: after) →
      (∃ e, ⟨id, e⟩ ∈ between ∧ e.Ends) ∧
        ((∀ rec ∈ between, ¬rec.event.Begins) → c.refreshFloor ≤ Time.distance now' now)) ∧
    (∀ id err m t, (system c).step s m = some (t, ⟨id, .missed err⟩) →
      t.shared.keys = s.shared.keys ∧ t.shared.fetchedAt = s.shared.fetchedAt) ∧
    (∀ before after id flight err, es = before ++ ⟨id, .woken flight err⟩ :: after →
      ⟨id, .joined flight⟩ ∈ before ∧
      (∃ e, ⟨flight, e⟩ ∈ before ∧ e.result = some err) ∧
      ∀ e r, ⟨flight, e⟩ ∈ before → e.result = some r → r = err) := by
  refine ⟨?_, fun id err m t => missed_step, ?_⟩
  · intro before between after id id' now now' split
    have regroup : es = (before ++ ⟨id, .began now⟩ :: between) ++ ⟨id', .began now'⟩ :: after := by
      rw [split, List.append_assoc, List.cons_append]
    subst regroup
    obtain ⟨s, m, t, reached, success, -, -⟩ := RunWhere.split run
    obtain ⟨idle, due⟩ := began_step success
    have sound := (held reached).common
    constructor
    · have begins : Event.Begins (.began now) := ⟨now, rfl⟩
      rcases ended_or_working before between begins with ended | going
      · exact ended
      · rw [sound.flights id going] at idle
        cases idle
    · intro quiet
      obtain ⟨f, older, log, start⟩ := newest_began before between id now quiet
      have tried : s.shared.attempted = true := sound.represents.attempted.mpr (by simp [log])
      have last := sound.represents.lastAttempt f older log
      rw [← start, ← last]
      exact Time.le_distance_of_le_sub c.floorPositive (due tried)
  · intro before after id flight err split
    subst split
    obtain ⟨s, m, t, reached, success, -, -⟩ := RunWhere.split run
    obtain ⟨joined, closed, rfl⟩ := woken_step (held reached) success
    exact ⟨joined, (held reached).common.closed_result (reported_run reached) closed⟩

def sampleJwks : JWKSClient :=
  ⟨ascii "https://auth.example", 5 * second, 64 * 1024, 32, 5 * minute, 30 * second, 10 * minute,
    by decide, by decide, by decide, by decide, by decide⟩

def sampleLookup : Lookup := ⟨ascii "k1", true⟩

/-- What happens between two refreshes: a lookup joins the first, and wakes when it failed. -/
def betweenRefreshes : List (Record Event) :=
  [⟨1, .started (.lookup sampleLookup)⟩, ⟨1, .read (Time.unix 11)⟩,
    ⟨1, .looked sampleLookup false (Time.unix 11) none⟩, ⟨1, .joined 0⟩,
    ⟨0, .missed .jwksUnavailable⟩, ⟨0, .closed (some .jwksUnavailable)⟩,
    ⟨1, .woken 0 (some .jwksUnavailable)⟩, ⟨2, .started .refresh⟩]

def twoRefreshes : List (Record Event) :=
  [⟨0, .started .refresh⟩] ++ ⟨0, .began (Time.unix 10)⟩ ::
    (betweenRefreshes ++ ⟨2, .began (Time.unix 41)⟩ :: [])

theorem twoRefreshes_run : ∃ s, Run (system sampleJwks).step (Calls.idle Shared.initial) twoRefreshes s := by
  apply exists_run [.start 0 .refresh, .advance 0 (.enter (Time.unix 10)), .start 1 (.lookup sampleLookup),
      .advance 1 (.read (Time.unix 11)), .advance 1 .lock, .advance 1 (.enter (Time.unix 12)),
      .advance 0 (.finish (.error .jwksUnavailable) (Time.unix 13)), .advance 0 .close,
      .advance 1 .wake, .start 2 .refresh, .advance 2 (.enter (Time.unix 41))]
  decide +kernel

theorem twoRefreshes_spaced :
    ((∃ e, ⟨0, e⟩ ∈ betweenRefreshes ∧ e.Ends) ∧
      sampleJwks.refreshFloor ≤ Time.distance (Time.unix 41) (Time.unix 10)) ∧
    ∃ e, ⟨0, e⟩ ∈ twoRefreshes.take 8 ∧ e.result = some (some .jwksUnavailable) := by
  obtain ⟨s, run⟩ := twoRefreshes_run
  obtain ⟨apart, -, waited⟩ := fetches_single_spaced_harmless run
  obtain ⟨ended, spaced⟩ := apart _ betweenRefreshes [] 0 2 _ _ rfl
  refine ⟨⟨ended, spaced ?_⟩, (waited (twoRefreshes.take 8) _ 1 0 _ rfl).2.1⟩
  intro rec inside ⟨now, began⟩
  simp only [betweenRefreshes, List.mem_cons, List.not_mem_nil, or_false] at inside
  rcases inside with rfl | rfl | rfl | rfl | rfl | rfl | rfl | rfl <;> cases began

end DevHealth.Authverify.Jwks

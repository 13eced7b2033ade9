import DevHealth.Pep.CacheInvariant

/-! # No stale allow, and no overdue one

The two guarantees of a hit, for every run.  `no_stale_allow`: the decision is a
cacheable allow that the decision point gave for the same key, to a call that took
its stamp after the last flush and after the last verdict that refused the key.
`hit_is_fresh`: it is inside its reuse window at the reading of the hit, and no
verdict that the open cache had observed carries a higher revision. -/
set_option autoImplicit false
namespace DevHealth.Pep.System

open Go Lib

variable {K : Type} [DecidableEq K]

variable {keyOf : Request → K}

theorem hit_of_effect {s t : Sys K} {id : CallId} {req : Request} {now : Time}
    {hit : Option Decision} (effect : Effect keyOf s t (.got id req now hit)) :
    hit = (s.cache.get (keyOf req) now).2 := by
  cases effect with
  | aside _ outside => exact outside.elim
  | read => rfl

/-- The limits never change and the watermark never falls. -/
structure Steady (c c' : Cache K) : Prop where
  limits : c'.limits = c.limits
  watermark : c.watermark ≤ c'.watermark

omit [DecidableEq K] in
theorem Steady.refl (c : Cache K) : Steady c c := ⟨rfl, le_rfl⟩

omit [DecidableEq K] in
theorem Steady.records {c raised c' : Cache K} {key : K} {written : Option (Decision × Time)}
    (fades : Cache.Fades c raised) (records : Cache.Records raised c' key written) :
    Steady c c' :=
  ⟨records.limits.trans fades.limits, fades.watermark.trans records.watermark⟩

theorem observe_steady {c : Cache K} (wf : c.WellFormed) (key : K) (d : Decision) (stamp : Nat)
    (asked now : Time) : Steady c (c.observe key d stamp asked now) := by
  obtain ⟨raisedWf, fades, _⟩ := Cache.raise_spec wf d.policyRevision
  unfold Cache.observe
  simp only
  split_ifs
  · exact .refl c
  · exact .refl c
  · exact .records fades (Cache.tombstone_spec raisedWf key).2.1
  · exact .records fades (Cache.store_spec raisedWf key d asked).2.1
  · exact ⟨fades.limits, fades.watermark⟩

theorem steady_of_effect {s t : Sys K} {e : Event} (wf : s.cache.WellFormed)
    (effect : Effect keyOf s t e) : Steady s.cache t.cache := by
  cases effect with
  | aside same _ =>
    rw [same]
    exact .refl _
  | read id req now same =>
    rw [same]
    obtain ⟨_, fades, _⟩ := Cache.get_spec wf (keyOf req) now
    exact ⟨fades.limits, fades.watermark⟩
  | recorded id req d stamp asked now _ _ _ same =>
    rw [same]
    exact observe_steady wf (keyOf req) d stamp asked now
  | flushed isOpen same =>
    rw [same]
    constructor <;> simp [Cache.invalidateAll, isOpen, Cache.clear, Cache.bumpSeq]
  | shut same =>
    rw [same]
    exact ⟨rfl, le_rfl⟩

omit [DecidableEq K] in
theorem nothing_kept {es : List Event} {c : Cache K} (inv : CacheInv keyOf es c) (closed : .closed ∈ es) :
    c.lru = [] ∧ ∀ key, c.entries key = none := by
  have blank := inv.emptied (inv.closed.mp closed)
  refine ⟨blank, fun key => ?_⟩
  cases found : c.entries key with
  | none => rfl
  | some el =>
    have member := ((inv.wellFormed.entry_iff key el).mp found).1
    rw [blank] at member
    exact absurd member List.not_mem_nil

variable [Inhabited K]

theorem limits_run {limits : CacheLimits} {es : List Event} {s : Sys K}
    (run : Run (step keyOf) (initial limits) es s) : s.cache.limits = limits := by
  induction run with
  | refl => rfl
  | snoc earlier stepped _ ih =>
    have wf := (inv_run earlier).cache.wellFormed
    exact (steady_of_effect wf (step_effect stepped)).limits.trans ih

/-- What a hit says of the history: the state it was read in satisfied the
invariant, and the entry was live and fresh. -/
theorem hit_spec {limits : CacheLimits} {before after : List Event} {id : CallId} {req : Request}
    {now : Time} {d : Decision} {s : Sys K}
    (run : Run (step keyOf) (initial limits) (before ++ .got id req now (some d) :: after) s) :
    ∃ c : Cache K, CacheInv keyOf before c ∧ c.limits = limits ∧ c.closed = false ∧
      ∃ entry, c.lookup (keyOf req) = some entry ∧ entry.live = true ∧ entry.decision = d ∧
        c.fresh entry now = true := by
  obtain ⟨state, a, t, earlier, stepped, _, _⟩ := RunWhere.split run
  have inv := inv_run earlier.run
  have read := hit_of_effect (step_effect stepped)
  obtain ⟨_, _, hit⟩ := Cache.get_spec inv.cache.wellFormed (keyOf req) now
  obtain ⟨isOpen, entry, found⟩ := hit d read.symm
  exact ⟨state.cache, inv.cache, limits_run earlier.run, isOpen, entry, found⟩

/-- In every run, a hit is a cacheable allow that the decision point gave for the
same key text.  The call it answered took its stamp after the last flush and after
the last verdict for that key that was not a cacheable allow.  After `Close` there is no
hit and nothing is stored. -/
theorem no_stale_allow (isPrint : CodePoint → Bool) (sha256 : Bytes → K)
    (injective : Function.Injective sha256) (limits : CacheLimits) (es : List Event) (s : Sys K)
    (run : Run (step (cacheKey isPrint sha256)) (initial limits) es s)
    (few : bumps es < 2 ^ 64) :
    (∀ before after id req now d, es = before ++ .got id req now (some d) :: after →
      d.allowed = true ∧ d.cacheable = true ∧ d.isLocal = false ∧ .closed ∉ before ∧
      ∃ earlier between call stamp asked asker,
        before = earlier ++ .stamped call stamp asked :: between ∧
        Exchange call asker d between ∧ keyText isPrint asker = keyText isPrint req ∧
        .invalidated ∉ between ∧
        ∀ other verdictFor verdict, .observed other verdictFor verdict ∈ between →
          keyText isPrint verdictFor = keyText isPrint req →
          verdict.allowed = true ∧ verdict.cacheable = true) ∧
    (.closed ∈ es → s.cache.lru = [] ∧ ∀ key, s.cache.entries key = none) := by
  refine ⟨?_, nothing_kept (inv_run run).cache⟩
  rintro before after id req now d rfl
  obtain ⟨c, inv, _, isOpen, entry, found, live, rfl, _⟩ := hit_spec run
  obtain ⟨call, stamp, between, asker, ⟨earlier, placed, _⟩, exchange, keyed, storable, verdict,
    clean⟩ := inv.live _ _ found live
  have fewer : bumps before < 2 ^ 64 := by
    rw [bumps_append] at few
    omega
  obtain ⟨noFlush, noReject⟩ := clean fewer
  have parts := Bool.and_eq_true_iff.mp storable
  have notClosed : .closed ∉ before := by
    rw [inv.closed, isOpen]
    exact Bool.false_ne_true
  refine ⟨parts.1, parts.2, verdict, notClosed, earlier, between, call, stamp, entry.asked, asker, placed,
    exchange, injective keyed, noFlush, ?_⟩
  intro other verdictFor v member sameText
  have sameKey : cacheKey isPrint sha256 verdictFor = cacheKey isPrint sha256 req :=
    congrArg sha256 sameText
  have kept : v.storable = true := by
    by_contra refused
    exact noReject _ member ⟨sameKey, Bool.eq_false_iff.mpr refused⟩
  exact Bool.and_eq_true_iff.mp kept

/-! A run to apply the results to: one allow is stored, a flush drops it, a second
one is stored and read. -/

def isPrintAscii (r : CodePoint) : Bool := decide (0x20 ≤ r) && decide (r < 0x7F)

def sampleRequest (name : String) : Request :=
  { principalReference := ascii "principal-reference-1", action := ascii "repo.read"
    resourceType := ascii "repository", resourceKey := ascii "acme/" ++ ascii name
    organizationID := ascii "org-1", requestID := [] }

def sampleText (name : String) : Bytes :=
  ascii "\"principal-reference-1\",\"repo.read\",\"repository\",\"acme/" ++ ascii name ++
    ascii "\",\"org-1\""

/-- SHA-256 on the key texts of two sample requests, and some injective digest
elsewhere. -/
def sampleDigest (text : Bytes) : Bytes :=
  if text = sampleText "api" then
    [120, 141, 95, 203, 63, 248, 104, 105, 134, 210, 1, 163, 222, 131, 192, 130,
      34, 55, 165, 177, 198, 65, 160, 222, 35, 209, 111, 223, 130, 220, 55, 41]
  else if text = sampleText "web" then
    [234, 238, 114, 169, 155, 224, 161, 243, 189, 203, 216, 174, 73, 130, 103, 69,
      171, 0, 253, 163, 96, 36, 252, 15, 109, 156, 81, 83, 110, 104, 40, 18]
  else List.replicate 33 0 ++ text

theorem sampleDigest_injective : Function.Injective sampleDigest := by
  intro a b same
  unfold sampleDigest at same
  have lengths := congrArg List.length same
  split_ifs at same lengths with aApi bApi bWeb aWeb bApi bWeb bApi bWeb
  · rw [aApi, bApi]
  · simp at same
  · simp at lengths
  · simp at same
  · rw [aWeb, bWeb]
  · simp at lengths
  · simp at lengths
  · simp at lengths
  · exact List.append_cancel_left same

def sampleAllow (revision : Nat) : Decision :=
  fromWire
    { allowed := true, reason := .allowedByRole, decisionID := [], principalID := []
      organization := ascii "org-1", hasOrg := true, policyRevision := revision
      expiresAt := Time.unix 100, cacheable := true
      obligations := newObligations ObligationSpec.zero }

def sampleLimits : CacheLimits := .ofEntries 2 (by decide)

/-- The steps of a `Decide` call that misses and is answered. -/
def missActions (id : CallId) (d : Decision) (start : Int) : List Action :=
  [.start id (.decide (sampleRequest "api")), .locked id (Time.unix start), .locked id (Time.unix start),
    .send id, .answer id [d], .locked id (Time.unix (start + 1)), .finish id]

def missEvents (id : CallId) (d : Decision) (stamp : Nat) (start : Int) : List Event :=
  [.started id, .got id (sampleRequest "api") (Time.unix start) none,
    .stamped id stamp (Time.unix start), .sent id [sampleRequest "api"],
    .answered id [(sampleRequest "api", d)], .observed id (sampleRequest "api") d,
    .returned id [d] [] [0]]

def sampleActions : List Action :=
  missActions 1 (sampleAllow 5) 10 ++ .invalidateAll :: missActions 2 (sampleAllow 6) 20 ++
    [.start 3 (.decide (sampleRequest "api")), .locked 3 (Time.unix 30)]

def sampleHistory : List Event :=
  missEvents 1 (sampleAllow 5) 0 10 ++ .invalidated :: missEvents 2 (sampleAllow 6) 1 20 ++
    [.started 3]

theorem sample_run : ∃ s, Run (step (cacheKey isPrintAscii sampleDigest)) (initial sampleLimits)
    (sampleHistory ++ [.got 3 (sampleRequest "api") (Time.unix 30) (some (sampleAllow 6))]) s := by
  apply exists_run sampleActions
  decide +kernel

theorem no_stale_allow_after_flush :
    ∃ earlier between call stamp asked asker,
      sampleHistory = earlier ++ .stamped call stamp asked :: between ∧
      Exchange call asker (sampleAllow 6) between ∧
      keyText isPrintAscii asker = keyText isPrintAscii (sampleRequest "api") ∧ .invalidated ∉ between := by
  obtain ⟨s, run⟩ := sample_run
  have few : bumps (sampleHistory ++ [.got 3 (sampleRequest "api") (Time.unix 30) (some (sampleAllow 6))]) <
      2 ^ 64 := by decide +kernel
  obtain ⟨hits, _⟩ := no_stale_allow isPrintAscii sampleDigest sampleDigest_injective sampleLimits
    _ s run few
  obtain ⟨_, _, _, _, earlier, between, call, stamp, asked, asker, placed, exchange, sameText,
    noFlush, _⟩ := hits sampleHistory [] 3 (sampleRequest "api") (Time.unix 30) (sampleAllow 6) rfl
  exact ⟨earlier, between, call, stamp, asked, asker, placed, exchange, sameText, noFlush⟩

/-- In every run, a hit at reading `now` is inside the window of its call: not
before the reading taken ahead of the send, before that reading plus the lifetime,
and before its expiry.  No observed verdict has a higher revision. -/
theorem hit_is_fresh (keyOf : Request → K) (limits : CacheLimits) (es : List Event) (s : Sys K)
    (run : Run (step keyOf) (initial limits) es s) (before after : List Event) (id : CallId)
    (req : Request) (now : Time) (d : Decision)
    (hit : es = before ++ .got id req now (some d) :: after) :
    (∃ earlier between call stamp asked asker,
      before = earlier ++ .stamped call stamp asked :: between ∧
      Exchange call asker d between ∧ keyOf asker = keyOf req ∧
      now.before asked = false ∧ now.before (asked.add limits.maxTTL) = true) ∧
    now.before d.expiresAt = true ∧
    ∀ other verdictFor verdict, .observed other verdictFor verdict ∈ before →
      verdict.policyRevision ≤ d.policyRevision := by
  subst hit
  obtain ⟨c, inv, sameLimits, _, entry, found, live, rfl, fresh⟩ := hit_spec run
  obtain ⟨call, stamp, between, asker, ⟨earlier, placed, _⟩, exchange, keyed, _⟩ :=
    inv.live _ _ found live
  simp only [Cache.fresh, Bool.and_eq_true, decide_eq_true_eq, sameLimits] at fresh
  obtain ⟨⟨⟨notBack, inWindow⟩, notExpired⟩, aboveWatermark⟩ := fresh
  have small : limits.maxTTL ≤ maxDuration := limits.ttl_le.trans (by decide)
  refine ⟨⟨earlier, between, call, stamp, entry.asked, asker, placed, exchange, keyed,
    Time.not_before_of_sub_nonneg _ _ notBack, Time.before_add_of_sub_lt _ _ _ small inWindow⟩,
    notExpired, ?_⟩
  intro other verdictFor verdict member
  exact (inv.watermark other verdictFor verdict member).trans aboveWatermark

theorem hit_is_fresh_after_flush :
    (∃ earlier between call stamp asked asker,
      sampleHistory = earlier ++ .stamped call stamp asked :: between ∧
      Exchange call asker (sampleAllow 6) between ∧
      cacheKey isPrintAscii sampleDigest asker = cacheKey isPrintAscii sampleDigest (sampleRequest "api") ∧
      (Time.unix 30).before asked = false ∧
      (Time.unix 30).before (asked.add sampleLimits.maxTTL) = true) ∧
    (Time.unix 30).before (sampleAllow 6).expiresAt = true ∧
    ∀ other verdictFor verdict, .observed other verdictFor verdict ∈ sampleHistory →
      verdict.policyRevision ≤ (sampleAllow 6).policyRevision := by
  obtain ⟨s, run⟩ := sample_run
  exact hit_is_fresh (cacheKey isPrintAscii sampleDigest) sampleLimits _ s run sampleHistory [] 3
    (sampleRequest "api") (Time.unix 30) (sampleAllow 6) rfl

end DevHealth.Pep.System

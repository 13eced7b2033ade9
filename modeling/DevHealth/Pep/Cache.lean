import DevHealth.Pep.Decision
import Mathlib.Logic.Function.Basic

/-! # The bounded allow-only decision cache

The state of a `CachedClient` behind its mutex and its locked sections, one
function for each.  A list element is a number, `value` is what the element holds
and `entries` maps a key to its element, so the map and the recency list are two
structures here as they are in the source.  `seq`, `guard`, `floor` and
`lastFlush` are 64-bit counters; only `seq` is ever incremented.  A clock reading
that a section takes is an argument of its function. -/
set_option autoImplicit false
namespace DevHealth.Pep

open Go

def defaultCacheEntries : Nat := 10000
def defaultCacheTTL : Int := 30 * nanosPerSecond

structure CacheConfig where
  maxEntries : Int
  maxTTL : Int
  deriving DecidableEq, Repr

/-- The bounds of a cache that `newCachedClient` accepted. -/
structure CacheLimits where
  maxEntries : Nat
  maxTTL : Int
  entries_pos : 0 < maxEntries
  ttl_pos : 0 < maxTTL
  ttl_le : maxTTL ≤ defaultCacheTTL

/-- The longest lifetime, with room for so many elements. -/
def CacheLimits.ofEntries (n : Nat) (pos : 0 < n) : CacheLimits :=
  ⟨n, defaultCacheTTL, pos, by decide, le_refl _⟩

def newCachedClient (cfg : CacheConfig) : Except String CacheLimits :=
  if negative : cfg.maxEntries < 0 then .error "pep: MaxEntries must not be negative"
  else if outside : cfg.maxTTL < 0 ∨ cfg.maxTTL > defaultCacheTTL then
    .error "pep: MaxTTL must be between 0 and 30s"
  else
    .ok
      { maxEntries := if cfg.maxEntries = 0 then defaultCacheEntries else cfg.maxEntries.toNat
        maxTTL := if cfg.maxTTL = 0 then defaultCacheTTL else cfg.maxTTL
        entries_pos := by
          split
          · decide
          · omega
        ttl_pos := by
          split
          · decide
          · omega
        ttl_le := by
          split
          · exact le_refl _
          · omega }

abbrev ElementId := Nat

structure CacheEntry (K : Type) where
  key : K
  live : Bool
  decision : Decision
  asked : Time
  guard : Nat

structure Cache (K : Type) where
  limits : CacheLimits
  value : ElementId → CacheEntry K
  entries : K → Option ElementId
  lru : List ElementId
  nextElement : ElementId
  allows : Int
  seq : Nat
  lastFlush : Nat
  floor : Nat
  watermark : Nat
  closed : Bool

namespace Cache

variable {K : Type}

/-- `&cacheEntry{key: key}` -/
def blankEntry (key : K) : CacheEntry K := ⟨key, false, Decision.zero, Time.zero, 0⟩

def empty [Inhabited K] (limits : CacheLimits) : Cache K :=
  { limits := limits, value := fun _ => blankEntry default, entries := fun _ => none, lru := []
    nextElement := 0, allows := 0, seq := 0, lastFlush := 0, floor := 0, watermark := 0
    closed := false }

/-- `c.seq++` on a `uint64`. -/
def bumpSeq (c : Cache K) : Cache K := { c with seq := (c.seq + 1) % 2 ^ 64 }

def clear (c : Cache K) : Cache K :=
  { c with entries := fun _ => none, lru := [], allows := 0 }

/-- `InvalidateAll`; `false` is `ErrCacheClosed`. -/
def invalidateAll (c : Cache K) : Cache K × Bool :=
  if c.closed then (c, false)
  else
    let bumped := c.bumpSeq
    (clear { bumped with lastFlush := bumped.seq }, true)

def close (c : Cache K) : Cache K := clear { c with closed := true }

def fresh (c : Cache K) (e : CacheEntry K) (now : Time) : Bool :=
  decide (0 ≤ now.sub e.asked) && decide (now.sub e.asked < c.limits.maxTTL) &&
    now.before e.decision.expiresAt && decide (c.watermark ≤ e.decision.policyRevision)

def kill (c : Cache K) (el : ElementId) : Cache K :=
  if (c.value el).live then
    { c with
      value := Function.update c.value el
        { c.value el with live := false, decision := Decision.zero }
      allows := c.allows - 1 }
  else c

def moveToFront (c : Cache K) (el : ElementId) : Cache K :=
  { c with lru := el :: c.lru.erase el }

variable [DecidableEq K]

def insert (c : Cache K) (key : K) : Cache K × ElementId :=
  ({ c with
      value := Function.update c.value c.nextElement (blankEntry key)
      lru := c.nextElement :: c.lru
      entries := Function.update c.entries key (some c.nextElement)
      nextElement := c.nextElement + 1 }, c.nextElement)

/-- One round of `bound`: the last element leaves, and its guard becomes a floor. -/
def evict (c : Cache K) (el : ElementId) : Cache K :=
  let killed := c.kill el
  let e := killed.value el
  { killed with
    floor := if e.guard > killed.floor then e.guard else killed.floor
    lru := killed.lru.erase el
    entries := Function.update killed.entries e.key none }

/-- `for c.lru.Len() > c.maxEntries`: every round removes one element, so the
length of the list is fuel enough. -/
def boundLoop : Nat → Cache K → Cache K
  | 0, c => c
  | fuel + 1, c =>
    if c.limits.maxEntries < c.lru.length then
      match c.lru.getLast? with
      | none => c
      | some el => boundLoop fuel (c.evict el)
    else c

def bound (c : Cache K) : Cache K := boundLoop c.lru.length c

def get (c : Cache K) (key : K) (now : Time) : Cache K × Option Decision :=
  match c.entries key with
  | none => (c, none)
  | some el =>
    if c.closed then (c, none)
    else if !(c.value el).live then (c, none)
    else if !c.fresh (c.value el) now then (c.kill el, none)
    else (c.moveToFront el, some (c.value el).decision)

/-- The sweep of `observe`: a verdict above the watermark kills every live entry
below it. -/
def raise (c : Cache K) (rev : Nat) : Cache K :=
  if c.watermark < rev then
    c.lru.foldl
      (fun c el =>
        if (c.value el).live && decide ((c.value el).decision.policyRevision < rev) then c.kill el
        else c)
      { c with watermark := rev }
  else c

def elementOf (c : Cache K) (key : K) : Cache K × ElementId :=
  match c.entries key with
  | some el => (c, el)
  | none => c.insert key

/-- The branch of `observe` for a verdict that is not a cacheable allow. -/
def tombstone (c : Cache K) (key : K) : Cache K :=
  let (placed, el) := c.bumpSeq.elementOf key
  let killed := placed.kill el
  (moveToFront
    { killed with
      value := Function.update killed.value el { killed.value el with guard := killed.seq } }
    el).bound

def admits (c : Cache K) (key : K) (d : Decision) (stamp : Nat) (asked now : Time) : Bool :=
  !(decide (stamp < c.lastFlush) || decide (stamp < c.floor)) &&
    !(match c.entries key with
      | some el => decide (stamp < (c.value el).guard)
      | none => false) &&
    c.fresh ⟨key, true, d, asked, 0⟩ now

def store (c : Cache K) (key : K) (d : Decision) (asked : Time) : Cache K :=
  let (placed, el) := c.elementOf key
  let old := placed.value el
  (moveToFront
    { placed with
      allows := if old.live then placed.allows else placed.allows + 1
      value := Function.update placed.value el ⟨key, true, d, asked, old.guard⟩ }
    el).bound

def observe (c : Cache K) (key : K) (d : Decision) (stamp : Nat) (asked now : Time) : Cache K :=
  if d.isLocal then c
  else if c.closed then c
  else
    let raised := c.raise d.policyRevision
    if !(d.allowed && d.cacheable) then raised.tombstone key
    else if raised.admits key d stamp asked now then raised.store key d asked
    else raised

/-- A decision read from the cache at one of the indexes is below the watermark. -/
def belowWatermark (c : Cache K) (out : List Decision) (idx : List Nat) : Bool :=
  idx.any fun i => decide ((out.getD i Decision.zero).policyRevision < c.watermark)

end Cache
end DevHealth.Pep

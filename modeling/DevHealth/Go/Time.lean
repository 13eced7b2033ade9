import Mathlib.Order.Basic
import Mathlib.Tactic.Linarith

/-! # Go instants, clock readings and durations

A `time.Time` holds a wall instant and, when it was read from the process clock,
a monotonic reading beside it.  Comparison and subtraction use the monotonic
readings when both operands carry one, and the wall instants otherwise.  Wall
instants and durations are nanoseconds; the wall origin is the Unix epoch.  A
subtraction saturates at the bounds of a 64-bit duration. -/
set_option autoImplicit false
namespace DevHealth.Go

def nanosPerSecond : Int := 1000000000

def maxDuration : Int := 2 ^ 63 - 1
def minDuration : Int := -2 ^ 63

/-- A setting that is zero takes its default. -/
def orDefault (value standard : Int) : Int := if value = 0 then standard else value

theorem orDefault_ne_zero {value standard : Int} (solid : standard ≠ 0) : orDefault value standard ≠ 0 := by
  unfold orDefault
  split <;> assumption

structure Time where
  wall : Int
  mono : Option Int
  deriving DecidableEq, Repr

namespace Time

/-- `time.Time{}`: the first instant of year 1, in UTC. -/
def zero : Time := ⟨-62135596800 * nanosPerSecond, none⟩

def ofNanos (wall : Int) : Time := ⟨wall, none⟩

def unix (seconds : Int) : Time := ofNanos (seconds * nanosPerSecond)

/-- `t - u` on the time line that the two operands share, before saturation. -/
def distance (t u : Time) : Int :=
  match t.mono, u.mono with
  | some a, some b => a - b
  | _, _ => t.wall - u.wall

def before (t u : Time) : Bool := decide (distance t u < 0)

def after (t u : Time) : Bool := decide (0 < distance t u)

def sub (t u : Time) : Int := max minDuration (min maxDuration (distance t u))

def add (t : Time) (d : Int) : Time := ⟨t.wall + d, t.mono.map (· + d)⟩

def earlier (t u : Time) : Time := if t.before u then t else u

/-- `t.Unix()`: whole seconds, rounded down. -/
def unixSeconds (t : Time) : Int := t.wall / nanosPerSecond

/-- The seconds of the instant, with so many added or taken away, are 64-bit integers.  With
none, these are the instants that a `time.Time` holds. -/
def SecondsFit (t : Time) (leeway : Int) : Prop :=
  -2 ^ 63 ≤ t.unixSeconds - leeway ∧ t.unixSeconds + leeway < 2 ^ 63

theorem SecondsFit.wraps {t : Time} {leeway : Int} (fits : t.SecondsFit leeway) (nonneg : 0 ≤ leeway) :
    (t.unixSeconds + leeway).bmod (2 ^ 64) = t.unixSeconds + leeway ∧
      (t.unixSeconds - leeway).bmod (2 ^ 64) = t.unixSeconds - leeway := by
  obtain ⟨low, high⟩ := fits
  exact ⟨Int.bmod_eq_of_le (by omega) (by omega), Int.bmod_eq_of_le (by omega) (by omega)⟩

theorem distance_add (t u : Time) (d : Int) : distance t (u.add d) = distance t u - d := by
  obtain ⟨tw, tm⟩ := t
  obtain ⟨uw, um⟩ := u
  cases tm <;> cases um <;> simp only [distance, add, Option.map] <;> omega

theorem distance_swap (t u : Time) : distance u t = -distance t u := by
  obtain ⟨tw, tm⟩ := t
  obtain ⟨uw, um⟩ := u
  cases tm <;> cases um <;> simp only [distance] <;> omega

theorem distance_self (t : Time) : distance t t = 0 := by
  have same := distance_swap t t
  omega

/-- A non-negative saturated difference is a true non-negative difference. -/
theorem not_before_of_sub_nonneg (t u : Time) (nonneg : 0 ≤ sub t u) : before t u = false := by
  simp only [sub, minDuration, maxDuration] at nonneg
  simp only [before, decide_eq_false_iff_not]
  omega

/-- A saturated difference below a duration is a true difference below it: the
upper bound of the saturation is the largest duration there is. -/
theorem before_add_of_sub_lt (t u : Time) (d : Int) (small : d ≤ maxDuration)
    (lt : sub t u < d) : before t (u.add d) = true := by
  simp only [sub, minDuration, maxDuration] at lt small
  simp only [before, distance_add, decide_eq_true_eq]
  omega

theorem le_distance_of_le_sub {t u : Time} {d : Int} (positive : 0 < d) (le : d ≤ sub t u) :
    d ≤ distance t u := by
  simp only [sub, minDuration, maxDuration] at le
  omega

theorem le_sub_of_le_distance {t u : Time} {d : Int} (small : d ≤ maxDuration)
    (le : d ≤ distance t u) : d ≤ sub t u := by
  simp only [sub, minDuration, maxDuration] at small ⊢
  omega

/-- Two readings of one clock that does not go back, in the order they were made: on one
time line, and the second not before the first. -/
structure NotAfter (t u : Time) : Prop where
  line : t.mono.isSome = u.mono.isSome
  order : 0 ≤ distance u t

instance (t u : Time) : Decidable (NotAfter t u) :=
  decidable_of_iff (t.mono.isSome = u.mono.isSome ∧ 0 ≤ distance u t)
    ⟨fun both => ⟨both.1, both.2⟩, fun order => ⟨order.line, order.order⟩⟩

theorem distance_trans {t u v : Time} (first : t.mono.isSome = u.mono.isSome)
    (second : u.mono.isSome = v.mono.isSome) : distance t v = distance t u + distance u v := by
  obtain ⟨tw, tm⟩ := t
  obtain ⟨uw, um⟩ := u
  obtain ⟨vw, vm⟩ := v
  cases tm <;> cases um <;> cases vm <;> simp at first second <;> simp only [distance] <;> omega

theorem distance_unix (t : Time) (seconds : Int) :
    distance t (unix seconds) = t.wall - seconds * nanosPerSecond := by
  obtain ⟨wall, mono⟩ := t
  cases mono <;> rfl

theorem unix_distance (seconds : Int) (t : Time) :
    distance (unix seconds) t = seconds * nanosPerSecond - t.wall := rfl

theorem before_unix (t : Time) (seconds : Int) :
    before t (unix seconds) = decide (t.unixSeconds < seconds) := by
  rw [before, distance_unix]
  apply decide_eq_decide.mpr
  simp only [unixSeconds, nanosPerSecond]
  omega

end Time
end DevHealth.Go

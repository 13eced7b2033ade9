import DevHealth.Go.Time
import Mathlib.Tactic.Ring

/-! # The delay before a retry

`retryDelay` shifts in 64 bits and caps afterwards.  The base is an odd multiple of `2 ^ 8`,
so a product that no longer fits is zero, negative or above the cap. -/
set_option autoImplicit false
namespace DevHealth.Llm

open Go

/-- `x << count` of a 64-bit integer. -/
def shiftLeft (x : Int) (count : Nat) : Int :=
  if count < 64 then (x * 2 ^ count).bmod (2 ^ 64) else 0

def millisecond : Int := 1000000
def baseRetryDelay : Int := 500 * millisecond
def maxRetryDelay : Int := 30 * nanosPerSecond

/-- `uint(attempt)` is the residue of the `int` modulo `2 ^ 64`. -/
def retryDelay (attempt : Int) : Int :=
  let delay := shiftLeft baseRetryDelay (attempt % 2 ^ 64).toNat
  if maxRetryDelay < delay ∨ delay ≤ 0 then maxRetryDelay else delay

theorem dvd_shiftLeft (x : Int) {count : Nat} {d : Int} (divides : d ∣ x * 2 ^ count)
    (power : d ∣ 2 ^ 64) : d ∣ shiftLeft x count := by
  unfold shiftLeft
  split
  · rw [Int.bmod_eq_self_sub_mul_bdiv]
    exact Int.dvd_sub divides (dvd_mul_of_dvd_left power _)
  · exact dvd_zero d

/-- From the 27th doubling on the shift is a multiple of `2 ^ 35`, which is above the cap. -/
theorem shiftLeft_late {count : Nat} (late : 27 ≤ count) :
    maxRetryDelay < shiftLeft baseRetryDelay count ∨ shiftLeft baseRetryDelay count ≤ 0 := by
  obtain ⟨more, rfl⟩ := Nat.exists_eq_add_of_le late
  have factor : baseRetryDelay * 2 ^ (27 + more) = 2 ^ 35 * (5 ^ 9 * 2 ^ more) := by
    rw [baseRetryDelay, millisecond]
    ring
  have multiple : (2 ^ 35 : Int) ∣ shiftLeft baseRetryDelay (27 + more) :=
    dvd_shiftLeft _ (factor ▸ dvd_mul_right _ _) (pow_dvd_pow 2 (by decide))
  obtain ⟨k, product⟩ := multiple
  have cap : maxRetryDelay = 30000000000 := rfl
  omega

theorem shiftLeft_early {count : Nat} (early : count < 27) :
    shiftLeft baseRetryDelay count = baseRetryDelay * 2 ^ count := by
  have power : (2 : Int) ^ count ≤ 2 ^ 26 := pow_le_pow_right₀ (by norm_num) (by omega)
  have positive : (0 : Int) < 2 ^ count := by positivity
  rw [shiftLeft, if_pos (by omega), baseRetryDelay, millisecond]
  exact Int.bmod_eq_of_le (by omega) (by omega)

/-- For every attempt that an `int` can count the delay doubles up to the cap. -/
theorem retryDelay_eq {attempt : Int} (counted : 0 ≤ attempt) (int : attempt < 2 ^ 63) :
    retryDelay attempt =
      min (500 * millisecond * 2 ^ attempt.toNat) (30 * nanosPerSecond) := by
  obtain ⟨count, rfl⟩ := Int.eq_ofNat_of_zero_le counted
  have residue : ((count : Int) % 2 ^ 64).toNat = count := by omega
  rw [retryDelay, residue, Int.toNat_natCast]
  change _ = min (baseRetryDelay * 2 ^ count) maxRetryDelay
  have base : baseRetryDelay = 500000000 := rfl
  have cap : maxRetryDelay = 30000000000 := rfl
  by_cases early : count < 27
  · have positive : (0 : Int) < 2 ^ count := by positivity
    have fits := shiftLeft_early early
    rw [base] at fits ⊢
    simp only [fits]
    split <;> omega
  · have power : (2 : Int) ^ 27 ≤ 2 ^ count := pow_le_pow_right₀ (by norm_num) (by omega)
    have above : maxRetryDelay ≤ baseRetryDelay * 2 ^ count := by
      rw [base]
      omega
    simp only [if_pos (shiftLeft_late (not_lt.mp early)), min_eq_right above]

/-- The largest `int`: the shift is 0 there. -/
theorem retryDelay_largest :
    retryDelay (2 ^ 63 - 1) =
      min (500 * millisecond * 2 ^ (2 ^ 63 - 1 : Int).toNat) (30 * nanosPerSecond) :=
  retryDelay_eq (by decide) (by decide)

end DevHealth.Llm

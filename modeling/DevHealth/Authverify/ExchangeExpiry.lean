import DevHealth.Authverify.ExchangeService

/-! # What an exchange says about the lifetime that is left

`ExpiresIn` is counted from this host's clock to the issuer's `ExpiresAt`.  The checks of the
lifetime compare the issuer's dates with each other and with the token's, in whole seconds;
none of them looks at the clock, nor at the part of a second in `ExpiresAt`. -/
set_option autoImplicit false
namespace DevHealth.Authverify

open Go Lib

variable {W E : Type}

/-- What the issuer answered in an exchange, and the world in which the clock is read
after it. -/
structure Issuance (seams : Seams W E) (subjectToken : Bytes) (requestedScope : List Bytes)
    (w : W) (issued : IssuedToken) (w₃ : W) : Prop where
  issue : ∃ identity binding scope w₁ w₂,
    seams.validate subjectToken w = (.ok identity, w₁) ∧
    seams.resolve identity w₁ = (.ok binding, w₂) ∧
    resolveRequestedScope (E := E) binding requestedScope = .ok scope ∧
    seams.issue binding scope identity.expiresAt w₂ = (.ok issued, w₃)

/-- At most five minutes are said to be left and, for a token in the shape of a JWT, at
most the time from the reading to its `exp`. -/
def NotOverstated (folding : CaseFolding) (issued : IssuedToken) (now : Time)
    (expiresIn : Int) : Prop :=
  (0 ≤ expiresIn ∧ expiresIn ≤ 300) ∧
    ∀ header payload signature iat exp,
      splitCompact issued.token = some (header, payload, signature) →
      tokenLifetimeClaims folding payload = some (iat, exp) →
        expiresIn * nanosPerSecond ≤ max 0 (exp * nanosPerSecond - now.wall)

/-- From the reading to the second in which the issuer's `ExpiresAt` lies. -/
def toExpirySecond (expiresAt now : Time) : Int :=
  expiresAt.unixSeconds * nanosPerSecond - now.wall

/-- The reading and the issuer's dates fit together: `ExpiresAt` is less than 301 seconds
away and, for a token in the shape of a JWT, less than one second away, or else its second
is not past and what it lies after that second does not fill up the part of a second that
is left until then. -/
def Punctual (issued : IssuedToken) (expiresAt now : Time) : Prop :=
  expiresAt.distance now < 301 * nanosPerSecond ∧
    ((splitCompact issued.token).isSome = true →
      expiresAt.distance now < nanosPerSecond ∨
        0 ≤ toExpirySecond expiresAt now ∧
          toExpirySecond expiresAt now % nanosPerSecond +
            (expiresAt.distance now - toExpirySecond expiresAt now) < nanosPerSecond)

theorem expiresIn_max (expiresAt now : Time) :
    expiresIn expiresAt now = max 0 (expiresAt.sub now) / nanosPerSecond := by
  rw [expiresIn]
  split_ifs with positive
  · rw [max_eq_right positive.le]
  · rw [max_eq_left (not_lt.mp positive), Int.zero_ediv]

theorem expiresIn_nonneg (expiresAt now : Time) : 0 ≤ expiresIn expiresAt now := by
  rw [expiresIn_max]
  exact Int.ediv_nonneg (le_max_left _ _) (by decide)

theorem expiresIn_le_iff (expiresAt now : Time) :
    expiresIn expiresAt now ≤ 300 ↔ expiresAt.distance now < 301 * nanosPerSecond := by
  rw [expiresIn_max]
  simp only [Time.sub, minDuration, maxDuration, nanosPerSecond]
  omega

/-- Below 301 seconds nothing is cut off at the upper bound of a duration. -/
theorem expiresIn_eq {expiresAt now : Time} (near : expiresAt.distance now < 301 * nanosPerSecond) :
    expiresIn expiresAt now = max 0 (expiresAt.distance now) / nanosPerSecond := by
  rw [expiresIn_max]
  simp only [Time.sub, minDuration, maxDuration, nanosPerSecond] at near ⊢
  omega

theorem wholeSeconds_le_iff (distance left : Int) :
    max 0 distance / nanosPerSecond * nanosPerSecond ≤ max 0 left ↔ distance < nanosPerSecond ∨
        0 ≤ left ∧ left % nanosPerSecond + (distance - left) < nanosPerSecond := by
  simp only [nanosPerSecond]
  omega

/-- The token's own `exp` is the second of the issuer's `ExpiresAt`, so the two conditions
say the same about every token the check lets through. -/
theorem notOverstated_iff {folding : CaseFolding} {issued : IssuedToken} {issuedAt expiresAt now : Time}
    (checked : checkIssuedLifetime (E := E) folding issued = .ok (issuedAt, expiresAt)) :
    NotOverstated folding issued now (expiresIn expiresAt now) ↔ Punctual issued expiresAt now := by
  obtain ⟨-, -, told⟩ := checkIssuedLifetime_ok checked
  rw [NotOverstated, Punctual, ← expiresIn_le_iff]
  constructor
  · intro kept
    obtain ⟨⟨-, short⟩, untilExp⟩ := kept
    refine ⟨short, ?_⟩
    intro shaped
    obtain ⟨⟨header, payload, signature⟩, split⟩ := Option.isSome_iff_exists.mp shaped
    have seconds := untilExp header payload signature _ _ split (told header payload signature split).1
    rw [expiresIn_eq ((expiresIn_le_iff expiresAt now).mp short)] at seconds
    exact (wholeSeconds_le_iff _ _).mp seconds
  · intro punctual
    obtain ⟨short, shaped⟩ := punctual
    refine ⟨⟨expiresIn_nonneg expiresAt now, short⟩, ?_⟩
    intro header payload signature iat exp split claimed
    rw [(told header payload signature split).1] at claimed
    cases claimed
    rw [expiresIn_eq ((expiresIn_le_iff expiresAt now).mp short)]
    apply (wholeSeconds_le_iff _ _).mpr
    apply shaped
    rw [split]
    rfl

theorem exchange_expiresIn {folding : CaseFolding} {seams : Seams W E} {subjectToken : Bytes}
    {requestedScope : List Bytes} {w w' w₃ : W} {result : WorkloadTokenExchangeResult}
    {issued : IssuedToken}
    (success : exchange folding seams subjectToken requestedScope w = (.ok result, w'))
    (issuance : Issuance seams subjectToken requestedScope w issued w₃) :
    ∃ issuedAt expiresAt, checkIssuedLifetime (E := E) folding issued = .ok (issuedAt, expiresAt) ∧
        result.expiresIn = expiresIn expiresAt (seams.now w₃).1 := by
  obtain ⟨identity, binding, scope, w₁, w₂, validated, resolved, narrowed, issue⟩ := issuance.issue
  rw [exchange, validated] at success
  simp only [resolved, narrowed, issue] at success
  cases checked : checkIssuedLifetime (E := E) folding issued with
  | error e =>
    rw [checked] at success
    cases success
  | ok dates =>
    obtain ⟨issuedAt, expiresAt⟩ := dates
    rw [checked] at success
    cases success
    exact ⟨issuedAt, expiresAt, rfl, rfl⟩

/-- A successful exchange does not overstate the lifetime that is left exactly when the
reading and the issuer's `ExpiresAt` fit together. -/
theorem expiresIn_exact_iff {folding : CaseFolding} {seams : Seams W E} {subjectToken : Bytes}
    {requestedScope : List Bytes} {w w' w₃ : W} {result : WorkloadTokenExchangeResult}
    {issued : IssuedToken} {expiresAt : Time}
    (success : exchange folding seams subjectToken requestedScope w = (.ok result, w'))
    (issuance : Issuance seams subjectToken requestedScope w issued w₃)
    (told : issued.expiresAt = some expiresAt) :
    NotOverstated folding issued (seams.now w₃).1 result.expiresIn ↔
      Punctual issued expiresAt (seams.now w₃).1 := by
  obtain ⟨issuedAt, expires, checked, counted⟩ := exchange_expiresIn success issuance
  obtain ⟨-, toldHere, -⟩ := checkIssuedLifetime_ok checked
  rw [told] at toldHere
  cases toldHere
  rw [counted]
  exact notOverstated_iff checked

/-! ## A clock behind the issuer's, and parts of a second -/

/-- An issuer of the token with the dates 1000 and 1300, and a reading of the clock. -/
def mintingSeams (expiresAt now : Time) : Seams Unit Unit where
  validate _ w := (.ok ⟨[], [], [], [], Time.unix 5000⟩, w)
  resolve _ w := (.ok ⟨[], [], [ascii "a"], []⟩, w)
  issue _ _ _ w := (.ok ⟨mintedToken, some (Time.unix 1000), some expiresAt⟩, w)
  now w := (now, w)

theorem mintingSeams_issuance (expiresAt now : Time) : Issuance (mintingSeams expiresAt now) (ascii "s") [] ()
      ⟨mintedToken, some (Time.unix 1000), some expiresAt⟩ () :=
  ⟨⟨_, _, [ascii "a"], (), (), rfl, rfl, rfl, rfl⟩⟩

theorem mintedToken_shaped : (splitCompact mintedToken).isSome = true := by decide +kernel

/-- With `ExpiresAt` on a whole second, a reading in the lifetime is answered exactly. -/
theorem minted_not_overstated :
    NotOverstated asciiFolding ⟨mintedToken, some (Time.unix 1000), some (Time.unix 1300)⟩
      (Time.ofNanos 1010500000000) 289 := by
  have success : exchange asciiFolding
      (mintingSeams (Time.unix 1300) (Time.ofNanos 1010500000000)) (ascii "s") [] () =
        (.ok ⟨mintedToken, 289, [ascii "a"]⟩, ()) := by decide +kernel
  refine (expiresIn_exact_iff success (mintingSeams_issuance _ _) rfl).mpr ⟨by decide, ?_⟩
  intro _
  exact Or.inr (by decide)

/-- A clock that is behind the issuer's by 990 seconds makes 1290 seconds of the 300, and
nine tenths of a second in `ExpiresAt` make 300 of 299.5. -/
theorem minted_overstated :
    (exchange asciiFolding (mintingSeams (Time.unix 1300) (Time.unix 10)) (ascii "s") [] () =
        (.ok ⟨mintedToken, 1290, [ascii "a"]⟩, ()) ∧
      ¬ NotOverstated asciiFolding
        ⟨mintedToken, some (Time.unix 1000), some (Time.unix 1300)⟩ (Time.unix 10) 1290) ∧
    exchange asciiFolding
        (mintingSeams (Time.ofNanos 1300900000000) (Time.ofNanos 1000500000000)) (ascii "s") [] () =
          (.ok ⟨mintedToken, 300, [ascii "a"]⟩, ()) ∧
      ¬ NotOverstated asciiFolding
        ⟨mintedToken, some (Time.unix 1000), some (Time.ofNanos 1300900000000)⟩
        (Time.ofNanos 1000500000000) 300 := by
  refine ⟨⟨by decide +kernel, ?_⟩, by decide +kernel, ?_⟩
  · intro kept
    have short := kept.1.2
    omega
  · have checked : checkIssuedLifetime (E := Unit) asciiFolding
        ⟨mintedToken, some (Time.unix 1000), some (Time.ofNanos 1300900000000)⟩ =
          .ok (Time.unix 1000, Time.ofNanos 1300900000000) := by decide +kernel
    have counted : expiresIn (Time.ofNanos 1300900000000) (Time.ofNanos 1000500000000) = 300 := by
      decide
    intro kept
    rw [← counted] at kept
    have late := ((notOverstated_iff checked).mp kept).2 mintedToken_shaped
    revert late
    decide

end DevHealth.Authverify

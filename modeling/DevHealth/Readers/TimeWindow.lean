import DevHealth.Readers.TimeBound

/-! # Rows in a time window

The predicate of a `TimeBound` on a `DateTime64` column, with the parameters that
`translateBindings` sends for it and the server reads as `DateTime64(6)`.  The window is a
matter of nanoseconds, its text of milliseconds: the upper end loses nothing by that, and
the lower end takes in the millisecond it lies in. -/
set_option autoImplicit false
namespace DevHealth.Readers

open Go Lib Lib.Sql Clickhouse

variable {κ : Type}

/-- A `TimeBound` with its `Start` and `End`. -/
structure TimeWindow extends TimeBound where
  start : Time
  endTime : Time

namespace TimeWindow

def bindings (b : TimeWindow) : List Binding :=
  if b.active then
    ⟨ascii boundEndParam, .time b.endTime⟩ ::
      if b.hasStart then [⟨ascii boundStartParam, .time b.start⟩] else []
  else []

/-- `Start <= t <= End` for a timestamp of milliseconds; without a start, its second half. -/
def Within (b : TimeWindow) (milliseconds : Int) : Prop :=
  milliseconds * 1000000 ≤ b.endTime.wall ∧
    (b.hasStart = true → b.start.wall ≤ milliseconds * 1000000)

end TimeWindow

/-! ## The server's reading of a parameter -/

/-- The years a `DateTime64` can hold. -/
def Supported (t : Time) : Prop := 1900 ≤ t.civil.year ∧ t.civil.year ≤ 2299

/-- A reading of texts as `DateTime64(6,'UTC')`, in microseconds since the epoch: a date and
a time of day with three digits of fraction are that instant. -/
def ReadsDateTime64 (read : Bytes → Option Int) : Prop :=
  ∀ c : Civil, c.Proper → 1900 ≤ c.year → c.year ≤ 2299 →
    read c.formatMillis = some (c.instant.wall / 1000000 * 1000)

/-- The server has the parameters that are sent for the bindings of the window. -/
def Sent (read : Bytes → Option Int) (b : TimeWindow) (env : Env κ) : Prop :=
  ∃ parameters, translateBindings b.bindings = .ok parameters ∧
    ∀ name text, parameters.lookup (ascii name) = some text →
      env.param name = (read text).map Value.micros

/-- Beside any other condition of a statement, the predicate keeps exactly the rows whose
timestamp is in the window. -/
def SelectsWindow (read : Bytes → Option Int) (b : TimeWindow) : Prop :=
  ∀ (κ : Type) (env : Env κ) (base column : Text κ) (milliseconds : Int),
    Sent read b env → Readable .conj base → Denotes env .prim column (.time milliseconds) →
      (holds env (base ++ b.timestampPredicate column) = true ↔
        holds env base = true ∧ b.Within milliseconds)

def millis (t : Time) : Int := t.wall / 1000000

theorem formatted_read {read : Bytes → Option Int} (reads : ReadsDateTime64 read) {t : Time}
    (supported : Supported t) : read t.formatMillis = some (millis t * 1000) := by
  obtain ⟨low, high⟩ := supported
  obtain ⟨proper, instant⟩ := t.civil_spec (by omega)
  rw [Time.formatMillis, reads t.civil proper low high, instant]
  rfl

theorem bindings_translated {b : TimeWindow} (active : b.active = true) : translateBindings b.bindings =
      .ok ((ascii boundEndParam, b.endTime.formatMillis) ::
        if b.hasStart then [(ascii boundStartParam, b.start.formatMillis)] else []) := by
  have endName : bindingName.accepts (ascii boundEndParam) = true := by decide +kernel
  have startName : bindingName.accepts (ascii boundStartParam) = true := by decide +kernel
  have apart : (ascii boundStartParam == ascii boundEndParam) = false := by decide
  rw [TimeWindow.bindings, if_pos active, translateBindings]
  cases b.hasStart with
  | false =>
    simp [translateLoop, endName, clickHouseParameter]
  | true =>
    simp [translateLoop, endName, startName, clickHouseParameter, List.lookup_cons, apart]

section Predicate

variable {read : Bytes → Option Int} {b : TimeWindow} {env : Env κ}

theorem sent_end (reads : ReadsDateTime64 read) (active : b.active = true)
    (supported : Supported b.endTime) (sent : Sent read b env) :
    env.param boundEndParam = some (.micros (millis b.endTime * 1000)) := by
  obtain ⟨parameters, translated, params⟩ := sent
  rw [bindings_translated active] at translated
  cases translated
  rw [params boundEndParam b.endTime.formatMillis List.lookup_cons_self,
    formatted_read reads supported, Option.map_some]

theorem sent_start (reads : ReadsDateTime64 read) (active : b.active = true)
    (begins : b.hasStart = true) (supported : Supported b.start) (sent : Sent read b env) :
    env.param boundStartParam = some (.micros (millis b.start * 1000)) := by
  obtain ⟨parameters, translated, params⟩ := sent
  rw [bindings_translated active, if_pos begins] at translated
  cases translated
  have apart : (ascii boundStartParam == ascii boundEndParam) = false := by decide
  rw [params boundStartParam b.start.formatMillis (by simp [List.lookup_cons, apart]),
    formatted_read reads supported, Option.map_some]

/-- What the predicate lets through: the ends of the window count by their milliseconds. -/
theorem predicate_holds (reads : ReadsDateTime64 read) (active : b.active = true)
    (startSupported : b.hasStart = true → Supported b.start) (endSupported : Supported b.endTime)
    (sent : Sent read b env) {base column : Text κ} {milliseconds : Int}
    (readable : Readable .conj base)
    (timestamp : Denotes env .prim column (.time milliseconds)) :
    holds env (base ++ b.timestampPredicate column) = true ↔
      holds env base = true ∧ milliseconds ≤ millis b.endTime ∧
        (b.hasStart = true → millis b.start ≤ milliseconds) := by
  have bound : b.Bound ⟨millis b.start * 1000, millis b.endTime * 1000⟩ env :=
    ⟨fun _ => sent_end reads active endSupported sent,
      fun _ begins => sent_start reads active begins (startSupported begins) sent⟩
  rw [TimeBound.timestampPredicate_holds bound timestamp readable, TimeBound.passesTimestamp, active]
  simp only [Bool.not_true, Bool.false_or, Bool.and_eq_true, Bool.or_eq_true, decide_eq_true_eq, Bool.not_eq_eq_eq_not]
  apply and_congr_right
  intro _
  apply and_congr
  · omega
  · cases b.hasStart <;> simp

end Predicate

/-! ## When the window is exact -/

/-- A server with one timestamp column and the parameters of the window. -/
def timestampEnv (engine : Engine) (milliseconds : Int) (param : String → Option Value) :
    Env Unit where
  engine := engine
  column := fun _ => some (.time milliseconds)
  param := param
  subquery := fun _ => none

def sentParam (read : Bytes → Option Int) (parameters : Parameters) (name : String) :
    Option Value :=
  (parameters.lookup (ascii name)).bind fun text => (read text).map Value.micros

theorem exists_sent (read : Bytes → Option Int) {b : TimeWindow} (active : b.active = true)
    (engine : Engine) (milliseconds : Int) :
    ∃ param, Sent read b (timestampEnv engine milliseconds param) := by
  obtain ⟨parameters, translated⟩ : ∃ parameters, translateBindings b.bindings = .ok parameters :=
    ⟨_, bindings_translated active⟩
  refine ⟨sentParam read parameters, parameters, translated, ?_⟩
  intro name text found
  change sentParam read parameters name = _
  rw [sentParam, found, Option.bind_some]

/-- A `DateTime64(6,'UTC')` in the form the bindings use. -/
def readDateTime64 (text : Bytes) : Option Int :=
  if text.length ≠ 23 then none
  else do
    let year ← parseUint text 0 4 1900 2299
    let month ← parseUint text 5 2 1 12
    let day ← parseUint text 8 2 1 (daysIn month year)
    let hour ← parseUint text 11 2 0 23
    let minute ← parseUint text 14 2 0 59
    let second ← parseUint text 17 2 0 59
    let milli ← parseUint text 20 3 0 999
    if byteAt text 4 '-' && byteAt text 7 '-' && byteAt text 10 ' ' && byteAt text 13 ':' &&
        byteAt text 16 ':' && byteAt text 19 '.' then
      some ((((((dayNumber year month day * 24 + hour) * 60 + minute) * 60 + second) * 1000) +
        milli) * 1000)
    else none

theorem readDateTime64_reads : ReadsDateTime64 readDateTime64 := by
  intro c proper low high
  obtain ⟨clock, milli, written, milliValue, text⟩ := Civil.formatMillis_fields proper (by omega) (by omega)
  obtain ⟨months, days, hours, minutes, seconds, nanos⟩ := proper
  obtain ⟨first, second, middle, third, fourth⟩ := clock.read_marks 0x20 (0x2E :: milli.digits)
  have point := byteAt_at (clock.text 0x20) milli.digits 0x2E '.' (clock.text_length 0x20)
  have fraction := parseUint_cut (cut_field (clock.text 0x20 ++ [0x2E]) milli [] rfl) 0 999
  simp only [List.length_append, List.length_singleton, clock.text_length, List.append_assoc,
    List.singleton_append, List.append_nil] at fraction
  have long : ¬ (clock.text 0x20 ++ 0x2E :: milli.digits).length ≠ 23 := by
    rw [List.length_append, clock.text_length, List.length_cons, milli.length_eq]
    omega
  rw [text, readDateTime64, if_neg long]
  simp only [(clock.read_time 0x20 _ _ _).1, (clock.read_time 0x20 _ _ _).2.1,
    (clock.read_time 0x20 _ _ _).2.2, first, second, middle, third, fourth, point, fraction]
  rw [ClockText.text, List.append_assoc]
  simp only [(clock.read_date _ _ _).1, (clock.read_date _ _ _).2.1, (clock.read_date _ _ _).2.2,
    inRange_bind, written.year, written.month, written.day, written.hour, written.minute,
    written.second, milliValue]
  rw [if_pos ⟨by omega, by omega⟩, if_pos months, if_pos days, if_pos ⟨by omega, by omega⟩,
    if_pos ⟨by omega, by omega⟩, if_pos ⟨by omega, by omega⟩, if_pos ⟨by omega, by omega⟩,
    if_pos (by decide)]
  apply congrArg some
  simp only [Civil.instant, date, Time.ofNanos, nanosPerSecond]
  omega

/-- A start inside a millisecond lets the whole of it through: the row at the beginning of
the millisecond passes, before the start. -/
theorem start_millisecond_passes {read : Bytes → Option Int} (reads : ReadsDateTime64 read)
    {b : TimeWindow} (active : b.active = true) (begins : b.hasStart = true)
    (startSupported : Supported b.start) (endSupported : Supported b.endTime)
    (inside : b.start.wall % 1000000 ≠ 0)
    (reached : b.start.wall - b.start.wall % 1000000 ≤ b.endTime.wall) :
    ¬ SelectsWindow read b := by
  intro selects
  obtain ⟨param, sent⟩ := exists_sent read active asciiServer.engine (millis b.start)
  have timestamp : Denotes (timestampEnv asciiServer.engine (millis b.start) param) .prim
      [.column ()] (.time (millis b.start)) := Denotes.column () rfl
  have base : Denotes (timestampEnv asciiServer.engine (millis b.start) param) .conj
      [.int 1] (.int 1) := (Denotes.int 1).conj_of_prim
  have trueBase : holds (timestampEnv asciiServer.engine (millis b.start) param) [.int 1] =
      true := by
    rw [holds, base.disj_of_conj.value_eq]
    rfl
  have passes := (predicate_holds reads active (fun _ => startSupported) endSupported sent
    base.readable timestamp).mpr ⟨trueBase, by simp only [millis]; omega, fun _ => le_refl _⟩
  have kept := (selects Unit _ _ _ _ sent base.readable timestamp).mp passes
  have late := kept.2.2 begins
  simp only [millis] at late
  omega

/-- The window is exact unless it has a start inside a millisecond that is not past its
end. -/
theorem window_exact_iff {read : Bytes → Option Int} (reads : ReadsDateTime64 read)
    {b : TimeWindow} (active : b.active = true)
    (startSupported : b.hasStart = true → Supported b.start)
    (endSupported : Supported b.endTime) :
    SelectsWindow read b ↔
      (b.hasStart = true → b.start.wall % 1000000 = 0 ∨
        b.endTime.wall < b.start.wall - b.start.wall % 1000000) := by
  constructor
  · intro selects begins
    by_contra outside
    exact start_millisecond_passes reads active begins (startSupported begins) endSupported
      (by omega) (by omega) selects
  · intro condition κ env base column milliseconds sent readable timestamp
    have upper : milliseconds ≤ millis b.endTime ↔ milliseconds * 1000000 ≤ b.endTime.wall := by
      simp only [millis]
      omega
    rw [predicate_holds reads active startSupported endSupported sent readable timestamp,
      TimeWindow.Within, upper]
    apply and_congr_right
    intro _
    apply and_congr_right
    intro below
    apply forall_congr'
    intro begins
    have place := condition begins
    simp only [millis]
    omega

/-- The first of January 2026, as a window from its first to its last instant. -/
def newYearsDay : TimeWindow where
  active := true
  hasStart := true
  start := Time.ofNanos 1767225600000000000
  endTime := Time.ofNanos 1767311999999999999

theorem newYearsDay_selected : SelectsWindow readDateTime64 newYearsDay := by
  refine (window_exact_iff readDateTime64_reads rfl ?_ ?_).mpr ?_
  · intro _
    exact ⟨by decide +kernel, by decide +kernel⟩
  · exact ⟨by decide +kernel, by decide +kernel⟩
  · intro _
    exact Or.inl rfl

/-- The same day from half a millisecond on. -/
def afterMidnight : TimeWindow := { newYearsDay with start := Time.ofNanos 1767225600000500000 }

theorem afterMidnight_not_selected : ¬ SelectsWindow readDateTime64 afterMidnight := by
  apply start_millisecond_passes readDateTime64_reads rfl rfl
  · exact ⟨by decide +kernel, by decide +kernel⟩
  · exact ⟨by decide +kernel, by decide +kernel⟩
  · decide
  · decide

end DevHealth.Readers

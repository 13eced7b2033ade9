import DevHealth.Readers.Statement

/-! # Time bounds

The predicates of a `TimeBound` on a date, on a timestamp and on a range between two
timestamps: their texts, and what they let through when the ends of the bound are bound to
their parameters. -/
set_option autoImplicit false
namespace DevHealth.Readers

open Lib.Sql Clickhouse

/-- A time bound, as far as the predicates read it. -/
structure TimeBound where
  active : Bool
  hasStart : Bool

def boundStartParam : String := "time_start"
def boundEndParam : String := "time_end"

/-- The parameters of a time bound, as the server reads them: microseconds since the epoch. -/
structure BoundParams where
  timeStart : Int
  timeEnd : Int

namespace TimeBound

variable {κ : Type} (b : TimeBound)

/-- What the predicates have in common: one comparison, and for a range a second one. -/
def condition (upper lower : Text κ) : Text κ := upper ++ if b.hasStart then .and :: lower else []

def dayPredicate (column : Text κ) : Text κ :=
  if b.active then
    .and :: b.condition (column ++ [.cmp .le, .func .toDate, .lparen, .param boundEndParam, .rparen])
      (column ++ [.cmp .ge, .func .toDate, .lparen, .param boundStartParam, .rparen])
  else []

def timestampPredicate (column : Text κ) : Text κ :=
  if b.active then
    .and :: b.condition (column ++ [.cmp .le, .param boundEndParam]) (column ++ [.cmp .ge, .param boundStartParam])
  else []

/-- The condition of a `WHERE`, if there is one. -/
def rangePredicate (fromColumn toColumn : Text κ) : Option (Text κ) :=
  if b.active then
    some (b.condition (fromColumn ++ [.cmp .lt, .param boundEndParam]) (toColumn ++ [.cmp .ge, .param boundStartParam]))
  else none

/-! ## What passes -/

variable (params : BoundParams)

def passesDay (day : Int) : Bool :=
  !b.active || decide (day ≤ toDate params.timeEnd) && (!b.hasStart || decide (toDate params.timeStart ≤ day))

/-- For a column of milliseconds. -/
def passesTimestamp (milliseconds : Int) : Bool :=
  !b.active || decide (milliseconds * 1000 ≤ params.timeEnd) &&
    (!b.hasStart || decide (params.timeStart ≤ milliseconds * 1000))

/-- For columns of milliseconds. -/
def passesRange (fromTs toTs : Int) : Bool :=
  !b.active || decide (fromTs * 1000 < params.timeEnd) && (!b.hasStart || decide (params.timeStart ≤ toTs * 1000))

/-- The parameters that the predicates name have these values. -/
structure Bound (env : Env κ) : Prop where
  upper : b.active = true → env.param boundEndParam = some (.micros params.timeEnd)
  lower : b.active = true → b.hasStart = true → env.param boundStartParam = some (.micros params.timeStart)

variable {b params} {env : Env κ} {base : Text κ}

theorem condition_reads {upper lower : Text κ} {u l : Bool}
    (first : Denotes env .conj upper (.ofTruth (.ofBool u)))
    (second : b.hasStart = true → Denotes env .conj lower (.ofTruth (.ofBool l))) :
    Denotes env .conj (b.condition upper lower) (.ofTruth (.ofBool (u && (!b.hasStart || l)))) := by
  unfold condition
  cases begins : b.hasStart with
  | false => simpa using first
  | true =>
    have both := first.and (second begins)
    have joined : (Truth.ofBool u).and (.ofBool l) = .ofBool (u && l) := by cases u <;> cases l <;> rfl
    rw [joined] at both
    exact both

theorem holds_condition {text : Text κ} {t : Bool} (reads : Denotes env .conj text (.ofTruth (.ofBool t))) :
    holds env text = t := by
  rw [Bool.eq_iff_iff, reads.disj_of_conj.holds_iff, Truth.ofBool_yes]

/-- A predicate that is appended to the conditions of a statement. -/
theorem holds_appended {text : Text κ} {t : Bool} (readable : Readable .conj base)
    (reads : b.active = true → Denotes env .conj text (.ofTruth (.ofBool t))) :
    holds env (base ++ if b.active then .and :: text else []) = (holds env base && (!b.active || t)) := by
  cases active : b.active with
  | false => simp
  | true =>
    rw [if_pos rfl, holds_and env readable (reads active).readable, holds_condition (reads active)]
    rfl

theorem dayPredicate_holds (bound : b.Bound params env) {column : Text κ} {day : Int}
    (date : Denotes env .prim column (.date day)) (readable : Readable .conj base) :
    holds env (base ++ b.dayPredicate column) = (holds env base && b.passesDay params day) := by
  apply holds_appended readable
  intro active
  have toDate {name : String} {micros : Int} (has : env.param name = some (.micros micros)) :
      Denotes env .prim [.func .toDate, .lparen, .param name, .rparen] (.date (Clickhouse.toDate micros)) :=
    Denotes.call₁ .toDate (Denotes.param name has).disj_of_prim rfl
  exact condition_reads (date.cmp .le (toDate (bound.upper active)) rfl)
    fun begins => date.cmp .ge (toDate (bound.lower active begins)) rfl

theorem timestampPredicate_holds (bound : b.Bound params env) {column : Text κ} {milliseconds : Int}
    (timestamp : Denotes env .prim column (.time milliseconds)) (readable : Readable .conj base) :
    holds env (base ++ b.timestampPredicate column) = (holds env base && b.passesTimestamp params milliseconds) := by
  apply holds_appended readable
  intro active
  exact condition_reads (timestamp.cmp .le (Denotes.param boundEndParam (bound.upper active)) rfl)
    fun begins => timestamp.cmp .ge (Denotes.param boundStartParam (bound.lower active begins)) rfl

theorem rangePredicate_holds (bound : b.Bound params env) {fromColumn toColumn : Text κ} {fromTs toTs : Int}
    (starts : Denotes env .prim fromColumn (.time fromTs)) (ends : Denotes env .prim toColumn (.time toTs)) :
    (b.rangePredicate fromColumn toColumn).all (holds env) = b.passesRange params fromTs toTs := by
  unfold rangePredicate passesRange
  cases active : b.active with
  | false => rfl
  | true =>
    have flip : (!decide (params.timeEnd ≤ fromTs * 1000)) = decide (fromTs * 1000 < params.timeEnd) := by
      rw [← decide_not, decide_eq_decide]
      exact Int.not_le
    have below : compare .lt (.time fromTs) (.micros params.timeEnd) =
        some (.ofBool (decide (fromTs * 1000 < params.timeEnd))) := by
      rw [← flip]
      rfl
    exact holds_condition (condition_reads
      (starts.cmp .lt (Denotes.param boundEndParam (bound.upper active)) below)
      fun begins => ends.cmp .ge (Denotes.param boundStartParam (bound.lower active begins)) rfl)

end TimeBound

end DevHealth.Readers

import DevHealth.Go.ClockText
import DevHealth.Go.JsonMembers
import DevHealth.Lib.Regex

/-! # The `retire_after` member of a key

The strict decoder of the member: the grammar of an RFC 3339 date-time with a zero offset,
then `time.Parse` of the text rewritten in its upper case form with at most nine digits of
fraction. -/
set_option autoImplicit false
namespace DevHealth.Authverify

open Go Lib

/-! ## Model -/

def digit : Regex UInt8 := .cls isDigit

def oneByte (b : UInt8) : Regex UInt8 := .lit [b]

def threeFields (width : Nat) (mark : UInt8) : Regex UInt8 :=
  .seq (.exactly digit width) (.seq (oneByte mark) (.seq (.exactly digit 2)
    (.seq (oneByte mark) (.exactly digit 2))))

/-- `(\d{4}-\d{2}-\d{2})` -/
def dateGrammar : Regex UInt8 := threeFields 4 ClockText.dash

/-- `(\d{2}):(\d{2}):(\d{2})` -/
def clockGrammar : Regex UInt8 := threeFields 2 ClockText.colon

/-- `(?:\.(\d+))?` -/
def fractionGrammar : Regex UInt8 := .opt (.seq (oneByte 0x2E) (.plus digit))

/-- `(?:[Zz]|\+00:00|-00:00)` -/
def offsetGrammar : Regex UInt8 :=
  .alt (.cls fun b => isByte 'Z' b || isByte 'z' b)
    (.alt (.lit (ascii "+00:00")) (.lit (ascii "-00:00")))

def retireAfterGrammar : Regex UInt8 :=
  .seq dateGrammar (.seq (.cls fun b => isByte 'T' b || isByte 't' b)
    (.seq clockGrammar (.seq fractionGrammar offsetGrammar)))

structure RetireParts where
  date : Bytes
  hour : Bytes
  minute : Bytes
  second : Bytes
  fraction : Bytes

/-- `FindStringSubmatch`.  Every group before the fraction has a fixed width, so the groups
are at fixed places. -/
def findSubmatch (text : Bytes) : Option RetireParts :=
  if retireAfterGrammar.accepts text then
    some { date := text.take 10
           hour := (text.drop 11).take 2
           minute := (text.drop 14).take 2
           second := (text.drop 17).take 2
           fraction := if byteAt text 19 '.' then (text.drop 20).takeWhile isDigit else [] }
  else none

def parseRetireAfter (text : Bytes) : Option Time := do
  let parts ← findSubmatch text
  let fraction := if 9 < parts.fraction.length then parts.fraction.take 9 else parts.fraction
  let clock := parts.hour ++ ascii ":" ++ parts.minute ++ ascii ":" ++ parts.second
  let clock := if fraction ≠ [] then clock ++ (ascii "." ++ fraction) else clock
  if parts.second = ascii "60" then none
  else parseRFC3339 (parts.date ++ ascii "T" ++ clock ++ ascii "Z")

/-- `retireAfterMember.UnmarshalJSON` -/
def unmarshalRetireAfter (data : RawMessage) : Option Time :=
  (unmarshalString data).bind parseRetireAfter

/-! ## The texts of the grammar -/

def zeroOffsets : List Bytes := [ascii "Z", ascii "z", ascii "+00:00", ascii "-00:00"]

/-- The text is a date-time with this date, this time of day and these digits of fraction,
and with a zero offset. -/
def Spells (text : Bytes) (c : ClockText) (fraction : Bytes) : Prop :=
  ∃ mark offset, (mark = 0x54 ∨ mark = 0x74) ∧ offset ∈ zeroOffsets ∧
    (∀ b ∈ fraction, isDigit b = true) ∧
    text = c.text mark ++ (ClockText.fractionText fraction ++ offset)

variable {text fraction : Bytes} {c : ClockText} {w : Bytes} {t : Time}

theorem mem_digits {n : Nat} : w ∈ (Regex.exactly digit n).lang ↔ ∃ f : Field n, f.digits = w := by
  rw [digit, Regex.mem_lang_exactly_cls]
  constructor
  · intro both
    exact ⟨⟨w, both.1, both.2⟩, rfl⟩
  · intro found
    obtain ⟨f, rfl⟩ := found
    exact ⟨f.length_eq, f.all_digits⟩

theorem mem_oneByte {b : UInt8} : w ∈ (oneByte b).lang ↔ w = [b] := Regex.mem_lang_lit

theorem mem_fraction : w ∈ fractionGrammar.lang ↔
      ∃ ds, (∀ b ∈ ds, isDigit b = true) ∧ w = ClockText.fractionText ds := by
  rw [fractionGrammar, Regex.opt, Regex.mem_lang_alt, Regex.mem_lang_seq]
  constructor
  · intro found
    rcases found with ⟨point, isPoint, digits, some_digits, rfl⟩ | empty
    · rw [mem_oneByte.mp isPoint]
      rw [Regex.plus, Regex.mem_lang_seq] at some_digits
      obtain ⟨_, ⟨b, first, rfl⟩, rest, others, rfl⟩ := some_digits
      refine ⟨b :: rest, ?_, rfl⟩
      intro c inside
      rcases List.mem_cons.mp inside with rfl | inside
      · exact first
      · exact Regex.mem_lang_star_cls.mp others c inside
    · refine ⟨[], ?_, empty⟩
      intro b inside
      cases inside
  · intro found
    obtain ⟨ds, digits, rfl⟩ := found
    cases ds with
    | nil => exact Or.inr rfl
    | cons b rest =>
      refine Or.inl ⟨[0x2E], mem_oneByte.mpr rfl, b :: rest, ?_, rfl⟩
      rw [Regex.plus, Regex.mem_lang_seq]
      refine ⟨[b], ⟨b, digits b (List.mem_cons_self ..), rfl⟩, rest, ?_, rfl⟩
      exact Regex.mem_lang_star_cls.mpr fun c inside => digits c (List.mem_cons_of_mem _ inside)

theorem mem_twoCases {upper lower : Char} {u l : UInt8} (isUpper : u.toNat = upper.toNat)
    (isLower : l.toNat = lower.toNat) :
    w ∈ (Regex.cls fun b => isByte upper b || isByte lower b).lang ↔ w = [u] ∨ w = [l] := by
  constructor
  · intro found
    obtain ⟨b, isMark, rfl⟩ := found
    simp only [isByte, Bool.or_eq_true, decide_eq_true_eq, ← isUpper, ← isLower, UInt8.toNat_inj] at isMark
    rcases isMark with rfl | rfl
    · exact Or.inl rfl
    · exact Or.inr rfl
  · intro found
    rcases found with rfl | rfl
    · exact ⟨u, by simp [isByte, isUpper], rfl⟩
    · exact ⟨l, by simp [isByte, isLower], rfl⟩

theorem mem_offset : w ∈ offsetGrammar.lang ↔ w ∈ zeroOffsets := by
  have marks : ascii "Z" = [0x5A] ∧ ascii "z" = [0x7A] := by decide
  rw [offsetGrammar, Regex.mem_lang_alt, Regex.mem_lang_alt, Regex.mem_lang_lit,
    Regex.mem_lang_lit, mem_twoCases (u := 0x5A) (l := 0x7A) rfl rfl, zeroOffsets, marks.1, marks.2]
  simp [or_assoc]

theorem mem_threeFields {width : Nat} {mark : UInt8} :
    w ∈ (threeFields width mark).lang ↔ ∃ (f : Field width) (g h : Field 2),
      w = f.digits ++ mark :: (g.digits ++ mark :: h.digits) := by
  simp only [threeFields, Regex.mem_lang_seq, mem_digits, mem_oneByte]
  constructor
  · intro found
    obtain ⟨_, ⟨f, rfl⟩, _, ⟨_, rfl, _, ⟨_, ⟨g, rfl⟩, _, ⟨_, rfl, _, ⟨h, rfl⟩, rfl⟩, rfl⟩, rfl⟩, rfl⟩ := found
    exact ⟨f, g, h, rfl⟩
  · intro found
    obtain ⟨f, g, h, rfl⟩ := found
    exact ⟨_, ⟨f, rfl⟩, _, ⟨_, rfl, _, ⟨_, ⟨g, rfl⟩, _, ⟨_, rfl, _, ⟨h, rfl⟩, rfl⟩, rfl⟩, rfl⟩, rfl⟩

theorem grammar_iff (text : Bytes) :
    retireAfterGrammar.accepts text = true ↔ ∃ c fraction, Spells text c fraction := by
  rw [Regex.accepts_iff]
  simp only [retireAfterGrammar, dateGrammar, clockGrammar, Regex.mem_lang_seq, mem_threeFields,
    mem_fraction, mem_offset,
    mem_twoCases (u := 0x54) (l := 0x74) (rfl : _ = 'T'.toNat) (rfl : _ = 't'.toNat)]
  constructor
  · intro found
    obtain ⟨_, ⟨y, mo, d, rfl⟩, _, ⟨_, isMark, _, ⟨_, ⟨h, mi, s, rfl⟩, _, ⟨_, ⟨ds, digits, rfl⟩, offset,
      zero, rfl⟩, rfl⟩, rfl⟩, rfl⟩ := found
    refine ⟨⟨y, mo, d, h, mi, s⟩, ds, ?_⟩
    rcases isMark with rfl | rfl
    · refine ⟨0x54, offset, Or.inl rfl, zero, digits, ?_⟩
      simp [ClockText.text, ClockText.dateText, ClockText.timeText]
    · refine ⟨0x74, offset, Or.inr rfl, zero, digits, ?_⟩
      simp [ClockText.text, ClockText.dateText, ClockText.timeText]
  · intro found
    obtain ⟨c, ds, mark, offset, isMark, zero, digits, rfl⟩ := found
    refine ⟨c.dateText, ⟨c.year, c.month, c.day, rfl⟩, _, ⟨[mark], ?_, _, ⟨c.timeText,
      ⟨c.hour, c.minute, c.second, rfl⟩, _, ⟨_, ⟨ds, digits, rfl⟩, offset, zero, rfl⟩, rfl⟩, rfl⟩, ?_⟩
    · rcases isMark with rfl | rfl
      · exact Or.inl rfl
      · exact Or.inr rfl
    · simp [ClockText.text]

/-! ## What the member is read as -/

theorem zeroOffset_head {offset : Bytes} (zero : offset ∈ zeroOffsets) :
    byteAt offset 0 '.' = false ∧ ∀ b ∈ offset.head?, isDigit b = false := by
  revert offset
  decide

theorem findSubmatch_spells (spells : Spells text c fraction) :
    findSubmatch text = some ⟨c.dateText, c.hour.digits, c.minute.digits, c.second.digits, fraction⟩ := by
  have accepted := (grammar_iff text).mpr ⟨c, fraction, spells⟩
  obtain ⟨mark, offset, -, zero, digits, rfl⟩ := spells
  obtain ⟨notPoint, notDigit⟩ := zeroOffset_head zero
  obtain ⟨hour, minute, second⟩ := c.cut_time mark (ClockText.fractionText fraction ++ offset)
  have date : (c.text mark ++ (ClockText.fractionText fraction ++ offset)).take 10 = c.dateText := by
    rw [ClockText.text, List.append_assoc, ← c.dateText_length, List.take_left]
  have rest : (c.text mark ++ (ClockText.fractionText fraction ++ offset)).drop 20 =
      (ClockText.fractionText fraction ++ offset).drop 1 := by
    have split : 20 = (c.text mark).length + 1 := by rw [c.text_length]
    rw [split, ← List.drop_drop, List.drop_left]
  have point : byteAt (c.text mark ++ (ClockText.fractionText fraction ++ offset)) 19 '.' =
      byteAt (ClockText.fractionText fraction ++ offset) 0 '.' := by
    rw [byteAt, ← c.text_length mark, List.getElem?_append_right (Nat.le_refl _), Nat.sub_self]
    rfl
  rw [findSubmatch, if_pos accepted, date, hour, minute, second, rest, point,
    ClockText.read_fraction digits notPoint notDigit]

/-- A text of the grammar is accepted when its date and time of day are proper; the instant
is that of its seconds and of the first nine digits of its fraction. -/
theorem parseRetireAfter_spells (spells : Spells text c fraction) : parseRetireAfter text =
      if c.Proper then some (c.instant.add (parseNanoseconds (fraction.take 9))) else none := by
  have groups := findSubmatch_spells spells
  obtain ⟨-, -, -, -, digits, -⟩ := spells
  have shortDigits : ∀ b ∈ fraction.take 9, isDigit b = true :=
    fun b inside => digits b (List.mem_of_mem_take inside)
  have short : (if 9 < fraction.length then fraction.take 9 else fraction) = fraction.take 9 := by
    split
    · rfl
    · rw [List.take_of_length_le (by omega)]
  rw [parseRetireAfter, groups]
  simp only [Option.bind_eq_bind, Option.bind_some, short]
  by_cases leap : c.second.digits = ascii "60"
  · have late : ¬ c.Proper := by
      intro proper
      have value : c.second.value = 60 := by
        rw [Field.value, leap]
        decide
      have bound := proper.second
      omega
    rw [if_pos leap, if_neg late]
  · rw [if_neg leap, ← c.parseRFC3339_utc shortDigits]
    apply congrArg parseRFC3339
    have marks : ascii ":" = [ClockText.colon] ∧ ascii "T" = [0x54] ∧ ascii "." = [0x2E] := by
      decide
    obtain ⟨colon, mark, point⟩ := marks
    rw [colon, mark, point, ClockText.text, ClockText.timeText, ClockText.fractionText]
    by_cases none : fraction.take 9 = []
    · rw [if_neg (not_not.mpr none), if_pos none]
      simp
    · rw [if_pos none, if_neg none]
      simp

/-- The instant a text denotes, in nanoseconds: the digits of the fraction to their end. -/
def denoted (c : ClockText) (fraction : Bytes) : ℚ :=
  c.instant.wall + digitsValue fraction * 10 ^ 9 / 10 ^ fraction.length

theorem nanoseconds_floor {fraction : Bytes} (digits : ∀ b ∈ fraction, isDigit b = true) :
    parseNanoseconds (fraction.take 9) * 10 ^ fraction.length ≤ digitsValue fraction * 10 ^ 9 ∧
      digitsValue fraction * 10 ^ 9 < (parseNanoseconds (fraction.take 9) + 1) * 10 ^ fraction.length := by
  by_cases short : fraction.length ≤ 9
  · rw [List.take_of_length_le short, parseNanoseconds, List.take_of_length_le short,
      Nat.mul_assoc, ← Nat.pow_add, Nat.sub_add_cancel short]
    refine ⟨Nat.le_refl _, ?_⟩
    rw [Nat.add_mul, Nat.mul_assoc, ← Nat.pow_add, Nat.sub_add_cancel short]
    have positive : 0 < 10 ^ fraction.length := Nat.pow_pos (by decide)
    omega
  · have whole : (fraction.take 9).length = 9 := by
      rw [List.length_take]
      omega
    have rest : (fraction.drop 9).length = fraction.length - 9 := List.length_drop
    have small : digitsValue (fraction.drop 9) < 10 ^ (fraction.length - 9) := by
      rw [← rest]
      exact digitsValue_lt fun b inside => digits b (List.mem_of_mem_drop inside)
    have split : digitsValue fraction =
        digitsValue (fraction.take 9) * 10 ^ (fraction.length - 9) + digitsValue (fraction.drop 9) := by
      rw [← rest, ← digitsValue_append, List.take_append_drop]
    have power : 10 ^ fraction.length = 10 ^ (fraction.length - 9) * 10 ^ 9 := by
      rw [← Nat.pow_add, Nat.sub_add_cancel (by omega)]
    rw [parseNanoseconds, whole, List.take_of_length_le (le_of_eq whole), Nat.sub_self, Nat.pow_zero,
      Nat.mul_one, split, power]
    generalize digitsValue (fraction.take 9) = n
    generalize digitsValue (fraction.drop 9) = r at small ⊢
    generalize 10 ^ (fraction.length - 9) = p at small ⊢
    constructor
    · nlinarith
    · nlinarith

theorem parseRetireAfter_some {text : Bytes} (read : parseRetireAfter text = some t) :
    ∃ c fraction, Spells text c fraction ∧ c.Proper := by
  have accepted : retireAfterGrammar.accepts text = true := by
    by_contra refused
    rw [parseRetireAfter, findSubmatch, if_neg refused] at read
    cases read
  obtain ⟨c, fraction, spells⟩ := (grammar_iff text).mp accepted
  rw [parseRetireAfter_spells spells] at read
  by_cases proper : c.Proper
  · exact ⟨c, fraction, spells, proper⟩
  · rw [if_neg proper] at read
    cases read

theorem retired_instant (spells : Spells text c fraction) (read : parseRetireAfter text = some t) :
    t = Time.ofNanos (c.instant.wall + parseNanoseconds (fraction.take 9)) := by
  rw [parseRetireAfter_spells spells] at read
  split at read
  · cases read
    rfl
  · cases read

/-- The instant is the denoted one, cut to nanoseconds. -/
theorem retired_floor (spells : Spells text c fraction) (read : parseRetireAfter text = some t) :
    (t.wall : ℚ) ≤ denoted c fraction ∧ denoted c fraction < t.wall + 1 := by
  rw [retired_instant spells read]
  obtain ⟨-, -, -, -, digits, -⟩ := spells
  obtain ⟨below, above⟩ := nanoseconds_floor digits
  have positive : (0 : ℚ) < 10 ^ fraction.length := by positivity
  have belowQ : (parseNanoseconds (fraction.take 9) : ℚ) ≤
      digitsValue fraction * 10 ^ 9 / 10 ^ fraction.length := by
    rw [le_div_iff₀ positive]
    exact_mod_cast below
  have aboveQ : digitsValue fraction * 10 ^ 9 / 10 ^ fraction.length <
      (parseNanoseconds (fraction.take 9) : ℚ) + 1 := by
    rw [div_lt_iff₀ positive]
    exact_mod_cast above
  simp only [denoted, Time.ofNanos]
  push_cast
  constructor
  · linarith
  · linarith

theorem retired_exact (spells : Spells text c fraction) (short : fraction.length ≤ 9)
    (read : parseRetireAfter text = some t) : (t.wall : ℚ) = denoted c fraction := by
  rw [retired_instant spells read]
  have power : (10 : ℚ) ^ 9 = 10 ^ (9 - fraction.length) * 10 ^ fraction.length := by
    rw [← pow_add, Nat.sub_add_cancel short]
  have positive : (10 : ℚ) ^ fraction.length ≠ 0 := by positivity
  simp only [denoted, Time.ofNanos, parseNanoseconds, List.take_of_length_le short]
  push_cast
  rw [power, ← mul_assoc, mul_div_assoc, div_self positive, mul_one]

/-- The member is accepted exactly for a date-time of the grammar with a proper date and
time of day; it is never read as later than what it denotes, nor a nanosecond or more
earlier, and two spellings of one instant with at most nine digits are read alike. -/
theorem retireAfter_exact {data text : Bytes} (reads : unmarshalString data = some text) :
    ((unmarshalRetireAfter data).isSome = true ↔
        ∃ c fraction, Spells text c fraction ∧ c.Proper) ∧
      (∀ c fraction t, Spells text c fraction → unmarshalRetireAfter data = some t →
        (t.wall : ℚ) ≤ denoted c fraction ∧ denoted c fraction < t.wall + 1) ∧
      ∀ data' text' c c' fraction fraction' t t', unmarshalString data' = some text' →
        Spells text c fraction → Spells text' c' fraction' →
        fraction.length ≤ 9 → fraction'.length ≤ 9 → denoted c fraction = denoted c' fraction' →
        unmarshalRetireAfter data = some t → unmarshalRetireAfter data' = some t' → t = t' := by
  have member : unmarshalRetireAfter data = parseRetireAfter text := by
    rw [unmarshalRetireAfter, reads, Option.bind_some]
  rw [member]
  refine ⟨?_, ?_, ?_⟩
  · constructor
    · intro accepted
      obtain ⟨t, read⟩ := Option.isSome_iff_exists.mp accepted
      exact parseRetireAfter_some read
    · intro found
      obtain ⟨c, fraction, spells, proper⟩ := found
      rw [parseRetireAfter_spells spells, if_pos proper]
      rfl
  · intro c fraction t spells read
    exact retired_floor spells read
  · intro data' text' c c' fraction fraction' t t' reads' spells spells' short short' same read read'
    rw [unmarshalRetireAfter, reads', Option.bind_some] at read'
    have walls : (t.wall : ℚ) = t'.wall := by
      rw [retired_exact spells short read, retired_exact spells' short' read', same]
    have instant := retired_instant spells read
    have instant' := retired_instant spells' read'
    have wall : t.wall = t'.wall := by exact_mod_cast walls
    rw [instant, instant'] at wall ⊢
    exact congrArg Time.ofNanos wall

/-- The last second of 2026, in lower case and with ten digits of fraction. -/
theorem retireAfter_exact_yearEnd :
    (unmarshalRetireAfter (ascii "\"2026-12-31t23:59:59.0000000019-00:00\"")).isSome = true := by
  have reads : unmarshalString (ascii "\"2026-12-31t23:59:59.0000000019-00:00\"") =
      some (ascii "2026-12-31t23:59:59.0000000019-00:00") := by decide +kernel
  apply (retireAfter_exact reads).1.mpr
  refine ⟨⟨⟨ascii "2026", by decide, by decide⟩, ⟨ascii "12", by decide, by decide⟩,
    ⟨ascii "31", by decide, by decide⟩, ⟨ascii "23", by decide, by decide⟩,
    ⟨ascii "59", by decide, by decide⟩, ⟨ascii "59", by decide, by decide⟩⟩, ascii "0000000019",
    ⟨0x74, ascii "-00:00", Or.inr rfl, by decide, by decide, by decide +kernel⟩, by decide +kernel⟩

end DevHealth.Authverify

import DevHealth.Repokey

/-! # The grammar of a repository key

What the pattern of `repokey` accepts, said over the segments between the slashes.  One
level of the nested group takes one segment off the front, so its language is found by
induction on the levels. -/
set_option autoImplicit false
namespace DevHealth.Repokey

open Go Lib Lib.Regex

def slash : UInt8 := 0x2F

/-- `a-z` and `0-9` -/
def isAlnum (b : UInt8) : Bool := between 'a' 'z' b || between '0' '9' b

/-- `a-z`, `0-9`, dot, underscore and hyphen -/
def isNameByte (b : UInt8) : Bool :=
  between 'a' 'z' b || between '0' '9' b || isByte '.' b || isByte '_' b || isByte '-' b

/-- 1 to 100 name characters, the first as given and the last alphanumeric. -/
structure IsSegment (first : UInt8 → Bool) (s : Bytes) : Prop where
  nonempty : 1 ≤ s.length
  short : s.length ≤ 100
  name : ∀ b ∈ s, isNameByte b = true
  starts : ∀ b ∈ s.head?, first b = true
  ends : ∀ b ∈ s.getLast?, isAlnum b = true

def IsGroup (s : Bytes) : Prop := IsSegment isAlnum s

def IsLast (s : Bytes) : Prop := IsSegment (fun b => isAlnum b || isByte '.' b) s

/-- The key split at its slashes: 2 to 20 segments. -/
structure IsSlug (key : Bytes) : Prop where
  short : key.length ≤ 255
  atLeast : 2 ≤ (key.splitOn slash).length
  atMost : (key.splitOn slash).length ≤ 20
  groups : ∀ s ∈ (key.splitOn slash).dropLast, IsGroup s
  last : ∀ s ∈ (key.splitOn slash).getLast?, IsLast s

/-! ## Segments -/

theorem isNameByte_of_alnum {b : UInt8} (alnum : isAlnum b = true) : isNameByte b = true := by
  simp only [isAlnum, Bool.or_eq_true] at alnum
  simp only [isNameByte, Bool.or_eq_true]
  tauto

theorem isNameByte_slash : isNameByte slash = false := by decide

variable {key : Bytes} {s : Bytes}

theorem IsSegment.no_slash {first : UInt8 → Bool} (segment : IsSegment first s) : slash ∉ s := by
  intro inside
  have holds := segment.name slash inside
  rw [isNameByte_slash] at holds
  cases holds

theorem getLast?_framed (a : UInt8) (m : Bytes) (z : UInt8) : (a :: (m ++ [z])).getLast? = some z := by
  rw [← List.cons_append]
  exact List.getLast?_concat ..

theorem isSegment_iff {first : UInt8 → Bool} (name : ∀ b, first b = true → isNameByte b = true) :
    IsSegment first s ↔ (∃ b, s = [b] ∧ first b = true ∧ isAlnum b = true) ∨
        ∃ a m z, s = a :: (m ++ [z]) ∧ first a = true ∧ isAlnum z = true ∧ m.length ≤ 98 ∧
          ∀ b ∈ m, isNameByte b = true := by
  constructor
  · intro segment
    cases s with
    | nil => exact absurd segment.nonempty (by decide)
    | cons a rest =>
      rcases List.eq_nil_or_concat rest with rfl | ⟨m, z, rfl⟩
      · exact .inl ⟨a, rfl, segment.starts a rfl, segment.ends a rfl⟩
      · rw [List.concat_eq_append] at segment ⊢
        have short := segment.short
        rw [List.length_cons, List.length_append, List.length_singleton] at short
        refine .inr ⟨a, m, z, rfl, segment.starts a rfl, segment.ends z (getLast?_framed a m z), by omega, ?_⟩
        intro b inside
        apply segment.name b
        simp [inside]
  · rintro (⟨b, rfl, fits, alnum⟩ | ⟨a, m, z, rfl, fits, alnum, short, between⟩)
    · refine ⟨Nat.le_refl 1, Nat.le_of_ble_eq_true rfl, ?_, ?_, ?_⟩
      all_goals simp [isNameByte_of_alnum, fits, alnum]
    · refine ⟨by simp, by simp only [List.length_cons, List.length_append, List.length_nil]; omega, ?_, ?_, ?_⟩
      · intro b inside
        rcases List.mem_cons.mp inside with rfl | inside
        · exact name _ fits
        · rcases List.mem_append.mp inside with inside | inside
          · exact between b inside
          · rw [List.mem_singleton.mp inside]
            exact isNameByte_of_alnum alnum
      · simp [fits]
      · simp [getLast?_framed, alnum]

theorem mem_lang_framed {first : UInt8 → Bool} :
    s ∈ lang (.seq (.cls first) (.seq (.upTo nameByte 98) alnum)) ↔
      ∃ a m z, s = a :: (m ++ [z]) ∧ first a = true ∧ isAlnum z = true ∧ m.length ≤ 98 ∧
        ∀ b ∈ m, isNameByte b = true := by
  simp only [mem_lang_seq, nameByte, alnum, mem_lang_upTo_cls, mem_lang_cls]
  constructor
  · rintro ⟨_, ⟨a, fits, rfl⟩, _, ⟨m, ⟨short, name⟩, _, ⟨z, ends, rfl⟩, rfl⟩, rfl⟩
    exact ⟨a, m, z, rfl, fits, ends, short, name⟩
  · rintro ⟨a, m, z, rfl, fits, ends, short, name⟩
    exact ⟨[a], ⟨a, fits, rfl⟩, m ++ [z], ⟨m, ⟨short, name⟩, [z], ⟨z, ends, rfl⟩, rfl⟩, rfl⟩

theorem mem_lang_group : s ∈ lang group ↔ IsGroup s := by
  -- The optional rest of the source, with the first character in front of both cases.
  have split : s ∈ lang group ↔ (∃ b, s = [b] ∧ isAlnum b = true) ∨
        s ∈ lang (.seq (.cls isAlnum) (.seq (.upTo nameByte 98) alnum)) := by
    simp only [group, mem_lang_seq, mem_lang_opt]
    constructor
    · rintro ⟨_, ⟨b, fits, rfl⟩, y, more | rfl, rfl⟩
      · exact .inr ⟨[b], ⟨b, fits, rfl⟩, y, more, rfl⟩
      · exact .inl ⟨b, rfl, fits⟩
    · rintro (⟨b, rfl, fits⟩ | ⟨x, fits, y, more, rfl⟩)
      · exact ⟨[b], ⟨b, fits, rfl⟩, [], .inr rfl, rfl⟩
      · exact ⟨x, fits, y, .inl more, rfl⟩
  rw [split, mem_lang_framed, IsGroup, isSegment_iff fun _ => isNameByte_of_alnum]
  simp

theorem mem_lang_last : s ∈ lang last ↔ IsLast s := by
  have name : ∀ b, (isAlnum b || isByte '.' b) = true → isNameByte b = true := by
    intro b holds
    simp only [isAlnum, isNameByte, Bool.or_eq_true] at holds ⊢
    tauto
  have framed : s ∈ lang (.seq (.cls fun b => isAlnum b || isByte '.' b)
      (.seq (.upTo nameByte 98) alnum)) ↔ _ := mem_lang_framed
  rw [IsLast, isSegment_iff name, ← framed, last, mem_lang_alt]
  refine or_congr ?_ Iff.rfl
  rw [alnum, mem_lang_cls]
  constructor
  · rintro ⟨b, fits, rfl⟩
    exact ⟨b, rfl, Bool.or_eq_true_iff.mpr (.inl fits), fits⟩
  · rintro ⟨b, rfl, -, fits⟩
    exact ⟨b, fits, rfl⟩

/-! ## The nested groups -/

def IsTail (n : Nat) (rest : Bytes) : Prop :=
  ∃ gs l, rest.splitOn slash = gs ++ [l] ∧ gs.length ≤ n ∧ (∀ g ∈ gs, IsGroup g) ∧ IsLast l

theorem splitOn_single {rest l : Bytes} (one : rest.splitOn slash = [l]) : rest = l := by
  have joined : List.intercalate [slash] (rest.splitOn slash) = rest := List.intercalate_splitOn slash
  rw [one] at joined
  simpa using joined.symm

theorem splitOn_more {rest g : Bytes} {others : List Bytes} (unmarked : slash ∉ g) (more : others ≠ [])
    (split : rest.splitOn slash = g :: others) :
    ∃ rest', rest = g ++ slash :: rest' ∧ rest'.splitOn slash = others := by
  have joined : List.intercalate [slash] (rest.splitOn slash) = rest := List.intercalate_splitOn slash
  obtain ⟨h, t, rfl⟩ := List.exists_cons_of_ne_nil more
  have shape : rest = g ++ slash :: List.intercalate [slash] (h :: t) := by
    rw [split] at joined
    simpa [List.intercalate] using joined.symm
  refine ⟨_, shape, ?_⟩
  rw [shape, List.splitOn_append_cons_self_of_not_mem unmarked] at split
  exact (List.cons.inj split).2

theorem mem_lang_nest_succ {n : Nat} {r : Regex UInt8} {z : Bytes} : z ∈ lang (.seq (nest (n + 1)) r) ↔
      z ∈ lang r ∨ ∃ g y, IsGroup g ∧ y ∈ lang (.seq (nest n) r) ∧ z = slash :: (g ++ y) := by
  have mark : ascii "/" = [slash] := by decide
  simp only [nest, mem_lang_seq, mem_lang_opt, mem_lang_lit, mem_lang_group, mark]
  constructor
  · rintro ⟨_, ⟨_, rfl, _, ⟨g, group, y, nested, rfl⟩, rfl⟩ | rfl, w, rest, rfl⟩
    · exact .inr ⟨g, y ++ w, group, ⟨y, nested, w, rest, rfl⟩, by simp⟩
    · exact .inl rest
  · rintro (rest | ⟨g, _, group, ⟨y, nested, w, rest, rfl⟩, rfl⟩)
    · exact ⟨[], .inr rfl, z, rest, rfl⟩
    · exact ⟨slash :: (g ++ y), .inl ⟨[slash], rfl, g ++ y, ⟨g, group, y, nested, rfl⟩, rfl⟩, w, rest, by simp⟩

theorem mem_lang_ending {z : Bytes} :
    z ∈ lang (.seq (.lit (ascii "/")) last) ↔ ∃ l, IsLast l ∧ z = slash :: l := by
  have mark : ascii "/" = [slash] := by decide
  simp only [mem_lang_seq, mem_lang_lit, mem_lang_last, mark]
  constructor
  · rintro ⟨_, rfl, l, last, rfl⟩
    exact ⟨l, last, rfl⟩
  · rintro ⟨l, last, rfl⟩
    exact ⟨[slash], rfl, l, last, rfl⟩

theorem isTail_last {n : Nat} {l : Bytes} (last : IsLast l) : IsTail n l :=
  ⟨[], l, List.splitOn_eq_singleton last.no_slash, Nat.zero_le n, by simp, last⟩

theorem mem_lang_nest (n : Nat) {z : Bytes} :
    z ∈ lang (.seq (nest n) (.seq (.lit (ascii "/")) last)) ↔ ∃ rest, z = slash :: rest ∧ IsTail n rest := by
  induction n generalizing z with
  | zero =>
    rw [nest, mem_lang_seq]
    constructor
    · intro found
      obtain ⟨_, rfl, y, ending, rfl⟩ := found
      obtain ⟨l, last, rfl⟩ := mem_lang_ending.mp ending
      exact ⟨l, rfl, isTail_last last⟩
    · intro found
      obtain ⟨rest, rfl, gs, l, split, none, -, last⟩ := found
      rw [List.length_eq_zero_iff.mp (Nat.le_zero.mp none)] at split
      cases splitOn_single split
      exact ⟨[], rfl, _, mem_lang_ending.mpr ⟨_, last, rfl⟩, rfl⟩
  | succ n ih =>
    rw [mem_lang_nest_succ, mem_lang_ending]
    constructor
    · intro found
      obtain ⟨l, last, rfl⟩ | ⟨g, y, group, nested, rfl⟩ := found
      · exact ⟨l, rfl, isTail_last last⟩
      · obtain ⟨rest, rfl, gs, l, split, short, groups, last⟩ := ih.mp nested
        refine ⟨_, rfl, g :: gs, l, ?_, Nat.succ_le_succ short, ?_, last⟩
        · rw [List.splitOn_append_cons_self_of_not_mem group.no_slash, split]
          rfl
        · exact List.forall_mem_cons.mpr ⟨group, groups⟩
    · intro found
      obtain ⟨rest, rfl, gs, l, split, short, groups, last⟩ := found
      cases gs with
      | nil =>
        cases splitOn_single split
        exact .inl ⟨_, last, rfl⟩
      | cons g gs =>
        obtain ⟨group, groups⟩ := List.forall_mem_cons.mp groups
        obtain ⟨rest', rfl, others⟩ := splitOn_more group.no_slash (by simp) split
        exact .inr ⟨g, slash :: rest', group,
          ih.mpr ⟨rest', rfl, gs, l, others, Nat.le_of_succ_le_succ short, groups, last⟩, rfl⟩

/-! ## Keys -/

theorem mem_lang_body :
    key ∈ lang body ↔ ∃ g rest, key = g ++ slash :: rest ∧ IsGroup g ∧ IsTail (maxSegments - 2) rest := by
  rw [body, mem_lang_seq]
  constructor
  · intro found
    obtain ⟨g, group, y, nested, rfl⟩ := found
    obtain ⟨rest, rfl, tail⟩ := (mem_lang_nest _).mp nested
    exact ⟨g, rest, rfl, mem_lang_group.mp group, tail⟩
  · intro found
    obtain ⟨g, rest, rfl, group, tail⟩ := found
    exact ⟨g, mem_lang_group.mpr group, slash :: rest, (mem_lang_nest _).mpr ⟨rest, rfl, tail⟩, rfl⟩

theorem validSlug_iff : validSlug key = true ↔ IsSlug key := by
  rw [validSlug, Bool.and_eq_true, decide_eq_true_eq, slugPattern, accepts_iff, mem_lang_body]
  constructor
  · intro both
    obtain ⟨short, g, rest, rfl, group, gs, l, split, few, groups, last⟩ := both
    have segments : (g ++ slash :: rest).splitOn slash = (g :: gs) ++ [l] := by
      rw [List.splitOn_append_cons_self_of_not_mem group.no_slash, split]
      rfl
    have bound : maxSegments - 2 = 18 := rfl
    refine ⟨short, ?_, ?_, ?_, ?_⟩
    all_goals rw [segments]
    · simp
    · rw [List.length_append, List.length_cons, List.length_singleton]
      omega
    · rw [List.dropLast_concat]
      exact List.forall_mem_cons.mpr ⟨group, groups⟩
    · rw [List.getLast?_concat]
      intro s same
      cases same
      exact last
  · intro slug
    obtain ⟨short, atLeast, atMost, groups, last⟩ := slug
    refine ⟨short, ?_⟩
    obtain ⟨gs, l, split⟩ : ∃ gs l, key.splitOn slash = gs ++ [l] :=
      (List.eq_nil_or_concat' _).resolve_left (List.splitOn_ne_nil _ _)
    rw [split, List.length_append, List.length_singleton] at atLeast atMost
    rw [split, List.dropLast_concat] at groups
    rw [split, List.getLast?_concat] at last
    cases gs with
    | nil => exact absurd atLeast (by decide)
    | cons g gs =>
      obtain ⟨group, groups⟩ := List.forall_mem_cons.mp groups
      obtain ⟨rest, rfl, others⟩ := splitOn_more group.no_slash (by simp) split
      rw [List.length_cons] at atMost
      have bound : maxSegments - 2 = 18 := rfl
      exact ⟨g, rest, rfl, group, gs, l, others, by omega, groups, last l rfl⟩

theorem valid_or : valid key = true ↔ validSlug key = true ∨ key = ascii "*" := by
  have star : (ascii "*").length ≤ maxBytes := by decide
  simp only [valid, validSlug, Bool.and_eq_true, decide_eq_true_eq, accepts_iff, schemaPattern,
    slugPattern, mem_lang_alt, mem_lang_lit]
  constructor
  · intro both
    obtain ⟨short, slug | rfl⟩ := both
    · exact .inl ⟨short, slug⟩
    · exact .inr rfl
  · intro either
    obtain ⟨short, slug⟩ | rfl := either
    · exact ⟨short, .inl slug⟩
    · exact ⟨star, .inr rfl⟩

/-- A key of a grant: a slug or the wildcard. -/
def IsKey (key : Bytes) : Prop := IsSlug key ∨ key = ascii "*"

theorem valid_iff : valid key = true ↔ IsKey key := by rw [valid_or, validSlug_iff, IsKey]

/-! ## The bytes and the owner of a key -/

theorem mem_intercalate {mark b : UInt8} {parts : List Bytes} (inside : b ∈ List.intercalate [mark] parts) :
    b = mark ∨ ∃ part ∈ parts, b ∈ part := by
  induction parts with
  | nil => cases inside
  | cons part parts ih =>
    cases parts with
    | nil => exact .inr ⟨part, List.mem_cons_self .., by simpa [List.intercalate] using inside⟩
    | cons next parts =>
      have shape : List.intercalate [mark] (part :: next :: parts) =
          part ++ mark :: List.intercalate [mark] (next :: parts) := by simp [List.intercalate]
      rw [shape, List.mem_append, List.mem_cons] at inside
      rcases inside with first | same | later
      · exact .inr ⟨part, List.mem_cons_self .., first⟩
      · exact .inl same
      · refine (ih later).imp_right ?_
        intro found
        obtain ⟨other, listed, inside⟩ := found
        exact ⟨other, List.mem_cons_of_mem _ listed, inside⟩

theorem IsSlug.bytes (slug : IsSlug key) : ∀ b ∈ key, isNameByte b = true ∨ b = slash := by
  intro b inside
  have joined : List.intercalate [slash] (key.splitOn slash) = key := List.intercalate_splitOn slash
  rw [← joined] at inside
  rcases mem_intercalate inside with same | ⟨part, listed, inside⟩
  · exact .inr same
  · left
    obtain ⟨gs, l, split⟩ : ∃ gs l, key.splitOn slash = gs ++ [l] :=
      (List.eq_nil_or_concat' _).resolve_left (List.splitOn_ne_nil _ _)
    have groups := slug.groups
    have last := slug.last
    rw [split, List.dropLast_concat] at groups
    rw [split, List.getLast?_concat] at last
    rw [split, List.mem_append, List.mem_singleton] at listed
    rcases listed with group | rfl
    · exact (groups part group).name b inside
    · exact (last part rfl).name b inside

theorem owner_of_slug (slug : validSlug key = true) : ∃ g rest, key = g ++ slash :: rest ∧ IsGroup g := by
  rw [validSlug, Bool.and_eq_true, slugPattern, accepts_iff, mem_lang_body] at slug
  obtain ⟨-, g, rest, same, group, -⟩ := slug
  exact ⟨g, rest, same, group⟩

/-- The pattern accepts the documented keys. -/
theorem slugPattern_grammar (key : Bytes) :
    (validSlug key = true ↔ IsSlug key) ∧ (valid key = true ↔ validSlug key = true ∨ key = ascii "*") :=
  ⟨validSlug_iff, valid_or⟩

end DevHealth.Repokey

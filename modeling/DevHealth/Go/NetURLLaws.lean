import DevHealth.Go.NetURL

/-! # What `net/url` makes of a URL that was put together

Escaping is undone by unescaping, an escaped path is read back as it was written, and a
scheme, a host and a path joined to one text are found again by `Parse`: no byte of a parsed
host or of an escaped path ends its part early.  The host alone is not always what it was,
since it is decoded a second time. -/
set_option autoImplicit false
namespace DevHealth.Go

open Lib

/-! ## Escaping -/

variable {scheme raw host : Bytes} {s out : Bytes} {mark : UInt8} {p : Bytes} {u v : URL}

section Unescape

variable {mode : Encoding}

theorem unescape_step (c : UInt8) (rest : Bytes) : unescape mode (c :: rest) =
      if c = percent then
        match rest with
        | a :: b :: after =>
          if isHex a && isHex b && mayStandFor mode (unescaped a b) then
            (unescape mode after).map (unescaped a b :: ·)
          else none
        | _ => none
      else if mayStand mode c then (unescape mode rest).map (c :: ·)
      else none := by
  match rest with
  | [] => rfl
  | [_] => rfl
  | _ :: _ :: _ => rfl

theorem unescape_plain {c : UInt8} (plain : c ≠ percent) (stands : mayStand mode c = true) (rest : Bytes) :
    unescape mode (c :: rest) = (unescape mode rest).map (c :: ·) := by
  rw [unescape_step, if_neg plain, if_pos stands]

theorem unescape_escaped {a b : UInt8} (digits : isHex a = true ∧ isHex b = true)
    (stands : mayStandFor mode (unescaped a b) = true) (rest : Bytes) :
    unescape mode (percent :: a :: b :: rest) = (unescape mode rest).map (unescaped a b :: ·) := by
  rw [unescape_step, if_pos rfl]
  simp [digits.1, digits.2, stands]

theorem unescape_cons {c : UInt8} {rest out : Bytes} (read : unescape mode (c :: rest) = some out) :
    (c ≠ percent ∧ mayStand mode c = true ∧ ∃ tail, unescape mode rest = some tail ∧ out = c :: tail) ∨
      ∃ a b after tail, c = percent ∧ rest = a :: b :: after ∧ mayStandFor mode (unescaped a b) = true ∧
        unescape mode after = some tail ∧ out = unescaped a b :: tail := by
  rw [unescape_step] at read
  split_ifs at read with escaped stands
  · split at read
    · rename_i a b after
      split_ifs at read with good
      rw [Bool.and_eq_true] at good
      obtain ⟨tail, unescaped, rfl⟩ := Option.map_eq_some_iff.mp read
      exact .inr ⟨a, b, after, tail, escaped, rfl, good.2, unescaped, rfl⟩
    · cases read
  · obtain ⟨tail, unescaped, rfl⟩ := Option.map_eq_some_iff.mp read
    exact .inl ⟨escaped, stands, tail, unescaped, rfl⟩

/-- What may come out of unescaping: bytes that may stand there, and those that an escape may
stand for. -/
theorem mem_unescape (read : unescape mode s = some out) :
    ∀ v ∈ out, v ≠ percent ∧ mayStand mode v = true ∨ mayStandFor mode v = true := by
  induction length : s.length using Nat.strongRecOn generalizing s out with
  | ind n ih =>
    cases s with
    | nil =>
      cases read
      intro v inside
      cases inside
    | cons c rest =>
      rw [List.length_cons] at length
      rcases unescape_cons read with ⟨plain, stands, tail, later, rfl⟩ |
        ⟨a, b, after, tail, -, rfl, stands, later, rfl⟩
      · rw [List.forall_mem_cons]
        exact ⟨.inl ⟨plain, stands⟩, ih rest.length (by omega) later rfl⟩
      · rw [List.forall_mem_cons]
        simp only [List.length_cons] at length
        exact ⟨.inr stands, ih after.length (by omega) later rfl⟩

/-- A text without a percent sign stays as it is, and every other gets shorter. -/
def Shortened (raw out : Bytes) : Prop :=
  (percent ∉ raw ∧ out = raw) ∨ (percent ∈ raw ∧ out.length < raw.length)

theorem Shortened.refl {s : Bytes} (unmarked : percent ∉ s) : Shortened s s := .inl ⟨unmarked, rfl⟩

theorem Shortened.append {a b a' b' : Bytes} (first : Shortened a a') (second : Shortened b b') :
    Shortened (a ++ b) (a' ++ b') := by
  rw [Shortened, List.mem_append, List.length_append, List.length_append]
  rcases first with ⟨unmarked, rfl⟩ | ⟨marked, shorter⟩
  · rcases second with ⟨alsoUnmarked, rfl⟩ | ⟨marked, shorter⟩
    · exact .inl ⟨not_or.mpr ⟨unmarked, alsoUnmarked⟩, rfl⟩
    · exact .inr ⟨.inr marked, by omega⟩
  · refine .inr ⟨.inl marked, ?_⟩
    rcases second with ⟨-, rfl⟩ | ⟨-, alsoShorter⟩
    · omega
    · omega

theorem Shortened.eq_iff {raw out : Bytes} (shortened : Shortened raw out) : out = raw ↔ percent ∉ raw := by
  rcases shortened with ⟨unmarked, same⟩ | ⟨marked, shorter⟩
  · exact iff_of_true same unmarked
  · refine iff_of_false ?_ (not_not.mpr marked)
    rintro rfl
    omega

theorem Shortened.length_le {raw out : Bytes} (shortened : Shortened raw out) : out.length ≤ raw.length := by
  rcases shortened with ⟨-, rfl⟩ | ⟨-, shorter⟩
  · exact Nat.le_refl _
  · omega

theorem unescape_shortens (read : unescape mode s = some out) : Shortened s out := by
  induction length : s.length using Nat.strongRecOn generalizing s out with
  | ind n ih =>
    cases s with
    | nil =>
      cases read
      exact Shortened.refl List.not_mem_nil
    | cons c rest =>
      rw [List.length_cons] at length
      rcases unescape_cons read with ⟨plain, -, tail, later, rfl⟩ | ⟨a, b, after, tail, rfl, rfl, -, later, rfl⟩
      · have single : percent ∉ [c] := fun inside => plain (List.mem_singleton.mp inside).symm
        exact (Shortened.refl single).append (ih rest.length (by omega) later rfl)
      · simp only [List.length_cons] at length
        have shorter := (ih after.length (by omega) later rfl).length_le
        refine .inr ⟨List.mem_cons_self, ?_⟩
        simp only [List.length_cons]
        omega

end Unescape

theorem upperHex_facts : ∀ n : Fin 16, isHex (upperHex n) = true ∧ hexValue (upperHex n) = n ∧
    (isOneOf "!$&'()*+,;=:@[]%" (upperHex n) || !shouldEscape (upperHex n) .path) = true := by decide

theorem unescaped_upperHex (c : UInt8) : unescaped (upperHex (c.toNat / 16)) (upperHex (c.toNat % 16)) = c := by
  have bound := c.toNat_lt
  have high := (upperHex_facts ⟨c.toNat / 16, by omega⟩).2.1
  have low := (upperHex_facts ⟨c.toNat % 16, by omega⟩).2.1
  simp only at high low
  rw [unescaped, high, low]
  have whole : c.toNat / 16 * 16 + c.toNat % 16 = c.toNat := by omega
  rw [whole, UInt8.ofNat_toNat]

theorem escape_cons (mode : Encoding) (c : UInt8) (s : Bytes) : escape mode (c :: s) =
      (if shouldEscape c mode then [percent, upperHex (c.toNat / 16), upperHex (c.toNat % 16)] else [c]) ++
        escape mode s := by
  rw [escape, List.flatMap_cons, escape]

theorem percent_escaped : shouldEscape percent .path = true := by decide

theorem unescape_escape (s : Bytes) : unescape .path (escape .path s) = some s := by
  induction s with
  | nil => rfl
  | cons c s ih =>
    rw [escape_cons]
    have bound := c.toNat_lt
    split_ifs with special
    · have high := (upperHex_facts ⟨c.toNat / 16, by omega⟩).1
      have low := (upperHex_facts ⟨c.toNat % 16, by omega⟩).1
      simp only [List.cons_append, List.nil_append]
      rw [unescape_escaped ⟨high, low⟩ rfl, ih, unescaped_upperHex]
      rfl
    · have plain : c ≠ percent := by
        rintro rfl
        exact special percent_escaped
      rw [List.singleton_append, unescape_plain plain rfl, ih]
      rfl

theorem validEncoded_escape (s : Bytes) : validEncoded (escape .path s) .path = true := by
  induction s with
  | nil => rfl
  | cons c s ih =>
    rw [validEncoded] at ih ⊢
    rw [escape_cons, List.all_append, ih, Bool.and_true]
    have bound := c.toNat_lt
    split_ifs with special
    · have high := (upperHex_facts ⟨c.toNat / 16, by omega⟩).2.2
      have low := (upperHex_facts ⟨c.toNat % 16, by omega⟩).2.2
      have mark : (isOneOf "!$&'()*+,;=:@[]%" percent || !shouldEscape percent .path) = true := by decide
      simp [mark, high, low]
    · simp [special]

/-! ## Paths -/

def IsPathByte (b : UInt8) : Prop := ¬ b.toNat < 0x20 ∧ b ≠ 0x7F ∧ b ≠ queryMark ∧ b ≠ hashMark

theorem ctl_escaped : ∀ n : Fin 32, (isOneOf "!$&'()*+,;=:@[]%" (UInt8.ofNat n) ||
    !shouldEscape (UInt8.ofNat n) .path) = false := by decide

theorem pathByte_of_valid (valid : validEncoded p .path = true) : ∀ b ∈ p, IsPathByte b := by
  have marks : ∀ b ∈ [0x7F, queryMark, hashMark],
      (isOneOf "!$&'()*+,;=:@[]%" b || !shouldEscape b .path) = false := by decide
  intro b inside
  have holds := List.all_eq_true.mp valid b inside
  refine ⟨?_, ?_, ?_, ?_⟩
  · intro small
    have refused := ctl_escaped ⟨b.toNat, small⟩
    simp only [UInt8.ofNat_toNat] at refused
    rw [refused] at holds
    cases holds
  all_goals
    rintro rfl
    rw [marks _ (by simp)] at holds
    cases holds

/-- An escaped path is well formed, unless it is the star of `OPTIONS`. -/
theorem escapedPath_cases (u : URL) : u.escapedPath = ascii "*" ∨
      (validEncoded u.escapedPath .path = true ∧ ∃ path, unescape .path u.escapedPath = some path) := by
  rw [URL.escapedPath]
  split_ifs with written star
  · exact .inr ⟨written.2.1, u.path, written.2.2⟩
  · exact .inl rfl
  · exact .inr ⟨validEncoded_escape _, u.path, unescape_escape _⟩

theorem escapedPath_setPath (valid : validEncoded p .path = true)
    (rooted : p.head? = some slashMark) (set : u.setPath p = some v) : v.escapedPath = p := by
  obtain ⟨path, read, rfl⟩ := Option.map_eq_some_iff.mp set
  have notStar : path ≠ ascii "*" := by
    rintro rfl
    cases p with
    | nil => cases rooted
    | cons c rest =>
      cases rooted
      have stands : slashMark ≠ percent := by decide
      rcases unescape_cons read with ⟨-, -, tail, -, same⟩ | ⟨a, b, after, tail, isPercent, -⟩
      · have first := (List.cons.inj same).1
        exact absurd first (by decide)
      · exact stands isPercent
  simp only [URL.escapedPath]
  by_cases usual : escape .path path = p
  · simp [usual, notStar]
  · have nonempty : p ≠ [] := by
      rintro rfl
      cases rooted
    simp [usual, nonempty, valid, read]

/-! ## Hosts -/

def IsHostByte (b : UInt8) : Prop :=
  ¬ b.toNat < 0x20 ∧ b ≠ 0x7F ∧ b ≠ slashMark ∧ b ≠ queryMark ∧ b ≠ hashMark ∧ b ≠ atMark

/-- A byte that has to be escaped in a host and in a zone, and cannot be. -/
def IsRefused (b : UInt8) : Prop :=
  b.toNat < 0x80 ∧ b ≠ percent ∧ b ≠ 0x20 ∧ shouldEscape b .host = true ∧ shouldEscape b .zone = true

instance (b : UInt8) : Decidable (IsRefused b) := by
  unfold IsRefused
  infer_instance

theorem refused_ctl : ∀ n : Fin 32, IsRefused (UInt8.ofNat n) := by decide

theorem refused_marks : ∀ b ∈ [0x7F, slashMark, queryMark, hashMark, atMark], IsRefused b := by decide

theorem hostByte_of_not_refused {b : UInt8} (stays : ¬ IsRefused b) : IsHostByte b := by
  refine ⟨?_, ?_, ?_, ?_, ?_, ?_⟩
  · intro small
    have refused := refused_ctl ⟨b.toNat, small⟩
    simp only [UInt8.ofNat_toNat] at refused
    exact stays refused
  all_goals
    rintro rfl
    exact stays (refused_marks _ (by simp))

theorem hostByte_unescape {mode : Encoding} (kind : mode = .host ∨ mode = .zone)
    (read : unescape mode s = some out) : ∀ b ∈ out, IsHostByte b := by
  intro b inside
  apply hostByte_of_not_refused
  intro refused
  obtain ⟨small, notPercent, notSpace, inHost, inZone⟩ := refused
  have large : ¬ 0x80 ≤ b.toNat := by omega
  rcases mem_unescape read b inside with ⟨-, stands⟩ | stands
  · rcases kind with rfl | rfl
    · simp [mayStand, small, inHost] at stands
    · simp [mayStand, small, inZone] at stands
  · rcases kind with rfl | rfl
    · simp [mayStandFor, large, notPercent] at stands
    · simp [mayStandFor, notPercent, notSpace, inHost] at stands

theorem cutLast_eq {sep : UInt8} {s before after : Bytes} (found : cutLast sep s = some (before, after)) :
    s = before ++ sep :: after := by
  rw [cutLast] at found
  split_ifs at found with inside
  obtain ⟨rfl, rfl⟩ := Prod.mk.inj (Option.some.inj found)
  have split := List.takeWhile_append_dropWhile (p := (· != sep)) (l := s.reverse)
  cases behind : s.reverse.dropWhile (· != sep) with
  | nil =>
    rw [List.dropWhile_eq_nil_iff] at behind
    have differs := behind sep (List.mem_reverse.mpr inside)
    rw [bne_self_eq_false] at differs
    cases differs
  | cons c rest =>
    have stops := List.head?_dropWhile_not (· != sep) s.reverse
    rw [behind] at stops
    simp only [List.head?_cons, bne_eq_false_iff_eq] at stops
    subst stops
    rw [behind] at split
    have whole := congrArg List.reverse split
    rw [List.reverse_reverse, List.reverse_append, List.reverse_cons, List.append_assoc] at whole
    exact whole.symm

theorem cutBefore_eq {sep : Bytes} {s before after : Bytes} (found : cutBefore sep s = some (before, after)) :
    s = before ++ after := by
  induction s generalizing before with
  | nil => cases found
  | cons c s ih =>
    rw [cutBefore] at found
    split_ifs at found
    · cases found
      rfl
    · obtain ⟨⟨first, rest⟩, later, same⟩ := Option.map_eq_some_iff.mp found
      cases same
      rw [List.cons_append, ← ih later]

section Parse

variable {isAddress : Bytes → Bool} {mapping : CaseMapping}

theorem parseHost_cases (read : parseHost isAddress scheme raw = some host) : unescape .host raw = some host ∨
      ∃ name port address digits, raw = openBracket :: name ++ closeBracket :: port ∧
        unescapeAddress name = some address ∧ unescape .host port = some digits ∧
        host = openBracket :: address ++ closeBracket :: digits := by
  rw [parseHost] at read
  split_ifs at read with bracket single
  · obtain ⟨⟨name, port⟩, found, read⟩ := Option.bind_eq_some_iff.mp read
    simp only at read
    split_ifs at read
    obtain ⟨digits, behind, read⟩ := Option.bind_eq_some_iff.mp read
    obtain ⟨address, inside, read⟩ := Option.bind_eq_some_iff.mp read
    split_ifs at read
    cases read
    obtain ⟨rest, rfl⟩ := List.head?_eq_some_iff.mp single.1
    have whole := cutLast_eq found
    rw [List.tail_cons] at whole
    subst whole
    exact .inr ⟨name, port, address, digits, rfl, inside, behind, rfl⟩
  · split at read
    · split_ifs at read
      exact .inl read
    · exact .inl read

theorem unescapeAddress_shortens {name address : Bytes} (read : unescapeAddress name = some address) :
    Shortened name address := by
  rw [unescapeAddress] at read
  split at read
  · rename_i front zone found
    obtain ⟨first, one, read⟩ := Option.bind_eq_some_iff.mp read
    obtain ⟨second, two, read⟩ := Option.bind_eq_some_iff.mp read
    cases read
    rw [cutBefore_eq found]
    exact (unescape_shortens one).append (unescape_shortens two)
  · exact unescape_shortens read

theorem parseHost_shortens (read : parseHost isAddress scheme raw = some host) : Shortened raw host := by
  rcases parseHost_cases read with whole | ⟨name, port, address, digits, rfl, inside, behind, rfl⟩
  · exact unescape_shortens whole
  · have opened : Shortened [openBracket] [openBracket] := Shortened.refl (by decide)
    have closed : Shortened [closeBracket] [closeBracket] := Shortened.refl (by decide)
    exact (opened.append (unescapeAddress_shortens inside)).append (closed.append (unescape_shortens behind))

theorem unescapeAddress_bytes {name address : Bytes} (read : unescapeAddress name = some address) :
    ∀ b ∈ address, IsHostByte b := by
  rw [unescapeAddress] at read
  split at read
  · obtain ⟨front, first, read⟩ := Option.bind_eq_some_iff.mp read
    obtain ⟨zone, second, read⟩ := Option.bind_eq_some_iff.mp read
    cases read
    rw [List.forall_mem_append]
    exact ⟨hostByte_unescape (.inl rfl) first, hostByte_unescape (.inr rfl) second⟩
  · exact hostByte_unescape (.inl rfl) read

theorem parseHost_bytes (read : parseHost isAddress scheme raw = some host) : ∀ b ∈ host, IsHostByte b := by
  have brackets : ∀ b ∈ [openBracket, closeBracket], IsHostByte b := by
    intro b inside
    apply hostByte_of_not_refused
    revert b
    decide
  rcases parseHost_cases read with whole | ⟨name, port, address, digits, -, inside, behind, rfl⟩
  · exact hostByte_unescape (.inl rfl) whole
  · rw [List.forall_mem_append, List.forall_mem_cons, List.forall_mem_cons]
    exact ⟨⟨brackets _ (by simp), unescapeAddress_bytes inside⟩, brackets _ (by simp),
      hostByte_unescape (.inl rfl) behind⟩

/-! ## A URL put together -/

theorem takeWhile_all {s : Bytes} (unmarked : mark ∉ s) : s.takeWhile (· != mark) = s := by
  rw [List.takeWhile_eq_self_iff]
  intro b inside
  simp only [bne_iff_ne]
  rintro rfl
  exact unmarked inside

theorem cut_unmarked {s : Bytes} (unmarked : mark ∉ s) : cut mark s = (s, []) := by
  have nothing : s.dropWhile (· != mark) = [] := by
    rw [List.dropWhile_eq_nil_iff]
    intro b inside
    simp only [bne_iff_ne]
    rintro rfl
    exact unmarked inside
  rw [cut, takeWhile_all unmarked, nothing, List.tail_nil]

theorem getScheme_word {first : UInt8} {word rest : Bytes}
    (letter : (between 'a' 'z' first || between 'A' 'Z' first) = true)
    (each : ∀ c ∈ first :: word, (isAlphanumeric c || isOneOf "+-." c) = true) :
    getScheme (first :: word ++ colonMark :: rest) = some (first :: word, rest) := by
  have stops : (isAlphanumeric colonMark || isOneOf "+-." colonMark) = false := by decide
  have taken : (first :: word ++ colonMark :: rest).takeWhile
      (fun c => isAlphanumeric c || isOneOf "+-." c) = first :: word := by
    rw [List.takeWhile_append_of_pos each, List.takeWhile_cons_of_neg (by rw [stops]; decide), List.append_nil]
  rw [getScheme]
  simp only [taken, List.drop_left, if_true, letter]

theorem split_at_mark {s : Bytes} (unmarked : mark ∉ s) (rest : Bytes) :
    (s ++ mark :: rest).takeWhile (· != mark) = s ∧ (s ++ mark :: rest).dropWhile (· != mark) = mark :: rest := by
  have passes : ∀ b ∈ s, (b != mark) = true := by
    intro b inside
    rw [bne_iff_ne]
    rintro rfl
    exact unmarked inside
  rw [List.takeWhile_append_of_pos passes, List.dropWhile_append_of_pos passes]
  simp

theorem parseRest_built {u : URL} {host q : Bytes} (schemed : u.scheme ≠ [])
    (hostBytes : ∀ b ∈ host, IsHostByte b) :
    parseRest isAddress u ([slashMark, slashMark] ++ (host ++ slashMark :: q)) =
      (parseHost isAddress u.scheme host).bind fun host =>
        URL.setPath { u with user := none, host := host } (slashMark :: q) := by
  have noSlash : slashMark ∉ host := fun inside => (hostBytes _ inside).2.2.1 rfl
  have noUser : atMark ∉ host := fun inside => (hostBytes _ inside).2.2.2.2.2 rfl
  have marks : ascii "//" = [slashMark, slashMark] := by decide
  have doubled : (ascii "//").isPrefixOf ([slashMark, slashMark] ++ (host ++ slashMark :: q)) = true := by
    rw [List.isPrefixOf_iff_prefix, marks]
    exact List.prefix_append _ _
  have authority : parseAuthority isAddress u.scheme host =
      (parseHost isAddress u.scheme host).map fun host => (none, host) := by
    rw [parseAuthority, cutLast, if_neg noUser]
  have after : ([slashMark, slashMark] ++ (host ++ slashMark :: q)).drop 2 = host ++ slashMark :: q := rfl
  obtain ⟨taken, dropped⟩ := split_at_mark noSlash q
  rw [parseRest, if_pos ⟨.inl schemed, doubled⟩]
  simp only [after, taken, dropped, authority]
  cases parseHost isAddress u.scheme host with
  | none => rfl
  | some host => rfl

theorem parse_schemed {first : UInt8} {word rest : Bytes}
    (letter : (between 'a' 'z' first || between 'A' 'Z' first) = true)
    (each : ∀ c ∈ first :: word, (isAlphanumeric c || isOneOf "+-." c) = true)
    (lower : toLower mapping (first :: word) = first :: word)
    (pathBytes : ∀ b ∈ first :: word ++ colonMark :: slashMark :: rest, IsPathByte b) :
    parse isAddress mapping (first :: word ++ colonMark :: slashMark :: rest) =
      parseRest isAddress { URL.zero with scheme := first :: word } (slashMark :: rest) := by
  have unmarked : hashMark ∉ first :: word ++ colonMark :: slashMark :: rest :=
    fun inside => (pathBytes _ inside).2.2.2 rfl
  have noControl : containsCTLByte (first :: word ++ colonMark :: slashMark :: rest) = false := by
    rw [containsCTLByte, List.any_eq_false]
    intro b inside
    obtain ⟨ctl, del, -⟩ := pathBytes b inside
    simp [ctl, del]
  have noQuery : queryMark ∉ slashMark :: rest := by
    intro inside
    apply (pathBytes queryMark ?_).2.2.1 rfl
    exact List.mem_append_right _ (List.mem_cons_of_mem _ inside)
  have notLast : (slashMark :: rest).getLast? ≠ some queryMark :=
    fun last => noQuery (List.mem_of_getLast? last)
  have notStar : first :: word ++ colonMark :: slashMark :: rest ≠ ascii "*" := by
    intro same
    have single : (ascii "*").length = 1 := by decide
    have long := congrArg List.length same
    rw [single, List.length_append, List.length_cons, List.length_cons] at long
    omega
  have read : parseURL isAddress mapping (first :: word ++ colonMark :: slashMark :: rest) =
      parseRest isAddress { URL.zero with scheme := first :: word } (slashMark :: rest) := by
    rw [parseURL, noControl, if_neg (by decide), if_neg notStar, getScheme_word letter each]
    simp only [Option.bind_eq_bind, Option.bind_some, lower, notLast, false_and, if_false, cut_unmarked noQuery,
      List.head?_cons, ne_eq, not_true_eq_false]
    rfl
  rw [parse, cut_unmarked unmarked]
  simp only [read, if_true]
  exact Option.bind_fun_some _

theorem parse_built {scheme host p : Bytes} (web : scheme = ascii "http" ∨ scheme = ascii "https")
    (hostBytes : ∀ b ∈ host, IsHostByte b) (pathBytes : ∀ b ∈ p, IsPathByte b)
    (rooted : p.head? = some slashMark) :
    parse isAddress mapping (scheme ++ ascii "://" ++ host ++ p) =
      (parseHost isAddress scheme host).bind fun host =>
        URL.setPath { URL.zero with scheme := scheme, host := host } p := by
  obtain ⟨q, rfl⟩ := List.head?_eq_some_iff.mp rooted
  obtain ⟨first, word, rfl, letter, each, small, lower⟩ : ∃ first word, scheme = first :: word ∧
      (between 'a' 'z' first || between 'A' 'Z' first) = true ∧
      (∀ c ∈ first :: word, (isAlphanumeric c || isOneOf "+-." c) = true) ∧
      (∀ c ∈ first :: word, c.toNat < 0x80) ∧ ∀ c ∈ first :: word, ¬ (65 ≤ c.toNat ∧ c.toNat ≤ 90) := by
    rcases web with rfl | rfl
    · exact ⟨0x68, ascii "ttp", by decide⟩
    · exact ⟨0x68, ascii "ttps", by decide⟩
  have marks : ascii "://" = [colonMark, slashMark, slashMark] := by decide
  have shape : first :: word ++ ascii "://" ++ host ++ slashMark :: q =
      first :: word ++ colonMark :: slashMark :: (slashMark :: (host ++ slashMark :: q)) := by
    simp [marks]
  have allBytes : ∀ b ∈ first :: word ++ colonMark :: slashMark :: (slashMark :: (host ++ slashMark :: q)),
      IsPathByte b := by
    have written : validEncoded (first :: word ++ ascii "://") .path = true := by
      rcases web with same | same
      · rw [same]
        decide
      · rw [same]
        decide
    rw [← shape, List.forall_mem_append, List.forall_mem_append]
    refine ⟨⟨pathByte_of_valid written, ?_⟩, pathBytes⟩
    intro b inside
    obtain ⟨ctl, del, -, query, hash, -⟩ := hostBytes b inside
    exact ⟨ctl, del, query, hash⟩
  rw [shape, parse_schemed letter each (toLower_fixed small lower) allBytes]
  exact parseRest_built (List.cons_ne_nil _ _) hostBytes

/-! ## The host of a parsed URL -/

theorem setPath_host (set : u.setPath p = some v) : v.host = u.host := by
  obtain ⟨path, -, rfl⟩ := Option.map_eq_some_iff.mp set
  rfl

theorem parseAuthority_host {scheme authority : Bytes} {parts : Option (Bytes × Option Bytes) × Bytes}
    (read : parseAuthority isAddress scheme authority = some parts) :
    ∃ raw, parseHost isAddress scheme raw = some parts.2 := by
  rw [parseAuthority] at read
  split at read
  · obtain ⟨host, found, rfl⟩ := Option.map_eq_some_iff.mp read
    exact ⟨authority, found⟩
  · rename_i userinfo rest _
    obtain ⟨host, found, read⟩ := Option.bind_eq_some_iff.mp read
    refine ⟨rest, ?_⟩
    rw [found]
    split_ifs at read
    · obtain ⟨name, -, read⟩ := Option.bind_eq_some_iff.mp read
      obtain ⟨password, -, read⟩ := Option.bind_eq_some_iff.mp read
      cases read
      rfl
    · obtain ⟨name, -, read⟩ := Option.bind_eq_some_iff.mp read
      cases read
      rfl

theorem parseRest_host {rest : Bytes} (empty : u.host = [])
    (read : parseRest isAddress u rest = some v) : ∀ b ∈ v.host, IsHostByte b := by
  have nothing : v.host = [] → ∀ b ∈ v.host, IsHostByte b := by
    intro same b inside
    rw [same] at inside
    cases inside
  rw [parseRest] at read
  split_ifs at read
  · obtain ⟨⟨user, host⟩, found, read⟩ := Option.bind_eq_some_iff.mp read
    obtain ⟨raw, parsed⟩ := parseAuthority_host found
    rw [setPath_host read]
    exact parseHost_bytes parsed
  · apply nothing
    rw [setPath_host read, empty]
  · apply nothing
    rw [setPath_host read, empty]

theorem parseURL_host {raw : Bytes} {u : URL} (read : parseURL isAddress mapping raw = some u) :
    ∀ b ∈ u.host, IsHostByte b := by
  have none : ∀ b ∈ ([] : Bytes), IsHostByte b := by
    intro b inside
    cases inside
  rw [parseURL] at read
  split_ifs at read
  · cases read
    exact none
  · obtain ⟨⟨scheme, rest⟩, -, read⟩ := Option.bind_eq_some_iff.mp read
    simp only at read
    split_ifs at read
    all_goals first
      | cases read; exact none
      | exact parseRest_host rfl read

theorem parse_host {raw : Bytes} {u : URL} (read : parse isAddress mapping raw = some u) :
    ∀ b ∈ u.host, IsHostByte b := by
  obtain ⟨v, parsed, read⟩ := Option.bind_eq_some_iff.mp read
  have bytes := parseURL_host parsed
  split_ifs at read
  · cases read
    exact bytes
  · obtain ⟨fragment, -, read⟩ := Option.bind_eq_some_iff.mp read
    cases read
    exact bytes

end Parse

end DevHealth.Go

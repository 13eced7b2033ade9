import DevHealth.Go.JsonEncode
import DevHealth.Go.JsonMembers
import DevHealth.Go.Runes

/-! # What `json.Marshal` writes can be read

A written string is read back with every byte that is not UTF-8 replaced by U+FFFD; a
written value is the text of a tree and has no control character, so it has no line break. -/
set_option autoImplicit false
namespace DevHealth.Go

open Lib

/-! ## Strings -/

/-- No control character, so no line break. -/
def Printable (s : Bytes) : Prop := ∀ b ∈ s, (0x20 : UInt8) ≤ b

theorem Printable.append {s t : Bytes} (first : Printable s) (second : Printable t) : Printable (s ++ t) := by
  intro b inside
  rcases List.mem_append.mp inside with inside | inside
  · exact first b inside
  · exact second b inside

def Piece.json : Piece → Bytes
  | .invalid _ => encodeRune runeError
  | .rune r =>
    if r < 0x80 then jsonByte (UInt8.ofNat r)
    else if r = 0x2028 ∨ r = 0x2029 then ascii "\\u" ++ hexDigits 4 r
    else encodeRune r

theorem jsonStringBody_step (fuel : Nat) (b : UInt8) (rest : Bytes) :
    ∃ (piece : Piece) (after : Bytes), piece.Valid ∧ after.length ≤ rest.length ∧
      runes (b :: rest) = piece.read :: runes after ∧
      jsonStringBody (fuel + 1) (b :: rest) = piece.json ++ jsonStringBody fuel after := by
  obtain ⟨piece, after, valid, text, shorter, read⟩ := front_piece b rest
  refine ⟨piece, after, valid, shorter, runes_piece text read shorter, ?_⟩
  have dropped : (b :: rest).drop piece.bytes.length = after := by
    rw [text]
    exact List.drop_left
  have taken : (b :: rest).take piece.bytes.length = piece.bytes := by
    rw [text]
    exact List.take_left
  cases piece with
  | invalid c =>
    have large : 0x80 ≤ c.toNat := valid
    obtain ⟨rfl, rfl⟩ := List.cons.inj text
    have notASCII : isASCII b = false := decide_eq_false (by omega)
    simp [jsonStringBody, notASCII, read, Piece.json, Piece.read, Piece.bytes]
  | rune r =>
    have valid : ValidRune r := valid
    by_cases small : r < 0x80
    · rw [Piece.bytes, encodeRune_ascii small] at text
      obtain ⟨rfl, rfl⟩ := List.cons.inj text
      have byte := toNat_ofNat_small (n := r) (by omega)
      have isASCII : isASCII (UInt8.ofNat r) = true := decide_eq_true (by omega)
      rw [jsonStringBody, if_pos isASCII, Piece.json, if_pos small]
    · obtain ⟨c, tail, sequence, head⟩ := encodeRune_head valid
      have same : b = c := by
        rw [Piece.bytes, sequence] at text
        exact (List.cons.inj text).1
      have notASCII : isASCII b = false := decide_eq_false (by rw [same]; omega)
      have isRune : ¬ ((encodeRune r).length = 1 ∧ r = runeError) := by
        intro both
        rw [both.2] at both
        exact absurd both.1 (by decide)
      rw [Piece.bytes] at read dropped taken
      simp [jsonStringBody, notASCII, read, Piece.read, isRune, dropped, taken, Piece.json, small]

theorem hexDigit_facts {n : Nat} (small : n < 16) :
    isHex (hexDigit n) = true ∧ hexValue (hexDigit n) = n ∧ (0x20 : UInt8) ≤ hexDigit n := by
  have each : ∀ i : Fin 16, isHex (hexDigit i.val) = true ∧ hexValue (hexDigit i.val) = i.val ∧
      (0x20 : UInt8) ≤ hexDigit i.val := by decide
  exact each ⟨n, small⟩

theorem hexDigits_four (n : Nat) :
    hexDigits 4 n = [hexDigit (n / 4096 % 16), hexDigit (n / 256 % 16), hexDigit (n / 16 % 16),
      hexDigit (n % 16)] := by
  simp [hexDigits, Nat.div_div_eq_div_mul]

theorem hexDigits_two {n : Nat} (small : n < 256) :
    ascii "\\u00" ++ hexDigits 2 n = ascii "\\u" ++ hexDigits 4 n := by
  have high : n / 4096 % 16 = 0 ∧ n / 256 % 16 = 0 := by omega
  have zero : ascii "\\u00" = ascii "\\u" ++ [hexDigit 0, hexDigit 0] := by decide
  rw [hexDigits_four, high.1, high.2, zero]
  simp [hexDigits]

variable {members : List (Bytes × Bytes)} {piece : Piece} {r : Nat}

theorem unicode_read (bound : r < 0x10000) (plain : isSurrogate r = false) (fuel : Nat)
    (x : Bytes) : unquoteLoop (fuel + 1) (ascii "\\u" ++ hexDigits 4 r ++ x) =
      encodeRune r ++ unquoteLoop fuel x := by
  have a := hexDigit_facts (Nat.mod_lt (r / 4096) (by decide : 16 > 0))
  have b := hexDigit_facts (Nat.mod_lt (r / 256) (by decide : 16 > 0))
  have c := hexDigit_facts (Nat.mod_lt (r / 16) (by decide : 16 > 0))
  have d := hexDigit_facts (Nat.mod_lt r (by decide : 16 > 0))
  have mark : ascii "\\u" = [0x5C, 0x75] := by decide
  have value : ((r / 4096 % 16 * 16 + r / 256 % 16) * 16 + r / 16 % 16) * 16 + r % 16 = r := by omega
  have unit : getu4 (0x5C :: 0x75 :: hexDigit (r / 4096 % 16) :: hexDigit (r / 256 % 16) ::
      hexDigit (r / 16 % 16) :: hexDigit (r % 16) :: x) = some r := by
    rw [getu4]
    simp [a.1, b.1, c.1, d.1, a.2.1, b.2.1, c.2.1, d.2.1, value]
  rw [hexDigits_four, mark]
  simp only [List.cons_append, List.nil_append]
  rw [unquoteLoop, if_pos (by decide), unit]
  simp [plain]

theorem unicode_content {rest : Bytes} (content : IsContent rest) :
    IsContent (ascii "\\u" ++ hexDigits 4 r ++ rest) := by
  have mark : ascii "\\u" = [backslash, 0x75] := by decide
  rw [hexDigits_four, mark]
  have digit := fun n : Nat => (hexDigit_facts (Nat.mod_lt n (by decide : 16 > 0))).1
  exact .unicode (digit _) (digit _) (digit _) (digit _) content

theorem unicode_printable (r : Nat) : Printable (ascii "\\u" ++ hexDigits 4 r) := by
  have digit := fun n : Nat => (hexDigit_facts (Nat.mod_lt n (by decide : 16 > 0))).2.2
  apply Printable.append
  · unfold Printable
    decide
  · rw [hexDigits_four]
    intro b inside
    simp only [List.mem_cons, List.not_mem_nil, or_false] at inside
    rcases inside with rfl | rfl | rfl | rfl
    all_goals exact digit _

theorem jsonByte_cases (b : UInt8) : (jsonByte b = [b] ∧ b ≠ quoteMark ∧ b ≠ backslash ∧ 0x20 ≤ b) ∨
      (∃ c, jsonByte b = [backslash, c] ∧ isShortEscape c = true ∧ c ≠ 0x75 ∧ 0x20 ≤ c ∧ shortEscape c = b) ∨
      jsonByte b = ascii "\\u" ++ hexDigits 4 b.toNat := by
  have byte := b.toNat_lt
  unfold jsonByte
  split_ifs with special back form line carriage tab control
  · right; left
    rcases special with rfl | rfl
    · exact ⟨0x22, rfl, by decide, by decide, by decide, rfl⟩
    · exact ⟨0x5C, rfl, by decide, by decide, by decide, rfl⟩
  · exact .inr (.inl ⟨0x62, by decide, by decide, by decide, by decide, back.symm⟩)
  · exact .inr (.inl ⟨0x66, by decide, by decide, by decide, by decide, form.symm⟩)
  · exact .inr (.inl ⟨0x6E, by decide, by decide, by decide, by decide, line.symm⟩)
  · exact .inr (.inl ⟨0x72, by decide, by decide, by decide, by decide, carriage.symm⟩)
  · exact .inr (.inl ⟨0x74, by decide, by decide, by decide, by decide, tab.symm⟩)
  · exact .inr (.inr (hexDigits_two (by omega)))
  · left
    refine ⟨rfl, fun quote => special (.inl quote), fun slash => special (.inr slash), ?_⟩
    exact UInt8.not_lt.mp fun low => control (.inl low)

theorem encodeRune_large (valid : ValidRune r) (large : 0x80 ≤ r) : ∀ b ∈ encodeRune r, 0x80 ≤ b.toNat := by
  obtain ⟨bound, plain⟩ := valid
  intro b inside
  by_cases two : r < 0x800
  · rw [encodeRune_two large two] at inside
    simp only [List.mem_cons, List.not_mem_nil, or_false] at inside
    rcases inside with rfl | rfl
    all_goals
      rw [toNat_ofNat_small (by omega)]
      omega
  by_cases three : r < 0x10000
  · rw [encodeRune_three (by omega) three plain] at inside
    simp only [List.mem_cons, List.not_mem_nil, or_false] at inside
    rcases inside with rfl | rfl | rfl
    all_goals
      rw [toNat_ofNat_small (by omega)]
      omega
  · rw [encodeRune_four (by omega) bound] at inside
    simp only [List.mem_cons, List.not_mem_nil, or_false] at inside
    rcases inside with rfl | rfl | rfl | rfl
    all_goals
      rw [toNat_ofNat_small (by omega)]
      omega

theorem Piece.json_cases (valid : piece.Valid) : (piece.json = encodeRune piece.read ∧
        ∀ b ∈ encodeRune piece.read, b ≠ quoteMark ∧ b ≠ backslash ∧ 0x20 ≤ b) ∨
      (∃ c, piece.json = [backslash, c] ∧ isShortEscape c = true ∧ c ≠ 0x75 ∧ 0x20 ≤ c ∧
        [shortEscape c] = encodeRune piece.read) ∨
      (piece.read < 0x10000 ∧ piece.json = ascii "\\u" ++ hexDigits 4 piece.read) := by
  cases piece with
  | invalid b =>
    have plain : ∀ b ∈ encodeRune runeError, b ≠ quoteMark ∧ b ≠ backslash ∧ 0x20 ≤ b := by
      decide
    exact .inl ⟨rfl, plain⟩
  | rune r =>
    have valid : ValidRune r := valid
    by_cases small : r < 0x80
    · have byte := toNat_ofNat_small (n := r) (by omega)
      have json : (Piece.rune r).json = jsonByte (UInt8.ofNat r) := by rw [Piece.json, if_pos small]
      rw [json, Piece.read, encodeRune_ascii small]
      rcases jsonByte_cases (UInt8.ofNat r) with ⟨plain, facts⟩ | ⟨c, short, facts⟩ | unicode
      · left
        refine ⟨plain, ?_⟩
        intro b inside
        rw [List.mem_singleton.mp inside]
        exact facts
      · right; left
        exact ⟨c, short, facts.1, facts.2.1, facts.2.2.1, by rw [facts.2.2.2]⟩
      · right; right
        rw [byte] at unicode
        exact ⟨lt_trans small (by decide), unicode⟩
    · by_cases separator : r = 0x2028 ∨ r = 0x2029
      · right; right
        rw [Piece.json, if_neg small, if_pos separator]
        have bound : r < 0x10000 := by omega
        exact ⟨bound, rfl⟩
      · left
        rw [Piece.json, if_neg small, if_neg separator]
        refine ⟨rfl, ?_⟩
        intro b inside
        have large := encodeRune_large valid (by omega) b inside
        refine ⟨?_, ?_, ?_⟩
        · intro same
          rw [same] at large
          exact absurd large (by decide)
        · intro same
          rw [same] at large
          exact absurd large (by decide)
        · exact UInt8.le_iff_toNat_le.mpr (le_trans (by decide) large)

theorem content_append {s rest : Bytes}
    (plain : ∀ b ∈ s, b ≠ quoteMark ∧ b ≠ backslash ∧ (0x20 : UInt8) ≤ b) (content : IsContent rest) :
    IsContent (s ++ rest) := by
  induction s with
  | nil => exact content
  | cons b s ih =>
    obtain ⟨notQuote, notBackslash, printable⟩ := plain b (List.mem_cons_self ..)
    exact .plain notQuote notBackslash printable (ih fun c inside => plain c (List.mem_cons_of_mem _ inside))

theorem Piece.json_content (valid : piece.Valid) {rest : Bytes} (content : IsContent rest) :
    IsContent (piece.json ++ rest) := by
  rcases Piece.json_cases valid with ⟨json, plain⟩ | ⟨c, json, short, -⟩ | ⟨-, json⟩
  · rw [json]
    exact content_append plain content
  · rw [json]
    exact .short short content
  · rw [json]
    exact unicode_content content

theorem Piece.json_printable (valid : piece.Valid) : Printable piece.json := by
  rcases Piece.json_cases valid with ⟨json, plain⟩ | ⟨c, json, -, -, printable, -⟩ | ⟨-, json⟩
  · rw [json]
    exact fun b inside => (plain b inside).2.2
  · rw [json]
    intro b inside
    simp only [List.mem_cons, List.not_mem_nil, or_false] at inside
    rcases inside with rfl | rfl
    · decide
    · exact printable
  · rw [json]
    exact unicode_printable _

theorem shortEscape_read {c : UInt8} (notUnicode : c ≠ 0x75) (fuel : Nat) (x : Bytes) :
    unquoteLoop (fuel + 1) ([backslash, c] ++ x) = [shortEscape c] ++ unquoteLoop fuel x := by
  have unit : getu4 (backslash :: c :: x) = none := by
    unfold getu4
    split
    · rename_i same
      exact absurd (List.cons.inj (List.cons.inj same).2).1 notUnicode
    · rfl
  simp [unquoteLoop, unit]

theorem plain_read (valid : ValidRune r)
    (plain : ∀ b ∈ encodeRune r, b ≠ quoteMark ∧ b ≠ backslash ∧ (0x20 : UInt8) ≤ b) (fuel : Nat)
    (x : Bytes) :
    unquoteLoop (fuel + 1) (encodeRune r ++ x) = encodeRune r ++ unquoteLoop fuel x := by
  obtain ⟨b, tail, sequence⟩ := encodeRune_nonempty valid
  have notBackslash := (plain b (by rw [sequence]; exact List.mem_cons_self ..)).2.1
  have read := decodeRune_encode valid x
  have dropped : (encodeRune r ++ x).drop (encodeRune r).length = x := List.drop_left
  rw [sequence, List.cons_append] at read dropped ⊢
  simp only [unquoteLoop, notBackslash, if_false]
  by_cases small : b.toNat < 0x80
  · have one : decodeRune (b :: (tail ++ x)) = (b.toNat, 1) := by simp [decodeRune, small]
    have single : tail = [] := by
      have length := (Prod.mk.inj (one.symm.trans read)).2
      rw [List.length_cons] at length
      exact List.length_eq_zero_iff.mp (by omega)
    rw [if_pos small, single]
    rfl
  · rw [if_neg small, read]
    simp only [dropped, sequence]

theorem Piece.json_read (valid : piece.Valid) (fuel : Nat) (x : Bytes) :
    unquoteLoop (fuel + 1) (piece.json ++ x) = encodeRune piece.read ++ unquoteLoop fuel x := by
  have isRune := Piece.read_valid valid
  rcases Piece.json_cases valid with ⟨json, plain⟩ | ⟨c, json, -, notUnicode, -, same⟩ | ⟨bound, json⟩
  · rw [json]
    exact plain_read isRune plain fuel x
  · rw [json, shortEscape_read notUnicode, same]
  · rw [json]
    exact unicode_read bound isRune.2 fuel x

/-- What is written between the quotes is well formed, has no control character, and is read
as the text with its invalid bytes replaced. -/
theorem jsonStringBody_spec (s : Bytes) :
    ∀ fuel, s.length ≤ fuel → IsContent (jsonStringBody fuel s) ∧ Printable (jsonStringBody fuel s) ∧
      ∀ fuel', (jsonStringBody fuel s).length ≤ fuel' →
        unquoteLoop fuel' (jsonStringBody fuel s) = toValidUTF8 s := by
  induction length : s.length using Nat.strongRecOn generalizing s with
  | ind n ih =>
    intro fuel enough
    cases s with
    | nil =>
      have nothing : jsonStringBody fuel [] = [] := by cases fuel <;> rfl
      rw [nothing]
      refine ⟨.nil, ?_, ?_⟩
      · intro b inside
        cases inside
      · intro fuel' _
        cases fuel' <;> rfl
    | cons b rest =>
      rw [List.length_cons] at length
      cases fuel with
      | zero => omega
      | succ fuel =>
        obtain ⟨piece, after, valid, shorter, read, written⟩ := jsonStringBody_step fuel b rest
        obtain ⟨content, printable, unquoted⟩ := ih after.length (by omega) after rfl fuel (by omega)
        rw [written]
        refine ⟨Piece.json_content valid content, (Piece.json_printable valid).append printable, ?_⟩
        intro fuel' enough'
        have positive : 0 < piece.json.length := by
          rcases Piece.json_cases valid with ⟨json, -⟩ | ⟨c, json, -⟩ | ⟨-, json⟩
          · obtain ⟨c, tail, sequence⟩ := encodeRune_nonempty (Piece.read_valid valid)
            rw [json, sequence]
            exact Nat.succ_pos _
          · rw [json]
            exact Nat.succ_pos _
          · rw [json, hexDigits_four, List.length_append]
            exact Nat.add_pos_right _ (Nat.succ_pos _)
        rw [List.length_append] at enough'
        obtain ⟨less, rfl⟩ : ∃ less, fuel' = less + 1 := Nat.exists_eq_add_one.mpr (by omega)
        rw [Piece.json_read valid, unquoted less (by omega), toValidUTF8, toValidUTF8, read,
          List.flatMap_cons]

def jsonContent (s : Bytes) : Bytes := jsonStringBody s.length s

theorem content_jsonContent (s : Bytes) : IsContent (jsonContent s) :=
  (jsonStringBody_spec s s.length (Nat.le_refl _)).1

theorem unquote_jsonContent (s : Bytes) : unquote (jsonContent s) = toValidUTF8 s :=
  (jsonStringBody_spec s s.length (Nat.le_refl _)).2.2 _ (Nat.le_refl _)

theorem printable_jsonString (s : Bytes) : Printable (jsonString s) := by
  have inner := (jsonStringBody_spec s s.length (Nat.le_refl _)).2.1
  have mark : Printable (ascii "\"") := by
    unfold Printable
    decide
  exact (mark.append inner).append mark

/-! ## Containers -/

section Containers

variable {b : Box}

def tailOf : List (Label b × Json .value) → Json (.tail b)
  | [] => .close [] isBlank_nil
  | (label, value) :: rest => .next [] isBlank_nil label [] isBlank_nil value (tailOf rest)

def bodyOf : List (Label b × Json .value) → Json (.body b)
  | [] => .empty [] isBlank_nil
  | (label, value) :: rest => .first label [] isBlank_nil value (tailOf rest)

def elementText (element : Label b × Json .value) : Bytes := element.1.text ++ element.2.text

theorem text_tailOf (elements : List (Label b × Json .value)) (text : Bytes) :
    text ++ (tailOf elements).text =
      List.intercalate [comma] (text :: elements.map elementText) ++ [b.closes] := by
  induction elements generalizing text with
  | nil => simp [tailOf, Json.text, List.intercalate]
  | cons element rest ih =>
    obtain ⟨label, value⟩ := element
    have later := ih (elementText (label, value))
    simp only [elementText, List.append_assoc] at later
    simp [tailOf, Json.text, later, List.intercalate, elementText]

theorem text_bodyOf (elements : List (Label b × Json .value)) : (Json.box (bodyOf elements)).text =
      b.opens :: (List.intercalate [comma] (elements.map elementText) ++ [b.closes]) := by
  cases elements with
  | nil => simp [bodyOf, Json.text, List.intercalate]
  | cons element rest =>
    obtain ⟨label, value⟩ := element
    have later := text_tailOf rest (elementText (label, value))
    simp only [elementText, List.append_assoc] at later
    simp [bodyOf, Json.text, later, elementText]

theorem entries_tailOf (elements : List (Label b × Json .value)) :
    (tailOf elements).entries = elements.map fun e => (e.1.content, e.2) := by
  induction elements with
  | nil => rfl
  | cons element rest ih => simp [tailOf, Json.entries, ih]

theorem entries_bodyOf (elements : List (Label b × Json .value)) :
    (bodyOf elements).entries = elements.map fun e => (e.1.content, e.2) := by
  cases elements with
  | nil => rfl
  | cons element rest => simp [bodyOf, Json.entries, entries_tailOf]

end Containers

def nameLabel (key : Bytes) : Label .object :=
  .name [] (jsonContent key) [] isBlank_nil (content_jsonContent key) isBlank_nil

def stringTree (s : Bytes) : Json .value := .str (jsonContent s) (content_jsonContent s)

theorem text_stringTree (s : Bytes) : (stringTree s).text = jsonString s := by
  have mark : ascii "\"" = [quoteMark] := by decide
  rw [jsonString, mark]
  simp [stringTree, Json.text, jsonContent]

def objectTree (members : List (Bytes × Json .value)) : Json (.body .object) :=
  bodyOf (members.map fun m => (nameLabel m.1, m.2))

theorem text_objectTree (members : List (Bytes × Json .value)) :
    (Json.box (objectTree members)).text = jsonObject (members.map fun m => (m.1, m.2.text)) := by
  have marks : ascii "," = [comma] ∧ ascii ":" = [colon] ∧ ascii "\"" = [quoteMark] ∧
      ascii "\x7b" = [Box.object.opens] ∧ ascii "\x7d" = [Box.object.closes] := by decide
  rw [objectTree, text_bodyOf, jsonObject, List.map_map, List.map_map]
  have each : (elementText ∘ fun m : Bytes × Json .value => (nameLabel m.1, m.2)) =
      (fun m : Bytes × Bytes => jsonString m.1 ++ ascii ":" ++ m.2) ∘ fun m => (m.1, m.2.text) := by
    funext m
    simp [elementText, nameLabel, Label.text, jsonString, jsonContent, marks.2.1, marks.2.2.1]
  rw [each, marks.1, marks.2.2.2.1, marks.2.2.2.2]
  rfl

theorem entries_objectTree (members : List (Bytes × Json .value)) :
    (objectTree members).entries = members.map fun m => (jsonContent m.1, m.2) := by
  rw [objectTree, entries_bodyOf, List.map_map]
  rfl

/-! ## Values -/

mutual

theorem marshal_tree : ∀ v : JsonValue, ∃ t : Json .value, t.text = marshal v
  | .null => ⟨.null, by rw [marshal, Json.text]⟩
  | .bool true => ⟨.bool true, by rw [marshal, Json.text]; rfl⟩
  | .bool false => ⟨.bool false, by rw [marshal, Json.text]; rfl⟩
  | .num text valid => ⟨.num text valid, by rw [marshal, Json.text]⟩
  | .str s => ⟨stringTree s, by rw [marshal, text_stringTree]⟩
  | .arr items => by
      obtain ⟨trees, texts⟩ := marshalItems_trees items
      refine ⟨.box (bodyOf (trees.map fun t => (Label.item, t))), ?_⟩
      have marks : ascii "," = [comma] ∧ ascii "[" = [Box.array.opens] ∧
          ascii "]" = [Box.array.closes] := by decide
      rw [marshal, text_bodyOf, ← texts, List.map_map, marks.1, marks.2.1, marks.2.2]
      rfl
  | .obj members => by
      obtain ⟨trees, texts⟩ := marshalMembers_trees members
      refine ⟨.box (objectTree (trees.insertionSort fun a b => a.1 ≤ b.1)), ?_⟩
      have sorted : (trees.insertionSort fun a b => a.1 ≤ b.1).map (fun m => (m.1, m.2.text)) =
          (marshalMembers members).insertionSort fun a b => a.1 ≤ b.1 := by
        rw [← texts]
        exact List.map_insertionSort _ _ _ _ fun a _ b _ => Iff.rfl
      rw [text_objectTree, sorted, marshal, jsonObject]

theorem marshalItems_trees : ∀ items : List JsonValue,
    ∃ trees : List (Json .value), trees.map Json.text = marshalItems items
  | [] => ⟨[], by rw [marshalItems]; rfl⟩
  | item :: items => by
      obtain ⟨t, text⟩ := marshal_tree item
      obtain ⟨trees, texts⟩ := marshalItems_trees items
      refine ⟨t :: trees, ?_⟩
      rw [marshalItems, List.map_cons, text, texts]

theorem marshalMembers_trees : ∀ members : List (Bytes × JsonValue),
    ∃ trees : List (Bytes × Json .value), trees.map (fun m => (m.1, m.2.text)) = marshalMembers members
  | [] => ⟨[], by rw [marshalMembers]; rfl⟩
  | (key, value) :: members => by
      obtain ⟨t, text⟩ := marshal_tree value
      obtain ⟨trees, texts⟩ := marshalMembers_trees members
      refine ⟨(key, t) :: trees, ?_⟩
      rw [marshalMembers, List.map_cons, text, texts]

end

theorem Printable.intercalate {separator : Bytes} {texts : List Bytes} (mark : Printable separator)
    (each : ∀ text ∈ texts, Printable text) : Printable (List.intercalate separator texts) := by
  induction texts with
  | nil =>
    intro b inside
    cases inside
  | cons text rest ih =>
    have first := each text (List.mem_cons_self ..)
    have later := ih fun text inside => each text (List.mem_cons_of_mem _ inside)
    cases rest with
    | nil => simpa [List.intercalate] using first
    | cons next rest =>
      have shape : List.intercalate separator (text :: next :: rest) =
          text ++ (separator ++ List.intercalate separator (next :: rest)) := by
        simp [List.intercalate]
      rw [shape]
      exact first.append (mark.append later)

theorem printable_jsonObject (each : ∀ m ∈ members, Printable m.2) : Printable (jsonObject members) := by
  have marks : Printable (ascii ",") ∧ Printable (ascii ":") ∧ Printable (ascii "\x7b") ∧
      Printable (ascii "\x7d") := by
    unfold Printable
    decide
  obtain ⟨separator, colon, opening, closing⟩ := marks
  refine (opening.append (Printable.intercalate separator ?_)).append closing
  rw [List.forall_mem_map]
  intro m inside
  exact ((printable_jsonString m.1).append colon).append (each m inside)

theorem printable_of_ink {s : Bytes} (ink : ∀ b ∈ s, isInk b = true) : Printable s := by
  intro b inside
  have between := ink b inside
  simp only [isInk, Bool.and_eq_true, decide_eq_true_eq] at between
  have space : (0x20 : UInt8).toNat ≤ 0x21 := by decide
  exact UInt8.le_iff_toNat_le.mpr (Nat.le_trans space between.1)

mutual

theorem printable_marshal : ∀ v : JsonValue, Printable (marshal v)
  | .null => by
      rw [marshal]
      unfold Printable
      decide
  | .bool b => by
      rw [marshal]
      unfold Printable
      cases b <;> decide
  | .num text valid => by
      rw [marshal]
      exact printable_of_ink (number_ink valid)
  | .str s => by
      rw [marshal]
      exact printable_jsonString s
  | .arr items => by
      have marks : Printable (ascii ",") ∧ Printable (ascii "[") ∧ Printable (ascii "]") := by
        unfold Printable
        decide
      obtain ⟨separator, opening, closing⟩ := marks
      rw [marshal]
      exact (opening.append (separator.intercalate (printable_marshalItems items))).append closing
  | .obj members => by
      rw [marshal]
      apply printable_jsonObject
      intro m inside
      exact printable_marshalMembers members m (List.mem_insertionSort _ |>.mp inside)

theorem printable_marshalItems : ∀ items : List JsonValue, ∀ text ∈ marshalItems items, Printable text
  | [] => by
      rw [marshalItems]
      intro text inside
      cases inside
  | item :: items => by
      rw [marshalItems, List.forall_mem_cons]
      exact ⟨printable_marshal item, printable_marshalItems items⟩

theorem printable_marshalMembers : ∀ members : List (Bytes × JsonValue),
    ∀ m ∈ marshalMembers members, Printable m.2
  | [] => by
      rw [marshalMembers]
      intro m inside
      cases inside
  | (key, value) :: members => by
      rw [marshalMembers, List.forall_mem_cons]
      exact ⟨printable_marshal value, printable_marshalMembers members⟩

end

structure Written (text : Bytes) : Prop where
  tree : ∃ t : Json .value, t.text = text
  printable : Printable text

theorem written_string (s : Bytes) : Written (jsonString s) :=
  ⟨⟨stringTree s, text_stringTree s⟩, printable_jsonString s⟩

theorem written_true : Written (ascii "true") := by
  refine ⟨⟨.bool true, by rw [Json.text]⟩, ?_⟩
  unfold Printable
  decide

theorem written_int (n : Int) : Written (formatInt n) :=
  ⟨⟨.num _ (isNumber_formatInt n), by rw [Json.text]⟩, printable_of_ink (number_ink (isNumber_formatInt n))⟩

theorem written_marshal (v : JsonValue) : Written (marshal v) := ⟨marshal_tree v, printable_marshal v⟩

theorem exists_trees (each : ∀ m ∈ members, ∃ t : Json .value, t.text = m.2) :
    ∃ trees : List (Bytes × Json .value), trees.map (fun m => (m.1, m.2.text)) = members := by
  induction members with
  | nil => exact ⟨[], rfl⟩
  | cons m members ih =>
    obtain ⟨t, text⟩ := each m (List.mem_cons_self ..)
    obtain ⟨trees, texts⟩ := ih fun m inside => each m (List.mem_cons_of_mem _ inside)
    refine ⟨(m.1, t) :: trees, ?_⟩
    rw [List.map_cons, texts, text]

theorem written_object (each : ∀ m ∈ members, Written m.2) : Written (jsonObject members) := by
  obtain ⟨trees, texts⟩ := exists_trees fun m inside => (each m inside).tree
  refine ⟨⟨.box (objectTree trees), ?_⟩, printable_jsonObject fun m inside => (each m inside).printable⟩
  rw [text_objectTree, texts]

end DevHealth.Go

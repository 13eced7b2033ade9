import Mathlib.Data.List.Basic

/-! # Bracketed lists of quoted elements

A list is written between two brackets, its elements between quotes and apart by commas; a
quote inside an element is written twice.  The reader goes over the text symbol by symbol;
`read_write` says that it gives back every list that was written. -/
set_option autoImplicit false
namespace DevHealth.Lib

variable {α : Type}

/-- The symbols of the format.  After a quote inside an element the next symbol decides
whether the element goes on, so the three that can stand there are distinct. -/
structure ListMarks (α : Type) where
  opening : α
  closing : α
  comma : α
  quote : α
  closing_ne_quote : closing ≠ quote
  comma_ne_quote : comma ≠ quote
  closing_ne_comma : closing ≠ comma

namespace ListMarks

variable [DecidableEq α] (m : ListMarks α)

def escaped (a : α) : List α := if a = m.quote then [m.quote, m.quote] else [a]

def quoted (word : List α) : List α := m.quote :: (word.flatMap m.escaped ++ [m.quote])

def others (words : List (List α)) : List α := words.flatMap fun word => m.comma :: m.quoted word

def items : List (List α) → List α
  | [] => []
  | word :: words => m.quoted word ++ m.others words

def write (words : List (List α)) : List α := m.opening :: (m.items words ++ [m.closing])

/-! ## The reader -/

/-- Where the reader is.  `after` is past a quote inside a word: the word goes on if another
quote follows, and has ended if not. -/
inductive Place (α : Type) where
  | start
  | first
  | element
  | inside (word : List α)
  | after (word : List α)
  | finished
  deriving DecidableEq

structure Reader (α : Type) where
  words : List (List α)
  place : Place α
  deriving DecidableEq

def step (r : Reader α) (a : α) : Option (Reader α) :=
  match r.place with
  | .start => if a = m.opening then some ⟨r.words, .first⟩ else none
  | .first =>
    if a = m.closing then some ⟨r.words, .finished⟩
    else if a = m.quote then some ⟨r.words, .inside []⟩
    else none
  | .element => if a = m.quote then some ⟨r.words, .inside []⟩ else none
  | .inside word =>
    if a = m.quote then some ⟨r.words, .after word⟩ else some ⟨r.words, .inside (word ++ [a])⟩
  | .after word =>
    if a = m.quote then some ⟨r.words, .inside (word ++ [m.quote])⟩
    else if a = m.comma then some ⟨r.words ++ [word], .element⟩
    else if a = m.closing then some ⟨r.words ++ [word], .finished⟩
    else none
  | .finished => none

def run (r : Reader α) (text : List α) : Option (Reader α) := text.foldlM m.step r

def read (text : List α) : Option (List (List α)) :=
  match m.run ⟨[], .start⟩ text with
  | some ⟨words, .finished⟩ => some words
  | _ => none

theorem run_append (r : Reader α) (front back : List α) :
    m.run r (front ++ back) = (m.run r front).bind fun s => m.run s back := by
  rw [run, List.foldlM_append]
  rfl

theorem run_cons (r : Reader α) (a : α) (text : List α) :
    m.run r (a :: text) = (m.step r a).bind fun s => m.run s text := by
  rw [run, List.foldlM_cons]
  rfl

theorem run_nil (r : Reader α) : m.run r [] = some r := rfl

theorem run_escaped (words : List (List α)) (word : List α) (a : α) :
    m.run ⟨words, .inside word⟩ (m.escaped a) = some ⟨words, .inside (word ++ [a])⟩ := by
  by_cases quote : a = m.quote
  · rw [escaped, if_pos quote, run_cons]
    simp only [step, if_pos, Option.bind_some]
    rw [run_cons]
    simp only [step, if_pos, Option.bind_some, run_nil, quote]
  · rw [escaped, if_neg quote, run_cons]
    simp [step, if_neg quote, run_nil]

theorem run_word (words : List (List α)) (rest : List α) :
    ∀ word, m.run ⟨words, .inside word⟩ (rest.flatMap m.escaped) = some ⟨words, .inside (word ++ rest)⟩ := by
  induction rest with
  | nil =>
    intro word
    rw [List.flatMap_nil, run_nil, List.append_nil]
  | cons a rest ih =>
    intro word
    rw [List.flatMap_cons, run_append, run_escaped, Option.bind_some, ih, List.append_assoc,
      List.singleton_append]

theorem run_body (words : List (List α)) (word : List α) :
    m.run ⟨words, .inside []⟩ (word.flatMap m.escaped ++ [m.quote]) = some ⟨words, .after word⟩ := by
  rw [run_append, run_word, Option.bind_some, List.nil_append, run_cons]
  simp only [step, if_pos, Option.bind_some, run_nil]

theorem run_quoted {place : Place α} (expects : place = .first ∨ place = .element)
    (words : List (List α)) (word : List α) :
    m.run ⟨words, place⟩ (m.quoted word) = some ⟨words, .after word⟩ := by
  have opens : m.step ⟨words, place⟩ m.quote = some ⟨words, .inside []⟩ := by
    rcases expects with rfl | rfl
    · simp only [step, if_neg m.closing_ne_quote.symm, if_pos]
    · simp only [step, if_pos]
  rw [quoted, run_cons, opens, Option.bind_some, run_body]

theorem run_others (rest : List (List α)) : ∀ (words : List (List α)) (word : List α),
      m.run ⟨words, .after word⟩ (m.others rest ++ [m.closing]) =
        some ⟨words ++ word :: rest, .finished⟩ := by
  induction rest with
  | nil =>
    intro words word
    rw [others, List.flatMap_nil, List.nil_append, run_cons]
    simp only [step, if_neg m.closing_ne_quote, if_neg m.closing_ne_comma, if_pos, Option.bind_some, run_nil]
  | cons next rest ih =>
    intro words word
    have comma : m.step ⟨words, .after word⟩ m.comma = some ⟨words ++ [word], .element⟩ := by
      simp only [step, if_neg m.comma_ne_quote, if_pos]
    rw [others, List.flatMap_cons, ← others, List.cons_append, List.cons_append, run_cons,
      comma, Option.bind_some, List.append_assoc, run_append,
      m.run_quoted (Or.inr rfl), Option.bind_some, ih, List.append_assoc,
      List.singleton_append]

theorem read_write (words : List (List α)) : m.read (m.write words) = some words := by
  have starts : m.step ⟨[], .start⟩ m.opening = some ⟨[], .first⟩ := by
    simp only [step, if_pos]
  have run_eq : m.run ⟨[], .start⟩ (m.write words) = some ⟨words, .finished⟩ := by
    rw [write, run_cons, starts, Option.bind_some]
    cases words with
    | nil =>
      rw [items, List.nil_append, run_cons]
      simp only [step, if_pos, Option.bind_some, run_nil]
    | cons word words =>
      rw [items, List.append_assoc, run_append, m.run_quoted (Or.inl rfl), Option.bind_some,
        run_others, List.nil_append]
  rw [read, run_eq]

end ListMarks
end DevHealth.Lib

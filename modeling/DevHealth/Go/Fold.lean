import DevHealth.Go.Utf8

/-! # `strings.EqualFold` and `strings.ToLower`

Equality under simple Unicode case folding, and the lower case of a text.  The tables
themselves are data of Unicode: a `CaseFolding` is any folding that treats ASCII as Unicode
does, where only the two cases of a letter fold together, and a `CaseMapping` is any lower
case that does. -/
set_option autoImplicit false
namespace DevHealth.Go

def asciiLower (r : CodePoint) : CodePoint := if 65 ≤ r ∧ r ≤ 90 then r + 32 else r

structure CaseFolding where
  fold : CodePoint → CodePoint
  ascii : ∀ a b, a < 0x80 → b < 0x80 → (fold a = fold b ↔ asciiLower a = asciiLower b)

def asciiFolding : CaseFolding := ⟨asciiLower, fun _ _ _ _ => Iff.rfl⟩

def equalFold (folding : CaseFolding) (s t : Bytes) : Bool :=
  decide ((runes s).map folding.fold = (runes t).map folding.fold)

structure CaseMapping where
  lower : CodePoint → CodePoint
  ascii : ∀ r, r < 0x80 → lower r = asciiLower r

def asciiMapping : CaseMapping := ⟨asciiLower, fun _ _ => rfl⟩

/-- An invalid byte is read, and written back, as `runeError`. -/
def toLower (mapping : CaseMapping) (s : Bytes) : Bytes :=
  (runes s).flatMap fun r => encodeRune (mapping.lower r)

variable (folding : CaseFolding)

theorem equalFold_refl (s : Bytes) : equalFold folding s s = true := by simp [equalFold]

variable {folding} in
theorem equalFold_comm {s t : Bytes} : equalFold folding s t = equalFold folding t s :=
  decide_eq_decide.mpr eq_comm

variable {folding} in
theorem equalFold_trans {s t u : Bytes} (first : equalFold folding s t = true)
    (second : equalFold folding t u = true) : equalFold folding s u = true := by
  rw [equalFold, decide_eq_true_eq] at first second ⊢
  exact first.trans second

theorem map_fold_ascii : ∀ {s t : Bytes}, (∀ b ∈ s, isASCII b = true) → (∀ b ∈ t, isASCII b = true) →
      ((s.map UInt8.toNat).map folding.fold = (t.map UInt8.toNat).map folding.fold ↔
        (s.map UInt8.toNat).map asciiLower = (t.map UInt8.toNat).map asciiLower) := by
  intro s
  induction s with
  | nil =>
    intro t _ _
    cases t <;> simp
  | cons a s ih =>
    intro t ascii ascii'
    cases t with
    | nil => simp
    | cons b t =>
      have small : a.toNat < 0x80 := by simpa [isASCII] using ascii a (List.mem_cons_self ..)
      have small' : b.toNat < 0x80 := by simpa [isASCII] using ascii' b (List.mem_cons_self ..)
      have rest := ih (fun c inside => ascii c (List.mem_cons_of_mem _ inside))
        (fun c inside => ascii' c (List.mem_cons_of_mem _ inside))
      simp only [List.map_cons, List.cons.injEq]
      rw [folding.ascii _ _ small small', rest]

theorem equalFold_ascii {s t : Bytes} (ascii : ∀ b ∈ s, isASCII b = true)
    (ascii' : ∀ b ∈ t, isASCII b = true) :
    equalFold folding s t =
      decide ((s.map UInt8.toNat).map asciiLower = (t.map UInt8.toNat).map asciiLower) := by
  rw [equalFold, runes_ascii ascii, runes_ascii ascii']
  exact decide_eq_decide.mpr (map_fold_ascii folding ascii ascii')

theorem toLower_fixed {mapping : CaseMapping} {s : Bytes} (small : ∀ b ∈ s, b.toNat < 0x80)
    (lower : ∀ b ∈ s, ¬ (65 ≤ b.toNat ∧ b.toNat ≤ 90)) : toLower mapping s = s := by
  have each : ∀ b ∈ s, encodeRune (mapping.lower b.toNat) = [b] := by
    intro b inside
    rw [mapping.ascii _ (small b inside), asciiLower, if_neg (lower b inside), encodeRune,
      if_pos (small b inside), UInt8.ofNat_toNat]
  rw [toLower, runes_ascii fun b inside => decide_eq_true (small b inside), List.flatMap_map,
    List.flatMap_congr each, List.flatMap_singleton']

end DevHealth.Go

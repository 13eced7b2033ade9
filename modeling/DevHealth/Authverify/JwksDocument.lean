import DevHealth.Authverify.Document
import DevHealth.Authverify.RetireAfter
import DevHealth.Go.JsonStruct

/-! # The strict JWKS parser

One parser for the file and for the HTTP client: a walk over the tokens that refuses a
repeated member name, a decoding into structs that refuses an unknown member, and a loop
over the keys that stops at the first one it does not accept.  A map is the list of its
entries. -/
set_option autoImplicit false
namespace DevHealth.Authverify

open Go Lib

/-! ## Model -/

structure Jwk where
  keyType : Bytes
  curve : Bytes
  keyID : Bytes
  use : Bytes
  alg : Bytes
  x : Bytes
  retireAfter : Option Time
  deriving DecidableEq

def Jwk.zero : Jwk := ⟨[], [], [], [], [], [], none⟩

variable {ι : Type}

def jwkFields (string : Target ι Bytes) (retireAfter : Target ι (Option Time)) :
    List (StructField ι Jwk) :=
  [.of "kty" Jwk.keyType (fun k s => { k with keyType := s }) string,
    .of "crv" Jwk.curve (fun k s => { k with curve := s }) string,
    .of "kid" Jwk.keyID (fun k s => { k with keyID := s }) string,
    .of "use" Jwk.use (fun k s => { k with use := s }) string,
    .of "alg" Jwk.alg (fun k s => { k with alg := s }) string,
    .of "x" Jwk.x (fun k s => { k with x := s }) string,
    .of "retire_after" Jwk.retireAfter (fun k t => { k with retireAfter := t }) retireAfter]

/-- A member with its own decoder: it is called for every value, `null` included. -/
def intoRetireAfter : Target RawMessage (Option Time) := fun _ raw =>
  (unmarshalRetireAfter raw).map some

def intoJwk (folding : CaseFolding) : Target RawMessage Jwk :=
  intoStruct folding true (jwkFields intoString intoRetireAfter)

/-- A `jwksDocument` is its one field. -/
def documentFields (keys : Target ι (List Jwk)) : List (StructField ι (List Jwk)) :=
  [.of "keys" id (fun _ keys => keys) keys]

def intoDocument (folding : CaseFolding) : Target RawMessage (List Jwk) :=
  intoStruct folding true (documentFields (intoSlice Jwk.zero (intoJwk folding)))

structure JWKSKey where
  publicKey : Bytes
  retireAfter : Option Time
  deriving DecidableEq

def validKeyID (value : Bytes) : Bool :=
  decide (trimSpace value ≠ []) && decide ((trimSpace value).length ≤ 256)

def acceptsKey (candidate : Jwk) (key : Bytes) : Bool :=
  !(decide (candidate.keyType ≠ ascii "OKP") || decide (candidate.curve ≠ ascii "Ed25519") ||
    decide (candidate.alg ≠ ascii "EdDSA") ||
    (decide (candidate.use ≠ []) && decide (candidate.use ≠ ascii "sig")) ||
    !validKeyID candidate.keyID || decide (key.length ≠ publicKeySize))

def keysLoop (admitRetireAfter : Bool) :
    List Jwk → List (Bytes × JWKSKey) → Option (List (Bytes × JWKSKey))
  | [], keys => some keys
  | candidate :: rest, keys =>
    match rawURLDecode false candidate.x with
    | none => none
    | some key =>
      if !acceptsKey candidate key then none
      else if (keys.lookup candidate.keyID).isSome then none
      else if candidate.retireAfter.isSome && !admitRetireAfter then none
      else keysLoop admitRetireAfter rest
        (keys ++ [(candidate.keyID, ⟨key, candidate.retireAfter⟩)])

def parseJWKSDocument (folding : CaseFolding) (encoded : Bytes) (admitRetireAfter : Bool) :
    Option (List (Bytes × JWKSKey)) :=
  if !singleDocumentWithoutDuplicateMembers folding encoded then none
  else
    match (Decoder.start encoded).decode with
    | none => none
    | some (_, raw, _) =>
      match intoDocument folding [] raw with
      | none | some [] => none
      | some keys => keysLoop admitRetireAfter keys []

def publicKeys (set : List (Bytes × JWKSKey)) : List (Bytes × Bytes) :=
  set.map fun (kid, key) => (kid, key.publicKey)

/-- The HTTP path. -/
def parseJWKS (folding : CaseFolding) (encoded : Bytes) : Option (List (Bytes × Bytes)) :=
  (parseJWKSDocument folding encoded false).map publicKeys

/-! ## The loop over the keys -/

def Admitted (admitRetireAfter : Bool) (candidate : Jwk) : Prop :=
  ∃ key, rawURLDecode false candidate.x = some key ∧ acceptsKey candidate key = true ∧
    (candidate.retireAfter.isSome = true → admitRetireAfter = true)

def entryOf (candidate : Jwk) : Bytes × JWKSKey :=
  (candidate.keyID, ⟨(rawURLDecode false candidate.x).getD [], candidate.retireAfter⟩)

theorem lookup_isSome {set : List (Bytes × JWKSKey)} {kid : Bytes} :
    (set.lookup kid).isSome = true ↔ kid ∈ set.map Prod.fst := by
  induction set with
  | nil => simp
  | cons e set ih =>
    obtain ⟨other, key⟩ := e
    by_cases same : kid = other
    · simp [same]
    · have apart : (kid == other) = false := by simpa using same
      simp [List.lookup_cons, apart, ih, same]

theorem admitted_iff {admitRetireAfter : Bool} {candidate : Jwk} {key : Bytes}
    (decoded : rawURLDecode false candidate.x = some key) :
    Admitted admitRetireAfter candidate ↔ acceptsKey candidate key = true ∧
        ¬ (candidate.retireAfter.isSome && !admitRetireAfter) = true := by
  have retires : (candidate.retireAfter.isSome = true → admitRetireAfter = true) ↔
      ¬ (candidate.retireAfter.isSome && !admitRetireAfter) = true := by
    cases candidate.retireAfter.isSome <;> cases admitRetireAfter <;> simp
  rw [← retires]
  constructor
  · intro admitted
    obtain ⟨other, same, accepts, retired⟩ := admitted
    rw [decoded] at same
    cases same
    exact ⟨accepts, retired⟩
  · intro both
    exact ⟨key, decoded, both.1, both.2⟩

/-- The loop succeeds when every key is admitted and no key id comes twice; the map then has
the entry of each key. -/
theorem keysLoop_iff (admitRetireAfter : Bool) (candidates : List Jwk) :
    ∀ sofar set, keysLoop admitRetireAfter candidates sofar = some set ↔
      (∀ candidate ∈ candidates, Admitted admitRetireAfter candidate) ∧ (candidates.map Jwk.keyID).Nodup ∧
        (∀ candidate ∈ candidates, candidate.keyID ∉ sofar.map Prod.fst) ∧
        set = sofar ++ candidates.map entryOf := by
  induction candidates with
  | nil =>
    intro sofar set
    rw [keysLoop]
    simp [eq_comm]
  | cons candidate rest ih =>
    intro sofar set
    rw [keysLoop]
    cases decoded : rawURLDecode false candidate.x with
    | none =>
      simp [Admitted, decoded]
    | some key =>
      have entry : (candidate.keyID, (⟨key, candidate.retireAfter⟩ : JWKSKey)) =
          entryOf candidate := by
        rw [entryOf, decoded]
        rfl
      have first : Admitted admitRetireAfter candidate ↔ _ := admitted_iff decoded
      simp only [entry]
      constructor
      · intro found
        split_ifs at found with refused duplicate retired
        obtain ⟨admitted, distinct, fresh, result⟩ := (ih _ set).mp found
        rw [Bool.not_eq_true', Bool.not_eq_false] at refused
        refine ⟨?_, ?_, ?_, ?_⟩
        · intro other inside
          rcases List.mem_cons.mp inside with rfl | inside
          · exact first.mpr ⟨refused, retired⟩
          · exact admitted other inside
        · rw [List.map_cons, List.nodup_cons]
          refine ⟨?_, distinct⟩
          intro again
          obtain ⟨other, inside, same⟩ := List.mem_map.mp again
          apply fresh other inside
          rw [List.map_append, same]
          exact List.mem_append_right _ (List.mem_singleton.mpr rfl)
        · intro other inside
          rcases List.mem_cons.mp inside with rfl | inside
          · exact fun present => duplicate (lookup_isSome.mpr present)
          · intro present
            apply fresh other inside
            rw [List.map_append]
            exact List.mem_append_left _ present
        · rw [result, List.map_cons, List.append_assoc, List.singleton_append]
      · intro all
        obtain ⟨admitted, distinct, fresh, result⟩ := all
        obtain ⟨accepted, notRetired⟩ := first.mp (admitted candidate (List.mem_cons_self ..))
        rw [List.map_cons, List.nodup_cons] at distinct
        have new : ¬ (sofar.lookup candidate.keyID).isSome = true :=
          fun present => fresh candidate (List.mem_cons_self ..) (lookup_isSome.mp present)
        rw [if_neg (by simp [accepted]), if_neg new, if_neg notRetired]
        apply (ih _ set).mpr
        refine ⟨fun other inside => admitted other (List.mem_cons_of_mem _ inside), distinct.2, ?_, ?_⟩
        · intro other inside present
          rw [List.map_append, List.mem_append] at present
          rcases present with old | last
          · exact fresh other (List.mem_cons_of_mem _ inside) old
          · rw [List.map_singleton, List.mem_singleton] at last
            exact distinct.1 (List.mem_map.mpr ⟨other, inside, last⟩)
        · rw [result, List.map_cons, List.append_assoc, List.singleton_append]

end DevHealth.Authverify

import DevHealth.Authverify.JwksLaws

/-! # The two paths of the JWKS parser

What the parser makes of one key, and of a list of them: the file path and the HTTP path
differ in the `retire_after` member only, the map has one entry for each key of the list, and
the order of the list plays no part.  The bound on a key id is on its trimmed text. -/
set_option autoImplicit false
namespace DevHealth.Authverify

open Go Lib

variable {folding : CaseFolding} {encoded : Bytes}

/-! ## One key -/

def keyMember (folding : CaseFolding) (raw : RawMessage) (name : String) : Option RawMessage :=
  (unmarshalObject raw).bind fun o =>
    (o.find? fun m => equalFold folding (ascii name) m.1).map Prod.snd

def keyString (folding : CaseFolding) (raw : RawMessage) (name : String) : Option Bytes :=
  (keyMember folding raw name).bind unmarshalString

theorem jwkFields_apart : FieldsApart folding (jwkFields intoString intoRetireAfter) :=
  fieldsApart_of_lower (by decide) (by decide)

theorem distinct_of_single {raw : RawMessage} {entries : List (Bytes × RawMessage)}
    (single : singleDocumentWithoutDuplicateMembers folding raw = true)
    (scanned : scanDocument raw = some (.box .object entries)) :
    (entries.map Prod.fst).Pairwise fun a b => sameName (equalFold folding) a b = false := by
  obtain ⟨lead, t, trail, text, leadBlank, trailBlank, shape, nests⟩ := scanDocument_sound scanned
  rw [text, single_text leadBlank trailBlank nests] at single
  cases t with
  | @box b body =>
    simp only [shapeOf, Shape.box.injEq] at shape
    obtain ⟨rfl, rfl⟩ := shape
    have distinct := (noRepeats_box.mp single.1).1 rfl
    rw [rawEntries, List.map_map]
    exact distinct
  | _ => cases shape

theorem keyMember_eq {raw : RawMessage} {entries : List (Bytes × RawMessage)}
    (scanned : scanDocument raw = some (.box .object entries)) (name : String) :
    keyMember folding raw name = memberOf folding (ascii name) entries := by
  simp only [keyMember, unmarshalObject, scanned, Option.bind_some, List.find?_map, Option.map_map]
  rfl

variable {α : Type} {raw : RawMessage} {k : Jwk}

theorem part_of_jwk {name : String} {part : Jwk → α} {target : Target RawMessage α}
    (isPart : IsPart (jwkFields intoString intoRetireAfter) (ascii name) part target)
    (known : ∃ f ∈ jwkFields intoString intoRetireAfter, f.name = ascii name)
    (single : singleDocumentWithoutDuplicateMembers folding raw = true)
    (read : intoJwk folding Jwk.zero raw = some k) :
    (keyMember folding raw name).elim (some (part Jwk.zero)) (target (part Jwk.zero)) = some (part k) := by
  rw [intoJwk, intoStruct] at read
  split at read
  · rename_i entries scanned
    rw [keyMember_eq scanned]
    exact part_of_members isPart jwkFields_apart known entries Jwk.zero k
      (distinct_of_single single scanned) read
  · rename_i scanned
    cases read
    simp [keyMember, unmarshalObject, scanned]
  · cases read

theorem jwk_parts : IsPart (jwkFields intoString intoRetireAfter) (ascii "kid") Jwk.keyID intoString ∧
      IsPart (jwkFields intoString intoRetireAfter) (ascii "x") Jwk.x intoString ∧
      IsPart (jwkFields intoString intoRetireAfter) (ascii "retire_after") Jwk.retireAfter
        intoRetireAfter := by
  refine ⟨?_, ?_, ?_⟩
  all_goals
    intro f inside s input s' set
    simp only [jwkFields, List.mem_cons, List.not_mem_nil, or_false] at inside
    rcases inside with rfl | rfl | rfl | rfl | rfl | rfl | rfl
    all_goals
      obtain ⟨v, value, rfl⟩ := StructField.set_of.mp set
      first
        | exact .inl ⟨rfl, value⟩
        | exact .inr ⟨by decide, rfl⟩

theorem keyString_of_elim {name : String} {s : Bytes} (nonempty : s ≠ [])
    (part : (keyMember folding raw name).elim (some []) (intoString []) = some s) :
    keyString folding raw name = some s := by
  cases member : keyMember folding raw name with
  | none =>
    rw [member] at part
    exact absurd (Option.some.inj part).symm nonempty
  | some v =>
    rw [member] at part
    rw [keyString, member]
    exact part

variable (single : singleDocumentWithoutDuplicateMembers folding raw = true)
  (read : intoJwk folding Jwk.zero raw = some k)
include single read

theorem retireAfter_isSome :
    k.retireAfter.isSome = true ↔ (keyMember folding raw "retire_after").isSome = true := by
  have part := part_of_jwk jwk_parts.2.2 (by decide) single read
  cases member : keyMember folding raw "retire_after" with
  | none =>
    rw [member] at part
    rw [← Option.some.inj part]
    rfl
  | some v =>
    rw [member, Option.elim, intoRetireAfter, Option.map_eq_some_iff] at part
    obtain ⟨t, -, same⟩ := part
    rw [← same]
    simp

variable {admitRetireAfter : Bool} {set : List (Bytes × JWKSKey)}

theorem entry_of_key (admitted : Admitted admitRetireAfter k) :
    keyString folding raw "kid" = some (entryOf k).1 ∧ ∃ x, keyString folding raw "x" = some x ∧
        rawURLDecode false x = some (entryOf k).2.publicKey ∧
        (entryOf k).2.publicKey.length = publicKeySize := by
  obtain ⟨key, decoded, accepts, -⟩ := admitted
  have size : key.length = publicKeySize := by
    by_contra different
    simp [acceptsKey, different] at accepts
  have kid : k.keyID ≠ [] := by
    intro empty
    have refused : validKeyID [] = false := by decide
    simp [acceptsKey, empty, refused] at accepts
  have x : k.x ≠ [] := by
    intro empty
    rw [empty] at decoded
    cases decoded
    cases size
  refine ⟨?_, k.x, ?_, ?_, ?_⟩
  · exact keyString_of_elim kid (part_of_jwk jwk_parts.1 (by decide) single read)
  · exact keyString_of_elim x (part_of_jwk jwk_parts.2.1 (by decide) single read)
  · rw [entryOf, decoded]
    rfl
  · rw [entryOf, decoded]
    exact size

omit single read

/-! ## Documents -/

def keyOf (set : List (Bytes × JWKSKey)) : Bytes → Option JWKSKey := fun kid => set.lookup kid

theorem lookup_iff (distinct : (set.map Prod.fst).Nodup) {kid : Bytes} {key : JWKSKey} :
    set.lookup kid = some key ↔ (kid, key) ∈ set := by
  induction set with
  | nil => simp
  | cons e set ih =>
    obtain ⟨other, value⟩ := e
    rw [List.map_cons, List.nodup_cons] at distinct
    by_cases same : kid = other
    · subst same
      have absent : (kid, key) ∉ set := fun inside => distinct.1 (List.mem_map.mpr ⟨(kid, key), inside, rfl⟩)
      simp [absent, eq_comm]
    · have apart : (kid == other) = false := by simpa using same
      simp [List.lookup_cons, apart, ih distinct.2, same]

theorem keyOf_perm {set set' : List (Bytes × JWKSKey)} (distinct : (set.map Prod.fst).Nodup)
    (perm : set.Perm set') : keyOf set = keyOf set' := by
  have distinct' := (perm.map Prod.fst).nodup_iff.mp distinct
  funext kid
  apply Option.ext
  intro key
  rw [keyOf, keyOf, lookup_iff distinct, lookup_iff distinct', perm.mem_iff]

theorem parseJWKSDocument_keys : parseJWKSDocument folding encoded admitRetireAfter = some set ↔
      ∃ items keys, listedKeys folding encoded = some items ∧
        (∀ raw ∈ items, singleDocumentWithoutDuplicateMembers folding raw = true) ∧
        items.mapM (intoJwk folding Jwk.zero) = some keys ∧ keys ≠ [] ∧
        (∀ key ∈ keys, Admitted admitRetireAfter key) ∧ (keys.map Jwk.keyID).Nodup ∧
        set = keys.map entryOf := by
  simp only [parseJWKSDocument_iff, keysLoop_iff]
  simp

theorem entries_distinct {keys : List Jwk} (distinct : (keys.map Jwk.keyID).Nodup) :
    ((keys.map entryOf).map Prod.fst).Nodup := by
  rw [List.map_map]
  exact distinct

theorem parseJWKSDocument_perm {encoded' : Bytes} {items items' : List RawMessage}
    (listed : listedKeys folding encoded = some items)
    (listed' : listedKeys folding encoded' = some items') (perm : items.Perm items')
    (accepted : parseJWKSDocument folding encoded admitRetireAfter = some set) :
    ∃ set', parseJWKSDocument folding encoded' admitRetireAfter = some set' ∧ keyOf set' = keyOf set := by
  obtain ⟨_, keys, same, single, read, nonempty, admitted, distinct, rfl⟩ :=
    parseJWKSDocument_keys.mp accepted
  rw [listed, Option.some.injEq] at same
  subst same
  obtain ⟨keys', read', perm'⟩ := mapM_perm perm read
  refine ⟨keys'.map entryOf, ?_, ?_⟩
  · apply parseJWKSDocument_keys.mpr
    refine ⟨items', keys', listed', ?_, read', ?_, ?_, ?_, rfl⟩
    · exact fun raw inside => single raw (perm.mem_iff.mpr inside)
    · intro empty
      exact nonempty (List.perm_nil.mp (empty ▸ perm'))
    · exact fun key inside => admitted key (perm'.mem_iff.mpr inside)
    · exact (perm'.map Jwk.keyID).nodup_iff.mp distinct
  · exact (keyOf_perm (entries_distinct distinct) (perm'.map entryOf)).symm

/-- The entry of a raw key: its id as written, and the bytes of its `x`. -/
def IsEntryOf (folding : CaseFolding) (raw : RawMessage) (entry : Bytes × JWKSKey) : Prop :=
  keyString folding raw "kid" = some entry.1 ∧
    ∃ x, keyString folding raw "x" = some x ∧ rawURLDecode false x = some entry.2.publicKey ∧
      entry.2.publicKey.length = publicKeySize

theorem entries_of_keys {items : List RawMessage} : ∀ {keys : List Jwk},
      (∀ raw ∈ items, singleDocumentWithoutDuplicateMembers folding raw = true) →
      items.mapM (intoJwk folding Jwk.zero) = some keys →
      (∀ key ∈ keys, Admitted admitRetireAfter key) →
      items.Forall₂ (IsEntryOf folding) (keys.map entryOf) := by
  intro keys single read
  have each := mapM_forall read
  clear read
  induction each with
  | nil => exact fun _ => .nil
  | @cons raw key items keys read _ ih =>
    intro admitted
    refine .cons ?_ ?_
    · exact entry_of_key (single raw (List.mem_cons_self ..)) read (admitted key (List.mem_cons_self ..))
    · exact ih (fun raw inside => single raw (List.mem_cons_of_mem _ inside))
        (fun key inside => admitted key (List.mem_cons_of_mem _ inside))

theorem admitted_false_iff {key : Jwk} :
    Admitted false key ↔ Admitted true key ∧ key.retireAfter.isSome = false := by
  simp only [Admitted, Bool.false_eq_true, imp_false, Bool.not_eq_true, imp_true_iff, and_true]
  constructor
  · intro admitted
    obtain ⟨k, decoded, accepts, absent⟩ := admitted
    exact ⟨⟨k, decoded, accepts⟩, absent⟩
  · intro both
    obtain ⟨⟨k, decoded, accepts⟩, absent⟩ := both
    exact ⟨k, decoded, accepts, absent⟩

theorem retireAfter_absent {items : List RawMessage} {keys : List Jwk}
    (single : ∀ raw ∈ items, singleDocumentWithoutDuplicateMembers folding raw = true)
    (read : items.mapM (intoJwk folding Jwk.zero) = some keys) :
    (∀ key ∈ keys, key.retireAfter.isSome = false) ↔
      ∀ raw ∈ items, keyMember folding raw "retire_after" = none := by
  have each := mapM_forall read
  clear read
  induction each with
  | nil => simp
  | @cons raw key items keys read _ ih =>
    have here := retireAfter_isSome (single raw (List.mem_cons_self ..)) read
    rw [List.forall_mem_cons, List.forall_mem_cons, ← Option.not_isSome_iff_eq_none, ← here, Bool.not_eq_true]
    refine and_congr_right fun _ => ?_
    exact ih fun raw inside => single raw (List.mem_cons_of_mem _ inside)

/-- One parser for the two paths.  The HTTP path accepts what the file path does when no key
carries `retire_after`, with the same map; a map has one entry for each listed key; and the
order of the keys decides nothing. -/
theorem jwks_paths_agree (folding : CaseFolding) (encoded : Bytes) :
    (∀ keys, parseJWKS folding encoded = some keys ↔
      ∃ items set, listedKeys folding encoded = some items ∧
        (∀ raw ∈ items, keyMember folding raw "retire_after" = none) ∧
        parseJWKSDocument folding encoded true = some set ∧ keys = publicKeys set) ∧
    (∀ admitRetireAfter set, parseJWKSDocument folding encoded admitRetireAfter = some set →
      ∃ items, listedKeys folding encoded = some items ∧
        items.Forall₂ (IsEntryOf folding) set ∧ (set.map Prod.fst).Nodup) ∧
    (∀ encoded' items items', listedKeys folding encoded = some items →
      listedKeys folding encoded' = some items' → items.Perm items' →
      ∀ admitRetireAfter,
        (parseJWKSDocument folding encoded admitRetireAfter).map keyOf =
          (parseJWKSDocument folding encoded' admitRetireAfter).map keyOf) := by
  refine ⟨?_, ?_, ?_⟩
  · intro result
    rw [parseJWKS, Option.map_eq_some_iff]
    constructor
    · intro accepted
      obtain ⟨set, accepted, rfl⟩ := accepted
      obtain ⟨items, keys, listed, single, read, nonempty, admitted, distinct, rfl⟩ :=
        parseJWKSDocument_keys.mp accepted
      have both := fun key inside => admitted_false_iff.mp (admitted key inside)
      refine ⟨items, keys.map entryOf, listed, ?_, ?_, rfl⟩
      · exact (retireAfter_absent single read).mp fun key inside => (both key inside).2
      · exact parseJWKSDocument_keys.mpr ⟨items, keys, listed, single, read, nonempty,
          fun key inside => (both key inside).1, distinct, rfl⟩
    · intro accepted
      obtain ⟨items, set, listed, absent, accepted, rfl⟩ := accepted
      obtain ⟨_, keys, same, single, read, nonempty, admitted, distinct, rfl⟩ :=
        parseJWKSDocument_keys.mp accepted
      rw [listed, Option.some.injEq] at same
      subst same
      have without := (retireAfter_absent single read).mpr absent
      refine ⟨keys.map entryOf, ?_, rfl⟩
      exact parseJWKSDocument_keys.mpr ⟨items, keys, listed, single, read, nonempty,
        fun key inside => admitted_false_iff.mpr ⟨admitted key inside, without key inside⟩,
        distinct, rfl⟩
  · intro admitRetireAfter set accepted
    obtain ⟨items, keys, listed, single, read, nonempty, admitted, distinct, rfl⟩ :=
      parseJWKSDocument_keys.mp accepted
    exact ⟨items, listed, entries_of_keys single read admitted, entries_distinct distinct⟩
  · intro encoded' items items' listed listed' perm admitRetireAfter
    apply Option.ext
    intro keys
    rw [Option.map_eq_some_iff, Option.map_eq_some_iff]
    constructor
    · intro found
      obtain ⟨set, accepted, rfl⟩ := found
      exact parseJWKSDocument_perm listed listed' perm accepted
    · intro found
      obtain ⟨set, accepted, rfl⟩ := found
      exact parseJWKSDocument_perm listed' listed perm.symm accepted

/-! ## Key ids -/

/-- The documented bounds, of a key id as the map has it. -/
def BoundedKeyID (kid : Bytes) : Prop := kid ≠ [] ∧ ¬ OnlySpace kid ∧ kid.length ≤ 256

/-- Only the length is checked of another text than the one that is stored. -/
theorem boundedKeyID_iff {kid : Bytes} (valid : validKeyID kid = true) :
    BoundedKeyID kid ↔ kid.length ≤ 256 := by
  rw [validKeyID, Bool.and_eq_true, decide_eq_true_eq] at valid
  refine ⟨fun bounded => bounded.2.2, fun short => ⟨?_, ?_, short⟩⟩
  · intro empty
    rw [empty] at valid
    exact absurd rfl valid.1
  · exact fun spaces => valid.1 (trimSpace_onlySpace spaces)

theorem admitted_valid (admitted : Admitted admitRetireAfter k) : validKeyID k.keyID = true := by
  obtain ⟨key, -, accepts, -⟩ := admitted
  by_contra invalid
  simp [acceptsKey, invalid] at accepts

theorem kids_short {items : List RawMessage} (entries : items.Forall₂ (IsEntryOf folding) set) :
    (∀ entry ∈ set, entry.1.length ≤ 256) ↔
      ∀ raw ∈ items, ∀ kid, keyString folding raw "kid" = some kid → kid.length ≤ 256 := by
  induction entries with
  | nil => simp
  | @cons raw entry items set isEntry _ ih =>
    rw [List.forall_mem_cons, List.forall_mem_cons, ih, isEntry.1]
    simp

/-- The ids of an accepted document are bounded when those in its text are. -/
theorem keyIDs_bounded_iff {folding : CaseFolding} {encoded : Bytes} {admitRetireAfter : Bool}
    {set : List (Bytes × JWKSKey)}
    (accepted : parseJWKSDocument folding encoded admitRetireAfter = some set) :
    ∃ items, listedKeys folding encoded = some items ∧
      ((∀ entry ∈ set, BoundedKeyID entry.1) ↔
        ∀ raw ∈ items, ∀ kid, keyString folding raw "kid" = some kid → kid.length ≤ 256) := by
  obtain ⟨items, keys, listed, single, read, nonempty, admitted, distinct, rfl⟩ :=
    parseJWKSDocument_keys.mp accepted
  refine ⟨items, listed, ?_⟩
  rw [← kids_short (entries_of_keys single read admitted), List.forall_mem_map, List.forall_mem_map]
  refine forall_congr' fun key => forall_congr' fun inside => ?_
  exact boundedKeyID_iff (admitted_valid (admitted key inside))

def keyObject (kid : Bytes) : Bytes :=
  ascii "\x7b\"kty\":\"OKP\",\"crv\":\"Ed25519\",\"alg\":\"EdDSA\",\"kid\":\"" ++ kid ++
    ascii "\",\"x\":\"AAAAAAAAAAAAAAAAAAAAAAAAAAAAAAAAAAAAAAAAAAA\"\x7d"

def keyDocument (kid : Bytes) : Bytes := ascii "\x7b\"keys\":[" ++ keyObject kid ++ ascii "]\x7d"

theorem keyDocument_accepted : parseJWKSDocument asciiFolding (keyDocument (ascii "a")) false =
      some [(ascii "a", ⟨List.replicate 32 0, none⟩)] := by
  decide +kernel

theorem keyDocument_bounded :
    ∃ set, parseJWKSDocument asciiFolding (keyDocument (ascii "a")) false = some set ∧
      set.map Prod.fst = [ascii "a"] ∧ ∀ entry ∈ set, BoundedKeyID entry.1 := by
  obtain ⟨items, listed, bounded⟩ := keyIDs_bounded_iff keyDocument_accepted
  refine ⟨_, keyDocument_accepted, rfl, bounded.mpr ?_⟩
  have single : listedKeys asciiFolding (keyDocument (ascii "a")) = some [keyObject (ascii "a")] := by
    decide +kernel
  have named : keyString asciiFolding (keyObject (ascii "a")) "kid" = some (ascii "a") := by
    decide +kernel
  cases listed.symm.trans single
  intro raw inside kid read
  obtain rfl := List.mem_singleton.mp inside
  cases read.symm.trans named
  decide

/-- A letter and 256 spaces: the check sees one byte and the map has 257. -/
theorem paddedKeyID_unbounded :
    ∃ set, parseJWKSDocument asciiFolding (keyDocument (0x61 :: List.replicate 256 0x20)) true =
        some set ∧ ∃ entry ∈ set, entry.1.length = 257 ∧ ¬ BoundedKeyID entry.1 := by
  have accepted :
      parseJWKSDocument asciiFolding (keyDocument (0x61 :: List.replicate 256 0x20)) true =
        some [(0x61 :: List.replicate 256 0x20, ⟨List.replicate 32 0, none⟩)] := by
    decide +kernel
  have long : ((0x61 : UInt8) :: List.replicate 256 0x20).length = 257 := by
    rw [List.length_cons, List.length_replicate]
  refine ⟨_, accepted, _, List.mem_singleton.mpr rfl, long, ?_⟩
  intro bounded
  have short : ((0x61 : UInt8) :: List.replicate 256 0x20).length ≤ 256 := bounded.2.2
  omega

end DevHealth.Authverify

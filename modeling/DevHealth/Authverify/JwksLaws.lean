import DevHealth.Authverify.JwksDocument

/-! # What the JWKS parser accepts

A document is accepted by its list of keys: it has the one member, each key is a strict
object that decodes into a key, and the loop admits them all.  Raw bytes are read by way of
their trees. -/
set_option autoImplicit false
namespace DevHealth.Authverify

open Go Lib

variable {folding : CaseFolding}

/-! ## Trees -/

def treeRetireAfter : Target (Json .value) (Option Time) := fun _ t =>
  match t with
  | .str content _ => (parseRetireAfter (unquote content)).map some
  | _ => none

def treeJwk (folding : CaseFolding) : Target (Json .value) Jwk :=
  treeStruct folding true (jwkFields treeString treeRetireAfter)

def treeDocument (folding : CaseFolding) : Target (Json .value) (List Jwk) :=
  treeStruct folding true (documentFields (treeSlice Jwk.zero (treeJwk folding)))

theorem reads_retireAfter : Reads intoRetireAfter treeRetireAfter := by
  intro current t nests
  have nothing : parseRetireAfter [] = none := by decide
  rw [intoRetireAfter, unmarshalRetireAfter, unmarshalString, scanDocument_value t nests]
  cases t with
  | box body => rfl
  | null => simp [shapeOf, treeRetireAfter, nothing]
  | _ => rfl

theorem reads_jwk : Reads (intoJwk folding) (treeJwk folding) := by
  apply reads_struct
  refine .cons (.of _ _ _ reads_string) (.cons (.of _ _ _ reads_string) (.cons (.of _ _ _ reads_string)
    (.cons (.of _ _ _ reads_string) (.cons (.of _ _ _ reads_string) (.cons (.of _ _ _ reads_string)
      (.cons (.of _ _ _ reads_retireAfter) .nil))))))

theorem reads_document : Reads (intoDocument folding) (treeDocument folding) := by
  apply reads_struct
  exact .cons (.of _ _ _ (reads_slice reads_jwk)) .nil

/-! ## Strictness -/

theorem single_text {lead trail : Bytes} (leadBlank : IsBlank lead) (trailBlank : IsBlank trail)
    {t : Json .value} (nests : t.nesting ≤ maxNestingDepth) :
    singleDocumentWithoutDuplicateMembers folding (lead ++ (t.text ++ trail)) = true ↔
      t.NoRepeats (sameName (equalFold folding)) ∧ t.AllNumbers fitsDouble := by
  have single : singleDocumentWithoutDuplicateMembers folding (lead ++ (t.text ++ trail)) = true ↔
      _ := strictDocument_iff _ _
  rw [single]
  constructor
  · intro found
    obtain ⟨lead', u, trail', same, leadBlank', trailBlank', strict⟩ := found
    have shape := shapeOf_text leadBlank' trailBlank' leadBlank trailBlank same.symm
    exact strict_of_shape u.nesting u t (Nat.le_refl _) shape strict.names strict.numbers
  · intro both
    refine ⟨lead, t, trail, rfl, leadBlank, trailBlank, ?_, (Nat.zero_add _).trans_le nests, both.1, both.2⟩
    have depth := Json.depth_le_text t
    simp only [Decoder.start, List.length_append]
    omega

theorem single_value {t : Json .value} (nests : t.nesting ≤ maxNestingDepth) :
    singleDocumentWithoutDuplicateMembers folding t.text = true ↔
      t.NoRepeats (sameName (equalFold folding)) ∧ t.AllNumbers fitsDouble := by
  have whole : singleDocumentWithoutDuplicateMembers folding ([] ++ (t.text ++ [])) = true ↔ _ :=
    single_text isBlank_nil isBlank_nil nests
  rwa [List.nil_append, List.append_nil] at whole

/-! ## The list of keys -/

def listedKeys (folding : CaseFolding) (encoded : Bytes) : Option (List RawMessage) :=
  match unmarshalObject encoded with
  | some [(name, raw)] =>
    if equalFold folding (ascii "keys") name then unmarshalArray raw else none
  | _ => none

/-- The document as a tree: white space, and one member with a list. -/
structure KeyList (folding : CaseFolding) (encoded lead trail : Bytes)
    (body : Json (.body .object)) (content : Bytes) (list : Json (.body .array)) : Prop where
  text : encoded = lead ++ ((Json.box body).text ++ trail)
  leadBlank : IsBlank lead
  trailBlank : IsBlank trail
  nests : (Json.box body).nesting ≤ maxNestingDepth
  entries : body.entries = [(content, .box list)]
  named : equalFold folding (ascii "keys") (unquote content) = true

variable {encoded lead trail content : Bytes} {body : Json (.body .object)}
  {list : Json (.body .array)}

theorem KeyList.list_nests (keys : KeyList folding encoded lead trail body content list) :
    (Json.box list).nesting ≤ maxNestingDepth := by
  have inside : (content, Json.box list) ∈ body.entries := by
    rw [keys.entries]
    exact List.mem_singleton.mpr rfl
  exact entries_within keys.nests _ inside

theorem KeyList.listed (keys : KeyList folding encoded lead trail body content list) :
    listedKeys folding encoded = some (list.entries.map fun e => e.2.text) := by
  have object : unmarshalObject encoded = some [(unquote content, (Json.box list).text)] := by
    rw [unmarshalObject, keys.text, scanDocument_text keys.leadBlank keys.trailBlank _ keys.nests]
    simp [shapeOf, rawEntries, keys.entries]
  rw [listedKeys, object]
  simp only [keys.named, if_true]
  rw [unmarshalArray, scanDocument_value _ keys.list_nests]
  simp [shapeOf, rawEntries]

theorem exists_keyList {items : List RawMessage} (listed : listedKeys folding encoded = some items) :
    ∃ lead trail body content list, KeyList folding encoded lead trail body content list := by
  rw [listedKeys] at listed
  split at listed
  · rename_i name raw object
    split_ifs at listed with named
    rw [unmarshalObject] at object
    split at object
    · rename_i entries scanned
      obtain ⟨lead, t, trail, text, leadBlank, trailBlank, shape, nests⟩ := scanDocument_sound scanned
      cases t with
      | @box b body =>
        simp only [shapeOf, Shape.box.injEq] at shape
        obtain ⟨rfl, rfl⟩ := shape
        simp only [rawEntries, List.map_map, Option.some.injEq, List.map_eq_singleton_iff] at object
        obtain ⟨⟨content, v⟩, single, same⟩ := object
        cases same
        have inner : v.nesting ≤ maxNestingDepth := by
          apply entries_within nests (content, v)
          rw [single]
          exact List.mem_singleton.mpr rfl
        rw [unmarshalArray, scanDocument_value v inner] at listed
        cases v with
        | @box b list =>
          cases b with
          | array => exact ⟨lead, trail, body, content, list, text, leadBlank, trailBlank, nests, single, named⟩
          | object => cases listed
        | _ => cases listed
      | _ => cases shape
    · cases object
  · cases listed

theorem KeyList.single_iff (keys : KeyList folding encoded lead trail body content list) :
    singleDocumentWithoutDuplicateMembers folding encoded = true ↔ ∀ raw ∈ list.entries.map fun e => e.2.text,
        singleDocumentWithoutDuplicateMembers folding raw = true := by
  have each : (∀ e ∈ list.entries, singleDocumentWithoutDuplicateMembers folding e.2.text = true) ↔
      ∀ e ∈ list.entries, e.2.NoRepeats (sameName (equalFold folding)) ∧ e.2.AllNumbers fitsDouble :=
    forall₂_congr fun e member => single_value (entries_within keys.list_nests e member)
  rw [keys.text, single_text keys.leadBlank keys.trailBlank keys.nests, List.forall_mem_map, each]
  have inside : (content, Json.box list) ∈ body.entries := by
    rw [keys.entries]
    exact List.mem_singleton.mpr rfl
  constructor
  · intro strict e member
    have names := Json.noRepeats_entry (noRepeats_box.mp strict.1).2 inside
    have numbers := Json.allNumbers_entry (t := body) strict.2 inside
    exact ⟨Json.noRepeats_entry (noRepeats_box.mp names).2 member,
      Json.allNumbers_entry (t := list) numbers member⟩
  · intro each
    have names : (Json.box list).NoRepeats (sameName (equalFold folding)) := by
      apply noRepeats_box.mpr
      refine ⟨(by intro same; cases same), ?_⟩
      apply Json.noRepeats_of_entries (by intro same; cases same)
      exact fun e member => (each e member).1
    have numbers : (Json.box list).AllNumbers fitsDouble := by
      apply Json.allNumbers_of_entries (t := list) (by intro same; cases same)
      exact fun e member => (each e member).2
    refine ⟨noRepeats_box.mpr ⟨?_, ?_⟩, ?_⟩
    · intro _
      simp [keys.entries]
    · apply Json.noRepeats_of_entries (by intro same; cases same)
      simpa [keys.entries] using names
    · apply Json.allNumbers_of_entries (t := body) (by intro same; cases same)
      simpa [keys.entries] using numbers

theorem documentFields_apart {ι : Type} (keys : Target ι (List Jwk)) :
    FieldsApart folding (documentFields keys) :=
  List.pairwise_singleton _ _

theorem treeDocument_keyList (entries : body.entries = [(content, .box list)])
    (named : equalFold folding (ascii "keys") (unquote content) = true) :
    treeDocument folding [] (.box body) = (list.entries.map Prod.snd).mapM (treeJwk folding Jwk.zero) := by
  have found := (fieldOf_iff (documentFields_apart (treeSlice Jwk.zero (treeJwk folding)))).mpr
    ⟨List.mem_singleton.mpr rfl, named⟩
  rw [treeDocument, treeStruct]
  simp only [entries, List.foldlM_cons, List.foldlM_nil, bind_pure, intoField, found]
  rw [← intoElements_nil]
  simp [StructField.of, treeSlice]

theorem KeyList.document (keys : KeyList folding encoded lead trail body content list) :
    intoDocument folding [] (Json.box body).text =
      (list.entries.map fun e => e.2.text).mapM (intoJwk folding Jwk.zero) := by
  rw [reads_document [] (Json.box body) keys.nests, treeDocument_keyList keys.entries keys.named,
    ← intoElements_nil, ← intoElements_nil]
  have each : ∀ t ∈ list.entries.map Prod.snd, t.nesting ≤ maxNestingDepth := by
    rw [List.forall_mem_map]
    exact entries_within keys.list_nests
  rw [← reads_elements reads_jwk each, List.map_map]
  rfl

theorem entries_of_treeDocument {u : Json .value} {k : Jwk} {ks : List Jwk}
    (names : u.NoRepeats (sameName (equalFold folding)))
    (read : treeDocument folding [] u = some (k :: ks)) :
    ∃ body : Json (.body .object), ∃ content, ∃ list : Json (.body .array), u = .box body ∧
      body.entries = [(content, .box list)] ∧
      equalFold folding (ascii "keys") (unquote content) = true := by
  have named : ∀ {s s' member}, intoField folding true
      (documentFields (treeSlice Jwk.zero (treeJwk folding))) s member = some s' →
      equalFold folding (ascii "keys") (unquote member.1) = true ∧
        treeSlice Jwk.zero (treeJwk folding) s member.2 = some s' := by
    intro s s' member step
    obtain ⟨f, found, set⟩ := intoField_strict step
    obtain ⟨inside, folded⟩ := (fieldOf_iff (documentFields_apart _)).mp found
    rw [documentFields, List.mem_singleton] at inside
    subst inside
    refine ⟨folded, ?_⟩
    simpa [StructField.of] using set
  cases u with
  | @box b body =>
    cases b with
    | array => cases read
    | object =>
      have distinct := (noRepeats_box.mp names).1 rfl
      rw [treeDocument, treeStruct] at read
      cases entries : body.entries with
      | nil =>
        rw [entries] at read
        cases read
      | cons e rest =>
        rw [entries, List.foldlM_cons, Option.bind_eq_bind, Option.bind_eq_some_iff] at read
        obtain ⟨next, first, others⟩ := read
        obtain ⟨own, set⟩ := named first
        cases rest with
        | nil =>
          cases others
          obtain ⟨content, v⟩ := e
          cases v with
          | @box b list =>
            cases b with
            | array => exact ⟨body, content, list, rfl, entries, own⟩
            | object => cases set
          | _ => cases set
        | cons e' rest =>
          rw [List.foldlM_cons, Option.bind_eq_bind, Option.bind_eq_some_iff] at others
          obtain ⟨_, second, _⟩ := others
          -- two members of one name
          have again := (named second).1
          rw [equalFold_comm] at own
          have same := equalFold_trans own again
          simp [entries, sameName, same] at distinct
  | _ => cases read

theorem parseJWKSDocument_iff {admitRetireAfter : Bool} {set : List (Bytes × JWKSKey)} :
    parseJWKSDocument folding encoded admitRetireAfter = some set ↔
      ∃ items keys, listedKeys folding encoded = some items ∧
        (∀ raw ∈ items, singleDocumentWithoutDuplicateMembers folding raw = true) ∧
        items.mapM (intoJwk folding Jwk.zero) = some keys ∧ keys ≠ [] ∧
        keysLoop admitRetireAfter keys [] = some set := by
  constructor
  · intro parsed
    rw [parseJWKSDocument] at parsed
    split_ifs at parsed with refused
    rw [Bool.not_eq_true', Bool.not_eq_false] at refused
    split at parsed
    · cases parsed
    rename_i shape raw next decoded
    split at parsed
    · cases parsed
    · cases parsed
    rename_i keys nonempty read
    obtain ⟨lead, u, r, leadBlank, text, rfl, nests⟩ := decode_start decoded
    rw [reads_document [] u nests] at read
    obtain ⟨k, ks, rfl⟩ := List.exists_cons_of_ne_nil nonempty
    -- the walk and the decoder read one tree
    have single : singleDocumentWithoutDuplicateMembers folding encoded = true ↔
        _ := strictDocument_iff _ _
    obtain ⟨lead', t, trail, text', leadBlank', trailBlank, strict⟩ := single.mp refused
    have box : ∃ b, ∃ body : Json (.body b), u = .box body := by
      cases u with
      | @box b body => exact ⟨b, body, rfl⟩
      | _ => cases read
    obtain ⟨b, body, rfl⟩ := box
    obtain ⟨shape, rfl⟩ := box_of_text leadBlank' trailBlank leadBlank (text'.symm.trans text)
    have names := (strict_of_shape t.nesting t _ (Nat.le_refl _) shape strict.names strict.numbers).1
    obtain ⟨body, content, list, same, entries, named⟩ := entries_of_treeDocument names read
    cases same
    have keyList : KeyList folding encoded lead trail body content list :=
      ⟨text, leadBlank, trailBlank, nests, entries, named⟩
    refine ⟨_, k :: ks, keyList.listed, ?_, ?_, nonempty, parsed⟩
    · exact keyList.single_iff.mp refused
    · rw [← keyList.document, reads_document [] _ nests, read]
  · intro accepted
    obtain ⟨items, keys, listed, single, read, nonempty, loop⟩ := accepted
    obtain ⟨lead, trail, body, content, list, keyList⟩ := exists_keyList listed
    rw [keyList.listed, Option.some.injEq] at listed
    subst listed
    have strict := keyList.single_iff.mpr single
    have decoded := decode_text keyList.leadBlank keyList.trailBlank keyList.nests
    rw [← keyList.text] at decoded
    rw [← keyList.document] at read
    obtain ⟨k, ks, rfl⟩ := List.exists_cons_of_ne_nil nonempty
    simp only [parseJWKSDocument, strict, decoded, read, loop]
    rfl

end DevHealth.Authverify

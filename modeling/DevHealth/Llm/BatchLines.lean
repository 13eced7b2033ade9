import DevHealth.Go.JsonDecode
import DevHealth.Go.JsonWrite
import DevHealth.Llm.Provider

/-! # The lines of a batch

`SubmitBatch` up to the upload: the items are validated, and each becomes one line of a JSONL
file.  The custom id of a line finds the result of its item again.  It is kept on the wire
when it is UTF-8: `json.Marshal` writes U+FFFD for every byte that is not. -/
set_option autoImplicit false
namespace DevHealth.Llm

open Go Lib

/-! ## Model -/

structure BatchItem where
  customID : Bytes
  request : Request

structure OpenAIConfig where
  model : Bytes
  maxOutputTokens : Int

def errEmptyBatch : Bytes := ascii "llm: cannot submit an empty provider batch"

def batchItemError (index : Nat) (what : Bytes) : Bytes :=
  ascii "llm: batch item " ++ decimal index ++ ascii ": " ++ what

/-- The loop over the items, with the custom ids seen so far; `isPrint` is the table that
`%q` depends on. -/
def validateLoop (isPrint : CodePoint → Bool) : Nat → List Bytes → List BatchItem → Except Bytes Unit
  | _, _, [] => .ok ()
  | index, seen, item :: rest =>
    if trimSpace item.customID = [] then
      .error (batchItemError index (ascii "custom id is required"))
    else if (runes item.customID).any isSpaceRune then
      .error (batchItemError index (ascii "custom id must not contain whitespace"))
    else if item.request.prompt = [] then
      .error (batchItemError index (ascii "prompt is required"))
    else if seen.contains item.customID then
      .error (batchItemError index
        (ascii "custom id " ++ quote isPrint item.customID ++ ascii " appears twice"))
    else validateLoop isPrint (index + 1) (seen ++ [item.customID]) rest

def validateBatchItems (isPrint : CodePoint → Bool) (items : List BatchItem) : Except Bytes Unit :=
  if items.isEmpty then .error errEmptyBatch else validateLoop isPrint 0 [] items

inductive SubmitError where
  | items (text : Bytes)
  | provider (e : ProviderError)
  deriving DecidableEq

def openAIBatchEndpoint : Bytes := ascii "/v1/responses"

/-- `json.Marshal` of an `openAIBatchLine`. -/
def batchLine (p : OpenAIConfig) (item : BatchItem) : Bytes :=
  jsonObject
    [(ascii "custom_id", jsonString item.customID),
      (ascii "method", jsonString (ascii "POST")),
      (ascii "url", jsonString openAIBatchEndpoint),
      (ascii "body", (responsesBody p.model item.request
        (max p.maxOutputTokens item.request.maxOutputTokens)).marshal)]

def batchPayload (isPrint : CodePoint → Bool) (p : OpenAIConfig) (items : List BatchItem) :
    Except SubmitError Bytes :=
  match validateBatchItems isPrint items with
  | .error text => .error (.items text)
  | .ok () =>
    if items.any fun item => item.request.seed.isSome then
      .error (.provider (errSeedUnsupported .openAI p.model))
    else .ok (List.intercalate [0x0A] (items.map (batchLine p)))

/-! ## What the validation lets through -/

variable {isPrint : CodePoint → Bool} {p : OpenAIConfig} {items : List BatchItem} {payload : Bytes}

theorem validateLoop_distinct (items : List BatchItem) :
    ∀ index seen, validateLoop isPrint index seen items = .ok () →
      (items.map BatchItem.customID).Nodup ∧ ∀ item ∈ items, item.customID ∉ seen := by
  induction items with
  | nil =>
    intro index seen _
    simp
  | cons item rest ih =>
    intro index seen valid
    rw [validateLoop] at valid
    split_ifs at valid with blank space prompt again
    obtain ⟨distinct, fresh⟩ := ih _ _ valid
    have new : item.customID ∉ seen := by simpa using again
    refine ⟨?_, ?_⟩
    · rw [List.map_cons, List.nodup_cons]
      refine ⟨?_, distinct⟩
      intro inside
      obtain ⟨other, member, same⟩ := List.mem_map.mp inside
      apply fresh other member
      rw [same]
      exact List.mem_append_right _ (List.mem_singleton.mpr rfl)
    · intro other inside
      rcases List.mem_cons.mp inside with rfl | inside
      · exact new
      · exact fun present => fresh other inside (List.mem_append_left _ present)

theorem payload_built (built : batchPayload isPrint p items = .ok payload) :
    items ≠ [] ∧ (items.map BatchItem.customID).Nodup ∧
      payload = List.intercalate [0x0A] (items.map (batchLine p)) := by
  rw [batchPayload] at built
  split at built
  · cases built
  · rename_i valid
    split_ifs at built
    cases built
    rw [validateBatchItems] at valid
    split_ifs at valid with empty
    refine ⟨?_, (validateLoop_distinct items 0 [] valid).1, rfl⟩
    simpa using empty

/-! ## One line -/

theorem written_format (f : OpenAITextFormat) : Written f.marshal := by
  apply written_object
  intro m inside
  simp only [List.mem_append, List.mem_singleton] at inside
  rcases inside with ((rfl | inside) | inside) | inside
  · exact written_string _
  · split_ifs at inside
    · cases inside
    · rw [List.mem_singleton.mp inside]
      exact written_string _
  · split_ifs at inside
    · rw [List.mem_singleton.mp inside]
      exact written_true
    · cases inside
  · split_ifs at inside
    · cases inside
    · rw [List.mem_singleton.mp inside]
      exact written_marshal _

theorem written_request (r : OpenAIResponsesRequest) : Written r.marshal := by
  apply written_object
  intro m inside
  simp only [List.mem_cons, List.not_mem_nil, or_false] at inside
  rcases inside with rfl | rfl | rfl | rfl | rfl | rfl
  · exact written_string _
  · exact written_string _
  · exact written_string _
  · apply written_object
    intro m inside
    simp only [List.mem_cons, List.not_mem_nil, or_false] at inside
    rcases inside with rfl | rfl
    · exact written_format _
    · exact written_string _
  · apply written_object
    intro m inside
    rw [List.mem_singleton.mp inside]
    exact written_string _
  · exact written_int _

/-- A line that holds one JSON object, with this decoded `custom_id`. -/
def HasID (line id : Bytes) : Prop :=
  ∃ body : Json (.body .object), line = (Json.box body).text ∧
    namedString body (ascii "custom_id") = some id

theorem batchLine_printable (item : BatchItem) : Printable (batchLine p item) := by
  apply printable_jsonObject
  intro m inside
  simp only [List.mem_cons, List.not_mem_nil, or_false] at inside
  rcases inside with rfl | rfl | rfl | rfl
  · exact printable_jsonString _
  · exact printable_jsonString _
  · exact printable_jsonString _
  · exact (written_request _).printable

/-- The id on the wire is the id with U+FFFD for every byte that is not UTF-8. -/
theorem batchLine_hasID (item : BatchItem) : HasID (batchLine p item) (toValidUTF8 item.customID) := by
  obtain ⟨body, text⟩ := (written_request (responsesBody p.model item.request
    (max p.maxOutputTokens item.request.maxOutputTokens))).tree
  refine ⟨objectTree [(ascii "custom_id", stringTree item.customID),
    (ascii "method", stringTree (ascii "POST")), (ascii "url", stringTree openAIBatchEndpoint),
    (ascii "body", body)], ?_, ?_⟩
  · rw [text_objectTree]
    simp only [List.map_cons, List.map_nil, text_stringTree, text]
    rfl
  · have names : (toValidUTF8 (ascii "custom_id") == ascii "custom_id") = true ∧
        (toValidUTF8 (ascii "method") == ascii "custom_id") = false ∧
        (toValidUTF8 (ascii "url") == ascii "custom_id") = false ∧
        (toValidUTF8 (ascii "body") == ascii "custom_id") = false := by decide
    rw [namedString, named, entries_objectTree]
    simp [unquote_jsonContent, names, stringOf, stringTree]

theorem HasID.unique {line a b : Bytes} (first : HasID line a) (second : HasID line b) : a = b := by
  obtain ⟨body, text, id⟩ := first
  obtain ⟨body', text', id'⟩ := second
  rw [namedString_of_text (text.symm.trans text'), id'] at id
  exact (Option.some.inj id).symm

/-! ## The payload -/

theorem payload_lines (built : batchPayload isPrint p items = .ok payload) :
    payload.splitOn 0x0A = items.map (batchLine p) := by
  obtain ⟨nonempty, -, rfl⟩ := payload_built built
  apply List.splitOn_intercalate
  · intro line inside feed
    obtain ⟨item, -, rfl⟩ := List.mem_map.mp inside
    exact absurd (batchLine_printable item _ feed) (by decide)
  · simpa using nonempty

/-- One line for each item, in order, with its custom id, and no id on two lines. -/
structure KeepsIDs (items : List BatchItem) (lines : List Bytes) : Prop where
  ids : items.Forall₂ (fun item line => HasID line item.customID) lines
  distinct : lines.Pairwise fun a b => ∀ id, HasID a id → ¬ HasID b id

theorem keepsIDs_lines_iff (distinct : (items.map BatchItem.customID).Nodup) :
    KeepsIDs items (items.map (batchLine p)) ↔ ∀ item ∈ items, ValidUTF8 item.customID := by
  have wire : ∀ item, HasID (batchLine p item) item.customID ↔ ValidUTF8 item.customID := by
    intro item
    rw [← toValidUTF8_eq_iff]
    constructor
    · exact fun kept => (batchLine_hasID item).unique kept
    · intro same
      have kept : HasID (batchLine p item) (toValidUTF8 item.customID) := batchLine_hasID item
      rwa [same] at kept
  constructor
  · intro keeps item inside
    have each := keeps.ids
    rw [List.forall₂_map_right_iff, List.forall₂_same] at each
    exact (wire item).mp (each item inside)
  · intro valid
    refine ⟨?_, ?_⟩
    · rw [List.forall₂_map_right_iff, List.forall₂_same]
      exact fun item inside => (wire item).mpr (valid item inside)
    · rw [List.pairwise_map]
      rw [List.Nodup, List.pairwise_map] at distinct
      refine distinct.imp_of_mem ?_
      intro item other inside inside' different id first second
      have same := first.unique ((wire item).mpr (valid item inside))
      have same' := second.unique ((wire other).mpr (valid other inside'))
      exact different (same.symm.trans same')

/-- The payload has one line for each item, and each line is one JSON object; the ids are
kept when they are UTF-8. -/
theorem batch_ids_kept_iff {isPrint : CodePoint → Bool} {p : OpenAIConfig} {items : List BatchItem}
    {payload : Bytes} (built : batchPayload isPrint p items = .ok payload) :
    (payload.splitOn 0x0A).length = items.length ∧
      (∀ line ∈ payload.splitOn 0x0A, ∃ body : Json (.body .object), line = (Json.box body).text) ∧
      (KeepsIDs items (payload.splitOn 0x0A) ↔ ∀ item ∈ items, ValidUTF8 item.customID) := by
  rw [payload_lines built]
  refine ⟨List.length_map _, ?_, keepsIDs_lines_iff (payload_built built).2.1⟩
  intro line inside
  obtain ⟨item, -, rfl⟩ := List.mem_map.mp inside
  obtain ⟨body, text, -⟩ := batchLine_hasID (p := p) item
  exact ⟨body, text⟩

def plainRequest : Request := ⟨[], ascii "hi", none, 0, none, []⟩

def plainConfig : OpenAIConfig := ⟨ascii "gpt-5-mini", 2048⟩

def plainBatch : List BatchItem := [⟨ascii "a", plainRequest⟩, ⟨ascii "b", plainRequest⟩]

theorem plainBatch_kept :
    KeepsIDs plainBatch
      ((List.intercalate [0x0A] (plainBatch.map (batchLine plainConfig))).splitOn 0x0A) := by
  have built : batchPayload (fun _ => true) plainConfig plainBatch =
      .ok (List.intercalate [0x0A] (plainBatch.map (batchLine plainConfig))) := rfl
  apply (batch_ids_kept_iff built).2.2.mpr
  have valid : ∀ item ∈ plainBatch, toValidUTF8 item.customID = item.customID := by decide
  exact fun item inside => toValidUTF8_eq_iff.mp (valid item inside)

/-- Two ids of one byte that is not UTF-8 each are one id on the wire. -/
theorem invalidIDs_collide :
    ∃ payload a b, batchPayload (fun _ => true) plainConfig
        [⟨[0xFE], plainRequest⟩, ⟨[0xFF], plainRequest⟩] = .ok payload ∧
      payload.splitOn 0x0A = [a, b] ∧ HasID a [0xEF, 0xBF, 0xBD] ∧ HasID b [0xEF, 0xBF, 0xBD] ∧
      ¬ KeepsIDs [⟨[0xFE], plainRequest⟩, ⟨[0xFF], plainRequest⟩] (payload.splitOn 0x0A) := by
  have built : batchPayload (fun _ => true) plainConfig
      [⟨[0xFE], plainRequest⟩, ⟨[0xFF], plainRequest⟩] =
        .ok (List.intercalate [0x0A] [batchLine plainConfig ⟨[0xFE], plainRequest⟩,
          batchLine plainConfig ⟨[0xFF], plainRequest⟩]) := rfl
  have lines := payload_lines built
  have first : HasID (batchLine plainConfig ⟨[0xFE], plainRequest⟩) [0xEF, 0xBF, 0xBD] :=
    batchLine_hasID ⟨[0xFE], plainRequest⟩
  have second : HasID (batchLine plainConfig ⟨[0xFF], plainRequest⟩) [0xEF, 0xBF, 0xBD] :=
    batchLine_hasID ⟨[0xFF], plainRequest⟩
  refine ⟨_, _, _, built, lines, first, second, ?_⟩
  rw [lines]
  intro keeps
  exact (List.pairwise_cons.mp keeps.distinct).1 _ (List.mem_singleton.mpr rfl) _ first second

end DevHealth.Llm

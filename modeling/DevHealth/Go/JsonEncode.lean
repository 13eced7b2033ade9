import DevHealth.Go.Quote
import DevHealth.Lib.JsonValue

/-! # `json.Marshal` of a decoded value

The compact text of a value: members in the order of their names, and the characters that
have a meaning in HTML escaped. -/
set_option autoImplicit false
namespace DevHealth.Go

open Lib

def jsonByte (b : UInt8) : Bytes :=
  if b = 0x22 ∨ b = 0x5C then [0x5C, b]
  else if b = 0x08 then ascii "\\b"
  else if b = 0x0C then ascii "\\f"
  else if b = 0x0A then ascii "\\n"
  else if b = 0x0D then ascii "\\r"
  else if b = 0x09 then ascii "\\t"
  else if b < 0x20 ∨ b = 0x3C ∨ b = 0x3E ∨ b = 0x26 then ascii "\\u00" ++ hexDigits 2 b.toNat
  else [b]

/-- The loop over the runes of a string; every round takes at least one byte. -/
def jsonStringBody : Nat → Bytes → Bytes
  | 0, _ => []
  | _, [] => []
  | fuel + 1, b :: rest =>
    if isASCII b then jsonByte b ++ jsonStringBody fuel rest
    else
      let (r, width) := decodeRune (b :: rest)
      (if width = 1 ∧ r = runeError then encodeRune runeError
        else if r = 0x2028 ∨ r = 0x2029 then ascii "\\u" ++ hexDigits 4 r
        else (b :: rest).take width) ++
        jsonStringBody fuel ((b :: rest).drop width)

def jsonString (s : Bytes) : Bytes := ascii "\"" ++ jsonStringBody s.length s ++ ascii "\""

/-- The members of an object or of a struct, in order, with the text of each value. -/
def jsonObject (members : List (Bytes × Bytes)) : Bytes :=
  ascii "\x7b" ++
    List.intercalate (ascii ",") (members.map fun (key, text) => jsonString key ++ ascii ":" ++ text) ++
    ascii "\x7d"

mutual

def marshal : JsonValue → Bytes
  | .null => ascii "null"
  | .bool b => if b then ascii "true" else ascii "false"
  | .num text _ => text
  | .str s => jsonString s
  | .arr items => ascii "[" ++ List.intercalate (ascii ",") (marshalItems items) ++ ascii "]"
  | .obj members =>
    let sorted := (marshalMembers members).insertionSort fun a b => a.1 ≤ b.1
    ascii "\x7b" ++
      List.intercalate (ascii ",") (sorted.map fun (key, text) => jsonString key ++ ascii ":" ++ text) ++
      ascii "\x7d"

def marshalItems : List JsonValue → List Bytes
  | [] => []
  | item :: items => marshal item :: marshalItems items

def marshalMembers : List (Bytes × JsonValue) → List (Bytes × Bytes)
  | [] => []
  | (key, value) :: members => (key, marshal value) :: marshalMembers members

end

example : marshal (.obj [(ascii "b", .arr [.null]), (ascii "a", .str (ascii "<x>"))]) =
    ascii "\x7b\"a\":\"\\u003cx\\u003e\",\"b\":[null]\x7d" := by decide +kernel

end DevHealth.Go

import DevHealth.Go.JsonDecode
import DevHealth.Go.JsonEncode

/-! # `encoding/json` into any value

Decoding into an empty interface, with the text of the numbers kept: a `JsonValue`.  Of two
members of one name the later one stays. -/
set_option autoImplicit false
namespace DevHealth.Go

open Lib

theorem isNumber_iff_scanned {text : Bytes} : scanNumber text = some (text, []) ↔ IsNumber text := by
  constructor
  · exact fun scanned => (scanNumber_sound scanned).2
  · intro number
    have ends : Ends [] := ends_of_blank isBlank_nil
    simpa using scanNumber_complete number ends

instance (text : Bytes) : Decidable (IsNumber text) := decidable_of_iff _ isNumber_iff_scanned

def setMember (members : Members) (key : Bytes) (value : JsonValue) : Members :=
  members.filter (fun m => m.1 != key) ++ [(key, value)]

/-- The value of raw bytes; every level of nesting takes a byte. -/
def decodeAny : Nat → RawMessage → Option JsonValue
  | 0, _ => none
  | fuel + 1, raw =>
    match scanDocument raw with
    | some (.scalar .null) => some .null
    | some (.scalar (.bool b)) => some (.bool b)
    | some (.scalar (.num digits)) => if number : IsNumber digits then some (.num digits number) else none
    | some (.scalar (.str content)) => some (.str (unquote content))
    | some (.box .array entries) =>
      (entries.mapM fun e => decodeAny fuel e.2).map .arr
    | some (.box .object entries) =>
      (entries.foldlM (fun members e =>
        (decodeAny fuel e.2).map (setMember members (unquote e.1))) []).map .obj
    | none => none

end DevHealth.Go

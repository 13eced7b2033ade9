import DevHealth.Go.Base64
import DevHealth.Go.Fold
import DevHealth.Go.JsonDecode
import DevHealth.Lib.Regex

/-! # Compact tokens on the verifying side

The pieces the token verifiers share: the split into segments, the object decoder that
refuses repeated names under case folding, and the readers of members.  A value of type
`any` is kept as the text it was decoded from; a type assertion reads that text. -/
set_option autoImplicit false
namespace DevHealth.Authverify

open Go Lib

def algEdDSA : Bytes := ascii "EdDSA"
def maxNumericDate : Int := 253402300799
def maxTokenBytes : Nat := 8192

/-- `ed25519.PublicKeySize` and `ed25519.SignatureSize` -/
def publicKeySize : Nat := 32
def signatureSize : Nat := 64

/-! ## Patterns -/

def lowerAlnum : Regex UInt8 := .cls fun b => between 'a' 'z' b || between '0' '9' b

def urlByte : Regex UInt8 := .cls isBase64URL

/-- `^[!-~]{1,256}$` -/
def kidPattern : Regex UInt8 := .repeated (.cls (between '!' '~')) 1 256

/-- `(/[A-Za-z0-9_~-][A-Za-z0-9._~-]{0,63})` -/
def issuerSegment : Regex UInt8 :=
  .seq (.lit (ascii "/")) (.seq (.cls fun b => isBase64URL b || b == 0x7E)
    (.upTo (.cls fun b => isBase64URL b || b == 0x7E || b == 0x2E) 63))

/-- `^https://[a-z0-9]([a-z0-9.-]{0,251}[a-z0-9])?(:[0-9]{1,5})?(/…){0,8}$` -/
def issuerPattern : Regex UInt8 :=
  .seq (.lit (ascii "https://")) <| .seq lowerAlnum <|
  .seq (.opt (.seq (.upTo (.cls fun b => between 'a' 'z' b || between '0' '9' b || b == 0x2E ||
    b == 0x2D) 251) lowerAlnum)) <|
  .seq (.opt (.seq (.lit (ascii ":")) (.repeated (.cls isDigit) 1 5))) (.upTo issuerSegment 8)

/-- `^prn_[A-Za-z0-9_-]+$` -/
def subjectPattern : Regex UInt8 := .seq (.lit (ascii "prn_")) (.plus urlByte)

/-- `^[A-Za-z0-9_-]{22,64}$` -/
def jtiPattern : Regex UInt8 := .repeated urlByte 22 64

/-- `^[0-9]+$` -/
def digitsOnly : Regex UInt8 := .plus (.cls isDigit)

/-! ## Objects -/

/-- A closing bracket in the place of a value is refused.  Every level of nesting takes a
byte, so the length of the text bounds the recursion. -/
def scanValue (folding : CaseFolding) (d : Decoder) : Option Decoder :=
  strictValue (equalFold folding) (fun _ => none) (d.rest.length + 1) d

def singleDocumentWithoutDuplicateMembers (folding : CaseFolding) (encoded : Bytes) : Bool :=
  match scanValue folding (.start encoded) with
  | none => false
  | some d => d.atEnd

def decodeObject (folding : CaseFolding) (raw : Bytes) : Option RawObject :=
  if singleDocumentWithoutDuplicateMembers folding raw then (Decoder.start raw).decodeObject
  else none

def closedSet (object : RawObject) (allowed required : List Bytes) : Bool :=
  object.keys.all (contains allowed) && required.all fun name => (object.get name).isSome

/-- `value.(string)` -/
def anyString (value : RawMessage) : Option Bytes :=
  match Go.scanDocument value with
  | some (.scalar (.str content)) => some (unquote content)
  | _ => none

/-- `value.(json.Number)` -/
def anyNumber (value : RawMessage) : Option Bytes :=
  match Go.scanDocument value with
  | some (.scalar (.num digits)) => some digits
  | _ => none

def stringMember (object : RawObject) (name : Bytes) (pattern : Option (Regex UInt8)) :
    Option Bytes :=
  ((object.get name).bind anyString).filter fun value =>
    match pattern with
    | some pattern => pattern.accepts value
    | none => true

def numericDate (object : RawObject) (name : Bytes) : Option Int :=
  match (object.get name).bind anyNumber with
  | none => none
  | some number =>
    if !digitsOnly.accepts number || decide (12 < number.length) then none
    else
      (parseInt number).filter fun value => decide (1 ≤ value) && decide (value ≤ maxNumericDate)

/-! ## Segments -/

def base64URLAlphabet (s : Bytes) : Bool := s.all isBase64URL

def splitCompact (token : Bytes) : Option (Bytes × Bytes × Bytes) :=
  if maxTokenBytes < token.length || trimSpace token != token then none
  else
    match token.splitOn 0x2E with
    | [header, payload, signature] =>
      if base64URLAlphabet header && base64URLAlphabet payload && base64URLAlphabet signature then
        some (header, payload, signature)
      else none
    | _ => none

end DevHealth.Authverify

import DevHealth.Pep.Decision
import DevHealth.Go.Quote

/-! # Requests to the decision point and their cache keys -/
set_option autoImplicit false
namespace DevHealth.Pep

open Go Lib

def maxBatch : Nat := 100

structure Request where
  principalReference : Bytes
  action : Bytes
  resourceType : Bytes
  resourceKey : Bytes
  organizationID : Bytes
  requestID : Bytes
  deriving DecidableEq, Repr

def idByte : Regex UInt8 :=
  .cls fun b => between 'A' 'Z' b || between 'a' 'z' b || between '0' '9' b || isByte '_' b ||
    isByte '-' b

/-- `^[A-Za-z0-9._~-]{16,1000}$` -/
def principalReferencePattern : Regex UInt8 :=
  .repeated (.cls fun b => between 'A' 'Z' b || between 'a' 'z' b || between '0' '9' b ||
    isByte '.' b || isByte '_' b || isByte '~' b || isByte '-' b) 16 1000

/-- `[a-z][a-z0-9_]*` -/
def actionWord : Regex UInt8 :=
  .seq (.cls (between 'a' 'z'))
    (.star (.cls fun b => between 'a' 'z' b || between '0' '9' b || isByte '_' b))

/-- `^[a-z][a-z0-9_]*(\.[a-z][a-z0-9_]*)+$` -/
def actionPattern : Regex UInt8 :=
  .seq actionWord (.plus (.seq (.lit (ascii ".")) actionWord))

/-- `^req_[A-Za-z0-9_-]{26}$` -/
def requestIDPattern : Regex UInt8 := .seq (.lit (ascii "req_")) (.exactly idByte 26)

/-- `^[a-z0-9][a-z0-9._:-]{0,255}$` -/
def otherKeyPattern : Regex UInt8 :=
  .seq (.cls fun b => between 'a' 'z' b || between '0' '9' b)
    (.upTo (.cls fun b => between 'a' 'z' b || between '0' '9' b || isByte '.' b || isByte '_' b ||
      isByte ':' b || isByte '-' b) 255)

def resourceTypes : List Bytes :=
  [ascii "organization", ascii "repository", ascii "membership", ascii "service_account",
    ascii "grant", ascii "credential", ascii "session", ascii "signing_key",
    ascii "subscription", ascii "platform"]

def Request.valid (r : Request) : Bool :=
  principalReferencePattern.accepts r.principalReference && actionPattern.accepts r.action &&
    contains resourceTypes r.resourceType &&
    (if r.resourceType = ascii "repository" then Repokey.valid r.resourceKey
      else otherKeyPattern.accepts r.resourceKey) &&
    (r.requestID == [] || requestIDPattern.accepts r.requestID)

def denyAll (e : Error) (n : Nat) : List Decision := List.replicate n (deny e)

/-- The text that `cacheKey` hashes: the quoted fields, joined by commas. -/
def keyText (isPrint : CodePoint → Bool) (r : Request) : Bytes :=
  List.intercalate (ascii ",")
    ([r.principalReference, r.action, r.resourceType, r.resourceKey, r.organizationID].map
      (quote isPrint))

/-- `sha256.Sum256` stands for any digest of the text. -/
def cacheKey {K : Type} (isPrint : CodePoint → Bool) (sha256 : Bytes → K) (r : Request) : K :=
  sha256 (keyText isPrint r)

/-- Cache keys do not collide: the texts of two requests are equal exactly when the
requests agree in all five fields, whatever bytes they hold. -/
theorem keyText_eq_iff (isPrint : CodePoint → Bool) (r r' : Request) :
    keyText isPrint r = keyText isPrint r' ↔
      r.principalReference = r'.principalReference ∧ r.action = r'.action ∧
        r.resourceType = r'.resourceType ∧ r.resourceKey = r'.resourceKey ∧
        r.organizationID = r'.organizationID := by
  have shape : ∀ r : Request, keyText isPrint r =
      quote isPrint r.principalReference ++ (ascii "," ++ (quote isPrint r.action ++
        (ascii "," ++ (quote isPrint r.resourceType ++ (ascii "," ++ (quote isPrint r.resourceKey ++
          (ascii "," ++ (quote isPrint r.organizationID ++ [])))))))) := by
    intro r
    simp [keyText, List.intercalate, List.intersperse]
  constructor
  · intro same
    rw [shape, shape] at same
    -- Each quoted field is read off the front, and the comma after it is the same in both.
    obtain ⟨principal, same⟩ := quote_append_injective same
    obtain ⟨action, same⟩ := quote_append_injective (List.append_cancel_left same)
    obtain ⟨type, same⟩ := quote_append_injective (List.append_cancel_left same)
    obtain ⟨key, same⟩ := quote_append_injective (List.append_cancel_left same)
    obtain ⟨organization, -⟩ := quote_append_injective (List.append_cancel_left same)
    exact ⟨principal, action, type, key, organization⟩
  · rintro ⟨principal, action, type, key, organization⟩
    rw [shape, shape, principal, action, type, key, organization]

end DevHealth.Pep

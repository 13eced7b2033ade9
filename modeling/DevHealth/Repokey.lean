import DevHealth.Go.Bytes
import DevHealth.Lib.Regex

/-! # The canonical repository key

A lowercase path of 2 to 20 segments in at most 255 bytes, with `*` as the
wildcard of a grant.  The pattern is built as the source builds it: the group
part is nested, one optional level for each segment between the first and the
last. -/
set_option autoImplicit false
namespace DevHealth.Repokey

open Go Lib

def maxSegments : Nat := 20
def maxBytes : Nat := 255

/-- `[a-z0-9]` -/
def alnum : Regex UInt8 := .cls fun b => between 'a' 'z' b || between '0' '9' b

/-- `[a-z0-9._-]` -/
def nameByte : Regex UInt8 :=
  .cls fun b => between 'a' 'z' b || between '0' '9' b || isByte '.' b || isByte '_' b ||
    isByte '-' b

/-- `[a-z0-9](?:[a-z0-9._-]{0,98}[a-z0-9])?` -/
def group : Regex UInt8 := .seq alnum (.opt (.seq (.upTo nameByte 98) alnum))

/-- `(?:[a-z0-9]|[a-z0-9.][a-z0-9._-]{0,98}[a-z0-9])` -/
def last : Regex UInt8 :=
  .alt alnum (.seq (.cls fun b => between 'a' 'z' b || between '0' '9' b || isByte '.' b)
    (.seq (.upTo nameByte 98) alnum))

/-- The loop of `body`: each round wraps what it has in one more optional group. -/
def nest : Nat → Regex UInt8
  | 0 => .eps
  | n + 1 => .opt (.seq (.lit (ascii "/")) (.seq group (nest n)))

def body : Regex UInt8 :=
  .seq group (.seq (nest (maxSegments - 2)) (.seq (.lit (ascii "/")) last))

def slugPattern : Regex UInt8 := body

/-- The loop of `body` over the texts of the patterns. -/
def nestText : Nat → Bytes
  | 0 => []
  | n + 1 =>
    ascii "(?:/" ++ ascii "[a-z0-9](?:[a-z0-9._-]\x7b0,98\x7d[a-z0-9])?" ++ nestText n ++ ascii ")?"

/-- `SlugPattern` as the text that other engines are given. -/
def slugPatternText : Bytes :=
  ascii "^[a-z0-9](?:[a-z0-9._-]\x7b0,98\x7d[a-z0-9])?" ++ nestText (maxSegments - 2) ++
    ascii "/(?:[a-z0-9]|[a-z0-9.][a-z0-9._-]\x7b0,98\x7d[a-z0-9])$"

def schemaPattern : Regex UInt8 := .alt body (.lit (ascii "*"))

def validSlug (key : Bytes) : Bool := decide (key.length ≤ maxBytes) && slugPattern.accepts key

def valid (key : Bytes) : Bool := decide (key.length ≤ maxBytes) && schemaPattern.accepts key

example : validSlug (ascii "full-chaos/.github") = true := by decide +kernel
example : validSlug (ascii "owner/not a slug") = false := by decide +kernel
example : valid (ascii "*") = true := by decide +kernel

end DevHealth.Repokey

import DevHealth.Go.Fold
import DevHealth.Go.JsonDecoder

/-! # Package `net/url`

Escaping, the parts of a URL, and `Parse`.  A path is kept decoded, with its written form
beside it when that is not the default one; a host is decoded as well, and keeps nothing of
how it was written.  Which texts in brackets are addresses is for `net/netip` to say. -/
set_option autoImplicit false
namespace DevHealth.Go

open Lib

/-! ## Escaping -/

inductive Encoding where
  | path
  | host
  | zone
  | userPassword
  | fragment
  deriving DecidableEq, Repr

def isOneOf (text : String) (c : UInt8) : Bool := (ascii text).contains c

def isAlphanumeric (c : UInt8) : Bool := between 'a' 'z' c || between 'A' 'Z' c || between '0' '9' c

def shouldEscape (c : UInt8) (mode : Encoding) : Bool :=
  if isAlphanumeric c then false
  else if (mode = .host ∨ mode = .zone) ∧ isOneOf "!$&'()*+,;=:[]<>\"" c then false
  else if isOneOf "-_.~" c then false
  else if isOneOf "$&+,/:;=?@" c then
    match mode with
    | .path => isByte '?' c
    | .userPassword => isOneOf "@/?:" c
    | .fragment => false
    | .host | .zone => true
  else !(decide (mode = .fragment) && isOneOf "!()*" c)

def percent : UInt8 := 0x25

/-- The bytes that an escape may stand for: in a host only those that are not ASCII, and the
percent sign. -/
def mayStandFor (mode : Encoding) (v : UInt8) : Bool :=
  match mode with
  | .host => decide (0x80 ≤ v.toNat) || v == percent
  | .zone => v == percent || v == 0x20 || !shouldEscape v .host
  | _ => true

def mayStand (mode : Encoding) (c : UInt8) : Bool :=
  !(decide (mode = .host ∨ mode = .zone) && decide (c.toNat < 0x80) && shouldEscape c mode)

def unescaped (a b : UInt8) : UInt8 := UInt8.ofNat (hexValue a * 16 + hexValue b)

def unescape (mode : Encoding) : Bytes → Option Bytes
  | [] => some []
  | c :: rest =>
    if c = percent then
      match rest with
      | a :: b :: after =>
        if isHex a && isHex b && mayStandFor mode (unescaped a b) then
          (unescape mode after).map (unescaped a b :: ·)
        else none
      | _ => none
    else if mayStand mode c then (unescape mode rest).map (c :: ·)
    else none

def upperHex (n : Nat) : UInt8 := UInt8.ofNat (if n < 10 then 48 + n else 55 + n)

def escape (mode : Encoding) (s : Bytes) : Bytes :=
  s.flatMap fun c =>
    if shouldEscape c mode then [percent, upperHex (c.toNat / 16), upperHex (c.toNat % 16)] else [c]

def validEncoded (s : Bytes) (mode : Encoding) : Bool :=
  s.all fun c => isOneOf "!$&'()*+,;=:@[]%" c || !shouldEscape c mode

/-! ## URLs -/

structure URL where
  scheme : Bytes
  opaquePart : Bytes
  user : Option (Bytes × Option Bytes)
  host : Bytes
  path : Bytes
  rawPath : Bytes
  omitHost : Bool
  forceQuery : Bool
  rawQuery : Bytes
  fragment : Bytes
  deriving DecidableEq, Repr

def URL.zero : URL := ⟨[], [], none, [], [], [], false, false, [], []⟩

def URL.escapedPath (u : URL) : Bytes :=
  if u.rawPath ≠ [] ∧ validEncoded u.rawPath .path = true ∧ unescape .path u.rawPath = some u.path then
    u.rawPath
  else if u.path = ascii "*" then ascii "*"
  else escape .path u.path

def URL.setPath (u : URL) (p : Bytes) : Option URL :=
  (unescape .path p).map fun path =>
    { u with path := path, rawPath := if escape .path path = p then [] else p }

def cut (sep : UInt8) (s : Bytes) : Bytes × Bytes :=
  (s.takeWhile (· != sep), (s.dropWhile (· != sep)).tail)

def cutLast (sep : UInt8) (s : Bytes) : Option (Bytes × Bytes) :=
  if sep ∈ s then
    some ((s.reverse.dropWhile (· != sep)).tail.reverse, (s.reverse.takeWhile (· != sep)).reverse)
  else none

/-- What stands before the first occurrence of a text, and the rest from there on. -/
def cutBefore (sep : Bytes) : Bytes → Option (Bytes × Bytes)
  | [] => none
  | c :: rest =>
    if sep.isPrefixOf (c :: rest) then some ([], c :: rest)
    else (cutBefore sep rest).map fun parts => (c :: parts.1, parts.2)

def colonMark : UInt8 := 0x3A
def slashMark : UInt8 := 0x2F
def atMark : UInt8 := 0x40
def queryMark : UInt8 := 0x3F
def hashMark : UInt8 := 0x23
def openBracket : UInt8 := 0x5B
def closeBracket : UInt8 := 0x5D

def validOptionalPort : Bytes → Bool
  | [] => true
  | c :: digits => c == colonMark && digits.all isDigit

def splitHostPort (hostPort : Bytes) : Bytes × Bytes :=
  let parts :=
    match cutLast colonMark hostPort with
    | some (host, port) => if port.all isDigit then (host, port) else (hostPort, [])
    | none => (hostPort, [])
  if parts.1.head? = some openBracket ∧ parts.1.getLast? = some closeBracket then
    ((parts.1.drop 1).dropLast, parts.2)
  else parts

def URL.hostname (u : URL) : Bytes := (splitHostPort u.host).1
def URL.port (u : URL) : Bytes := (splitHostPort u.host).2

def joinHostPort (host port : Bytes) : Bytes :=
  if colonMark ∈ host then openBracket :: host ++ [closeBracket, colonMark] ++ port
  else host ++ [colonMark] ++ port

/-! ## `Parse` -/

def containsCTLByte (s : Bytes) : Bool := s.any fun b => decide (b.toNat < 0x20) || b == 0x7F

/-- The scheme and what follows its colon; a text without a scheme is all rest. -/
def getScheme (raw : Bytes) : Option (Bytes × Bytes) :=
  let word := raw.takeWhile fun c => isAlphanumeric c || isOneOf "+-." c
  match raw.drop word.length with
  | c :: rest =>
    if c = colonMark then
      match word with
      | [] => none
      | first :: _ =>
        if between 'a' 'z' first || between 'A' 'Z' first then some (word, rest) else some ([], raw)
    else some ([], raw)
  | [] => some ([], raw)

section Parse

variable (isAddress : Bytes → Bool)

/-- An address in brackets, its zone decoded in its own way. -/
def unescapeAddress (name : Bytes) : Option Bytes :=
  match cutBefore (ascii "%25") name with
  | some (address, zone) => do
      let address ← unescape .host address
      let zone ← unescape .zone zone
      some (address ++ zone)
  | none => unescape .host name

/-- What follows an opening bracket: an address, and a port behind the closing bracket. -/
def parseBracketed (inner : Bytes) : Option Bytes := do
  let (name, port) ← cutLast closeBracket inner
  if !validOptionalPort port then none
  else
    let port ← unescape .host port
    let address ← unescapeAddress name
    if isAddress address then some (openBracket :: address ++ closeBracket :: port) else none

def parseHost (scheme host : Bytes) : Option Bytes :=
  if openBracket ∈ host then
    if host.head? = some openBracket ∧ openBracket ∉ host.tail then parseBracketed isAddress host.tail
    else none
  else if (scheme = ascii "http" ∨ scheme = ascii "https") ∧ 1 < host.count colonMark then none
  else
    match cutLast colonMark host with
    | some (_, port) => if port.all isDigit then unescape .host host else none
    | none => unescape .host host

def validUserinfo (s : Bytes) : Bool := s.all fun c => isAlphanumeric c || isOneOf "-._:~!$&'()*+,;=%@" c

def parseAuthority (scheme authority : Bytes) : Option (Option (Bytes × Option Bytes) × Bytes) :=
  match cutLast atMark authority with
  | none => (parseHost isAddress scheme authority).map fun host => (none, host)
  | some (userinfo, rest) => do
      let host ← parseHost isAddress scheme rest
      if !validUserinfo userinfo then none
      else if colonMark ∈ userinfo then
        let name ← unescape .userPassword (cut colonMark userinfo).1
        let password ← unescape .userPassword (cut colonMark userinfo).2
        some (some (name, some password), host)
      else
        let name ← unescape .userPassword userinfo
        some (some (name, none), host)

def parseRest (u : URL) (rest : Bytes) : Option URL :=
  if (u.scheme ≠ [] ∨ (ascii "///").isPrefixOf rest = false) ∧ (ascii "//").isPrefixOf rest then do
    let after := rest.drop 2
    let (user, host) ← parseAuthority isAddress u.scheme (after.takeWhile (· != slashMark))
    URL.setPath { u with user := user, host := host } (after.dropWhile (· != slashMark))
  else if u.scheme ≠ [] ∧ rest.head? = some slashMark then URL.setPath { u with omitHost := true } rest
  else u.setPath rest

variable (mapping : CaseMapping)

/-- `parse` without its fragment. -/
def parseURL (raw : Bytes) : Option URL :=
  if containsCTLByte raw then none
  else if raw = ascii "*" then some { URL.zero with path := ascii "*" }
  else do
    let (scheme, rest) ← getScheme raw
    let u := { URL.zero with scheme := toLower mapping scheme }
    let (u, rest) :=
      if rest.getLast? = some queryMark ∧ rest.count queryMark = 1 then
        ({ u with forceQuery := true }, rest.dropLast)
      else ({ u with rawQuery := (cut queryMark rest).2 }, (cut queryMark rest).1)
    if rest.head? ≠ some slashMark then
      if u.scheme ≠ [] then some { u with opaquePart := rest }
      else if colonMark ∈ (cut slashMark rest).1 then none
      else parseRest isAddress u rest
    else parseRest isAddress u rest

def parse (raw : Bytes) : Option URL := do
  let (raw, fragment) := cut hashMark raw
  let u ← parseURL isAddress mapping raw
  if fragment = [] then some u
  else
    let fragment ← unescape .fragment fragment
    some { u with fragment := fragment }

end Parse

end DevHealth.Go

import CircuitCloak.Yaml.Scalar
import CircuitCloak.Yaml.Token

/-! What may be noted at a value, and before a document: names of values, tags, directives. -/

namespace CircuitCloak.Yaml

def isNameCharacter (c : Char) : Bool := c.isAlphanum || c == '_' || c == '-'

def expect (c : Char) : Reader Unit := do
  if (← get).rest.head? != some c then failure
  skip 1

/-- The text can not go on here. -/
def expectWordEnd : Reader Unit := do
  if !endsWord (← get).rest then failure

def nameRun : Reader String := do
  let run ← takeWhile isNameCharacter
  if run.isEmpty then failure
  return String.ofList run

/-- The characters that may follow the name of a value. -/
def endsName (rest : List Char) : Bool :=
  endsWord rest || rest.head?.any ['?', ':', ',', ']', '}', '%', '@', '\x60'].contains

/-- The name of a value, after its indicator. -/
def valueName : Reader String := do
  skip 1
  let name ← nameRun
  if !endsName (← get).rest then failure
  return name

/-- The characters of a tag. Some of them may stand in a verbatim tag only. -/
def isTagCharacter (verbatim : Bool) (c : Char) : Bool :=
  isNameCharacter c || ";/?:@&=+$.!~*'()%".contains c ||
    (verbatim && (c == ',' || c == '[' || c == ']'))

/-- The octet that a percent sign and two hexadecimal digits stand for. -/
def octet? : List Char → Option (UInt8 × List Char)
  | '%' :: high :: low :: rest => (natural? 16 [high, low]).map fun value => (value.toUInt8, rest)
  | _ => none

/-- How many octets follow the first one of a character. -/
def octetsAfter? (first : UInt8) : Option Nat :=
  if first < 0x80 then some 0
  else if first < 0xC0 then none
  else if first < 0xE0 then some 1
  else if first < 0xF0 then some 2
  else if first < 0xF8 then some 3
  else none

def moreOctets? : Nat → List Char → Option (List UInt8 × List Char)
  | 0, rest => some ([], rest)
  | count + 1, rest => do
    let (octet, rest) ← octet? rest
    if octet / 0x40 != 2 then none
    let (octets, rest) ← moreOctets? count rest
    return (octet :: octets, rest)

/-- Escaped octets, as many as the first one asks for. -/
def escapedOctets : Reader (List UInt8) := do
  let cursor ← get
  let (first, rest) ← (octet? cursor.rest : Option _)
  let count ← (octetsAfter? first : Option _)
  let (octets, rest) ← (moreOctets? count rest : Option _)
  skip (cursor.rest.length - rest.length)
  return first :: octets

def tagOctets (verbatim : Bool) : Nat → Reader (List UInt8)
  | 0 => failure
  | fuel + 1 => do
    match (← get).rest with
    | '%' :: _ =>
      let octets ← escapedOctets
      return octets ++ (← tagOctets verbatim fuel)
    | c :: _ =>
      if !isTagCharacter verbatim c then return []
      skip 1
      return octetsOf [c] ++ (← tagOctets verbatim fuel)
    | [] => return []

/-- The part of a tag before an octet of value zero. -/
def untilZero (octets : List UInt8) : List UInt8 := octets.takeWhile (· != 0)

def tagPart (verbatim : Bool) : Reader (List UInt8) := do
  let octets ← tagOctets verbatim ((← get).rest.length + 1)
  if octets.isEmpty then failure
  return untilZero octets

/-- An exclamation mark and the name after it, up to another exclamation mark, if one follows. -/
def tagHandle : Reader (List Char) := do
  expect '!'
  let name ← takeWhile isNameCharacter
  if (← get).rest.head? == some '!' then
    skip 1
    return '!' :: name ++ ['!']
  else return '!' :: name

/-- The part of a tag after an exclamation mark and a name that is no handle. -/
def localTag (name : List Char) : Reader WrittenTag := do
  let rest ← tagOctets false ((← get).rest.length + 1)
  let octets := untilZero (octetsOf name ++ rest)
  if octets.isEmpty then return ⟨"", [Tag.localMark]⟩ else return ⟨"!", octets⟩

def tag (flow : Bool) : Reader WrittenTag := do
  let tag ← match (← get).rest with
    | '!' :: '<' :: _ => do
      skip 2
      let octets ← tagPart true
      expect '>'
      pure (⟨"", octets⟩ : WrittenTag)
    | _ => do
      let handle ← tagHandle
      if 1 < handle.length && handle.getLast? == some '!' then
        pure ⟨String.ofList handle, ← tagPart false⟩
      else localTag handle.tail
  if !(flow && (← get).rest.head? == some ',') then expectWordEnd
  return tag

def versionNumber : Reader Nat := do
  let digits ← takeWhile Char.isDigit
  if 9 < digits.length then failure
  (natural? 10 digits : Option Nat)

/-- The name of a directive decides what it holds. -/
def directiveContent : String → Reader Token
  | "YAML" => do
    let major ← versionNumber
    expect '.'
    return .versionDirective major (← versionNumber)
  | "TAG" => do
    let handle ← tagHandle
    if 1 < handle.length && handle.getLast? != some '!' then failure
    if !(← get).rest.head?.any isBlank then failure
    let _ ← takeWhile isBlank
    let start ← tagPart true
    expectWordEnd
    return .tagDirective (String.ofList handle) start
  | _ => failure

def directive : Reader Token := do
  skip 1
  let name ← nameRun
  expectWordEnd
  let _ ← takeWhile isBlank
  let content ← directiveContent name
  finishLine
  return content

end CircuitCloak.Yaml

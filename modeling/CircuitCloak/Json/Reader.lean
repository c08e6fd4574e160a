import CircuitCloak.Json.Value

/-! Reading JSON text, strictly: one value, with nothing but blanks around it. -/

namespace CircuitCloak.Json

/-- A reader of the text from a place on; it fails on malformed text. -/
abbrev Reader := StateT (List Char) Option

def isBlank (c : Char) : Bool := c == ' ' || c == '\n' || c == '\t' || c == '\r'

def skipBlanks : Reader Unit := modify (·.dropWhile isBlank)

def expect : List Char → Reader Unit
  | [] => return ()
  | wanted :: more => do
    match ← get with
    | c :: rest =>
      if c != wanted then failure
      set rest
      expect more
    | [] => failure

def accept (wanted : Char) : Reader Bool := do
  match ← get with
  | c :: rest =>
    if c == wanted then
      set rest
      return true
    else return false
  | [] => return false

/-- A part of a quoted text: a character, or a code unit that is written as a number. -/
inductive Unit16 where
  | char (c : Char)
  | code (unit : Nat)
  deriving DecidableEq, Repr

def hexValue? (c : Char) : Option Nat :=
  if c.isDigit then some (c.toNat - '0'.toNat)
  else if 'a' ≤ c && c ≤ 'f' then some (c.toNat - 'a'.toNat + 10)
  else if 'A' ≤ c && c ≤ 'F' then some (c.toNat - 'A'.toNat + 10)
  else none

def hexWord? (a b c d : Char) : Option Nat := do
  return (← hexValue? a) * 4096 + (← hexValue? b) * 256 + (← hexValue? c) * 16 + (← hexValue? d)

def shortEscape? : Char → Option Char
  | '"' => some '"'
  | '\\' => some '\\'
  | '/' => some '/'
  | 'b' => some '\x08'
  | 'f' => some '\x0c'
  | 'n' => some '\n'
  | 'r' => some '\r'
  | 't' => some '\t'
  | _ => none

/-- The parts of a quoted text after its opening quote. -/
def quotedUnits : List Char → Option (List Unit16 × List Char)
  | [] => none
  | '"' :: rest => some ([], rest)
  | '\\' :: 'u' :: a :: b :: c :: d :: rest => do
    let unit ← hexWord? a b c d
    let (units, rest) ← quotedUnits rest
    return (.code unit :: units, rest)
  | '\\' :: mark :: rest => do
    let c ← shortEscape? mark
    let (units, rest) ← quotedUnits rest
    return (.char c :: units, rest)
  | c :: rest => do
    if c == '\\' || c.toNat < 0x20 then none
    let (units, rest) ← quotedUnits rest
    return (.char c :: units, rest)

def isHighHalf (unit : Nat) : Bool := 0xD800 ≤ unit && unit < 0xDC00

def isLowHalf (unit : Nat) : Bool := 0xDC00 ≤ unit && unit < 0xE000

/-- The characters of parts. The two halves of a pair must follow each other. -/
def joinUnits : List Unit16 → Option (List Char)
  | [] => some []
  | .char c :: rest => (joinUnits rest).map (c :: ·)
  | .code high :: .code low :: rest =>
    if isHighHalf high then
      if isLowHalf low then
        (joinUnits rest).map (Char.ofNat (0x10000 + (high - 0xD800) * 0x400 + (low - 0xDC00)) :: ·)
      else none
    else if isLowHalf high then none
    else (joinUnits (.code low :: rest)).map (Char.ofNat high :: ·)
  | .code unit :: rest =>
    if isHighHalf unit || isLowHalf unit then none
    else (joinUnits rest).map (Char.ofNat unit :: ·)

def quoted : Reader (Option String) := do
  expect ['"']
  let (units, rest) ← (quotedUnits (← get) : Option _)
  set rest
  return (joinUnits units).map String.ofList

def digits : Reader (List Char) := do
  let (digits, rest) := (← get).span Char.isDigit
  if digits.isEmpty then failure
  set rest
  return digits

/-- A part that begins with a mark, or nothing. -/
def optionalPart (starts : Char → Bool) (part : Reader (List Char)) : Reader (List Char) := do
  match ← get with
  | c :: rest =>
    if starts c then
      set rest
      return c :: (← part)
    else return []
  | [] => return []

def signedDigits : Reader (List Char) := do
  let sign ← optionalPart (fun c => c == '+' || c == '-') (pure [])
  return sign ++ (← digits)

def number : Reader Value := do
  let sign ← optionalPart (· == '-') (pure [])
  let whole ← digits
  if whole.length > 1 && whole.head? == some '0' then failure
  let fraction ← optionalPart (· == '.') digits
  let exponent ← optionalPart (fun c => c == 'e' || c == 'E') signedDigits
  return .number (String.ofList (sign ++ whole ++ fraction ++ exponent))

mutual

def value : Nat → Reader Value
  | 0 => failure
  | fuel + 1 => do
    skipBlanks
    match ← get with
    | '"' :: _ => return .text (← quoted)
    | '[' :: rest =>
      set rest
      skipBlanks
      if ← accept ']' then return .array []
      return .array (← items fuel)
    | '{' :: rest =>
      set rest
      skipBlanks
      if ← accept '}' then return .object []
      return .object (← entries fuel)
    | 'n' :: _ =>
      expect ['n', 'u', 'l', 'l']
      return .null
    | 't' :: _ =>
      expect ['t', 'r', 'u', 'e']
      return .boolean true
    | 'f' :: _ =>
      expect ['f', 'a', 'l', 's', 'e']
      return .boolean false
    | _ => number

def items : Nat → Reader (List Value)
  | 0 => failure
  | fuel + 1 => do
    let item ← value fuel
    skipBlanks
    if ← accept ',' then return item :: (← items fuel)
    expect [']']
    return [item]

def entries : Nat → Reader (List (Option String × Value))
  | 0 => failure
  | fuel + 1 => do
    skipBlanks
    let key ← quoted
    skipBlanks
    expect [':']
    let member ← value fuel
    skipBlanks
    if ← accept ',' then return (key, member) :: (← entries fuel)
    expect ['}']
    return [(key, member)]

end

def parse? (text : String) : Option Value := do
  let characters := text.toList
  let (result, rest) ← (value (characters.length + 1)).run characters
  if rest.all isBlank then some result else none

end CircuitCloak.Json

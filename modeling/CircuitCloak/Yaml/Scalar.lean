import CircuitCloak.Yaml.Cursor
import CircuitCloak.Yaml.Node

/-! Scalars: plain, quoted, and written as blocks. -/

namespace CircuitCloak.Yaml

/-- Indicators with which no plain scalar begins. -/
def indicators : List Char :=
  ['-', '?', ':', ',', '[', ']', '{', '}', '#', '&', '*', '!', '|', '>', '\'', '"', '%',
    '@', '\x60']

/-- A plain scalar begins here. -/
def startsPlain (flow : Bool) : List Char → Bool
  | [] => false
  | c :: rest =>
    if c == '-' then !endsWord rest
    else if c == '?' || c == ':' then !flow && !endsWord rest
    else !isBlank c && !isBreak c && !indicators.contains c

def isFlowIndicator (c : Char) : Bool :=
  c == ',' || c == '[' || c == ']' || c == '{' || c == '}'

/-- The characters of a plain scalar up to a blank or the scalar's end. Inside a flow collection a
colon before an indicator is malformed. -/
def plainWord (flow : Bool) : List Char → Option (List Char × List Char)
  | [] => some ([], [])
  | c :: rest =>
    if isBlank c || isBreak c then some ([], c :: rest)
    else if c == ':' && endsWord rest then some ([], c :: rest)
    else if c == ':' && flow && rest.head?.any (fun d => isFlowIndicator d || d == '?') then none
    else if flow && isFlowIndicator c then some ([], c :: rest)
    else (plainWord flow rest).map fun (word, rest) => (c :: word, rest)

/-- The words of a plain scalar, each after the spacing before it. Outside flow collections the
scalar ends where a line is indented less than `least`. The result also tells whether the scalar is
followed by a line break. -/
def plainFrom (flow : Bool) (least : Int) : Nat → Spacing → Reader (List Char × Bool)
  | 0, _ => failure
  | fuel + 1, spacing => do
    let cursor ← get
    let broken := !spacing.breaks.isEmpty
    let isOutside := !flow && broken && (cursor.column : Int) < least
    if cursor.atMarker || cursor.rest.head? == some '#' || isOutside then return ([], broken)
    let (word, _) ← (plainWord flow cursor.rest : Option _)
    if word.isEmpty then return ([], broken)
    skip word.length
    let (text, broken) ← plainFrom flow least fuel (← readSpacing least)
    return (spacing.folded ++ word ++ text, broken)

/-- A plain scalar in a block of the given indentation. -/
def plain (flow : Bool) (indent : Int) : Reader (String × Bool) := do
  let (text, broken) ← plainFrom flow (indent + 1) ((← get).rest.length + 2) {}
  return (String.ofList text, broken)

def escape? : Char → Option Char
  | '0' => some '\x00'
  | 'a' => some '\x07'
  | 'b' => some '\x08'
  | 't' => some '\t'
  | '\t' => some '\t'
  | 'n' => some '\n'
  | 'v' => some '\x0b'
  | 'f' => some '\x0c'
  | 'r' => some '\r'
  | 'e' => some '\x1b'
  | ' ' => some ' '
  | '"' => some '"'
  | '/' => some '/'
  | '\\' => some '\\'
  | 'N' => some '\u0085'
  | '_' => some '\u00a0'
  | 'L' => some '\u2028'
  | 'P' => some '\u2029'
  | _ => none

/-- How many hexadecimal digits follow the mark of a long escape. -/
def escapeLength? : Char → Option Nat
  | 'x' => some 2
  | 'u' => some 4
  | 'U' => some 8
  | _ => none

/-- The character of a code point, which must be one. -/
def character? (code : Nat) : Option Char :=
  if code.isValidChar then some (Char.ofNat code) else none

/-- An escape after its backslash, other than an escaped line break. -/
def escape : Reader Char := do
  let cursor ← get
  match cursor.rest with
  | [] => failure
  | mark :: rest =>
    match escape? mark with
    | some c =>
      skip 1
      return c
    | none =>
      let count ← (escapeLength? mark : Option Nat)
      let digits := rest.take count
      if digits.length < count then failure
      let code ← (natural? 16 digits : Option Nat)
      skip (count + 1)
      (character? code : Option Char)

/-- The text between double quotes, after the opening one. An escaped line break disappears with
the blanks after it. -/
def doubleQuoted : Nat → Reader (List Char)
  | 0 => failure
  | fuel + 1 => do
    let cursor ← get
    if cursor.atMarker then failure
    match cursor.rest with
    | [] => failure
    | '"' :: _ =>
      skip 1
      return []
    | '\\' :: c :: _ =>
      skip 1
      if isBreak c then
        skipBreak
        let spacing ← readSpacing 0
        return spacing.breaks ++ (← doubleQuoted fuel)
      else
        let c ← escape
        return c :: (← doubleQuoted fuel)
    | c :: _ =>
      if isBlank c || isBreak c then
        let spacing ← readSpacing 0
        return spacing.folded ++ (← doubleQuoted fuel)
      else
        skip 1
        return c :: (← doubleQuoted fuel)

def singleQuoted : Nat → Reader (List Char)
  | 0 => failure
  | fuel + 1 => do
    let cursor ← get
    if cursor.atMarker then failure
    match cursor.rest with
    | [] => failure
    | '\'' :: '\'' :: _ =>
      skip 2
      return '\'' :: (← singleQuoted fuel)
    | '\'' :: _ =>
      skip 1
      return []
    | c :: _ =>
      if isBlank c || isBreak c then
        let spacing ← readSpacing 0
        return spacing.folded ++ (← singleQuoted fuel)
      else
        skip 1
        return c :: (← singleQuoted fuel)

def quoted : Reader String := do
  let cursor ← get
  let fuel := cursor.rest.length + 1
  skip 1
  let text ← if cursor.rest.head? == some '"' then doubleQuoted fuel else singleQuoted fuel
  return String.ofList text

/-- What becomes of the line breaks at the end of a block scalar. -/
inductive Chomping where
  | strip
  | clip
  | keep
  deriving DecidableEq, Repr

def chomping? : Char → Option Chomping
  | '-' => some .strip
  | '+' => some .keep
  | _ => none

def indentDigit? (c : Char) : Option Nat := (digit? 10 c).filter (· > 0)

/-- Passes a character that has a meaning, if one comes next. -/
def mark {α : Type} (meaning : Char → Option α) : Reader (Option α) := do
  match (← get).rest.head? >>= meaning with
  | some value =>
    skip 1
    return some value
  | none => return none

/-- The header of a block scalar after its first character: how it is chomped and how far its lines
are indented beyond the block, in either order. -/
def blockHeader : Reader (Chomping × Option Nat) := do
  let first ← mark chomping?
  let indent ← mark indentDigit?
  let last ← if first.isSome || indent.isNone then pure none else mark chomping?
  finishLine
  return ((first <|> last).getD .clip, indent)

/-- Passes empty lines and the indentation of the next line. The result are the line breaks and the
farthest column reached. A tab in the indentation is malformed. -/
def passEmptyLines (indent : Option Nat) : List Char → Place → List Char → (farthest : Nat) →
    Option ((List Char × Nat) × Cursor)
  | [], place, breaks, farthest => some ((breaks, farthest), ⟨place, []⟩)
  | c :: rest, place, breaks, farthest =>
    let inside := indent.all (place.column < ·)
    if isBreak c then passEmptyLines indent rest place.nextLine (breaks ++ [c]) farthest
    else if c == ' ' && inside then
      passEmptyLines indent rest (place.after c) breaks (max farthest (place.column + 1))
    else if c == '\t' && inside then none
    else some ((breaks, farthest), ⟨place, c :: rest⟩)

def emptyLines (indent : Option Nat) : Reader (List Char × Nat) := fun cursor =>
  passEmptyLines indent cursor.rest cursor.toPlace [] cursor.column

/-- The text of a block scalar's lines. The line break after the previous line is given by
`leading`, the empty lines after it by `breaks`; a folded scalar joins two lines that do not begin
with a blank. -/
def blockLines (literal : Bool) (chomping : Chomping) (indent : Nat) :
    Nat → (leading : List Char) → (afterBlank : Bool) → (breaks : List Char) → Reader (List Char)
  | 0, _, _, _ => failure
  | fuel + 1, leading, afterBlank, breaks => do
    let cursor ← get
    if cursor.column != indent || cursor.rest.isEmpty then
      let last := if chomping == .strip then [] else leading
      return last ++ if chomping == .keep then breaks else []
    let blank := cursor.rest.head?.any isBlank
    let isFolded := !literal && leading == ['\n'] && !afterBlank && !blank
    let joint :=
      if !isFolded then leading ++ breaks else if breaks.isEmpty then [' '] else breaks
    let line ← takeWhile fun c => !isBreak c
    let leading := (← get).rest.take 1
    skipBreak
    let (breaks, _) ← emptyLines (some indent)
    return joint ++ line ++ (← blockLines literal chomping indent fuel leading blank breaks)

/-- A scalar written as a block, in a block of the given indentation. -/
def block (indent : Int) : Reader (String × ScalarForm) := do
  let literal := (← get).rest.head? == some '|'
  skip 1
  let (chomping, increment) ← blockHeader
  let given := increment.map fun more => indent.toNat + more
  let (breaks, farthest) ← emptyLines given
  let inner := given.getD (max farthest (max (indent + 1).toNat 1))
  let text ← blockLines literal chomping inner ((← get).rest.length + 2) [] false breaks
  return (String.ofList text, if literal then .literal else .folded)

end CircuitCloak.Yaml

/-! A place in a YAML text, and the gaps between what is written: blanks, line breaks, comments. -/

namespace CircuitCloak.Yaml

structure Place where
  line : Nat := 0
  column : Nat := 0
  /-- How many octets of its line come before it. -/
  offset : Nat := 0
  deriving DecidableEq, Repr

def Place.after (place : Place) (c : Char) : Place :=
  { place with column := place.column + 1, offset := place.offset + c.utf8Size }

def Place.nextLine (place : Place) : Place := { line := place.line + 1 }

/-- A place in a text, with the text from there on. -/
structure Cursor extends Place where
  rest : List Char

/-- A reader of the text from a place on; it fails on malformed text. -/
abbrev Reader := StateT Cursor Option

/-- Line breaks as one character; the two separators of Unicode stay what they are. -/
def joinBreaks : List Char → List Char
  | '\r' :: '\n' :: rest => '\n' :: joinBreaks rest
  | '\r' :: rest => '\n' :: joinBreaks rest
  | '\u0085' :: rest => '\n' :: joinBreaks rest
  | c :: rest => c :: joinBreaks rest
  | [] => []

/-- Control characters can not stand in a document. -/
def isAllowed (c : Char) : Bool :=
  c == '\t' || c == '\n' || c == '\r' || c == '\u0085' ||
    (0x20 ≤ c.toNat && c.toNat ≤ 0x7E) || (0xA0 ≤ c.toNat && c.toNat ≤ 0xFFFD) ||
    0x10000 ≤ c.toNat

/-- A mark that may stand at the start of a line, where it takes up the first column. -/
def orderMark : Char := '\uFEFF'

/-- The start of a text; `none` if a character is not allowed. -/
def Cursor.ofText? (text : String) : Option Cursor :=
  let characters := text.toList
  if characters.all isAllowed then some { rest := joinBreaks characters } else none

def isBlank (c : Char) : Bool := c == ' ' || c == '\t'

def isBreak (c : Char) : Bool := c == '\n' || c == '\u2028' || c == '\u2029'

/-- A blank, a line break or the end comes next. -/
def endsWord : List Char → Bool
  | [] => true
  | c :: _ => isBlank c || isBreak c

def isMarkerText : List Char → Bool
  | '-' :: '-' :: '-' :: rest => endsWord rest
  | '.' :: '.' :: '.' :: rest => endsWord rest
  | _ => false

def Cursor.atMarker (cursor : Cursor) : Bool := cursor.column == 0 && isMarkerText cursor.rest

def skip (count : Nat) : Reader Unit :=
  modify fun cursor =>
    ⟨(cursor.rest.take count).foldl Place.after cursor.toPlace, cursor.rest.drop count⟩

/-- Passes the characters of a line that have a property, and returns them. -/
def takeWhile (property : Char → Bool) : Reader (List Char) := do
  let run := (← get).rest.takeWhile property
  skip run.length
  return run

def skipBreak : Reader Unit :=
  modify fun cursor =>
    if cursor.rest.head?.any isBreak then ⟨cursor.nextLine, cursor.rest.tail⟩ else cursor

/-- Passes the blanks of a line and a comment, up to the line's end. -/
def finishLine : Reader Unit := do
  let _ ← takeWhile isBlank
  if (← get).rest.head? == some '#' then
    let _ ← takeWhile fun c => !isBreak c
  if (← get).rest.head?.any fun c => !isBreak c then failure
  skipBreak

/-- Passes blanks, comments and line breaks. Tabs are no blanks where `tabs` is false; a line break
makes them none in a block. The result tells whether a line break was passed. -/
def passGap (inBlock : Bool) : List Char → Place → (tabs comment broken : Bool) → Cursor × Bool
  | [], place, _, _, broken => (⟨place, []⟩, broken)
  | c :: rest, place, tabs, comment, broken =>
    if isBreak c then passGap inBlock rest place.nextLine (tabs && !inBlock) false true
    else if comment then passGap inBlock rest (place.after c) tabs true broken
    else if c == ' ' || (c == '\t' && tabs) || (c == orderMark && place.column == 0) then
      passGap inBlock rest (place.after c) tabs false broken
    else if c == '#' then passGap inBlock rest (place.after c) tabs true broken
    else (⟨place, c :: rest⟩, broken)

/-- Passes a gap, and tells whether it goes over the end of a line. -/
def skipGap (inBlock tabs : Bool) : Reader Bool := fun cursor =>
  let (after, broken) := passGap inBlock cursor.rest cursor.toPlace tabs false false
  some (broken, after)

/-- Blanks and line breaks inside a scalar. Blanks after a line break do not count. -/
structure Spacing where
  blanks : List Char := []
  breaks : List Char := []

/-- The text that spacing stands for: a single line break is a blank, the first of several is left
out. Separators are kept. -/
def Spacing.folded (spacing : Spacing) : List Char :=
  match spacing.breaks with
  | [] => spacing.blanks
  | ['\n'] => [' ']
  | '\n' :: further => further
  | breaks => breaks

/-- Collects spacing. Tabs left of the given column are malformed. -/
def passSpacing (least : Int) : List Char → Place → Spacing → Option (Spacing × Cursor)
  | [], place, spacing => some (spacing, ⟨place, []⟩)
  | c :: rest, place, spacing =>
    if isBreak c then
      passSpacing least rest place.nextLine { spacing with breaks := spacing.breaks ++ [c] }
    else if !isBlank c then some (spacing, ⟨place, c :: rest⟩)
    else if spacing.breaks.isEmpty then
      passSpacing least rest (place.after c) { spacing with blanks := spacing.blanks ++ [c] }
    else if c == '\t' && place.column < least then none
    else passSpacing least rest (place.after c) spacing

def readSpacing (least : Int) : Reader Spacing := fun cursor =>
  passSpacing least cursor.rest cursor.toPlace {}

end CircuitCloak.Yaml

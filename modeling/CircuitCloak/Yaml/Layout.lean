import CircuitCloak.Yaml.Property

/-! The tokens of a text. Where a key may begin is noted; a colon on the same line makes it one. A
key or an entry farther in than the enclosing block begins a block collection, and a line that is
indented less ends it. -/

namespace CircuitCloak.Yaml

structure KeyPlace where
  /-- How many tokens come before it. -/
  position : Nat
  place : Place
  /-- Nothing but a key can stand there. -/
  isRequired : Bool
  deriving DecidableEq, Repr

/-- How many octets a colon may come after the begin of its key. -/
def longestKey : Nat := 1024

/-- A colon comes too late to make the place a key. -/
def KeyPlace.isPassed (key : KeyPlace) (now : Place) : Bool :=
  key.place.line < now.line || key.place.offset + longestKey < now.offset

/-- The tokens up to a place, and what decides about the next ones. -/
structure Layout where
  cursor : Cursor
  tokens : Array Token := #[]
  /-- The columns of the open block collections, the innermost first. -/
  columns : List Nat := []
  /-- Where a key may have begun inside the innermost brackets. -/
  key : Option KeyPlace := none
  /-- Where one may have begun outside them, for each pair of brackets. -/
  outerKeys : List (Option KeyPlace) := []
  /-- A key may begin here. -/
  allowsKey : Bool := true

namespace Layout

def inFlow (layout : Layout) : Bool := !layout.outerKeys.isEmpty

def indent (layout : Layout) : Int :=
  match layout.columns with
  | [] => -1
  | column :: _ => column

/-- A step over a part of the text; it fails on malformed text. -/
abbrev Step := StateT Layout Option

def advance {α : Type} (reader : Reader α) : Step α := fun layout =>
  (reader layout.cursor).map fun (value, cursor) => (value, { layout with cursor })

def emit (token : Token) : Step Unit :=
  modify fun layout => { layout with tokens := layout.tokens.push token }

def setAllowsKey (allowsKey : Bool) : Step Unit := modify ({ · with allowsKey })

def mark (token : Token) (length : Nat) : Step Unit := do
  advance (skip length)
  emit token

/-- What has begun inside the innermost brackets is no key. -/
def dropKey : Step Unit := do
  if (← get).key.any (·.isRequired) then failure
  modify ({ · with key := none })

/-- What has begun on an earlier line, or too far back, is no key. A place outside the innermost
brackets is looked at when they are closed. -/
def dropPassedKey : Step Unit := do
  let layout ← get
  if layout.key.any (·.isPassed layout.cursor.toPlace) then dropKey

def noteKey : Step Unit := do
  let layout ← get
  if layout.allowsKey then
    dropKey
    let place := layout.cursor.toPlace
    let key : KeyPlace :=
      ⟨layout.tokens.size, place, !layout.inFlow && layout.indent == place.column⟩
    modify ({ · with key := some key })

/-- Begins a block collection if a column is farther in than the enclosing one. -/
def openBlock (column position : Nat) (token : Token) : Step Unit := do
  let layout ← get
  if !layout.inFlow && layout.indent < column then
    set { layout with
      columns := column :: layout.columns
      tokens := layout.tokens.insertIdxIfInBounds position token }

/-- Begins a block collection in this column, where a key may begin. -/
def openBlockHere (token : Token) : Step Unit := do
  let layout ← get
  if !layout.inFlow then
    if !layout.allowsKey then failure
    openBlock layout.cursor.column layout.tokens.size token

/-- Ends the block collections that are farther in than a column. -/
def closeBlocks (column : Int) : Step Unit := modify fun layout =>
  if layout.inFlow then layout
  else
    let (closed, columns) := layout.columns.span fun (inner : Nat) => column < inner
    { layout with columns, tokens := layout.tokens ++ closed.map fun _ => Token.blockEnd }

def openBracket (token : Token) : Step Unit := do
  noteKey
  modify fun layout =>
    { layout with key := none, outerKeys := layout.key :: layout.outerKeys, allowsKey := true }
  mark token 1

def closeBracket (token : Token) : Step Unit := do
  dropKey
  modify fun layout =>
    { layout with
      key := layout.outerKeys.head?.join
      outerKeys := layout.outerKeys.tail
      allowsKey := false }
  mark token 1

def flowEntry : Step Unit := do
  dropKey
  setAllowsKey true
  mark .flowEntry 1

def blockEntry : Step Unit := do
  openBlockHere .blockSequenceStart
  dropKey
  setAllowsKey true
  mark .blockEntry 1

def explicitKey : Step Unit := do
  openBlockHere .blockMappingStart
  dropKey
  setAllowsKey (!(← get).inFlow)
  mark .key 1

/-- A colon before a value: what has begun on the line is its key. -/
def value : Step Unit := do
  let layout ← get
  match layout.key with
  | some key =>
    set { layout with
      key := none
      tokens := layout.tokens.insertIdxIfInBounds key.position .key
      allowsKey := false }
    openBlock key.place.column key.position .blockMappingStart
  | none =>
    openBlockHere .blockMappingStart
    setAllowsKey (!layout.inFlow)
  mark .value 1

/-- A part of a value with which a key may begin. -/
def part (reader : Reader Token) : Step Unit := do
  noteKey
  setAllowsKey false
  emit (← advance reader)

/-- A plain scalar. After a line break a key may begin again. -/
def plainScalar : Step Unit := do
  let layout ← get
  noteKey
  let (text, broken) ← advance (plain layout.inFlow layout.indent)
  setAllowsKey broken
  emit (.scalar text .plain)

def blockScalar : Step Unit := do
  dropKey
  setAllowsKey true
  let (text, form) ← advance (block (← get).indent)
  emit (.scalar text form)

/-- A line of its own, outside all collections. -/
def outside (reader : Reader Token) : Step Unit := do
  closeBlocks (-1)
  dropKey
  setAllowsKey false
  emit (← advance reader)

def marker : Reader Token := do
  let token := if (← get).rest.head? == some '-' then Token.documentStart else .documentEnd
  skip 3
  return token

/-- The part of the text that begins with a character. -/
def content (c : Char) (rest : List Char) : Step Unit := do
  let flow := (← get).inFlow
  let isApart := endsWord rest
  match c with
  | '[' => openBracket .flowSequenceStart
  | '{' => openBracket .flowMappingStart
  | ']' => closeBracket .flowSequenceEnd
  | '}' => closeBracket .flowMappingEnd
  | ',' => flowEntry
  | '*' => part (.alias <$> valueName)
  | '&' => part (.anchor <$> valueName)
  | '!' => part (.tag <$> tag flow)
  | '\'' | '"' => part ((.scalar · .quoted) <$> quoted)
  | _ =>
    if c == '-' && isApart then blockEntry
    else if c == '?' && (flow || isApart) then explicitKey
    else if c == ':' && (flow || isApart) then value
    else if (c == '|' || c == '>') && !flow then blockScalar
    else if startsPlain flow (c :: rest) then plainScalar
    else failure

/-- Passes a gap in the text. In a block, a key may begin on a new line. -/
def gap : Step Unit := do
  let layout ← get
  let broken ← advance (skipGap (!layout.inFlow) (layout.inFlow || !layout.allowsKey))
  if broken && !layout.inFlow then setAllowsKey true

/-- The tokens of the text from here on, which is no longer than `fuel`. -/
def run : Nat → Step Unit
  | 0 => failure
  | fuel + 1 => do
    gap
    dropPassedKey
    let cursor := (← get).cursor
    closeBlocks cursor.column
    match cursor.rest with
    | [] =>
      closeBlocks (-1)
      dropKey
    | c :: rest =>
      if c == '%' && cursor.column == 0 then outside directive
      else if cursor.atMarker then outside marker
      else content c rest
      run fuel

end Layout

def tokens? (text : String) : Option (List Token) := do
  let cursor ← Cursor.ofText? text
  let (_, layout) ← (Layout.run (cursor.rest.length + 1)).run { cursor }
  return layout.tokens.toList

end CircuitCloak.Yaml

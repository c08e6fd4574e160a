import CircuitCloak.Yaml.Layout
import CircuitCloak.Yaml.Written

/-! The value of a text that holds one document. The tokens are composed to a written value, in
which names have become numbers; the value itself is found by following the aliases in it. -/

namespace CircuitCloak.Yaml

/-- The tokens that are left, and what is known from those before them. -/
structure Composition where
  tokens : List Token
  /-- What the handles of tags stand for. -/
  handles : List (String × List UInt8) := []
  /-- The names of values so far, each with the number of the value that had it last. -/
  names : List (String × Nat) := []

namespace Composition

/-- A step over tokens; it fails where they make no value. -/
abbrev Step := StateT Composition Option

def next? : Step (Option Token) := return (← get).tokens.head?

def skipToken : Step Unit := modify fun state => { state with tokens := state.tokens.tail }

def isBefore (tokens : List Token) : Step Bool := return (← next?).any tokens.contains

/-- Passes a token if it comes next, and tells whether it does. -/
def passes (token : Token) : Step Bool := do
  let found := (← next?) == some token
  if found then skipToken
  return found

def expect (token : Token) : Step Unit := do
  if !(← passes token) then failure

/-- The number of the value whose name an alias gives. -/
def aliasOf (name : String) : Step WrittenNode := do
  let number ← ((← get).names.lookup name : Option Nat)
  return .alias number

/-- The number of a value that gets a name: how many names there are before it. Where a name is used
again, the next new name therefore gets the same number. -/
def numberOf (name : String) : Step Nat := do
  let names := (← get).names
  let number := names.length
  modify ({ · with names := (name, number) :: names.filter (·.1 != name) })
  return number

def tagOf (written : WrittenTag) : Step Tag := do
  if written.handle.isEmpty then return ⟨written.suffix⟩
  let start ← ((← get).handles.lookup written.handle : Option (List UInt8))
  return ⟨start ++ written.suffix⟩

def anchor? : Step (Option String) := do
  match ← next? with
  | some (.anchor name) =>
    skipToken
    return some name
  | _ => return none

def tag? : Step (Option Tag) := do
  match ← next? with
  | some (.tag written) =>
    skipToken
    return some (← tagOf written)
  | _ => return none

/-- The name and the tag of a value, in either order. -/
def properties : Step (Option String × Option Tag) := do
  match ← anchor? with
  | some name => return (some name, ← tag?)
  | none =>
    let tag ← tag?
    if tag.isSome then return (← anchor?, tag) else return (none, none)

/-- A value of which only a name or a tag is written. -/
def emptyContent (number : Option Nat) (tag : Option Tag) : Step WrittenNode := do
  if number.isNone && tag.isNone then failure
  return .scalar number "" .plain tag

mutual

/-- A value. Block collections may come where `block` is true, and a sequence in the column of the
enclosing mapping where `level` is true. -/
def node (block level : Bool) : Nat → Step WrittenNode
  | 0 => failure
  | fuel + 1 => do
    match ← next? with
    | some (.alias name) =>
      skipToken
      aliasOf name
    | _ =>
      let (name, tag) ← properties
      content block level (← name.mapM numberOf) tag fuel

/-- A value after its name and tag, either of which makes it empty if nothing follows. -/
def content (block level : Bool) (number : Option Nat) (tag : Option Tag) :
    Nat → Step WrittenNode
  | 0 => failure
  | fuel + 1 => do
    match ← next? with
    | some (.scalar text form) =>
      skipToken
      return .scalar number text form tag
    | some .flowSequenceStart =>
      skipToken
      return .sequence number (← flowItems true fuel) tag
    | some .flowMappingStart =>
      skipToken
      return .mapping number (← flowEntries true fuel) tag
    | some .blockSequenceStart =>
      if !block then emptyContent number tag
      else
        skipToken
        let items ← blockItems [.blockEntry, .blockEnd] fuel
        expect .blockEnd
        return .sequence number items tag
    | some .blockMappingStart =>
      if !block then emptyContent number tag
      else
        skipToken
        return .mapping number (← blockEntries fuel) tag
    | some .blockEntry =>
      if !level then emptyContent number tag
      else
        return .sequence number (← blockItems [.blockEntry, .key, .value, .blockEnd] fuel) tag
    | _ => emptyContent number tag

/-- A value in a block, which is empty before some tokens. -/
def blockValue (level : Bool) (ends : List Token) : Nat → Step WrittenNode
  | 0 => failure
  | fuel + 1 => do
    if ← isBefore ends then return .empty else node true level fuel

/-- The items of a block sequence, which are empty before some tokens. -/
def blockItems (ends : List Token) : Nat → Step (List WrittenNode)
  | 0 => failure
  | fuel + 1 => do
    if ← passes .blockEntry then
      let item ← blockValue false ends fuel
      return item :: (← blockItems ends fuel)
    else return []

/-- The entries of a block mapping up to its end. -/
def blockEntries : Nat → Step (List (WrittenNode × WrittenNode))
  | 0 => failure
  | fuel + 1 => do
    if ← passes .key then
      let ends : List Token := [.key, .value, .blockEnd]
      let key ← blockValue true ends fuel
      let value ← if ← passes .value then blockValue true ends fuel else pure .empty
      return (key, value) :: (← blockEntries fuel)
    else
      expect .blockEnd
      return []

/-- A value inside brackets, which is empty before some tokens. -/
def flowValue (ends : List Token) : Nat → Step WrittenNode
  | 0 => failure
  | fuel + 1 => do
    if ← isBefore ends then return .empty else node false false fuel

/-- The items up to the closing bracket, after the first of which a comma comes. An item with a key
is a mapping of one entry. -/
def flowItems (isFirst : Bool) : Nat → Step (List WrittenNode)
  | 0 => failure
  | fuel + 1 => do
    if ← passes .flowSequenceEnd then return []
    if !isFirst then expect .flowEntry
    if ← passes .flowSequenceEnd then return []
    let item ← if ← passes .key then do
        let key ← pairKey fuel
        let ends : List Token := [.flowEntry, .flowSequenceEnd]
        let value ← if ← passes .value then flowValue ends fuel else pure .empty
        pure (WrittenNode.mapping none [(key, value)] none)
      else node false false fuel
    return item :: (← flowItems false fuel)

/-- The key of an item; a missing key takes the token in its stead. -/
def pairKey : Nat → Step WrittenNode
  | 0 => failure
  | fuel + 1 => do
    if ← isBefore [.value, .flowEntry, .flowSequenceEnd] then
      skipToken
      return .empty
    else node false false fuel

/-- The entries up to the closing brace, after the first of which a comma comes. -/
def flowEntries (isFirst : Bool) : Nat → Step (List (WrittenNode × WrittenNode))
  | 0 => failure
  | fuel + 1 => do
    if ← passes .flowMappingEnd then return []
    if !isFirst then expect .flowEntry
    if ← passes .flowMappingEnd then return []
    let ends : List Token := [.flowEntry, .flowMappingEnd]
    let entry ← if ← passes .key then do
        let key ← flowValue (.value :: ends) fuel
        let value ← if ← passes .value then flowValue ends fuel else pure .empty
        pure (key, value)
      else pure (← node false false fuel, .empty)
    return entry :: (← flowEntries false fuel)

end

/-- Passes the directives before a document. There is at most one version, which is known, and one
directive for every handle. -/
def directives (hasVersion : Bool) : Nat → Step Unit
  | 0 => failure
  | fuel + 1 => do
    match ← next? with
    | some (.versionDirective major minor) =>
      if hasVersion || major != 1 || (minor != 1 && minor != 2) then failure
      skipToken
      directives true fuel
    | some (.tagDirective handle start) =>
      if ((← get).handles.lookup handle).isSome then failure
      skipToken
      modify fun state => { state with handles := (handle, start) :: state.handles }
      directives hasVersion fuel
    | _ => return ()

/-- What the handles stand for where no directive says so. -/
def standardHandles : List (String × List UInt8) :=
  [("!", [Tag.localMark]), ("!!", octetsOf Tag.core.toList)]

/-- The value of the document that begins here; directives and its marker may be missing. -/
def document (fuel : Nat) : Step WrittenNode := do
  let tokens := (← get).tokens
  directives false fuel
  modify fun state => { state with handles := state.handles ++ standardHandles }
  if ← passes .documentStart then
    match ← next? with
    | none | some .documentStart | some .documentEnd | some (.versionDirective ..)
    | some (.tagDirective ..) => return .empty
    | _ => node true false fuel
  else if tokens.isEmpty then return .empty
  else if (← get).tokens.length < tokens.length then failure
  else node true false fuel

/-- The value of the only document, which nothing but end markers follow. -/
def onlyDocument (fuel : Nat) : Step WrittenNode := do
  let value ← document fuel
  if !(← get).tokens.all (· == .documentEnd) then failure
  return value

end Composition

/-- The value of a YAML text, if it is well formed. -/
def parse? (text : String) : Option Node := do
  let tokens ← tokens? text
  let (node, _) ← (Composition.onlyDocument (4 * tokens.length + 4)).run { tokens }
  node.value?

end CircuitCloak.Yaml

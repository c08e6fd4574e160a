import CircuitCloak.Yaml.Node

/-! Values as they are written. A named part has a number, and an alias only tells a number. What it
stands for is known at the end: of several parts with one number it is the last. How often aliases
are followed, and how deep collections are nested, has a limit. -/

namespace CircuitCloak.Yaml

inductive WrittenNode where
  | alias (number : Nat)
  | scalar (number : Option Nat) (text : String) (form : ScalarForm) (tag : Option Tag)
  | sequence (number : Option Nat) (items : List WrittenNode) (tag : Option Tag)
  | mapping (number : Option Nat) (entries : List (WrittenNode × WrittenNode)) (tag : Option Tag)
  deriving Repr, Inhabited

/-- What stands where nothing is written. -/
def WrittenNode.empty : WrittenNode := .scalar none "" .plain none

/-- Parts by their numbers, the last one first. -/
abbrev NumberedParts := List (Nat × WrittenNode)

def NumberedParts.add (parts : NumberedParts) (number : Option Nat) (node : WrittenNode) :
    NumberedParts :=
  match number with
  | some number => (number, node) :: parts
  | none => parts

mutual

/-- How many marks a value consists of: one for a scalar or an alias, two for a collection. -/
def WrittenNode.marks : WrittenNode → Nat
  | .alias _ => 1
  | .scalar _ _ _ _ => 1
  | .sequence _ items _ => 2 + marksOfItems items
  | .mapping _ entries _ => 2 + marksOfEntries entries

def marksOfItems : List WrittenNode → Nat
  | [] => 0
  | item :: rest => item.marks + marksOfItems rest

def marksOfEntries : List (WrittenNode × WrittenNode) → Nat
  | [] => 0
  | (key, value) :: rest => key.marks + value.marks + marksOfEntries rest

end

mutual

/-- Adds the numbered parts of a value in the order in which they begin. -/
def WrittenNode.addParts (parts : NumberedParts) : WrittenNode → NumberedParts
  | .alias _ => parts
  | .scalar number text form tag => parts.add number (.scalar number text form tag)
  | .sequence number items tag =>
    addPartsOfItems (parts.add number (.sequence number items tag)) items
  | .mapping number entries tag =>
    addPartsOfEntries (parts.add number (.mapping number entries tag)) entries

def addPartsOfItems (parts : NumberedParts) : List WrittenNode → NumberedParts
  | [] => parts
  | item :: rest => addPartsOfItems (item.addParts parts) rest

def addPartsOfEntries (parts : NumberedParts) : List (WrittenNode × WrittenNode) → NumberedParts
  | [] => parts
  | (key, value) :: rest => addPartsOfEntries (value.addParts (key.addParts parts)) rest

end

def deepest : Nat := 128

/-- How many aliases can be followed for each mark of a document. -/
def aliasesPerMark : Nat := 100

/-- A step that follows aliases, of which the state tells how many more can be followed. -/
abbrev Following := StateT Nat Option

/-- What a value or an alias stands for, up to aliases inside it. -/
def NumberedParts.follow (parts : NumberedParts) : WrittenNode → Following WrittenNode
  | .alias number => do
    let left ← get
    if left = 0 then failure
    set (left - 1)
    (parts.lookup number : Option WrittenNode)
  | node => return node

/-- The value in which all aliases are followed, and whose collections are nested no deeper than
`depth`. -/
def WrittenNode.value (parts : NumberedParts) : (depth : Nat) → WrittenNode → Following Node
  | _, .alias _ => failure
  | _, .scalar _ text form tag => return .scalar text form tag
  | 0, _ => failure
  | depth + 1, .sequence _ items tag => do
    let items ← items.mapM fun item => do value parts depth (← parts.follow item)
    return .sequence items tag
  | depth + 1, .mapping _ entries tag => do
    let entries ← entries.mapM fun (key, item) => do
      let key ← value parts depth (← parts.follow key)
      return (key, ← value parts depth (← parts.follow item))
    return .mapping entries tag

/-- The value that is written, if the limits are kept. -/
def WrittenNode.value? (node : WrittenNode) : Option Node :=
  (node.value (node.addParts []) deepest).run' (aliasesPerMark * node.marks)

end CircuitCloak.Yaml

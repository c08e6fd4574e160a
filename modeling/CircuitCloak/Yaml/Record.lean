import CircuitCloak.Yaml.Document
import CircuitCloak.Word

/-! Typed views of values: texts, numbers, lists, and records whose fields are given by name. -/

namespace CircuitCloak.Yaml

/-- The text of a scalar, whatever its form. -/
def Node.text? : Node → Option String
  | .scalar text _ _ => some text
  | _ => none

/-- The items of a list. Where nothing is written the list is empty. -/
def Node.items? : Node → Option (List Node)
  | .sequence items _ => some items
  | .scalar "" .plain _ => some []
  | _ => none

/-- The entries of a mapping. Where nothing is written there are none. -/
def Node.entries? : Node → Option (List (Node × Node))
  | .mapping entries _ => some entries
  | .scalar "" .plain _ => some []
  | _ => none

/-- The text of a number: a plain scalar, or a literal one with the tag of such numbers. -/
def Node.numeral? (tag : Tag) : Node → Option String
  | .scalar text .plain _ => some text
  | .scalar text .literal (some found) => if found == tag then some text else none
  | _ => none

/-- A natural number below a bound, written without a minus sign. -/
def Node.below? (bound : Nat) (node : Node) : Option Nat := do
  let text ← node.numeral? .integer
  if text.toList.head? == some '-' then none
  else (← integer? text).toNat?.filter (· < bound)

def Node.float? (node : Node) : Option Float := node.numeral? .float >>= Yaml.float?

/-- The name of a choice: a text, or a local tag on nothing. -/
def Node.choice? : Node → Option String
  | .scalar text form tag =>
    match localName? tag with
    | some name =>
      if form == .plain && (text.isEmpty || isNullWord text) then some name else none
    | none => some text
  | _ => none

/-- What a scalar is where its form and its tag decide. -/
def Node.scalarValue? : Node → Option ScalarValue
  | .scalar text form tag => ScalarValue.of? text form tag
  | _ => none

/-- A text that its form alone shows to be one. -/
def Node.textForm? : Node → Option String
  | .scalar text form tag => if ScalarValue.of? text form tag = some .text then some text else none
  | _ => none

/-- A natural number below a bound, where the form decides. -/
def Node.position? (bound : Nat) (node : Node) : Option Nat :=
  match node.scalarValue? with
  | some (.integer value) => value.toNat?.filter (· < bound)
  | _ => none

abbrev Fields := List (String × Node)

/-- Takes the entries as fields if every key is one of the names and none comes twice. -/
def fieldsFrom? (names : List String) : Fields → List (Node × Node) → Option Fields
  | fields, [] => some fields
  | fields, (key, value) :: rest => do
    let name ← key.text?
    if names.contains name && (fields.lookup name).isNone then
      fieldsFrom? names (fields ++ [(name, value)]) rest
    else none

/-- The fields of a record that has no others than the named ones. -/
def Node.fields? (names : List String) (node : Node) : Option Fields := do
  fieldsFrom? names [] (← node.entries?)

/-- What a key means in a record that may have further fields. -/
inductive Key where
  | field (name : String)
  | other
  deriving DecidableEq, Repr

/-- The meaning of a key: a name in text form, or the index of a field without a minus sign. -/
def Key.ofNode? (names : List String) (node : Node) : Option Key :=
  match node.textForm? with
  | some name => some (if names.contains name then .field name else .other)
  | none => do
    let index ← node.position? longWordCount
    if (← node.text?).toList.head? == some '-' then none
    else match names[index]? with
      | some name => some (.field name)
      | none => some .other

/-- Takes the named fields, none of which comes twice, among others. -/
def openFieldsFrom? (names : List String) : Fields → List (Node × Node) → Option Fields
  | fields, [] => some fields
  | fields, (key, value) :: rest => do
    match ← Key.ofNode? names key with
    | .other => openFieldsFrom? names fields rest
    | .field name =>
      if (fields.lookup name).isSome then none
      else openFieldsFrom? names (fields ++ [(name, value)]) rest

mutual

/-- What every part of a value is, its form and its tag decide. -/
def Node.isFormed : Node → Bool
  | .scalar text form tag => (ScalarValue.of? text form tag).isSome
  | .sequence items tag => (localName? tag).isNone && areFormed items
  | .mapping entries tag => (localName? tag).isNone && entriesAreFormed entries

def areFormed : List Node → Bool
  | [] => true
  | item :: rest => item.isFormed && areFormed rest

def entriesAreFormed : List (Node × Node) → Bool
  | [] => true
  | (key, value) :: rest => key.isFormed && value.isFormed && entriesAreFormed rest

end

/-- The named fields of a mapping that may have further ones. Whatever stands in any of them must
have a form that decides what it is. -/
def Node.openFields? (names : List String) (node : Node) : Option Fields :=
  match node with
  | .mapping entries _ => if node.isFormed then openFieldsFrom? names [] entries else none
  | _ => none

def Fields.required? {α : Type} (fields : Fields) (name : String) (read : Node → Option α) :
    Option α := do
  read (← fields.lookup name)

/-- A field that may be missing, and then has the given value. -/
def Fields.optional? {α : Type} (fields : Fields) (name : String) (standard : α)
    (read : Node → Option α) : Option α :=
  match fields.lookup name with
  | some node => read node
  | none => some standard

/-- The value is null: nothing is written, or a word for it. `none` if the tag of null stands at
another word. -/
def Node.isNull? : Node → Option Bool
  | .scalar text .plain tag =>
    match tag with
    | none => some (text.isEmpty || isNullWord text)
    | some tag =>
      if tag != .null then some false else if isNullWord text then some true else none
  | _ => some false

def Node.nullable? {α : Type} (read : Node → Option α) (node : Node) : Option (Option α) := do
  if ← node.isNull? then return none else return some (← read node)

def Node.list? {α : Type} (read : Node → Option α) (node : Node) : Option (List α) := do
  (← node.items?).mapM read

end CircuitCloak.Yaml

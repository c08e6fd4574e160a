import CircuitCloak.Library.Builtin
import CircuitCloak.Yaml.Record
import CircuitCloak.Word

/-! Tables as YAML documents. A document replaces any of the four tables and names gates by name:
`rules: [{target: x, alternatives: [[h, z, h]]}]`. -/

namespace CircuitCloak

/-- A gate of an alternative as it is written: by name alone, it acts on the leading operands. -/
inductive WrittenGate where
  | bare (name : String)
  | placed (name : String) (operands : List Nat)
  deriving Repr

inductive WrittenStep where
  | onQubit (name : String)
  | acrossPairs (name : String)
  deriving Repr

/-- Tables as they are written. A missing table is the built-in one. -/
structure LibraryDocument where
  rules : Option (List (String × List (List WrittenGate)))
  identities : Option (List (String × List WrittenStep))
  injections : Option (List String)
  camouflage : Option (List String)

open Yaml

/-- A list with no other form than a sequence. -/
def strictList? {α : Type} (read : Node → Option α) : Node → Option (List α)
  | .sequence items _ => items.mapM read
  | _ => none

def WrittenGate.ofNode? (node : Node) : Option WrittenGate :=
  match node.textForm? with
  | some name => some (.bare name)
  | none => do
    let fields ← node.openFields? ["gate", "on"]
    return .placed (← fields.required? "gate" Node.textForm?)
      (← fields.required? "on" (strictList? (Node.position? longWordCount)))

def WrittenStep.ofNode? (node : Node) : Option WrittenStep :=
  match node.textForm? with
  | some name => some (.onQubit name)
  | none => do
    let fields ← node.openFields? ["across_pairs"]
    return .acrossPairs (← fields.required? "across_pairs" Node.textForm?)

def ruleOfNode? (node : Node) : Option (String × List (List WrittenGate)) := do
  let fields ← node.fields? ["target", "alternatives"]
  return (← fields.required? "target" Node.text?,
    ← fields.required? "alternatives" (Node.list? (Node.list? WrittenGate.ofNode?)))

def identityOfNode? (node : Node) : Option (String × List WrittenStep) := do
  let fields ← node.fields? ["name", "steps"]
  return (← fields.required? "name" Node.text?,
    ← fields.required? "steps" (Node.list? WrittenStep.ofNode?))

def LibraryDocument.ofNode? (node : Node) : Option LibraryDocument := do
  let fields ← node.fields? ["rules", "identities", "injections", "camouflage"]
  return {
    rules := ← fields.optional? "rules" none (Node.nullable? (Node.list? ruleOfNode?))
    identities := ← fields.optional? "identities" none (Node.nullable? (Node.list? identityOfNode?))
    injections := ← fields.optional? "injections" none (Node.nullable? (Node.list? Node.text?))
    camouflage := ← fields.optional? "camouflage" none (Node.nullable? (Node.list? Node.text?)) }

def namedGate (name : String) : Except LibraryFault Elementary :=
  match Elementary.ofName? name with
  | some gate => .ok gate
  | none => .error (.unknownGate name)

def WrittenGate.resolve : WrittenGate → Except LibraryFault PlacedGate
  | bare name => do
    let gate ← namedGate name
    return ⟨gate, List.range gate.arity⟩
  | placed name operands => return ⟨← namedGate name, operands⟩

def WrittenStep.resolve : WrittenStep → Except LibraryFault IdentityStep
  | onQubit name => return .onQubit (← namedGate name)
  | acrossPairs name => return .acrossPairs (← namedGate name)

def resolveRule (rule : String × List (List WrittenGate)) :
    Except LibraryFault EquivalenceRule := do
  let target ← namedGate rule.1
  return ⟨target, ← rule.2.mapM (·.mapM WrittenGate.resolve)⟩

def resolveIdentity (sequence : String × List WrittenStep) :
    Except LibraryFault IdentitySequence := do
  return ⟨sequence.1, ← sequence.2.mapM WrittenStep.resolve⟩

/-- A table whose entries are resolved in turn, or the standard one. -/
def resolveTable {α β : Type} (resolve : α → Except LibraryFault β) (standard : List β) :
    Option (List α) → Except LibraryFault (List β)
  | some entries => entries.mapM resolve
  | none => .ok standard

def LibraryDocument.tables (document : LibraryDocument) : Except LibraryFault Library := do
  return {
    rules := ← resolveTable resolveRule Library.builtin.rules document.rules
    identities := ← resolveTable resolveIdentity Library.builtin.identities document.identities
    injections := ← resolveTable namedGate Library.builtin.injections document.injections
    camouflage := ← resolveTable namedGate Library.builtin.camouflage document.camouflage }

/-- The tables of a document, which are sound. -/
def LibraryDocument.resolve (document : LibraryDocument) : Except (Halt LibraryFault) Library := do
  let library ← refusing document.tables
  library.validate
  return library

inductive LibraryDocumentFault where
  /-- The text is not a document of this form. -/
  | malformed
  | tables (fault : LibraryFault)

def Library.ofYaml (text : String) : Except (Halt LibraryDocumentFault) Library :=
  match Yaml.parse? text >>= LibraryDocument.ofNode? with
  | none => .error (.refused .malformed)
  | some document => document.resolve.mapError (·.map .tables)

end CircuitCloak

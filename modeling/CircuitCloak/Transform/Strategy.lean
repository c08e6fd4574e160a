import CircuitCloak.Library.Basic
import CircuitCloak.Decimal.Layout
import CircuitCloak.Text.Blank

/-! The strategies by name, the options that they share, and why a transform is refused. -/

namespace CircuitCloak

inductive Strategy where
  | substitution
  | composite
  | padding
  | segmented
  deriving DecidableEq, Repr, Inhabited

inductive TransformError where
  | library (fault : LibraryFault)
  | unknownStrategy (name : String)
  | invalidProbability (value : Float)
  | measurementLost (expected found : Nat)
  | shapeChanged (expectedQubits expectedClbits foundQubits foundClbits : Nat)
  /-- A document that is malformed or does not have the fields it should. -/
  | malformedDocument
  | unreadableFile (path reason : String)
  | circuit (fault : CircuitError)
  deriving Repr

def TransformError.message : TransformError → String
  | library fault => fault.message
  | unknownStrategy name =>
    s!"Unknown strategy '{name}' (expected substitution, composite, padding or segmented)"
  | invalidProbability value => "Probability " ++ Decimal.plain.text value ++ " is outside [0, 1]"
  | measurementLost expected found =>
    s!"Measurements changed by rewrite: expected {expected}, found {found}"
  | shapeChanged expectedQubits expectedClbits foundQubits foundClbits =>
    s!"Register shape changed: {expectedQubits}q/{expectedClbits}c became " ++
      s!"{foundQubits}q/{foundClbits}c"
  | malformedDocument => "Configuration error"
  | unreadableFile path reason => s!"Cannot read {path}: {reason}"
  | circuit fault => "Invalid program: " ++ fault.message

namespace Strategy

def all : List Strategy := [substitution, composite, padding, segmented]

def name : Strategy → String
  | substitution => "substitution"
  | composite => "composite"
  | padding => "padding"
  | segmented => "segmented"

def alias? : Strategy → Option String
  | substitution => some "cloaked"
  | composite => none
  | padding => some "delayed"
  | segmented => some "inverse"

def description : Strategy → String
  | substitution => "replace gates with equivalent gate sequences"
  | composite => "wrap gates in misleadingly labelled composite units"
  | padding => "pad every qubit with shuffled identity sequences"
  | segmented => "inject gate/inverse pairs between program segments"

/-- The strategy of a name or second name, whatever its case and the blanks around it. -/
def ofName (text : String) : Except TransformError Strategy :=
  let wanted := Text.trim text
  let found := all.find? fun strategy =>
    Text.sameIgnoringCase wanted strategy.name || strategy.alias?.any (Text.sameIgnoringCase wanted)
  match found with
  | some strategy => .ok strategy
  | none => .error (.unknownStrategy text)

end Strategy

inductive DecoyMode where
  | empty
  /-- Two X gates on every qubit, substituted like the rest. -/
  | selfInversePairs
  deriving DecidableEq, Repr, Inhabited

structure TransformOptions where
  /-- How likely encapsulation is to wrap a gate. -/
  probability : Float := 0.5
  /-- The name of wrapped gates. -/
  label : String := "FourierTransform"
  decoys : DecoyMode := .empty

def TransformOptions.validate (options : TransformOptions) : Except TransformError Unit :=
  if 0 ≤ options.probability && options.probability ≤ 1 then .ok ()
  else .error (.invalidProbability options.probability)

end CircuitCloak

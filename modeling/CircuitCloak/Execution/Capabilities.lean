import CircuitCloak.Circuit.Basic
import CircuitCloak.Execution.Error

/-! What a backend accepts. Composite gates are looked into at any depth. -/

namespace CircuitCloak

mutual

/-- The first elementary gate, at any depth, that has a property. -/
def Gate.findKind? (property : Elementary → Bool) : Gate → Option Elementary
  | .elementary kind _ => if property kind then some kind else none
  | .composite ⟨_, _, body⟩ _ => Application.findKindIn? property body

def Application.findKindIn? (property : Elementary → Bool) : List Application → Option Elementary
  | [] => none
  | ⟨gate, _⟩ :: rest =>
    match gate.findKind? property with
    | some kind => some kind
    | none => Application.findKindIn? property rest

end

/-- The first elementary gate of a program that has a property. -/
def Circuit.findKind? (circuit : Circuit) (property : Elementary → Bool) : Option Elementary :=
  circuit.instructions.toList.findSome? fun
    | .gate call _ => call.gate.findKind? property
    | _ => none

/-- Gates by name, grouped by the number of their operands. -/
structure GateSet where
  oneQubit : List String
  twoQubit : List String
  threeQubit : List String
  deriving DecidableEq, Repr, Inhabited

def GateSet.universal : GateSet where
  oneQubit := ["id", "x", "y", "z", "h", "s", "sdg", "t", "tdg", "sx", "sxdg", "rx", "ry", "rz",
    "p", "u"]
  twoQubit := ["cx", "cy", "cz", "ch", "swap", "crz", "cp"]
  threeQubit := ["ccx", "cswap"]

def GateSet.contains (gates : GateSet) (name : String) : Bool :=
  (gates.oneQubit ++ gates.twoQubit ++ gates.threeQubit).contains name

structure Capabilities where
  name : String
  numQubits : Nat
  gateSet : GateSet
  maxShots : Nat
  isSimulator : Bool
  features : List String
  deriving DecidableEq, Repr, Inhabited

namespace Capabilities

def simulator (numQubits : Nat) : Capabilities where
  name := "simulator"
  numQubits
  gateSet := .universal
  maxShots := 1000000
  isSimulator := true
  features := ["statevector", "mid_circuit_measurement"]

def offers (capabilities : Capabilities) (feature : String) : Bool :=
  capabilities.features.contains feature

/-- Admits a number of shots of a program: shots, register size, then gates. -/
def check (capabilities : Capabilities) (circuit : Circuit) (shots : Nat) :
    Except ExecutionError Unit :=
  if shots = 0 then .error .noShots
  else if capabilities.maxShots < shots then
    .error (.tooManyShots shots capabilities.name capabilities.maxShots)
  else if capabilities.numQubits < circuit.numQubits then
    .error (.tooManyQubits circuit.numQubits capabilities.name capabilities.numQubits)
  else match circuit.findKind? fun kind => !capabilities.gateSet.contains kind.name with
    | some kind => .error (.unsupportedGate kind.name capabilities.name)
    | none => .ok ()

end Capabilities

end CircuitCloak

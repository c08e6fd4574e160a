import CircuitCloak.Circuit.Basic

/-! Building a circuit in place. A step changes the circuit as it goes, so that a step that is refused
leaves behind whatever it has changed. -/

namespace CircuitCloak

/-- A computation that changes a circuit in place and may fail on its way. -/
abbrev Build := ExceptT (Halt CircuitError) (StateM Circuit)

namespace Build

/-- The result of a computation, and the circuit as it leaves it. -/
def outcome {α : Type} (build : Build α) (circuit : Circuit) : Except (Halt CircuitError) α × Circuit :=
  StateT.run (ExceptT.run build) circuit

def push (instruction : Instruction) : Build Unit := do
  let circuit ← get
  refusing (instruction.validate circuit.numQubits circuit.numClbits)
  set { circuit with instructions := circuit.instructions.push instruction }

/-- Enlarges the quantum register; gives the new qubits. -/
def addQubits (size : Nat) : Build (List Nat) := do
  let circuit ← get
  let total ← (addSizes circuit.numQubits size : Except (Halt CircuitError) Nat)
  set { circuit with numQubits := total }
  return List.range' circuit.numQubits (total - circuit.numQubits)

/-- Enlarges the classical register; gives the new bits. -/
def addClbits (size : Nat) : Build (List Nat) := do
  let circuit ← get
  let total ← (addSizes circuit.numClbits size : Except (Halt CircuitError) Nat)
  set { circuit with numClbits := total }
  return List.range' circuit.numClbits (total - circuit.numClbits)

/-- Measures every qubit into the classical bit of its position. A classical register that is too
small grows before the measurement is offered. -/
def measureAll : Build Unit := do
  let circuit ← get
  if circuit.numClbits < circuit.numQubits then
    set { circuit with numClbits := circuit.numQubits }
  let positions := List.range circuit.numQubits
  push (← refusing (Instruction.measureInto positions positions))

def rename (name : String) : Build Unit := modify ({ · with name })

def perform : Circuit.Step → Build Unit
  | .push instruction => push instruction
  | .apply gate qubits => push (.apply gate qubits)
  | .measure qubit clbit => push (.measure [qubit] [clbit])
  | .measureAll => measureAll
  | .reset qubit => push (.reset [qubit] [])
  | .barrier qubits => push (.barrier qubits [])
  | .growQubits size => do let _ ← addQubits size
  | .growClbits size => do let _ ← addClbits size
  | .rename name => rename name

end Build

end CircuitCloak

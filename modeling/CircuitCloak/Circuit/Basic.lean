import CircuitCloak.Circuit.Instruction

/-! Circuits: two registers and a list of instructions. Instructions enter one by one and only if
they fit; a refused step leaves the circuit as it was. A register that would outgrow the words is a
panic. -/

namespace CircuitCloak

/-- A program over a quantum and a classical register. -/
structure Circuit where
  name : String
  numQubits : Nat
  numClbits : Nat
  instructions : Array Instruction
  deriving BEq, Inhabited

namespace Circuit

def empty (name : String) (numQubits numClbits : Nat) : Circuit := ⟨name, numQubits, numClbits, #[]⟩

/-- Appends an instruction that fits the registers. -/
def push (circuit : Circuit) (instruction : Instruction) : Except CircuitError Circuit := do
  instruction.validate circuit.numQubits circuit.numClbits
  return { circuit with instructions := circuit.instructions.push instruction }

def pushAll (circuit : Circuit) (instructions : List Instruction) : Except CircuitError Circuit :=
  instructions.foldlM push circuit

def ofInstructions (name : String) (numQubits numClbits : Nat) (instructions : List Instruction) :
    Except CircuitError Circuit :=
  (empty name numQubits numClbits).pushAll instructions

def growQubits {ε : Type} (circuit : Circuit) (size : Nat) : Except (Halt ε) Circuit := do
  return { circuit with numQubits := ← addSizes circuit.numQubits size }

def growClbits {ε : Type} (circuit : Circuit) (size : Nat) : Except (Halt ε) Circuit := do
  return { circuit with numClbits := ← addSizes circuit.numClbits size }

/-- Measures every qubit into the classical bit of its position, enlarging the classical register
where it is too small. -/
def measureAll (circuit : Circuit) : Except CircuitError Circuit := do
  let positions := List.range circuit.numQubits
  let wide := { circuit with numClbits := max circuit.numClbits circuit.numQubits }
  wide.push (← Instruction.measureInto positions positions)

def rename (circuit : Circuit) (name : String) : Circuit := { circuit with name }

inductive Step where
  | push (instruction : Instruction)
  | apply (gate : Gate) (qubits : List Nat)
  | measure (qubit clbit : Nat)
  | measureAll
  | reset (qubit : Nat)
  | barrier (qubits : List Nat)
  | growQubits (size : Nat)
  | growClbits (size : Nat)
  | rename (name : String)

def step (circuit : Circuit) : Step → Except (Halt CircuitError) Circuit
  | .push instruction => refusing (circuit.push instruction)
  | .apply gate qubits => refusing (circuit.push (.apply gate qubits))
  | .measure qubit clbit => refusing (circuit.push (.measure [qubit] [clbit]))
  | .measureAll => refusing circuit.measureAll
  | .reset qubit => refusing (circuit.push (.reset [qubit] []))
  | .barrier qubits => refusing (circuit.push (.barrier qubits []))
  | .growQubits size => circuit.growQubits size
  | .growClbits size => circuit.growClbits size
  | .rename name => .ok (circuit.rename name)

/-- The number of instructions; a composite counts as one. -/
def size (circuit : Circuit) : Nat := circuit.instructions.size

def numGates (circuit : Circuit) : Nat := circuit.instructions.countP (·.isGate)

def measurements (circuit : Circuit) : List Instruction :=
  circuit.instructions.toList.filter (·.isMeasure)

/-- The instructions other than measurements, in program order. -/
def body (circuit : Circuit) : List Instruction :=
  circuit.instructions.toList.filter (!·.isMeasure)

end Circuit

end CircuitCloak

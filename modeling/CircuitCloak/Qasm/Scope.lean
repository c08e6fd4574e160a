import CircuitCloak.Circuit.Basic
import CircuitCloak.Qasm.Builtin

/-! The meaning of statements: registers are laid one after the other into one quantum and one
classical register, gate definitions become composites where they are called, and calls on whole
registers are spread over their elements. -/

namespace CircuitCloak.Qasm

structure Extent where
  start : Nat
  size : Nat
  deriving DecidableEq, Repr

abbrev Registers := List (String × Extent)

def ensureArity (gate : Gate) (got : Nat) : Except ParseError Unit :=
  if got = gate.arity then .ok () else .error (.wrongQubitCount gate.name gate.arity got)

/-- Carries a fault of the circuit over to the text. -/
def ofCircuit {α : Type} : Except CircuitError α → Except ParseError α
  | .ok value => .ok value
  | .error fault => .error (.circuit fault)

def formalPosition (definition : GateDefinition) (operand : Operand) : Except ParseError Nat :=
  if operand.index.isSome then .error (.indexedFormal operand.register definition.name)
  else match definition.qubits.idxOf? operand.register with
    | some position => .ok position
    | none => .error (.undefinedName operand.register)

/-- The gate of a name at given angles. Definitions are listed last first, and a body can call only
gates that are defined before it. -/
def instantiate : List GateDefinition → String → List Angle → Except ParseError Gate
  | definitions, name, angles =>
    match builtin? name with
    | some builtin =>
      if angles.length = builtin.parameters then .ok (.ofKind (builtin.make angles))
      else .error (.wrongParameterCount name builtin.parameters angles.length)
    | none =>
      match definitions with
      | [] => .error (.unknownGate name)
      | definition :: earlier =>
        if definition.name ≠ name then instantiate earlier name angles
        else if angles.length ≠ definition.formals.length then
          .error (.wrongParameterCount name definition.formals.length angles.length)
        else do
          let bindings := definition.formals.zip angles
          let body ← definition.body.mapM fun call => do
            let gate ← instantiate earlier call.name (← call.arguments.mapM (·.angle bindings))
            ensureArity gate call.operands.length
            let locals ← call.operands.mapM (formalPosition definition)
            return Instruction.apply gate locals
          return .composite
            (← ofCircuit (Composite.ofInstructions name definition.qubits.length body)) none

/-- What has been read of a program so far. -/
structure Scope where
  qubits : Registers
  clbits : Registers
  /-- Gate definitions, last first. -/
  definitions : List GateDefinition
  circuit : Circuit

namespace Scope

def empty : Scope := ⟨[], [], [], .empty "circuit" 0 0⟩

def isDeclared (scope : Scope) (name : String) : Bool :=
  (scope.qubits.lookup name).isSome || (scope.clbits.lookup name).isSome

def isDefined (scope : Scope) (name : String) : Bool :=
  scope.definitions.any (·.name == name)

def declareQubits (scope : Scope) (name : String) (size : Nat) : Except (Halt ParseError) Scope :=
  if scope.isDeclared name then .error (.refused (.duplicateDeclaration name))
  else do
    return { scope with
      qubits := (name, ⟨scope.circuit.numQubits, size⟩) :: scope.qubits
      circuit := ← scope.circuit.growQubits size }

def declareClbits (scope : Scope) (name : String) (size : Nat) : Except (Halt ParseError) Scope :=
  if scope.isDeclared name then .error (.refused (.duplicateDeclaration name))
  else do
    return { scope with
      clbits := (name, ⟨scope.circuit.numClbits, size⟩) :: scope.clbits
      circuit := ← scope.circuit.growClbits size }

/-- Adds a gate definition. One of a name with a fixed meaning is ignored. -/
def define (scope : Scope) (definition : GateDefinition) : Except ParseError Scope :=
  if isBuiltin definition.name then .ok scope
  else if scope.isDefined definition.name then .error (.duplicateDeclaration definition.name)
  else
    match definition.body.find? fun call => !isBuiltin call.name && !scope.isDefined call.name with
    | some call => .error (.unknownGate call.name)
    | none => .ok { scope with definitions := definition :: scope.definitions }

def push (scope : Scope) (instruction : Instruction) : Except ParseError Scope := do
  return { scope with circuit := ← ofCircuit (scope.circuit.push instruction) }

end Scope

def Extent.positions (extent : Extent) : List Nat := List.range' extent.start extent.size

def Registers.resolve (registers : Registers) (operand : Operand) : Except ParseError (List Nat) :=
  match registers.lookup operand.register with
  | none => .error (.undefinedName operand.register)
  | some extent =>
    match operand.index with
    | none => .ok extent.positions
    | some index =>
      if index < extent.size then .ok [extent.start + index]
      else .error (.indexOutOfBounds operand.register index extent.size)

/-- The number of element-wise calls that a call stands for. -/
def broadcastWidth (operands : List (List Nat)) : Nat :=
  (operands.map List.length).max?.getD 1

/-- The operands of one element-wise call: a single qubit takes part in each. -/
def broadcastRow (operands : List (List Nat)) (row : Nat) : List Nat :=
  operands.map fun positions =>
    if positions.length = 1 then positions.getD 0 0 else positions.getD row 0

namespace Scope

/-- A gate call, spread over whole registers. -/
def call (scope : Scope) (call : GateCall) : Except ParseError Scope := do
  let angles ← call.arguments.mapM (·.angle [])
  let gate ← instantiate scope.definitions call.name angles
  ensureArity gate call.operands.length
  let operands ← call.operands.mapM (Registers.resolve scope.qubits)
  let width := broadcastWidth operands
  match operands.find? fun positions => positions.length ≠ 1 && positions.length ≠ width with
  | some positions => .error (.wrongQubitCount call.name width positions.length)
  | none =>
    (List.range width).foldlM
      (fun scope row => scope.push (.apply gate (broadcastRow operands row))) scope

def measure (scope : Scope) (qubits bits : Operand) : Except ParseError Scope := do
  let qubits ← Registers.resolve scope.qubits qubits
  let clbits ← Registers.resolve scope.clbits bits
  if qubits.length ≠ clbits.length then
    .error (.circuit (.clbitCountMismatch qubits.length clbits.length))
  else
    (qubits.zip clbits).foldlM
      (fun scope (qubit, clbit) => scope.push (.measure [qubit] [clbit])) scope

def reset (scope : Scope) (qubits : Operand) : Except ParseError Scope := do
  let qubits ← Registers.resolve scope.qubits qubits
  qubits.foldlM (fun scope qubit => scope.push (.reset [qubit] [])) scope

/-- A barrier on the operands, or on all qubits where none is named. -/
def barrier (scope : Scope) (operands : List Operand) : Except ParseError Scope := do
  if operands.isEmpty then scope.push (.barrier (List.range scope.circuit.numQubits) [])
  else
    let positions ← operands.mapM (Registers.resolve scope.qubits)
    scope.push (.barrier positions.flatten [])

def read (scope : Scope) : Statement → Except (Halt ParseError) Scope
  | .includeFile _ => .ok scope
  | .quantumRegister name size => scope.declareQubits name size
  | .classicalRegister name size => scope.declareClbits name size
  | .gate call => refusing (scope.call call)
  | .measure qubits bits => refusing (scope.measure qubits bits)
  | .reset qubits => refusing (scope.reset qubits)
  | .barrier operands => refusing (scope.barrier operands)
  | .define definition => refusing (scope.define definition)

end Scope

end CircuitCloak.Qasm

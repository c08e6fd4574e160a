import CircuitCloak.Gate.Composite
import CircuitCloak.Word

/-! Program instructions, and when one fits registers of given sizes. -/

namespace CircuitCloak

/-- One instruction of a program, on positions of its registers. Only a measurement writes its
classical bits, but every instruction can have some. -/
inductive Instruction where
  | gate (call : Application) (clbits : List Nat)
  | measure (qubits clbits : List Nat)
  | reset (qubits clbits : List Nat)
  | barrier (qubits clbits : List Nat)
  deriving BEq, Inhabited

inductive CircuitError where
  | qubitNotFound (qubit : Nat) (operation : String)
  | clbitNotFound (clbit : Nat) (operation : String)
  | qubitCountMismatch (gate : String) (expected got : Nat)
  | clbitCountMismatch (qubits clbits : Nat)
  | duplicateQubit (qubit : Nat) (operation : String)
  /-- A composite holds gates only. -/
  | notAGate (composite operation : String)
  deriving Repr, DecidableEq

def CircuitError.message : CircuitError → String
  | .qubitNotFound qubit operation => s!"Qubit q{qubit} not found in circuit (gate: {operation})"
  | .clbitNotFound clbit operation =>
    s!"Classical bit c{clbit} not found in circuit (gate: {operation})"
  | .qubitCountMismatch gate expected got =>
    s!"Gate '{gate}' requires {expected} qubits, got {got}"
  | .clbitCountMismatch qubits clbits =>
    s!"Measurement has {qubits} qubits but {clbits} classical targets"
  | .duplicateQubit qubit operation =>
    s!"Duplicate qubit q{qubit} in operation (gate: {operation})"
  | .notAGate composite operation =>
    s!"Invalid composite '{composite}': '{operation}' is not a gate"

namespace Instruction

def apply (gate : Gate) (qubits : List Nat) : Instruction := .gate ⟨gate, qubits⟩ []

def elementary (kind : Elementary) (qubits : List Nat) : Instruction := apply (.ofKind kind) qubits

/-- A measurement of qubits into classical bits, position by position. -/
def measureInto (qubits clbits : List Nat) : Except CircuitError Instruction :=
  if qubits.length = clbits.length then .ok (.measure qubits clbits)
  else .error (.clbitCountMismatch qubits.length clbits.length)

def name : Instruction → String
  | .gate call _ => call.gate.name
  | .measure _ _ => "measure"
  | .reset _ _ => "reset"
  | .barrier _ _ => "barrier"

def qubits : Instruction → List Nat
  | .gate call _ => call.qubits
  | .measure qubits _ => qubits
  | .reset qubits _ => qubits
  | .barrier qubits _ => qubits

def clbits : Instruction → List Nat
  | .gate _ clbits => clbits
  | .measure _ clbits => clbits
  | .reset _ clbits => clbits
  | .barrier _ clbits => clbits

def isGate : Instruction → Bool
  | .gate _ _ => true
  | _ => false

def isMeasure : Instruction → Bool
  | .measure _ _ => true
  | _ => false

def isBarrier : Instruction → Bool
  | .barrier _ _ => true
  | _ => false

def call? : Instruction → Option Application
  | .gate call _ => some call
  | _ => none

/-- The elementary gate that the instruction applies by itself. -/
def kind? (instruction : Instruction) : Option Elementary := do (← instruction.call?).gate.kind?

end Instruction

/-- Each qubit lies in the register and differs from those before it. -/
def checkQubits (limit : Nat) (operation : String) :
    List Nat → List Nat → Except CircuitError Unit
  | _, [] => .ok ()
  | seen, qubit :: rest =>
    if limit ≤ qubit then .error (.qubitNotFound qubit operation)
    else if qubit ∈ seen then .error (.duplicateQubit qubit operation)
    else checkQubits limit operation (seen ++ [qubit]) rest

def checkClbits (limit : Nat) (operation : String) : List Nat → Except CircuitError Unit
  | [] => .ok ()
  | clbit :: rest =>
    if limit ≤ clbit then .error (.clbitNotFound clbit operation)
    else checkClbits limit operation rest

namespace Instruction

/-- A gate has as many operands as its arity. They are counted as a word. -/
def checkCount : Instruction → Except CircuitError Unit
  | .gate call _ =>
    if wordSize call.qubits.length = call.gate.arity then .ok ()
    else .error (.qubitCountMismatch call.gate.name call.gate.arity (wordSize call.qubits.length))
  | _ => .ok ()

/-- A measurement has a classical bit for each qubit. -/
def checkPairs : Instruction → Except CircuitError Unit
  | .measure qubits clbits =>
    if qubits.length = clbits.length then .ok ()
    else .error (.clbitCountMismatch qubits.length clbits.length)
  | _ => .ok ()

/-- The instruction fits registers of the given sizes. -/
def validate (instruction : Instruction) (numQubits numClbits : Nat) : Except CircuitError Unit := do
  instruction.checkCount
  checkQubits numQubits instruction.name [] instruction.qubits
  instruction.checkPairs
  checkClbits numClbits instruction.name instruction.clbits

end Instruction

/-- A composite from instructions that are all gates on qubits below its arity. It has no classical
bits, so none of them can have any. -/
def Composite.ofInstructions (name : String) (arity : Nat) (body : List Instruction) :
    Except CircuitError Composite := do
  let calls ← body.mapM fun instruction => match instruction with
    | .gate call clbits => do
      (Instruction.gate call clbits).validate arity 0
      return call
    | other => .error (.notAGate name other.name)
  return ⟨name, arity, calls⟩

/-- The distinct members of a list, in the order in which they first appear. -/
def firstAppearances (items : List Nat) : List Nat :=
  items.foldl (fun seen item => if item ∈ seen then seen else seen ++ [item]) []

namespace Instruction

def mapQubits (rename : Nat → Nat) : Instruction → Instruction
  | .gate call clbits => .gate ⟨call.gate, call.qubits.map rename⟩ clbits
  | .measure qubits clbits => .measure (qubits.map rename) clbits
  | .reset qubits clbits => .reset (qubits.map rename) clbits
  | .barrier qubits clbits => .barrier (qubits.map rename) clbits

end Instruction

/-- Wraps a run of gates into a composite over the run's qubits, which are returned in the order
in which they first appear. -/
def Composite.wrap (name : String) (run : List Instruction) :
    Except CircuitError (Composite × List Nat) := do
  let operands := firstAppearances (run.flatMap (·.qubits))
  let position (qubit : Nat) := (operands.idxOf? qubit).getD 0
  let composite ← ofInstructions name (wordSize operands.length) (run.map (·.mapQubits position))
  return (composite, operands)

end CircuitCloak

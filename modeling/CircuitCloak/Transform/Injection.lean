import CircuitCloak.Transform.Boundary

/-! Injection: the body is cut into segments, and between them gates are injected together with
their inverses. -/

namespace CircuitCloak.Injection
open CircuitCloak.Random

variable {σ : Type} [WordSource σ]

def segmentSize (bodyLength : Nat) : Nat := max (bodyLength / 3) 1

/-- How many passes are made over a body: one before each segment but the first, and one after each
complete segment. -/
def passCount (bodyLength : Nat) : Nat :=
  if bodyLength = 0 then 0
  else (bodyLength - 1) / segmentSize bodyLength + bodyLength / segmentSize bodyLength

/-- Distinct qubits for a gate: the given one for a one-qubit gate, random ones for a larger gate
that fits the register. -/
def drawOperands (frame : Frame) (qubit : Nat) (gate : Elementary) :
    Draw σ (Option (List Nat)) := do
  if gate.arity = 1 then return some [qubit]
  else if gate.arity ≤ frame.numQubits then return some (← sampleIndices frame.numQubits gate.arity)
  else return none

/-- A gate followed by its inverse, or nothing where the register is too small. -/
def injectPair (frame : Frame) (qubit : Nat) (gate : Elementary) : Draw σ (List Instruction) := do
  match gate.inverse? with
  | none => return []
  | some inverse =>
    match ← (drawOperands frame qubit gate : Draw σ _) with
    | none => return []
    | some operands => return [.elementary gate operands, .elementary inverse operands]

def injectQubit (library : Library) (frame : Frame) (qubit : Nat) : Draw σ (List Instruction) := do
  let order ← (shuffle library.injections.toArray : Draw σ _)
  return (← order.toList.mapM (injectPair frame qubit)).flatten

def pass (library : Library) (frame : Frame) : Draw σ (List Instruction) := do
  return (← frame.qubits.mapM (injectQubit library frame)).flatten

/-- A pass before the instruction at the given index, if a segment after the first begins there. -/
def opens (length index : Nat) : Bool := index % length == 0 && index != 0

/-- A pass after the instruction at the given index, if a segment ends there. -/
def closes (length index : Nat) : Bool := index % length == length - 1

/-- An instruction with the passes at its segment boundaries. -/
def surround (library : Library) (frame : Frame) (length : Nat) (entry : Instruction × Nat) :
    Draw σ (List Instruction) := do
  let before ← if opens length entry.2 then pass library frame else pure []
  let after ← if closes length entry.2 then pass library frame else pure []
  return before ++ entry.1 :: after

def transform (library : Library) (body : List Instruction) (frame : Frame) :
    Draw σ (List Instruction) := do
  return (← body.zipIdx.mapM (surround library frame (segmentSize body.length))).flatten

def apply (circuit : Circuit) (library : Library) : Transform σ Circuit :=
  Circuit.mapBody circuit fun body frame => (transform library body frame : Draw σ _)

end CircuitCloak.Injection

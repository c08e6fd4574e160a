import CircuitCloak.Transform.Boundary

/-! Padding: before and after the body every qubit gets all sequences that do nothing, in random
order. -/

namespace CircuitCloak.Padding
open CircuitCloak.Random

variable {σ : Type} [WordSource σ]

/-- The pairs `(0, 1)`, `(2, 3)`, and so on; the last qubit of an odd register has no partner. -/
def pairs (frame : Frame) : List (List Nat) :=
  (List.range (frame.numQubits / 2)).map fun k => [2 * k, 2 * k + 1]

def emitStep (frame : Frame) (qubit : Nat) : IdentityStep → List Instruction
  | .onQubit gate => [.elementary gate [qubit]]
  | .acrossPairs gate => (pairs frame).map fun pair => .elementary gate pair

def emit (frame : Frame) (qubit : Nat) (sequence : IdentitySequence) : List Instruction :=
  sequence.steps.flatMap (emitStep frame qubit)

def padQubit (library : Library) (frame : Frame) (qubit : Nat) : Draw σ (List Instruction) := do
  let order ← (shuffle library.identities.toArray : Draw σ _)
  return order.toList.flatMap (emit frame qubit)

def padAll (library : Library) (frame : Frame) : Draw σ (List Instruction) := do
  return (← frame.qubits.mapM (padQubit library frame)).flatten

def transform (library : Library) (body : List Instruction) (frame : Frame) :
    Draw σ (List Instruction) := do
  let leading ← padAll library frame
  let trailing ← padAll library frame
  return leading ++ body ++ trailing

def apply (circuit : Circuit) (library : Library) : Transform σ Circuit :=
  Circuit.mapBody circuit fun body frame => (transform library body frame : Draw σ _)

end CircuitCloak.Padding

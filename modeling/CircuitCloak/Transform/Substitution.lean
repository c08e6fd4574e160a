import CircuitCloak.Transform.Boundary

/-! Substitution: each discrete gate that has a rule gives way to one of its alternatives. -/

namespace CircuitCloak.Substitution
open CircuitCloak.Random

variable {σ : Type} [WordSource σ]

/-- An alternative on the operands of the gate that it replaces. -/
def place (alternative : List PlacedGate) (operands : List Nat) : List Instruction :=
  alternative.map fun step => .elementary step.gate (mapOperands operands step.operands)

/-- What an instruction gives way to. -/
def replace (library : Library) (instruction : Instruction) : Draw σ (List Instruction) := do
  match (instruction.kind?.filter (·.isDiscrete)).bind library.rule? with
  | none => return [instruction]
  | some rule =>
    match ← (choose rule.alternatives.toArray : Draw σ _) with
    | none => return [instruction]
    | some alternative => return place alternative instruction.qubits

def replaceAll (library : Library) (instructions : List Instruction) :
    Draw σ (List Instruction) := do
  return (← instructions.mapM (replace library)).flatten

/-- The gates from which a decoy block is made. -/
def decoyPattern (mode : DecoyMode) (frame : Frame) : List Instruction :=
  match mode with
  | .empty => []
  | .selfInversePairs =>
    frame.qubits.flatMap fun qubit => [.elementary .x [qubit], .elementary .x [qubit]]

/-- The body with its gates replaced, between two decoy blocks. -/
def transform (library : Library) (decoys : DecoyMode) (body : List Instruction) (frame : Frame) :
    Draw σ (List Instruction) := do
  let seed := decoyPattern decoys frame
  let leading ← replaceAll library seed
  let replaced ← replaceAll library body
  let trailing ← replaceAll library seed
  return leading ++ replaced ++ trailing

def apply (circuit : Circuit) (library : Library) (decoys : DecoyMode) : Transform σ Circuit :=
  Circuit.mapBody circuit fun body frame => (transform library decoys body frame : Draw σ _)

end CircuitCloak.Substitution

import CircuitCloak.Transform.Boundary

/-! Encapsulation: gates are wrapped into composites of a misleading name, between a camouflage
block on every qubit and its inverse. -/

namespace CircuitCloak.Encapsulation
open CircuitCloak.Random

variable {σ : Type} [WordSource σ]

/-- The name of the composites that open a program. -/
def auxiliaryName : String := "auxiliary"

/-- The name of the composites that undo them. -/
def restoreName : String := "restore"

/-- Gates with angles are never wrapped. -/
def canWrap (instruction : Instruction) : Bool :=
  instruction.isGate && instruction.kind?.all (·.isDiscrete)

def wrap (name : String) (run : List Instruction) : Except TransformError Instruction := do
  let (composite, operands) ← transformResult (Composite.wrap name run)
  return .apply (.composite composite none) operands

/-- The same gates on every qubit, wrapped qubit by qubit. -/
def blocks (name : String) (gates : List Elementary) (frame : Frame) :
    Except TransformError (List Instruction) :=
  frame.qubits.mapM fun qubit => wrap name (gates.map fun gate => .elementary gate [qubit])

/-- An instruction, wrapped if it can be and the coin shows heads. -/
def perhapsWrap (options : TransformOptions) (instruction : Instruction) :
    Transform σ Instruction := do
  if canWrap instruction then
    if ← (coin options.probability : Draw σ Bool) then wrap options.label [instruction]
    else return instruction
  else return instruction

/-- The body with some gates wrapped, between the blocks. An empty body stays empty. -/
def transform (library : Library) (options : TransformOptions) (body : List Instruction)
    (frame : Frame) : Transform σ (List Instruction) := do
  if body.isEmpty then return []
  else
    let leading ← blocks auxiliaryName library.camouflage frame
    let wrapped ← body.mapM (perhapsWrap options)
    let trailing ← blocks restoreName library.restore frame
    return leading ++ wrapped ++ trailing

def apply (circuit : Circuit) (library : Library) (options : TransformOptions) :
    Transform σ Circuit := do
  options.validate
  Circuit.mapBody circuit (transform library options)

end CircuitCloak.Encapsulation

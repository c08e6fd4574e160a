import CircuitCloak.Transform.Strategy
import CircuitCloak.Random.Draw

/-! The measurement boundary. A transform sees the instructions other than measurements; the
measurements follow what it returns, in their order. -/

namespace CircuitCloak

/-- The register sizes of the program that is transformed. -/
structure Frame where
  numQubits : Nat
  numClbits : Nat
  deriving DecidableEq, Repr

def Frame.qubits (frame : Frame) : List Nat := List.range frame.numQubits

def Circuit.frame (circuit : Circuit) : Frame := ⟨circuit.numQubits, circuit.numClbits⟩

/-- A computation that draws random words and may fail. -/
abbrev Transform (σ : Type) := ExceptT TransformError (Random.Draw σ)

/-- Carries a fault of a circuit over to the transform. -/
def transformResult {α : Type} : Except CircuitError α → Except TransformError α
  | .ok value => .ok value
  | .error fault => .error (.circuit fault)

def agreements (first second : List Instruction) : Nat :=
  (List.zipWith (· == ·) first second).count true

/-- The second circuit has the registers and the measurements of the first one. -/
def checkBoundary (before after : Circuit) : Except TransformError Unit :=
  if before.frame ≠ after.frame then
    .error (.shapeChanged before.numQubits before.numClbits after.numQubits after.numClbits)
  else
    let expected := before.measurements
    let found := after.measurements
    if expected == found then .ok ()
    else .error (.measurementLost expected.length
      (if expected.length = found.length then agreements expected found else found.length))

/-- A circuit with another body: the new instructions, then the measurements. -/
def Circuit.withBody (circuit : Circuit) (body : List Instruction) :
    Except TransformError Circuit := do
  let output ← transformResult (ofInstructions circuit.name circuit.numQubits circuit.numClbits
    (body ++ circuit.measurements))
  checkBoundary circuit output
  return output

def Circuit.mapBody {m : Type → Type} [Monad m] (circuit : Circuit)
    (transform : List Instruction → Frame → ExceptT TransformError m (List Instruction)) :
    ExceptT TransformError m Circuit := do
  let body ← transform circuit.body circuit.frame
  circuit.withBody body

end CircuitCloak

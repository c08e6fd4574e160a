import CircuitCloak.Circuit.Basic
import CircuitCloak.Random.Draw

/-! Sample circuits: a Bell pair, GHZ states, and random test programs. -/

namespace CircuitCloak.Circuit
open CircuitCloak.Random

/-- Two entangled qubits, measured. -/
def bell : Except CircuitError Circuit :=
  ofInstructions "bell" 2 2
    [.elementary .h [0], .elementary .cx [0, 1], .measure [0] [0], .measure [1] [1]]

/-- All qubits entangled along a chain, then measured. -/
def ghz (size : Nat) : Except CircuitError Circuit :=
  if size = 0 then .ok (empty "ghz_0" 0 0)
  else
    ofInstructions "ghz" size size
      (.elementary .h [0] ::
        (List.range (size - 1)).map (fun qubit => .elementary .cx [qubit, qubit + 1]) ++
        (List.range size).map (fun qubit => .measure [qubit] [qubit]))

def layerGates : Array Elementary := #[.x, .y, .z, .s, .t]

variable {σ : Type} [WordSource σ]

/-- Applies a random gate of the layer set to a qubit. -/
def pushLayerGate (circuit : Circuit) (qubit : Nat) : ExceptT CircuitError (Draw σ) Circuit := do
  let index ← (belowLong layerGates.size : Draw σ Nat)
  circuit.push (.elementary (layerGates.getD index .x) [qubit])

/-- Entangles two distinct random qubits. -/
def pushEntangler (circuit : Circuit) : ExceptT CircuitError (Draw σ) Circuit := do
  let pair ← (sampleIndices circuit.numQubits 2 : Draw σ (List Nat))
  let heads ← (coin 0.5 : Draw σ Bool)
  circuit.push (.elementary (if heads then .cx else .cz) pair)

/-- One layer: a gate on every qubit, then an entangler where there are two qubits. -/
def pushLayer (circuit : Circuit) : ExceptT CircuitError (Draw σ) Circuit := do
  let circuit ← (List.range circuit.numQubits).foldlM pushLayerGate circuit
  if circuit.numQubits < 2 then return circuit
  pushEntangler circuit

/-- A random program of the given number of layers, measured at the end. -/
def random (numQubits layers : Nat) : ExceptT CircuitError (Draw σ) Circuit := do
  let circuit ← (List.range layers).foldlM (fun circuit _ => pushLayer circuit)
    (empty "random" numQubits numQubits)
  circuit.measureAll

end CircuitCloak.Circuit

import CircuitCloak.Circuit.Basic
import CircuitCloak.Execution.Counts
import CircuitCloak.Execution.Error
import CircuitCloak.State.Statevector

/-! Shots of a program. A program that measures at its end is simulated once and its final state is
sampled; any other program is simulated shot by shot, each measurement collapsing the state. -/

namespace CircuitCloak

/-- Neither a gate nor a reset stands after a measurement, and no reset anywhere. -/
def endsInMeasurements : Bool → List Instruction → Bool
  | _, [] => true
  | _, .measure _ _ :: rest => endsInMeasurements true rest
  | _, .reset _ _ :: _ => false
  | measured, .gate _ _ :: rest => !measured && endsInMeasurements measured rest
  | measured, .barrier _ _ :: rest => endsInMeasurements measured rest

def Circuit.measuresAtEnd (circuit : Circuit) : Bool :=
  endsInMeasurements false circuit.instructions.toList

/-- A classical register as text, its first bit leftmost. -/
def bitText (bits : List Bool) : String :=
  String.ofList (bits.map fun bit => if bit then '1' else '0')

/-- Which qubit is measured into which classical bit, in order. -/
def Circuit.wiring (circuit : Circuit) : List (Nat × Nat) :=
  circuit.measurements.flatMap fun
    | .measure qubits clbits => qubits.zip clbits
    | _ => []

/-- What is recorded where the qubits have the bits of an index as their values. -/
def recordedBits (wiring : List (Nat × Nat)) (numClbits index : Nat) : List Bool :=
  wiring.foldl (fun bits wire => bits.set wire.2 (index.testBit wire.1))
    (List.replicate numClbits false)

section Sampling
open CircuitCloak.Random

variable {σ : Type} [WordSource σ]

def tallySamples (weights : Weights) : Nat → Array Nat → Draw σ (Array Nat)
  | 0, tally => return tally
  | shots + 1, tally => do
    let index ← weights.sample
    tallySamples weights shots (tally.modify index (· + 1))

def countsOfTally (wiring : List (Nat × Nat)) (numClbits : Nat) (tally : Array Nat) : Counts :=
  tally.toList.zipIdx.foldl (fun counts entry =>
    if entry.1 = 0 then counts
    else
      counts.insert (bitText (recordedBits wiring numClbits entry.2)) (UInt64.ofNat entry.1)) .empty

def Circuit.sampleAtEnd (circuit : Circuit) (shots : Nat) :
    ExceptT ExecutionError (Draw σ) Counts := do
  let final := (Statevector.ground circuit.numQubits : Statevector FloatComplex).applyAll
    circuit.instructions.toList
  match Weights.ofArray final.probabilities.toArray with
  | .error fault => throw (.degenerateState fault)
  | .ok weights =>
    let untouched := Array.replicate (Nat.pow 2 circuit.numQubits) 0
    let tally ← (tallySamples weights shots untouched : Draw σ _)
    return countsOfTally circuit.wiring circuit.numClbits tally

end Sampling

structure Shot (α : Type) where
  state : Statevector α
  bits : List Bool

section Shots

variable {α ρ : Type} [Zero α] [One α] [Neg α] [Add α] [Mul α] [GateScalar α] [Weight ρ]
  [Amplitude α ρ] {m : Type → Type} [Monad m]

def Shot.measureInto (toss : ρ → m Bool) (shot : Shot α) (wire : Nat × Nat) : m (Shot α) := do
  let (outcome, state) ← shot.state.measure toss wire.1
  return ⟨state, shot.bits.set wire.2 outcome⟩

def Shot.clear (toss : ρ → m Bool) (shot : Shot α) (qubit : Nat) : m (Shot α) := do
  return ⟨← shot.state.reset toss qubit, shot.bits⟩

def Shot.step (toss : ρ → m Bool) (shot : Shot α) : Instruction → m (Shot α)
  | .gate call _ => return ⟨shot.state.apply call, shot.bits⟩
  | .measure qubits clbits => (qubits.zip clbits).foldlM (Shot.measureInto toss) shot
  | .reset qubits _ => qubits.foldlM (Shot.clear toss) shot
  | .barrier _ _ => return shot

def Circuit.shot (circuit : Circuit) (toss : ρ → m Bool) (start : Statevector α) :
    m (List Bool) := do
  let shot ← circuit.instructions.toList.foldlM (Shot.step toss)
    ⟨start, List.replicate circuit.numClbits false⟩
  return shot.bits

end Shots

open CircuitCloak.Random

variable {σ : Type} [WordSource σ]

def Circuit.runShots (circuit : Circuit) : Nat → Counts → Draw σ Counts
  | 0, counts => return counts
  | shots + 1, counts => do
    let start : Statevector FloatComplex := .ground circuit.numQubits
    let bits ← circuit.shot (Random.toss : Float → Draw σ Bool) start
    circuit.runShots shots (counts.insert (bitText bits) 1)

def Circuit.execute (circuit : Circuit) (shots : Nat) : ExceptT ExecutionError (Draw σ) Counts :=
  if circuit.measuresAtEnd then circuit.sampleAtEnd shots
  else (circuit.runShots shots .empty : Draw σ Counts)

end CircuitCloak

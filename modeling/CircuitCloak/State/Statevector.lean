import CircuitCloak.Circuit.Instruction
import CircuitCloak.Random.Draw
import CircuitCloak.State.FloatComplex
import CircuitCloak.State.Kernel

/-! States of a quantum register. Every gate is a controlled matrix on one qubit or a controlled
exchange of two. -/

namespace CircuitCloak

/-- A state: an amplitude for every value of the qubits. -/
structure Statevector (α : Type) where
  numQubits : Nat
  amplitudes : Vector α (Nat.pow 2 numQubits)

section Matrices

variable {α : Type} [Zero α] [One α] [Neg α] [GateScalar α]
open GateScalar

def flipMatrix : QubitMatrix α := ⟨0, 1, 1, 0⟩

def discreteMatrix? : Elementary → Option (QubitMatrix α)
  | .x => some flipMatrix
  | .y => some ⟨0, -i, i, 0⟩
  | .z => some ⟨1, 0, 0, -1⟩
  | .h => some ⟨invSqrtTwo, invSqrtTwo, invSqrtTwo, -invSqrtTwo⟩
  | .s => some ⟨1, 0, 0, quarterTurn⟩
  | .sdg => some ⟨1, 0, 0, quarterTurnBack⟩
  | .t => some ⟨1, 0, 0, eighthTurn⟩
  | .tdg => some ⟨1, 0, 0, eighthTurnBack⟩
  | .sx => some ⟨halfUp, halfDown, halfDown, halfUp⟩
  | .sxdg => some ⟨halfDown, halfUp, halfUp, halfDown⟩
  | _ => none

/-- The action of a gate on its last operand, where its controls are set. -/
def targetMatrix? : Elementary → Option (QubitMatrix α)
  | .cx | .ccx => some flipMatrix
  | .cy => discreteMatrix? .y
  | .cz => discreteMatrix? .z
  | .ch => discreteMatrix? .h
  | gate => if gate.isDiscrete then discreteMatrix? gate else rotation? gate

end Matrices

namespace Statevector

section Gates

variable {α : Type} [Zero α] [One α] [Neg α] [Add α] [Mul α] [GateScalar α]

def ground (numQubits : Nat) : Statevector α :=
  ⟨numQubits, (Vector.replicate (Nat.pow 2 numQubits) 0).set 0 1 (Nat.two_pow_pos numQubits)⟩

/-- Applies a matrix to a qubit under controls; a gate without a matrix changes nothing. -/
def applyTo (controls target : Nat) (matrix : Option (QubitMatrix α)) :
    Statevector α → Statevector α
  | ⟨numQubits, amplitudes⟩ =>
    match matrix with
    | some matrix => ⟨numQubits, Kernel.actOnQubit controls target matrix amplitudes⟩
    | none => ⟨numQubits, amplitudes⟩

def exchange (controls first second : Nat) : Statevector α → Statevector α
  | ⟨numQubits, amplitudes⟩ => ⟨numQubits, Kernel.exchangeQubits controls first second amplitudes⟩

/-- Applies an elementary gate. A gate with an angle that has no value changes nothing. -/
def applyElementary (gate : Elementary) (qubits : List Nat) (state : Statevector α) :
    Statevector α :=
  match gate, qubits with
  | .id, _ => state
  | .swap, first :: second :: _ => state.exchange 0 first second
  | .cswap, control :: first :: second :: _ => state.exchange (Kernel.bitMask control) first second
  | .ccx, control :: other :: target :: _ =>
    state.applyTo (Kernel.bitMask control ||| Kernel.bitMask other) target (targetMatrix? .ccx)
  | gate, [target] => state.applyTo 0 target (targetMatrix? gate)
  | gate, first :: second :: _ =>
    if gate.arity = 2 then state.applyTo (Kernel.bitMask first) second (targetMatrix? gate)
    else state.applyTo 0 first (targetMatrix? gate)
  | _, [] => state

def applyCall (state : Statevector α) (call : Application) : Statevector α :=
  match call.gate with
  | .elementary gate _ => state.applyElementary gate call.qubits
  | .composite _ _ => state

/-- Applies a gate on its operands: the elementary gates that it stands for, in order. -/
def apply (state : Statevector α) (call : Application) : Statevector α :=
  call.expand.foldl applyCall state

def applyInstruction (state : Statevector α) : Instruction → Statevector α
  | .gate call _ => state.apply call
  | _ => state

def applyAll (state : Statevector α) (instructions : List Instruction) : Statevector α :=
  instructions.foldl applyInstruction state

end Gates

section Measurement

variable {α ρ : Type} [Zero α] [One α] [Add α] [Mul α] [Weight ρ] [Amplitude α ρ]

def oneWeight (qubit : Nat) (state : Statevector α) : ρ := Kernel.oneWeight qubit state.amplitudes

/-- The state after a qubit, which is set with probability `one`, was found to have a value. -/
def project (qubit : Nat) (one : ρ) (outcome : Bool) : Statevector α → Statevector α
  | ⟨numQubits, amplitudes⟩ => ⟨numQubits, Kernel.project qubit one outcome amplitudes⟩

variable {m : Type → Type} [Monad m]

/-- Measures a qubit; the toss shows heads with the given probability. -/
def measure (toss : ρ → m Bool) (qubit : Nat) (state : Statevector α) :
    m (Bool × Statevector α) := do
  let one : ρ := state.oneWeight qubit
  let outcome ← toss one
  return (outcome, state.project qubit one outcome)

def reset (toss : ρ → m Bool) (qubit : Nat) (state : Statevector α) : m (Statevector α) := do
  let (outcome, state) ← state.measure toss qubit
  return if outcome then state.applyTo 0 qubit (some flipMatrix) else state

def probabilities (state : Statevector α) : Vector ρ (Nat.pow 2 state.numQubits) :=
  state.amplitudes.map Amplitude.normSq

end Measurement

open CircuitCloak.Random

variable {σ : Type} [WordSource σ]

/-- An amplitude with random parts, the real one first. -/
def drawAmplitude : Draw σ FloatComplex := return ⟨← signedUnit, ← signedUnit⟩

/-- Amplitudes brought to norm one; a zero state becomes the ground state. -/
def normalized (numQubits : Nat) (amplitudes : Vector FloatComplex (Nat.pow 2 numQubits)) :
    Statevector FloatComplex :=
  let norm := (amplitudes.foldl (fun total a => total + FloatComplex.normSq a) 0).sqrt
  if 0 < norm then ⟨numQubits, amplitudes.map (·.divReal norm)⟩
  else ⟨numQubits, amplitudes.set 0 1 (Nat.two_pow_pos numQubits)⟩

/-- A random state, uniform before it is brought to norm one. -/
def random (numQubits : Nat) : Draw σ (Statevector FloatComplex) :=
  normalized numQubits <$> (Vector.replicate (Nat.pow 2 numQubits) ()).mapM fun _ => drawAmplitude

/-- The magnitude of the inner product; zero for states of different sizes. -/
def overlap (first second : Statevector FloatComplex) : Float :=
  if first.numQubits = second.numQubits then
    let products := Array.zipWith (fun a b => a.conj * b) first.amplitudes.toArray
      second.amplitudes.toArray
    (products.foldl (· + ·) 0).abs
  else 0

/-- The states differ at most by a phase, up to a tolerance. -/
def matchesUpToPhase (first second : Statevector FloatComplex) (tolerance : Float) : Bool :=
  (1 - first.overlap second).abs < tolerance

end Statevector

end CircuitCloak

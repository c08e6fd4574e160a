import CircuitCloak.Gate.Elementary

/-! What a state is computed with. The operations on states are stated for any numbers that have the
constants of the gates, so that they hold for exact numbers and run on floating-point ones. -/

namespace CircuitCloak

/-- The action of a gate on one qubit. -/
structure QubitMatrix (α : Type) where
  zeroZero : α
  zeroOne : α
  oneZero : α
  oneOne : α
  deriving Repr

/-- The constants of the discrete gates, and the matrices of the gates with angles. -/
class GateScalar (α : Type) where
  /-- The imaginary unit. -/
  i : α
  /-- One divided by the square root of two. -/
  invSqrtTwo : α
  /-- `(1 + i) / 2`. -/
  halfUp : α
  /-- `(1 - i) / 2`. -/
  halfDown : α
  /-- `e^(iπ/2)`. -/
  quarterTurn : α
  /-- `e^(-iπ/2)`. -/
  quarterTurnBack : α
  /-- `e^(iπ/4)`. -/
  eighthTurn : α
  /-- `e^(-iπ/4)`. -/
  eighthTurnBack : α
  /-- The action of a gate with angles on its last operand, if every angle has a value. -/
  rotation? : Elementary → Option (QubitMatrix α)

/-- Numbers that probabilities are computed with. -/
class Weight (ρ : Type) where
  zero : ρ
  one : ρ
  add : ρ → ρ → ρ
  sub : ρ → ρ → ρ
  less : ρ → ρ → Bool
  /-- One divided by the square root. -/
  recipSqrt : ρ → ρ

/-- The weight of an amplitude, and its change by a real factor. -/
class Amplitude (α : Type) (ρ : outParam Type) where
  normSq : α → ρ
  scale : α → ρ → α

end CircuitCloak

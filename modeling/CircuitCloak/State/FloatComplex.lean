import CircuitCloak.State.Length
import CircuitCloak.State.Scalar

/-! Complex numbers over doubles, on which states are computed. -/

namespace CircuitCloak

structure FloatComplex where
  re : Float
  im : Float
  deriving Repr, Inhabited

namespace FloatComplex

instance : Zero FloatComplex := ⟨⟨0, 0⟩⟩
instance : One FloatComplex := ⟨⟨1, 0⟩⟩
instance : Neg FloatComplex := ⟨fun a => ⟨-a.re, -a.im⟩⟩
instance : Add FloatComplex := ⟨fun a b => ⟨a.re + b.re, a.im + b.im⟩⟩
instance : Mul FloatComplex :=
  ⟨fun a b => ⟨a.re * b.re - a.im * b.im, a.re * b.im + a.im * b.re⟩⟩

def conj (a : FloatComplex) : FloatComplex := ⟨a.re, -a.im⟩

def normSq (a : FloatComplex) : Float := a.re * a.re + a.im * a.im

def abs (a : FloatComplex) : Float := vectorLength a.re a.im

def scale (a : FloatComplex) (factor : Float) : FloatComplex := ⟨a.re * factor, a.im * factor⟩

def divReal (a : FloatComplex) (divisor : Float) : FloatComplex := ⟨a.re / divisor, a.im / divisor⟩

def ofReal (value : Float) : FloatComplex := ⟨value, 0⟩

/-- The number of a given magnitude and angle. -/
def ofPolar (magnitude angle : Float) : FloatComplex :=
  ⟨magnitude * angle.cos, magnitude * angle.sin⟩

end FloatComplex

/-- The matrix that turns the phase of a set qubit. -/
def phaseMatrix (phase : FloatComplex) : QubitMatrix FloatComplex := ⟨1, 0, 0, phase⟩

def xRotation (angle : Float) : QubitMatrix FloatComplex :=
  let c := FloatComplex.ofReal (angle / 2).cos
  let s : FloatComplex := ⟨0, -(angle / 2).sin⟩
  ⟨c, s, s, c⟩

def yRotation (angle : Float) : QubitMatrix FloatComplex :=
  let c := (angle / 2).cos
  let s := (angle / 2).sin
  ⟨.ofReal c, .ofReal (-s), .ofReal s, .ofReal c⟩

def zRotation (angle : Float) : QubitMatrix FloatComplex :=
  ⟨.ofPolar 1 (-angle / 2), 0, 0, .ofPolar 1 (angle / 2)⟩

/-- The general rotation by three angles. -/
def eulerRotation (theta phi lambda : Float) : QubitMatrix FloatComplex :=
  let c := (theta / 2).cos
  let s := (theta / 2).sin
  ⟨.ofReal c, -.ofPolar s lambda, .ofPolar s phi, .ofPolar c (phi + lambda)⟩

def rotationMatrix? : Elementary → Option (QubitMatrix FloatComplex)
  | .rx angle => angle.value?.map xRotation
  | .ry angle => angle.value?.map yRotation
  | .rz angle | .crz angle => angle.value?.map zRotation
  | .p angle | .cp angle => angle.value?.map fun value => phaseMatrix (.ofPolar 1 value)
  | .u theta phi lambda => return eulerRotation (← theta.value?) (← phi.value?) (← lambda.value?)
  | _ => none

instance : GateScalar FloatComplex where
  i := ⟨0, 1⟩
  invSqrtTwo := .ofReal 0.7071067811865476
  halfUp := ⟨0.5, 0.5⟩
  halfDown := ⟨0.5, -0.5⟩
  quarterTurn := .ofPolar 1 (Angle.piValue / 2)
  quarterTurnBack := .ofPolar 1 (-(Angle.piValue / 2))
  eighthTurn := .ofPolar 1 (Angle.piValue / 4)
  eighthTurnBack := .ofPolar 1 (-(Angle.piValue / 4))
  rotation? := rotationMatrix?

instance : Weight Float where
  zero := 0
  one := 1
  add := (· + ·)
  sub := (· - ·)
  less a b := a < b
  recipSqrt a := 1 / a.sqrt

instance : Amplitude FloatComplex Float := ⟨FloatComplex.normSq, FloatComplex.scale⟩

end CircuitCloak

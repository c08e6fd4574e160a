import CircuitCloak.State.Scalar

/-! In-place changes of an array of amplitudes. Bit `q` of an index is the value of qubit `q`; each
change visits every index once, in ascending order. -/

namespace CircuitCloak.Kernel

variable {α ρ : Type} {size : Nat}

/-- The index in which only the bit of a qubit is set. -/
def bitMask (qubit : Nat) : Nat := Nat.pow 2 qubit

def hasControls (controls index : Nat) : Bool := index &&& controls == controls

/-- Changes the amplitudes of an index with a clear target bit and of its partner. -/
def matrixStep [Add α] [Mul α] (controls mask : Nat) (matrix : QubitMatrix α)
    (amplitudes : Vector α size) (index : Fin size) : Vector α size :=
  if index.val &&& mask == 0 && hasControls controls index then
    let partner := index.val ||| mask
    if inside : partner < size then
      let low := amplitudes[index]
      let high := amplitudes[partner]
      (amplitudes.set index (matrix.zeroZero * low + matrix.zeroOne * high)).set partner
        (matrix.oneZero * low + matrix.oneOne * high)
    else amplitudes
  else amplitudes

def actOnQubit [Add α] [Mul α] (controls target : Nat) (matrix : QubitMatrix α)
    (amplitudes : Vector α size) : Vector α size :=
  Fin.foldl size (matrixStep controls (bitMask target) matrix) amplitudes

/-- The index with one bit cleared and another one set. -/
def moveBit (index source destination : Nat) : Nat := (index ^^^ source) ||| destination

/-- Exchanges the amplitude of an index with only the first bit set and of its partner. -/
def swapStep (controls first second : Nat) (amplitudes : Vector α size) (index : Fin size) :
    Vector α size :=
  if hasControls controls index && index.val &&& first != 0 && index.val &&& second == 0 then
    let partner := moveBit index first second
    if inside : partner < size then amplitudes.swap index partner else amplitudes
  else amplitudes

def exchangeQubits (controls first second : Nat) (amplitudes : Vector α size) : Vector α size :=
  Fin.foldl size (swapStep controls (bitMask first) (bitMask second)) amplitudes

/-- The probability of finding a qubit set. -/
def oneWeight [Weight ρ] [Amplitude α ρ] (qubit : Nat) (amplitudes : Vector α size) : ρ :=
  Fin.foldl size (fun (total : ρ) index =>
    if index.val.testBit qubit then Weight.add total (Amplitude.normSq amplitudes[index])
    else total) Weight.zero

/-- Keeps the amplitudes in which a qubit has the given value, changed by a factor. -/
def keepOutcome [Zero α] [Amplitude α ρ] (qubit : Nat) (outcome : Bool) (factor : ρ)
    (amplitudes : Vector α size) : Vector α size :=
  amplitudes.mapIdx fun index amplitude =>
    if index.testBit qubit == outcome then Amplitude.scale amplitude factor else 0

/-- The factor that makes up for the lost part of a state. -/
def renormalizer [Weight ρ] (kept : ρ) : ρ :=
  if Weight.less Weight.zero kept then Weight.recipSqrt kept else Weight.zero

/-- The state after a qubit, which is set with probability `one`, was found to have a value. -/
def project [Zero α] [Weight ρ] [Amplitude α ρ] (qubit : Nat) (one : ρ) (outcome : Bool)
    (amplitudes : Vector α size) : Vector α size :=
  let kept := if outcome then one else Weight.sub Weight.one one
  keepOutcome qubit outcome (renormalizer kept) amplitudes

end CircuitCloak.Kernel

import CircuitCloak.Proofs.InPlaceChanges
import CircuitCloak.State.Statevector
import Mathlib.Analysis.Complex.Basic

/-! Complex amplitudes as waves: functions of an index that are zero outside the register. What an in-place
change leaves is read off the wave before it. -/

namespace CircuitCloak

/-- Amplitudes by index, zero outside the register. -/
abbrev Wave (α : Type) := Nat → α

namespace Wave

variable {α : Type}

/-- A matrix on a qubit wherever a condition holds. -/
def turned [Add α] [Mul α] (condition : Nat → Bool) (target : Nat) (matrix : QubitMatrix α)
    (wave : Wave α) : Wave α :=
  fun index =>
    if condition index then
      matrix.entry (index.testBit target) false * wave (withBit index target false) +
        matrix.entry (index.testBit target) true * wave (withBit index target true)
    else wave index

/-- Two qubits exchanged wherever a condition holds. -/
def exchanged (condition : Nat → Bool) (first second : Nat) (wave : Wave α) : Wave α :=
  fun index => if condition index then wave (exchangeBits index first second) else wave index

end Wave

namespace Kernel

variable {size : Nat}

def wave (amplitudes : Vector ℂ size) : Wave ℂ := fun index => amplitudes[index]?.getD 0

theorem wave_of_lt (amplitudes : Vector ℂ size) {index : Nat} (inside : index < size) :
    wave amplitudes index = amplitudes[index] := by
  simp [wave, inside]

theorem wave_of_le (amplitudes : Vector ℂ size) {index : Nat} (outside : size ≤ index) :
    wave amplitudes index = 0 := by
  simp [wave, outside]

theorem wave_injective {first second : Vector ℂ size} (same : wave first = wave second) : first = second := by
  refine Vector.ext fun index inside => ?_
  rw [← wave_of_lt first inside, same, wave_of_lt]

theorem get_eq_wave (amplitudes : Vector ℂ size) (place : Fin size) : amplitudes.get place = wave amplitudes place :=
  (wave_of_lt amplitudes place.isLt).symm

/-- The wave after a change is known where the change is known at every index of the register. -/
theorem wave_eq {amplitudes : Vector ℂ size} {expected : Wave ℂ}
    (inside : ∀ place : Fin size, amplitudes.get place = expected place)
    (outside : ∀ index, size ≤ index → expected index = 0) : wave amplitudes = expected := by
  funext index
  by_cases within : index < size
  · exact (wave_of_lt amplitudes within).trans (inside ⟨index, within⟩)
  · rw [wave_of_le amplitudes (Nat.le_of_not_lt within), outside index (Nat.le_of_not_lt within)]

variable {numQubits controls : Nat}

/-- A bit of an index outside the register may be replaced: the index stays outside. -/
theorem wave_withBit_of_le {target : Nat} (inside : target < numQubits) (amplitudes : Vector ℂ (Nat.pow 2 numQubits))
    {index : Nat} (outside : Nat.pow 2 numQubits ≤ index) (value : Bool) :
    wave amplitudes (withBit index target value) = 0 := by
  apply wave_of_le
  apply Nat.le_of_not_lt
  intro within
  exact absurd ((withBit_lt_iff inside index value).mp within) (Nat.not_lt.mpr outside)

theorem turnedAt_eq_wave (target : Fin numQubits) (matrix : QubitMatrix ℂ) (amplitudes : Vector ℂ (Nat.pow 2 numQubits))
    (place : Index numQubits) : turnedAt controls target matrix amplitudes place =
      Wave.turned (hasControls controls) target matrix (wave amplitudes) place := by
  unfold turnedAt Wave.turned
  simp only [get_eq_wave, ← Index.hasControls_eq_true_iff]
  rfl

theorem exchangedAt_eq_wave (first second : Fin numQubits) (amplitudes : Vector ℂ (Nat.pow 2 numQubits))
    (place : Index numQubits) : exchangedAt controls first second amplitudes place =
      Wave.exchanged (hasControls controls) first second (wave amplitudes) place := by
  unfold exchangedAt Wave.exchanged
  simp only [get_eq_wave, ← Index.hasControls_eq_true_iff]
  rfl

theorem wave_actOnQubit {target : Nat} (inside : target < numQubits) (apart : controls.testBit target = false)
    (matrix : QubitMatrix ℂ) (amplitudes : Vector ℂ (Nat.pow 2 numQubits)) :
    wave (actOnQubit controls target matrix amplitudes) =
      Wave.turned (hasControls controls) target matrix (wave amplitudes) := by
  let qubit : Fin numQubits := ⟨target, inside⟩
  have apart : controls.testBit qubit = false := apart
  apply wave_eq
  · intro place
    exact (get_actOnQubit apart matrix amplitudes place).trans (turnedAt_eq_wave qubit matrix amplitudes place)
  · intro index outside
    unfold Wave.turned
    rw [wave_withBit_of_le inside amplitudes outside, wave_withBit_of_le inside amplitudes outside,
      wave_of_le amplitudes outside]
    simp

theorem wave_exchangeQubits {first second : Nat} (one : first < numQubits) (other : second < numQubits)
    (different : first ≠ second) (apartOne : controls.testBit first = false)
    (apartOther : controls.testBit second = false) (amplitudes : Vector ℂ (Nat.pow 2 numQubits)) :
    wave (exchangeQubits controls first second amplitudes) =
      Wave.exchanged (hasControls controls) first second (wave amplitudes) := by
  let front : Fin numQubits := ⟨first, one⟩
  let back : Fin numQubits := ⟨second, other⟩
  have different : front ≠ back := Fin.ne_of_val_ne different
  have apartFront : controls.testBit front = false := apartOne
  have apartBack : controls.testBit back = false := apartOther
  apply wave_eq
  · intro place
    exact (get_exchangeQubits different apartFront apartBack amplitudes place).trans
      (exchangedAt_eq_wave front back amplitudes place)
  · intro index outside
    have further : Nat.pow 2 numQubits ≤ withBit index first (index.testBit second) := by
      apply Nat.le_of_not_lt
      intro within
      exact absurd ((withBit_lt_iff one index _).mp within) (Nat.not_lt.mpr outside)
    unfold Wave.exchanged
    rw [exchangeBits, wave_withBit_of_le other amplitudes further, wave_of_le amplitudes outside, ite_self]

end Kernel

end CircuitCloak

import CircuitCloak.Proofs.Branches
import Mathlib.LinearAlgebra.UnitaryGroup

/-! Gates with unitary matrices keep the norm of a state. A matrix mixes the amplitudes of an index and of its
partner, and an exchange only moves amplitudes, so the sum of the squares stays the same pair by pair. -/

namespace CircuitCloak

section Sums

variable {width : Nat} {first second : Nat → ℝ}

theorem sum_moved {move : Nat → Nat} (inside : ∀ index, move index < 2 ^ width ↔ index < 2 ^ width)
    (back : ∀ index, move (move index) = index) (weight : Nat → ℝ) :
    ∑ index ∈ Finset.range (2 ^ width), weight (move index) = ∑ index ∈ Finset.range (2 ^ width), weight index := by
  apply Finset.sum_nbij' move move
  · intro index member
    exact Finset.mem_range.mpr ((inside index).mpr (Finset.mem_range.mp member))
  · intro index member
    exact Finset.mem_range.mpr ((inside index).mpr (Finset.mem_range.mp member))
  · exact fun index _ => back index
  · exact fun index _ => back index
  · exact fun _ _ => rfl

/-- Sums that agree on every pair of partners are the same. -/
theorem sum_of_pairs {qubit : Nat} (inside : qubit < width)
    (pairs : ∀ index, first (withBit index qubit false) + first (withBit index qubit true) =
      second (withBit index qubit false) + second (withBit index qubit true)) :
    ∑ index ∈ Finset.range (2 ^ width), first index = ∑ index ∈ Finset.range (2 ^ width), second index := by
  let flip := fun index => withBit index qubit (!index.testBit qubit)
  have back : ∀ index, flip (flip index) = index := by
    intro index
    simp [flip]
  have moved : ∀ weight : Nat → ℝ, ∑ index ∈ Finset.range (2 ^ width), weight (flip index) = _ :=
    sum_moved (fun index => withBit_lt_iff inside index _) back
  have same : ∀ index, first index + first (flip index) = second index + second (flip index) := by
    intro index
    have pair := pairs index
    cases bit : index.testBit qubit with
    | false =>
      rw [withBit_eq_self bit] at pair
      simpa [flip, bit] using pair
    | true =>
      rw [withBit_eq_self bit] at pair
      simp only [flip, bit, Bool.not_true]
      linarith
  have both : ∑ index ∈ Finset.range (2 ^ width), (first index + first (flip index)) =
      ∑ index ∈ Finset.range (2 ^ width), (second index + second (flip index)) :=
    Finset.sum_congr rfl fun index _ => same index
  rw [Finset.sum_add_distrib, Finset.sum_add_distrib, moved, moved] at both
  linarith

end Sums

def QubitMatrix.Unitary (matrix : QubitMatrix ℂ) : Prop :=
  !![matrix.zeroZero, matrix.zeroOne; matrix.oneZero, matrix.oneOne] ∈ Matrix.unitaryGroup (Fin 2) ℂ

theorem QubitMatrix.unitary_iff {matrix : QubitMatrix ℂ} : matrix.Unitary ↔
    star matrix.zeroZero * matrix.zeroZero + star matrix.oneZero * matrix.oneZero = 1 ∧
      star matrix.zeroZero * matrix.zeroOne + star matrix.oneZero * matrix.oneOne = 0 ∧
      star matrix.zeroOne * matrix.zeroOne + star matrix.oneOne * matrix.oneOne = 1 := by
  unfold Unitary
  rw [Matrix.mem_unitaryGroup_iff']
  constructor
  · intro same
    have entry := fun row column => congrFun (congrFun same row) column
    refine ⟨?_, ?_, ?_⟩
    · simpa [Matrix.mul_apply, Fin.sum_univ_two] using entry 0 0
    · simpa [Matrix.mul_apply, Fin.sum_univ_two] using entry 0 1
    · simpa [Matrix.mul_apply, Fin.sum_univ_two] using entry 1 1
  · rintro ⟨one, mixed, other⟩
    have turned : star matrix.zeroOne * matrix.zeroZero + star matrix.oneOne * matrix.oneZero = 0 := by
      have both := congrArg star mixed
      simpa [mul_comm] using both
    apply Matrix.ext
    intro row column
    fin_cases row <;> fin_cases column <;> simpa [Matrix.mul_apply, Fin.sum_univ_two]

theorem QubitMatrix.Unitary.normSq_add {matrix : QubitMatrix ℂ} (unitary : matrix.Unitary) (low high : ℂ) :
    Complex.normSq (matrix.zeroZero * low + matrix.zeroOne * high) +
      Complex.normSq (matrix.oneZero * low + matrix.oneOne * high) = Complex.normSq low + Complex.normSq high := by
  obtain ⟨one, mixed, other⟩ := (unitary_iff).mp unitary
  have turned : star matrix.zeroOne * matrix.zeroZero + star matrix.oneOne * matrix.oneZero = 0 := by
    have both := congrArg star mixed
    simpa [mul_comm] using both
  apply Complex.ofReal_injective
  push_cast
  simp only [Complex.normSq_eq_conj_mul_self, map_add, map_mul]
  simp only [RCLike.star_def] at one mixed other turned
  linear_combination (starRingEnd ℂ low * low) * one + (starRingEnd ℂ low * high) * mixed +
    (starRingEnd ℂ high * low) * turned + (starRingEnd ℂ high * high) * other

/-- Every gate that has a matrix has a unitary one. -/
def UnitaryGates [GateScalar ℂ] : Prop :=
  ∀ (gate : Elementary) (matrix : QubitMatrix ℂ), targetMatrix? gate = some matrix → matrix.Unitary

/-- The constants of the discrete gates, with any matrices for the gates that have angles. -/
@[reducible]
noncomputable def withRotations (rotation? : Elementary → Option (QubitMatrix ℂ)) : GateScalar ℂ :=
  { (inferInstance : GateScalar ℂ) with rotation? }

section Constants

theorem QubitMatrix.unitary_diagonal {phase : ℂ} (unit : ‖phase‖ = 1) : (⟨1, 0, 0, phase⟩ : QubitMatrix ℂ).Unitary := by
  have square : star phase * phase = 1 := by
    rw [RCLike.star_def, ← Complex.normSq_eq_conj_mul_self, Complex.normSq_eq_norm_sq, unit]
    norm_num
  apply (unitary_iff).mpr
  simp only [star_one, star_zero, zero_mul, mul_zero, mul_one, add_zero, zero_add]
  exact ⟨trivial, trivial, square⟩

/-- The matrix of a square root of the flip. -/
theorem QubitMatrix.unitary_halves (sign : ℂ) (square : sign * sign = -1) (turned : star sign = -sign) :
    (⟨(1 + sign) / 2, (1 - sign) / 2, (1 - sign) / 2, (1 + sign) / 2⟩ : QubitMatrix ℂ).Unitary := by
  apply (unitary_iff).mpr
  simp only [star_div₀, star_add, star_sub, star_one, turned, star_ofNat]
  refine ⟨?_, ?_, ?_⟩
  · linear_combination (-1 / 2) * square
  · linear_combination (1 / 2) * square
  · linear_combination (-1 / 2) * square

theorem unitaryGates_withRotations {rotation? : Elementary → Option (QubitMatrix ℂ)}
    (rotations : ∀ gate matrix, rotation? gate = some matrix → matrix.Unitary) :
    @UnitaryGates (withRotations rotation?) := by
  let _ : GateScalar ℂ := withRotations rotation?
  have flip : (flipMatrix : QubitMatrix ℂ).Unitary := by
    simp [QubitMatrix.unitary_iff, flipMatrix]
  have exchangePhase : (⟨0, -Complex.I, Complex.I, 0⟩ : QubitMatrix ℂ).Unitary := by
    simp [QubitMatrix.unitary_iff]
  have mixing : (⟨1 / (Real.sqrt 2 : ℝ), 1 / (Real.sqrt 2 : ℝ), 1 / (Real.sqrt 2 : ℝ), -(1 / (Real.sqrt 2 : ℝ))⟩ :
      QubitMatrix ℂ).Unitary := by
    have root : (Real.sqrt 2 : ℂ) * Real.sqrt 2 = 2 := by
      rw [← Complex.ofReal_mul, Real.mul_self_sqrt (by norm_num)]
      norm_num
    have half : (1 / (Real.sqrt 2 : ℂ)) * (1 / (Real.sqrt 2 : ℂ)) = 1 / 2 := by
      rw [div_mul_div_comm, root, one_mul]
    have real : star (1 / (Real.sqrt 2 : ℂ)) = 1 / (Real.sqrt 2 : ℂ) := by
      simp
    apply (QubitMatrix.unitary_iff).mpr
    simp only [star_neg, real]
    refine ⟨?_, ?_, ?_⟩
    · linear_combination 2 * half
    · ring
    · linear_combination 2 * half
  have turn : ∀ angle : ℝ, (⟨1, 0, 0, Complex.exp (angle * Complex.I)⟩ : QubitMatrix ℂ).Unitary :=
    fun angle => QubitMatrix.unitary_diagonal (Complex.norm_exp_ofReal_mul_I angle)
  have quarter := turn (Real.pi / 2)
  have quarterBack := turn (-(Real.pi / 2))
  have eighth := turn (Real.pi / 4)
  have eighthBack := turn (-(Real.pi / 4))
  have half : (⟨1, 0, 0, -1⟩ : QubitMatrix ℂ).Unitary := QubitMatrix.unitary_diagonal (by simp)
  have up := QubitMatrix.unitary_halves Complex.I Complex.I_mul_I (by simp)
  have down := QubitMatrix.unitary_halves (-Complex.I) (by simp) (by simp)
  push_cast at quarter quarterBack eighth eighthBack
  rw [neg_mul] at quarterBack eighthBack
  rw [sub_neg_eq_add, ← sub_eq_add_neg] at down
  intro gate matrix found
  cases gate with
  | x | cx | ccx => exact Option.some.inj found ▸ flip
  | y | cy => exact Option.some.inj found ▸ exchangePhase
  | z | cz => exact Option.some.inj found ▸ half
  | h | ch => exact Option.some.inj found ▸ mixing
  | s => exact Option.some.inj found ▸ quarter
  | sdg => exact Option.some.inj found ▸ quarterBack
  | t => exact Option.some.inj found ▸ eighth
  | tdg => exact Option.some.inj found ▸ eighthBack
  | sx => exact Option.some.inj found ▸ up
  | sxdg => exact Option.some.inj found ▸ down
  | id | swap | cswap => cases found
  | rx | ry | rz | p | u | crz | cp => exact rotations _ matrix found

end Constants

namespace Motion

def Unitary : Motion ℂ → Prop
  | turn _ _ matrix => matrix.Unitary
  | _ => True

theorem unitary_ofMatrix {controls : List Nat} {target : Nat} {matrix : Option (QubitMatrix ℂ)}
    (unitary : ∀ known, matrix = some known → known.Unitary) : (ofMatrix controls target matrix).Unitary := by
  cases matrix with
  | none => trivial
  | some known => exact unitary known rfl

/-- A unitary motion of different qubits keeps the sum of the squares. -/
theorem sum_change {motion : Motion ℂ} (unitary : motion.Unitary) {width : Nat} (operands : Operands width motion.qubits)
    (wave : Wave ℂ) :
    ∑ index ∈ Finset.range (2 ^ width), Complex.normSq (motion.change wave index) =
      ∑ index ∈ Finset.range (2 ^ width), Complex.normSq (wave index) := by
  cases motion with
  | still => rfl
  | turn controls target matrix =>
    have distinct := List.nodup_append.mp operands.distinct
    have apart : target ∉ controls := fun member => distinct.2.2 target member target (by simp) rfl
    apply sum_of_pairs (operands.inside target (by simp [qubits]))
    intro index
    simp only [change, Wave.turned, allSet_withBit apart, testBit_withBit_self, withBit_withBit]
    split
    · exact QubitMatrix.Unitary.normSq_add unitary _ _
    · rfl
  | exchange controls first second =>
    have distinct := List.nodup_append.mp operands.distinct
    have apart : ∀ qubit ∈ [first, second], qubit ∉ controls :=
      fun qubit named member => distinct.2.2 qubit member qubit named rfl
    have one := operands.inside first (by simp [qubits])
    have other := operands.inside second (by simp [qubits])
    let move := fun index => if allSet controls index then exchangeBits index first second else index
    have kept : ∀ index, allSet controls (exchangeBits index first second) = allSet controls index :=
      allSet_exchangeBits (apart first (by simp)) (apart second (by simp))
    have moved : ∀ index, (exchange controls first second).change wave index = wave (move index) := by
      intro index
      simp only [change, Wave.exchanged, move]
      split <;> rfl
    simp only [moved]
    refine sum_moved ?_ ?_ fun index => Complex.normSq (wave index)
    · intro index
      simp only [move]
      split
      · exact (withBit_lt_iff other _ _).trans (withBit_lt_iff one _ _)
      · rfl
    · intro index
      simp only [move]
      split
      next set => simp [kept, set]
      next => simp_all

end Motion

namespace Statevector

theorem normSq_eq_sum (state : Statevector ℂ) :
    state.normSq = ∑ index ∈ Finset.range (2 ^ state.numQubits), Complex.normSq (state.wave index) := by
  have listed : state.amplitudes.toList = List.ofFn fun place : Fin (Nat.pow 2 state.numQubits) => state.wave place := by
    apply List.ext_getElem
    · simp
    · intro place first second
      have inside : place < Nat.pow 2 state.numQubits := by simpa using first
      simp [wave, Kernel.wave_of_lt state.amplitudes inside]
  unfold normSq
  rw [listed, List.map_ofFn, List.sum_ofFn, Finset.sum_range]
  rfl

theorem normSq_ground (width : Nat) : (ground width : Statevector ℂ).normSq = 1 := by
  have amplitude : ∀ index, Complex.normSq ((ground width : Statevector ℂ).wave index) = if index = 0 then 1 else 0 := by
    intro index
    by_cases inside : index < Nat.pow 2 width
    · have found : (ground width : Statevector ℂ).wave index = if 0 = index then 1 else 0 := by
        refine (Kernel.wave_of_lt _ inside).trans ?_
        simp [ground, Vector.getElem_set]
      rw [found]
      by_cases first : index = 0 <;> simp [first, eq_comm]
    · have positive : 0 < Nat.pow 2 width := Nat.two_pow_pos width
      have outside : (ground width : Statevector ℂ).wave index = 0 := Kernel.wave_of_le _ (Nat.le_of_not_lt inside)
      have other : index ≠ 0 := by omega
      simp [outside, other]
  rw [normSq_eq_sum]
  simp only [amplitude]
  simp [ground]

variable [GateScalar ℂ]

theorem normSq_applyCall (unitary : UnitaryGates) {width : Nat} {leaf : Application} {operands : List Nat}
    (valid : leaf.Leaf width operands) {state : Statevector ℂ} (same : state.numQubits = width) :
    (state.applyCall leaf).normSq = state.normSq := by
  obtain ⟨gate, qubits⟩ := leaf
  obtain ⟨⟨kind, label, rfl⟩, length, inside, _⟩ := valid
  have matrices : (kind.motion qubits : Motion ℂ).Unitary := by
    unfold Elementary.motion
    split <;> first | trivial | exact Motion.unitary_ofMatrix fun matrix found => unitary _ matrix found
  have moved : Operands width (kind.motion qubits : Motion ℂ).qubits := by
    rcases Elementary.motion_qubits (α := ℂ) kind qubits with all | none
    · rwa [all]
    · rw [none]
      exact ⟨nofun, List.nodup_nil⟩
  have kept : (state.applyElementary kind qubits).numQubits = width :=
    (numQubits_applyElementary kind qubits state).trans same
  change (state.applyElementary kind qubits).normSq = _
  rw [normSq_eq_sum, normSq_eq_sum, kept, same, wave_applyElementary length (same ▸ inside)]
  exact Motion.sum_change matrices moved state.wave

theorem normSq_apply (unitary : UnitaryGates) {width : Nat} {call : Application} (valid : call.Valid width)
    {state : Statevector ℂ} (same : state.numQubits = width) : (state.apply call).normSq = state.normSq := by
  have leaves := valid.leaves
  unfold apply
  generalize call.expand = run at leaves
  induction run generalizing state with
  | nil => rfl
  | cons leaf rest ih =>
    obtain ⟨first, others⟩ := List.forall_mem_cons.mp leaves
    have size : (state.applyCall leaf).numQubits = width := (acts_leaf first).size state same
    rw [List.foldl_cons, ih size others, normSq_applyCall unitary first same]

theorem normSq_applyAll (unitary : UnitaryGates) {width : Nat} {instructions : List Instruction}
    (valid : ∀ call clbits, .gate call clbits ∈ instructions → call.Valid width) {state : Statevector ℂ}
    (same : state.numQubits = width) :
    (state.applyAll instructions).numQubits = width ∧ (state.applyAll instructions).normSq = state.normSq := by
  unfold applyAll
  induction instructions generalizing state with
  | nil => exact ⟨same, rfl⟩
  | cons instruction rest ih =>
    have others := fun call clbits member => valid call clbits (List.mem_cons_of_mem _ member)
    rw [List.foldl_cons]
    cases instruction with
    | gate call clbits =>
      have first := valid call clbits List.mem_cons_self
      obtain ⟨size, norm⟩ := ih others ((acts_call first).size state same)
      exact ⟨size, norm.trans (normSq_apply unitary first same)⟩
    | measure | reset | barrier => exact ih others same

end Statevector

end CircuitCloak

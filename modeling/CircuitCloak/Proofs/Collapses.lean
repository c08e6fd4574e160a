import CircuitCloak.Proofs.TerminalSampling

/-! Measurements of the states that a program can lead to. Every step keeps the norm at one, so the weights of
the two outcomes add up to one and a draw below one never selects an impossible outcome: what is left is the old
state scaled, and the qubit is found with the same value from then on. -/

namespace CircuitCloak

open scoped Probability

namespace Statevector

/-- Heads if a draw lies below the probability. -/
noncomputable def drawn (draw one : ℝ) : Id Bool := decide (draw < one)

/-- What a measurement finds under a draw, and the state that it leaves. -/
noncomputable def measured (draw : ℝ) (qubit : Nat) (state : Statevector ℂ) : Bool × Statevector ℂ :=
  (state.measure (drawn draw) qubit).run

noncomputable def cleared (draw : ℝ) (qubit : Nat) (state : Statevector ℂ) : Statevector ℂ :=
  (state.reset (drawn draw) qubit).run

variable {state after : Statevector ℂ} {qubit width : Nat} {outcome : Bool} {draw : ℝ}

theorem measured_eq (outcome : Bool) (found : decide (draw < state.oneWeight qubit) = outcome) :
    state.measured draw qubit = (outcome, state.project qubit (state.oneWeight qubit : ℝ) outcome) := by
  rw [← found]
  rfl

theorem cleared_eq (draw : ℝ) (qubit : Nat) (state : Statevector ℂ) : state.cleared draw qubit =
    if (state.measured draw qubit).1 then (state.measured draw qubit).2.applyTo 0 qubit (some flipMatrix)
    else (state.measured draw qubit).2 := rfl

/-- A measurement finds a qubit with a value: it keeps the amplitudes that have it, all by one factor, and a later
measurement finds the same and changes nothing. -/
structure Finds (qubit : Nat) (outcome : Bool) (before after : Statevector ℂ) : Prop where
  size : after.numQubits = before.numQubits
  normal : after.normSq = 1
  possible : 0 < if outcome then (before.oneWeight qubit : ℝ) else 1 - before.oneWeight qubit
  lost : ∀ index, index.testBit qubit ≠ outcome → after.wave index = 0
  kept : ∃ factor : ℝ, 0 < factor ∧ ∀ index, index.testBit qubit = outcome → after.wave index = before.wave index * factor
  again : ∀ draw ∈ Set.Ico (0 : ℝ) 1, after.measured draw qubit = (outcome, after)

theorem outcomeWeight_pos (normal : state.normSq = 1) (uniform : draw ∈ Set.Ico (0 : ℝ) 1)
    (found : decide (draw < state.oneWeight qubit) = outcome) : 0 < state.outcomeWeight qubit outcome := by
  rw [← kept_eq_outcomeWeight normal]
  cases outcome with
  | true => exact lt_of_le_of_lt uniform.1 (of_decide_eq_true found)
  | false =>
    have below : state.oneWeight qubit ≤ draw := not_lt.mp (of_decide_eq_false found)
    exact sub_pos.mpr (lt_of_le_of_lt below uniform.2)

/-- Where every amplitude has the same value of a qubit, a draw finds this value and leaves the state as it is. -/
theorem measured_of_lost (normal : state.normSq = 1) (uniform : draw ∈ Set.Ico (0 : ℝ) 1)
    (lost : ∀ index, index.testBit qubit ≠ outcome → state.wave index = 0) :
    state.measured draw qubit = (outcome, state) := by
  have none : state.outcomeWeight qubit (!outcome) = 0 := by
    apply Finset.sum_eq_zero
    intro index _
    split
    next other =>
      rw [lost index (by simp [other]), Complex.normSq_zero]
    next => rfl
  have whole : state.outcomeWeight qubit outcome = 1 := by
    have total := state.outcomeWeight_add qubit
    cases outcome <;> simp_all
  have found : decide (draw < state.oneWeight qubit) = outcome := by
    rw [oneWeight_eq]
    cases outcome with
    | true =>
      rw [whole]
      exact decide_eq_true uniform.2
    | false =>
      rw [show state.outcomeWeight qubit true = 0 from none]
      exact decide_eq_false (not_lt.mpr uniform.1)
  have kept := (kept_eq_outcomeWeight normal qubit outcome).trans whole
  rw [measured_eq outcome found]
  refine congrArg (Prod.mk outcome) (eq_of_wave rfl (funext fun index => ?_))
  rw [wave_project kept one_pos]
  split
  · rw [Real.sqrt_one, div_one, Complex.ofReal_one, mul_one]
  next other => exact (lost index other).symm

theorem finds_measured (normal : state.normSq = 1) (uniform : draw ∈ Set.Ico (0 : ℝ) 1) :
    Finds qubit (state.measured draw qubit).1 state (state.measured draw qubit).2 := by
  let outcome := decide (draw < state.oneWeight qubit)
  let next := state.project qubit (state.oneWeight qubit : ℝ) outcome
  have kept := kept_eq_outcomeWeight normal qubit outcome
  have positive : 0 < state.outcomeWeight qubit outcome := outcomeWeight_pos normal uniform rfl
  have wave (index : Nat) : next.wave index = if index.testBit qubit = outcome then
      state.wave index * (1 / Real.sqrt (state.outcomeWeight qubit outcome) : ℝ) else 0 :=
    wave_project kept positive index
  have left : next.normSq = 1 := normSq_project kept positive
  have lost : ∀ index, index.testBit qubit ≠ outcome → next.wave index = 0 := by
    intro index other
    rw [wave, if_neg other]
  refine ⟨rfl, left, kept ▸ positive, lost, ⟨1 / Real.sqrt (state.outcomeWeight qubit outcome), ?_, ?_⟩, ?_⟩
  · exact one_div_pos.mpr (Real.sqrt_pos.mpr positive)
  · intro index same
    exact (wave index).trans (if_pos same)
  · intro draw uniform
    exact measured_of_lost left uniform lost

/-- Where a qubit is set, a flip reads the amplitude of the partner where it is clear. -/
theorem wave_flipped (inside : qubit < state.numQubits) {index : Nat} (set : index.testBit qubit = true) :
    (state.applyTo 0 qubit (some flipMatrix)).wave index = state.wave (withBit index qubit false) := by
  have moved : (state.applyTo 0 qubit (some flipMatrix)).wave index =
      flipMatrix.entry (index.testBit qubit) false * state.wave (withBit index qubit false) +
        flipMatrix.entry (index.testBit qubit) true * state.wave (withBit index qubit true) :=
    congrFun (wave_applyTo [] rfl (operands_singleton inside) (some flipMatrix)) index
  rw [moved, set]
  change 1 * _ + 0 * _ = _
  rw [one_mul, zero_mul, add_zero]

theorem wave_cleared (normal : state.normSq = 1) (uniform : draw ∈ Set.Ico (0 : ℝ) 1)
    (inside : qubit < state.numQubits) {index : Nat} (set : index.testBit qubit = true) :
    (state.cleared draw qubit).wave index = 0 := by
  have finds : Finds qubit (state.measured draw qubit).1 state (state.measured draw qubit).2 :=
    finds_measured normal uniform
  rw [cleared_eq]
  split
  next found =>
    rw [wave_flipped (finds.size.symm ▸ inside) set]
    apply finds.lost
    rw [found, testBit_withBit_self]
    exact Bool.false_ne_true
  next found =>
    apply finds.lost
    rw [set]
    exact Ne.symm found

section Programs

variable [GateScalar ℂ]

/-- The states that gates, measurements and resets lead to, in any order and under any draws. -/
inductive Reached (width : Nat) : Statevector ℂ → Prop where
  | ground : Reached width (ground width)
  | gate {state : Statevector ℂ} {call : Application} (reached : Reached width state) (valid : call.Valid width) :
      Reached width (state.apply call)
  | measured {state : Statevector ℂ} {qubit : Nat} {draw : ℝ} (reached : Reached width state) (inside : qubit < width)
      (uniform : draw ∈ Set.Ico (0 : ℝ) 1) : Reached width (state.measured draw qubit).2
  | cleared {state : Statevector ℂ} {qubit : Nat} {draw : ℝ} (reached : Reached width state) (inside : qubit < width)
      (uniform : draw ∈ Set.Ico (0 : ℝ) 1) : Reached width (state.cleared draw qubit)

/-- A reset flips a qubit that it finds set, which is a gate. -/
theorem normal_cleared (unitary : UnitaryGates) (size : state.numQubits = width) (normal : state.normSq = 1)
    (uniform : draw ∈ Set.Ico (0 : ℝ) 1) (inside : qubit < width) :
    (state.cleared draw qubit).numQubits = width ∧ (state.cleared draw qubit).normSq = 1 := by
  have finds : Finds qubit (state.measured draw qubit).1 state (state.measured draw qubit).2 :=
    finds_measured normal uniform
  have same := finds.size.trans size
  have flip : Application.Leaf width [qubit] ⟨.ofKind .x, [qubit]⟩ :=
    ⟨⟨.x, none, rfl⟩, rfl, operands_singleton inside, fun _ member => member⟩
  rw [cleared_eq]
  split
  · refine ⟨(numQubits_applyTo 0 qubit _ _).trans same, ?_⟩
    exact (normSq_applyCall unitary flip same).trans finds.normal
  · exact ⟨same, finds.normal⟩

theorem normal_of_reached (unitary : UnitaryGates) (reached : Reached width state) :
    state.numQubits = width ∧ state.normSq = 1 := by
  induction reached with
  | ground => exact ⟨rfl, normSq_ground width⟩
  | gate _ valid ih =>
    obtain ⟨size, normal⟩ := ih
    exact ⟨(acts_call valid).size _ size, (normSq_apply unitary valid size).trans normal⟩
  | @measured state qubit draw _ _ uniform ih =>
    obtain ⟨size, normal⟩ := ih
    have finds : Finds qubit (state.measured draw qubit).1 state _ := finds_measured normal uniform
    exact ⟨finds.size.trans size, finds.normal⟩
  | cleared _ inside uniform ih =>
    obtain ⟨size, normal⟩ := ih
    exact normal_cleared unitary size normal uniform inside

/-- With unitary gates every state that a program leads to has norm one; a measurement of it finds a possible
outcome, keeps exactly the amplitudes that have it, scaled, and settles the qubit; a reset leaves the qubit clear. -/
theorem reached_collapses (unitary : UnitaryGates) (reached : Reached width state) :
    state.normSq = 1 ∧ ∀ qubit < width, ∀ draw ∈ Set.Ico (0 : ℝ) 1,
      Finds qubit (state.measured draw qubit).1 state (state.measured draw qubit).2 ∧
        ∀ index, index.testBit qubit = true → (state.cleared draw qubit).wave index = 0 := by
  obtain ⟨size, normal⟩ := normal_of_reached unitary reached
  refine ⟨normal, ?_⟩
  intro qubit inside draw uniform
  refine ⟨finds_measured normal uniform, ?_⟩
  intro index set
  exact wave_cleared normal uniform (size.symm ▸ inside) set

end Programs

/-- A pair of qubits that are found with the same value. -/
noncomputable def entangled : Statevector ℂ :=
  ((ground 2).apply ⟨.ofKind .h, [0]⟩).apply ⟨.ofKind .cx, [0, 1]⟩

/-- A qubit of a pair is measured, the pair is turned again, and then the other qubit is measured. -/
theorem reached_collapses_entangled : UnitaryGates ∧ ∃ state : Statevector ℂ, Reached 2 state ∧
    state = (entangled.measured (3 / 4) 0).2.apply ⟨.ofKind .ch, [1, 0]⟩ ∧ state.normSq = 1 ∧
    Finds 1 (state.measured (1 / 3) 1).1 state (state.measured (1 / 3) 1).2 ∧
    ∀ index, index.testBit 1 = true → (state.cleared (1 / 3) 1).wave index = 0 := by
  have unitary : UnitaryGates := unitaryGates_withRotations nofun
  have pair : Reached 2 entangled := by
    apply Reached.gate
    · apply Reached.gate .ground
      exact ⟨rfl, ⟨by decide, by decide⟩, trivial⟩
    · exact ⟨rfl, ⟨by decide, by decide⟩, trivial⟩
  have found : Reached 2 (entangled.measured (3 / 4) 0).2 := pair.measured (by decide) (by norm_num)
  have reached : Reached 2 ((entangled.measured (3 / 4) 0).2.apply ⟨.ofKind .ch, [1, 0]⟩) :=
    found.gate ⟨rfl, ⟨by decide, by decide⟩, trivial⟩
  obtain ⟨normal, outcomes⟩ := reached_collapses unitary reached
  obtain ⟨finds, clear⟩ := outcomes 1 (by decide) (1 / 3) (by norm_num)
  exact ⟨unitary, _, reached, rfl, normal, finds, clear⟩

end Statevector

end CircuitCloak

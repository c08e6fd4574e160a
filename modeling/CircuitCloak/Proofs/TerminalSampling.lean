import CircuitCloak.Proofs.Norms
import Mathlib.Algebra.BigOperators.Field
import Mathlib.Control.Monad.Writer

/-! Sampling the final state gives every bit text the chance that collapsing shot by shot gives it. Each
projection divides the weights of the indices that it keeps by their total, which is the chance of its outcome;
so along a run of measurements the product of the chances is the weight of the indices that are left. -/

namespace CircuitCloak

/-- Outcomes with their probabilities; choices made in turn multiply. -/
abbrev Chances := WriterT ℝ List

namespace Chances

variable {α β : Type}

/-- The probability of an event. -/
noncomputable def chance (event : α → Prop) [DecidablePred event] (outcomes : Chances α) : ℝ :=
  (outcomes.run.map fun outcome => if event outcome.1 then outcome.2 else 0).sum

noncomputable def toss (one : ℝ) : Chances Bool := WriterT.mk [(true, one), (false, 1 - one)]

theorem chance_pure (event : α → Prop) [DecidablePred event] (outcome : α) :
    chance event (pure outcome) = if event outcome then 1 else 0 := by
  change (if event outcome then (1 : ℝ) else 0) + 0 = _
  rw [add_zero]

theorem chance_map (event : β → Prop) [DecidablePred event] (change : α → β) (outcomes : Chances α) :
    chance event (change <$> outcomes) = chance (fun outcome => event (change outcome)) outcomes := by
  change ((outcomes.run.map fun outcome => (change outcome.1, outcome.2)).map _).sum = _
  rw [List.map_map]
  rfl

theorem chance_scaled (event : α → Prop) [DecidablePred event] (factor : ℝ) (outcomes : List (α × ℝ)) :
    chance event (WriterT.mk (outcomes.map fun outcome => (outcome.1, factor * outcome.2))) =
      factor * chance event (WriterT.mk outcomes) := by
  simp only [chance, WriterT.run_mk, List.map_map, ← List.sum_map_mul_left]
  congr 2
  funext outcome
  simp only [Function.comp_apply, mul_ite, mul_zero]

theorem chance_toss (event : α → Prop) [DecidablePred event] (one : ℝ) (next : Bool → Chances α) :
    chance event (toss one >>= next) = one * chance event (next true) + (1 - one) * chance event (next false) := by
  have listed : toss one >>= next = WriterT.mk
      ((next true).run.map (fun outcome => (outcome.1, one * outcome.2)) ++
        ((next false).run.map (fun outcome => (outcome.1, (1 - one) * outcome.2)) ++ [])) := rfl
  have parted : ∀ first second : List (α × ℝ), chance event (WriterT.mk (first ++ second)) =
      chance event (WriterT.mk first) + chance event (WriterT.mk second) := by
    intro first second
    simp only [chance, WriterT.run_mk, List.map_append, List.sum_append]
  rw [listed, List.append_nil, parted, chance_scaled, chance_scaled]
  rfl

end Chances

namespace Probability

noncomputable scoped instance : Weight ℝ where
  zero := 0
  one := 1
  add first second := first + second
  sub first second := first - second
  less first second := decide (first < second)
  recipSqrt weight := 1 / Real.sqrt weight

noncomputable scoped instance : Amplitude ℂ ℝ where
  normSq := Complex.normSq
  scale amplitude factor := amplitude * factor

end Probability

open scoped Probability

namespace Statevector

variable (state : Statevector ℂ) (qubit : Nat) (outcome : Bool)

/-- The probability of finding a qubit with a value. -/
noncomputable def outcomeWeight : ℝ :=
  ∑ index ∈ Finset.range (2 ^ state.numQubits),
    if index.testBit qubit = outcome then Complex.normSq (state.wave index) else 0

theorem oneWeight_eq : (state.oneWeight qubit : ℝ) = state.outcomeWeight qubit true := by
  have added : ∀ (size : Nat) (weight : Nat → ℝ), Fin.foldl size (fun (total : ℝ) (index : Fin size) =>
      if index.val.testBit qubit then total + weight index else total) 0 =
      ∑ index ∈ Finset.range size, if index.testBit qubit = true then weight index else 0 := by
    intro size weight
    induction size with
    | zero => rfl
    | succ size ih =>
      rw [Fin.foldl_succ_last, Finset.sum_range_succ, ← ih]
      simp only [Fin.val_castSucc, Fin.val_last]
      split <;> simp
  have read : ∀ place : Fin (Nat.pow 2 state.numQubits), state.amplitudes[place] = state.wave place :=
    fun place => (Kernel.wave_of_lt state.amplitudes place.isLt).symm
  refine Eq.trans ?_ (added (Nat.pow 2 state.numQubits) fun index => Complex.normSq (state.wave index))
  simp only [← read]
  rfl

theorem outcomeWeight_add : state.outcomeWeight qubit true + state.outcomeWeight qubit false = state.normSq := by
  rw [normSq_eq_sum, outcomeWeight, outcomeWeight, ← Finset.sum_add_distrib]
  apply Finset.sum_congr rfl
  intro index _
  cases index.testBit qubit <;> simp

theorem outcomeWeight_nonneg : 0 ≤ state.outcomeWeight qubit outcome := by
  apply Finset.sum_nonneg
  intro index _
  split
  · exact Complex.normSq_nonneg _
  · exact le_rfl

variable {state qubit outcome}

/-- In a state of norm one the part that an outcome keeps is the weight of the outcome. -/
theorem kept_eq_outcomeWeight (normal : state.normSq = 1) (qubit : Nat) (outcome : Bool) :
    (if outcome then (state.oneWeight qubit : ℝ) else 1 - state.oneWeight qubit) = state.outcomeWeight qubit outcome := by
  have total := state.outcomeWeight_add qubit
  rw [normal] at total
  rw [oneWeight_eq]
  cases outcome with
  | true => rfl
  | false => exact (eq_sub_of_add_eq' total).symm

/-- No index with an impossible outcome has any weight. -/
theorem normSq_of_impossible (impossible : state.outcomeWeight qubit outcome = 0) {index : Nat}
    (inside : index < 2 ^ state.numQubits) (found : index.testBit qubit = outcome) :
    Complex.normSq (state.wave index) = 0 := by
  have terms := (Finset.sum_eq_zero_iff_of_nonneg fun index _ => by
    split
    · exact Complex.normSq_nonneg _
    · exact le_rfl).mp impossible index (Finset.mem_range.mpr inside)
  rwa [if_pos found] at terms

/-- A possible outcome keeps the amplitudes that have it, all by one factor. -/
theorem wave_project {one weight : ℝ} (kept : (if outcome then one else 1 - one) = weight) (positive : 0 < weight)
    (index : Nat) : (state.project qubit one outcome).wave index =
      if index.testBit qubit = outcome then state.wave index * (1 / Real.sqrt weight : ℝ) else 0 := by
  have factor : Kernel.renormalizer (ρ := ℝ) (if outcome then one else Weight.sub Weight.one one) =
      1 / Real.sqrt weight := by
    have known : (if outcome then one else Weight.sub Weight.one one) = weight := kept
    rw [known]
    exact if_pos (decide_eq_true positive)
  by_cases inside : index < Nat.pow 2 state.numQubits
  · have entry : (state.project qubit one outcome).wave index =
        if index.testBit qubit == outcome then state.wave index * (1 / Real.sqrt weight : ℝ) else 0 := by
      refine (Kernel.wave_of_lt _ inside).trans ?_
      rw [← factor, wave, Kernel.wave_of_lt state.amplitudes inside]
      exact Vector.getElem_mapIdx ..
    rw [entry]
    simp only [beq_iff_eq]
  · have outside := Nat.le_of_not_lt inside
    have before : state.wave index = 0 := Kernel.wave_of_le state.amplitudes outside
    have after : (state.project qubit one outcome).wave index = 0 := Kernel.wave_of_le _ outside
    rw [before, after, zero_mul, ite_self]

theorem normSq_wave_project {one weight : ℝ} (kept : (if outcome then one else 1 - one) = weight)
    (positive : 0 < weight) (index : Nat) :
    Complex.normSq ((state.project qubit one outcome).wave index) =
      if index.testBit qubit = outcome then Complex.normSq (state.wave index) / weight else 0 := by
  have root : Complex.normSq ((1 / Real.sqrt weight : ℝ) : ℂ) = 1 / weight := by
    rw [Complex.normSq_ofReal, div_mul_div_comm, Real.mul_self_sqrt positive.le, one_mul]
  rw [wave_project kept positive]
  split
  · rw [Complex.normSq_mul, root, mul_one_div]
  · exact Complex.normSq_zero

theorem normSq_project {one : ℝ} (kept : (if outcome then one else 1 - one) = state.outcomeWeight qubit outcome)
    (positive : 0 < state.outcomeWeight qubit outcome) : (state.project qubit one outcome).normSq = 1 := by
  have scaled : (state.project qubit one outcome).normSq =
      state.outcomeWeight qubit outcome / state.outcomeWeight qubit outcome := by
    rw [normSq_eq_sum]
    simp only [normSq_wave_project kept positive]
    nth_rewrite 2 [outcomeWeight]
    rw [Finset.sum_div]
    apply Finset.sum_congr rfl
    intro index _
    split
    · rfl
    · rw [zero_div]
  rw [scaled, div_self positive.ne']

end Statevector

/-- What measurements record of an index, on top of given bits. -/
def replayed (wires : List (Nat × Nat)) (bits : List Bool) (index : Nat) : List Bool :=
  wires.foldl (fun bits wire => bits.set wire.2 (index.testBit wire.1)) bits

namespace Shot

open Chances

theorem measureInto_toss (shot : Shot ℂ) (wire : Nat × Nat) :
    shot.measureInto toss wire = toss (shot.state.oneWeight wire.1) >>= fun outcome =>
      pure ⟨shot.state.project wire.1 (shot.state.oneWeight wire.1) outcome, shot.bits.set wire.2 outcome⟩ := by
  simp only [measureInto, Statevector.measure, bind_assoc, pure_bind]

/-- The chance that collapsing in turn records bits with a property is the weight of the indices whose bits have it. -/
theorem chance_measured (event : List Bool → Prop) [DecidablePred event] {wires : List (Nat × Nat)} {state : Statevector ℂ}
    (normal : state.normSq = 1) (bits : List Bool) :
    chance (fun shot => event shot.bits) (wires.foldlM (measureInto toss) ⟨state, bits⟩) =
      ∑ index ∈ Finset.range (2 ^ state.numQubits),
        if event (replayed wires bits index) then Complex.normSq (state.wave index) else 0 := by
  induction wires generalizing state bits with
  | nil =>
    rw [List.foldlM_nil, chance_pure]
    change (if event bits then (1 : ℝ) else 0) = ∑ index ∈ _, if event bits then Complex.normSq (state.wave index) else 0
    by_cases recorded : event bits
    · simp only [if_pos recorded, ← Statevector.normSq_eq_sum, normal]
    · simp only [if_neg recorded, Finset.sum_const_zero]
  | cons wire rest ih =>
    obtain ⟨qubit, clbit⟩ := wire
    let one : ℝ := state.oneWeight qubit
    have set : one = state.outcomeWeight qubit true := Statevector.kept_eq_outcomeWeight normal qubit true
    have clear : 1 - one = state.outcomeWeight qubit false := Statevector.kept_eq_outcomeWeight normal qubit false
    let next := fun outcome => rest.foldlM (measureInto toss) ⟨state.project qubit one outcome, bits.set clbit outcome⟩
    have branch : ∀ outcome, (if outcome then one else 1 - one) = state.outcomeWeight qubit outcome →
        state.outcomeWeight qubit outcome * chance (fun shot => event shot.bits) (next outcome) =
          ∑ index ∈ Finset.range (2 ^ state.numQubits), if index.testBit qubit = outcome then
            (if event (replayed rest (bits.set clbit outcome) index) then Complex.normSq (state.wave index) else 0)
          else 0 := by
      intro outcome kept
      rcases (state.outcomeWeight_nonneg qubit outcome).eq_or_lt with
        impossible | positive
      · rw [← impossible, zero_mul]
        symm
        apply Finset.sum_eq_zero
        intro index member
        split
        next found => simp [Statevector.normSq_of_impossible impossible.symm (Finset.mem_range.mp member) found]
        next => rfl
      · have left : (state.project qubit one outcome).normSq = 1 := Statevector.normSq_project kept positive
        rw [ih left (bits.set clbit outcome), Finset.mul_sum]
        apply Finset.sum_congr rfl
        intro index _
        rw [Statevector.normSq_wave_project kept positive]
        split
        · split
          · rw [mul_div_cancel₀ _ positive.ne']
          · rw [mul_zero]
        · rw [ite_self, mul_zero]
    have unrolled : ((qubit, clbit) :: rest).foldlM (measureInto toss) (⟨state, bits⟩ : Shot ℂ) = toss one >>= next := by
      rw [List.foldlM_cons, measureInto_toss, bind_assoc]
      simp only [pure_bind]
      rfl
    rw [unrolled, chance_toss, clear, set, branch true set, branch false clear, ← Finset.sum_add_distrib]
    apply Finset.sum_congr rfl
    intro index _
    change _ = if event (replayed rest (bits.set clbit (index.testBit qubit)) index) then _ else _
    cases index.testBit qubit <;> simp

end Shot

namespace Instruction

def connections : Instruction → List (Nat × Nat)
  | .measure qubits clbits => qubits.zip clbits
  | _ => []

theorem connections_measures (instructions : List Instruction) :
    (instructions.filter (·.isMeasure)).flatMap connections = instructions.flatMap connections := by
  induction instructions with
  | nil => rfl
  | cons instruction rest ih =>
    cases instruction with
    | measure qubits clbits => exact congrArg (qubits.zip clbits ++ ·) ih
    | gate | reset | barrier => exact ih

end Instruction

theorem Circuit.wiring_eq (circuit : Circuit) : circuit.wiring = circuit.instructions.toList.flatMap Instruction.connections :=
  Eq.trans rfl (Instruction.connections_measures _)

section Deterministic

variable [GateScalar ℂ] {m : Type → Type} [Monad m] [LawfulMonad m] (toss : ℝ → m Bool)

/-- After the first measurement a program that measures at its end has no gate. -/
theorem applyAll_of_measured {instructions : List Instruction} (ends : endsInMeasurements true instructions = true)
    (state : Statevector ℂ) : state.applyAll instructions = state := by
  induction instructions with
  | nil => rfl
  | cons instruction rest ih =>
    cases instruction with
    | gate call => cases ends
    | reset qubits => cases ends
    | measure qubits clbits => exact ih ends
    | barrier qubits => exact ih ends

/-- A program that measures at its end makes its gates first and then its measurements, and has no other effects. -/
theorem foldlM_step_of_ends {measured : Bool} {instructions : List Instruction}
    (ends : endsInMeasurements measured instructions = true) (shot : Shot ℂ) :
    instructions.foldlM (Shot.step toss) shot =
      (instructions.flatMap Instruction.connections).foldlM (Shot.measureInto toss)
        ⟨shot.state.applyAll instructions, shot.bits⟩ := by
  induction instructions generalizing measured shot with
  | nil => rfl
  | cons instruction rest ih =>
    cases instruction with
    | gate call =>
      have later : endsInMeasurements measured rest = true := (Bool.and_eq_true_iff.mp ends).2
      rw [List.foldlM_cons, Shot.step, pure_bind, ih later]
      rfl
    | reset qubits => cases measured <;> cases ends
    | measure qubits clbits =>
      have later : endsInMeasurements true rest = true := by cases measured <;> exact ends
      have still : shot.state.applyAll (.measure qubits clbits :: rest) = shot.state := applyAll_of_measured later _
      rw [List.foldlM_cons, still, List.flatMap_cons, List.foldlM_append]
      refine bind_congr fun next => ?_
      rw [ih later, applyAll_of_measured later]
    | barrier qubits =>
      have later : endsInMeasurements measured rest = true := by cases measured <;> exact ends
      rw [List.foldlM_cons, Shot.step, pure_bind, ih later]
      rfl

end Deterministic

namespace Circuit

open Chances

def finalState [GateScalar ℂ] (circuit : Circuit) : Statevector ℂ :=
  (Statevector.ground circuit.numQubits).applyAll circuit.instructions.toList

/-- The probability of sampling an index for which a bit text is recorded. -/
noncomputable def sampledChance [GateScalar ℂ] (circuit : Circuit) (text : String) : ℝ :=
  ∑ index : Fin (Nat.pow 2 circuit.finalState.numQubits),
    if bitText (recordedBits circuit.wiring circuit.numClbits index) = text then circuit.finalState.probabilities[index]
    else 0

/-- With unitary gates, a program that measures at its end gives every bit text the same probability when its final
state is sampled and when its measurements collapse the state one by one. -/
theorem chance_shot_eq_sampledChance [GateScalar ℂ] (unitary : UnitaryGates) {circuit : Circuit} (valid : circuit.Valid)
    (ends : circuit.measuresAtEnd = true) (text : String) :
    chance (fun bits => bitText bits = text) (circuit.shot toss (.ground circuit.numQubits : Statevector ℂ)) =
      circuit.sampledChance text := by
  have size : (Statevector.ground circuit.numQubits : Statevector ℂ).numQubits = circuit.numQubits := rfl
  obtain ⟨-, norm⟩ := Statevector.normSq_applyAll unitary (fun _ _ member => valid.call member) size
  have normal : circuit.finalState.normSq = 1 := norm.trans (Statevector.normSq_ground _)
  have collapsed : circuit.shot toss (.ground circuit.numQubits : Statevector ℂ) = (·.bits) <$>
      circuit.wiring.foldlM (Shot.measureInto toss) ⟨circuit.finalState, List.replicate circuit.numClbits false⟩ := by
    rw [wiring_eq, shot, foldlM_step_of_ends toss ends]
    exact bind_pure_comp _ _
  rw [collapsed, chance_map, Shot.chance_measured (fun bits => bitText bits = text) normal, sampledChance,
    Finset.sum_range]
  apply Finset.sum_congr rfl
  intro index _
  have entry : circuit.finalState.probabilities[index] = Complex.normSq (circuit.finalState.wave index) := by
    rw [Statevector.wave, Kernel.wave_of_lt _ index.isLt]
    exact Vector.getElem_map ..
  rw [entry]
  rfl

/-- One qubit is measured twice, the second time over the bit of the other one. -/
def overwritten : Circuit := ⟨"overwritten", 3, 2, #[.elementary .h [0], .elementary (.p (.div .pi (.const 4))) [0],
  .elementary .cx [0, 1], .barrier [0, 1] [], .measure [0, 1] [0, 1], .measure [0] [1]]⟩

noncomputable def eighthTurn? : Elementary → Option (QubitMatrix ℂ)
  | .p _ => some ⟨1, 0, 0, eighthRoot⟩
  | _ => none

theorem overwritten_chance : overwritten.Valid ∧ overwritten.measuresAtEnd = true ∧
    ∃ _ : GateScalar ℂ, GateScalar.rotation? (.p (.div .pi (.const 4))) = some ⟨1, 0, 0, eighthRoot⟩ ∧
      UnitaryGates ∧ chance (fun bits => bitText bits = "11")
        (overwritten.shot toss (.ground 3 : Statevector ℂ)) = overwritten.sampledChance "11" := by
  have fits : overwritten.Fits := (ofInstructions_eq_ok_iff.mp
    (show ofInstructions "overwritten" 3 2 overwritten.instructions.toList = .ok overwritten from rfl)).1
  have parts : ∀ call clbits, .gate call clbits ∈ overwritten.instructions.toList → call.gate.WellFormed := by
    intro call clbits member
    have listed : call = ⟨.ofKind .h, [0]⟩ ∧ clbits = [] ∨ call = ⟨.ofKind (.p (.div .pi (.const 4))), [0]⟩ ∧ clbits = [] ∨
        call = ⟨.ofKind .cx, [0, 1]⟩ ∧ clbits = [] := by
      simpa [overwritten, Instruction.elementary, Instruction.apply] using member
    rcases listed with ⟨rfl, _⟩ | ⟨rfl, _⟩ | ⟨rfl, _⟩
    all_goals
      simp only [Gate.ofKind, Gate.WellFormed]
  have valid : overwritten.Valid := ⟨⟨by decide, by decide, fits⟩, parts⟩
  have unit : (⟨1, 0, 0, eighthRoot⟩ : QubitMatrix ℂ).Unitary := QubitMatrix.unitary_diagonal norm_eighthRoot
  let _ : GateScalar ℂ := withRotations eighthTurn?
  have unitary : UnitaryGates := by
    apply unitaryGates_withRotations
    intro gate matrix found
    cases gate with
    | p angle => exact Option.some.inj found ▸ unit
    | _ => cases found
  exact ⟨valid, rfl, inferInstance, rfl, unitary, chance_shot_eq_sampledChance unitary valid rfl "11"⟩

end Circuit

end CircuitCloak

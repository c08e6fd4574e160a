import CircuitCloak.Circuit.Builder
import CircuitCloak.Proofs.Fitting

/-! What building a circuit in place preserves. Every instruction of a circuit fits its registers, whose
sizes stay words, and a step that is refused has changed nothing: the one step that changes a register
before it offers an instruction is never refused. -/

namespace CircuitCloak

namespace Build

variable {α β : Type}

theorem outcome_bind (build : Build α) (next : α → Build β) (circuit : Circuit) :
    outcome (build >>= next) circuit =
      match outcome build circuit with
      | (.ok value, changed) => outcome (next value) changed
      | (.error halt, changed) => (.error halt, changed) := by
  unfold outcome
  rw [ExceptT.run_bind, StateT.run_bind]
  rcases StateT.run (ExceptT.run build) circuit with ⟨_ | _, changed⟩ <;> rfl

theorem outcome_get (circuit : Circuit) : outcome get circuit = (.ok circuit, circuit) := rfl

theorem outcome_set (circuit changed : Circuit) : outcome (set changed) circuit = (.ok (), changed) := rfl

theorem outcome_lift (result : Except (Halt CircuitError) α) (circuit : Circuit) :
    outcome (liftM result) circuit = (result, circuit) := by
  cases result <;> rfl

/-- A computation either gives a circuit or has changed nothing. -/
def answer (circuit : Circuit) : Except (Halt CircuitError) Circuit → Except (Halt CircuitError) Unit × Circuit
  | .ok next => (.ok (), next)
  | .error halt => (.error halt, circuit)

theorem push_outcome (circuit : Circuit) (instruction : Instruction) :
    outcome (push instruction) circuit = answer circuit (refusing (circuit.push instruction)) := by
  unfold push Circuit.push
  simp only [outcome_bind, outcome_get, outcome_lift, outcome_set]
  cases instruction.validate circuit.numQubits circuit.numClbits <;> rfl

/-- The measurement of every qubit is never refused. -/
theorem measureAll_outcome (circuit : Circuit) :
    outcome measureAll circuit = answer circuit (refusing circuit.measureAll) := by
  have measured (numClbits : Nat) (enough : circuit.numQubits ≤ numClbits) :
      outcome (push (.measure (List.range circuit.numQubits) (List.range circuit.numQubits)))
        { circuit with numClbits } = (.ok (), { circuit with
          numClbits
          instructions := circuit.instructions.push
            (.measure (List.range circuit.numQubits) (List.range circuit.numQubits)) }) := by
    rw [push_outcome, Circuit.push_eq_ok_iff.mpr ⟨Circuit.fits_measureAll enough, rfl⟩]
    rfl
  have paired : Instruction.measureInto (List.range circuit.numQubits) (List.range circuit.numQubits) = .ok _ := if_pos rfl
  have whole := Circuit.measureAll_eq_ok_iff.mpr
    (Circuit.push_eq_ok_iff.mpr ⟨Circuit.fits_measureAll (Nat.le_max_right circuit.numClbits _), rfl⟩)
  rw [whole]
  unfold measureAll
  by_cases narrow : circuit.numClbits < circuit.numQubits
  · have wide : max circuit.numClbits circuit.numQubits = circuit.numQubits := Nat.max_eq_right (Nat.le_of_lt narrow)
    simp only [outcome_bind, outcome_get, if_pos narrow, outcome_set, paired, wide]
    exact measured circuit.numQubits (Nat.le_refl _)
  · have wide : max circuit.numClbits circuit.numQubits = circuit.numClbits := Nat.max_eq_left (Nat.le_of_not_lt narrow)
    simp only [outcome_bind, outcome_get, if_neg narrow, paired, wide]
    exact measured circuit.numClbits (Nat.le_of_not_lt narrow)

theorem addQubits_outcome (circuit : Circuit) (size : Nat) :
    outcome (perform (.growQubits size)) circuit = answer circuit (circuit.growQubits size) := by
  unfold perform addQubits Circuit.growQubits
  simp only [outcome_bind, outcome_get, outcome_lift, outcome_set]
  cases (addSizes circuit.numQubits size : Except (Halt CircuitError) Nat) <;> rfl

theorem addClbits_outcome (circuit : Circuit) (size : Nat) :
    outcome (perform (.growClbits size)) circuit = answer circuit (circuit.growClbits size) := by
  unfold perform addClbits Circuit.growClbits
  simp only [outcome_bind, outcome_get, outcome_lift, outcome_set]
  cases (addSizes circuit.numClbits size : Except (Halt CircuitError) Nat) <;> rfl

/-- A step in place does what the step of a circuit does, and where that gives none it has changed
nothing. -/
theorem perform_outcome (circuit : Circuit) (step : Circuit.Step) :
    outcome (perform step) circuit = answer circuit (circuit.step step) := by
  cases step with
  | push instruction => exact push_outcome circuit instruction
  | apply gate qubits => exact push_outcome circuit (.apply gate qubits)
  | measure qubit clbit => exact push_outcome circuit (.measure [qubit] [clbit])
  | measureAll => exact measureAll_outcome circuit
  | reset qubit => exact push_outcome circuit (.reset [qubit] [])
  | barrier qubits => exact push_outcome circuit (.barrier qubits [])
  | growQubits size => exact addQubits_outcome circuit size
  | growClbits size => exact addClbits_outcome circuit size
  | rename name => rfl

end Build

namespace Circuit

open Build

variable {circuit : Circuit}

/-- The circuits that steps in place can build, whether taken or not, from registers whose sizes are
words. -/
inductive Built : Circuit → Prop where
  | empty {name numQubits numClbits} (qubits : numQubits < wordCount) (clbits : numClbits < wordCount) :
    Built (empty name numQubits numClbits)
  | step {circuit step} (built : Built circuit) : Built (outcome (perform step) circuit).2

theorem Built.sound (built : Built circuit) : circuit.Sound := by
  induction built with
  | empty qubits clbits => exact ⟨qubits, clbits, nofun⟩
  | @step circuit step _ ih =>
    rw [perform_outcome]
    cases done : circuit.step step with
    | ok next => exact ih.takes (takes_of_step done)
    | error halt => exact ih

/-- The instructions of a circuit that they fit, built again, give the circuit. -/
theorem Fits.replay (fits : circuit.Fits) :
    ofInstructions circuit.name circuit.numQubits circuit.numClbits circuit.instructions.toList = .ok circuit :=
  ofInstructions_eq_ok_iff.mpr ⟨fits, rfl⟩

/-- After every step, taken or not: every instruction of the circuit suits its registers, whose sizes are
words; a step that is not taken next leaves the circuit as it is; the instructions, built again, give the
circuit; and a step in place is taken where the step of a circuit is, with the same result. -/
theorem built_invariant (built : Built circuit) :
    (circuit.numQubits < wordCount ∧ circuit.numClbits < wordCount ∧
      ∀ instruction ∈ circuit.instructions.toList, instruction.Suits circuit.numQubits circuit.numClbits) ∧
    (∀ step halt, (outcome (perform step) circuit).1 = .error halt → (outcome (perform step) circuit).2 = circuit) ∧
    ofInstructions circuit.name circuit.numQubits circuit.numClbits circuit.instructions.toList = .ok circuit ∧
    ∀ step, outcome (perform step) circuit =
      match circuit.step step with
      | .ok next => (.ok (), next)
      | .error halt => (.error halt, circuit) := by
  have sound := built.sound
  refine ⟨⟨sound.qubits, sound.clbits, fun instruction member => ?_⟩, fun step halt failed => ?_, sound.fits.replay,
    fun step => ?_⟩
  · exact (Instruction.fits_iff_suits sound.qubits).mp (sound.fits instruction member)
  · rw [perform_outcome] at failed ⊢
    cases done : circuit.step step with
    | ok next =>
      rw [done] at failed
      cases failed
    | error halt => rfl
  · rw [perform_outcome]
    cases circuit.step step <;> rfl

/-- A gate is offered with a classical bit that is not there, and a register that is too large; then every
qubit is measured. -/
def measured : Circuit :=
  (outcome (perform .measureAll)
    (outcome (perform (.growQubits 4294967295))
      (outcome (perform (.push (.gate ⟨.ofKind .h, [0]⟩ [7]))) (empty "measured" 2 0)).2).2).2

/-- Of the three steps only the measurement is kept. -/
theorem built_invariant_measured : Built measured ∧ measured.instructions.toList = [.measure [0, 1] [0, 1]] ∧
    ofInstructions measured.name measured.numQubits measured.numClbits measured.instructions.toList = .ok measured := by
  have start : Built (empty "measured" 2 0) := .empty (by decide) (by decide)
  have built : Built measured := .step (.step (.step start))
  exact ⟨built, rfl, (built_invariant built).2.2.1⟩

end Circuit

end CircuitCloak

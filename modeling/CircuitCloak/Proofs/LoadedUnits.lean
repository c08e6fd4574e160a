import CircuitCloak.Proofs.EncapsulatedTexts
import CircuitCloak.Proofs.InsertedGates

/-! Units in what is loaded and in what strategies make of it. Every instruction fits the registers and every unit is
well formed at every depth, so expanding one never looks for an operand that is not there. -/

namespace CircuitCloak
open CircuitCloak.Random Qasm

mutual

/-- The expansion of a gate, if every local qubit on its way stands for an operand. -/
def Gate.expand? : Gate → List Nat → Option (List Application)
  | .elementary kind label, operands => some [⟨.elementary kind label, operands⟩]
  | .composite ⟨_, _, body⟩ _, operands => Application.expandBody? body operands

def Application.expandBody? : List Application → List Nat → Option (List Application)
  | [], _ => some []
  | ⟨gate, qubits⟩ :: rest, operands => do
    let mapped ← qubits.mapM fun qubit => operands[qubit]?
    let first ← gate.expand? mapped
    let others ← Application.expandBody? rest operands
    return first ++ others

end

private theorem mapM_getElem? {operands locals : List Nat} (inside : ∀ qubit ∈ locals, qubit < operands.length) :
    (locals.mapM fun qubit => operands[qubit]?) = some (mapOperands operands locals) := by
  induction locals with
  | nil => rfl
  | cons qubit rest ih =>
    obtain ⟨first, others⟩ := List.forall_mem_cons.mp inside
    rw [List.mapM_cons, List.getElem?_eq_getElem first, ih others, mapOperands, mapOperands, List.map_cons,
      getD_of_lt first]
    rfl

mutual

theorem Gate.expand?_eq : ∀ {gate : Gate} {operands : List Nat}, gate.WellFormed → operands.length = gate.arity →
    gate.expand? operands = some (gate.expand operands)
  | .elementary _ _, _, _, _ => by rw [Gate.expand?, Gate.expand]
  | .composite ⟨_, _, _⟩ _, _, formed, length => by
    rw [Gate.expand?, Gate.expand]
    rw [Gate.WellFormed] at formed
    exact Application.expandBody?_eq formed length

theorem Application.expandBody?_eq {arity : Nat} : ∀ {body : List Application} {operands : List Nat},
    Application.WellFormedBody arity body → operands.length = arity →
    Application.expandBody? body operands = some (Application.expandBody body operands)
  | [], _, _, _ => by rw [Application.expandBody?, Application.expandBody]
  | ⟨gate, qubits⟩ :: rest, operands, formed, length => by
    rw [Application.WellFormedBody] at formed
    obtain ⟨⟨fits, locals, deep⟩, others⟩ := formed
    have mapped : (mapOperands operands qubits).length = gate.arity := by rw [mapOperands, List.length_map, fits]
    rw [Application.expandBody?, mapM_getElem? fun qubit member => length ▸ locals.inside qubit member,
      Application.expandBody]
    simp only [Option.bind_eq_bind, Option.bind_some, Gate.expand?_eq deep mapped,
      Application.expandBody?_eq others length]
    rfl

end

/-- Every gate of the circuit can be expanded, into elementary gates on its operands: as many as they take, each
once, and all in the register. -/
def Circuit.Expands (circuit : Circuit) : Prop :=
  ∀ call clbits, .gate call clbits ∈ circuit.instructions.toList → call.gate.expand? call.qubits = some call.expand ∧
    ∀ leaf ∈ call.expand, leaf.Leaf circuit.numQubits call.qubits

theorem Circuit.Valid.expands {circuit : Circuit} (valid : circuit.Valid) : circuit.Expands := by
  intro call clbits member
  have held := valid.call member
  exact ⟨Gate.expand?_eq held.gate held.length, held.leaves⟩

/-- The gate of an instruction, if it has one, is well formed at every depth. -/
def Instruction.WellFormed : Instruction → Prop
  | .gate call _ => call.gate.WellFormed
  | _ => True

theorem Encapsulation.wellFormed_wrapping (name : String) (calls : List Application) (wrappable : Wrappable calls)
    (parts : ∀ call ∈ calls, (Instruction.gate call []).WellFormed) :
    (Instruction.gate (wrapping name calls) []).WellFormed := by
  have made := Composite.ofInstructions_eq_ok name (Composite.fits_wrapOperands wrappable.formed wrappable.small)
  refine Composite.wellFormed_of_ofInstructions (fun call member => ?_) made none
  obtain ⟨count, original, stored, same⟩ := wrappable.original member
  exact ⟨count, same ▸ parts original stored⟩

namespace Circuit

variable {circuit output : Circuit} {σ : Type} [WordSource σ]

theorem Valid.body (valid : circuit.Valid) : ∀ instruction ∈ circuit.body, instruction.WellFormed := by
  intro instruction member
  cases instruction with
  | gate call clbits => exact valid.gates call clbits (List.mem_filter.mp member).1
  | measure | reset | barrier => trivial

/-- A circuit with a new body is valid if the body is well formed and all of it fits. -/
theorem Valid.rebuilt (valid : circuit.Valid) {body : List Instruction}
    (fits : ∀ instruction ∈ body ++ circuit.measurements, instruction.Fits circuit.numQubits circuit.numClbits)
    (gates : ∀ instruction ∈ body, instruction.WellFormed) : (circuit.rebuilt body).Valid := by
  refine ⟨⟨valid.sound.qubits, valid.sound.clbits, fits⟩, fun call clbits member => ?_⟩
  rcases List.mem_append.mp member with inBody | last
  · exact gates _ inBody
  · exact absurd (isMeasure_of_measurements _ last) Bool.false_ne_true

/-- Whatever a strategy gives back for a valid circuit is valid. -/
theorem Valid.apply {library : Library} (sound : library.Sound) (valid : circuit.Valid) {strategy : Strategy}
    {options : TransformOptions} {source : σ}
    (done : ((strategy.apply circuit library options : Transform σ Circuit).run source).1 = .ok output) :
    output.Valid := by
  obtain ⟨body, outcome, made⟩ := Strategy.outcome_of_apply sound done
  obtain ⟨fits, rfl⟩ := fits_of_withBody made
  exact valid.rebuilt fits
    (Strategy.forall_outcome (fun _ _ _ => trivial) Encapsulation.wellFormed_wrapping sound valid.body outcome)

end Circuit

namespace Qasm

theorem valid_of_load {source : String} {circuit : Circuit} {dialect : Dialect}
    (loaded : load source = .ok (circuit, dialect)) : circuit.Valid :=
  ⟨(reachable_of_load loaded).sound, fun _ _ member => ((sayable_of_load loaded).instructions _ member).1⟩

/-- Everything that is loaded is valid, at every depth, and every strategy makes something valid of it. So every gate
in these circuits can be expanded, into elementary gates on different qubits of the register. -/
theorem units_of_load {source : String} {circuit : Circuit} {dialect : Dialect}
    (loaded : load source = .ok (circuit, dialect)) :
    circuit.Valid ∧ circuit.Expands ∧
      ∀ (σ : Type) [WordSource σ] (strategy : Strategy) (options : TransformOptions) (random : σ),
        options.validate = .ok () → ∃ output,
          ((strategy.apply circuit .builtin options : Transform σ Circuit).run random).1 = .ok output ∧
            output.Valid ∧ output.Expands := by
  have valid := valid_of_load loaded
  have sound := Library.sound_of_validate Library.builtin_validates Library.builtin_operandsInside
  refine ⟨valid, valid.expands, fun σ _ strategy options random accepted => ?_⟩
  obtain ⟨output, done⟩ :=
    (Strategy.apply_succeeds_iff random sound Library.builtin_operandsInside accepted valid.sound).mpr
      (Strategy.wrapsBare_of_bare (bare_of_load loaded) : strategy.WrapsBare options circuit random)
  have whole := valid.apply sound done
  exact ⟨output, done, whole, whole.expands⟩

open Encapsulation in
/-- A single gate is loaded, and encapsulated into a valid circuit. -/
theorem units_of_load_single : load "OPENQASM 2;qreg q[1];h q[0];" = .ok (single, .qasm2) ∧ single.Valid ∧
    TransformOptions.validate {} = .ok () ∧ ∃ output,
      ((Strategy.composite.apply single .builtin {} : Transform SplitMix Circuit).run ⟨0⟩).1 = .ok output ∧
        output.Valid ∧ output.Expands := by
  obtain ⟨valid, _, strategies⟩ := units_of_load load_single
  exact ⟨load_single, valid, TransformOptions.validate_standard,
    strategies SplitMix .composite {} ⟨0⟩ TransformOptions.validate_standard⟩

end Qasm

end CircuitCloak

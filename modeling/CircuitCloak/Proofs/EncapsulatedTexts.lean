import CircuitCloak.Proofs.BoundarySafety
import CircuitCloak.Proofs.Reloading

/-! Texts of encapsulated circuits. The blocks and the wrapped gates can be written as long as the label can name a
gate, and wrapping brings no new numbers; so what can be written can be written after it was encapsulated. -/

namespace CircuitCloak
open Qasm

/-- An instruction that can be written and read again. -/
structure Instruction.Rereadable (instruction : Instruction) : Prop where
  sayable : SayableInstruction instruction
  sized : SizedAngles instruction.angles

theorem Qasm.SayableGate.arity_pos {gate : Gate} (sayable : SayableGate gate) : 0 < gate.arity := by
  cases gate with
  | elementary kind => cases kind <;> exact Nat.succ_pos _
  | composite composite =>
    obtain ⟨name, arity, body⟩ := composite
    rw [SayableGate] at sayable
    exact sayable.2.1

namespace Encapsulation

/-- Wrapped gates are written under the label, if that can name a gate. -/
theorem rereadable_wrapping {name : String} (named : GateNamed name) {calls : List Application}
    (some : Composite.wrapOperands calls ≠ []) (wrappable : Wrappable calls)
    (rereadable : ∀ call ∈ calls, (Instruction.gate call []).Rereadable) :
    (Instruction.gate (wrapping name calls) []).Rereadable := by
  have made := Composite.ofInstructions_eq_ok name (Composite.fits_wrapOperands wrappable.formed wrappable.small)
  refine ⟨sayable_ofInstructions named (List.length_pos_of_ne_nil some) (fun call member => ?_) made none, ?_⟩
  · obtain ⟨count, original, stored, same⟩ := wrappable.original member
    exact ⟨count, same ▸ (rereadable original stored).sayable⟩
  · have all : ∀ calls : List Application, (∀ call ∈ calls, (Instruction.gate call []).Rereadable) → ∀ operands,
        SizedAngles (Application.anglesBody (calls.map (·.localized operands))) := by
      intro calls rereadable operands
      induction calls with
      | nil => exact nofun
      | cons call rest ih =>
        obtain ⟨first, others⟩ := List.forall_mem_cons.mp rereadable
        exact sizedAngles_append.mpr ⟨first.sized, ih others⟩
    exact all calls rereadable _

theorem rereadable_ofKind {kind : Elementary} (discrete : kind.isDiscrete = true) (qubits : List Nat) :
    (Instruction.elementary kind qubits).Rereadable := by
  have none : kind.angles = [] := List.isEmpty_iff.mp discrete
  refine ⟨sayable_ofKind fun angle member => ?_, fun angle member => ?_⟩
  · rw [none] at member
    cases member
  · change angle ∈ (Gate.ofKind kind).angles at member
    rw [Gate.ofKind, Gate.angles, none] at member
    cases member

theorem rereadable_blockRow {name : String} (named : GateNamed name) {gates : List Elementary} (some : gates ≠ [])
    (discrete : ∀ gate ∈ gates, gate.isDiscrete = true ∧ gate.arity = 1) (frame : Frame) :
    ∀ instruction ∈ blockRow name gates frame, instruction.Rereadable := by
  intro instruction member
  obtain ⟨qubit, _, rfl⟩ := List.mem_map.mp member
  have single : ∀ gate ∈ gates, gate.arity = 1 := fun gate member => (discrete gate member).2
  refine rereadable_wrapping named ?_ (wrappable_blockCalls single qubit) fun call within => ?_
  · obtain ⟨gate, rest, rfl⟩ := List.exists_cons_of_ne_nil some
    exact List.ne_nil_of_mem (Composite.mem_wrapOperands (List.mem_cons_self (a := ⟨.ofKind gate, [qubit]⟩)) qubit
      (List.mem_singleton_self qubit))
  · obtain ⟨gate, stored, rfl⟩ := List.mem_map.mp within
    exact rereadable_ofKind (discrete gate stored).1 [qubit]

theorem rereadable_wrapped {label : String} (named : GateNamed label) {instruction result : Instruction}
    (rereadable : instruction.Rereadable) (wrapped : Wrapped label instruction result) : result.Rereadable := by
  cases wrapped with
  | kept => exact rereadable
  | @wrapped call _ wrappable =>
    have some : call.qubits ≠ [] := by
      refine List.ne_nil_of_length_pos ?_
      rw [(wrappable.formed call List.mem_cons_self).1]
      exact rereadable.sayable.2.arity_pos
    obtain ⟨qubit, rest, same⟩ := List.exists_cons_of_ne_nil some
    refine rereadable_wrapping named ?_ wrappable (List.forall_mem_singleton.mpr rereadable)
    exact List.ne_nil_of_mem (Composite.mem_wrapOperands (List.mem_singleton_self call) qubit (same ▸ List.mem_cons_self))

/-- The blocks can be written, and so can the body between them. -/
theorem rereadable_enclosed {library : Library} (sound : library.Sound) (camouflaged : library.camouflage ≠ [])
    (restored : library.restore ≠ []) {label : String} (named : GateNamed label) {body output : List Instruction}
    {frame : Frame} (rereadable : ∀ instruction ∈ body, instruction.Rereadable)
    (enclosed : Enclosed library label body frame output) :
    ∀ instruction ∈ output, instruction.Rereadable := by
  have identifier : ∀ name ∈ [auxiliaryName, restoreName], GateNamed name := by
    refine List.forall_mem_cons.mpr ⟨.inl ?_, List.forall_mem_singleton.mpr (.inl ?_)⟩
    all_goals exact isIdentifier_of_spelled ⟨⟨_, _, rfl, rfl⟩, List.all_eq_true.mp rfl⟩ rfl
  rcases enclosed with ⟨_, rfl⟩ | ⟨wrapped, parts, rfl⟩
  · exact List.forall_mem_nil _
  · refine List.forall_mem_append.mpr ⟨List.forall_mem_append.mpr ⟨?_, fun instruction member => ?_⟩, ?_⟩
    · exact rereadable_blockRow (identifier _ (by simp)) camouflaged sound.camouflage frame
    · obtain ⟨original, stored, made⟩ := exists_mem_of_forall₂ parts member
      exact rereadable_wrapped named (rereadable original stored) made
    · exact rereadable_blockRow (identifier _ (by simp)) restored sound.restore frame

end Encapsulation

namespace Circuit

structure Rereadable (circuit : Circuit) : Prop where
  sound : circuit.Sound
  instructions : ∀ instruction ∈ circuit.instructions.toList, instruction.Rereadable

theorem Rereadable.sayable {circuit : Circuit} (rereadable : circuit.Rereadable) : circuit.Sayable :=
  ⟨rereadable.sound, fun instruction member => (rereadable.instructions instruction member).sayable⟩

theorem Rereadable.loaded_again {circuit : Circuit} (rereadable : circuit.Rereadable) (dialect : Dialect) :
    ∃ loaded, load (write dialect circuit) = .ok (loaded, dialect) ∧ loaded.numQubits = circuit.numQubits ∧
      loaded.numClbits = circuit.numClbits ∧ loaded.numGates = circuit.numGates := by
  refine (load_write_sayable_iff rereadable.sayable dialect).mpr (sized_iff_printable.mp ?_)
  exact sizedAngles_iff.mpr fun instruction member => (rereadable.instructions instruction member).sized

theorem Sayable.rereadable {circuit : Circuit} (sayable : circuit.Sayable) {dialect : Dialect} {loaded : Circuit}
    (parsed : parse dialect (write dialect circuit) = .ok loaded) : circuit.Rereadable := by
  have sized := sizedAngles_iff.mp (sized_iff_printable.mpr (printable_of_parse sayable parsed))
  exact ⟨sayable.sound, fun instruction member =>
    ⟨sayable.instructions instruction member, sized instruction member⟩⟩

end Circuit

namespace Encapsulation
open CircuitCloak.Random

variable {σ : Type} [WordSource σ]

/-- Encapsulation keeps a circuit such that it can be written and read again, if the label can name a gate and no gate
has classical bits. -/
theorem rereadable_apply {library : Library} (accepted : library.validate = .ok ()) (inside : library.OperandsInside)
    (camouflaged : library.camouflage ≠ []) (restored : library.restore ≠ []) {options : TransformOptions}
    (validated : options.validate = .ok ()) (named : GateNamed options.label) {circuit : Circuit}
    (rereadable : circuit.Rereadable)
    (bare : ∀ instruction ∈ circuit.instructions.toList, instruction.isGate = true → instruction.clbits = [])
    (source : σ) : ∃ output,
      ((Strategy.composite.apply circuit library options : Transform σ Circuit).run source).1 = .ok output ∧
        output.Rereadable := by
  have sound := Library.sound_of_validate accepted inside
  have fits := rereadable.sound.fits
  obtain ⟨output, done⟩ := (Strategy.apply_succeeds_iff source sound inside validated rereadable.sound).mpr
    (Strategy.wrapsBare_of_bare bare : Strategy.composite.WrapsBare options circuit source)
  refine ⟨output, done, ?_⟩
  have kept := Strategy.kept_of_apply sound inside fits done
  obtain ⟨body, outcome, _, rfl⟩ := Strategy.rebuilt_of_apply sound inside fits done
  refine ⟨⟨rereadable.sound.qubits, rereadable.sound.clbits, kept.fits⟩,
    List.forall_mem_append.mpr ⟨?_, fun instruction member => ?_⟩⟩
  · exact rereadable_enclosed sound camouflaged restored named
      (fun instruction member => rereadable.instructions instruction (List.mem_filter.mp member).1) outcome
  · exact rereadable.instructions instruction (List.mem_filter.mp member).1

/-- If the text of a loaded circuit is loaded again, so is the text of the encapsulated circuit, under every label that
can name a gate, with the same registers and as many gates. -/
theorem load_write_encapsulated {text : String} {circuit : Circuit} {origin : Dialect}
    (loaded : load text = .ok (circuit, origin)) {dialect : Dialect} {again : Circuit × Dialect}
    (own : load (write dialect circuit) = .ok again) {options : TransformOptions} (validated : options.validate = .ok ())
    (named : GateNamed options.label) (source : σ) : ∃ output,
      ((Strategy.composite.apply circuit .builtin options : Transform σ Circuit).run source).1 = .ok output ∧
        ∃ reloaded, load (write dialect output) = .ok (reloaded, dialect) ∧ reloaded.numQubits = output.numQubits ∧
          reloaded.numClbits = output.numClbits ∧ reloaded.numGates = output.numGates := by
  have sayable := sayable_of_load loaded
  obtain ⟨_, parsed⟩ := (load_eq_ok_iff (falls_write dialect sayable.sayable)).mp own
  obtain ⟨output, done, rereadable⟩ := rereadable_apply Library.builtin_validates Library.builtin_operandsInside
    (List.cons_ne_nil _ _) (by decide) validated named (sayable.rereadable parsed) (bare_of_load loaded) source
  exact ⟨output, done, rereadable.loaded_again dialect⟩

def single : Circuit := ⟨"circuit", 1, 0, #[.elementary .h [0]]⟩

theorem statements_single : statements .qasm2 "OPENQASM 2;qreg q[1];h q[0];" =
    .ok [.quantumRegister "q" 1, .gate ⟨"h", [], [elementOperand "q" 0]⟩] := by
  have cut : lexemes "OPENQASM 2;qreg q[1];h q[0];" = .ok ([(.keyword .header, 0), (.integer 2, 9),
      (.mark .semicolon, 10), (.keyword .qreg, 11), (.identifier "q", 16), (.mark .leftBracket, 17), (.integer 1, 18),
      (.mark .rightBracket, 19), (.mark .semicolon, 20), (.identifier "h", 21), (.identifier "q", 23),
      (.mark .leftBracket, 24), (.integer 0, 25), (.mark .rightBracket, 26), (.mark .semicolon, 27)].map
        placedOnFirstLine) := by decide +kernel
  unfold statements
  rw [cut]
  rfl

theorem load_single : load "OPENQASM 2;qreg q[1];h q[0];" = .ok (single, .qasm2) := by
  have parsed : parse .qasm2 "OPENQASM 2;qreg q[1];h q[0];" = .ok single := parse_eq_ok_iff.mpr ⟨_, statements_single, rfl⟩
  unfold load
  rw [parsed]

theorem rereadable_single : single.Rereadable :=
  ⟨⟨by decide, by decide, List.forall_mem_singleton.mpr rfl⟩, List.forall_mem_singleton.mpr (rereadable_ofKind rfl [0])⟩

theorem load_write_encapsulated_single :
    load "OPENQASM 2;qreg q[1];h q[0];" = .ok (single, .qasm2) ∧ TransformOptions.validate {} = .ok () ∧ ∃ output,
      ((Strategy.composite.apply single .builtin {} : Transform SplitMix Circuit).run ⟨0⟩).1 = .ok output ∧
        ∃ reloaded, load (write .qasm3 output) = .ok (reloaded, .qasm3) ∧ reloaded.numQubits = output.numQubits ∧
          reloaded.numClbits = output.numClbits ∧ reloaded.numGates = output.numGates := by
  obtain ⟨again, own, _⟩ := rereadable_single.loaded_again .qasm3
  have named : GateNamed ({} : TransformOptions).label :=
    .inl (isIdentifier_of_spelled ⟨⟨_, _, rfl, rfl⟩, List.all_eq_true.mp rfl⟩ rfl)
  have result := load_write_encapsulated load_single own TransformOptions.validate_standard named (⟨0⟩ : SplitMix)
  exact ⟨load_single, TransformOptions.validate_standard, result⟩

/-- Something was made whose text is not loaded. -/
def isLost : Except TransformError Circuit → Bool
  | .ok output => !(load (write .qasm2 output)).isOk
  | .error _ => false

theorem exists_of_isLost {outcome : Except TransformError Circuit} (lost : isLost outcome = true) :
    ∃ output, outcome = .ok output ∧ ¬∃ again, load (write .qasm2 output) = .ok again := by
  cases outcome with
  | error fault => cases lost
  | ok output =>
    refine ⟨output, rfl, ?_⟩
    rintro ⟨again, done⟩
    rw [isLost, done] at lost
    cases lost

/-- Options with a label of two words, under which every gate is wrapped. -/
def misnaming : TransformOptions := { probability := 1, label := "my gate" }

/-- A label that is accepted but cannot name a gate spoils the text. -/
theorem encapsulated_misnamed_lost :
    load "OPENQASM 2;qreg q[1];h q[0];" = .ok (single, .qasm2) ∧ (∃ again, load (write .qasm2 single) = .ok again) ∧
      misnaming.validate = .ok () ∧ ∃ output,
        ((Strategy.composite.apply single .builtin misnaming : Transform SplitMix Circuit).run ⟨0⟩).1 = .ok output ∧
          ¬∃ again, load (write .qasm2 output) = .ok again := by
  obtain ⟨again, own, _⟩ := rereadable_single.loaded_again .qasm2
  have accepted : misnaming.validate = .ok () := if_pos (by decide +kernel)
  exact ⟨load_single, ⟨_, own⟩, accepted, exists_of_isLost (by decide +kernel)⟩

end Encapsulation

end CircuitCloak

import CircuitCloak.Proofs.TransformOutcomes

/-! No strategy disturbs the boundary of a circuit whose instructions fit its registers: what a strategy
puts in fits as well, and the measurements follow in their order. None fails either, unless it wraps a
gate that has classical bits, for which a composite has no place. -/

namespace CircuitCloak
open CircuitCloak.Random

/-- An instruction that may stand in the body of a transformed circuit. -/
structure Placeable (frame : Frame) (instruction : Instruction) : Prop where
  body : instruction.isMeasure = false
  fits : instruction.Fits frame.numQubits frame.numClbits

theorem placeable_elementary {frame : Frame} {gate : Elementary} {qubits : List Nat}
    (length : qubits.length = gate.arity) (operands : Operands frame.numQubits qubits) :
    Placeable frame (.elementary gate qubits) :=
  ⟨rfl, Instruction.fits_elementary length operands⟩

theorem operands_singleton {limit qubit : Nat} (inside : qubit < limit) : Operands limit [qubit] :=
  ⟨List.forall_mem_singleton.mpr inside, List.nodup_singleton qubit⟩

theorem Frame.mem_qubits {frame : Frame} {qubit : Nat} : qubit ∈ frame.qubits ↔ qubit < frame.numQubits :=
  List.mem_range

theorem placeable_body {circuit : Circuit} (fits : circuit.Fits) :
    ∀ instruction ∈ circuit.body, Placeable circuit.frame instruction := by
  intro instruction member
  obtain ⟨stored, other⟩ := List.mem_filter.mp member
  exact ⟨by simpa using other, fits instruction stored⟩

namespace Substitution

/-- Every alternative for an instruction names operands that the instruction has. -/
def InRange (library : Library) (instruction : Instruction) : Prop :=
  ∀ kind rule, instruction.kind? = some kind → library.rule? kind = some rule →
    ∀ alternative ∈ rule.alternatives, ∀ step ∈ alternative,
      ∀ operand ∈ step.operands, operand < instruction.qubits.length

theorem arity_le_of_kind {frame : Frame} {instruction : Instruction} {kind : Elementary}
    (placeable : Placeable frame instruction) (gate : instruction.kind? = some kind) :
    kind.arity ≤ instruction.qubits.length := by
  match instruction, gate with
  | .gate ⟨.elementary _ _, qubits⟩ _, rfl =>
    calc kind.arity
      _ = wordSize qubits.length := (Instruction.fits_gate_iff.mp placeable.fits).1.symm
      _ ≤ qubits.length := Nat.mod_le _ _

theorem inRange_of_operandsInside {library : Library} (inside : library.OperandsInside) {frame : Frame}
    {instruction : Instruction} (placeable : Placeable frame instruction) : InRange library instruction := by
  intro kind rule gate found alternative member step within operand named
  obtain ⟨stored, arity⟩ := Library.rule_of_found found
  have below := inside rule stored alternative member step within operand named
  exact Nat.lt_of_lt_of_le below (arity ▸ arity_le_of_kind placeable gate)

theorem placeable_of_replaced {library : Library} (sound : library.Sound) (inside : library.OperandsInside)
    {frame : Frame} {instruction : Instruction} (placeable : Placeable frame instruction)
    {run : List Instruction} (replaced : Replaced library instruction run) :
    ∀ member ∈ run, Placeable frame member := by
  cases replaced with
  | kept => exact List.forall_mem_singleton.mpr placeable
  | @placed kind rule alternative gate _ found member =>
    intro instruction within
    obtain ⟨step, chosen, rfl⟩ := List.mem_map.mp within
    have steady := (sound.rules rule (Library.rule_of_found found).1).steps alternative member step chosen
    refine placeable_elementary ?_ (mapOperands_operands placeable.fits.operands ⟨?_, steady.distinct⟩)
    · rw [mapOperands, List.length_map, steady.length]
    · exact inRange_of_operandsInside inside placeable kind rule gate found alternative member step chosen

theorem placeable_decoys (decoys : DecoyMode) (frame : Frame) :
    ∀ instruction ∈ decoyPattern decoys frame, Placeable frame instruction := by
  intro instruction member
  cases decoys with
  | empty => cases member
  | selfInversePairs =>
    obtain ⟨qubit, inside, within⟩ := List.mem_flatMap.mp member
    have same : instruction = .elementary .x [qubit] := by simpa using within
    exact same ▸ placeable_elementary rfl (operands_singleton (Frame.mem_qubits.mp inside))

theorem placeable_of_replacement {library : Library} (sound : library.Sound)
    (inside : library.OperandsInside) {frame : Frame} {body output : List Instruction}
    (placeable : ∀ instruction ∈ body, Placeable frame instruction)
    (replacement : Replacement library body output) :
    ∀ instruction ∈ output, Placeable frame instruction :=
  replacement.forall_mem fun instruction member _ replaced =>
    placeable_of_replaced sound inside (placeable instruction member) replaced

end Substitution

namespace Padding

theorem placeable_pair {frame : Frame} {gate : Elementary} (double : gate.arity = 2) {pair : List Nat}
    (member : pair ∈ pairs frame) : Placeable frame (.elementary gate pair) := by
  obtain ⟨index, within, rfl⟩ := List.mem_map.mp member
  have inside : index < frame.numQubits / 2 := List.mem_range.mp within
  refine placeable_elementary double.symm ⟨?_, by simp⟩
  intro qubit named
  rcases List.mem_cons.mp named with rfl | last
  · omega
  · rw [List.mem_singleton.mp last]
    omega

theorem placeable_of_step {frame : Frame} {qubit : Nat} (inside : qubit < frame.numQubits)
    {step : IdentityStep} (sound : step.Sound) :
    ∀ instruction ∈ emitStep frame qubit step, Placeable frame instruction := by
  cases step with
  | onQubit gate =>
    exact List.forall_mem_singleton.mpr (placeable_elementary sound.2.symm (operands_singleton inside))
  | acrossPairs gate =>
    intro instruction member
    obtain ⟨pair, within, rfl⟩ := List.mem_map.mp member
    exact placeable_pair sound.2 within

theorem placeable_of_padded {library : Library}
    (identities : ∀ sequence ∈ library.identities, ∀ step ∈ sequence.steps, step.Sound) {frame : Frame}
    {output : List Instruction} (padded : Concatenation (Padded library frame) frame.qubits output) :
    ∀ instruction ∈ output, Placeable frame instruction := by
  refine padded.forall_mem fun qubit inside run emitted instruction member => ?_
  obtain ⟨order, permuted, rfl⟩ := emitted
  obtain ⟨sequence, chosen, within⟩ := List.mem_flatMap.mp member
  obtain ⟨step, belongs, made⟩ := List.mem_flatMap.mp within
  have steady := identities sequence (permuted.mem_iff.mp chosen) step belongs
  exact placeable_of_step (Frame.mem_qubits.mp inside) steady instruction made

theorem placeable_of_surrounded {library : Library}
    (identities : ∀ sequence ∈ library.identities, ∀ step ∈ sequence.steps, step.Sound) {frame : Frame}
    {body output : List Instruction} (placeable : ∀ instruction ∈ body, Placeable frame instruction)
    (surrounded : Surrounded library body frame output) : ∀ instruction ∈ output, Placeable frame instruction := by
  obtain ⟨leading, trailing, rfl, before, after⟩ := surrounded
  have first := placeable_of_padded identities before
  have last := placeable_of_padded identities after
  exact List.forall_mem_append.mpr ⟨List.forall_mem_append.mpr ⟨first, placeable⟩, last⟩

end Padding

namespace Injection

theorem placeable_of_pair {frame : Frame} {qubit : Nat} (inside : qubit < frame.numQubits)
    {gate : Elementary} {run : List Instruction} (pair : Pair frame qubit gate run) :
    ∀ instruction ∈ run, Placeable frame instruction := by
  have both : ∀ {inverse operands}, gate.inverse? = some inverse → operands.length = gate.arity →
      Operands frame.numQubits operands →
      ∀ instruction ∈ [Instruction.elementary gate operands, .elementary inverse operands],
        Placeable frame instruction := by
    intro inverse operands undone length fits
    obtain ⟨other, found, _, arity⟩ :=
      Elementary.inverse_of_discrete (Elementary.discrete_of_inverse undone)
    cases undone.symm.trans found
    refine List.forall_mem_cons.mpr ⟨placeable_elementary length fits, ?_⟩
    exact List.forall_mem_singleton.mpr (placeable_elementary (length.trans arity.symm) fits)
  cases pair with
  | absent => exact nofun
  | onQubit undone single => exact both undone single.symm (operands_singleton inside)
  | sampled undone sample => exact both undone sample.length ⟨sample.inside, sample.distinct⟩

theorem placeable_of_passed {library : Library} {frame : Frame} {output : List Instruction}
    (passed : Passed library frame output) : ∀ instruction ∈ output, Placeable frame instruction := by
  refine passed.forall_mem fun qubit inside run injected => ?_
  obtain ⟨order, _, parts⟩ := injected
  exact parts.forall_mem fun gate _ _ pair => placeable_of_pair (Frame.mem_qubits.mp inside) pair

theorem placeable_of_passedIf {library : Library} {frame : Frame} {condition : Bool}
    {output : List Instruction} (passed : PassedIf library frame condition output) :
    ∀ instruction ∈ output, Placeable frame instruction := by
  unfold PassedIf at passed
  split at passed
  · exact placeable_of_passed passed
  · rw [passed]
    exact nofun

theorem placeable_of_segmented {library : Library} {frame : Frame} {body output : List Instruction}
    (placeable : ∀ instruction ∈ body, Placeable frame instruction)
    (segmented : Segmented library body frame output) :
    ∀ instruction ∈ output, Placeable frame instruction := by
  refine segmented.forall_mem fun entry member run surrounded instruction within => ?_
  obtain ⟨before, after, rfl, opened, closed⟩ := surrounded
  have stored : entry.1 ∈ body := List.mem_of_getElem? (List.mem_zipIdx_iff_getElem?.mp member)
  rcases List.mem_append.mp within with first | rest
  · exact placeable_of_passedIf opened instruction first
  · rcases List.mem_cons.mp rest with rfl | last
    · exact placeable entry.1 stored
    · exact placeable_of_passedIf closed instruction last

end Injection

namespace Encapsulation

theorem placeable_wrapping {frame : Frame} (name : String) {calls : List Application}
    (small : (Composite.wrapOperands calls).length < wordCount)
    (inside : ∀ call ∈ calls, ∀ qubit ∈ call.qubits, qubit < frame.numQubits) :
    Placeable frame (.gate (wrapping name calls) []) := by
  refine ⟨rfl, Instruction.fits_gate_iff.mpr
    ⟨wordSize_of_lt small, ⟨?_, firstAppearances_nodup _⟩, List.forall_mem_nil _⟩⟩
  intro qubit member
  obtain ⟨call, within, named⟩ := List.mem_flatMap.mp (mem_firstAppearances.mp member)
  exact inside call within qubit named

theorem placeable_blockRow (name : String) (gates : List Elementary) (frame : Frame) :
    ∀ instruction ∈ blockRow name gates frame, Placeable frame instruction := by
  intro instruction member
  obtain ⟨qubit, inside, rfl⟩ := List.mem_map.mp member
  refine placeable_wrapping name (small_blockCalls gates qubit) fun call within => ?_
  obtain ⟨gate, _, rfl⟩ := List.mem_map.mp within
  exact List.forall_mem_singleton.mpr (Frame.mem_qubits.mp inside)

theorem placeable_of_wrapped {frame : Frame} {label : String} {instruction result : Instruction}
    (placeable : Placeable frame instruction) (wrapped : Wrapped label instruction result) :
    Placeable frame result := by
  cases wrapped with
  | kept => exact placeable
  | wrapped _ wrappable =>
    exact placeable_wrapping label wrappable.small (List.forall_mem_singleton.mpr placeable.fits.operands.inside)

theorem placeable_of_enclosed {library : Library} {label : String} {frame : Frame}
    {body output : List Instruction} (placeable : ∀ instruction ∈ body, Placeable frame instruction)
    (enclosed : Enclosed library label body frame output) :
    ∀ instruction ∈ output, Placeable frame instruction := by
  rcases enclosed with ⟨_, rfl⟩ | ⟨wrapped, parts, rfl⟩
  · exact nofun
  · intro instruction member
    rcases List.mem_append.mp member with first | last
    · rcases List.mem_append.mp first with leading | middle
      · exact placeable_blockRow _ _ frame instruction leading
      · obtain ⟨original, stored, made⟩ := exists_mem_of_forall₂ parts middle
        exact placeable_of_wrapped (placeable original stored) made
    · exact placeable_blockRow _ _ frame instruction last

end Encapsulation

theorem placeable_of_outcome {strategy : Strategy} {library : Library} (sound : library.Sound)
    (inside : library.OperandsInside) {options : TransformOptions} {circuit : Circuit} (fits : circuit.Fits)
    {output : List Instruction} (outcome : strategy.Outcome library options circuit output) :
    ∀ instruction ∈ output, Placeable circuit.frame instruction := by
  have stored := placeable_body fits
  cases strategy with
  | substitution =>
    obtain ⟨leading, replaced, trailing, rfl, before, between, after⟩ := outcome
    have decoys := Substitution.placeable_decoys options.decoys circuit.frame
    have first := Substitution.placeable_of_replacement sound inside decoys before
    have middle := Substitution.placeable_of_replacement sound inside stored between
    have last := Substitution.placeable_of_replacement sound inside decoys after
    exact List.forall_mem_append.mpr ⟨List.forall_mem_append.mpr ⟨first, middle⟩, last⟩
  | composite => exact Encapsulation.placeable_of_enclosed stored outcome
  | padding => exact Padding.placeable_of_surrounded sound.identities stored outcome
  | segmented => exact Injection.placeable_of_segmented stored outcome

private theorem beq_of_measure {instruction : Instruction} (measure : instruction.isMeasure = true) :
    (instruction == instruction) = true := by
  cases instruction with
  | measure qubits clbits =>
    change (qubits == qubits && clbits == clbits) = true
    rw [beq_self_eq_true, beq_self_eq_true]
    rfl
  | gate => cases measure
  | reset => cases measure
  | barrier => cases measure

private theorem beq_of_measures {instructions : List Instruction}
    (measures : ∀ instruction ∈ instructions, instruction.isMeasure = true) :
    (instructions == instructions) = true := by
  induction instructions with
  | nil => rfl
  | cons instruction rest ih =>
    obtain ⟨first, others⟩ := List.forall_mem_cons.mp measures
    rw [List.cons_beq_cons, beq_of_measure first, ih others]
    rfl

namespace Circuit

def rebuilt (circuit : Circuit) (body : List Instruction) : Circuit :=
  ⟨circuit.name, circuit.numQubits, circuit.numClbits, (body ++ circuit.measurements).toArray⟩

theorem isMeasure_of_measurements {circuit : Circuit} :
    ∀ instruction ∈ circuit.measurements, instruction.isMeasure = true :=
  fun _ member => (List.mem_filter.mp member).2

theorem measurements_rebuilt {circuit : Circuit} {body : List Instruction}
    (plain : ∀ instruction ∈ body, instruction.isMeasure = false) :
    (circuit.rebuilt body).measurements = circuit.measurements := by
  have none : body.filter (·.isMeasure) = [] :=
    List.filter_eq_nil_iff.mpr fun instruction member => by simp [plain instruction member]
  have all : circuit.measurements.filter (·.isMeasure) = circuit.measurements :=
    List.filter_eq_self.mpr isMeasure_of_measurements
  change (body ++ circuit.measurements).filter (·.isMeasure) = circuit.measurements
  rw [List.filter_append, none, all, List.nil_append]

theorem body_rebuilt {circuit : Circuit} {body : List Instruction}
    (plain : ∀ instruction ∈ body, instruction.isMeasure = false) : (circuit.rebuilt body).body = body := by
  have all : body.filter (!·.isMeasure) = body :=
    List.filter_eq_self.mpr fun instruction member => by rw [plain instruction member]; rfl
  have none : circuit.measurements.filter (!·.isMeasure) = [] :=
    List.filter_eq_nil_iff.mpr fun instruction member => by rw [isMeasure_of_measurements instruction member]; decide
  change (body ++ circuit.measurements).filter (!·.isMeasure) = body
  rw [List.filter_append, all, none, List.append_nil]

theorem checkBoundary_rebuilt {circuit : Circuit} {body : List Instruction}
    (plain : ∀ instruction ∈ body, instruction.isMeasure = false) :
    checkBoundary circuit (circuit.rebuilt body) = .ok () := by
  have frame : circuit.frame = (circuit.rebuilt body).frame := rfl
  unfold checkBoundary
  rw [if_neg (not_not_intro frame), measurements_rebuilt plain]
  exact if_pos (beq_of_measures isMeasure_of_measurements)

theorem fits_of_withBody {circuit output : Circuit} {body : List Instruction}
    (done : circuit.withBody body = .ok output) :
    (∀ instruction ∈ body ++ circuit.measurements,
      instruction.Fits circuit.numQubits circuit.numClbits) ∧ output = circuit.rebuilt body := by
  obtain ⟨result, made, checked⟩ := bind_eq_ok_iff.mp done
  obtain ⟨_, _, same⟩ := bind_eq_ok_iff.mp checked
  cases same
  cases built : ofInstructions circuit.name circuit.numQubits circuit.numClbits (body ++ circuit.measurements) with
  | error fault =>
    rw [built] at made
    cases made
  | ok value =>
    rw [built] at made
    cases made
    exact ofInstructions_eq_ok_iff.mp built

/-- Another body is taken exactly if it and the measurements fit the registers. -/
theorem withBody_eq_ok_iff {circuit output : Circuit} {body : List Instruction}
    (plain : ∀ instruction ∈ body, instruction.isMeasure = false) :
    circuit.withBody body = .ok output ↔
      (∀ instruction ∈ body ++ circuit.measurements,
        instruction.Fits circuit.numQubits circuit.numClbits) ∧ output = circuit.rebuilt body := by
  refine ⟨fits_of_withBody, ?_⟩
  rintro ⟨fits, rfl⟩
  refine bind_eq_ok_iff.mpr ⟨circuit.rebuilt body, ?_, bind_eq_ok_iff.mpr ⟨(), checkBoundary_rebuilt plain, rfl⟩⟩
  rw [ofInstructions_eq_ok_iff.mpr ⟨fits, rfl⟩]
  rfl

/-- What a transform leaves of a circuit: its registers and its measurements, which come last. -/
structure Kept (before after : Circuit) : Prop where
  name : after.name = before.name
  frame : after.frame = before.frame
  fits : after.Fits
  measurements : after.measurements = before.measurements
  last : after.instructions.toList.Pairwise fun first later => first.isMeasure = true → later.isMeasure = true

theorem kept_rebuilt {circuit : Circuit} {body : List Instruction}
    (plain : ∀ instruction ∈ body, instruction.isMeasure = false)
    (fits : ∀ instruction ∈ body ++ circuit.measurements,
      instruction.Fits circuit.numQubits circuit.numClbits) : circuit.Kept (circuit.rebuilt body) := by
  refine ⟨rfl, rfl, fits, measurements_rebuilt plain, List.pairwise_append.mpr ⟨?_, ?_, ?_⟩⟩
  · refine List.pairwise_of_forall_mem_list fun first member later _ measure => ?_
    exact absurd measure (by simp [plain first member])
  · exact List.pairwise_of_forall_mem_list fun _ _ later member _ => isMeasure_of_measurements later member
  · exact fun _ _ later member _ => isMeasure_of_measurements later member

/-- Instructions that may stand in a body fit with the measurements of a circuit that fits. -/
theorem Fits.withPlaceable {circuit : Circuit} (fits : circuit.Fits) {body : List Instruction}
    (placeable : ∀ instruction ∈ body, Placeable circuit.frame instruction) :
    ∀ instruction ∈ body ++ circuit.measurements, instruction.Fits circuit.numQubits circuit.numClbits :=
  List.forall_mem_append.mpr ⟨fun instruction member => (placeable instruction member).fits,
    fun instruction member => fits instruction (List.mem_filter.mp member).1⟩

/-- A new body that keeps every instruction of the old one is taken only if all of them fit. -/
theorem fits_of_kept {circuit output : Circuit} {body : List Instruction}
    (kept : ∀ instruction ∈ circuit.body, instruction ∈ body) (done : circuit.withBody body = .ok output) :
    circuit.Fits := by
  obtain ⟨fits, _⟩ := fits_of_withBody done
  intro instruction member
  refine fits instruction (List.mem_append.mpr ?_)
  cases measure : instruction.isMeasure with
  | true => exact .inr (List.mem_filter.mpr ⟨member, measure⟩)
  | false => exact .inl (kept instruction (List.mem_filter.mpr ⟨member, by rw [measure]; rfl⟩))

/-- A body that keeps every instruction, and puts in none that does not fit where the others do, is taken
exactly if the circuit fits. -/
theorem withBody_ok_iff_fits {circuit : Circuit} {body : List Instruction}
    (kept : ∀ instruction ∈ circuit.body, instruction ∈ body)
    (placeable : circuit.Fits → ∀ instruction ∈ body, Placeable circuit.frame instruction) :
    (∃ output, circuit.withBody body = .ok output) ↔ circuit.Fits := by
  constructor
  · rintro ⟨output, done⟩
    exact fits_of_kept kept done
  · intro fits
    have plain := fun instruction member => (placeable fits instruction member).body
    exact ⟨_, (withBody_eq_ok_iff plain).mpr ⟨fits.withPlaceable (placeable fits), rfl⟩⟩

theorem body_of_kept {circuit output : Circuit} {body : List Instruction}
    (kept : ∀ instruction ∈ circuit.body, instruction ∈ body)
    (placeable : circuit.Fits → ∀ instruction ∈ body, Placeable circuit.frame instruction)
    (done : circuit.withBody body = .ok output) : output = circuit.rebuilt body ∧ output.body = body := by
  have fits := fits_of_kept kept done
  obtain ⟨_, rfl⟩ := fits_of_withBody done
  exact ⟨rfl, body_rebuilt fun instruction member => (placeable fits instruction member).body⟩

end Circuit

namespace Strategy

variable {strategy : Strategy} {library : Library} {options : TransformOptions} {circuit output : Circuit} {σ : Type}
  [WordSource σ] {source : σ}

/-- What a strategy gives for a circuit that fits is the circuit with one of the strategy's outcomes. -/
theorem rebuilt_of_apply (sound : library.Sound) (inside : library.OperandsInside) (fits : circuit.Fits)
    (done : ((strategy.apply circuit library options : Transform σ Circuit).run source).1 = .ok output) :
    ∃ body, strategy.Outcome library options circuit body ∧
      (∀ instruction ∈ body, Placeable circuit.frame instruction) ∧ output = circuit.rebuilt body := by
  obtain ⟨body, outcome, made⟩ := outcome_of_apply sound done
  exact ⟨body, outcome, placeable_of_outcome sound inside fits outcome, (Circuit.fits_of_withBody made).2⟩

theorem kept_of_apply (sound : library.Sound) (inside : library.OperandsInside) (fits : circuit.Fits)
    (done : ((strategy.apply circuit library options : Transform σ Circuit).run source).1 = .ok output) :
    circuit.Kept output := by
  obtain ⟨body, _, placeable, rfl⟩ := rebuilt_of_apply sound inside fits done
  exact Circuit.kept_rebuilt (fun instruction member => (placeable instruction member).body) (fits.withPlaceable placeable)

variable (source) in
/-- A strategy succeeds on a circuit exactly if it wraps none of its classical bits. -/
theorem apply_succeeds_iff (library_sound : library.Sound) (inside : library.OperandsInside)
    (accepted : options.validate = .ok ()) (sound : circuit.Sound) :
    (∃ output, ((strategy.apply circuit library options : Transform σ Circuit).run source).1 = .ok output) ↔
      strategy.WrapsBare options circuit source := by
  constructor
  · rintro ⟨output, done⟩
    by_contra carried
    obtain ⟨_, _, _, _, refused⟩ := apply_of_carrier library_sound accepted sound.wrappable carried
    cases done.symm.trans refused
  · intro bare
    obtain ⟨body, outcome, made⟩ := apply_of_wrapsBare library_sound accepted sound.wrappable bare
    have placeable := placeable_of_outcome library_sound inside sound.fits outcome
    have plain := fun instruction member => (placeable instruction member).body
    exact ⟨_, made.trans ((Circuit.withBody_eq_ok_iff plain).mpr ⟨sound.fits.withPlaceable placeable, rfl⟩)⟩

/-- What a strategy refuses is the first classical bit of a gate of the circuit. -/
theorem carrier_of_refused (library_sound : library.Sound) (inside : library.OperandsInside)
    (accepted : options.validate = .ok ()) (sound : circuit.Sound) {fault : TransformError}
    (refused : ((strategy.apply circuit library options : Transform σ Circuit).run source).1 = .error fault) :
    ∃ call clbit others, .gate call (clbit :: others) ∈ circuit.body ∧
      fault = .circuit (.clbitNotFound clbit call.gate.name) := by
  have carried : ¬strategy.WrapsBare options circuit source := by
    intro bare
    obtain ⟨_, done⟩ := (apply_succeeds_iff source library_sound inside accepted sound).mpr bare
    cases done.symm.trans refused
  obtain ⟨call, clbit, others, member, answered⟩ := apply_of_carrier library_sound accepted sound.wrappable carried
  exact ⟨call, clbit, others, member, Except.error.inj (refused.symm.trans answered)⟩

/-- A measurement between two gates. -/
def interrupted : Circuit := ⟨"interrupted", 2, 1, #[.elementary .h [0], .measure [0] [0], .elementary .cx [0, 1]]⟩

end Strategy

end CircuitCloak

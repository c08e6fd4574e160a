import CircuitCloak.Circuit.Samples
import CircuitCloak.Proofs.BoundarySafety
import CircuitCloak.Proofs.ExactTables
import CircuitCloak.Proofs.LoadedCircuits
import CircuitCloak.Proofs.Readings

/-! Every strategy keeps the meaning of a program up to one phase. Each piece that a strategy puts in is
alike to what it stands for, on any operands of any register; the pieces are put together in order, and
their phases pass through everything that follows. -/

namespace CircuitCloak
open PlacedGate

theorem Reading.apply_elementary (reading : Reading) (state : Statevector ℂ) {gate : Elementary}
    (discrete : gate.isDiscrete = true) (label : Option String) (qubits : List Nat) :
    reading.apply state ⟨.elementary gate label, qubits⟩ = state.applyElementary gate qubits := by
  change reading.call state ⟨.elementary gate label, qubits⟩ = _
  exact if_pos discrete

theorem Reading.apply_ofKind (reading : Reading) (state : Statevector ℂ) {gate : Elementary}
    (discrete : gate.isDiscrete = true) (qubits : List Nat) :
    reading.apply state ⟨.ofKind gate, qubits⟩ = state.applyElementary gate qubits :=
  reading.apply_elementary state discrete none qubits

theorem wave_run_place (reading : Reading) (number : Nat) {operands : List Nat} {steps : List PlacedGate}
    (sound : ∀ step ∈ steps, step.Sound) (within : Within operands.length steps) {state : Statevector ℂ}
    (fits : Operands state.numQubits operands) :
    (reading.run number (Substitution.place steps operands) state).wave =
      PlacedGate.run (onto operands steps) state.wave := by
  induction steps generalizing state with
  | nil => rfl
  | cons step rest ih =>
    obtain ⟨steady, sound⟩ := List.forall_mem_cons.mp sound
    obtain ⟨here, within⟩ := List.forall_mem_cons.mp within
    have length : (mapOperands operands step.operands).length = step.gate.arity := by
      rw [mapOperands, List.length_map, steady.length]
    have placed := mapOperands_operands fits ⟨here, steady.distinct⟩
    change (reading.run number (Substitution.place rest operands)
      (reading.apply state ⟨.ofKind step.gate, mapOperands operands step.operands⟩)).wave = _
    rw [reading.apply_ofKind state steady.discrete, ih sound within (by simpa using fits),
      Statevector.wave_applyElementary length placed]
    rfl

theorem resetCount_place (steps : List PlacedGate) (operands : List Nat) :
    resetCount (Substitution.place steps operands) = 0 := by
  refine List.countP_eq_zero.mpr fun instruction member => ?_
  obtain ⟨step, _, rfl⟩ := List.mem_map.mp member
  exact Bool.false_ne_true

section

variable {numQubits count : Nat} {operands : List Nat} (fits : Operands numQubits operands) {first second : List PlacedGate}
  (soundFirst : ∀ step ∈ first, step.Sound) (soundSecond : ∀ step ∈ second, step.Sound)
  (withinFirst : Within operands.length first) (withinSecond : Within operands.length second)
include fits soundFirst soundSecond withinFirst withinSecond

/-- What was computed for positions holds for all operands. -/
theorem run_place_of_agreeBy (agree : AgreeBy count operands.length first second) (reading : Reading) (number : Nat)
    {state : Statevector ℂ} (size : state.numQubits = numQubits) :
    reading.run number (Substitution.place first operands) state =
      (reading.run number (Substitution.place second operands) state).scaled (eighthRoot ^ count) := by
  refine Statevector.eq_of_wave ?_ ?_
  · rw [Statevector.numQubits_scaled, reading.run_register, reading.run_register]
  · funext index
    rw [Statevector.wave_scaled, wave_run_place reading number soundFirst withinFirst (size ▸ fits),
      wave_run_place reading number soundSecond withinSecond (size ▸ fits),
      run_of_agreeBy fits.distinct withinFirst withinSecond agree]

theorem Alike.of_agree (agree : Agree operands.length first second) :
    Alike numQubits (Substitution.place first operands) (Substitution.place second operands) := by
  obtain ⟨count, _, agree⟩ := agree
  refine ⟨(resetCount_place _ _).trans (resetCount_place _ _).symm, eighthRoot ^ count, ?_, ?_⟩
  · rw [norm_pow, norm_eighthRoot, one_pow]
  · exact fun reading number _ size =>
      run_place_of_agreeBy fits soundFirst soundSecond withinFirst withinSecond agree reading number size

theorem Coincide.of_agree (agree : AgreeBy 0 operands.length first second) :
    Coincide numQubits (Substitution.place first operands) (Substitution.place second operands) := by
  refine ⟨(resetCount_place _ _).trans (resetCount_place _ _).symm, fun reading number state size => ?_⟩
  rw [run_place_of_agreeBy fits soundFirst soundSecond withinFirst withinSecond agree reading number size, pow_zero,
    Statevector.scaled_one]

end

theorem Elementary.placed_sound {gate : Elementary} (discrete : gate.isDiscrete = true) : gate.placed.Sound :=
  ⟨discrete, List.length_range, List.nodup_range⟩

theorem Elementary.placed_within {gate : Elementary} {width : Nat} (arity : gate.arity ≤ width) :
    ∀ place ∈ gate.placed.operands, place < width :=
  fun _ member => Nat.lt_of_lt_of_le (List.mem_range.mp member) arity

theorem mapOperands_range (operands : List Nat) : mapOperands operands (List.range operands.length) = operands := by
  refine List.ext_getElem (by simp [mapOperands]) fun place one other => ?_
  simp [mapOperands, other]

theorem place_placed {gate : Elementary} {operands : List Nat} (length : operands.length = gate.arity) :
    Substitution.place [gate.placed] operands = [.elementary gate operands] := by
  have whole : mapOperands operands (List.range gate.arity) = operands := length ▸ mapOperands_range operands
  change [Instruction.elementary gate (mapOperands operands (List.range gate.arity))] = _
  rw [whole]

namespace Substitution

variable {library : Library}

theorem length_of_kind {frame : Frame} (small : frame.numQubits < wordCount) {instruction : Instruction}
    {kind : Elementary} (placeable : Placeable frame instruction) (gate : instruction.kind? = some kind) :
    instruction.qubits.length = kind.arity := by
  match instruction, gate with
  | .gate ⟨.elementary _ _, qubits⟩ _, rfl => exact placeable.fits.length_eq small

theorem alike_of_replaced (sound : library.Sound) (inside : library.OperandsInside) (exact : library.Exact)
    {frame : Frame} (small : frame.numQubits < wordCount) {instruction : Instruction} (placeable : Placeable frame instruction)
    {run : List Instruction} (replaced : Replaced library instruction run) :
    Alike frame.numQubits run [instruction] := by
  cases replaced with
  | kept => exact Alike.refl _
  | @placed kind rule alternative gate discrete found member =>
    obtain ⟨stored, arity⟩ := Library.rule_of_found found
    have steady := sound.rules rule stored
    have same := List.find?_some found
    have target : rule.target = kind := Elementary.eq_of_sameKind same steady.target discrete
    have length : instruction.qubits.length = rule.target.arity :=
      (length_of_kind small placeable gate).trans arity.symm
    have within : Within instruction.qubits.length alternative := fun step chosen =>
      inRange_of_operandsInside inside placeable kind rule gate found alternative member step chosen
    have agree := exact.rules rule stored alternative member
    rw [← length] at agree
    have alike := Alike.of_agree placeable.fits.operands (steady.steps alternative member)
      (List.forall_mem_singleton.mpr (Elementary.placed_sound steady.target)) within
      (List.forall_mem_singleton.mpr (Elementary.placed_within length.ge)) agree
    rw [place_placed length, target] at alike
    refine alike.trans ?_
    match instruction, gate with
    | .gate ⟨.elementary _ label, qubits⟩ _, rfl =>
      exact Alike.of_coincide ⟨rfl, fun reading number state _ =>
        (reading.apply_ofKind state discrete qubits).trans
          (reading.apply_elementary state discrete label qubits).symm⟩

theorem alike_of_replacement (sound : library.Sound) (inside : library.OperandsInside) (exact : library.Exact)
    {frame : Frame} (small : frame.numQubits < wordCount) {body output : List Instruction}
    (placeable : ∀ instruction ∈ body, Placeable frame instruction)
    (replacement : Replacement library body output) : Alike frame.numQubits output body := by
  have alike : Alike frame.numQubits output (body.flatMap fun instruction => [instruction]) :=
    Alike.of_concatenation replacement fun instruction member run replaced =>
      alike_of_replaced sound inside exact small (placeable instruction member) replaced
  rwa [List.flatMap_singleton'] at alike

end Substitution

theorem Coincide.of_inverse {numQubits : Nat} {gate inverse : Elementary} {operands : List Nat}
    (undone : gate.inverse? = some inverse) (length : operands.length = gate.arity)
    (fits : Operands numQubits operands) :
    Coincide numQubits [.elementary gate operands, .elementary inverse operands] [] := by
  have discrete := Elementary.discrete_of_inverse undone
  obtain ⟨other, found, inverseDiscrete, arity⟩ := Elementary.inverse_of_discrete discrete
  cases undone.symm.trans found
  have same := Coincide.of_agree fits
    (List.forall_mem_cons.mpr ⟨Elementary.placed_sound discrete,
      List.forall_mem_singleton.mpr (Elementary.placed_sound inverseDiscrete)⟩) (List.forall_mem_nil _)
    (List.forall_mem_cons.mpr ⟨Elementary.placed_within length.ge,
      List.forall_mem_singleton.mpr (Elementary.placed_within (arity.trans length.symm).le)⟩) (List.forall_mem_nil _)
    (length ▸ Elementary.agreeBy_of_inverse undone)
  have both : Substitution.place [gate.placed, inverse.placed] operands =
      [.elementary gate operands] ++ [.elementary inverse operands] := by
    rw [← place_placed length, ← place_placed (length.trans arity.symm)]
    rfl
  rwa [both] at same

theorem Coincide.of_apart {numQubits : Nat} {gate other : Elementary} (discrete : gate.isDiscrete = true)
    (otherDiscrete : other.isDiscrete = true) {first second : List Nat} (length : first.length = gate.arity)
    (otherLength : second.length = other.arity) (fits : Operands numQubits first)
    (otherFits : Operands numQubits second) (apart : ∀ qubit ∈ first, qubit ∉ second) :
    Coincide numQubits [.elementary gate first, .elementary other second]
      [.elementary other second, .elementary gate first] := by
  refine ⟨rfl, fun reading number state size => ?_⟩
  have unfolded : ∀ {one another : Elementary} (qubits operands : List Nat), one.isDiscrete = true →
      another.isDiscrete = true → reading.run number [.elementary one qubits, .elementary another operands] state =
        (state.applyElementary one qubits).applyElementary another operands := by
    intro one another qubits operands discreteOne discreteAnother
    change reading.apply (reading.apply state _) _ = _
    rw [reading.apply_ofKind _ discreteOne, reading.apply_ofKind _ discreteAnother]
  rw [unfolded first second discrete otherDiscrete, unfolded second first otherDiscrete discrete]
  refine Statevector.eq_of_wave (by simp) ?_
  rw [Statevector.wave_applyElementary otherLength (by simpa [size] using otherFits),
    Statevector.wave_applyElementary length (size ▸ fits),
    Statevector.wave_applyElementary length (by simpa [size] using fits),
    Statevector.wave_applyElementary otherLength (size ▸ otherFits)]
  refine (Motion.change_comm (fun qubit named => ?_) state.wave).symm
  rcases gate.motion_qubits (α := ℂ) first with one | one <;>
    rcases other.motion_qubits (α := ℂ) second with two | two <;>
    simp_all

theorem Alike.of_idle {numQubits qubit : Nat} (inside : qubit < numQubits) {gates : List Elementary}
    (single : ∀ gate ∈ gates, gate.isDiscrete = true ∧ gate.arity = 1) (idle : Idle gates) :
    Alike numQubits (gates.map fun gate => .elementary gate [qubit]) [] := by
  have placed : Substitution.place (onTarget gates) [qubit] = gates.map fun gate => .elementary gate [qubit] := by
    rw [Substitution.place, onTarget, List.map_map]
    rfl
  rw [← placed]
  refine Alike.of_agree (operands_singleton inside) ?_ (List.forall_mem_nil _) ?_ (List.forall_mem_nil _) idle
  · intro step member
    obtain ⟨gate, within, rfl⟩ := List.mem_map.mp member
    exact ⟨(single gate within).1, (single gate within).2.symm, List.nodup_singleton 0⟩
  · intro step member
    obtain ⟨gate, _, rfl⟩ := List.mem_map.mp member
    exact List.forall_mem_singleton.mpr Nat.one_pos

/-- Gates that do nothing on any qubit do nothing on all qubits in turn. -/
theorem Alike.of_each {frame : Frame} {gates : Nat → List Instruction}
    (each : ∀ qubit < frame.numQubits, Alike frame.numQubits (gates qubit) []) :
    Alike frame.numQubits (frame.qubits.flatMap gates) [] := by
  have inside : ∀ qubit ∈ frame.qubits, qubit < frame.numQubits := fun _ => Frame.mem_qubits.mp
  generalize frame.qubits = qubits at inside
  induction qubits with
  | nil => exact Alike.refl []
  | cons qubit rest ih =>
    obtain ⟨here, others⟩ := List.forall_mem_cons.mp inside
    exact Alike.append (each qubit here) (ih others)

theorem Substitution.alike_decoys (decoys : DecoyMode) (frame : Frame) :
    Alike frame.numQubits (decoyPattern decoys frame) [] := by
  cases decoys with
  | empty => exact Alike.refl []
  | selfInversePairs =>
    exact .of_each fun _ inside => Alike.of_coincide (Coincide.of_inverse rfl rfl (operands_singleton inside))

namespace Padding

/-- The gates of a step across the given pairs. -/
def ladder (gate : Elementary) (pairs : List (List Nat)) : List Instruction :=
  pairs.map fun pair => .elementary gate pair

/-- Pairs that a gate fits on and that share no qubit. -/
structure Spread (numQubits : Nat) (gate : Elementary) (pairs : List (List Nat)) : Prop where
  lengths : ∀ pair ∈ pairs, pair.length = gate.arity
  fits : ∀ pair ∈ pairs, Operands numQubits pair
  apart : pairs.Pairwise fun first second => ∀ qubit ∈ first, qubit ∉ second

/-- A gate on one pair may be moved across the gates on the others. -/
theorem alike_ladder_last {numQubits : Nat} {gate : Elementary} (discrete : gate.isDiscrete = true)
    {pair : List Nat} {pairs : List (List Nat)} (spread : Spread numQubits gate (pair :: pairs)) :
    Alike numQubits (ladder gate pairs ++ [.elementary gate pair]) (.elementary gate pair :: ladder gate pairs) := by
  obtain ⟨length, lengths⟩ := List.forall_mem_cons.mp spread.lengths
  obtain ⟨fits, others⟩ := List.forall_mem_cons.mp spread.fits
  refine Alike.of_coincide (Coincide.across fun one member other last => ?_)
  obtain ⟨operands, listed, rfl⟩ := List.mem_map.mp member
  rw [List.mem_singleton.mp last]
  exact Coincide.of_apart discrete discrete (lengths operands listed) length (others operands listed) fits
    fun qubit named found => (List.pairwise_cons.mp spread.apart).1 operands listed qubit found named

/-- A gate that undoes itself, across all pairs twice. -/
theorem alike_ladder_twice {numQubits : Nat} {gate : Elementary} (selfInverse : gate.inverse? = some gate)
    {pairs : List (List Nat)} (spread : Spread numQubits gate pairs) :
    Alike numQubits (ladder gate pairs ++ ladder gate pairs) [] := by
  induction pairs with
  | nil => exact Alike.refl []
  | cons pair rest ih =>
    have discrete := Elementary.discrete_of_inverse selfInverse
    have shorter : Spread numQubits gate rest :=
      ⟨(List.forall_mem_cons.mp spread.lengths).2, (List.forall_mem_cons.mp spread.fits).2,
        (List.pairwise_cons.mp spread.apart).2⟩
    have cancelled : Alike numQubits [.elementary gate pair, .elementary gate pair] [] :=
      Alike.of_coincide (Coincide.of_inverse selfInverse (spread.lengths pair (by simp)) (spread.fits pair (by simp)))
    have gathered := Alike.append (Alike.append (Alike.refl [.elementary gate pair])
      (alike_ladder_last discrete spread)) (Alike.refl (ladder gate rest))
    have ends := Alike.append cancelled (ih shorter)
    refine Alike.trans ?_ (gathered.trans ends)
    simpa [ladder] using Alike.refl _

theorem spread_pairs (frame : Frame) {gate : Elementary} (double : gate.arity = 2) :
    Spread frame.numQubits gate (pairs frame) := by
  refine ⟨fun pair member => ?_, fun pair member => (placeable_pair double member).fits.operands, ?_⟩
  · obtain ⟨index, _, rfl⟩ := List.mem_map.mp member
    exact double.symm
  · refine List.pairwise_map.mpr (List.pairwise_lt_range.imp fun {first second} less qubit named member => ?_)
    simp only [List.mem_cons, List.not_mem_nil, or_false] at named member
    omega

/-- A sequence that cancels does nothing on any qubit of any register. -/
theorem alike_of_cancels {frame : Frame} {qubit : Nat} (inside : qubit < frame.numQubits)
    {steps : List IdentityStep} (cancels : Cancels steps) (sound : ∀ step ∈ steps, step.Sound) :
    Alike frame.numQubits (steps.flatMap (emitStep frame qubit)) [] := by
  induction cancels with
  | onQubit gates idle =>
    have emitted : (gates.map IdentityStep.onQubit).flatMap (emitStep frame qubit) =
        gates.map fun gate => .elementary gate [qubit] := by
      rw [List.flatMap_map, List.map_eq_flatMap]
      rfl
    rw [emitted]
    exact Alike.of_idle inside (fun gate member => sound (.onQubit gate) (List.mem_map_of_mem member)) idle
  | between gate inner _ ih =>
    have steady : gate.isSelfInverse = true ∧ gate.arity = 2 := sound (.acrossPairs gate) (by simp)
    have middle := ih fun step member => sound step (by simp [member])
    rw [List.cons_append, List.flatMap_cons, List.flatMap_append, List.flatMap_singleton]
    change Alike frame.numQubits (ladder gate (pairs frame) ++ (inner.flatMap (emitStep frame qubit) ++
      ladder gate (pairs frame))) []
    have outer := Alike.append (Alike.refl (ladder gate (pairs frame)))
      (Alike.append middle (Alike.refl (ladder gate (pairs frame))))
    exact outer.trans (alike_ladder_twice (Elementary.inverse_of_isSelfInverse steady.1) (spread_pairs frame steady.2))

theorem alike_of_padded {library : Library} (sound : library.Sound) (exact : library.Exact) {frame : Frame}
    {output : List Instruction} (padded : Concatenation (Padded library frame) frame.qubits output) :
    Alike frame.numQubits output [] := by
  refine Alike.nil_of_concatenation padded fun qubit member run emitted => ?_
  obtain ⟨order, permuted, rfl⟩ := emitted
  have each : ∀ sequences : List IdentitySequence, (∀ sequence ∈ sequences, sequence ∈ library.identities) →
      Alike frame.numQubits (sequences.flatMap (emit frame qubit)) [] := by
    intro sequences known
    induction sequences with
    | nil => exact Alike.refl []
    | cons sequence rest ih =>
      obtain ⟨here, others⟩ := List.forall_mem_cons.mp known
      exact Alike.append (alike_of_cancels (Frame.mem_qubits.mp member) (exact.identities sequence here)
        (sound.identities sequence here)) (ih others)
  exact each order fun sequence chosen => permuted.mem_iff.mp chosen

end Padding

namespace Injection

variable {library : Library} {frame : Frame}

theorem coincide_of_pair {qubit : Nat} (inside : qubit < frame.numQubits) {gate : Elementary}
    {run : List Instruction} (pair : Pair frame qubit gate run) : Coincide frame.numQubits run [] := by
  cases pair with
  | absent => exact Coincide.refl []
  | onQubit undone single => exact Coincide.of_inverse undone single.symm (operands_singleton inside)
  | sampled undone sample => exact Coincide.of_inverse undone sample.length ⟨sample.inside, sample.distinct⟩

theorem coincide_of_passed {output : List Instruction} (passed : Passed library frame output) :
    Coincide frame.numQubits output [] := by
  refine Coincide.nil_of_concatenation passed fun qubit member run injected => ?_
  obtain ⟨order, _, parts⟩ := injected
  exact Coincide.nil_of_concatenation parts fun gate _ _ pair => coincide_of_pair (Frame.mem_qubits.mp member) pair

theorem coincide_of_passedIf {condition : Bool} {output : List Instruction}
    (passed : PassedIf library frame condition output) : Coincide frame.numQubits output [] := by
  unfold PassedIf at passed
  split at passed
  · exact coincide_of_passed passed
  · rw [passed]
    exact Coincide.refl []

/-- Injected gates change nothing, not even the phase. -/
theorem coincide_of_segmented {body output : List Instruction} (segmented : Segmented library body frame output) :
    Coincide frame.numQubits output body := by
  have together : Coincide frame.numQubits output (body.zipIdx.flatMap fun entry => [entry.1]) := by
    refine segmented.congruence (Coincide.refl []) Coincide.append fun entry _ run surrounded => ?_
    obtain ⟨before, after, rfl, opened, closed⟩ := surrounded
    rw [List.append_cons]
    exact Coincide.surround (coincide_of_passedIf opened) (Coincide.refl [entry.1]) (coincide_of_passedIf closed)
  rwa [← List.map_eq_flatMap, List.zipIdx_map_fst] at together

end Injection

/-- A run of gates applies what they stand for, one after the other. -/
theorem Reading.run_gates (reading : Reading) (number : Nat) (calls : List Application) (state : Statevector ℂ) :
    reading.run number (calls.map (.gate · [])) state = (calls.flatMap (·.expand)).foldl reading.call state := by
  induction calls generalizing state with
  | nil => rfl
  | cons call rest ih =>
    rw [List.flatMap_cons, List.foldl_append]
    exact ih _

namespace Encapsulation

theorem alike_wrapping {numQubits : Nat} (name : String) (calls : List Application) :
    Alike numQubits [.gate (wrapping name calls) []] (calls.map (.gate · [])) := by
  refine Alike.of_coincide ⟨?_, fun reading number state _ => ?_⟩
  · refine (List.countP_eq_zero.mpr ?_).trans (List.countP_eq_zero.mpr ?_).symm <;> simp
  · rw [reading.run_gates, ← expand_wrapping name]
    rfl

theorem alike_blockRow {frame : Frame} (name : String) {gates : List Elementary}
    (single : ∀ gate ∈ gates, gate.isDiscrete = true ∧ gate.arity = 1) (idle : Idle gates) :
    Alike frame.numQubits (blockRow name gates frame) [] := by
  rw [blockRow, List.map_eq_flatMap]
  refine .of_each fun qubit inside => ?_
  have block := Alike.of_idle inside single idle
  rw [gates_blockCalls] at block
  exact (alike_wrapping name _).trans block

theorem alike_of_enclosed {library : Library} (sound : library.Sound) (exact : library.Exact) {label : String}
    {body output : List Instruction} {frame : Frame} (enclosed : Enclosed library label body frame output) :
    Alike frame.numQubits output body := by
  rcases enclosed with ⟨rfl, rfl⟩ | ⟨wrapped, parts, rfl⟩
  · exact Alike.refl []
  · refine Alike.surround (alike_blockRow _ sound.camouflage exact.camouflage) ?_
      (alike_blockRow _ sound.restore exact.restore)
    induction parts with
    | nil => exact Alike.refl []
    | @cons instruction result _ _ first _ ih =>
      have here : Alike frame.numQubits [result] [instruction] := by
        cases first with
        | kept => exact Alike.refl _
        | wrapped => exact alike_wrapping label [_]
      exact Alike.append here ih

end Encapsulation

theorem alike_of_outcome {strategy : Strategy} {library : Library} (sound : library.Sound)
    (inside : library.OperandsInside) (exact : library.Exact) {options : TransformOptions} {circuit : Circuit}
    (fitting : circuit.Sound) {output : List Instruction} (outcome : strategy.Outcome library options circuit output) :
    Alike circuit.numQubits output circuit.body := by
  cases strategy with
  | substitution =>
    obtain ⟨leading, replaced, trailing, rfl, before, between, after⟩ := outcome
    have decoys := Substitution.alike_decoys options.decoys circuit.frame
    have placeable := Substitution.placeable_decoys options.decoys circuit.frame
    exact Alike.surround
      ((Substitution.alike_of_replacement sound inside exact fitting.qubits placeable before).trans decoys)
      (Substitution.alike_of_replacement sound inside exact fitting.qubits (placeable_body fitting.fits) between)
      ((Substitution.alike_of_replacement sound inside exact fitting.qubits placeable after).trans decoys)
  | composite => exact Encapsulation.alike_of_enclosed sound exact outcome
  | padding =>
    obtain ⟨leading, trailing, rfl, before, after⟩ := outcome
    exact Alike.surround (Padding.alike_of_padded sound exact before) (Alike.refl circuit.body)
      (Padding.alike_of_padded sound exact after)
  | segmented => exact Alike.of_coincide (Injection.coincide_of_segmented outcome)

namespace Circuit

/-- The circuits that programs are given as: built by steps, or read from text. -/
inductive Given : Circuit → Prop where
  | built {circuit} (reached : circuit.Reachable) : Given circuit
  | loaded {circuit source dialect} (read : Qasm.load source = .ok (circuit, dialect)) : Given circuit

theorem Given.sound {circuit : Circuit} (given : circuit.Given) : circuit.Sound := by
  cases given with
  | built reached => exact reached.sound
  | loaded read => exact (Qasm.reachable_of_load read).sound

/-- The gates and resets of two circuits do the same to every state of the register, up to one phase. -/
def SameUnitary (before after : Circuit) : Prop :=
  ∃ phase : ℂ, ‖phase‖ = 1 ∧ ∀ (reading : Reading) (state : Statevector ℂ), state.numQubits = before.numQubits →
    reading.run 0 after.body state = (reading.run 0 before.body state).scaled phase

end Circuit

open CircuitCloak.Random in
/-- With the built-in tables, what a strategy returns does the same as its circuit up to one phase, whatever the
random source yields. It returns something exactly if it wraps no gate with classical bits. -/
theorem Strategy.apply_sameUnitary {circuit : Circuit} (given : circuit.Given) (strategy : Strategy)
    {options : TransformOptions} (accepted : options.validate = .ok ()) {σ : Type} [WordSource σ] (source : σ) :
    ((∃ output, ((strategy.apply circuit .builtin options : Transform σ Circuit).run source).1 = .ok output) ↔
        strategy.WrapsBare options circuit source) ∧
      ∀ output, ((strategy.apply circuit .builtin options : Transform σ Circuit).run source).1 = .ok output →
        circuit.SameUnitary output := by
  have inside := Library.builtin_operandsInside
  have sound := Library.sound_of_validate Library.builtin_validates inside
  refine ⟨apply_succeeds_iff source sound inside accepted given.sound, fun output succeeded => ?_⟩
  obtain ⟨body, outcome, placeable, rfl⟩ := rebuilt_of_apply sound inside given.sound.fits succeeded
  obtain ⟨_, phase, unit, same⟩ := alike_of_outcome sound inside Library.builtin_exact given.sound outcome
  refine ⟨phase, unit, fun reading state size => ?_⟩
  rw [Circuit.body_rebuilt fun instruction member => (placeable instruction member).body]
  exact same reading 0 state size

open CircuitCloak.Random in
theorem Strategy.apply_bell_sameUnitary : ∃ circuit output, Circuit.bell = .ok circuit ∧
    ((Strategy.composite.apply circuit .builtin {} : Transform SplitMix Circuit).run ⟨7⟩).1 = .ok output ∧
      circuit.SameUnitary output := by
  have made : Circuit.bell = .ok ⟨"bell", 2, 2,
      #[.elementary .h [0], .elementary .cx [0, 1], .measure [0] [0], .measure [1] [1]]⟩ := rfl
  have given := Circuit.Given.built (Circuit.reachable_of_ofInstructions (by decide) (by decide) made)
  obtain ⟨success, preserved⟩ := apply_sameUnitary given .composite TransformOptions.validate_standard
    (⟨7⟩ : SplitMix)
  obtain ⟨output, succeeded⟩ := success.mpr (wrapsBare_of_bare (by decide))
  exact ⟨_, output, made, succeeded, preserved output succeeded⟩

end CircuitCloak

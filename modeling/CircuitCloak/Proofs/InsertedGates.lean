import CircuitCloak.Proofs.BoundarySafety

/-! What strategies put into a body: discrete gates, and composites that wrap gates. So an instruction of an outcome
stood in the body, is a discrete gate, or wraps gates that were one or the other. What strategies leave
alone is opaque to them: gates with angles, resets and barriers stand in every output as they stood in the
body. -/

namespace CircuitCloak
open CircuitCloak.Random

section

variable {property : Instruction → Prop}
  (elementary : ∀ kind qubits, kind.isDiscrete = true → property (.elementary kind qubits))
include elementary

theorem Substitution.forall_replacement {library : Library} (sound : library.Sound) {body output : List Instruction}
    (held : ∀ instruction ∈ body, property instruction) (replaced : Replacement library body output) :
    ∀ instruction ∈ output, property instruction := by
  refine replaced.forall_mem fun instruction member run part other within => ?_
  cases part with
  | kept =>
    rw [List.mem_singleton.mp within]
    exact held instruction member
  | @placed _ rule alternative _ _ found chosen =>
    obtain ⟨step, stored, rfl⟩ := List.mem_map.mp within
    have steady := (sound.rules rule (Library.rule_of_found found).1).steps alternative chosen step stored
    exact elementary _ _ steady.discrete

theorem Substitution.forall_decoys (decoys : DecoyMode) (frame : Frame) :
    ∀ instruction ∈ decoyPattern decoys frame, property instruction := by
  intro instruction member
  cases decoys with
  | empty => cases member
  | selfInversePairs =>
    obtain ⟨qubit, _, within⟩ := List.mem_flatMap.mp member
    have same : instruction = .elementary .x [qubit] := by simpa using within
    exact same ▸ elementary _ _ rfl

theorem Padding.forall_padded {library : Library} (sound : library.Sound) {frame : Frame} {output : List Instruction}
    (padded : Concatenation (Padded library frame) frame.qubits output) :
    ∀ instruction ∈ output, property instruction := by
  refine padded.forall_mem fun qubit _ run emitted instruction member => ?_
  obtain ⟨order, permuted, rfl⟩ := emitted
  obtain ⟨sequence, chosen, within⟩ := List.mem_flatMap.mp member
  obtain ⟨step, stored, made⟩ := List.mem_flatMap.mp within
  have steady := sound.identities sequence (permuted.mem_iff.mp chosen) step stored
  cases step with
  | onQubit gate => exact List.mem_singleton.mp made ▸ elementary _ _ steady.1
  | acrossPairs gate =>
    obtain ⟨pair, _, rfl⟩ := List.mem_map.mp made
    exact elementary _ _ (Elementary.discrete_of_inverse (Elementary.inverse_of_isSelfInverse steady.1))

theorem Injection.forall_passedIf {library : Library} {frame : Frame} {condition : Bool} {output : List Instruction}
    (passed : PassedIf library frame condition output) : ∀ instruction ∈ output, property instruction := by
  have both : ∀ {gate inverse} operands, gate.inverse? = some inverse →
      ∀ instruction ∈ [Instruction.elementary gate operands, .elementary inverse operands], property instruction := by
    intro gate inverse operands undone
    have discrete := Elementary.discrete_of_inverse undone
    obtain ⟨other, found, inverseDiscrete, _⟩ := Elementary.inverse_of_discrete discrete
    cases undone.symm.trans found
    exact List.forall_mem_cons.mpr ⟨elementary _ _ discrete, List.forall_mem_singleton.mpr (elementary _ _ inverseDiscrete)⟩
  unfold PassedIf at passed
  split at passed
  · refine passed.forall_mem fun qubit _ run injected => ?_
    obtain ⟨order, _, parts⟩ := injected
    refine parts.forall_mem fun gate _ run pair => ?_
    cases pair with
    | absent => exact List.forall_mem_nil _
    | onQubit undone => exact both _ undone
    | sampled undone => exact both _ undone
  · rw [passed]
    exact List.forall_mem_nil _

theorem Injection.forall_segmented {library : Library} {frame : Frame} {body output : List Instruction}
    (held : ∀ instruction ∈ body, property instruction) (segmented : Segmented library body frame output) :
    ∀ instruction ∈ output, property instruction := by
  refine segmented.forall_mem fun entry member run surrounded => ?_
  obtain ⟨before, after, rfl, opened, closed⟩ := surrounded
  have stored : entry.1 ∈ body := List.mem_of_getElem? (List.mem_zipIdx_iff_getElem?.mp member)
  refine List.forall_mem_append.mpr ⟨forall_passedIf elementary opened, ?_⟩
  exact List.forall_mem_cons.mpr ⟨held entry.1 stored, forall_passedIf elementary closed⟩

variable (wrapping : ∀ name calls, Encapsulation.Wrappable calls → (∀ call ∈ calls, property (.gate call [])) →
  property (.gate (Encapsulation.wrapping name calls) []))
include wrapping

theorem Encapsulation.forall_blockRow {name : String} {gates : List Elementary} {frame : Frame}
    (small : ∀ gate ∈ gates, gate.isDiscrete = true ∧ gate.arity = 1) :
    ∀ instruction ∈ blockRow name gates frame, property instruction := by
  intro instruction member
  obtain ⟨qubit, _, rfl⟩ := List.mem_map.mp member
  refine wrapping name _ (wrappable_blockCalls (fun gate stored => (small gate stored).2) qubit) fun call within => ?_
  obtain ⟨gate, stored, rfl⟩ := List.mem_map.mp within
  exact elementary gate [qubit] (small gate stored).1

theorem Encapsulation.forall_enclosed {library : Library}
    (camouflage : ∀ gate ∈ library.camouflage, gate.isDiscrete = true ∧ gate.arity = 1) {label : String} {frame : Frame}
    {body output : List Instruction} (held : ∀ instruction ∈ body, property instruction)
    (enclosed : Enclosed library label body frame output) :
    ∀ instruction ∈ output, property instruction := by
  rcases enclosed with ⟨_, rfl⟩ | ⟨wrapped, parts, rfl⟩
  · exact List.forall_mem_nil _
  · refine List.forall_mem_append.mpr ⟨List.forall_mem_append.mpr
      ⟨forall_blockRow elementary wrapping camouflage, ?_⟩,
      forall_blockRow elementary wrapping (Library.restore_of_camouflage camouflage)⟩
    intro instruction member
    obtain ⟨original, stored, made⟩ := exists_mem_of_forall₂ parts member
    cases made with
    | kept => exact held _ stored
    | wrapped _ wrappable => exact wrapping label _ wrappable (List.forall_mem_singleton.mpr (held _ stored))

/-- What holds of the body, of discrete gates and of wrapped gates holds of every outcome. -/
theorem Strategy.forall_outcome {strategy : Strategy} {library : Library} (sound : library.Sound)
    {options : TransformOptions} {circuit : Circuit} (held : ∀ instruction ∈ circuit.body, property instruction)
    {output : List Instruction} (outcome : strategy.Outcome library options circuit output) :
    ∀ instruction ∈ output, property instruction := by
  cases strategy with
  | substitution =>
    obtain ⟨leading, replaced, trailing, rfl, before, between, after⟩ := outcome
    have decoys := Substitution.forall_decoys elementary options.decoys circuit.frame
    have first := Substitution.forall_replacement elementary sound decoys before
    have middle := Substitution.forall_replacement elementary sound held between
    have last := Substitution.forall_replacement elementary sound decoys after
    exact List.forall_mem_append.mpr ⟨List.forall_mem_append.mpr ⟨first, middle⟩, last⟩
  | composite => exact Encapsulation.forall_enclosed elementary wrapping sound.camouflage held outcome
  | padding =>
    obtain ⟨leading, trailing, rfl, before, after⟩ := outcome
    have first := Padding.forall_padded elementary sound before
    have last := Padding.forall_padded elementary sound after
    exact List.forall_mem_append.mpr ⟨List.forall_mem_append.mpr ⟨first, held⟩, last⟩
  | segmented => exact Injection.forall_segmented elementary held outcome

end

/-- Gates with angles, resets and barriers. -/
def Instruction.isOpaque : Instruction → Bool
  | .gate call _ => call.gate.kind?.any (!·.isDiscrete)
  | .measure _ _ => false
  | .reset _ _ => true
  | .barrier _ _ => true

/-- Two runs hold the same opaque instructions in the same order. -/
def SameOpaque (first second : List Instruction) : Prop :=
  first.filter (·.isOpaque) = second.filter (·.isOpaque)

namespace SameOpaque

theorem append {first second third fourth : List Instruction} (one : SameOpaque first second)
    (two : SameOpaque third fourth) : SameOpaque (first ++ third) (second ++ fourth) := by
  unfold SameOpaque at *
  rw [List.filter_append, List.filter_append, one, two]

theorem nil {run : List Instruction} (plain : ∀ instruction ∈ run, instruction.isOpaque = false) :
    SameOpaque run [] :=
  List.filter_eq_nil_iff.mpr fun instruction member => by simp [plain instruction member]

theorem surround {leading middle trailing body : List Instruction}
    (before : ∀ instruction ∈ leading, instruction.isOpaque = false) (between : SameOpaque middle body)
    (after : ∀ instruction ∈ trailing, instruction.isOpaque = false) :
    SameOpaque (leading ++ middle ++ trailing) body := by
  have whole := ((nil before).append between).append (nil after)
  rwa [List.nil_append, List.append_nil] at whole

end SameOpaque

theorem isOpaque_elementary (kind : Elementary) (qubits : List Nat) (discrete : kind.isDiscrete = true) :
    (Instruction.elementary kind qubits).isOpaque = false := by
  change (!kind.isDiscrete) = false
  rw [discrete]
  rfl

theorem isOpaque_of_kind {instruction : Instruction} {kind : Elementary} (gate : instruction.kind? = some kind)
    (discrete : kind.isDiscrete = true) : instruction.isOpaque = false := by
  match instruction, gate with
  | .gate ⟨.elementary _ _, _⟩ _, rfl => exact isOpaque_elementary kind [] discrete

theorem isOpaque_of_canWrap {call : Application} {clbits : List Nat}
    (able : Encapsulation.canWrap (.gate call clbits) = true) : (Instruction.gate call clbits).isOpaque = false := by
  obtain ⟨gate, qubits⟩ := call
  cases gate with
  | elementary kind label => exact isOpaque_elementary kind qubits able
  | composite => rfl

variable {library : Library} {frame : Frame} {body output : List Instruction}

/-- A gate that gives way to an alternative is discrete, and so are all gates of the alternative. -/
theorem Substitution.sameOpaque_replacement (sound : library.Sound) (replaced : Replacement library body output) :
    SameOpaque output body := by
  have whole : SameOpaque output (body.flatMap fun instruction => [instruction]) := by
    refine replaced.congruence rfl SameOpaque.append fun instruction _ run part => ?_
    cases part with
    | kept => rfl
    | @placed kind rule alternative gate discrete found chosen =>
      have given : SameOpaque [instruction] [] :=
        SameOpaque.nil (List.forall_mem_singleton.mpr (isOpaque_of_kind gate discrete))
      refine (SameOpaque.nil fun other member => ?_).trans given.symm
      obtain ⟨step, stored, rfl⟩ := List.mem_map.mp member
      have steady := (sound.rules rule (Library.rule_of_found found).1).steps alternative chosen step stored
      exact isOpaque_elementary _ _ steady.discrete
  rwa [List.flatMap_singleton'] at whole

theorem Injection.sameOpaque_segmented (segmented : Segmented library body frame output) :
    SameOpaque output body := by
  have whole : SameOpaque output (body.zipIdx.flatMap fun entry => [entry.1]) := by
    refine segmented.congruence rfl SameOpaque.append fun entry _ run surrounded => ?_
    obtain ⟨before, after, rfl, opened, closed⟩ := surrounded
    rw [List.append_cons]
    exact SameOpaque.surround (forall_passedIf isOpaque_elementary opened) rfl (forall_passedIf isOpaque_elementary closed)
  rwa [← List.map_eq_flatMap, List.zipIdx_map_fst] at whole

/-- Composites are not opaque, and what is wrapped was not either. -/
theorem Encapsulation.sameOpaque_enclosed {label : String}
    (enclosed : Enclosed library label body frame output) : SameOpaque output body := by
  have row : ∀ name gates, ∀ instruction ∈ blockRow name gates frame, instruction.isOpaque = false := by
    intro name gates instruction member
    obtain ⟨qubit, _, rfl⟩ := List.mem_map.mp member
    rfl
  rcases enclosed with ⟨rfl, rfl⟩ | ⟨wrapped, parts, rfl⟩
  · rfl
  · refine SameOpaque.surround (row _ _) ?_ (row _ _)
    induction parts with
    | nil => rfl
    | @cons instruction result _ _ first _ ih =>
      have here : SameOpaque [result] [instruction] := by
        cases first with
        | kept => rfl
        | wrapped able =>
          exact (SameOpaque.nil (List.forall_mem_singleton.mpr rfl)).trans
            (SameOpaque.nil (List.forall_mem_singleton.mpr (isOpaque_of_canWrap able))).symm
      exact here.append ih

theorem sameOpaque_of_outcome {strategy : Strategy} (sound : library.Sound) {options : TransformOptions}
    {circuit : Circuit} (outcome : strategy.Outcome library options circuit output) :
    SameOpaque output circuit.body := by
  cases strategy with
  | substitution =>
    obtain ⟨leading, replaced, trailing, rfl, before, between, after⟩ := outcome
    have decoys : ∀ instruction ∈ Substitution.decoyPattern options.decoys circuit.frame, instruction.isOpaque = false :=
      Substitution.forall_decoys isOpaque_elementary options.decoys circuit.frame
    exact SameOpaque.surround (Substitution.forall_replacement isOpaque_elementary sound decoys before)
      (Substitution.sameOpaque_replacement sound between)
      (Substitution.forall_replacement isOpaque_elementary sound decoys after)
  | composite => exact Encapsulation.sameOpaque_enclosed outcome
  | padding =>
    obtain ⟨leading, trailing, rfl, before, after⟩ := outcome
    exact SameOpaque.surround (Padding.forall_padded isOpaque_elementary sound before) rfl
      (Padding.forall_padded isOpaque_elementary sound after)
  | segmented => exact Injection.sameOpaque_segmented outcome

theorem Circuit.filter_isOpaque (circuit : Circuit) :
    circuit.instructions.toList.filter (·.isOpaque) = circuit.body.filter (·.isOpaque) := by
  rw [body, List.filter_filter]
  refine List.filter_congr fun instruction _ => ?_
  cases instruction <;> simp [Instruction.isOpaque, Instruction.isMeasure]

/-- Whatever is drawn, every strategy gives back the opaque instructions of a circuit as they were: each of them
once, unchanged, in their order, and none besides. It succeeds exactly if it wraps no gate with classical bits. -/
theorem Strategy.apply_opaque {circuit : Circuit} (fits : circuit.Fits) (strategy : Strategy) {library : Library}
    (validated : library.validate = .ok ()) (inside : library.OperandsInside) {options : TransformOptions}
    (accepted : options.validate = .ok ()) {σ : Type} [WordSource σ] (source : σ) :
    (∀ output, ((strategy.apply circuit library options : Transform σ Circuit).run source).1 = .ok output →
      output.instructions.toList.filter (·.isOpaque) = circuit.instructions.toList.filter (·.isOpaque)) ∧
    (circuit.numQubits < wordCount → circuit.numClbits < wordCount →
      ((∃ output, ((strategy.apply circuit library options : Transform σ Circuit).run source).1 = .ok output) ↔
        strategy.WrapsBare options circuit source)) := by
  have sound := Library.sound_of_validate validated inside
  refine ⟨fun output done => ?_, fun qubits clbits => ?_⟩
  · obtain ⟨body, outcome, placeable, rfl⟩ := rebuilt_of_apply sound inside fits done
    have plain := fun instruction member => (placeable instruction member).body
    rw [Circuit.filter_isOpaque, Circuit.filter_isOpaque, Circuit.body_rebuilt plain]
    exact sameOpaque_of_outcome sound outcome
  · exact apply_succeeds_iff source sound inside accepted ⟨qubits, clbits, fits⟩

/-- A rotation between a gate and a measurement, then a barrier and a reset that has a classical bit. -/
def Circuit.guarded : Circuit := ⟨"guarded", 2, 1, #[.elementary .h [0], .elementary (.rx .pi) [1], .measure [0] [0],
  .barrier [0, 1] [], .reset [0] [0]]⟩

theorem Strategy.apply_opaque_guarded : Circuit.guarded.Fits ∧ Library.builtin.validate = .ok () ∧
    Library.builtin.OperandsInside ∧ TransformOptions.validate {} = .ok () ∧ ∃ output,
      ((Strategy.composite.apply .guarded .builtin {} : Transform SplitMix Circuit).run ⟨7⟩).1 = .ok output ∧
        output.instructions.toList.filter (·.isOpaque) =
          [.elementary (.rx .pi) [1], .barrier [0, 1] [], .reset [0] [0]] := by
  have fits : Circuit.guarded.Fits := by
    simp only [Circuit.Fits, Circuit.guarded, List.forall_mem_cons]
    exact ⟨rfl, rfl, rfl, rfl, rfl, nofun⟩
  have inside := Library.builtin_operandsInside
  obtain ⟨kept, succeeds⟩ := apply_opaque fits .composite Library.builtin_validates inside
    TransformOptions.validate_standard (⟨7⟩ : SplitMix)
  have bare : ∀ instruction ∈ Circuit.guarded.instructions.toList, instruction.isGate = true →
      instruction.clbits = [] := by decide
  obtain ⟨output, done⟩ := (succeeds (by decide) (by decide)).mpr (wrapsBare_of_bare bare)
  exact ⟨fits, Library.builtin_validates, inside, TransformOptions.validate_standard, output, done, kept output done⟩

end CircuitCloak

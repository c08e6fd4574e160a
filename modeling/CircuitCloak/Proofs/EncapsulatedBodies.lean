import CircuitCloak.Proofs.UnitaryPreservation
import CircuitCloak.Proofs.WrappedRuns

/-! Encapsulation is invisible once units are expanded. The body of the output expands into what the input's
body expands into, between the camouflage on every qubit and the gates that undo it. These need no exact
tables: they are inverses in reverse order, and gates on different qubits do not meet. -/

namespace CircuitCloak

/-- The elementary gates that the instruction stands for, if its gate is a composite. -/
def Instruction.expand : Instruction → List Instruction
  | .gate ⟨.composite unit _, operands⟩ _ => (unit.expand operands).map (.gate · [])
  | other => [other]

theorem Instruction.expand_gate (call : Application) :
    (Instruction.gate call []).expand = call.expand.map (.gate · []) := by
  obtain ⟨gate, operands⟩ := call
  cases gate with
  | elementary kind label =>
    rw [Application.expand_elementary]
    rfl
  | composite unit label =>
    rw [Application.expand_composite]
    rfl

namespace Encapsulation
open CircuitCloak.Random

def column (gates : List Elementary) (qubit : Nat) : List Instruction :=
  gates.map fun gate => .elementary gate [qubit]

def columns (gates : List Elementary) (qubits : List Nat) : List Instruction := qubits.flatMap (column gates)

theorem expand_blockRow (name : String) (gates : List Elementary) (frame : Frame) :
    (blockRow name gates frame).flatMap (·.expand) = columns gates frame.qubits := by
  have block : ∀ qubit, (Instruction.gate (wrapping name (blockCalls gates qubit)) []).expand = column gates qubit := by
    intro qubit
    have plain : (blockCalls gates qubit).flatMap (·.expand) = blockCalls gates qubit := by
      rw [blockCalls, List.flatMap_map, List.map_eq_flatMap]
      exact List.flatMap_congr fun gate _ => Application.expand_elementary gate none [qubit]
    rw [Instruction.expand_gate, expand_wrapping, plain, blockCalls, List.map_map]
    rfl
  rw [blockRow, List.flatMap_map, columns]
  exact List.flatMap_congr fun qubit _ => block qubit

theorem expand_of_wrapped {label : String} {instruction result : Instruction}
    (wrapped : Wrapped label instruction result) : result.expand = instruction.expand := by
  cases wrapped with
  | kept => rfl
  | @wrapped call =>
    rw [Instruction.expand_gate, expand_wrapping, List.flatMap_singleton, Instruction.expand_gate]

theorem expand_of_enclosed {library : Library} {label : String} {frame : Frame} {body output : List Instruction}
    (nonempty : body ≠ []) (enclosed : Enclosed library label body frame output) :
    output.flatMap (·.expand) = columns library.camouflage frame.qubits ++ body.flatMap (·.expand) ++
      columns library.restore frame.qubits := by
  rcases enclosed with ⟨empty, _⟩ | ⟨wrapped, parts, rfl⟩
  · exact absurd empty nonempty
  · have middle : wrapped.flatMap (·.expand) = body.flatMap (·.expand) := by
      clear nonempty
      induction parts with
      | nil => rfl
      | cons first _ ih => rw [List.flatMap_cons, List.flatMap_cons, expand_of_wrapped first, ih]
    rw [List.flatMap_append, List.flatMap_append, expand_blockRow, expand_blockRow, middle]

/-- What undoes a run of gates on a qubit: their inverses, from the last to the first. -/
def undoing (gates : List Elementary) : List Elementary := gates.reverse.filterMap (·.inverse?)

theorem undoing_cons {gate inverse : Elementary} (undone : gate.inverse? = some inverse) (rest : List Elementary) :
    undoing (gate :: rest) = undoing rest ++ [inverse] := by
  rw [undoing, List.reverse_cons, List.filterMap_append, List.filterMap_cons_some undone, List.filterMap_nil, undoing]

section

variable {gates : List Elementary} (small : ∀ gate ∈ gates, gate.isDiscrete = true ∧ gate.arity = 1)
include small

theorem length_undoing : (undoing gates).length = gates.length := by
  rw [undoing, List.filterMap_length_eq_length.mpr, List.length_reverse]
  intro gate member
  obtain ⟨inverse, undone, _⟩ := Elementary.inverse_of_discrete (small gate (List.mem_reverse.mp member)).1
  rw [undone]
  rfl

theorem undoing_small : ∀ gate ∈ undoing gates, gate.isDiscrete = true ∧ gate.arity = 1 :=
  Library.restore_of_camouflage (show ∀ gate ∈ (⟨[], [], [], gates⟩ : Library).camouflage, _ from small)

/-- Gates on a qubit, then their inverses from the last to the first, do exactly nothing. -/
theorem coincide_column {numQubits qubit : Nat} (inside : qubit < numQubits) :
    Coincide numQubits (column gates qubit ++ column (undoing gates) qubit) [] := by
  induction gates with
  | nil => exact Coincide.refl []
  | cons gate rest ih =>
    obtain ⟨⟨discrete, single⟩, others⟩ := List.forall_mem_cons.mp small
    obtain ⟨inverse, undone, _⟩ := Elementary.inverse_of_discrete discrete
    have inner : Coincide numQubits
        ([.elementary gate [qubit]] ++ ((column rest qubit ++ column (undoing rest) qubit) ++
          [.elementary inverse [qubit]])) [.elementary gate [qubit], .elementary inverse [qubit]] :=
      (Coincide.refl _).append ((ih others).append (Coincide.refl _))
    have outer : Coincide numQubits [.elementary gate [qubit], .elementary inverse [qubit]] [] :=
      Coincide.of_inverse undone single.symm (operands_singleton inside)
    rw [undoing_cons undone]
    simpa only [column, List.map_append, List.map_cons, List.map_nil, List.nil_append,
      List.cons_append, List.append_assoc] using inner.trans outer

/-- The same on every qubit: what undoes the gates on the first one is moved across the gates on the others. -/
theorem coincide_columns {numQubits : Nat} {qubits : List Nat} (fits : Operands numQubits qubits) :
    Coincide numQubits (columns gates qubits ++ columns (undoing gates) qubits) [] := by
  induction qubits with
  | nil => exact Coincide.refl []
  | cons qubit rest ih =>
    obtain ⟨here, inside⟩ := List.forall_mem_cons.mp fits.inside
    obtain ⟨absent, distinct⟩ := List.nodup_cons.mp fits.distinct
    have inverses : ∀ gate ∈ undoing gates, gate.isDiscrete = true ∧ gate.arity = 1 := undoing_small small
    have crossed : Coincide numQubits (columns gates rest ++ column (undoing gates) qubit)
        (column (undoing gates) qubit ++ columns gates rest) := by
      refine Coincide.across fun one member other last => ?_
      obtain ⟨place, within, found⟩ := List.mem_flatMap.mp member
      obtain ⟨gate, listed, rfl⟩ := List.mem_map.mp found
      obtain ⟨inverse, known, rfl⟩ := List.mem_map.mp last
      have apart : ∀ named ∈ [place], named ∉ [qubit] :=
        List.forall_mem_singleton.mpr fun found => absent (List.mem_singleton.mp found ▸ within)
      exact Coincide.of_apart (small gate listed).1 (inverses inverse known).1 (small gate listed).2.symm
        (inverses inverse known).2.symm (operands_singleton (inside place within)) (operands_singleton here) apart
    have gathered := (Coincide.refl (column gates qubit)).append
      (crossed.append (Coincide.refl (columns (undoing gates) rest)))
    have cancelled := (coincide_column small here).append (ih ⟨inside, distinct⟩)
    simp only [columns, List.flatMap_cons, List.append_assoc] at gathered cancelled ⊢
    exact gathered.trans cancelled

end

theorem apply_of_empty {circuit : Circuit} (fits : circuit.Fits) (library : Library) {options : TransformOptions}
    (accepted : options.validate = .ok ()) (empty : circuit.body = []) {σ : Type} [WordSource σ] (source : σ) :
    ((Encapsulation.apply circuit library options : Transform σ Circuit).run source).1 = .ok circuit := by
  have measured : circuit.measurements = circuit.instructions.toList := by
    refine List.filter_eq_self.mpr fun instruction member => ?_
    simpa using List.filter_eq_nil_iff.mp empty instruction member
  have plain : ∀ instruction ∈ ([] : List Instruction), instruction.isMeasure = false := List.forall_mem_nil _
  have rebuilt : circuit.withBody [] = .ok circuit := by
    refine (Circuit.withBody_eq_ok_iff plain).mpr ⟨fun instruction member => ?_, ?_⟩
    · exact fits instruction (List.mem_filter.mp member).1
    · rw [Circuit.rebuilt, List.nil_append, measured]
  rw [apply_run, accepted, empty]
  exact rebuilt

/-- Encapsulation of a valid circuit succeeds exactly if it wraps no gate that has classical bits. -/
theorem apply_succeeds_iff_bare {circuit : Circuit} (valid : circuit.Valid) {library : Library}
    (camouflage : ∀ gate ∈ library.camouflage, gate.isDiscrete = true ∧ gate.arity = 1) {options : TransformOptions}
    (accepted : options.validate = .ok ()) {σ : Type} [WordSource σ] (source : σ) :
    (∃ output, ((Encapsulation.apply circuit library options : Transform σ Circuit).run source).1 = .ok output) ↔
      Bare options circuit.body source := by
  have wrappable := valid.sound.wrappable.body
  have run := apply_run circuit library options source
  rw [accepted] at run
  constructor
  · rintro ⟨output, done⟩
    by_contra carried
    obtain ⟨_, _, _, _, refused⟩ := transform_of_carrier circuit.frame camouflage wrappable carried
    rw [refused] at run
    cases run.symm.trans done
  · intro bare
    obtain ⟨body, transformed⟩ := transform_of_bare circuit.frame camouflage wrappable bare
    have placeable := placeable_of_enclosed (placeable_body valid.fits) (transform_enclosed camouflage transformed)
    have plain := fun instruction member => (placeable instruction member).body
    rw [transformed] at run
    exact ⟨_, run.trans ((Circuit.withBody_eq_ok_iff plain).mpr ⟨valid.fits.withPlaceable placeable, rfl⟩)⟩

/-- With any accepted tables and options and any words drawn, encapsulation succeeds on a valid circuit whose gates have
no classical bits, and in general exactly if it wraps none that has. Every unit of the output can be expanded. Expanded,
the body is that of the input between the camouflage on every qubit and as many gates that undo it exactly, qubit by
qubit and on all qubits together. A circuit of measurements only is left alone. -/
theorem apply_invisible {circuit : Circuit} (valid : circuit.Valid) {library : Library}
    (validated : library.validate = .ok ()) {options : TransformOptions} (accepted : options.validate = .ok ())
    {σ : Type} [WordSource σ] (source : σ) :
    ((∀ instruction ∈ circuit.instructions.toList, instruction.isGate = true → instruction.clbits = []) →
      ∃ output, ((Encapsulation.apply circuit library options : Transform σ Circuit).run source).1 = .ok output) ∧
    ((∃ output, ((Encapsulation.apply circuit library options : Transform σ Circuit).run source).1 = .ok output) ↔
      Bare options circuit.body source) ∧
    (∀ output, ((Encapsulation.apply circuit library options : Transform σ Circuit).run source).1 = .ok output →
      output.Expands ∧
      (circuit.body ≠ [] → output.body.flatMap (·.expand) = columns library.camouflage circuit.frame.qubits ++
        circuit.body.flatMap (·.expand) ++ columns library.restore circuit.frame.qubits)) ∧
    (circuit.body = [] →
      ((Encapsulation.apply circuit library options : Transform σ Circuit).run source).1 = .ok circuit) ∧
    library.restore.length = library.camouflage.length ∧
    ∀ state : Statevector ℂ, state.numQubits = circuit.numQubits →
      (∀ qubit < circuit.numQubits,
        (state.applyAll (column library.camouflage qubit)).applyAll (column library.restore qubit) = state) ∧
      (state.applyAll (columns library.camouflage circuit.frame.qubits)).applyAll
        (columns library.restore circuit.frame.qubits) = state := by
  have camouflage := (Library.validate_ok_iff.mp validated).camouflage
  have succeeds := apply_succeeds_iff_bare valid camouflage accepted source
  refine ⟨fun bare => succeeds.mpr ?_, succeeds, fun output done => ?_,
    fun empty => apply_of_empty valid.fits library accepted empty source, length_undoing camouflage,
    fun state size => ?_⟩
  · exact (Strategy.wrapsBare_of_bare bare : Strategy.composite.WrapsBare options circuit source) rfl
  · obtain ⟨_, _, done⟩ := bind_eq_ok_iff.mp ((apply_run circuit library options source).symm.trans done)
    obtain ⟨body, transformed, made⟩ := bind_eq_ok_iff.mp done
    have enclosed := transform_enclosed camouflage transformed
    have placeable := placeable_of_enclosed (placeable_body valid.fits) enclosed
    have gates : ∀ instruction ∈ body, instruction.WellFormed :=
      forall_enclosed (fun _ _ _ => trivial) wellFormed_wrapping camouflage valid.body enclosed
    obtain ⟨fits, rfl⟩ := Circuit.fits_of_withBody made
    refine ⟨(valid.rebuilt fits gates).expands, fun nonempty => ?_⟩
    rw [Circuit.body_rebuilt fun instruction member => (placeable instruction member).body]
    exact expand_of_enclosed nonempty enclosed
  · have idle : ∀ {leading trailing : List Instruction}, Coincide circuit.numQubits (leading ++ trailing) [] →
        (state.applyAll leading).applyAll trailing = state := by
      intro leading trailing same
      have undone := same.run Reading.still 0 state size
      rwa [Reading.run_still, Statevector.applyAll, List.foldl_append] at undone
    refine ⟨fun qubit inside => idle (coincide_column camouflage inside), idle (coincide_columns camouflage ?_)⟩
    exact ⟨fun qubit member => Frame.mem_qubits.mp member, List.nodup_range⟩

/-- A unit with its qubits exchanged, and a rotation. -/
def crossed : Circuit := ⟨"crossed", 2, 0, #[.apply (.composite ⟨"pair", 2, [⟨.ofKind .h, [1]⟩,
  ⟨.ofKind .cx, [1, 0]⟩]⟩ none) [1, 0], .elementary (.rx .pi) [0]]⟩

theorem apply_invisible_crossed : ∃ output,
    ((Encapsulation.apply crossed ⟨[], [], [], [.h, .t]⟩ {} : Transform SplitMix Circuit).run ⟨7⟩).1 = .ok output ∧
      output.body.flatMap (·.expand) =
        [.elementary .h [0], .elementary .t [0], .elementary .h [1], .elementary .t [1]] ++
        [.elementary .h [0], .elementary .cx [0, 1], .elementary (.rx .pi) [0]] ++
        [.elementary .tdg [0], .elementary .h [0], .elementary .tdg [1], .elementary .h [1]] := by
  have valid : crossed.Valid := by
    refine ⟨⟨by decide, by decide, List.forall_mem_cons.mpr ⟨rfl, List.forall_mem_singleton.mpr rfl⟩⟩,
      fun call clbits member => ?_⟩
    rcases List.mem_cons.mp member with first | last
    · cases first
      simp only [Gate.WellFormed, Application.WellFormedBody]
      exact ⟨⟨rfl, ⟨by decide, by decide⟩, trivial⟩, ⟨rfl, ⟨by decide, by decide⟩, trivial⟩, trivial⟩
    · cases List.mem_singleton.mp last
      trivial
  obtain ⟨succeeds, _, outcome, _⟩ := apply_invisible valid (show Library.validate ⟨[], [], [], [.h, .t]⟩ = _
    from rfl) TransformOptions.validate_standard (⟨7⟩ : SplitMix)
  have bare : ∀ instruction ∈ crossed.instructions.toList, instruction.isGate = true → instruction.clbits = [] :=
    List.forall_mem_cons.mpr ⟨fun _ => rfl, List.forall_mem_singleton.mpr fun _ => rfl⟩
  obtain ⟨output, done⟩ := succeeds bare
  exact ⟨output, done, (outcome output done).2 (List.cons_ne_nil _ _)⟩

end Encapsulation

end CircuitCloak

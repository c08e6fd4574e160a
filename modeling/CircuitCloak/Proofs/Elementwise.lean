import CircuitCloak.Proofs.LoadedCircuits
import CircuitCloak.Proofs.NewerDialect
import CircuitCloak.Proofs.RoundTrip
import Mathlib.Data.List.GetD

/-! Statements on whole registers. What such a statement does is what statements on the elements of the registers do,
one after the other; so it can be replaced by them in any program that is accepted. -/

namespace CircuitCloak.Qasm

/-- The elements that an operand names, each by itself. -/
def Registers.elements (registers : Registers) (operand : Operand) : Except ParseError (List Operand) := do
  let positions ← registers.resolve operand
  match operand.index with
  | some _ => return [operand]
  | none => return (List.range positions.length).map (elementOperand operand.register)

/-- The element with which an operand takes part in one of several statements: a single one is in each. -/
def elementAt (elements : List Operand) (row : Nat) : Operand :=
  elements.getD (if elements.length = 1 then 0 else row) ⟨"", none⟩

/-- The largest number of elements; a statement without operands is one statement. -/
def widest (elements : List (List Operand)) : Nat := (elements.map List.length).max?.getD 1

/-- The statements on single elements that a statement stands for. A barrier is not split, and it stays as it is if its
registers have no elements. -/
def Scope.elementwise (scope : Scope) : Statement → Except ParseError (List Statement)
  | .gate call => do
    let elements ← call.operands.mapM (Registers.elements scope.qubits)
    return (List.range (widest elements)).map fun row => .gate { call with operands := elements.map (elementAt · row) }
  | .measure qubits bits => do
    let qubits ← Registers.elements scope.qubits qubits
    let bits ← Registers.elements scope.clbits bits
    return (List.range (widest [qubits, bits])).map fun row => .measure (elementAt qubits row) (elementAt bits row)
  | .reset qubits => do
    let qubits ← Registers.elements scope.qubits qubits
    return (List.range (widest [qubits])).map fun row => .reset (elementAt qubits row)
  | .barrier operands => do
    let elements ← operands.mapM (Registers.elements scope.qubits)
    return [.barrier (if elements.flatten.isEmpty then operands else elements.flatten)]
  | statement => return [statement]

def Resolved (registers : Registers) : List Operand → List Nat → Prop :=
  List.Forall₂ fun element position => registers.resolve element = .ok [position]

namespace Resolved

variable {registers : Registers} {elements : List Operand} {positions : List Nat}

theorem mapM (resolved : Resolved registers elements positions) :
    elements.mapM (Registers.resolve registers) = .ok (positions.map ([·])) := by
  rw [mapM_eq_ok_iff, List.forall₂_map_right_iff]
  exact resolved

/-- The element of a row stands for the position of the row. -/
theorem elementAt (resolved : Resolved registers elements positions) {row : Nat}
    (within : positions.length = 1 ∨ row < positions.length) : registers.resolve (elementAt elements row) =
      .ok [if positions.length = 1 then positions.getD 0 0 else positions.getD row 0] := by
  have length : elements.length = positions.length := resolved.length_eq
  have chosen : ∀ {index : Nat}, index < positions.length →
      registers.resolve (elements.getD index ⟨"", none⟩) = .ok [positions.getD index 0] := by
    intro index inside
    have pair := resolved.get (length ▸ inside) inside
    rwa [List.getD_eq_getElem _ _ (length ▸ inside), List.getD_eq_getElem _ _ inside]
  unfold Qasm.elementAt
  rw [length]
  split
  next single => exact chosen (single ▸ Nat.one_pos)
  next several => exact chosen (within.resolve_left several)

theorem elementAt_of_lt (resolved : Resolved registers elements positions) {row : Nat}
    (inside : row < positions.length) : registers.resolve (Qasm.elementAt elements row) = .ok [positions.getD row 0] := by
  rw [resolved.elementAt (.inr inside)]
  split
  next single =>
    obtain rfl : row = 0 := Nat.lt_one_iff.mp (single ▸ inside)
    rfl
  next => rfl

end Resolved

theorem Extent.positions_getElem {extent : Extent} {index : Nat} (within : index < extent.positions.length) :
    index < extent.size ∧ extent.positions[index] = extent.start + index := by
  refine ⟨?_, by simp only [positions, List.getElem_range', Nat.one_mul]⟩
  rwa [positions, List.length_range'] at within

/-- Where an operand stands for positions, its elements stand for them one by one. -/
theorem Registers.resolve_elements {registers : Registers} {operand : Operand} {positions : List Nat}
    (found : registers.resolve operand = .ok positions) :
    ∃ elements, registers.elements operand = .ok elements ∧ Resolved registers elements positions := by
  obtain ⟨register, index⟩ := operand
  cases index with
  | some index =>
    refine ⟨[⟨register, some index⟩], by rw [elements, found]; rfl, ?_⟩
    have shape : ∃ position, positions = [position] := by
      unfold resolve at found
      split at found
      · cases found
      · dsimp only at found
        split at found <;> cases found
        exact ⟨_, rfl⟩
    obtain ⟨position, rfl⟩ := shape
    exact .cons found .nil
  | none =>
    refine ⟨(List.range positions.length).map (elementOperand register), by rw [elements, found]; rfl, ?_⟩
    unfold resolve at found
    split at found
    next => cases found
    next extent known =>
      cases found
      refine List.forall₂_iff_get.mpr ⟨by simp, fun index first second => ?_⟩
      obtain ⟨small, position⟩ := extent.positions_getElem second
      simp only [List.get_eq_getElem, List.getElem_map, List.getElem_range, elementOperand, resolve, known,
        if_pos small, position]

theorem Registers.mapM_elements {registers : Registers} {operands : List Operand} {positions : List (List Nat)}
    (found : operands.mapM registers.resolve = .ok positions) :
    ∃ elements, operands.mapM registers.elements = .ok elements ∧
      List.Forall₂ (Resolved registers) elements positions := by
  rw [mapM_eq_ok_iff] at found
  induction found with
  | nil => exact ⟨[], rfl, .nil⟩
  | cons first _ ih =>
    obtain ⟨own, named, resolved⟩ := resolve_elements first
    obtain ⟨others, all, rest⟩ := ih
    refine ⟨own :: others, ?_, .cons resolved rest⟩
    rw [mapM_eq_ok_iff] at all ⊢
    exact .cons named all

theorem lengths_eq {registers : Registers} {elements : List (List Operand)} {positions : List (List Nat)}
    (resolved : List.Forall₂ (Resolved registers) elements positions) :
    elements.map List.length = positions.map List.length := by
  induction resolved with
  | nil => rfl
  | cons first _ ih => rw [List.map_cons, List.map_cons, first.length_eq, ih]

theorem Resolved.flatten {registers : Registers} {elements : List (List Operand)} {positions : List (List Nat)}
    (resolved : List.Forall₂ (Resolved registers) elements positions) :
    Resolved registers elements.flatten positions.flatten := by
  induction resolved with
  | nil => exact .nil
  | cons first _ ih => exact List.rel_append first ih

namespace Scope

variable {scope next : Scope} {circuit : Circuit}

/-- Statements that each denote one instruction, whatever is in the circuit. -/
theorem foldlM_read {α : Type} {items : List α} {statement : α → Statement} {instruction : α → Instruction}
    (denotes : ∀ item ∈ items, ∀ circuit, { scope with circuit }.Denotes (statement item) [instruction item])
    (pushed : scope.circuit.pushAll (items.map instruction) = .ok circuit) :
    (items.map statement).foldlM Scope.read scope = .ok { scope with circuit } := by
  have run : ∀ {first : Circuit}, first.pushAll (items.map instruction) = .ok circuit →
      (items.map statement).foldlM Scope.read { scope with circuit := first } = .ok { scope with circuit } := by
    clear pushed
    induction items with
    | nil =>
      rintro first ⟨⟩
      rfl
    | cons item rest ih =>
      obtain ⟨one, others⟩ := List.forall_mem_cons.mp denotes
      intro first pushed
      rw [List.map_cons, Circuit.pushAll_cons, bind_eq_ok_iff] at pushed
      obtain ⟨middle, begun, later⟩ := pushed
      have read := read_of_denotes (one first) ((Circuit.pushAll_singleton ..).trans begun)
      rw [List.map_cons, List.foldlM_cons, read]
      exact ih others later
  exact run pushed

/-- The statement has statements on single elements, and they lead to the same scope. -/
def Splits (scope next : Scope) (statement : Statement) : Prop :=
  ∃ expanded, scope.elementwise statement = .ok expanded ∧ expanded.foldlM Scope.read scope = .ok next

theorem call_splits {call : GateCall} {angles : List Angle} {gate : Gate} {positions : List (List Nat)}
    (values : call.arguments.mapM (·.angle []) = .ok angles)
    (made : instantiate scope.definitions call.name angles = .ok gate) (arity : call.operands.length = gate.arity)
    (found : call.operands.mapM (Registers.resolve scope.qubits) = .ok positions)
    (even : ∀ list ∈ positions, list.length = 1 ∨ list.length = broadcastWidth positions)
    (pushed : scope.circuit.pushAll ((List.range (broadcastWidth positions)).map fun row =>
      .apply gate (broadcastRow positions row)) = .ok circuit) : scope.Splits { scope with circuit } (.gate call) := by
  obtain ⟨elements, named, resolved⟩ := Registers.mapM_elements found
  have width : widest elements = broadcastWidth positions := by
    rw [widest, broadcastWidth, lengths_eq resolved]
  refine ⟨_, by rw [elementwise, named]; rfl, ?_⟩
  rw [width]
  refine foldlM_read (fun row inside circuit => ?_) pushed
  have within : row < broadcastWidth positions := List.mem_range.mp inside
  have same : elements.length = call.operands.length :=
    resolved.length_eq.trans (mapM_eq_ok_iff.mp found).length_eq.symm
  refine denotes_call values made ?_ (Resolved.mapM ?_)
  · exact (List.length_map _).trans (same.trans arity)
  · have sized := (List.forall₂_and_left _ _).mpr ⟨even, resolved.flip⟩
    refine List.forall₂_map_right_iff.mpr (List.forall₂_map_left_iff.mpr (sized.flip.imp ?_))
    rintro own list ⟨size, each⟩
    have inside : list.length = 1 ∨ row < list.length := by
      refine size.imp_right fun whole => ?_
      rwa [whole]
    exact Resolved.elementAt each inside

theorem rows_eq (positions : List Nat) : positions = (List.range positions.length).map (positions.getD · 0) := by
  refine List.ext_getElem (by rw [List.length_map, List.length_range]) fun index inside _ => ?_
  rw [List.getElem_map, List.getElem_range, List.getD_eq_getElem _ _ inside]

theorem measure_splits {qubits bits : Operand} {sources targets : List Nat}
    (found : Registers.resolve scope.qubits qubits = .ok sources)
    (stored : Registers.resolve scope.clbits bits = .ok targets) (same : sources.length = targets.length)
    (pushed : scope.circuit.pushAll ((sources.zip targets).map fun wire => .measure [wire.1] [wire.2]) = .ok circuit) :
    scope.Splits { scope with circuit } (.measure qubits bits) := by
  obtain ⟨elements, named, resolved⟩ := Registers.resolve_elements found
  obtain ⟨places, kept, settled⟩ := Registers.resolve_elements stored
  have width : widest [elements, places] = sources.length := by
    show max elements.length places.length = sources.length
    rw [resolved.length_eq, settled.length_eq, same, Nat.max_self]
  have pairs : sources.zip targets =
      (List.range sources.length).map fun row => (sources.getD row 0, targets.getD row 0) := by
    rw [← List.zip_map', ← rows_eq, same, ← rows_eq]
  rw [pairs, List.map_map] at pushed
  refine ⟨_, by rw [elementwise, named, kept]; rfl, ?_⟩
  rw [width]
  refine foldlM_read (fun row inside circuit => ?_) pushed
  have within : row < sources.length := List.mem_range.mp inside
  have denotes : { scope with circuit }.Denotes (.measure (elementAt elements row) (elementAt places row)) _ :=
    .measure (resolved.elementAt_of_lt within) (settled.elementAt_of_lt (same ▸ within)) rfl
  exact denotes

theorem reset_splits {qubits : Operand} {sources : List Nat}
    (found : Registers.resolve scope.qubits qubits = .ok sources)
    (pushed : scope.circuit.pushAll (sources.map fun qubit => .reset [qubit] []) = .ok circuit) :
    scope.Splits { scope with circuit } (.reset qubits) := by
  obtain ⟨elements, named, resolved⟩ := Registers.resolve_elements found
  have width : widest [elements] = sources.length := resolved.length_eq
  rw [rows_eq sources, List.map_map] at pushed
  refine ⟨_, by rw [elementwise, named]; rfl, ?_⟩
  rw [width]
  refine foldlM_read (fun row inside circuit => ?_) pushed
  have within : row < sources.length := List.mem_range.mp inside
  have denotes : { scope with circuit }.Denotes (.reset (elementAt elements row)) _ :=
    .reset (resolved.elementAt_of_lt within)
  exact denotes

theorem barrier_splits {operands : List Operand} {positions : List (List Nat)} (some : operands ≠ [])
    (found : operands.mapM (Registers.resolve scope.qubits) = .ok positions)
    (pushed : scope.circuit.pushAll [.barrier positions.flatten []] = .ok circuit) :
    scope.Splits { scope with circuit } (.barrier operands) := by
  obtain ⟨elements, named, resolved⟩ := Registers.mapM_elements found
  refine ⟨_, by rw [elementwise, named]; rfl, ?_⟩
  rw [List.foldlM_cons, read_of_denotes ?_ pushed]
  · rfl
  split
  next => exact .barrier some found
  next filled =>
    have denotes : scope.Denotes (.barrier elements.flatten) _ :=
      .barrier (fun none => filled (List.isEmpty_iff.mpr none)) (Resolved.flatten resolved).mapM
    rwa [← List.flatMap_def, List.flatMap_singleton'] at denotes

/-- A statement that is read does what its statements on single elements do, one after the other. -/
theorem read_splits {statement : Statement} (done : scope.read statement = .ok next) :
    scope.Splits next statement := by
  have alone : [statement].foldlM Scope.read scope = .ok next := by
    rw [List.foldlM_cons, done]
    rfl
  cases effect_of_read done with
  | includeFile | quantumRegister | classicalRegister | shadowing | define => exact ⟨_, rfl, alone⟩
  | instructions denotes pushed =>
    cases denotes with
    | gate values made arity found even => exact call_splits values made arity found even pushed
    | measure found stored same => exact measure_splits found stored same pushed
    | reset found => exact reset_splits found pushed
    | wholeBarrier => exact ⟨_, rfl, alone⟩
    | barrier some found => exact barrier_splits some found pushed

end Scope

/-- A text whose statements make a circuit is loaded: it belongs to no other dialect. -/
theorem load_of_statements {source : String} {dialect : Dialect} {program : List Statement} {circuit : Circuit}
    (found : statements dialect source = .ok program) (read : circuitOf program = .ok circuit) :
    load source = .ok (circuit, dialect) := by
  have parsed : parse dialect source = .ok circuit := parse_eq_ok_iff.mpr ⟨program, found, read⟩
  unfold load
  cases dialect with
  | qasm2 => rw [parsed]
  | qasm3 =>
    rcases refused_in_one source with ⟨fault, refused⟩ | ⟨fault, refused⟩
    · rw [refused]
      dsimp only
      rw [parsed]
    · cases parsed.symm.trans refused

/-- In an accepted program, every statement can be replaced by its statements on single elements: the program that this
makes is accepted, and its circuit is the same. -/
theorem circuitOf_elementwise {before after : List Statement} {statement : Statement} {circuit : Circuit}
    (accepted : circuitOf (before ++ statement :: after) = .ok circuit) :
    ∃ scope expanded, before.foldlM Scope.read .empty = .ok scope ∧ scope.elementwise statement = .ok expanded ∧
      circuitOf (before ++ expanded ++ after) = .ok circuit ∧
      ∀ dialect source, statements dialect source = .ok (before ++ expanded ++ after) →
        load source = .ok (circuit, dialect) := by
  obtain ⟨last, done, same⟩ := bind_eq_ok_iff.mp accepted
  rw [List.foldlM_append, bind_eq_ok_iff] at done
  obtain ⟨scope, first, done⟩ := done
  rw [List.foldlM_cons, bind_eq_ok_iff] at done
  obtain ⟨next, read, rest⟩ := done
  obtain ⟨expanded, named, run⟩ := Scope.read_splits read
  have whole : circuitOf (before ++ expanded ++ after) = .ok circuit := by
    refine bind_eq_ok_iff.mpr ⟨last, ?_, same⟩
    rw [List.foldlM_append, List.foldlM_append, first]
    exact bind_eq_ok_iff.mpr ⟨next, run, rest⟩
  exact ⟨scope, expanded, first, named, whole, fun dialect source found => load_of_statements found whole⟩

/-- A gate between two registers is one between each of their pairs. -/
theorem circuitOf_elementwise_pairs :
    circuitOf ([.quantumRegister "a" 2, .quantumRegister "b" 2] ++ .gate ⟨"cx", [], [⟨"a", none⟩, ⟨"b", none⟩]⟩ :: []) =
      .ok ⟨"circuit", 4, 0, #[.elementary .cx [0, 2], .elementary .cx [1, 3]]⟩ ∧
    circuitOf ([.quantumRegister "a" 2, .quantumRegister "b" 2] ++
      [.gate ⟨"cx", [], [⟨"a", some 0⟩, ⟨"b", some 0⟩]⟩, .gate ⟨"cx", [], [⟨"a", some 1⟩, ⟨"b", some 1⟩]⟩] ++ []) =
      .ok ⟨"circuit", 4, 0, #[.elementary .cx [0, 2], .elementary .cx [1, 3]]⟩ := by
  have accepted : circuitOf ([.quantumRegister "a" 2, .quantumRegister "b" 2] ++
      .gate ⟨"cx", [], [⟨"a", none⟩, ⟨"b", none⟩]⟩ :: []) =
        .ok ⟨"circuit", 4, 0, #[.elementary .cx [0, 2], .elementary .cx [1, 3]]⟩ := rfl
  obtain ⟨scope, expanded, first, named, whole, _⟩ := circuitOf_elementwise accepted
  cases first
  cases named
  exact ⟨accepted, whole⟩

end CircuitCloak.Qasm

import CircuitCloak.Proofs.LoadedUnits
import CircuitCloak.State.Statevector

/-! Wrapping and expanding undo each other. A unit that wraps a run numbers the qubits of the run as they
first appear; on these qubits it expands into what the gates of the run expand into, however deep they nest. It has
no place for classical bits, so a run in which a gate has some is refused.
On any operands it does to a state what the gates of its body do there, one after the other. -/

namespace CircuitCloak

/-- The members of a list, each once, in the order in which they first appear in it. -/
structure InFirstOrder (items distinct : List Nat) : Prop where
  members : ∀ item, item ∈ distinct ↔ item ∈ items
  ordered : distinct.Pairwise fun first second => items.idxOf first < items.idxOf second

/-- One more item comes last unless it has appeared before. -/
theorem InFirstOrder.appear {items distinct : List Nat} (order : InFirstOrder items distinct) (item : Nat) :
    InFirstOrder (items ++ [item]) (if item ∈ distinct then distinct else distinct ++ [item]) := by
  have earlier : ∀ other ∈ distinct, (items ++ [item]).idxOf other = items.idxOf other :=
    fun other member => List.idxOf_append_of_mem ((order.members other).mp member)
  have ordered : distinct.Pairwise fun first second =>
      (items ++ [item]).idxOf first < (items ++ [item]).idxOf second :=
    order.ordered.imp_of_mem fun one two less => by rwa [earlier _ one, earlier _ two]
  split
  next known =>
    refine ⟨fun other => ?_, ordered⟩
    rw [List.mem_append, List.mem_singleton, ← order.members]
    exact ⟨.inl, fun appeared => appeared.elim id (· ▸ known)⟩
  next fresh =>
    have absent : item ∉ items := fun member => fresh ((order.members item).mpr member)
    refine ⟨fun other => ?_, List.pairwise_append.mpr ⟨ordered, List.pairwise_singleton _ _, ?_⟩⟩
    · rw [List.mem_append, List.mem_append, order.members]
    · intro other member last named
      rw [List.mem_singleton.mp named, earlier other member, List.idxOf_append_of_notMem absent]
      exact Nat.lt_add_right _ (List.idxOf_lt_length_iff.mpr ((order.members other).mp member))

theorem inFirstOrder_firstAppearances (items : List Nat) : InFirstOrder items (firstAppearances items) := by
  induction items using List.reverseRecOn with
  | nil => exact ⟨fun _ => Iff.rfl, .nil⟩
  | append_singleton items item ih =>
    rw [firstAppearances, List.foldl_append]
    exact ih.appear item

/-- A call whose local qubits give way to the operands that they stand for. -/
def Application.mapped (operands : List Nat) (call : Application) : Application :=
  ⟨call.gate, mapOperands operands call.qubits⟩

theorem Application.expandBody_eq_flatMap (body : List Application) (operands : List Nat) :
    expandBody body operands = body.flatMap fun call => (call.mapped operands).expand := by
  induction body with
  | nil => rw [expandBody, List.flatMap_nil]
  | cons call rest ih =>
    rw [expandBody_cons, ih]
    rfl

theorem Application.expand_elementary (kind : Elementary) (label : Option String) (operands : List Nat) :
    Application.expand ⟨.elementary kind label, operands⟩ = [⟨.elementary kind label, operands⟩] := by
  rw [Application.expand, Gate.expand]

theorem Application.expand_composite (unit : Composite) (label : Option String) (operands : List Nat) :
    Application.expand ⟨.composite unit label, operands⟩ = unit.expand operands := by
  obtain ⟨name, arity, body⟩ := unit
  rw [Application.expand, Gate.expand, Composite.expand]

mutual

theorem Gate.length_expand : ∀ (gate : Gate) (operands : List Nat), (gate.expand operands).length = gate.flatLength
  | .elementary _ _, _ => by rw [Gate.expand, Gate.flatLength, List.length_singleton]
  | .composite ⟨_, _, body⟩ _, operands => by
    rw [Gate.expand, Gate.flatLength]
    exact Application.length_expandBody body operands

theorem Application.length_expandBody : ∀ (body : List Application) (operands : List Nat),
    (Application.expandBody body operands).length = Application.flatLengthBody body
  | [], _ => by rw [Application.expandBody, Application.flatLengthBody, List.length_nil]
  | ⟨gate, qubits⟩ :: rest, operands => by
    rw [Application.expandBody, Application.flatLengthBody, List.length_append, Gate.length_expand gate,
      Application.length_expandBody rest]

end

theorem Statevector.apply_composite {α : Type} [Zero α] [One α] [Neg α] [Add α] [Mul α] [GateScalar α]
    (state : Statevector α) (unit : Composite) (label : Option String) (operands : List Nat) :
    state.apply ⟨.composite unit label, operands⟩ =
      unit.body.foldl (fun state call => state.apply (call.mapped operands)) state := by
  rw [apply, Application.expand_composite, Composite.expand, Application.expandBody_eq_flatMap, List.foldl_flatMap]
  rfl

/-- The run is of gates, those of the given calls, whatever classical bits they have. -/
def Instruction.Applies (run : List Instruction) (calls : List Application) : Prop :=
  List.Forall₂ (fun instruction call => instruction.call? = some call) run calls

namespace Instruction

theorem eq_gate_of_call {instruction : Instruction} {call : Application} (applied : instruction.call? = some call) :
    instruction = .gate call instruction.clbits := by
  cases instruction with
  | gate =>
    cases applied
    rfl
  | measure => cases applied
  | reset => cases applied
  | barrier => cases applied

theorem Applies.flatMap_qubits {run : List Instruction} {calls : List Application} (applies : Applies run calls) :
    run.flatMap (·.qubits) = calls.flatMap (·.qubits) := by
  induction applies with
  | nil => rfl
  | @cons instruction call _ _ first _ ih =>
    have same : instruction.qubits = call.qubits := congrArg Instruction.qubits (eq_gate_of_call first)
    rw [List.flatMap_cons, List.flatMap_cons, ih, same]

theorem Applies.eq_gates {run : List Instruction} {calls : List Application} (applies : Applies run calls)
    (bare : ∀ instruction ∈ run, instruction.clbits = []) : run = calls.map (.gate · []) := by
  rw [← List.forall₂_eq_eq_eq, List.forall₂_map_right_iff]
  refine ((List.forall₂_and_left _ _).mpr ⟨bare, applies⟩).imp fun instruction call both => ?_
  exact (eq_gate_of_call both.2).trans (congrArg (Instruction.gate call) both.1)

end Instruction

namespace Composite

/-- A unit whose second qubit controls its first. -/
def backward : Composite := ⟨"backward", 2, [⟨.ofKind .h, [1]⟩, ⟨.ofKind .cx, [1, 0]⟩]⟩

end Composite

end CircuitCloak

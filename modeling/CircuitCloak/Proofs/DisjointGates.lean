import CircuitCloak.Proofs.Branches
import CircuitCloak.Proofs.Norms

/-! Gates on disjoint qubits. A gate moves amplitudes at its operands only, whatever its matrix is and however deep a
composite nests; so gates without a common operand may be applied in any order. Only the first operands count, as many
as the gate takes. -/

namespace CircuitCloak

/-- A gate with parts that are well formed, on a register that has its operands, each once and enough of them. -/
structure Application.Supplied (limit : Nat) (call : Application) : Prop where
  enough : call.gate.arity ≤ call.qubits.length
  operands : Operands limit call.qubits
  gate : call.gate.WellFormed

/-- The call without the operands that its gate does not take. -/
def Application.trimmed (call : Application) : Application := ⟨call.gate, call.qubits.take call.gate.arity⟩

def Application.Apart (first second : Application) : Prop := ∀ qubit ∈ first.qubits, qubit ∉ second.qubits

theorem Application.Apart.symm {first second : Application} (apart : first.Apart second) : second.Apart first :=
  fun qubit named member => apart qubit member named

theorem Application.Supplied.trimmed {limit : Nat} {call : Application} (supplied : call.Supplied limit) :
    call.trimmed.Valid limit where
  length := List.length_take_of_le supplied.enough
  operands := ⟨fun qubit member => supplied.operands.inside qubit (List.mem_of_mem_take member),
    supplied.operands.distinct.sublist (List.take_sublist _ _)⟩
  gate := supplied.gate

theorem mapOperands_take {arity : Nat} {operands locals : List Nat} (inside : ∀ place ∈ locals, place < arity) :
    mapOperands (operands.take arity) locals = mapOperands operands locals := by
  refine List.map_congr_left fun place member => ?_
  rw [List.getD_eq_getElem?_getD, List.getD_eq_getElem?_getD, List.getElem?_take_of_lt (inside place member)]

/-- A body reads the operands that its local qubits stand for. -/
theorem Application.expandBody_take {arity : Nat} {body : List Application} (parts : WellFormedBody arity body)
    (operands : List Nat) : expandBody body (operands.take arity) = expandBody body operands := by
  induction body with
  | nil => rw [expandBody, expandBody]
  | cons call rest ih =>
    obtain ⟨gate, qubits⟩ := call
    rw [WellFormedBody] at parts
    obtain ⟨⟨_, locals, _⟩, others⟩ := parts
    rw [expandBody, expandBody, mapOperands_take locals.inside, ih others]

namespace Statevector

section Operands

variable {α : Type} [Zero α] [One α] [Neg α] [Add α] [Mul α] [GateScalar α]

theorem applyElementary_take (kind : Elementary) (qubits : List Nat) (state : Statevector α) :
    state.applyElementary kind (qubits.take kind.arity) = state.applyElementary kind qubits := by
  match qubits with
  | [] => rw [List.take_nil]
  | [_] => cases kind <;> rfl
  | [_, _] => cases kind <;> rfl
  | _ :: _ :: _ :: _ => cases kind <;> rfl

/-- Operands that a gate does not take do not matter. -/
theorem apply_trimmed {call : Application} (parts : call.gate.WellFormed) (state : Statevector α) :
    state.apply call.trimmed = state.apply call := by
  obtain ⟨gate, qubits⟩ := call
  cases gate with
  | elementary kind label => exact applyElementary_take kind qubits state
  | composite composite label =>
    obtain ⟨name, arity, body⟩ := composite
    rw [Gate.WellFormed] at parts
    unfold apply Application.expand Application.trimmed
    rw [Gate.expand, Gate.expand]
    exact congrArg (List.foldl applyCall state) (Application.expandBody_take parts qubits)

end Operands

variable [GateScalar ℂ]

theorem acts_supplied {numQubits : Nat} {call : Application} (supplied : call.Supplied numQubits) :
    Acts numQubits call.qubits (Statevector.apply · call) := by
  have same : (Statevector.apply (α := ℂ) · call.trimmed) = (Statevector.apply · call) :=
    funext (apply_trimmed supplied.gate)
  rw [← same]
  exact (acts_call supplied.trimmed).widen fun _ member => List.mem_of_mem_take member

/-- Gates of which no two have a common operand may be applied in any order. -/
theorem foldl_apply_perm {state : Statevector ℂ} {calls reordered : List Application} (perm : calls.Perm reordered)
    (supplied : ∀ call ∈ calls, call.Supplied state.numQubits) (apart : calls.Pairwise Application.Apart) :
    calls.foldl apply state = reordered.foldl apply state := by
  induction perm generalizing state with
  | nil => rfl
  | cons call _ ih =>
    obtain ⟨_, others⟩ := List.forall_mem_cons.mp supplied
    refine ih (fun other member => ?_) apart.of_cons
    rw [numQubits_apply]
    exact others other member
  | swap second first rest =>
    obtain ⟨one, others⟩ := List.forall_mem_cons.mp supplied
    have other := (List.forall_mem_cons.mp others).1
    have swapped : (state.apply second).apply first = (state.apply first).apply second :=
      (acts_supplied one).comm (acts_supplied other) (List.rel_of_pairwise_cons apart List.mem_cons_self) rfl
    exact congrArg (rest.foldl apply) swapped.symm
  | trans before _ first second =>
    refine (first supplied apart).trans (second (fun call member => ?_) ?_)
    · exact supplied call (before.mem_iff.mpr member)
    · exact (before.pairwise_iff Application.Apart.symm).mp apart

/-- Gates without a common operand commute, whatever the matrices of the gates with angles are. -/
theorem apply_comm {state : Statevector ℂ} {first second : Application} (one : first.Supplied state.numQubits)
    (other : second.Supplied state.numQubits) (apart : first.Apart second) :
    (state.apply first).apply second = (state.apply second).apply first :=
  ((acts_supplied one).comm (acts_supplied other) apart rfl).symm

end Statevector

/-- A controlled turn in a composite of a composite. -/
def nestedTurn : Application := ⟨.composite ⟨"outer", 2, [⟨.composite
  ⟨"inner", 2, [⟨.ofKind (.crz .pi), [1, 0]⟩]⟩ none, [1, 0]⟩, ⟨.ofKind .h, [1]⟩]⟩ none, [3, 0]⟩

/-- A controlled exchange with qubits on both sides of those of the turn. -/
def wideExchange : Application := ⟨.ofKind .cswap, [4, 1, 2]⟩

theorem Statevector.apply_comm_nested :
    nestedTurn.Supplied 5 ∧ wideExchange.Supplied 5 ∧ nestedTurn.Apart wideExchange ∧
      let _ : GateScalar ℂ := withRotations fun _ => some ⟨1, 0, 0, eighthRoot⟩
      ∀ amplitudes : Vector ℂ 32, ((⟨5, amplitudes⟩ : Statevector ℂ).apply nestedTurn).apply wideExchange =
        ((⟨5, amplitudes⟩ : Statevector ℂ).apply wideExchange).apply nestedTurn := by
  have parts : nestedTurn.gate.WellFormed := by
    simp only [nestedTurn, Gate.WellFormed, Application.WellFormedBody, Gate.ofKind]
    exact ⟨⟨rfl, ⟨by decide, by decide⟩, ⟨rfl, ⟨by decide, by decide⟩, trivial⟩, trivial⟩,
      ⟨rfl, ⟨by decide, by decide⟩, trivial⟩, trivial⟩
  have turn : nestedTurn.Supplied 5 := ⟨Nat.le_refl 2, ⟨by decide, by decide⟩, parts⟩
  have swap : wideExchange.Supplied 5 := ⟨Nat.le_refl 3, ⟨by decide, by decide⟩, trivial⟩
  have apart : nestedTurn.Apart wideExchange := by
    unfold Application.Apart
    decide
  refine ⟨turn, swap, apart, ?_⟩
  intro scalar amplitudes
  exact apply_comm turn swap apart

end CircuitCloak

import CircuitCloak.Execution.Simulator
import CircuitCloak.Proofs.LoadedUnits
import CircuitCloak.Proofs.Motions

/-! What a simulator admits, and that it leaves nothing of it out. The searches for a gate that is not supported
and for an angle without a value are searches of the expansion; so in an admitted program every elementary gate,
at any depth, has a name that is supported and a matrix or an exchange to apply, unless it is the identity. -/

namespace CircuitCloak

/-- An angle has a value where no name is left in it and no divisor is zero. -/
inductive Angle.Evaluates : Angle → Float → Prop where
  | const (value : Float) : Evaluates (.const value) value
  | pi : Evaluates .pi piValue
  | neg {operand : Angle} {value : Float} (inner : Evaluates operand value) : Evaluates (.neg operand) (-value)
  | add {left right : Angle} {first second : Float} (before : Evaluates left first) (after : Evaluates right second) :
      Evaluates (.add left right) (first + second)
  | sub {left right : Angle} {first second : Float} (before : Evaluates left first) (after : Evaluates right second) :
      Evaluates (.sub left right) (first - second)
  | mul {left right : Angle} {first second : Float} (before : Evaluates left first) (after : Evaluates right second) :
      Evaluates (.mul left right) (first * second)
  | div {left right : Angle} {first second : Float} (before : Evaluates left first) (after : Evaluates right second)
      (nonzero : (second == 0) = false) : Evaluates (.div left right) (first / second)

namespace Angle

private theorem exists_of_both {first? second? : Option Float} {next : Float → Float → Option Float} {value : Float}
    (found : (do next (← first?) (← second?)) = some value) :
    ∃ first second, first? = some first ∧ second? = some second ∧ next first second = some value := by
  obtain ⟨first, known, rest⟩ := Option.bind_eq_some_iff.mp found
  obtain ⟨second, later, same⟩ := Option.bind_eq_some_iff.mp rest
  exact ⟨first, second, known, later, same⟩

theorem evaluates_of_value? {angle : Angle} {value : Float} (found : angle.value? = some value) :
    angle.Evaluates value := by
  induction angle generalizing value with
  | const number =>
    cases found
    exact .const number
  | symbol name => cases found
  | pi =>
    cases found
    exact .pi
  | neg operand ih =>
    obtain ⟨inner, known, same⟩ := Option.bind_eq_some_iff.mp found
    cases same
    exact .neg (ih known)
  | add left right ihLeft ihRight =>
    obtain ⟨first, second, before, after, same⟩ := exists_of_both found
    cases same
    exact .add (ihLeft before) (ihRight after)
  | sub left right ihLeft ihRight =>
    obtain ⟨first, second, before, after, same⟩ := exists_of_both found
    cases same
    exact .sub (ihLeft before) (ihRight after)
  | mul left right ihLeft ihRight =>
    obtain ⟨first, second, before, after, same⟩ := exists_of_both found
    cases same
    exact .mul (ihLeft before) (ihRight after)
  | div left right ihLeft ihRight =>
    obtain ⟨first, second, before, after, same⟩ := exists_of_both found
    split at same
    next => cases same
    next nonzero =>
      cases same
      exact .div (ihLeft before) (ihRight after) (eq_false_of_ne_true nonzero)

theorem value?_eq_some_iff {angle : Angle} {value : Float} :
    angle.value? = some value ↔ angle.Evaluates value := by
  refine ⟨evaluates_of_value?, fun evaluates => ?_⟩
  induction evaluates with
  | const => rfl
  | pi => rfl
  | neg _ ih => rw [value?, ih]; rfl
  | add _ _ before after => rw [value?, before, after]; rfl
  | sub _ _ before after => rw [value?, before, after]; rfl
  | mul _ _ before after => rw [value?, before, after]; rfl
  | div _ _ nonzero before after =>
    rw [value?, before, after]
    exact if_neg (ne_true_of_eq_false nonzero)

end Angle

/-- The elementary gates among applications, in order. -/
def Application.kinds (leaves : List Application) : List Elementary := leaves.filterMap (·.gate.kind?)

theorem Application.kinds_append (first second : List Application) :
    kinds (first ++ second) = kinds first ++ kinds second :=
  List.filterMap_append

variable (property : Elementary → Bool)

mutual

theorem Gate.findKind?_eq : ∀ (gate : Gate) (operands : List Nat),
    gate.findKind? property = (Application.kinds (gate.expand operands)).find? property
  | .elementary kind label, operands => by
    rw [Gate.findKind?, Gate.expand]
    change _ = [kind].find? property
    rw [List.find?_singleton]
  | .composite ⟨_, _, body⟩ _, operands => by
    rw [Gate.findKind?, Gate.expand]
    exact Application.findKindIn?_eq body operands

theorem Application.findKindIn?_eq : ∀ (body : List Application) (operands : List Nat),
    Application.findKindIn? property body =
      (Application.kinds (Application.expandBody body operands)).find? property
  | [], _ => by
    rw [Application.findKindIn?, Application.expandBody]
    rfl
  | ⟨gate, qubits⟩ :: rest, operands => by
    rw [Application.findKindIn?, Application.expandBody, Application.kinds_append, List.find?_append,
      Gate.findKind?_eq gate (mapOperands operands qubits), Application.findKindIn?_eq rest operands]
    cases (Application.kinds (gate.expand (mapOperands operands qubits))).find? property <;> rfl

end

def Instruction.expansion : Instruction → List Application
  | .gate call _ => call.expand
  | _ => []

namespace Circuit

/-- The elementary gates that a program stands for, in order. -/
def expansion (circuit : Circuit) : List Application := circuit.instructions.toList.flatMap (·.expansion)

theorem kinds_of_call {circuit : Circuit} {call : Application} {clbits : List Nat}
    (member : .gate call clbits ∈ circuit.instructions.toList) :
    ∀ kind ∈ Application.kinds call.expand, kind ∈ Application.kinds circuit.expansion := by
  intro kind named
  obtain ⟨leaf, within, same⟩ := List.mem_filterMap.mp named
  exact List.mem_filterMap.mpr ⟨leaf, List.mem_flatMap.mpr ⟨_, member, within⟩, same⟩

theorem findKind?_eq (circuit : Circuit) :
    circuit.findKind? property = (Application.kinds circuit.expansion).find? property := by
  unfold findKind? expansion Application.kinds
  rw [List.filterMap_flatMap, List.find?_flatMap]
  refine congrArg (List.findSome? · _) (funext fun instruction => ?_)
  cases instruction with
  | gate call clbits => exact Gate.findKind?_eq property call.gate call.qubits
  | measure => rfl
  | reset => rfl
  | barrier => rfl

end Circuit

theorem GateSet.contains_iff {gates : GateSet} {name : String} :
    gates.contains name = true ↔ name ∈ gates.oneQubit ∨ name ∈ gates.twoQubit ∨ name ∈ gates.threeQubit := by
  rw [contains, List.contains_iff_mem, List.mem_append, List.mem_append, or_assoc]

theorem Simulator.hasSymbolicAngle_eq_false_iff {kind : Elementary} :
    hasSymbolicAngle kind = false ↔ ∀ angle ∈ kind.angles, ∃ value, angle.Evaluates value := by
  unfold hasSymbolicAngle
  rw [List.any_eq_false]
  refine forall₂_congr fun angle _ => ?_
  rw [Bool.not_eq_true, Option.isNone_eq_false_iff, Option.isSome_iff_exists]
  exact exists_congr fun value => Angle.value?_eq_some_iff

namespace Simulator

variable {simulator : Simulator} {circuit : Circuit} {shots : Nat}

/-- What a simulator asks of a program, with every gate of its expansion. -/
structure Admits (simulator : Simulator) (circuit : Circuit) (shots : Nat) : Prop where
  positive : 1 ≤ shots
  bounded : shots ≤ simulator.capabilities.maxShots
  fits : circuit.numQubits ≤ simulator.capabilities.numQubits
  names : ∀ kind ∈ Application.kinds circuit.expansion, kind.name ∈ simulator.capabilities.gateSet.oneQubit ∨
    kind.name ∈ simulator.capabilities.gateSet.twoQubit ∨ kind.name ∈ simulator.capabilities.gateSet.threeQubit
  angles : ∀ kind ∈ Application.kinds circuit.expansion, ∀ angle ∈ kind.angles, ∃ value, angle.Evaluates value

theorem findKind?_eq_none_iff {property : Elementary → Bool} : circuit.findKind? property = none ↔
    ∀ kind ∈ Application.kinds circuit.expansion, property kind = false := by
  rw [Circuit.findKind?_eq, List.find?_eq_none]
  simp only [Bool.not_eq_true]

theorem check_ok_iff {capabilities : Capabilities} : capabilities.check circuit shots = .ok () ↔
    1 ≤ shots ∧ shots ≤ capabilities.maxShots ∧ circuit.numQubits ≤ capabilities.numQubits ∧
      ∀ kind ∈ Application.kinds circuit.expansion, capabilities.gateSet.contains kind.name = true := by
  have searched : circuit.findKind? (fun kind => !capabilities.gateSet.contains kind.name) = none ↔
      ∀ kind ∈ Application.kinds circuit.expansion, capabilities.gateSet.contains kind.name = true := by
    rw [findKind?_eq_none_iff]
    simp only [Bool.not_eq_false']
  unfold Capabilities.check
  rw [ite_error_eq_ok_iff, ite_error_eq_ok_iff, ite_error_eq_ok_iff, Nat.not_lt, Nat.not_lt, ← searched]
  refine and_congr Nat.one_le_iff_ne_zero.symm (and_congr_right fun _ => and_congr_right fun _ => ?_)
  cases circuit.findKind? (fun kind => !capabilities.gateSet.contains kind.name) with
  | some kind => exact ⟨nofun, nofun⟩
  | none => exact ⟨fun _ => rfl, fun _ => rfl⟩

theorem validate_ok_iff : simulator.validate circuit shots = .ok () ↔ simulator.Admits circuit shots := by
  unfold validate
  rw [check_bind_eq_ok_iff, check_ok_iff]
  have searched : circuit.findKind? hasSymbolicAngle = none ↔ ∀ kind ∈ Application.kinds circuit.expansion,
      ∀ angle ∈ kind.angles, ∃ value, angle.Evaluates value := by
    rw [findKind?_eq_none_iff]
    exact forall₂_congr fun kind _ => hasSymbolicAngle_eq_false_iff
  constructor
  · rintro ⟨⟨positive, bounded, fits, names⟩, admitted⟩
    refine ⟨positive, bounded, fits, fun kind member => GateSet.contains_iff.mp (names kind member), searched.mp ?_⟩
    split at admitted
    next => cases admitted
    next absent => exact absent
  · rintro ⟨positive, bounded, fits, names, angles⟩
    refine ⟨⟨positive, bounded, fits, fun kind member => GateSet.contains_iff.mpr (names kind member)⟩, ?_⟩
    rw [searched.mpr angles]

end Simulator

namespace Statevector

variable {kind : Elementary} {qubits : List Nat}

/-- What applying a gate to a state comes to: a matrix or an exchange on its operands, or nothing for the
identity. -/
inductive Performed (kind : Elementary) (qubits : List Nat) (state : Statevector FloatComplex) :
    Statevector FloatComplex → Prop where
  | identity (same : kind = .id) : Performed kind qubits state state
  | matrix {controls : List Nat} {target : Nat} {matrix : QubitMatrix FloatComplex}
      (operands : qubits = controls ++ [target]) (found : targetMatrix? kind = some matrix) :
      Performed kind qubits state (state.applyTo (Kernel.maskOf controls) target (some matrix))
  | exchange {controls : List Nat} {first second : Nat} (operands : qubits = controls ++ [first, second])
      (same : kind = .swap ∨ kind = .cswap) :
      Performed kind qubits state (state.exchange (Kernel.maskOf controls) first second)

/-- Where its angles have values, a gate has a matrix, unless it exchanges qubits or is the identity. -/
theorem exists_matrix (valued : ∀ angle ∈ kind.angles, ∃ value, angle.Evaluates value) :
    kind = .id ∨ kind = .swap ∨ kind = .cswap ∨
      ∃ matrix : QubitMatrix FloatComplex, targetMatrix? kind = some matrix := by
  cases kind with
  | id => exact .inl rfl
  | swap => exact .inr (.inl rfl)
  | cswap => exact .inr (.inr (.inl rfl))
  | rx angle | ry angle | rz angle | p angle | crz angle | cp angle =>
    obtain ⟨value, evaluates⟩ := valued angle (List.mem_singleton_self angle)
    exact .inr (.inr (.inr ⟨_, congrArg (Option.map _) (Angle.value?_eq_some_iff.mpr evaluates)⟩))
  | u theta phi lambda =>
    obtain ⟨first, one⟩ := valued theta (by simp [Elementary.angles])
    obtain ⟨second, two⟩ := valued phi (by simp [Elementary.angles])
    obtain ⟨third, three⟩ := valued lambda (by simp [Elementary.angles])
    refine .inr (.inr (.inr ⟨eulerRotation first second third, ?_⟩))
    change rotationMatrix? (.u theta phi lambda) = _
    rw [rotationMatrix?, Angle.value?_eq_some_iff.mpr one, Angle.value?_eq_some_iff.mpr two,
      Angle.value?_eq_some_iff.mpr three]
    rfl
  | _ => exact .inr (.inr (.inr ⟨_, rfl⟩))

theorem motion_of_matrix {matrix : QubitMatrix FloatComplex} (length : qubits.length = kind.arity)
    (found : targetMatrix? kind = some matrix) : ∃ controls target, qubits = controls ++ [target] ∧
      kind.motion qubits = .turn controls target matrix := by
  have turned : ∃ controls target, qubits = controls ++ [target] ∧
      (kind.motion qubits : Motion FloatComplex) = .ofMatrix controls target (targetMatrix? kind) := by
    match qubits with
    | [] => cases kind <;> cases length
    | [target] =>
      refine ⟨[], target, rfl, ?_⟩
      cases kind <;> rfl
    | [control, target] =>
      refine ⟨[control], target, rfl, ?_⟩
      cases kind with
      | swap => cases found
      | _ => rfl
    | [control, other, target] =>
      refine ⟨[control, other], target, rfl, ?_⟩
      cases kind with
      | cswap => cases found
      | _ => first | rfl | cases length
    | _ :: _ :: _ :: _ :: _ => cases kind <;> cases length
  rw [found] at turned
  exact turned

theorem performed_applyElementary (length : qubits.length = kind.arity)
    (valued : ∀ angle ∈ kind.angles, ∃ value, angle.Evaluates value) (state : Statevector FloatComplex) :
    Performed kind qubits state (state.applyElementary kind qubits) := by
  rw [applyElementary_eq_move length]
  rcases exists_matrix valued with rfl | rfl | rfl | ⟨matrix, found⟩
  · exact .identity rfl
  · obtain ⟨first, second, rfl⟩ := List.length_eq_two.mp length
    have operands : [first, second] = [] ++ [first, second] := rfl
    exact .exchange operands (.inl rfl)
  · obtain ⟨control, first, second, rfl⟩ := List.length_eq_three.mp length
    have operands : [control, first, second] = [control] ++ [first, second] := rfl
    exact .exchange operands (.inr rfl)
  · obtain ⟨controls, target, operands, turned⟩ := motion_of_matrix length found
    rw [turned]
    exact .matrix operands found

/-- Gates that are performed one after another, none of them left out. -/
inductive Runs : List Application → Statevector FloatComplex → Statevector FloatComplex → Prop where
  | nil (state : Statevector FloatComplex) : Runs [] state state
  | cons {kind : Elementary} {label : Option String} {qubits : List Nat} {leaves : List Application}
      {state next after : Statevector FloatComplex} (performed : Performed kind qubits state next)
      (rest : Runs leaves next after) : Runs (⟨.elementary kind label, qubits⟩ :: leaves) state after

theorem Runs.append {first second : List Application} {state next after : Statevector FloatComplex}
    (runs : Runs first state next) (rest : Runs second next after) : Runs (first ++ second) state after := by
  induction runs with
  | nil => exact rest
  | cons performed _ ih => exact .cons performed (ih rest)

theorem runs_foldl {leaves : List Application} {limit : Nat} {operands : List Nat}
    (leaf : ∀ call ∈ leaves, call.Leaf limit operands)
    (valued : ∀ kind ∈ Application.kinds leaves, ∀ angle ∈ kind.angles, ∃ value, angle.Evaluates value)
    (state : Statevector FloatComplex) : Runs leaves state (leaves.foldl applyCall state) := by
  induction leaves generalizing state with
  | nil => exact .nil state
  | cons call leaves ih =>
    obtain ⟨first, others⟩ := List.forall_mem_cons.mp leaf
    obtain ⟨gate, qubits⟩ := call
    obtain ⟨⟨kind, label, rfl⟩, length, _, _⟩ := first
    obtain ⟨one, more⟩ := List.forall_mem_cons.mp (show ∀ next ∈ kind :: Application.kinds leaves, _ from valued)
    exact .cons (performed_applyElementary length one state) (ih others more _)

theorem runs_applyAll {instructions : List Instruction}
    (runs : ∀ call clbits, .gate call clbits ∈ instructions → ∀ state, Runs call.expand state (state.apply call))
    (state : Statevector FloatComplex) :
    Runs (instructions.flatMap (·.expansion)) state (state.applyAll instructions) := by
  induction instructions generalizing state with
  | nil => exact .nil state
  | cons instruction instructions ih =>
    rw [List.flatMap_cons]
    have others := ih fun call clbits member => runs call clbits (List.mem_cons_of_mem _ member)
    cases instruction with
    | gate call clbits => exact (runs call clbits List.mem_cons_self state).append (others _)
    | measure => exact others state
    | reset => exact others state
    | barrier => exact others state

end Statevector

/-- Every gate of the circuit has as many operands as it takes, each once, and is well formed at every depth. -/
def Circuit.WellFormed (circuit : Circuit) : Prop :=
  ∀ call clbits, .gate call clbits ∈ circuit.instructions.toList → call.Formed ∧ call.gate.WellFormed

namespace Simulator

open Statevector

/-- A unit in which another one is called, on operands in another order. -/
def crossedUnits : Composite := ⟨"outer", 3, [⟨.composite
  ⟨"inner", 2, [⟨.ofKind .h, [0]⟩, ⟨.ofKind (.cp (.neg .pi)), [1, 0]⟩]⟩ none, [2, 0]⟩, ⟨.ofKind .cswap, [0, 1, 2]⟩]⟩

def crossedCalls : Circuit := ⟨"crossed", 3, 1, #[.apply (.composite crossedUnits none) [1, 0, 2], .measure [0] [0]]⟩

end Simulator

end CircuitCloak

import CircuitCloak.Proofs.Listings
import CircuitCloak.Proofs.LoadedCircuits
import CircuitCloak.Proofs.ParsedNames

/-! A loaded circuit can be written, but for numbers that are too large: names come from the text, and gates from the
definitions before them. -/

namespace CircuitCloak.Qasm

theorem sayable_combine {operator : Operator} {left right angle : Angle} (first : Sayable left) (second : Sayable right)
    (done : combine operator left right = .ok angle) : Sayable angle := by
  cases operator with
  | pow =>
    unfold combine at done
    dsimp only at done
    split at done <;> cases done
    trivial
  | add | sub | mul | div =>
    cases done
    exact ⟨first, second⟩

theorem sayable_angle {bindings : Bindings} (bound : ∀ binding ∈ bindings, Sayable binding.2) :
    ∀ {expression : Expr} {angle : Angle}, expression.Named → expression.angle bindings = .ok angle → Sayable angle
  | .int _, _, _, done | .decimal _, _, _, done | .pi, _, _, done | .tau, _, _, done | .euler, _, _, done => by
    cases done
    trivial
  | .name symbol, _, named, done => by
    cases done
    cases known : bindings.lookup symbol with
    | none => exact named
    | some angle =>
      obtain ⟨before, after, same, _⟩ := List.lookup_eq_some_iff.mp known
      exact bound (symbol, angle) (same ▸ List.mem_append_right before List.mem_cons_self)
  | .neg operand, _, named, done => by
    rw [Expr.angle] at done
    obtain ⟨inner, made, same⟩ := bind_eq_ok_iff.mp done
    cases same
    have within : operand.Named := named
    have held := sayable_angle bound within made
    exact held
  | .paren operand, _, named, done => by
    rw [Expr.angle] at done
    have within : operand.Named := named
    exact sayable_angle bound within done
  | .binary left operator right, _, named, done => by
    rw [Expr.angle] at done
    obtain ⟨first, one, later⟩ := bind_eq_ok_iff.mp done
    obtain ⟨second, two, combined⟩ := bind_eq_ok_iff.mp later
    obtain ⟨former, latter⟩ : left.Named ∧ right.Named := named
    exact sayable_combine (sayable_angle bound former one) (sayable_angle bound latter two) combined
  | .call function [argument], _, _, done => by
    rw [Expr.angle] at done
    obtain ⟨inner, _, later⟩ := bind_eq_ok_iff.mp done
    split at later
    · cases later
    · split at later <;> cases later
      trivial
  | .call function [], _, _, done | .call function (_ :: _ :: _), _, _, done => by
    cases done

theorem sayable_angles {bindings : Bindings} (bound : ∀ binding ∈ bindings, Sayable binding.2) {expressions : List Expr}
    (named : ∀ expression ∈ expressions, expression.Named) {angles : List Angle}
    (done : expressions.mapM (·.angle bindings) = .ok angles) : ∀ angle ∈ angles, Sayable angle := by
  intro angle member
  obtain ⟨expression, within, made⟩ := exists_mem_of_forall₂ (mapM_eq_ok_iff.mp done) member
  exact sayable_angle bound (named expression within) made

theorem sayable_builtin {name : String} {builtin : Builtin} (known : builtin? name = some builtin) {angles : List Angle}
    (sayable : ∀ angle ∈ angles, Sayable angle) : ∀ angle ∈ (builtin.make angles).angles, Sayable angle := by
  have head : Sayable (angles.headD (.const 0)) := by
    cases angles with
    | nil => trivial
    | cons first rest => exact sayable first List.mem_cons_self
  have each : ∀ position, Sayable (angles.getD position (.const 0)) := by
    intro position
    rw [List.getD_eq_getElem?_getD]
    cases found : angles[position]? with
    | none => trivial
    | some angle => exact sayable angle (List.mem_of_getElem? found)
  have discrete : ∀ {kind : Elementary}, Elementary.ofName? name = some kind → kind.angles = [] := by
    intro kind found
    unfold Elementary.ofName? at found
    split at found <;> cases found <;> rfl
  unfold builtin? at known
  split at known
  case h_16 =>
    obtain ⟨kind, found, rfl⟩ := Option.map_eq_some_iff.mp known
    exact fun angle member => absurd (discrete found ▸ member) List.not_mem_nil
  all_goals
    cases known
    first
      | exact List.forall_mem_singleton.mpr head
      | exact List.forall_mem_cons.mpr ⟨each 0, List.forall_mem_cons.mpr ⟨each 1, List.forall_mem_singleton.mpr (each 2)⟩⟩
      | exact List.forall_mem_cons.mpr ⟨⟨trivial, trivial⟩,
          List.forall_mem_cons.mpr ⟨each 0, List.forall_mem_singleton.mpr (each 1)⟩⟩
      | exact nofun

theorem sayable_ofKind {kind : Elementary} (sayable : ∀ angle ∈ kind.angles, Sayable angle) :
    (Gate.ofKind kind).WellFormed ∧ SayableGate (.ofKind kind) := by
  rw [Gate.ofKind, Gate.WellFormed, SayableGate]
  exact ⟨trivial, sayable⟩

theorem sayableBody_iff {body : List Application} : SayableBody body ↔ ∀ call ∈ body, SayableGate call.gate := by
  induction body with
  | nil => simp [SayableBody]
  | cons call rest ih =>
    obtain ⟨gate, qubits⟩ := call
    rw [SayableBody, ih, List.forall_mem_cons]

/-- A composite of gates that can be written can be written under its name, if it has a qubit. -/
theorem sayable_ofInstructions {name : String} (named : GateNamed name) {arity : Nat} (some : 0 < arity)
    {body : List Instruction} (parts : ∀ call, .gate call [] ∈ body →
      call.qubits.length = call.gate.arity ∧ call.gate.WellFormed ∧ SayableGate call.gate)
    {composite : Composite} (made : Composite.ofInstructions name arity body = .ok composite) (label : Option String) :
    (Gate.composite composite label).WellFormed ∧ SayableGate (.composite composite label) := by
  have formed (call : Application) (member : .gate call [] ∈ body) :
      call.qubits.length = call.gate.arity ∧ call.gate.WellFormed :=
    ⟨(parts call member).1, (parts call member).2.1⟩
  refine ⟨Composite.wellFormed_of_ofInstructions formed made label, ?_⟩
  obtain ⟨calls, rfl, _, rfl⟩ := Composite.ofInstructions_eq_ok_iff.mp made
  rw [SayableGate, sayableBody_iff]
  exact ⟨named, some, fun call member => (parts call (List.mem_map_of_mem member)).2.2⟩

theorem sayable_instantiate {definitions : List GateDefinition} (named : ∀ definition ∈ definitions, definition.Named)
    {name : String} {angles : List Angle} (sayable : ∀ angle ∈ angles, Sayable angle) {gate : Gate}
    (made : instantiate definitions name angles = .ok gate) : gate.WellFormed ∧ SayableGate gate := by
  induction definitions generalizing name angles gate with
  | nil =>
    rw [instantiate] at made
    split at made
    next known =>
      split at made <;> cases made
      exact sayable_ofKind (sayable_builtin known sayable)
    next => cases made
  | cons definition earlier ih =>
    obtain ⟨own, others⟩ := List.forall_mem_cons.mp named
    rw [instantiate] at made
    split at made
    next known =>
      split at made <;> cases made
      exact sayable_ofKind (sayable_builtin known sayable)
    next =>
      dsimp only at made
      split at made
      · exact ih others sayable made
      next same =>
        split at made
        · cases made
        obtain ⟨body, calls, later⟩ := bind_eq_ok_iff.mp made
        obtain ⟨composite, joined, whole⟩ := bind_eq_ok_iff.mp later
        cases whole
        have bound : ∀ binding ∈ definition.formals.zip angles, Sayable binding.2 :=
          fun binding member => sayable _ (List.of_mem_zip (show (binding.1, binding.2) ∈ _ from member)).2
        refine sayable_ofInstructions (of_not_not same ▸ own.name) (List.length_pos_of_ne_nil own.qubits) (fun call member => ?_)
          (ofCircuit_eq_ok_iff.mp joined) none
        obtain ⟨read, within, done⟩ := exists_mem_of_forall₂ (mapM_eq_ok_iff.mp calls) member
        obtain ⟨values, valued, done⟩ := bind_eq_ok_iff.mp done
        obtain ⟨inner, found, done⟩ := bind_eq_ok_iff.mp done
        obtain ⟨_, arity, done⟩ := bind_eq_ok_iff.mp done
        obtain ⟨locals, places, done⟩ := bind_eq_ok_iff.mp done
        cases done
        have length := (mapM_eq_ok_iff.mp places).length_eq.symm.trans (ensureArity_ok_iff.mp arity)
        exact ⟨length, ih others (sayable_angles bound (own.body read within) valued) found⟩

/-- Definitions have names that can be written, and so have the gates. -/
structure Scope.Sayable (scope : Scope) : Prop where
  definitions : ∀ definition ∈ scope.definitions, definition.Named
  instructions : ∀ instruction ∈ scope.circuit.instructions.toList, SayableInstruction instruction

namespace Scope

variable {scope next : Scope}

theorem sayable_of_denotes (sayable : scope.Sayable) {statement : Statement} (named : statement.Named)
    {instructions : List Instruction} (denotes : scope.Denotes statement instructions) :
    ∀ instruction ∈ instructions, SayableInstruction instruction := by
  cases denotes with
  | gate values made =>
    have whole := sayable_instantiate sayable.definitions (sayable_angles (List.forall_mem_nil _) named values) made
    exact List.forall_mem_map.mpr fun _ _ => whole
  | measure | reset => exact List.forall_mem_map.mpr fun _ _ => trivial
  | wholeBarrier | barrier => exact List.forall_mem_singleton.mpr trivial

theorem Sayable.read (sayable : scope.Sayable) {statement : Statement} (named : statement.Named)
    (done : scope.read statement = .ok next) : next.Sayable := by
  cases effect_of_read done with
  | includeFile | shadowing | quantumRegister | classicalRegister => exact ⟨sayable.definitions, sayable.instructions⟩
  | instructions denotes pushed =>
    obtain ⟨_, rfl⟩ := Circuit.pushAll_eq_ok_iff.mp pushed
    refine ⟨sayable.definitions, ?_⟩
    rw [Array.toList_append]
    exact List.forall_mem_append.mpr ⟨sayable.instructions, sayable_of_denotes sayable named denotes⟩
  | define => exact ⟨List.forall_mem_cons.mpr ⟨named, sayable.definitions⟩, sayable.instructions⟩

end Scope

/-- A circuit whose statements have names that can be written can be written itself. -/
theorem sayable_of_circuitOf {statements : List Statement} (named : ∀ statement ∈ statements, statement.Named)
    {circuit : Circuit} (read : circuitOf statements = .ok circuit) : circuit.Sayable := by
  have sound := (reachable_of_circuitOf read).sound
  obtain ⟨scope, done, same⟩ := bind_eq_ok_iff.mp read
  cases same
  have start : Scope.empty.Sayable := ⟨List.forall_mem_nil _, List.forall_mem_nil _⟩
  have whole : scope.Sayable := foldlM_preserves_of_mem
    (fun statement member _ _ sayable done => Scope.Sayable.read sayable (named statement member) done) start done
  exact ⟨sound, whole.instructions⟩

/-- Every loaded circuit can be written, but for large numbers. -/
theorem sayable_of_load {source : String} {circuit : Circuit} {dialect : Dialect}
    (loaded : load source = .ok (circuit, dialect)) : circuit.Sayable := by
  obtain ⟨statements, found, read⟩ := parse_eq_ok_iff.mp (parse_of_load loaded)
  exact sayable_of_circuitOf (named_statements found) read

end CircuitCloak.Qasm

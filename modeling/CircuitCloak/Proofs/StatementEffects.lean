import CircuitCloak.Proofs.Fitting
import CircuitCloak.Qasm.Load

/-! What a statement does when it is read. It adds a register or a definition, or it denotes instructions, which are
pushed one after the other. What reading preserves is shown by cases on this. -/

namespace CircuitCloak.Qasm

theorem ofCircuit_eq_ok_iff {α : Type} {outcome : Except CircuitError α} {value : α} :
    ofCircuit outcome = .ok value ↔ outcome = .ok value := by
  cases outcome <;> simp [ofCircuit]

theorem ensureArity_ok_iff {gate : Gate} {got : Nat} {result : Unit} :
    ensureArity gate got = .ok result ↔ got = gate.arity := by
  unfold ensureArity
  split
  next same => exact iff_of_true rfl same
  next other => exact iff_of_false nofun other

theorem broadcastWidth_singletons (qubits : List Nat) : broadcastWidth (qubits.map ([·])) = 1 := by
  have ones : (qubits.map ([·])).map List.length = List.replicate qubits.length 1 := by
    rw [List.map_map]
    exact List.map_const'
  rw [broadcastWidth, ones, List.max?_replicate]
  split <;> rfl

theorem broadcastRow_singletons (qubits : List Nat) : broadcastRow (qubits.map ([·])) 0 = qubits := by
  rw [broadcastRow, List.map_map]
  exact List.map_id qubits

namespace Scope

variable {scope next : Scope}

theorem push_eq_ok_iff {instruction : Instruction} : scope.push instruction = .ok next ↔
    ∃ circuit, scope.circuit.push instruction = .ok circuit ∧ next = { scope with circuit } := by
  unfold push
  rw [bind_eq_ok_iff]
  refine exists_congr fun circuit => and_congr ofCircuit_eq_ok_iff ?_
  exact ⟨fun same => (Except.ok.inj same).symm, fun same => congrArg Except.ok same.symm⟩

theorem foldlM_push_eq_ok_iff {α : Type} {instruction : α → Instruction} {items : List α} :
    items.foldlM (fun scope item => scope.push (instruction item)) scope = .ok next ↔
      ∃ circuit, scope.circuit.pushAll (items.map instruction) = .ok circuit ∧ next = { scope with circuit } := by
  induction items generalizing scope with
  | nil =>
    constructor
    · rintro ⟨⟩
      exact ⟨_, rfl, rfl⟩
    · rintro ⟨_, ⟨⟩, rfl⟩
      rfl
  | cons item rest ih =>
    simp only [List.foldlM_cons, List.map_cons, Circuit.pushAll_cons, bind_eq_ok_iff, ih, push_eq_ok_iff]
    constructor
    · rintro ⟨_, ⟨circuit, pushed, rfl⟩, last, more, same⟩
      exact ⟨last, ⟨circuit, pushed, more⟩, same⟩
    · rintro ⟨last, ⟨circuit, pushed, more⟩, same⟩
      exact ⟨_, ⟨circuit, pushed, rfl⟩, last, more, same⟩

/-- The instructions that a statement stands for, by what its names stand for. -/
inductive Denotes (scope : Scope) : Statement → List Instruction → Prop
  | gate {call : GateCall} {angles : List Angle} {gate : Gate} {positions : List (List Nat)}
      (values : call.arguments.mapM (·.angle []) = .ok angles)
      (made : instantiate scope.definitions call.name angles = .ok gate) (arity : call.operands.length = gate.arity)
      (found : call.operands.mapM (Registers.resolve scope.qubits) = .ok positions)
      (even : ∀ list ∈ positions, list.length = 1 ∨ list.length = broadcastWidth positions) :
      Denotes scope (.gate call)
        ((List.range (broadcastWidth positions)).map fun row => .apply gate (broadcastRow positions row))
  | measure {qubits bits : Operand} {sources targets : List Nat}
      (found : Registers.resolve scope.qubits qubits = .ok sources)
      (stored : Registers.resolve scope.clbits bits = .ok targets) (same : sources.length = targets.length) :
      Denotes scope (.measure qubits bits) ((sources.zip targets).map fun wire => .measure [wire.1] [wire.2])
  | reset {qubits : Operand} {sources : List Nat} (found : Registers.resolve scope.qubits qubits = .ok sources) :
      Denotes scope (.reset qubits) (sources.map fun qubit => .reset [qubit] [])
  | wholeBarrier : Denotes scope (.barrier []) [.barrier (List.range scope.circuit.numQubits) []]
  | barrier {operands : List Operand} {positions : List (List Nat)} (named : operands ≠ [])
      (found : operands.mapM (Registers.resolve scope.qubits) = .ok positions) :
      Denotes scope (.barrier operands) [.barrier positions.flatten []]

/-- A call on single elements is one gate. -/
theorem denotes_call {call : GateCall} {angles : List Angle} {gate : Gate} {positions : List Nat}
    (values : call.arguments.mapM (·.angle []) = .ok angles)
    (made : instantiate scope.definitions call.name angles = .ok gate) (arity : call.operands.length = gate.arity)
    (found : call.operands.mapM (Registers.resolve scope.qubits) = .ok (positions.map ([·]))) :
    scope.Denotes (.gate call) [.apply gate positions] := by
  have even : ∀ list ∈ positions.map ([·]), list.length = 1 ∨ list.length = broadcastWidth (positions.map ([·])) :=
    List.forall_mem_map.mpr fun _ _ => .inl rfl
  have denotes : scope.Denotes (.gate call) _ := .gate values made arity found even
  rwa [broadcastWidth_singletons, List.range_one, List.map_singleton, broadcastRow_singletons] at denotes

/-- What a statement makes of a scope. -/
inductive Effect (scope : Scope) : Statement → Scope → Prop
  | includeFile (path : String) : Effect scope (.includeFile path) scope
  | quantumRegister {name : String} {size : Nat} (fresh : scope.isDeclared name = false)
      (word : scope.circuit.numQubits + size < wordCount) :
      Effect scope (.quantumRegister name size) { scope with
        qubits := (name, ⟨scope.circuit.numQubits, size⟩) :: scope.qubits
        circuit := { scope.circuit with numQubits := scope.circuit.numQubits + size } }
  | classicalRegister {name : String} {size : Nat} (fresh : scope.isDeclared name = false)
      (word : scope.circuit.numClbits + size < wordCount) :
      Effect scope (.classicalRegister name size) { scope with
        clbits := (name, ⟨scope.circuit.numClbits, size⟩) :: scope.clbits
        circuit := { scope.circuit with numClbits := scope.circuit.numClbits + size } }
  | instructions {statement : Statement} {instructions : List Instruction} {circuit : Circuit}
      (denotes : scope.Denotes statement instructions) (pushed : scope.circuit.pushAll instructions = .ok circuit) :
      Effect scope statement { scope with circuit }
  | shadowing {definition : GateDefinition} (fixed : isBuiltin definition.name = true) :
      Effect scope (.define definition) scope
  | define {definition : GateDefinition} (own : isBuiltin definition.name = false)
      (fresh : scope.isDefined definition.name = false)
      (known : ∀ call ∈ definition.body, (isBuiltin call.name || scope.isDefined call.name) = true) :
      Effect scope (.define definition) { scope with definitions := definition :: scope.definitions }

private theorem evenLengths_iff {positions : List (List Nat)} {width : Nat} :
    positions.find? (fun list => list.length ≠ 1 && list.length ≠ width) = none ↔
      ∀ list ∈ positions, list.length = 1 ∨ list.length = width := by
  rw [List.find?_eq_none]
  refine forall₂_congr fun list _ => ?_
  rw [Bool.and_eq_true, decide_eq_true_iff, decide_eq_true_iff]
  exact Decidable.not_and_iff_not_or_not.trans (or_congr Decidable.not_not Decidable.not_not)

private theorem unknownCall_iff {definition : GateDefinition} :
    definition.body.find? (fun call => !isBuiltin call.name && !scope.isDefined call.name) = none ↔
      ∀ call ∈ definition.body, (isBuiltin call.name || scope.isDefined call.name) = true := by
  rw [List.find?_eq_none]
  refine forall₂_congr fun call _ => ?_
  rw [← Bool.not_or, Bool.not_eq_true, Bool.not_eq_false']

theorem effect_of_read {statement : Statement} (done : scope.read statement = .ok next) :
    scope.Effect statement next := by
  cases statement with
  | includeFile path =>
    cases done
    exact .includeFile path
  | quantumRegister name size =>
    obtain ⟨fresh, grown⟩ := ite_error_eq_ok_iff.mp done
    obtain ⟨circuit, enlarged, same⟩ := bind_eq_ok_iff.mp grown
    obtain ⟨word, rfl⟩ := Circuit.growQubits_eq_ok_iff.mp enlarged
    cases same
    exact .quantumRegister (Bool.eq_false_iff.mpr fresh) word
  | classicalRegister name size =>
    obtain ⟨fresh, grown⟩ := ite_error_eq_ok_iff.mp done
    obtain ⟨circuit, enlarged, same⟩ := bind_eq_ok_iff.mp grown
    obtain ⟨word, rfl⟩ := Circuit.growClbits_eq_ok_iff.mp enlarged
    cases same
    exact .classicalRegister (Bool.eq_false_iff.mpr fresh) word
  | gate call =>
    simp only [read, refusing_eq_ok_iff, Scope.call, bind_eq_ok_iff, ensureArity_ok_iff] at done
    obtain ⟨angles, values, gate, made, _, arity, positions, found, done⟩ := done
    split at done
    next => cases done
    next even =>
      obtain ⟨circuit, pushed, rfl⟩ := foldlM_push_eq_ok_iff.mp done
      exact .instructions (.gate values made arity found (evenLengths_iff.mp even)) pushed
  | measure qubits bits =>
    obtain ⟨sources, found, done⟩ := bind_eq_ok_iff.mp (refusing_eq_ok_iff.mp done)
    obtain ⟨targets, stored, done⟩ := bind_eq_ok_iff.mp done
    obtain ⟨same, done⟩ := ite_error_eq_ok_iff.mp done
    obtain ⟨circuit, pushed, rfl⟩ := foldlM_push_eq_ok_iff.mp done
    exact .instructions (.measure found stored (Decidable.not_not.mp same)) pushed
  | reset qubits =>
    obtain ⟨sources, found, done⟩ := bind_eq_ok_iff.mp (refusing_eq_ok_iff.mp done)
    obtain ⟨circuit, pushed, rfl⟩ := foldlM_push_eq_ok_iff.mp done
    exact .instructions (.reset found) pushed
  | barrier operands =>
    simp only [read, refusing_eq_ok_iff, Scope.barrier] at done
    split at done
    next empty =>
      obtain rfl := List.isEmpty_iff.mp empty
      obtain ⟨circuit, pushed, rfl⟩ := push_eq_ok_iff.mp done
      exact .instructions .wholeBarrier ((Circuit.pushAll_singleton ..).trans pushed)
    next filled =>
      obtain ⟨positions, found, done⟩ := bind_eq_ok_iff.mp done
      obtain ⟨circuit, pushed, rfl⟩ := push_eq_ok_iff.mp done
      have named : operands ≠ [] := fun none => filled (List.isEmpty_iff.mpr none)
      exact .instructions (.barrier named found) ((Circuit.pushAll_singleton ..).trans pushed)
  | define definition =>
    simp only [read, refusing_eq_ok_iff, Scope.define] at done
    split at done
    next fixed =>
      cases done
      exact .shadowing fixed
    next own =>
      obtain ⟨fresh, done⟩ := ite_error_eq_ok_iff.mp done
      split at done
      next => cases done
      next known =>
        cases done
        exact .define (Bool.eq_false_iff.mpr own) (Bool.eq_false_iff.mpr fresh) (unknownCall_iff.mp known)

theorem read_of_denotes {statement : Statement} {instructions : List Instruction} {circuit : Circuit}
    (denotes : scope.Denotes statement instructions) (pushed : scope.circuit.pushAll instructions = .ok circuit) :
    scope.read statement = .ok { scope with circuit } := by
  cases denotes with
  | gate values made arity found even =>
    simp only [read, refusing_eq_ok_iff, Scope.call, bind_eq_ok_iff, ensureArity_ok_iff]
    refine ⟨_, values, _, made, (), arity, _, found, ?_⟩
    rw [evenLengths_iff.mpr even]
    exact foldlM_push_eq_ok_iff.mpr ⟨circuit, pushed, rfl⟩
  | measure found stored same =>
    refine refusing_eq_ok_iff.mpr (bind_eq_ok_iff.mpr ⟨_, found, bind_eq_ok_iff.mpr ⟨_, stored, ?_⟩⟩)
    exact ite_error_eq_ok_iff.mpr ⟨not_not_intro same, foldlM_push_eq_ok_iff.mpr ⟨circuit, pushed, rfl⟩⟩
  | reset found =>
    exact refusing_eq_ok_iff.mpr (bind_eq_ok_iff.mpr ⟨_, found, foldlM_push_eq_ok_iff.mpr ⟨circuit, pushed, rfl⟩⟩)
  | wholeBarrier =>
    rw [Circuit.pushAll_singleton] at pushed
    exact refusing_eq_ok_iff.mpr (push_eq_ok_iff.mpr ⟨circuit, pushed, rfl⟩)
  | barrier named found =>
    rw [Circuit.pushAll_singleton] at pushed
    have filled : ¬List.isEmpty _ = true := fun none => named (List.isEmpty_iff.mp none)
    refine refusing_eq_ok_iff.mpr ((if_neg filled).trans (bind_eq_ok_iff.mpr ⟨_, found, ?_⟩))
    exact push_eq_ok_iff.mpr ⟨circuit, pushed, rfl⟩

/-- Statements are read exactly if they have an effect. -/
theorem read_eq_ok_iff {statement : Statement} : scope.read statement = .ok next ↔ scope.Effect statement next := by
  refine ⟨effect_of_read, fun effect => ?_⟩
  cases effect with
  | includeFile => rfl
  | quantumRegister fresh word =>
    refine (if_neg (Bool.eq_false_iff.mp fresh)).trans (bind_eq_ok_iff.mpr ⟨_, ?_, rfl⟩)
    exact Circuit.growQubits_eq_ok_iff.mpr ⟨word, rfl⟩
  | classicalRegister fresh word =>
    refine (if_neg (Bool.eq_false_iff.mp fresh)).trans (bind_eq_ok_iff.mpr ⟨_, ?_, rfl⟩)
    exact Circuit.growClbits_eq_ok_iff.mpr ⟨word, rfl⟩
  | instructions denotes pushed => exact read_of_denotes denotes pushed
  | shadowing fixed => exact refusing_eq_ok_iff.mpr (if_pos fixed)
  | define own fresh known =>
    refine refusing_eq_ok_iff.mpr ((if_neg (Bool.eq_false_iff.mp own)).trans ?_)
    refine (if_neg (Bool.eq_false_iff.mp fresh)).trans ?_
    rw [unknownCall_iff.mpr known]

end Scope

end CircuitCloak.Qasm

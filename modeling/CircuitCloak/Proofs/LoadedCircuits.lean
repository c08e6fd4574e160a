import CircuitCloak.Proofs.StatementEffects

/-! Circuits that are read from text. Every statement acts on the circuit by the steps that build
circuits, so a loaded circuit is one that steps could have built. -/

namespace CircuitCloak.Qasm

/-- The statement adds a register. -/
def Statement.declaresRegister : Statement → Bool
  | .quantumRegister _ _ | .classicalRegister _ _ => true
  | _ => false

namespace Scope

variable {scope next : Scope}

theorem Denotes.plain {statement : Statement} {instructions : List Instruction}
    (denotes : scope.Denotes statement instructions) : statement.declaresRegister = false := by
  cases denotes <;> rfl

/-- No statement gives a gate classical bits. -/
theorem Denotes.bare {statement : Statement} {instructions : List Instruction}
    (denotes : scope.Denotes statement instructions) :
    ∀ instruction ∈ instructions, instruction.isGate = true → instruction.clbits = [] := by
  cases denotes with
  | gate => exact List.forall_mem_map.mpr fun _ _ _ => rfl
  | measure => exact List.forall_mem_map.mpr fun _ _ => nofun
  | reset => exact List.forall_mem_map.mpr fun _ _ => nofun
  | wholeBarrier | barrier => exact List.forall_mem_singleton.mpr nofun

/-- The circuit of a scope is one that steps build. -/
def Reached (scope : Scope) : Prop := scope.circuit.Reachable

theorem read_reached {statement : Statement} (reached : scope.Reached) (done : scope.read statement = .ok next) :
    next.Reached := by
  cases effect_of_read done with
  | includeFile | shadowing | define => exact reached
  | @quantumRegister _ size _ word =>
    have grown : scope.circuit.step (.growQubits size) = .ok _ := Circuit.growQubits_eq_ok_iff.mpr ⟨word, rfl⟩
    exact reached.step grown
  | @classicalRegister _ size _ word =>
    have grown : scope.circuit.step (.growClbits size) = .ok _ := Circuit.growClbits_eq_ok_iff.mpr ⟨word, rfl⟩
    exact reached.step grown
  | instructions _ pushed => exact Circuit.Reachable.pushAll reached pushed

/-- The gates of a scope have no classical bits. -/
def Bare (scope : Scope) : Prop :=
  ∀ instruction ∈ scope.circuit.instructions.toList, instruction.isGate = true → instruction.clbits = []

theorem read_bare {statement : Statement} (bare : scope.Bare) (done : scope.read statement = .ok next) : next.Bare := by
  cases effect_of_read done with
  | includeFile | shadowing | define | quantumRegister | classicalRegister => exact bare
  | instructions denotes pushed =>
    obtain ⟨_, rfl⟩ := Circuit.pushAll_eq_ok_iff.mp pushed
    unfold Bare
    rw [Array.toList_append]
    exact List.forall_mem_append.mpr ⟨bare, denotes.bare⟩

end Scope

theorem reachable_of_circuitOf {statements : List Statement} {circuit : Circuit}
    (read : circuitOf statements = .ok circuit) : circuit.Reachable := by
  obtain ⟨scope, done, same⟩ := bind_eq_ok_iff.mp read
  cases same
  have start : Scope.empty.Reached := .empty (by decide) (by decide)
  exact foldlM_preserves (fun _ _ _ held done => Scope.read_reached held done) start done

/-- Gates of a circuit that is read have no classical bits. -/
theorem bare_of_circuitOf {statements : List Statement} {circuit : Circuit}
    (read : circuitOf statements = .ok circuit) :
    ∀ instruction ∈ circuit.instructions.toList, instruction.isGate = true → instruction.clbits = [] := by
  obtain ⟨scope, done, same⟩ := bind_eq_ok_iff.mp read
  cases same
  have start : Scope.empty.Bare := List.forall_mem_nil _
  exact foldlM_preserves (fun _ _ _ bare done => Scope.read_bare bare done) start done

theorem parse_eq_ok_iff {dialect : Dialect} {source : String} {circuit : Circuit} :
    parse dialect source = .ok circuit ↔
      ∃ read, statements dialect source = .ok read ∧ circuitOf read = .ok circuit := by
  simp only [parse, bind_eq_ok_iff, refusing_eq_ok_iff]

/-- What is not refused as a text has statements. -/
theorem exists_statements_of_parse {dialect : Dialect} {source : String}
    (taken : ∀ fault, parse dialect source ≠ .error (.refused fault)) :
    ∃ read, statements dialect source = .ok read ∧ parse dialect source = circuitOf read := by
  unfold parse at taken ⊢
  cases found : statements dialect source with
  | ok read => exact ⟨read, rfl, rfl⟩
  | error fault => exact (taken fault (by rw [found]; rfl)).elim

theorem parse_of_load {source : String} {circuit : Circuit} {dialect : Dialect}
    (loaded : load source = .ok (circuit, dialect)) : parse dialect source = .ok circuit := by
  unfold load at loaded
  split at loaded
  next older =>
    cases loaded
    exact older
  next => cases loaded
  next =>
    split at loaded
    next newer =>
      cases loaded
      exact newer
    next => cases loaded
    next => cases loaded

theorem reachable_of_load {source : String} {circuit : Circuit} {dialect : Dialect}
    (loaded : load source = .ok (circuit, dialect)) : circuit.Reachable := by
  obtain ⟨_, _, read⟩ := parse_eq_ok_iff.mp (parse_of_load loaded)
  exact reachable_of_circuitOf read

theorem bare_of_load {source : String} {circuit : Circuit} {dialect : Dialect}
    (loaded : load source = .ok (circuit, dialect)) :
    ∀ instruction ∈ circuit.instructions.toList, instruction.isGate = true → instruction.clbits = [] := by
  obtain ⟨_, _, read⟩ := parse_eq_ok_iff.mp (parse_of_load loaded)
  exact bare_of_circuitOf read

end CircuitCloak.Qasm

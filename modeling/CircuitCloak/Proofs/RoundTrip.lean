import CircuitCloak.Proofs.LoadedCircuits
import CircuitCloak.Proofs.Lowering
import CircuitCloak.Proofs.NumberSizes
import CircuitCloak.Proofs.ParsedSentences
import CircuitCloak.Proofs.StatementEffects

/-! Text that was written is loaded as the circuit it was written for, in its dialect. Measurements and resets
come back qubit by qubit, gates without labels, and composites under other names. Classical bits are written for
measurements only. -/

namespace CircuitCloak

namespace Instruction

/-- The instruction qubit by qubit, if it is a measurement or a reset. -/
def split : Instruction → List Instruction
  | .measure qubits clbits => (qubits.zip clbits).map fun wire => .measure [wire.1] [wire.2]
  | .reset qubits clbits => qubits.map fun qubit => .reset [qubit] clbits
  | other => [other]

/-- The instruction with classical bits only if it is a measurement. -/
def bare : Instruction → Instruction
  | .gate call _ => .gate call []
  | .measure qubits clbits => .measure qubits clbits
  | .reset qubits _ => .reset qubits []
  | .barrier qubits _ => .barrier qubits []

def unlabelled : Instruction → Instruction
  | .gate call clbits => .gate ⟨call.gate.unlabelled, call.qubits⟩ clbits
  | other => other

def anonymous : Instruction → Instruction
  | .gate call clbits => .gate ⟨call.gate.anonymous, call.qubits⟩ clbits
  | other => other

theorem anonymous_bare_eq_iff {instruction : Instruction} :
    instruction.bare.unlabelled.anonymous = instruction.unlabelled.anonymous ↔ instruction.bare = instruction := by
  cases instruction <;> simp [bare, unlabelled, anonymous]

/-- What was read back for an instruction: a gate for a gate, and the same but for labels, names of composites and
bits that are not measured into, if it has no numbers and is no empty barrier. -/
structure ReadFor (read instruction : Instruction) : Prop where
  gate : read.isGate = instruction.isGate
  same : Qasm.Recordable instruction → read.anonymous = instruction.bare.unlabelled.anonymous

theorem readFor_gate {read call : Application} (same : read.ReadFor call) (clbits : List Nat) :
    ReadFor (.gate read []) (.gate call clbits) := by
  refine ⟨rfl, fun recordable => ?_⟩
  rw [bare, unlabelled, anonymous, anonymous, show read.gate.anonymous = _ from same.gate.same recordable.2, same.qubits]

theorem readFor_bare {instruction : Instruction} (plain : instruction.isGate = false) :
    ReadFor instruction.bare instruction := by
  cases instruction with
  | gate => cases plain
  | measure | reset | barrier => exact ⟨rfl, fun _ => rfl⟩

theorem readFor_map {α : Type} {items : List α} {instruction : α → Instruction}
    (plain : ∀ item, (instruction item).isGate = false) :
    List.Forall₂ ReadFor (items.map fun item => (instruction item).bare) (items.map instruction) := by
  rw [List.forall₂_map_left_iff, List.forall₂_map_right_iff]
  exact List.forall₂_same.mpr fun item _ => readFor_bare (plain item)

end Instruction

namespace Qasm

theorem isBuiltin_kindText (dialect : Dialect) (kind : Elementary) : isBuiltin (kindText dialect kind) = true := by
  cases kind <;> cases dialect <;> rfl

theorem Names.known (dialect : Dialect) {gates : List WrittenGate} {callee : Callee} {gate : Gate}
    (names : Names gates callee gate) :
    isBuiltin (calleeName dialect callee) = true ∨ ∃ other ∈ gates, other.name = calleeName dialect callee := by
  cases names with
  | elementary kind label sayable => exact .inl (isBuiltin_kindText dialect kind)
  | defined other label listed alike => exact .inr ⟨other, listed, rfl⟩

namespace Scope

variable {dialect : Dialect}

/-- A definition that follows the ones in scope is added to them. -/
theorem read_definition {earlier : List WrittenGate} {gate : WrittenGate} (follows : Follows earlier gate) {scope : Scope}
    (same : scope.definitions = earlier.map (·.definition dialect)) :
    scope.read (gate.sentence dialect).statement =
      .ok { scope with definitions := (gate :: earlier).map (·.definition dialect) } := by
  have own : isBuiltin (gate.definition dialect).name = false := isBuiltin_of_free follows.free
  have fresh : scope.isDefined (gate.definition dialect).name = false := by
    rw [isDefined, same, List.any_map, List.any_eq_false]
    exact fun other member taken => ne_of_free follows.free other member (beq_iff_eq.mp taken)
  have known : ∀ call ∈ (gate.definition dialect).body,
      (!isBuiltin call.name && !scope.isDefined call.name) = false := by
    intro call member
    obtain ⟨written, stored, rfl⟩ := List.mem_map.mp member
    obtain ⟨application, _, calls⟩ := exists_mem_of_forall₂ follows.calls.flip stored
    rw [Bool.and_eq_false_iff, Bool.not_eq_false', Bool.not_eq_false']
    rcases calls.names.known dialect with fixed | ⟨other, listed, named⟩
    · exact .inl fixed
    · refine .inr ?_
      rw [isDefined, same, List.any_map, List.any_eq_true]
      exact ⟨other, listed, beq_iff_eq.mpr named⟩
  rw [statement_sentence, read, define, if_neg (ne_true_of_eq_false own), if_neg (ne_true_of_eq_false fresh),
    List.find?_eq_none.mpr fun call member => ne_true_of_eq_false (known call member), same]
  rfl

/-- Definitions are added in the order in which they are written. -/
theorem read_definitions {gates : List WrittenGate} (listed : Listed gates) {scope : Scope}
    (none : scope.definitions = []) :
    (gates.reverse.map fun gate => (gate.sentence dialect).statement).foldlM read scope =
      .ok { scope with definitions := gates.map (·.definition dialect) } := by
  induction listed with
  | nil =>
    rw [List.map_nil, ← none]
    rfl
  | cons follows listed ih =>
    rw [List.reverse_cons, List.map_append, List.foldlM_append, ih]
    dsimp only [bind, Except.bind]
    rw [List.map_singleton, List.foldlM_cons, read_definition follows rfl]
    rfl

/-- The scope after the registers: names mean what was written, and elements of registers their positions. -/
structure Ready (dialect : Dialect) (gates : List WrittenGate) (numQubits numClbits : Nat) (scope : Scope) : Prop where
  definitions : scope.definitions = gates.map (·.definition dialect)
  width : scope.circuit.numQubits = numQubits
  bits : scope.circuit.numClbits = numClbits
  qubit : ∀ qubit < numQubits, Registers.resolve scope.qubits (elementOperand "q" qubit) = .ok [qubit]
  clbit : ∀ clbit < numClbits, Registers.resolve scope.clbits (elementOperand "c" clbit) = .ok [clbit]

/-- The only register of its kind, unless it is empty. -/
def onlyRegister (name : String) : Nat → Registers
  | 0 => []
  | size + 1 => [(name, ⟨0, size + 1⟩)]

theorem resolve_onlyRegister {name : String} {size position : Nat} (inside : position < size) :
    Registers.resolve (onlyRegister name size) (elementOperand name position) = .ok [position] := by
  cases size with
  | zero => cases inside
  | succ size =>
    unfold Registers.resolve elementOperand onlyRegister
    rw [List.lookup_cons_self]
    dsimp only
    rw [if_pos inside, Nat.zero_add]

def withRegisters (definitions : List GateDefinition) (numQubits numClbits : Nat) : Scope :=
  ⟨onlyRegister "q" numQubits, onlyRegister "c" numClbits, definitions, .empty "circuit" numQubits numClbits⟩

variable (dialect) in
theorem ready_withRegisters (gates : List WrittenGate) {numQubits numClbits : Nat} :
    Ready dialect gates numQubits numClbits (withRegisters (gates.map (·.definition dialect)) numQubits numClbits) :=
  ⟨rfl, rfl, rfl, fun _ => resolve_onlyRegister, fun _ => resolve_onlyRegister⟩

variable (dialect) in
/-- Registers are declared unless they are empty. -/
theorem read_registers {listing : Listing} (words : listing.numQubits < wordCount) (bits : listing.numClbits < wordCount)
    (definitions : List GateDefinition) :
    ((listing.registers dialect).map (·.statement)).foldlM read (withRegisters definitions 0 0) =
      .ok (withRegisters definitions listing.numQubits listing.numClbits) := by
  have quantum : ∀ {size : Nat}, size < wordCount →
      ((if size > 0 then [quantumSentence dialect size] else []).map (·.statement)).foldlM read
        (withRegisters definitions 0 0) = .ok (withRegisters definitions size 0) := by
    intro size word
    cases size with
    | zero => rfl
    | succ size =>
      have grown : (Circuit.empty "circuit" 0 0).growQubits (size + 1) =
          (.ok (.empty "circuit" (size + 1) 0) : Except (Halt ParseError) Circuit) := by
        simp only [Circuit.growQubits_eq_ok_iff, Circuit.empty, Nat.zero_add, word, true_and]
      have fresh : (withRegisters definitions 0 0).isDeclared "q" = false := rfl
      change (withRegisters definitions 0 0).declareQubits "q" (size + 1) >>= pure = _
      rw [bind_pure, declareQubits, if_neg (ne_true_of_eq_false fresh)]
      dsimp only [withRegisters]
      rw [grown]
      rfl
  have classical : ∀ {size : Nat}, size < wordCount →
      ((if size > 0 then [classicalSentence dialect size] else []).map (·.statement)).foldlM read
        (withRegisters definitions listing.numQubits 0) = .ok (withRegisters definitions listing.numQubits size) := by
    intro size word
    cases size with
    | zero => rfl
    | succ size =>
      have grown : (Circuit.empty "circuit" listing.numQubits 0).growClbits (size + 1) =
          (.ok (.empty "circuit" listing.numQubits (size + 1)) : Except (Halt ParseError) Circuit) := by
        simp only [Circuit.growClbits_eq_ok_iff, Circuit.empty, Nat.zero_add, word, true_and]
      have fresh : (withRegisters definitions listing.numQubits 0).isDeclared "c" = false := by
        cases known : listing.numQubits <;> rfl
      change (withRegisters definitions listing.numQubits 0).declareClbits "c" (size + 1) >>= pure = _
      rw [bind_pure, declareClbits, if_neg (ne_true_of_eq_false fresh)]
      dsimp only [withRegisters]
      rw [grown]
      rfl
  rw [Listing.registers, List.map_append, List.foldlM_append, quantum words]
  exact classical bits

def followed (scope : Scope) (instructions : List Instruction) : Scope :=
  { scope with circuit :=
      { scope.circuit with instructions := (scope.circuit.instructions.toList ++ instructions).toArray } }

theorem followed_nil (scope : Scope) : scope.followed [] = scope := by
  rw [followed, List.append_nil]

theorem followed_followed (scope : Scope) (first second : List Instruction) :
    (scope.followed first).followed second = scope.followed (first ++ second) := by
  rw [followed, followed, followed, List.append_assoc]

variable {gates : List WrittenGate} {numQubits numClbits : Nat} {scope : Scope}

theorem Ready.followed (ready : Ready dialect gates numQubits numClbits scope) (instructions : List Instruction) :
    Ready dialect gates numQubits numClbits (scope.followed instructions) :=
  ⟨ready.definitions, ready.width, ready.bits, ready.qubit, ready.clbit⟩

theorem Ready.adds (ready : Ready dialect gates numQubits numClbits scope) {statement : Statement}
    {instructions : List Instruction} (denotes : scope.Denotes statement instructions)
    (fits : ∀ instruction ∈ instructions, instruction.Fits numQubits numClbits) :
    scope.read statement = .ok (scope.followed instructions) := by
  rw [← ready.width, ← ready.bits] at fits
  rw [read_of_denotes denotes (Circuit.pushAll_eq_ok_iff.mpr ⟨fits, rfl⟩), Scope.followed, ← List.append_toArray,
    Array.toArray_toList]

theorem Ready.read_each {α : Type} {items : List α} {statement : α → Statement} {instruction : α → Instruction}
    (adds : ∀ item ∈ items, ∀ {scope}, Ready dialect gates numQubits numClbits scope →
      scope.read (statement item) = .ok (scope.followed [instruction item]))
    (ready : Ready dialect gates numQubits numClbits scope) :
    (items.map statement).foldlM read scope = .ok (scope.followed (items.map instruction)) := by
  induction items generalizing scope with
  | nil =>
    rw [List.map_nil, List.map_nil, followed_nil]
    rfl
  | cons item rest ih =>
    obtain ⟨first, others⟩ := List.forall_mem_cons.mp adds
    have later := ih others (ready.followed [instruction item])
    rw [List.map_cons, List.foldlM_cons, first ready]
    dsimp only [bind, Except.bind]
    rw [later, followed_followed]
    rfl

theorem Ready.resolve (ready : Ready dialect gates numQubits numClbits scope) {qubits : List Nat}
    (inside : ∀ qubit ∈ qubits, qubit < numQubits) :
    (qubits.map (elementOperand "q")).mapM (Registers.resolve scope.qubits) = .ok (qubits.map ([·])) := by
  rw [mapM_eq_ok_iff, List.forall₂_map_left_iff, List.forall₂_map_right_iff]
  exact List.forall₂_same.mpr fun qubit member => ready.qubit qubit (inside qubit member)

/-- A call is read as a gate that is the same without labels, up to names of composites. -/
theorem Ready.call (ready : Ready dialect gates numQubits numClbits scope) (small : numQubits < wordCount)
    (listed : Listed gates) {call : WrittenCall} {application : Application} (calls : Calls gates call application)
    (valid : application.Valid numQubits) :
    ∃ read : Application, read.ReadFor application ∧
      scope.read (.gate (callTree dialect (elementOperand "q") call)) = .ok (scope.followed [.gate read []]) := by
  obtain ⟨inner, found, same⟩ := means_of_names dialect listed calls.names
  rw [← ready.definitions] at found
  have read : Application.ReadFor ⟨inner, application.qubits⟩ application := ⟨same, rfl⟩
  have fits : (Instruction.gate ⟨inner, application.qubits⟩ []).Fits numQubits numClbits :=
    (read.fits small valid).widen (Nat.le_refl _) (Nat.zero_le _)
  have arity : (call.qubits.map (elementOperand "q")).length = inner.arity := by
    rw [List.length_map, calls.qubits, valid.length, same.arity]
  have positions := ready.resolve (calls.qubits ▸ valid.operands.inside : ∀ qubit ∈ call.qubits, qubit < numQubits)
  have denotes : scope.Denotes (.gate (callTree dialect (elementOperand "q") call)) [.apply inner call.qubits] :=
    denotes_call (angles_angleTree _) found arity positions
  exact ⟨_, read, ready.adds (calls.qubits ▸ denotes) (List.forall_mem_singleton.mpr fits)⟩

theorem Ready.measure (ready : Ready dialect gates numQubits numClbits scope) {qubit clbit : Nat}
    (inside : qubit < numQubits) (place : clbit < numClbits) :
    scope.read (.measure (elementOperand "q" qubit) (elementOperand "c" clbit)) =
      .ok (scope.followed [.measure [qubit] [clbit]]) := by
  have fits : (Instruction.measure [qubit] [clbit]).Fits numQubits numClbits :=
    Instruction.fits_measure_iff.mpr ⟨⟨List.forall_mem_singleton.mpr inside, List.nodup_singleton qubit⟩, rfl,
      List.forall_mem_singleton.mpr place⟩
  exact ready.adds (.measure (ready.qubit qubit inside) (ready.clbit clbit place) rfl)
    (List.forall_mem_singleton.mpr fits)

theorem Ready.reset (ready : Ready dialect gates numQubits numClbits scope) {qubit : Nat}
    (inside : qubit < numQubits) :
    scope.read (.reset (elementOperand "q" qubit)) = .ok (scope.followed [.reset [qubit] []]) := by
  have fits : (Instruction.reset [qubit] []).Fits numQubits numClbits :=
    Instruction.fits_reset_iff.mpr ⟨⟨List.forall_mem_singleton.mpr inside, List.nodup_singleton qubit⟩, List.forall_mem_nil _⟩
  exact ready.adds (.reset (ready.qubit qubit inside)) (List.forall_mem_singleton.mpr fits)

/-- A barrier is read as it was written, if it names a qubit; otherwise it spans the register. -/
theorem Ready.barrier (ready : Ready dialect gates numQubits numClbits scope) {qubits : List Nat}
    (operands : Operands numQubits qubits) : ∃ read,
      scope.read (.barrier (qubits.map (elementOperand "q"))) = .ok (scope.followed [.barrier read []]) ∧
        (qubits ≠ [] → read = qubits) := by
  have fits : ∀ {qubits : List Nat}, Operands numQubits qubits →
      ∀ instruction ∈ [Instruction.barrier qubits []], instruction.Fits numQubits numClbits := fun operands =>
    List.forall_mem_singleton.mpr (Instruction.fits_barrier_iff.mpr ⟨operands, List.forall_mem_nil _⟩)
  cases qubits with
  | nil =>
    have whole : Operands numQubits (List.range scope.circuit.numQubits) := by
      rw [ready.width]
      exact ⟨fun _ member => List.mem_range.mp member, List.nodup_range⟩
    exact ⟨_, ready.adds .wholeBarrier (fits whole), fun some => absurd rfl some⟩
  | cons qubit rest =>
    have flat : ((qubit :: rest).map ([·])).flatten = qubit :: rest := by
      rw [← List.flatMap_def, List.flatMap_singleton']
    have positions := ready.resolve operands.inside
    have denotes : scope.Denotes (.barrier ((qubit :: rest).map (elementOperand "q"))) _ :=
      .barrier (List.cons_ne_nil _ _) positions
    rw [flat] at denotes
    exact ⟨_, ready.adds denotes (fits operands), fun _ => rfl⟩

/-- What is written for an instruction is read as the instruction, qubit by qubit. -/
theorem Ready.instruction (ready : Ready dialect gates numQubits numClbits scope) (small : numQubits < wordCount)
    (listed : Listed gates) {written : WrittenInstruction} {instruction : Instruction} (stands : Stands gates written instruction)
    (fits : instruction.Fits numQubits numClbits) (sayable : SayableInstruction instruction) :
    ∃ reads, List.Forall₂ Instruction.ReadFor reads instruction.split ∧
      ((written.sentences dialect).map (·.statement)).foldlM read scope = .ok (scope.followed reads) := by
  cases stands with
  | @call call application calls clbits =>
    obtain ⟨read, same, done⟩ := ready.call small listed calls ⟨fits.length_eq small, fits.operands, sayable.1⟩
    refine ⟨[.gate read []], .cons (Instruction.readFor_gate same clbits) .nil, ?_⟩
    change scope.read (.gate (callTree dialect (elementOperand "q") call)) >>= pure = _
    rw [done]
    rfl
  | measure qubits clbits =>
    obtain ⟨operands, _, places⟩ := Instruction.fits_measure_iff.mp fits
    refine ⟨_, Instruction.readFor_map fun _ => rfl, ?_⟩
    have single : ((WrittenInstruction.measure qubits clbits).sentences dialect).map (·.statement) =
        (qubits.zip clbits).map fun wire => .measure (elementOperand "q" wire.1) (elementOperand "c" wire.2) := by
      rw [WrittenInstruction.sentences, ← List.map_uncurry_zip_eq_zipWith, List.map_map]
      rfl
    rw [single]
    refine ready.read_each fun wire member scope ready => ?_
    obtain ⟨one, other⟩ := List.of_mem_zip (show (wire.1, wire.2) ∈ _ from member)
    exact ready.measure (operands.inside _ one) (places _ other)
  | reset qubits clbits =>
    refine ⟨_, Instruction.readFor_map fun _ => rfl, ?_⟩
    have single : ((WrittenInstruction.reset qubits).sentences dialect).map (·.statement) =
        qubits.map fun qubit => .reset (elementOperand "q" qubit) := by
      rw [WrittenInstruction.sentences, List.map_map]
      rfl
    rw [single]
    exact ready.read_each fun qubit member scope ready =>
      ready.reset (fits.operands.inside qubit member)
  | barrier qubits clbits =>
    have operands : Operands numQubits qubits := fits.operands
    obtain ⟨read, done, same⟩ := ready.barrier operands
    refine ⟨[.barrier read []], .cons ⟨rfl, fun some => congrArg (Instruction.barrier · []) (same some)⟩ .nil, ?_⟩
    change scope.read (.barrier (qubits.map (elementOperand "q"))) >>= pure = _
    rw [done]
    rfl

/-- The body of a listing is read instruction by instruction. -/
theorem Ready.body (ready : Ready dialect gates numQubits numClbits scope) (small : numQubits < wordCount)
    (listed : Listed gates) {body : List WrittenInstruction} {instructions : List Instruction}
    (stands : List.Forall₂ (Stands gates) body instructions)
    (fits : ∀ instruction ∈ instructions, instruction.Fits numQubits numClbits)
    (sayable : ∀ instruction ∈ instructions, SayableInstruction instruction) :
    ∃ reads, List.Forall₂ Instruction.ReadFor reads (instructions.flatMap (·.split)) ∧
      ((body.flatMap (·.sentences dialect)).map (·.statement)).foldlM read scope = .ok (scope.followed reads) := by
  induction stands generalizing scope with
  | nil =>
    refine ⟨[], .nil, ?_⟩
    rw [followed_nil]
    rfl
  | cons first _ ih =>
    obtain ⟨one, others⟩ := List.forall_mem_cons.mp fits
    obtain ⟨whole, rest⟩ := List.forall_mem_cons.mp sayable
    obtain ⟨reads, same, done⟩ := ready.instruction small listed first one whole
    obtain ⟨more, alike, later⟩ := ih (ready.followed reads) others rest
    refine ⟨reads ++ more, List.rel_append same alike, ?_⟩
    rw [List.flatMap_cons, List.map_append, List.foldlM_append, done]
    dsimp only [bind, Except.bind]
    rw [later, followed_followed]

end Scope

/-- The definition of the newer dialect's missing gate changes nothing. -/
theorem read_definitions_listing {dialect : Dialect} {listing : Listing} {gates : List WrittenGate}
    (listed : Listed gates) (same : listing.gates = gates.reverse) :
    ((listing.definitions dialect).map (·.statement)).foldlM Scope.read .empty =
      .ok (Scope.withRegisters (gates.map (·.definition dialect)) 0 0) := by
  have ignored : ((if listing.needsSxdg dialect then [sxdgSentence] else []).map (·.statement)).foldlM Scope.read
      .empty = .ok .empty := by
    split <;> rfl
  rw [Listing.definitions, List.map_append, List.foldlM_append, ignored, same, List.map_map]
  exact Scope.read_definitions listed rfl

/-- The statements before the body of a listing make its definitions and registers. -/
theorem circuitOf_sentences {circuit : Circuit} (sayable : circuit.Sayable) (dialect : Dialect) : ∃ gates scope,
    Listed gates ∧ scope.Ready dialect gates circuit.numQubits circuit.numClbits ∧ scope.circuit.instructions.toList = [] ∧
      List.Forall₂ (Stands gates) (Listing.ofCircuit circuit).body circuit.instructions.toList ∧
      circuitOf (((Listing.ofCircuit circuit).sentences dialect).map (·.statement)) =
        (·.circuit) <$> (((Listing.ofCircuit circuit).body.flatMap (·.sentences dialect)).map (·.statement)).foldlM
          Scope.read scope := by
  obtain ⟨gates, listed, same, stands⟩ := sayable.listing
  refine ⟨gates, .withRegisters (gates.map (·.definition dialect)) circuit.numQubits circuit.numClbits, listed,
    Scope.ready_withRegisters dialect gates, rfl, stands, ?_⟩
  unfold circuitOf
  rw [Listing.sentences, List.append_assoc, List.append_assoc, List.map_append, List.foldlM_append]
  change (List.map _ (_ ++ (_ ++ _))).foldlM Scope.read .empty >>= _ = _
  rw [List.map_append, List.foldlM_append, read_definitions_listing listed same]
  dsimp only [bind, Except.bind]
  rw [List.map_append, List.foldlM_append,
    show _ = Except.ok _ from Scope.read_registers dialect sayable.sound.qubits sayable.sound.clbits _]
  rfl

/-- The statements of a listing make the circuit that it was written for. -/
theorem circuitOf_sayable {circuit : Circuit} (sayable : circuit.Sayable) (dialect : Dialect) :
    ∃ loaded, circuitOf (((Listing.ofCircuit circuit).sentences dialect).map (·.statement)) = .ok loaded ∧
      loaded.numQubits = circuit.numQubits ∧ loaded.numClbits = circuit.numClbits ∧
      List.Forall₂ Instruction.ReadFor loaded.instructions.toList (circuit.instructions.toList.flatMap (·.split)) := by
  obtain ⟨gates, scope, listed, ready, empty, stands, whole⟩ := circuitOf_sentences sayable dialect
  obtain ⟨reads, alike, done⟩ :=
    ready.body sayable.sound.qubits listed stands sayable.sound.fits sayable.instructions
  refine ⟨(scope.followed reads).circuit, ?_, ready.width, ready.bits, ?_⟩
  · rw [whole, done]
    rfl
  · rw [Scope.followed, empty]
    exact alike

/-- Without numbers everything is the same but for labels, names of composites and bits that are not measured into. -/
theorem circuitOf_listing {circuit : Circuit} (recordable : circuit.Recordable) (dialect : Dialect) :
    ∃ loaded, circuitOf (((Listing.ofCircuit circuit).sentences dialect).map (·.statement)) = .ok loaded ∧
      loaded.numQubits = circuit.numQubits ∧ loaded.numClbits = circuit.numClbits ∧
      List.Forall₂ (fun read instruction => read.anonymous = instruction.bare.unlabelled.anonymous)
        loaded.instructions.toList (circuit.instructions.toList.flatMap (·.split)) := by
  obtain ⟨loaded, made, qubits, clbits, same⟩ := circuitOf_sayable recordable.sayable dialect
  refine ⟨loaded, made, qubits, clbits, ?_⟩
  have parts : ∀ instruction ∈ circuit.instructions.toList.flatMap (·.split), Recordable instruction := by
    intro instruction member
    obtain ⟨whole, stored, part⟩ := List.mem_flatMap.mp member
    have recordable := recordable.instruction whole stored
    cases whole with
    | gate | barrier =>
      rw [List.mem_singleton.mp part]
      exact recordable
    | measure | reset =>
      obtain ⟨_, _, rfl⟩ := List.mem_map.mp part
      trivial
  have every : ∀ {reads instructions : List Instruction}, List.Forall₂ Instruction.ReadFor reads instructions →
      (∀ instruction ∈ instructions, Recordable instruction) →
      List.Forall₂ (fun read instruction => read.anonymous = instruction.bare.unlabelled.anonymous) reads instructions := by
    intro reads instructions alike recordable
    induction alike with
    | nil => exact .nil
    | cons first _ ih =>
      obtain ⟨one, others⟩ := List.forall_mem_cons.mp recordable
      exact .cons (first.same one) (ih others)
  exact every same parts

end Qasm

namespace Circuit
open Qasm

/-- A composite in another of the same name, with a turn by an angle that has no value. -/
def nested : Circuit :=
  let inner : Composite := ⟨"unit", 1, [⟨.elementary (.rz (.neg (.div .pi (.symbol "theta")))) (some "turn"), [0]⟩]⟩
  let outer : Composite := ⟨"unit", 2, [⟨.composite inner none, [1]⟩, ⟨.ofKind .sxdg, [0]⟩]⟩
  ⟨"nested", 3, 2, #[.apply (.composite outer none) [2, 0], .barrier [0, 1] [], .reset [1, 2] [1],
    .measure [0, 2] [1, 0]]⟩

end Circuit

end CircuitCloak

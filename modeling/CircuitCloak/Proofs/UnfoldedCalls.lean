import CircuitCloak.Proofs.Reloading
import CircuitCloak.Proofs.ReplacedNames

/-! Calls as abbreviations. A call of a defined gate stands for the body of its definition, with the arguments in place
of the formal parameters and the operands in place of the formal qubits, and so on until every call is one of a gate
with a fixed meaning. The expansion of the gate that a program makes of a call is what these calls make. -/

namespace CircuitCloak.Qasm

/-- A gate call on qubits of the circuit. -/
structure PlacedCall where
  name : String
  arguments : List Expr
  qubits : List Nat

/-- A gate with a fixed meaning, at the angles of its arguments. -/
def PlacedCall.lower (call : PlacedCall) : Except ParseError Application := do
  return ⟨← instantiate [] call.name (← call.arguments.mapM (·.angle [])), call.qubits⟩

/-- A call in the body of a definition, with the formals replaced by what an outer call gives for them. -/
structure GateDefinition.Replaces (definition : GateDefinition) (outer : PlacedCall) (inner : GateCall)
    (result : PlacedCall) : Prop where
  name : result.name = inner.name
  arguments : result.arguments = inner.arguments.map (·.replaced (definition.formals.zip outer.arguments))
  qubits : List.Forall₂ (fun operand qubit => operand.index = none ∧
    (definition.qubits.zip outer.qubits).lookup operand.register = some qubit) inner.operands result.qubits

/-- Calls that are unfolded, from the first to the last, until all of them are of gates with a fixed meaning. -/
inductive Unfolds (definitions : List GateDefinition) : List PlacedCall → List PlacedCall → Prop
  | nil : Unfolds definitions [] []
  | fixed {call : PlacedCall} {rest result : List PlacedCall} (known : isBuiltin call.name = true)
    (others : Unfolds definitions rest result) : Unfolds definitions (call :: rest) (call :: result)
  | defined {call : PlacedCall} {definition : GateDefinition} {inner rest result : List PlacedCall}
    (own : isBuiltin call.name = false) (listed : definition ∈ definitions) (named : definition.name = call.name)
    (arguments : call.arguments.length = definition.formals.length)
    (qubits : call.qubits.length = definition.qubits.length)
    (body : List.Forall₂ (definition.Replaces call) definition.body inner)
    (unfolds : Unfolds definitions (inner ++ rest) result) : Unfolds definitions (call :: rest) result

theorem GateDefinition.replaces_unique (definition : GateDefinition) (outer : PlacedCall) :
    Relator.RightUnique (definition.Replaces outer) := by
  rintro inner ⟨name, arguments, qubits⟩ ⟨other, values, positions⟩ one two
  have operands : qubits = positions := by
    refine List.right_unique_forall₂' ?_ one.qubits two.qubits
    exact fun operand former latter first second => Option.some.inj (first.2.symm.trans second.2)
  rw [show name = other from one.name.trans two.name.symm,
    show arguments = values from one.arguments.trans two.arguments.symm, operands]

namespace Unfolds

variable {definitions : List GateDefinition} {calls rest first second : List PlacedCall}

theorem append (one : Unfolds definitions calls first) (two : Unfolds definitions rest second) :
    Unfolds definitions (calls ++ rest) (first ++ second) := by
  induction one with
  | nil => exact two
  | fixed known _ ih => exact .fixed known ih
  | defined own listed named arguments qubits body _ ih =>
    rw [List.append_assoc] at ih
    exact .defined own listed named arguments qubits body ih

/-- If no two definitions have one name, calls unfold in one way. -/
theorem unique (distinct : ∀ one ∈ definitions, ∀ two ∈ definitions, isBuiltin one.name = false →
    one.name = two.name → one = two) (one : Unfolds definitions calls first)
    (two : Unfolds definitions calls second) : first = second := by
  induction one generalizing second with
  | nil =>
    cases two
    rfl
  | fixed known _ ih =>
    cases two with
    | fixed _ others => rw [ih others]
    | defined own => exact absurd known (Bool.eq_false_iff.mp own)
  | defined own listed named _ _ body _ ih =>
    cases two with
    | fixed known => exact absurd known (Bool.eq_false_iff.mp own)
    | defined _ also same _ _ again unfolds =>
      cases distinct _ listed _ also (named.symm ▸ own) (named.trans same.symm)
      have calls := List.right_unique_forall₂' (GateDefinition.replaces_unique _ _) body again
      exact ih (calls ▸ unfolds)

end Unfolds

theorem angle_argument {formals : List String} {arguments : List Expr} {angles : List Angle}
    (values : arguments.mapM (·.angle []) = .ok angles) (name : String) :
    (((formals.zip arguments).lookup name).getD (.name name)).angle [] =
      .ok (((formals.zip angles).lookup name).getD (.symbol name)) := by
  rw [mapM_eq_ok_iff] at values
  induction values generalizing formals with
  | nil =>
    rw [List.zip_nil_right, List.zip_nil_right]
    rfl
  | cons first _ ih =>
    cases formals with
    | nil => rfl
    | cons formal formals =>
      rw [List.zip_cons_cons, List.zip_cons_cons, List.lookup_cons, List.lookup_cons]
      cases name == formal with
      | true => exact first
      | false => exact ih

theorem lookup_zip {names : List String} {qubits : List Nat} (even : qubits.length = names.length) {name : String}
    {position : Nat} (found : names.idxOf? name = some position) :
    (names.zip qubits).lookup name = some (qubits.getD position 0) := by
  induction names generalizing qubits position with
  | nil => cases found
  | cons first names ih =>
    cases qubits with
    | nil => cases even
    | cons qubit qubits =>
      rw [List.idxOf?_cons] at found
      rw [List.zip_cons_cons, List.lookup_cons]
      by_cases same : name = first
      · subst same
        rw [if_pos (beq_self_eq_true name)] at found
        cases found
        rw [beq_self_eq_true]
        rfl
      · rw [if_neg (fun equal => same (eq_of_beq equal).symm)] at found
        obtain ⟨earlier, inner, rfl⟩ := Option.map_eq_some_iff.mp found
        rw [beq_false_of_ne same, List.getD_cons_succ]
        exact ih (Nat.succ.inj even) inner

theorem Lowers.replaces {earlier : List GateDefinition} {definition : GateDefinition} {angles : List Angle}
    {call : GateCall} {application : Application} (lowers : Lowers earlier definition angles call application)
    {outer : PlacedCall} (even : outer.qubits.length = definition.qubits.length) :
    definition.Replaces outer call ⟨call.name, call.arguments.map (·.replaced (definition.formals.zip outer.arguments)),
      mapOperands outer.qubits application.qubits⟩ := by
  refine ⟨rfl, rfl, List.forall₂_map_right_iff.mpr ((mapM_eq_ok_iff.mp lowers.qubits).imp ?_)⟩
  intro operand position found
  obtain ⟨whole, place⟩ := formalPosition_eq_ok_iff.mp found
  exact ⟨whole, lookup_zip even place⟩

theorem mapM_replaced {definition : GateDefinition} {outer : List Expr} {angles : List Angle}
    (values : outer.mapM (·.angle []) = .ok angles) (arguments : List Expr) :
    (arguments.map (·.replaced (definition.formals.zip outer))).mapM (·.angle []) =
      arguments.mapM (·.angle (definition.formals.zip angles)) := by
  rw [List.mapM_map]
  refine congrArg (arguments.mapM ·) (funext fun argument => ?_)
  exact angle_replaced fun name _ => angle_argument values name

theorem unfolds_fixed {definitions : List GateDefinition} {call : PlacedCall} {angles : List Angle} {gate : Gate}
    (known : isBuiltin call.name = true) (values : call.arguments.mapM (·.angle []) = .ok angles)
    (made : instantiate [] call.name angles = .ok gate) :
    Unfolds definitions [call] [call] ∧ [call].mapM PlacedCall.lower = .ok (gate.expand call.qubits) := by
  have single : gate.expand call.qubits = [⟨gate, call.qubits⟩] := by
    unfold instantiate at made
    split at made
    · split at made <;> cases made
      exact Gate.expand.eq_1 ..
    · cases made
  refine ⟨.fixed known .nil, ?_⟩
  rw [single, mapM_eq_ok_iff]
  exact .cons (bind_eq_ok_iff.mpr ⟨angles, values, bind_eq_ok_iff.mpr ⟨gate, made, rfl⟩⟩) .nil

/-- The expansion of a gate is what a call of it unfolds to. -/
def Unfolding (all definitions : List GateDefinition) : Prop :=
  ∀ (call : PlacedCall) (angles : List Angle) (gate : Gate), call.arguments.mapM (·.angle []) = .ok angles →
    instantiate definitions call.name angles = .ok gate → call.qubits.length = gate.arity →
    ∃ calls, Unfolds all [call] calls ∧ calls.mapM PlacedCall.lower = .ok (gate.expand call.qubits)

theorem unfolds_body {all earlier : List GateDefinition} (unfolding : Unfolding all earlier)
    {definition : GateDefinition} {outer : PlacedCall} {angles : List Angle} (values : outer.arguments.mapM (·.angle []) = .ok angles)
    (even : outer.qubits.length = definition.qubits.length) {calls : List GateCall} {body : List Application}
    (lowered : List.Forall₂ (Lowers earlier definition angles) calls body) :
    ∃ inner result, List.Forall₂ (definition.Replaces outer) calls inner ∧ Unfolds all inner result ∧
      result.mapM PlacedCall.lower = .ok (Application.expandBody body outer.qubits) := by
  induction lowered with
  | nil => exact ⟨[], [], .nil, .nil, by rw [Application.expandBody]; rfl⟩
  | @cons call application _ _ lowers _ ih =>
    obtain ⟨gate, locals⟩ := application
    obtain ⟨angles, valued, made⟩ := lowers.gate
    have placed : (mapOperands outer.qubits locals).length = gate.arity := by
      rw [mapOperands, List.length_map, ← (mapM_eq_ok_iff.mp lowers.qubits).length_eq]
      exact lowers.arity
    obtain ⟨first, one, done⟩ := unfolding ⟨call.name, _, mapOperands outer.qubits locals⟩ angles gate
      ((mapM_replaced values call.arguments).trans valued) made placed
    obtain ⟨inner, result, replaced, unfolds, others⟩ := ih
    refine ⟨_, first ++ result, .cons (lowers.replaces even) replaced, one.append unfolds, ?_⟩
    rw [Application.expandBody, List.mapM_append, done, others]
    rfl

theorem unfolding_of_subset {all definitions : List GateDefinition} (listed : definitions ⊆ all) :
    Unfolding all definitions := by
  induction definitions with
  | nil =>
    intro call angles gate values made arity
    cases fixed : isBuiltin call.name with
    | true => exact ⟨_, unfolds_fixed fixed values made⟩
    | false =>
      rw [instantiate, builtin_eq_none fixed] at made
      cases made
  | cons definition earlier ih =>
    intro call angles gate values made arity
    obtain ⟨member, others⟩ := List.cons_subset.mp listed
    cases fixed : isBuiltin call.name with
    | true =>
      rw [instantiate_builtin fixed] at made
      exact ⟨_, unfolds_fixed fixed values made⟩
    | false =>
      by_cases same : definition.name = call.name
      · rw [← same] at made
        obtain ⟨count, body, lowered, _, rfl⟩ := (instantiate_defined (same.symm ▸ fixed)).mp made
        obtain ⟨inner, result, replaced, unfolds, done⟩ := unfolds_body (ih others) values arity lowered
        refine ⟨result, .defined fixed member same ?_ arity replaced ?_, ?_⟩
        · rw [(mapM_eq_ok_iff.mp values).length_eq, count]
        · rwa [List.append_nil]
        · rw [Gate.expand, done]
      · rw [instantiate_other earlier fixed same] at made
        exact ih others call angles gate values made arity

def definitionsOf (program : List Statement) : List GateDefinition := program.filterMap Statement.definition?

namespace Scope

variable {scope next : Scope}

/-- The definitions of the statements that were read, but for those of names with a fixed meaning; none has the name of
another. -/
structure Holds (scope : Scope) (program : List Statement) : Prop where
  definitions : scope.definitions =
    ((definitionsOf program).filter fun definition => !isBuiltin definition.name).reverse
  distinct : (scope.definitions.map (·.name)).Nodup

theorem Holds.read {program : List Statement} (holds : scope.Holds program) {statement : Statement}
    (done : scope.read statement = .ok next) : next.Holds (program ++ [statement]) := by
  have longer : definitionsOf (program ++ [statement]) = definitionsOf program ++ statement.definition?.toList := by
    rw [definitionsOf, List.filterMap_append]
    cases kind : statement.definition? with
    | none => rw [List.filterMap_cons_none kind]; rfl
    | some definition => rw [List.filterMap_cons_some kind]; rfl
  cases kind : statement.definition? with
  | none =>
    rw [kind, Option.toList_none, List.append_nil] at longer
    have kept := (read_other kind done).1
    exact ⟨kept.trans (longer ▸ holds.definitions), kept ▸ holds.distinct⟩
  | some definition =>
    rw [kind] at longer
    cases statement <;> cases kind
    cases effect_of_read done with
    | instructions denotes => cases denotes
    | shadowing fixed =>
      refine ⟨?_, holds.distinct⟩
      have ignored : [definition].filter (fun definition => !isBuiltin definition.name) = [] := by simp [fixed]
      rw [longer, List.filter_append, Option.toList_some, ignored, List.append_nil]
      exact holds.definitions
    | define own fresh =>
      refine ⟨?_, List.nodup_cons.mpr ⟨fun member => ?_, holds.distinct⟩⟩
      · have kept : [definition].filter (fun definition => !isBuiltin definition.name) = [definition] := by simp [own]
        rw [longer, List.filter_append, Option.toList_some, kept, List.reverse_append, ← holds.definitions]
        rfl
      · obtain ⟨other, listed, same⟩ := List.mem_map.mp member
        exact Bool.eq_false_iff.mp fresh (List.any_eq_true.mpr ⟨other, listed, beq_iff_eq.mpr same⟩)

theorem Holds.of_foldlM {statements program : List Statement} (holds : scope.Holds program)
    (done : statements.foldlM Scope.read scope = .ok next) : next.Holds (program ++ statements) := by
  have follows : ∀ before (scope : Scope) statement next, scope.Holds before → scope.read statement = .ok next →
      next.Holds (before ++ [statement]) := fun _ _ _ _ holds done => holds.read done
  exact @foldlM_follows _ _ _ Scope.read (fun before scope => scope.Holds before) follows _ _ _ _ holds done

theorem Holds.unique {program : List Statement} (holds : scope.Holds program) :
    ∀ one ∈ definitionsOf program, ∀ two ∈ definitionsOf program, isBuiltin one.name = false → one.name = two.name →
      one = two := by
  intro one first two second own same
  have member : ∀ definition ∈ definitionsOf program, isBuiltin definition.name = false →
      definition ∈ scope.definitions := by
    intro definition listed own
    rw [holds.definitions, List.mem_reverse, List.mem_filter]
    exact ⟨listed, by rw [own]; rfl⟩
  exact List.inj_on_of_nodup_map holds.distinct (member one first own) (member two second (same ▸ own)) same

theorem read_call {call : GateCall} (done : scope.read (.gate call) = .ok next) : ∃ angles gate positions,
    call.arguments.mapM (·.angle []) = .ok angles ∧ instantiate scope.definitions call.name angles = .ok gate ∧
      call.operands.length = gate.arity ∧ call.operands.mapM (Registers.resolve scope.qubits) = .ok positions ∧
      next.circuit.instructions.toList = scope.circuit.instructions.toList ++
        (List.range (broadcastWidth positions)).map fun row => .apply gate (broadcastRow positions row) := by
  cases effect_of_read done with
  | instructions denotes pushed =>
    cases denotes with
    | gate values made arity found =>
      obtain ⟨_, rfl⟩ := Circuit.pushAll_eq_ok_iff.mp pushed
      exact ⟨_, _, _, values, made, arity, found, Array.toList_append⟩

theorem read_prefix {instructions : List Instruction} {statement : Statement}
    (begins : instructions <+: scope.circuit.instructions.toList) (done : scope.read statement = .ok next) :
    instructions <+: next.circuit.instructions.toList := by
  cases effect_of_read done with
  | includeFile | quantumRegister | classicalRegister | shadowing | define => exact begins
  | instructions _ pushed =>
    obtain ⟨_, rfl⟩ := Circuit.pushAll_eq_ok_iff.mp pushed
    rw [Array.toList_append]
    exact begins.trans (List.prefix_append ..)

end Scope

/-- What is made of a call of a defined gate: the gate on each row of the operands, which expands to what the call
unfolds to. -/
theorem call_unfolds {before after : List Statement} {call : GateCall} {circuit : Circuit}
    (read : circuitOf (before ++ .gate call :: after) = .ok circuit) :
    ∃ scope positions gate later, before.foldlM Scope.read .empty = .ok scope ∧
      call.operands.mapM (Registers.resolve scope.qubits) = .ok positions ∧
      circuit.instructions.toList = scope.circuit.instructions.toList ++
        (List.range (broadcastWidth positions)).map (fun row => .apply gate (broadcastRow positions row)) ++ later ∧
      ∀ row < broadcastWidth positions, ∃ calls,
        (∀ other, Unfolds (definitionsOf (before ++ .gate call :: after))
          [⟨call.name, call.arguments, broadcastRow positions row⟩] other ↔ other = calls) ∧
        calls.mapM PlacedCall.lower = .ok (gate.expand (broadcastRow positions row)) := by
  obtain ⟨last, done, same⟩ := bind_eq_ok_iff.mp read
  cases same
  have start : Scope.empty.Holds [] := ⟨rfl, List.nodup_nil⟩
  have distinct := (start.of_foldlM done).unique
  rw [List.foldlM_append, bind_eq_ok_iff] at done
  obtain ⟨scope, first, done⟩ := done
  rw [List.foldlM_cons, bind_eq_ok_iff] at done
  obtain ⟨next, called, rest⟩ := done
  obtain ⟨angles, gate, positions, values, made, arity, found, added⟩ := Scope.read_call called
  have listed : scope.definitions ⊆ definitionsOf (before ++ .gate call :: after) := by
    intro definition member
    rw [(start.of_foldlM first).definitions, List.mem_reverse, List.nil_append] at member
    rw [definitionsOf, List.filterMap_append]
    exact List.mem_append_left _ (List.mem_filter.mp member).1
  obtain ⟨later, whole⟩ : next.circuit.instructions.toList <+: last.circuit.instructions.toList :=
    foldlM_preserves (fun (scope : Scope) _ _ held done => Scope.read_prefix held done) (List.prefix_refl _) rest
  refine ⟨scope, positions, gate, later, first, found, ?_, fun row _ => ?_⟩
  · rw [← whole, added]
  · have length : (broadcastRow positions row).length = gate.arity := by
      rw [broadcastRow, List.length_map, ← (mapM_eq_ok_iff.mp found).length_eq, arity]
    obtain ⟨calls, unfolds, lowered⟩ := unfolding_of_subset listed
      ⟨call.name, call.arguments, broadcastRow positions row⟩ angles gate values made length
    exact ⟨calls, fun other => ⟨fun also => also.unique distinct unfolds, fun equal => equal ▸ unfolds⟩, lowered⟩

/-- Every call in a loaded program stands for what it unfolds to, on each row of its operands, and there is one way to
unfold it; and the formals of every definition can have other names. -/
theorem calls_unfold {source : String} {circuit : Circuit} {dialect : Dialect}
    (loaded : load source = .ok (circuit, dialect)) : ∃ program, statements dialect source = .ok program ∧
    (∀ before call after, program = before ++ .gate call :: after →
      ∃ scope positions gate later, before.foldlM Scope.read .empty = .ok scope ∧
        call.operands.mapM (Registers.resolve scope.qubits) = .ok positions ∧
        circuit.instructions.toList = scope.circuit.instructions.toList ++
          (List.range (broadcastWidth positions)).map (fun row => .apply gate (broadcastRow positions row)) ++ later ∧
        ∀ row < broadcastWidth positions, ∃ calls,
          (∀ other, Unfolds (definitionsOf program) [⟨call.name, call.arguments, broadcastRow positions row⟩] other ↔
            other = calls) ∧
          calls.mapM PlacedCall.lower = .ok (gate.expand (broadcastRow positions row))) ∧
    (∀ before definition after parameter qubit, program = before ++ .define definition :: after →
      definition.Renames parameter qubit →
        circuitOf (before ++ .define (definition.renamed parameter qubit) :: after) = .ok circuit ∧
        ∀ other, statements dialect other = .ok (before ++ .define (definition.renamed parameter qubit) :: after) →
          load other = .ok (circuit, dialect)) := by
  obtain ⟨program, found, read⟩ := parse_eq_ok_iff.mp (parse_of_load loaded)
  refine ⟨program, found, ?_, ?_⟩
  · rintro before call after rfl
    exact call_unfolds read
  · rintro before definition after parameter qubit rfl renames
    have again := circuitOf_renamed read renames
    exact ⟨again, fun other same => load_of_statements same again⟩

/-- Two turns, by angles that are given in the other order under the names of the formal parameters. -/
def turnsText : String := "OPENQASM 2;qreg q[1];gate turns(a,b) p\x7brz(a) p;rx(b) p;\x7dturns(b,a) q[0];"

def turnsDefinition : GateDefinition :=
  ⟨"turns", ["a", "b"], ["p"], [⟨"rz", [.name "a"], [⟨"p", none⟩]⟩, ⟨"rx", [.name "b"], [⟨"p", none⟩]⟩]⟩

def turnsProgram : List Statement :=
  [.quantumRegister "q" 1, .define turnsDefinition, .gate ⟨"turns", [.name "b", .name "a"], [⟨"q", some 0⟩]⟩]

def turns : Composite :=
  ⟨"turns", 1, [⟨.ofKind (.rz (.symbol "b")), [0]⟩, ⟨.ofKind (.rx (.symbol "a")), [0]⟩]⟩

theorem statements_turns : statements .qasm2 turnsText = .ok turnsProgram := by
  have cut : lexemes turnsText = .ok ([(.keyword .header, 0), (.integer 2, 9), (.mark .semicolon, 10), (.keyword .qreg, 11),
      (.identifier "q", 16), (.mark .leftBracket, 17), (.integer 1, 18), (.mark .rightBracket, 19), (.mark .semicolon, 20),
      (.keyword .gate, 21), (.identifier "turns", 26), (.mark .leftParen, 31), (.identifier "a", 32), (.mark .comma, 33),
      (.identifier "b", 34), (.mark .rightParen, 35), (.identifier "p", 37), (.mark .leftBrace, 38), (.identifier "rz", 39),
      (.mark .leftParen, 41), (.identifier "a", 42), (.mark .rightParen, 43), (.identifier "p", 45), (.mark .semicolon, 46),
      (.identifier "rx", 47), (.mark .leftParen, 49), (.identifier "b", 50), (.mark .rightParen, 51), (.identifier "p", 53),
      (.mark .semicolon, 54), (.mark .rightBrace, 55), (.identifier "turns", 56), (.mark .leftParen, 61),
      (.identifier "b", 62), (.mark .comma, 63), (.identifier "a", 64), (.mark .rightParen, 65), (.identifier "q", 67),
      (.mark .leftBracket, 68), (.integer 0, 69), (.mark .rightBracket, 70), (.mark .semicolon, 71)].map
        placedOnFirstLine) := by decide +kernel
  unfold statements
  rw [cut]
  rfl

theorem load_turns : load turnsText = .ok (⟨"circuit", 1, 0, #[.apply (.composite turns none) [0]]⟩, .qasm2) :=
  load_of_statements statements_turns rfl

/-- The arguments replace the formal parameters at the same time: neither is taken for the other. -/
theorem calls_unfold_turns : load turnsText = .ok (⟨"circuit", 1, 0, #[.apply (.composite turns none) [0]]⟩, .qasm2) ∧
    ∃ calls, Unfolds [turnsDefinition] [⟨"turns", [.name "b", .name "a"], [0]⟩] calls ∧
      calls.mapM PlacedCall.lower =
        .ok [⟨.ofKind (.rz (.symbol "b")), [0]⟩, ⟨.ofKind (.rx (.symbol "a")), [0]⟩] := by
  obtain ⟨program, found, calls, _⟩ := calls_unfold load_turns
  cases statements_turns.symm.trans found
  obtain ⟨scope, positions, gate, later, first, resolved, whole, rows⟩ :=
    calls [.quantumRegister "q" 1, .define turnsDefinition] ⟨"turns", [.name "b", .name "a"], [⟨"q", some 0⟩]⟩ [] rfl
  cases first
  cases resolved
  cases whole
  obtain ⟨calls, unfolds, lowered⟩ := rows 0 Nat.one_pos
  exact ⟨load_turns, calls, (unfolds calls).mpr rfl, lowered⟩

end CircuitCloak.Qasm

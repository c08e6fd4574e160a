import CircuitCloak.Proofs.Elementwise
import CircuitCloak.Proofs.Lowering

/-! Names in expressions, and what replacing them does. The angle of an expression in which formal parameters were
replaced by arguments is the angle of the expression with the parameters bound to the angles of the arguments. A
definition whose formal parameters and qubits have other names makes the same gates. -/

namespace CircuitCloak.Qasm

mutual

/-- An expression with names replaced, all at the same time; the first entry for a name counts. -/
def Expr.replaced (entries : List (String × Expr)) : Expr → Expr
  | .int value => .int value
  | .decimal value => .decimal value
  | .name symbol => (entries.lookup symbol).getD (.name symbol)
  | .pi => .pi
  | .tau => .tau
  | .euler => .euler
  | .neg operand => .neg (operand.replaced entries)
  | .binary left operator right => .binary (left.replaced entries) operator (right.replaced entries)
  | .call function arguments => .call function (Expr.replacedAll entries arguments)
  | .paren inner => .paren (inner.replaced entries)

def Expr.replacedAll (entries : List (String × Expr)) : List Expr → List Expr
  | [] => []
  | argument :: rest => argument.replaced entries :: Expr.replacedAll entries rest

end

mutual

/-- The names in an expression, but for those of functions. -/
def Expr.names : Expr → List String
  | .int _ | .decimal _ | .pi | .tau | .euler => []
  | .name symbol => [symbol]
  | .neg operand => operand.names
  | .binary left _ right => left.names ++ right.names
  | .call _ arguments => Expr.namesAll arguments
  | .paren inner => inner.names

def Expr.namesAll : List Expr → List String
  | [] => []
  | argument :: rest => argument.names ++ Expr.namesAll rest

end

/-- Replacing names and binding them come to the same, where each name that is replaced has the angle that it is bound
to. -/
theorem angle_replaced {entries : List (String × Expr)} {outer bindings : Bindings} : ∀ {expression : Expr},
    (∀ name ∈ expression.names, ((entries.lookup name).getD (.name name)).angle outer =
      .ok ((bindings.lookup name).getD (.symbol name))) →
    (expression.replaced entries).angle outer = expression.angle bindings
  | .int _, _ | .decimal _, _ | .pi, _ | .tau, _ | .euler, _ => by
    simp only [Expr.replaced, Expr.angle]
  | .name symbol, same => by
    rw [Expr.replaced, Expr.angle]
    exact same symbol (by simp [Expr.names])
  | .neg operand, same => by
    rw [Expr.names] at same
    rw [Expr.replaced, Expr.angle, Expr.angle, angle_replaced same]
  | .paren inner, same => by
    rw [Expr.names] at same
    rw [Expr.replaced, Expr.angle, Expr.angle, angle_replaced same]
  | .binary left operator right, same => by
    rw [Expr.names, List.forall_mem_append] at same
    rw [Expr.replaced, Expr.angle, Expr.angle, angle_replaced same.1, angle_replaced same.2]
  | .call function [argument], same => by
    rw [Expr.names, Expr.namesAll, Expr.namesAll, List.append_nil] at same
    rw [Expr.replaced, Expr.replacedAll, Expr.replacedAll, Expr.angle, Expr.angle, angle_replaced same]
  | .call function [], _ => by
    rw [Expr.replaced, Expr.replacedAll]
    rfl
  | .call function (_ :: _ :: _), _ => by
    rw [Expr.replaced, Expr.replacedAll, Expr.replacedAll]
    rfl

theorem builtin_isSome {name : String} (fixed : isBuiltin name = true) : (builtin? name).isSome = true := by
  have angled : ∀ other ∈ parameterizedNames, (builtin? other).isSome = true := by decide
  rw [isBuiltin, Bool.or_eq_true, Bool.or_eq_true, beq_iff_eq, List.contains_iff_mem] at fixed
  rcases fixed with (rfl | discrete) | listed
  · rfl
  · unfold builtin?
    split
    all_goals first | rfl | rwa [Option.isSome_map]
  · exact angled name listed

theorem instantiate_builtin {name : String} (fixed : isBuiltin name = true) (definitions : List GateDefinition)
    (angles : List Angle) : instantiate definitions name angles = instantiate [] name angles := by
  obtain ⟨builtin, known⟩ := Option.isSome_iff_exists.mp (builtin_isSome fixed)
  unfold instantiate
  rw [known]

/-- A call in the body of a definition, read at angles for the formal parameters. -/
def readInner (earlier : List GateDefinition) (definition : GateDefinition) (angles : List Angle) (call : GateCall) :
    Except ParseError Instruction := do
  let gate ← instantiate earlier call.name (← call.arguments.mapM (·.angle (definition.formals.zip angles)))
  ensureArity gate call.operands.length
  let locals ← call.operands.mapM (formalPosition definition)
  return .apply gate locals

structure Lowers (earlier : List GateDefinition) (definition : GateDefinition) (angles : List Angle) (call : GateCall)
    (application : Application) : Prop where
  gate : ∃ values, call.arguments.mapM (·.angle (definition.formals.zip angles)) = .ok values ∧
    instantiate earlier call.name values = .ok application.gate
  arity : call.operands.length = application.gate.arity
  qubits : call.operands.mapM (formalPosition definition) = .ok application.qubits

theorem readInner_eq_ok_iff {earlier : List GateDefinition} {definition : GateDefinition} {angles : List Angle}
    {call : GateCall} {instruction : Instruction} : readInner earlier definition angles call = .ok instruction ↔
      ∃ application, Lowers earlier definition angles call application ∧ .gate application [] = instruction := by
  unfold readInner
  simp only [bind_eq_ok_iff, ensureArity_ok_iff]
  constructor
  · rintro ⟨values, valued, gate, made, _, arity, locals, placed, same⟩
    exact ⟨⟨gate, locals⟩, ⟨⟨values, valued, made⟩, arity, placed⟩, Except.ok.inj same⟩
  · rintro ⟨⟨gate, locals⟩, ⟨⟨values, valued, made⟩, arity, placed⟩, rfl⟩
    exact ⟨values, valued, gate, made, (), arity, locals, placed, rfl⟩

theorem body_eq_ok_iff {earlier : List GateDefinition} {definition : GateDefinition} {angles : List Angle}
    {calls : List GateCall} {instructions : List Instruction} :
    calls.mapM (readInner earlier definition angles) = .ok instructions ↔
      ∃ body, List.Forall₂ (Lowers earlier definition angles) calls body ∧ body.map (.gate · []) = instructions := by
  rw [mapM_eq_ok_iff]
  constructor
  · intro read
    induction read with
    | nil => exact ⟨[], .nil, rfl⟩
    | cons first _ ih =>
      obtain ⟨application, lowers, rfl⟩ := readInner_eq_ok_iff.mp first
      obtain ⟨body, lowered, rfl⟩ := ih
      exact ⟨application :: body, .cons lowers lowered, rfl⟩
  · rintro ⟨body, lowered, rfl⟩
    refine List.forall₂_map_right_iff.mpr (lowered.imp fun call application lowers => ?_)
    exact readInner_eq_ok_iff.mpr ⟨application, lowers, rfl⟩

/-- What the gate of a definition needs, and what it is. -/
theorem instantiate_defined {earlier : List GateDefinition} {definition : GateDefinition} {angles : List Angle}
    {gate : Gate} (own : isBuiltin definition.name = false) :
    instantiate (definition :: earlier) definition.name angles = .ok gate ↔
      angles.length = definition.formals.length ∧ ∃ body, List.Forall₂ (Lowers earlier definition angles)
          definition.body body ∧
        (∀ call ∈ body, (Instruction.gate call []).Fits definition.qubits.length 0) ∧
        gate = .composite ⟨definition.name, definition.qubits.length, body⟩ none := by
  rw [instantiate, builtin_eq_none own]
  dsimp only
  rw [if_neg (not_not_intro rfl)]
  split
  next uneven =>
    refine iff_of_false (fun made => ?_) fun both => uneven both.1
    cases made
  next even =>
    rw [bind_eq_ok_iff]
    change (∃ instructions, definition.body.mapM (readInner earlier definition angles) = .ok instructions ∧ _) ↔ _
    constructor
    · rintro ⟨instructions, read, done⟩
      obtain ⟨body, lowered, rfl⟩ := body_eq_ok_iff.mp read
      obtain ⟨composite, made, done⟩ := bind_eq_ok_iff.mp done
      obtain ⟨calls, same, fits, rfl⟩ := Composite.ofInstructions_eq_ok_iff.mp (ofCircuit_eq_ok_iff.mp made)
      cases done
      have injective : Function.Injective (Instruction.gate · []) := fun _ _ equal => (Instruction.gate.inj equal).1
      obtain rfl := List.map_injective_iff.mpr injective same
      exact ⟨Decidable.of_not_not even, body, lowered, fits, rfl⟩
    · rintro ⟨_, body, lowered, fits, rfl⟩
      refine ⟨_, body_eq_ok_iff.mpr ⟨body, lowered, rfl⟩, bind_eq_ok_iff.mpr ⟨_, ?_, rfl⟩⟩
      exact ofCircuit_eq_ok_iff.mpr (Composite.ofInstructions_eq_ok definition.name fits)

/-- A definition with its formal parameters and qubits renamed throughout. -/
def GateDefinition.renamed (definition : GateDefinition) (parameter qubit : String → String) : GateDefinition where
  name := definition.name
  formals := definition.formals.map parameter
  qubits := definition.qubits.map qubit
  body := definition.body.map fun call => {
    name := call.name
    arguments := call.arguments.map
      (·.replaced (definition.formals.map fun formal => (formal, .name (parameter formal))))
    operands := call.operands.map fun operand =>
      if operand.register ∈ definition.qubits then { operand with register := qubit operand.register } else operand }

/-- Different formals get different names, and a formal parameter none that its definition uses for something else. -/
structure GateDefinition.Renames (definition : GateDefinition) (parameter qubit : String → String) : Prop where
  parameters : ∀ first ∈ definition.formals, ∀ second ∈ definition.formals,
    parameter first = parameter second → first = second
  qubits : ∀ first ∈ definition.qubits, ∀ second ∈ definition.qubits, qubit first = qubit second → first = second
  unused : ∀ call ∈ definition.body, ∀ argument ∈ call.arguments, ∀ name ∈ argument.names, name ∉ definition.formals →
    ∀ formal ∈ definition.formals, parameter formal ≠ name

theorem lookup_eq_none_of_keys {β : Type} {entries : List (String × β)} {name : String}
    (absent : ∀ entry ∈ entries, entry.1 ≠ name) : entries.lookup name = none := by
  refine List.lookup_eq_none_iff.mpr fun entry member => ?_
  exact bne_iff_ne.mpr (absent entry member).symm

theorem lookup_map_key {β : Type} {entries : List (String × β)} {rename : String → String} {name : String}
    (distinct : ∀ entry ∈ entries, rename entry.1 = rename name → entry.1 = name) :
    (entries.map (Prod.map rename id)).lookup (rename name) = entries.lookup name := by
  induction entries with
  | nil => rfl
  | cons entry rest ih =>
    obtain ⟨first, others⟩ := List.forall_mem_cons.mp distinct
    obtain ⟨key, value⟩ := entry
    rw [List.map_cons, Prod.map_apply, List.lookup_cons, List.lookup_cons, ih others]
    by_cases same : name = key
    · rw [same, beq_self_eq_true, beq_self_eq_true]
      rfl
    · rw [beq_false_of_ne same, beq_false_of_ne fun equal => same (first equal.symm).symm]

section Parameters

variable {formals : List String} {parameter : String → String} {angles : List Angle}
  (distinct : ∀ first ∈ formals, ∀ second ∈ formals, parameter first = parameter second → first = second)
  (even : angles.length = formals.length)

include distinct even

theorem lookup_renamed {formal : String} (listed : formal ∈ formals) :
    ∃ angle, (formals.zip angles).lookup formal = some angle ∧
      ((formals.map parameter).zip angles).lookup (parameter formal) = some angle := by
  have keys : (formals.zip angles).map Prod.fst = formals := List.map_fst_zip even.ge
  have bound : ((formals.zip angles).lookup formal).isSome = true := by
    obtain ⟨entry, member, same⟩ := List.mem_map.mp (keys.symm ▸ listed)
    exact List.lookup_isSome_iff.mpr ⟨entry, member, beq_iff_eq.mpr same.symm⟩
  obtain ⟨angle, found⟩ := Option.isSome_iff_exists.mp bound
  refine ⟨angle, found, ?_⟩
  rw [List.zip_map_left, lookup_map_key, found]
  exact fun entry member => distinct entry.1 (List.of_mem_zip member).1 formal listed

theorem angle_renamed {argument : Expr}
    (unused : ∀ name ∈ argument.names, name ∉ formals → ∀ formal ∈ formals, parameter formal ≠ name) :
    (argument.replaced (formals.map fun formal => (formal, .name (parameter formal)))).angle
      ((formals.map parameter).zip angles) = argument.angle (formals.zip angles) := by
  refine angle_replaced fun name used => ?_
  by_cases listed : name ∈ formals
  · obtain ⟨angle, old, new⟩ := lookup_renamed distinct even listed
    rw [List.lookup_graph _ listed, old, Option.getD_some, Option.getD_some, Expr.angle, new]
    rfl
  · have replaced : (formals.map fun formal => (formal, Expr.name (parameter formal))).lookup name = none := by
      refine lookup_eq_none_of_keys fun entry member same => ?_
      obtain ⟨formal, within, rfl⟩ := List.mem_map.mp member
      exact listed (same ▸ within)
    have old : (formals.zip angles).lookup name = none :=
      lookup_eq_none_of_keys fun entry member same => listed (same ▸ (List.of_mem_zip member).1)
    have new : ((formals.map parameter).zip angles).lookup name = none := by
      refine lookup_eq_none_of_keys fun entry member same => ?_
      obtain ⟨formal, within, renamed⟩ := List.mem_map.mp (List.of_mem_zip member).1
      exact unused name used listed formal within (renamed.trans same)
    rw [replaced, old, Option.getD_none, Option.getD_none, Expr.angle, new]
    rfl

end Parameters

theorem idxOf?_map {names : List String} {rename : String → String} {name : String} {position : Nat}
    (distinct : ∀ first ∈ names, ∀ second ∈ names, rename first = rename second → first = second)
    (found : names.idxOf? name = some position) : (names.map rename).idxOf? (rename name) = some position := by
  obtain ⟨inside, here, before⟩ := List.idxOf?_eq_some_iff.mp found
  refine List.idxOf?_eq_some_iff.mpr ⟨(List.length_map _).symm ▸ inside, ?_, fun earlier less same => ?_⟩
  · rw [List.getElem_map, here]
  · rw [List.getElem_map] at same
    exact before earlier less (distinct _ (List.getElem_mem _) name (here ▸ List.getElem_mem inside) same)

theorem formalPosition_eq_ok_iff {definition : GateDefinition} {operand : Operand} {position : Nat} :
    formalPosition definition operand = .ok position ↔
      operand.index = none ∧ definition.qubits.idxOf? operand.register = some position := by
  unfold formalPosition
  split
  next indexed =>
    refine iff_of_false nofun fun both => ?_
    rw [both.1] at indexed
    cases indexed
  next whole =>
    have unindexed : operand.index = none := Option.not_isSome_iff_eq_none.mp whole
    cases found : definition.qubits.idxOf? operand.register with
    | some other =>
      rw [Except.ok.injEq, Option.some.injEq]
      exact (and_iff_right unindexed).symm
    | none => exact iff_of_false nofun nofun

theorem formalPosition_renamed {definition : GateDefinition} {parameter qubit : String → String}
    (renames : definition.Renames parameter qubit) {operand : Operand} {position : Nat}
    (found : formalPosition definition operand = .ok position) :
    formalPosition (definition.renamed parameter qubit)
      (if operand.register ∈ definition.qubits then { operand with register := qubit operand.register } else operand) =
      .ok position := by
  obtain ⟨whole, place⟩ := formalPosition_eq_ok_iff.mp found
  have listed : operand.register ∈ definition.qubits := by
    obtain ⟨inside, here, _⟩ := List.idxOf?_eq_some_iff.mp place
    exact here ▸ List.getElem_mem inside
  rw [if_pos listed]
  exact formalPosition_eq_ok_iff.mpr ⟨whole, idxOf?_map renames.qubits place⟩

theorem forall₂_mem {α β : Type} {relation : α → β → Prop} {items : List α} {results : List β}
    (related : List.Forall₂ relation items results) :
    List.Forall₂ (fun item result => item ∈ items ∧ relation item result) items results :=
  (List.forall₂_and_left _ _).mpr ⟨fun _ => id, related⟩

/-- The gates that some definitions make, others make too. -/
def Covers (definitions others : List GateDefinition) : Prop :=
  ∀ name angles gate, instantiate definitions name angles = .ok gate → instantiate others name angles = .ok gate

namespace Covers

variable {earlier others : List GateDefinition} {definition other : GateDefinition}

theorem cons (covers : Covers earlier others) (name : other.name = definition.name)
    (formals : other.formals.length = definition.formals.length)
    (qubits : other.qubits.length = definition.qubits.length) (lowers : ∀ angles body, angles.length = definition.formals.length →
      List.Forall₂ (Lowers earlier definition angles) definition.body body →
        List.Forall₂ (Lowers others other angles) other.body body) :
    Covers (definition :: earlier) (other :: others) := by
  intro called angles gate made
  cases fixed : isBuiltin called with
  | true =>
    rw [instantiate_builtin fixed] at made ⊢
    exact made
  | false =>
    by_cases same : definition.name = called
    · subst same
      obtain ⟨even, body, lowered, valid, rfl⟩ := (instantiate_defined fixed).mp made
      rw [← name]
      refine (instantiate_defined (name.symm ▸ fixed)).mpr
        ⟨even.trans formals.symm, body, lowers angles body even lowered, ?_, ?_⟩
      · rwa [qubits]
      · rw [name, qubits]
    · rw [instantiate_other earlier fixed same] at made
      rw [instantiate_other others fixed (name.symm ▸ same)]
      exact covers called angles gate made

theorem push (covers : Covers earlier others) (definition : GateDefinition) :
    Covers (definition :: earlier) (definition :: others) := by
  refine covers.cons rfl rfl rfl fun angles body _ lowered => lowered.imp fun call application lowers => ?_
  obtain ⟨values, valued, made⟩ := lowers.gate
  exact ⟨⟨values, valued, covers _ _ _ made⟩, lowers.arity, lowers.qubits⟩

/-- With other names for its formals, a definition makes the same gates. -/
theorem pushRenamed (covers : Covers earlier others) {parameter qubit : String → String}
    (renames : definition.Renames parameter qubit) :
    Covers (definition :: earlier) (definition.renamed parameter qubit :: others) := by
  have name : (definition.renamed parameter qubit).name = definition.name := rfl
  refine covers.cons name (List.length_map _) (List.length_map _) fun angles body even lowered => ?_
  refine List.forall₂_map_left_iff.mpr ((forall₂_mem lowered).imp ?_)
  rintro call application ⟨listed, lowers⟩
  obtain ⟨values, valued, made⟩ := lowers.gate
  refine ⟨⟨values, ?_, covers _ _ _ made⟩, (List.length_map _).trans lowers.arity, ?_⟩
  · refine mapM_eq_ok_iff.mpr (List.forall₂_map_left_iff.mpr ((forall₂_mem (mapM_eq_ok_iff.mp valued)).imp ?_))
    rintro argument angle ⟨used, same⟩
    exact (angle_renamed renames.parameters even (renames.unused call listed argument used)).trans same
  · refine mapM_eq_ok_iff.mpr (List.forall₂_map_left_iff.mpr ((mapM_eq_ok_iff.mp lowers.qubits).imp ?_))
    exact fun operand position found => formalPosition_renamed renames found

end Covers

def Statement.definition? : Statement → Option GateDefinition
  | .define definition => some definition
  | _ => none

namespace Scope

variable {scope next : Scope}

/-- Definitions that make the same gates, and have the same names. -/
structure Redefines (scope : Scope) (definitions : List GateDefinition) : Prop where
  covers : Covers scope.definitions definitions
  names : definitions.map (·.name) = scope.definitions.map (·.name)

theorem Redefines.isDefined {definitions : List GateDefinition} (redefines : scope.Redefines definitions)
    (name : String) : { scope with definitions }.isDefined name = scope.isDefined name := by
  have any : ∀ list : List GateDefinition, list.any (·.name == name) = (list.map (·.name)).any (· == name) := by
    intro list
    rw [List.any_map]
    rfl
  unfold Scope.isDefined
  rw [any, any, redefines.names]

theorem define_redefined {definitions : List GateDefinition} (redefines : scope.Redefines definitions)
    {definition other : GateDefinition} (name : other.name = definition.name)
    (calls : other.body.map (·.name) = definition.body.map (·.name))
    (covers : Covers (definition :: scope.definitions) (other :: definitions))
    (done : scope.read (.define definition) = .ok next) :
    ∃ later, { scope with definitions }.read (.define other) = .ok { next with definitions := later } ∧
      next.Redefines later := by
  cases effect_of_read done with
  | instructions denotes => cases denotes
  | shadowing fixed =>
    exact ⟨definitions, read_eq_ok_iff.mpr (.shadowing (name.symm ▸ fixed)), redefines⟩
  | define own fresh known =>
    refine ⟨other :: definitions, read_eq_ok_iff.mpr (.define ?_ ?_ fun call member => ?_), covers, ?_⟩
    · rwa [name]
    · rwa [name, redefines.isDefined]
    · obtain ⟨old, within, same⟩ := List.mem_map.mp (calls ▸ List.mem_map_of_mem member)
      rw [redefines.isDefined]
      exact same ▸ known old within
    · rw [List.map_cons, List.map_cons, name, redefines.names]

theorem Denotes.redefined {statement : Statement} {instructions : List Instruction}
    (denotes : scope.Denotes statement instructions) {definitions : List GateDefinition}
    (covers : Covers scope.definitions definitions) : { scope with definitions }.Denotes statement instructions := by
  cases denotes with
  | gate values made arity found even => exact .gate values (covers _ _ _ made) arity found even
  | measure found stored same => exact .measure found stored same
  | reset found => exact .reset found
  | wholeBarrier => exact .wholeBarrier
  | barrier named found => exact .barrier named found

/-- A statement that defines no gate leaves the definitions as they are, and needs only the gates that they make. -/
theorem read_other {statement : Statement} (other : statement.definition? = none)
    (done : scope.read statement = .ok next) : next.definitions = scope.definitions ∧
      ∀ definitions, Covers scope.definitions definitions →
        { scope with definitions }.read statement = .ok { next with definitions } := by
  cases effect_of_read done with
  | includeFile => exact ⟨rfl, fun _ _ => rfl⟩
  | quantumRegister fresh word => exact ⟨rfl, fun _ _ => read_eq_ok_iff.mpr (.quantumRegister fresh word)⟩
  | classicalRegister fresh word => exact ⟨rfl, fun _ _ => read_eq_ok_iff.mpr (.classicalRegister fresh word)⟩
  | instructions denotes pushed => exact ⟨rfl, fun _ covers => read_of_denotes (denotes.redefined covers) pushed⟩
  | shadowing | define => cases other

theorem read_redefined {definitions : List GateDefinition} (redefines : scope.Redefines definitions)
    {statement : Statement} (done : scope.read statement = .ok next) :
    ∃ later, { scope with definitions }.read statement = .ok { next with definitions := later } ∧
      next.Redefines later := by
  cases kind : statement.definition? with
  | none =>
    obtain ⟨kept, again⟩ := read_other kind done
    exact ⟨definitions, again definitions redefines.covers, kept ▸ redefines.covers, kept ▸ redefines.names⟩
  | some definition =>
    cases statement <;> cases kind
    exact define_redefined redefines rfl rfl (redefines.covers.push definition) done

theorem foldlM_read_redefined {statements : List Statement} {definitions : List GateDefinition}
    (redefines : scope.Redefines definitions) (done : statements.foldlM Scope.read scope = .ok next) :
    ∃ later, statements.foldlM Scope.read { scope with definitions } = .ok { next with definitions := later } := by
  induction statements generalizing scope definitions with
  | nil =>
    cases done
    exact ⟨definitions, rfl⟩
  | cons statement rest ih =>
    rw [List.foldlM_cons, bind_eq_ok_iff] at done
    obtain ⟨middle, first, last⟩ := done
    obtain ⟨others, one, still⟩ := read_redefined redefines first
    obtain ⟨later, run⟩ := ih still last
    exact ⟨later, bind_eq_ok_iff.mpr ⟨_, one, run⟩⟩

end Scope

/-- An accepted program in which the formals of a definition are renamed is accepted, and its circuit is the same. -/
theorem circuitOf_renamed {before after : List Statement} {definition : GateDefinition} {circuit : Circuit}
    (accepted : circuitOf (before ++ .define definition :: after) = .ok circuit) {parameter qubit : String → String}
    (renames : definition.Renames parameter qubit) :
    circuitOf (before ++ .define (definition.renamed parameter qubit) :: after) = .ok circuit := by
  obtain ⟨last, done, same⟩ := bind_eq_ok_iff.mp accepted
  rw [List.foldlM_append, bind_eq_ok_iff] at done
  obtain ⟨scope, first, done⟩ := done
  rw [List.foldlM_cons, bind_eq_ok_iff] at done
  obtain ⟨next, defined, rest⟩ := done
  have redefines : scope.Redefines scope.definitions := ⟨fun _ _ _ made => made, rfl⟩
  have covers : Covers (definition :: scope.definitions) (definition.renamed parameter qubit :: scope.definitions) :=
    redefines.covers.pushRenamed renames
  have calls : (definition.renamed parameter qubit).body.map (·.name) = definition.body.map (·.name) := List.map_map ..
  have name : (definition.renamed parameter qubit).name = definition.name := rfl
  obtain ⟨later, again, still⟩ := Scope.define_redefined redefines name calls covers defined
  obtain ⟨others, run⟩ := Scope.foldlM_read_redefined still rest
  refine bind_eq_ok_iff.mpr ⟨{ last with definitions := others }, ?_, same⟩
  rw [List.foldlM_append, bind_eq_ok_iff]
  exact ⟨scope, first, bind_eq_ok_iff.mpr ⟨_, again, run⟩⟩

end CircuitCloak.Qasm

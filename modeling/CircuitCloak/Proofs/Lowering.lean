import CircuitCloak.Proofs.Listings
import CircuitCloak.Qasm.Scope

/-! Definitions that were listed mean the gates that they were listed for. Names of composites and labels are
not read back; everything else is, at every depth. -/

namespace CircuitCloak

mutual

/-- The gate with no label at any depth. -/
def Gate.unlabelled : Gate → Gate
  | .elementary kind _ => .elementary kind none
  | .composite ⟨name, arity, body⟩ _ => .composite ⟨name, arity, Application.unlabelledBody body⟩ none

def Application.unlabelledBody : List Application → List Application
  | [] => []
  | ⟨gate, qubits⟩ :: rest => ⟨gate.unlabelled, qubits⟩ :: Application.unlabelledBody rest

end

mutual

/-- The gate with the names of its composites forgotten, at every depth. -/
def Gate.anonymous : Gate → Gate
  | .elementary kind label => .elementary kind label
  | .composite ⟨_, arity, body⟩ label => .composite ⟨"", arity, Application.anonymousBody body⟩ label

def Application.anonymousBody : List Application → List Application
  | [] => []
  | ⟨gate, qubits⟩ :: rest => ⟨gate.anonymous, qubits⟩ :: Application.anonymousBody rest

end

/-- What was read back for a gate: one of the same arity, and the same without labels, up to names of composites,
if no angle of the gate has a number. -/
structure Gate.ReadFor (read gate : Gate) : Prop where
  arity : read.arity = gate.arity
  same : Qasm.Writable gate → read.anonymous = gate.unlabelled.anonymous

/-- A gate that was read back, on the same qubits. -/
structure Application.ReadFor (read call : Application) : Prop where
  gate : read.gate.ReadFor call.gate
  qubits : read.qubits = call.qubits

theorem Application.ReadFor.fits {read call : Application} (same : read.ReadFor call) {limit : Nat}
    (small : limit < wordCount) (valid : call.Valid limit) : (Instruction.gate read []).Fits limit 0 := by
  rw [Instruction.fits_gate_iff, same.qubits, same.gate.arity]
  have few := wordSize_of_lt (Nat.lt_of_le_of_lt valid.operands.length_le small)
  exact ⟨few.trans valid.length, valid.operands, List.forall_mem_nil _⟩

/-- A composite is read back if the calls in its body are. -/
theorem Gate.readFor_composite {name : String} {reads : List Application} {composite : Composite}
    (same : List.Forall₂ Application.ReadFor reads composite.body) (label : Option String) :
    Gate.ReadFor (.composite ⟨name, composite.arity, reads⟩ none) (.composite composite label) := by
  have bodies : ∀ {reads body : List Application}, List.Forall₂ Application.ReadFor reads body → Qasm.WritableBody body →
      Application.anonymousBody reads = Application.anonymousBody (Application.unlabelledBody body) := by
    intro reads body same writable
    induction same with
    | nil => rfl
    | @cons read call _ _ first _ ih =>
      obtain ⟨gate, qubits⟩ := read
      obtain ⟨other, operands⟩ := call
      rw [Qasm.WritableBody] at writable
      rw [Application.unlabelledBody, Application.anonymousBody, Application.anonymousBody, ih writable.2,
        show gate.anonymous = _ from first.gate.same writable.1, show qubits = operands from first.qubits]
  obtain ⟨base, arity, body⟩ := composite
  refine ⟨rfl, fun writable => ?_⟩
  rw [Qasm.Writable] at writable
  rw [Gate.unlabelled, Gate.anonymous, Gate.anonymous, bodies same writable.2.2]

/-- Gates that were read for the calls of a composite make one. -/
theorem Composite.ofInstructions_read (name : String) {arity : Nat} (small : arity < wordCount)
    {reads body : List Application} (same : List.Forall₂ Application.ReadFor reads body)
    (valid : ∀ call ∈ body, call.Valid arity) :
    ofInstructions name arity (reads.map (.gate · [])) = .ok ⟨name, arity, reads⟩ := by
  refine ofInstructions_eq_ok name fun read member => ?_
  obtain ⟨call, stored, held⟩ := exists_mem_of_forall₂ same.flip member
  exact held.fits small (valid call stored)

namespace Qasm

def Literal.angle : Literal → Angle
  | integer text => .const (.ofNat (Decimal.digitsValue text.toList))
  | decimal text => .const (decimalValue text.toList)
  | name given => .symbol given
  | pi => .pi

theorem Literal.angle_tree (literal : Literal) : literal.tree.angle [] = .ok literal.angle := by
  cases literal <;> rfl

def Factor.angle (left : Angle) (factor : Factor) : Angle :=
  if factor.operator = .div then .div left factor.literal.angle else .mul left factor.literal.angle

theorem angle_extended {factors : List Factor} (proper : ∀ factor ∈ factors, factor.Proper) {tree : Expr} {angle : Angle}
    (read : tree.angle [] = .ok angle) :
    (extended factors tree).angle [] = .ok (factors.foldl Factor.angle angle) := by
  induction factors generalizing tree angle with
  | nil => exact read
  | cons factor rest ih =>
    obtain ⟨first, others⟩ := List.forall_mem_cons.mp proper
    refine ih others ?_
    rw [Expr.angle, read]
    dsimp only [bind, Except.bind]
    rw [factor.literal.angle_tree]
    unfold Factor.angle
    rcases first.operator with same | same <;> rw [same] <;> rfl

def Product.headAngle (product : Product) : Angle :=
  if product.negative then .neg product.first.angle else product.first.angle

theorem Product.angle_head (product : Product) : product.head.angle [] = .ok product.headAngle := by
  unfold head headAngle
  split
  · rw [Expr.angle, product.first.angle_tree]
    rfl
  · exact product.first.angle_tree

/-- The angle that is read back for one. -/
def reread : Angle → Angle
  | .const value => (constantProduct value).factors.foldl Factor.angle (constantProduct value).headAngle
  | .symbol name => .symbol name
  | .pi => .pi
  | .neg operand => .neg (reread operand)
  | .add left right => .add (reread left) (reread right)
  | .sub left right => .sub (reread left) (reread right)
  | .mul left (.const value) =>
    (constantProduct value).factors.foldl Factor.angle (.mul (reread left) (constantProduct value).headAngle)
  | .div left (.const value) =>
    (constantProduct value).factors.foldl Factor.angle (.div (reread left) (constantProduct value).headAngle)
  | .mul left right => .mul (reread left) (reread right)
  | .div left right => .div (reread left) (reread right)

theorem angle_binary {left right : Expr} {first second result : Angle} {operator : Operator}
    (one : left.angle [] = .ok first) (other : right.angle [] = .ok second)
    (combined : combine operator first second = .ok result) :
    (Expr.binary left operator right).angle [] = .ok result := by
  rw [Expr.angle, one]
  dsimp only [bind, Except.bind]
  rw [other]
  exact combined

theorem angle_angleTree (angle : Angle) : (angleTree angle).angle [] = .ok (reread angle) := by
  induction angle with
  | const value => exact angle_extended (proper_constantProduct value).factors (Product.angle_head _)
  | symbol => rfl
  | pi => rfl
  | neg operand ih =>
    rw [angleTree, Expr.angle, Expr.angle, ih]
    rfl
  | add left right one two | sub left right one two =>
    rw [angleTree, Expr.angle]
    exact angle_binary one two rfl
  | mul left right one two | div left right one two =>
    rw [angleTree, Expr.angle, regrouped_eq]
    cases right
    case const value =>
      exact angle_extended (proper_constantProduct value).factors (angle_binary one (Product.angle_head _) rfl)
    all_goals exact angle_binary one two rfl

theorem reread_plain {angle : Angle} (plain : Plain angle) : reread angle = angle := by
  induction angle with
  | const => cases plain
  | symbol => rfl
  | pi => rfl
  | neg operand ih => rw [reread, ih plain]
  | add left right one two | sub left right one two => rw [reread, one plain.1, two plain.2]
  | mul left right one two | div left right one two =>
    cases right
    case const => cases plain.2
    all_goals rw [reread, one plain.1, two plain.2]; exact nofun

theorem angles_angleTree (angles : List Angle) :
    (angles.map angleTree).mapM (·.angle []) = .ok (angles.map reread) := by
  rw [mapM_eq_ok_iff, List.forall₂_map_left_iff, List.forall₂_map_right_iff]
  exact List.forall₂_same.mpr fun angle _ => angle_angleTree angle

/-- The name under which an elementary gate is written is the name of its kind, with its angles. -/
theorem builtin_kindText (dialect : Dialect) (kind : Elementary) : ∃ builtin,
    builtin? (kindText dialect kind) = some builtin ∧ kind.angles.length = builtin.parameters ∧
      builtin.make kind.angles = kind ∧ ∀ angles, (builtin.make angles).arity = kind.arity := by
  cases kind <;> cases dialect <;> exact ⟨_, rfl, rfl, rfl, fun _ => rfl⟩

theorem builtin_eq_none {name : String} (own : isBuiltin name = false) : builtin? name = none := by
  unfold builtin?
  split
  all_goals first
    | (exfalso; revert own; decide)
    | (rw [isBuiltin, Bool.or_eq_false_iff, Bool.or_eq_false_iff] at own
       rw [Option.map_eq_none_iff]
       exact Option.isNone_iff_eq_none.mp (Option.isSome_eq_false_iff.mp own.1.2))

/-- What is read for an elementary gate is of its kind. -/
theorem instantiate_elementary (definitions : List GateDefinition) (dialect : Dialect) (kind : Elementary)
    (label : Option String) : ∃ read,
    instantiate definitions (kindText dialect kind) (kind.angles.map reread) = .ok read ∧
      read.ReadFor (.elementary kind label) := by
  obtain ⟨builtin, known, count, made, arity⟩ := builtin_kindText dialect kind
  refine ⟨.ofKind (builtin.make (kind.angles.map reread)), ?_, arity _, fun writable => ?_⟩
  · unfold instantiate
    rw [known]
    dsimp only
    rw [if_pos (by rw [List.length_map, count])]
  · rw [Writable] at writable
    have same : kind.angles.map reread = kind.angles :=
      (List.map_congr_left fun angle member => reread_plain (writable angle member)).trans (List.map_id' _)
    rw [same, made]
    rfl

def WrittenGate.definition (dialect : Dialect) (gate : WrittenGate) : GateDefinition :=
  ⟨gate.name, [], gate.formals, gate.calls.map (callTree dialect formalOperand)⟩

theorem statement_sentence (dialect : Dialect) (gate : WrittenGate) :
    (gate.sentence dialect).statement = .define (gate.definition dialect) := by
  unfold WrittenGate.sentence definitionSentence WrittenGate.definition
  rw [List.map_map]
  rfl

theorem formalPosition_formalText {dialect : Dialect} {gate : WrittenGate} {qubit : Nat}
    (inside : qubit < gate.composite.arity) :
    formalPosition (gate.definition dialect) (formalOperand qubit) = .ok qubit := by
  have found : gate.formals.idxOf? (formalText qubit) = some qubit := by
    have range : qubit < gate.formals.length := by rwa [WrittenGate.formals, List.length_map, List.length_range]
    refine List.idxOf?_eq_some_iff.mpr ⟨range, ?_, fun before less same => ?_⟩
    · simp only [WrittenGate.formals, List.getElem_map, List.getElem_range]
    · simp only [WrittenGate.formals, List.getElem_map, List.getElem_range] at same
      exact Nat.ne_of_lt less (formalText_injective same)
  unfold formalPosition
  dsimp only [formalOperand, WrittenGate.definition]
  rw [found]
  rfl

/-- The call that is read in a definition without formal parameters. -/
def readCall (earlier : List GateDefinition) (definition : GateDefinition) (call : GateCall) :
    Except ParseError Instruction := do
  let angles ← call.arguments.mapM (·.angle [])
  let gate ← instantiate earlier call.name angles
  ensureArity gate call.operands.length
  let locals ← call.operands.mapM (formalPosition definition)
  return .apply gate locals

theorem instantiate_own (earlier : List GateDefinition) {definition : GateDefinition}
    (own : isBuiltin definition.name = false) (simple : definition.formals = []) :
    instantiate (definition :: earlier) definition.name [] = (do
      let body ← definition.body.mapM (readCall earlier definition)
      return .composite (← ofCircuit (Composite.ofInstructions definition.name definition.qubits.length body)) none) := by
  rw [instantiate, builtin_eq_none own]
  dsimp only
  rw [if_neg (not_not_intro rfl), simple]
  exact if_neg (not_not_intro rfl)

theorem instantiate_other (earlier : List GateDefinition) {definition : GateDefinition} {name : String}
    (own : isBuiltin name = false) (different : definition.name ≠ name) (angles : List Angle) :
    instantiate (definition :: earlier) name angles = instantiate earlier name angles := by
  rw [instantiate, builtin_eq_none own]
  dsimp only
  rw [if_pos different]

/-- What is read for a callee, at the angles that are read. -/
def Means (dialect : Dialect) (gates : List WrittenGate) (callee : Callee) (gate : Gate) : Prop :=
  ∃ read : Gate, instantiate (gates.map fun gate => gate.definition dialect) (calleeName dialect callee)
    ((calleeAngles callee).map reread) = .ok read ∧ read.ReadFor gate

/-- A call begins with the gate that its callee means, at the angles of the call and on as many operands as it takes. -/
theorem Means.begin {α : Type} {dialect : Dialect} {gates : List WrittenGate} {call : WrittenCall} {gate : Gate}
    (means : Means dialect gates call.callee gate) (length : call.qubits.length = gate.arity) (operand : Nat → Operand) :
    ∃ inner : Gate, inner.ReadFor gate ∧ ∀ next : Gate → Except ParseError α, (do
      let angles ← (callTree dialect operand call).arguments.mapM (·.angle [])
      let gate ← instantiate (gates.map fun gate => gate.definition dialect) (callTree dialect operand call).name angles
      ensureArity gate (callTree dialect operand call).operands.length
      next gate) = next inner := by
  obtain ⟨inner, found, same⟩ := means
  refine ⟨inner, same, fun next => ?_⟩
  have count : ensureArity inner (call.qubits.map operand).length = .ok () := by
    rw [ensureArity, List.length_map, same.arity, if_pos length]
  unfold callTree
  dsimp only
  rw [angles_angleTree]
  dsimp only [bind, Except.bind]
  rw [found]
  dsimp only
  rw [count]

section Bodies

variable {dialect : Dialect} {earlier : List WrittenGate}
  (known : ∀ {callee : Callee} {inner : Gate}, Names earlier callee inner → Means dialect earlier callee inner)

include known

theorem readCall_callTree (gate : WrittenGate) {call : WrittenCall} {application : Application}
    (calls : Calls earlier call application) (valid : application.Valid gate.composite.arity) :
    ∃ read : Application, read.ReadFor application ∧
      readCall (earlier.map fun gate => gate.definition dialect) (gate.definition dialect)
        (callTree dialect formalOperand call) = .ok (.gate read []) := by
  have length : call.qubits.length = application.gate.arity := by rw [calls.qubits, valid.length]
  obtain ⟨inner, same, begun⟩ := (known calls.names).begin length formalOperand
  have places : (call.qubits.map formalOperand).mapM (formalPosition (gate.definition dialect)) =
      .ok application.qubits := by
    rw [mapM_eq_ok_iff, calls.qubits, List.forall₂_map_left_iff]
    exact List.forall₂_same.mpr fun qubit member => formalPosition_formalText (valid.operands.inside qubit member)
  refine ⟨⟨inner, application.qubits⟩, ⟨same, rfl⟩, (begun _).trans ?_⟩
  change (call.qubits.map formalOperand).mapM (formalPosition (gate.definition dialect)) >>= _ = _
  rw [places]
  rfl

theorem body_read (gate : WrittenGate) {calls : List WrittenCall} {body : List Application}
    (stand : List.Forall₂ (Calls earlier) calls body) (valid : ∀ call ∈ body, call.Valid gate.composite.arity) :
    ∃ reads, List.Forall₂ Application.ReadFor reads body ∧
      (calls.map (callTree dialect formalOperand)).mapM
        (readCall (earlier.map fun gate => gate.definition dialect) (gate.definition dialect)) =
          .ok (reads.map (.gate · [])) := by
  induction stand with
  | nil => exact ⟨[], .nil, rfl⟩
  | cons call rest ih =>
    obtain ⟨first, others⟩ := List.forall_mem_cons.mp valid
    obtain ⟨read, same, done⟩ := readCall_callTree known gate call first
    obtain ⟨reads, later, run⟩ := ih others
    refine ⟨read :: reads, .cons same later, ?_⟩
    rw [List.map_cons, List.mapM_cons, done]
    dsimp only [bind, Except.bind]
    rw [run]
    rfl

/-- A definition means its composite, if the callees in its body mean what they name. -/
theorem means_definition {gate : WrittenGate} (follows : Follows earlier gate) (label : Option String) :
    Means dialect (gate :: earlier) (.defined gate.name) (.composite gate.composite label) := by
  obtain ⟨reads, same, run⟩ := body_read known gate follows.calls follows.valid
  refine ⟨.composite ⟨gate.name, gate.composite.arity, reads⟩ none, ?_, Gate.readFor_composite same label⟩
  have made : Composite.ofInstructions gate.name gate.composite.arity (reads.map (.gate · [])) =
      .ok ⟨gate.name, gate.composite.arity, reads⟩ :=
    Composite.ofInstructions_read gate.name follows.small same follows.valid
  change instantiate (gate.definition dialect :: earlier.map fun gate => gate.definition dialect)
    (gate.definition dialect).name [] = _
  have count : (gate.definition dialect).qubits.length = gate.composite.arity := by
    rw [WrittenGate.definition, WrittenGate.formals, List.length_map, List.length_range]
  rw [instantiate_own _ (isBuiltin_of_free follows.free) rfl, count,
    show (gate.definition dialect).body.mapM _ = _ from run]
  dsimp only [bind, Except.bind]
  rw [show Composite.ofInstructions (gate.definition dialect).name _ _ = _ from made]
  rfl

end Bodies

theorem readFor_alike {read : Gate} {first second : Composite} {label : Option String}
    (same : read.ReadFor (.composite first label)) (alike : Alike first second) :
    read.ReadFor (.composite second label) :=
  ⟨same.arity.trans alike.arity, fun writable => alike.eq label writable ▸ same.same (alike.eq label writable ▸ writable)⟩

/-- What a callee names is what is read for it. -/
theorem means_of_names (dialect : Dialect) {gates : List WrittenGate} (listed : Listed gates) {callee : Callee}
    {gate : Gate} (names : Names gates callee gate) : Means dialect gates callee gate := by
  induction listed generalizing callee gate with
  | nil =>
    cases names with
    | elementary kind label sayable => exact instantiate_elementary _ dialect kind label
    | defined gate label member alike => cases member
  | @cons earlier last follows listed ih =>
    cases names with
    | elementary kind label sayable => exact instantiate_elementary _ dialect kind label
    | defined gate label member alike =>
      rcases List.mem_cons.mp member with rfl | before
      · obtain ⟨read, found, same⟩ : Means dialect _ _ _ := means_definition ih follows label
        exact ⟨read, found, readFor_alike same alike⟩
      · obtain ⟨read, found, same⟩ := ih (.defined gate label before alike)
        obtain ⟨_, _, earlier⟩ := listed.follows gate before
        have different : last.name ≠ gate.name := fun same => ne_of_free follows.free gate before same.symm
        refine ⟨read, ?_, same⟩
        rw [List.map_cons]
        exact (instantiate_other _ (isBuiltin_of_free earlier.free) different _).trans found

end Qasm

end CircuitCloak

import CircuitCloak.Gate.Elementary

/-! Gates as a program applies them: elementary ones, and named composites that stand for a run of
gates on numbered local qubits. A composite holds gates only, by its type. -/

namespace CircuitCloak

mutual

inductive Gate where
  | elementary (kind : Elementary) (label : Option String)
  | composite (body : Composite) (label : Option String)

/-- A named run of gates over the local qubits below its arity. -/
structure Composite where
  name : String
  arity : Nat
  body : List Application

structure Application where
  gate : Gate
  qubits : List Nat

end

instance : Inhabited Composite := ⟨⟨"", 0, []⟩⟩
instance : Inhabited Gate := ⟨.elementary .id none⟩
instance : Inhabited Application := ⟨⟨default, []⟩⟩

mutual

/-- Equality of gates; numbers in angles compare as doubles do. -/
def Gate.beq : Gate → Gate → Bool
  | .elementary kind label, .elementary other tag => kind == other && label == tag
  | .composite ⟨name, arity, body⟩ label, .composite ⟨other, size, run⟩ tag =>
    name == other && arity == size && Application.beqList body run && label == tag
  | _, _ => false

def Application.beqList : List Application → List Application → Bool
  | [], [] => true
  | ⟨gate, qubits⟩ :: rest, ⟨other, operands⟩ :: tail =>
    gate.beq other && qubits == operands && Application.beqList rest tail
  | _, _ => false

end

instance : BEq Gate := ⟨Gate.beq⟩

def Composite.beq (first second : Composite) : Bool :=
  first.name == second.name && first.arity == second.arity &&
    Application.beqList first.body second.body

instance : BEq Composite := ⟨Composite.beq⟩

instance : BEq Application := ⟨fun first second =>
  first.gate == second.gate && first.qubits == second.qubits⟩

namespace Gate

def ofKind (kind : Elementary) : Gate := .elementary kind none

def name : Gate → String
  | .elementary kind _ => kind.name
  | .composite body _ => body.name

def arity : Gate → Nat
  | .elementary kind _ => kind.arity
  | .composite body _ => body.arity

def kind? : Gate → Option Elementary
  | .elementary kind _ => some kind
  | .composite _ _ => none

def labelled (label : String) : Gate → Gate
  | .elementary kind _ => .elementary kind (some label)
  | .composite body _ => .composite body (some label)

end Gate

/-- The operands that local qubits stand for. -/
def mapOperands (operands : List Nat) (locals : List Nat) : List Nat :=
  locals.map fun qubit => operands.getD qubit 0

mutual

/-- The elementary gates that a gate on operands stands for, in order. -/
def Gate.expand : Gate → List Nat → List Application
  | .elementary kind label, operands => [⟨.elementary kind label, operands⟩]
  | .composite ⟨_, _, body⟩ _, operands => Application.expandBody body operands

/-- The expansion of a body whose local qubits stand for the operands. -/
def Application.expandBody : List Application → List Nat → List Application
  | [], _ => []
  | ⟨gate, qubits⟩ :: rest, operands =>
    gate.expand (mapOperands operands qubits) ++ Application.expandBody rest operands

end

def Composite.expand (composite : Composite) (operands : List Nat) : List Application :=
  Application.expandBody composite.body operands

def Application.expand (call : Application) : List Application := call.gate.expand call.qubits

mutual

def Gate.flatLength : Gate → Nat
  | .elementary _ _ => 1
  | .composite ⟨_, _, body⟩ _ => Application.flatLengthBody body

def Application.flatLengthBody : List Application → Nat
  | [] => 0
  | ⟨gate, _⟩ :: rest => gate.flatLength + Application.flatLengthBody rest

end

def Composite.flatLength (composite : Composite) : Nat :=
  Application.flatLengthBody composite.body

end CircuitCloak

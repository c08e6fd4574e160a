import CircuitCloak.Qasm.Token

/-! The parsed form of circuit text: angle expressions, operands and statements. -/

namespace CircuitCloak.Qasm

/-- The two versions of the circuit language. -/
inductive Dialect where
  | qasm2
  | qasm3
  deriving DecidableEq, Repr

def Dialect.name : Dialect → String
  | qasm2 => "qasm2"
  | qasm3 => "qasm3"

def Dialect.versionNumber : Dialect → Nat
  | qasm2 => 2
  | qasm3 => 3

inductive Operator where
  | add | sub | mul | div | pow
  deriving DecidableEq, Repr

/-- Operators of a higher level bind tighter. -/
def Operator.level : Operator → Nat
  | add | sub => 1
  | mul | div => 2
  | pow => 3

/-- The least level of an operator in the right operand; powers group to the right. -/
def Operator.rightLevel (operator : Operator) : Nat :=
  if operator = .pow then operator.level else operator.level + 1

inductive Expr where
  | int (value : Nat)
  | decimal (value : Float)
  | name (name : String)
  | pi
  | tau
  | euler
  | neg (operand : Expr)
  | binary (left : Expr) (operator : Operator) (right : Expr)
  | call (function : String) (arguments : List Expr)
  | paren (inner : Expr)
  deriving Repr, Inhabited

structure Operand where
  register : String
  index : Option Nat
  deriving DecidableEq, Repr

structure GateCall where
  name : String
  arguments : List Expr
  operands : List Operand
  deriving Repr, Inhabited

/-- A gate definition. Barriers in its body have no meaning and are left out. -/
structure GateDefinition where
  name : String
  formals : List String
  qubits : List String
  body : List GateCall
  deriving Repr, Inhabited

inductive Statement where
  | includeFile (path : String)
  | quantumRegister (name : String) (size : Nat)
  | classicalRegister (name : String) (size : Nat)
  | gate (call : GateCall)
  | measure (qubits bits : Operand)
  | reset (qubits : Operand)
  | barrier (qubits : List Operand)
  | define (definition : GateDefinition)
  deriving Repr, Inhabited

end CircuitCloak.Qasm

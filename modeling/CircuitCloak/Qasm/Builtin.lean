import CircuitCloak.Qasm.Error
import CircuitCloak.Qasm.Tree

/-! The gates that every program may call without defining them, and the angles that expressions
stand for. -/

namespace CircuitCloak.Qasm

/-- Gates that take angles, with the names under which they can be called. -/
def parameterizedNames : List String :=
  ["rx", "ry", "rz", "p", "phase", "u1", "u2", "u3", "u", "U", "crz", "cp", "cu1", "cphase"]

def isBuiltin (name : String) : Bool :=
  name == "CX" || (Elementary.ofName? name).isSome || parameterizedNames.contains name

/-- A gate with a fixed meaning: the number of its angles, and how it is made from them. -/
structure Builtin where
  parameters : Nat
  make : List Angle → Elementary

def oneAngle (make : Angle → Elementary) : Builtin :=
  ⟨1, fun angles => make (angles.headD (.const 0))⟩

def twoAngles (make : Angle → Angle → Elementary) : Builtin :=
  ⟨2, fun angles => make (angles.getD 0 (.const 0)) (angles.getD 1 (.const 0))⟩

def threeAngles (make : Angle → Angle → Angle → Elementary) : Builtin :=
  ⟨3, fun angles =>
    make (angles.getD 0 (.const 0)) (angles.getD 1 (.const 0)) (angles.getD 2 (.const 0))⟩

def builtin? (name : String) : Option Builtin :=
  match name with
  | "rx" => some (oneAngle .rx)
  | "ry" => some (oneAngle .ry)
  | "rz" => some (oneAngle .rz)
  | "p" | "phase" | "u1" => some (oneAngle .p)
  | "u2" => some (twoAngles fun phi lambda => .u (.div .pi (.const 2)) phi lambda)
  | "u3" | "u" | "U" => some (threeAngles .u)
  | "crz" => some (oneAngle .crz)
  | "cp" | "cu1" | "cphase" => some (oneAngle .cp)
  | "CX" => some ⟨0, fun _ => .cx⟩
  | _ => (Elementary.ofName? name).map fun kind => ⟨0, fun _ => kind⟩

def function? : String → Option (Float → Float)
  | "sin" => some Float.sin
  | "cos" => some Float.cos
  | "tan" => some Float.tan
  | "exp" => some Float.exp
  | "ln" => some Float.log
  | "sqrt" => some Float.sqrt
  | _ => none

/-- The angles that formal parameters stand for; the first binding of a name counts. -/
abbrev Bindings := List (String × Angle)

/-- The angle of an operation. A power must have a value at once. -/
def combine (operator : Operator) (left right : Angle) : Except ParseError Angle :=
  match operator with
  | .add => .ok (.add left right)
  | .sub => .ok (.sub left right)
  | .mul => .ok (.mul left right)
  | .div => .ok (.div left right)
  | .pow =>
    match left.value?, right.value? with
    | some base, some exponent => .ok (.const (base.pow exponent))
    | _, _ => .error .symbolicExponent

/-- The angle that an expression stands for. Functions must have a value at once. -/
def Expr.angle (bindings : Bindings) : Expr → Except ParseError Angle
  | .int value => .ok (.const (.ofNat value))
  | .decimal value => .ok (.const value)
  | .pi => .ok .pi
  | .tau => .ok (.const 6.283185307179586)
  | .euler => .ok (.const 2.718281828459045)
  | .name symbol => .ok ((bindings.lookup symbol).getD (.symbol symbol))
  | .neg operand => return .neg (← operand.angle bindings)
  | .paren inner => inner.angle bindings
  | .binary left operator right => do
    let left ← left.angle bindings
    let right ← right.angle bindings
    combine operator left right
  | .call function [argument] => do
    match (← argument.angle bindings).value? with
    | none => .error (.symbolicArgument function)
    | some value =>
      match function? function with
      | some apply => .ok (.const (apply value))
      | none => .error (.unknownFunction function)
  | .call function _ => .error (.argumentCount function)

end CircuitCloak.Qasm

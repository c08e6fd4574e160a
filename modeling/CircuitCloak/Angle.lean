import CircuitCloak.Decimal.Layout

/-! Rotation angles: expressions over numbers, `pi` and unbound names. Transforms carry an angle
along untouched; only the simulator evaluates one. -/

namespace CircuitCloak

inductive Angle where
  | const (value : Float)
  | symbol (name : String)
  | pi
  | neg (operand : Angle)
  | add (left right : Angle)
  | sub (left right : Angle)
  | mul (left right : Angle)
  | div (left right : Angle)
  deriving BEq, Repr, Inhabited

namespace Angle

/-- The double nearest to π. -/
def piValue : Float := 3.141592653589793

/-- Some name is still unbound. -/
def isSymbolic : Angle → Bool
  | const _ | pi => false
  | symbol _ => true
  | neg operand => operand.isSymbolic
  | add left right | sub left right | mul left right | div left right =>
    left.isSymbolic || right.isSymbolic

/-- The value, if no name is unbound and no divisor is zero. -/
def value? : Angle → Option Float
  | const value => some value
  | symbol _ => none
  | pi => some piValue
  | neg operand => return -(← operand.value?)
  | add left right => return (← left.value?) + (← right.value?)
  | sub left right => return (← left.value?) - (← right.value?)
  | mul left right => return (← left.value?) * (← right.value?)
  | div left right => do
    let dividend ← left.value?
    let divisor ← right.value?
    if divisor == 0 then none else some (dividend / divisor)

/-- The expression with every operation in parentheses. -/
def text : Angle → String
  | const value => Decimal.plain.text value
  | symbol name => name
  | pi => "pi"
  | neg operand => "-(" ++ operand.text ++ ")"
  | add left right => "(" ++ left.text ++ " + " ++ right.text ++ ")"
  | sub left right => "(" ++ left.text ++ " - " ++ right.text ++ ")"
  | mul left right => "(" ++ left.text ++ " * " ++ right.text ++ ")"
  | div left right => "(" ++ left.text ++ " / " ++ right.text ++ ")"

end Angle

end CircuitCloak

import CircuitCloak.Angle

/-! The closed set of gates with a fixed meaning. A gate is discrete if it has no angle; only
discrete gates are ever transformed. -/

namespace CircuitCloak

inductive Elementary where
  | id | x | y | z | h | s | sdg | t | tdg | sx | sxdg
  | rx (angle : Angle) | ry (angle : Angle) | rz (angle : Angle) | p (angle : Angle)
  | u (theta phi lambda : Angle)
  | cx | cy | cz | ch | swap
  | crz (angle : Angle) | cp (angle : Angle)
  | ccx | cswap
  deriving BEq, Repr, Inhabited

namespace Elementary

def name : Elementary → String
  | id => "id" | x => "x" | y => "y" | z => "z" | h => "h"
  | s => "s" | sdg => "sdg" | t => "t" | tdg => "tdg" | sx => "sx" | sxdg => "sxdg"
  | rx _ => "rx" | ry _ => "ry" | rz _ => "rz" | p _ => "p" | u _ _ _ => "u"
  | cx => "cx" | cy => "cy" | cz => "cz" | ch => "ch" | swap => "swap"
  | crz _ => "crz" | cp _ => "cp"
  | ccx => "ccx" | cswap => "cswap"

/-- The discrete gate of a name; some gates have a second name. -/
def ofName? : String → Option Elementary
  | "id" | "i" => some id
  | "x" => some x
  | "y" => some y
  | "z" => some z
  | "h" => some h
  | "s" => some s
  | "sdg" => some sdg
  | "t" => some t
  | "tdg" => some tdg
  | "sx" => some sx
  | "sxdg" => some sxdg
  | "cx" | "cnot" => some cx
  | "cy" => some cy
  | "cz" => some cz
  | "ch" => some ch
  | "swap" => some swap
  | "ccx" | "toffoli" => some ccx
  | "cswap" | "fredkin" => some cswap
  | _ => none

def arity : Elementary → Nat
  | id | x | y | z | h | s | sdg | t | tdg | sx | sxdg
  | rx _ | ry _ | rz _ | p _ | u _ _ _ => 1
  | cx | cy | cz | ch | swap | crz _ | cp _ => 2
  | ccx | cswap => 3

def angles : Elementary → List Angle
  | rx angle | ry angle | rz angle | p angle | crz angle | cp angle => [angle]
  | u theta phi lambda => [theta, phi, lambda]
  | _ => []

def isDiscrete (gate : Elementary) : Bool := gate.angles.isEmpty

/-- Applying the gate twice changes nothing. -/
def isSelfInverse : Elementary → Bool
  | id | x | y | z | h | cx | cy | cz | ch | swap | ccx | cswap => true
  | _ => false

def inverse? : Elementary → Option Elementary
  | s => some sdg
  | sdg => some s
  | t => some tdg
  | tdg => some t
  | sx => some sxdg
  | sxdg => some sx
  | gate => if gate.isSelfInverse then some gate else none

/-- Two gates are of one kind if they differ in their angles at most. -/
def sameKind (first second : Elementary) : Bool := first.name == second.name

end Elementary

end CircuitCloak

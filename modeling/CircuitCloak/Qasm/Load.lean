import CircuitCloak.Qasm.Parser
import CircuitCloak.Qasm.Scope

/-! Loading circuit text: lexemes, statements, circuit. Each text belongs to one dialect. Registers
that together outgrow the words are a panic. -/

namespace CircuitCloak.Qasm

def circuitOf (statements : List Statement) : Except (Halt ParseError) Circuit := do
  return (← statements.foldlM Scope.read .empty).circuit

/-- The circuit of a source text in the given dialect. -/
def parse (dialect : Dialect) (source : String) : Except (Halt ParseError) Circuit := do
  circuitOf (← refusing (statements dialect source))

/-- The circuit of a source text in either dialect, the older one first, and the dialect. -/
def load (source : String) : Except (Halt ParseError) (Circuit × Dialect) :=
  match parse .qasm2 source with
  | .ok circuit => .ok (circuit, .qasm2)
  | .error .panic => .error .panic
  | .error (.refused asQasm2) =>
    match parse .qasm3 source with
    | .ok circuit => .ok (circuit, .qasm3)
    | .error .panic => .error .panic
    | .error (.refused asQasm3) => .error (.refused (.unrecognized asQasm2 asQasm3))

end CircuitCloak.Qasm

import CircuitCloak.Circuit.Instruction
import CircuitCloak.Qasm.Lexeme

/-! Why circuit text is refused. -/

namespace CircuitCloak.Qasm

inductive ParseError where
  | invalidToken (fault : InvalidToken)
  | unexpectedToken (line : Nat) (expected : String) (found : Token)
  | unexpectedEnd (expected : String)
  | invalidVersion (found : Token)
  | wrongVersion (version dialect : String)
  | undefinedName (name : String)
  | duplicateDeclaration (name : String)
  | unknownGate (name : String)
  | wrongQubitCount (gate : String) (expected got : Nat)
  | wrongParameterCount (gate : String) (expected got : Nat)
  | indexOutOfBounds (register : String) (index size : Nat)
  | unsupported (line : Nat) (construct : String)
  | indexTooLarge (index : Nat)
  | indexedFormal (register gate : String)
  | symbolicExponent
  | argumentCount (function : String)
  | symbolicArgument (function : String)
  | unknownFunction (function : String)
  /-- The bound on nested steps is used up. -/
  | tooDeep
  | circuit (fault : CircuitError)
  | unrecognized (asQasm2 asQasm3 : ParseError)
  deriving Repr

def ParseError.message : ParseError → String
  | invalidToken fault => s!"Lexer error at position {fault.offset}: " ++ fault.message
  | unexpectedToken line expected found =>
    s!"Unexpected token at line {line}: expected {expected}, found {found.text}"
  | unexpectedEnd expected => s!"Unexpected end of input: {expected}"
  | invalidVersion found => s!"Invalid OPENQASM version: {found.text}"
  | wrongVersion version dialect => s!"Invalid OPENQASM version: {version} is not {dialect}"
  | undefinedName name => s!"Undefined identifier: {name}"
  | duplicateDeclaration name => s!"Duplicate declaration: {name}"
  | unknownGate name => s!"Unknown gate: {name}"
  | wrongQubitCount gate expected got => s!"Gate '{gate}' expects {expected} qubits, got {got}"
  | wrongParameterCount gate expected got =>
    s!"Gate '{gate}' expects {expected} parameters, got {got}"
  | indexOutOfBounds register index size =>
    s!"Index {index} out of bounds for register '{register}' of size {size}"
  | unsupported line construct => s!"Unsupported construct at line {line}: {construct}"
  | indexTooLarge index => s!"Parse error: index {index} exceeds the register limit"
  | indexedFormal register gate =>
    s!"Parse error: indexed operand '{register}' inside gate '{gate}'"
  | symbolicExponent => "Parse error: symbolic exponent"
  | argumentCount function => s!"Parse error: function {function} takes one argument"
  | symbolicArgument function =>
    s!"Parse error: cannot evaluate {function} of a symbolic argument"
  | unknownFunction function => s!"Parse error: unknown function: {function}"
  | tooDeep => "Parse error: nesting too deep"
  | circuit fault => "Circuit error: " ++ fault.message
  | unrecognized asQasm2 asQasm3 =>
    "Source is neither OpenQASM 2 (" ++ asQasm2.message ++ ") nor OpenQASM 3 (" ++
      asQasm3.message ++ ")"

end CircuitCloak.Qasm

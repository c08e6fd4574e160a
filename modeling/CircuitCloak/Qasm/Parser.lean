import CircuitCloak.Qasm.Error
import CircuitCloak.Qasm.Tree
import CircuitCloak.Word

/-! Parsing: from lexemes to statements. A parser step looks at the lexemes that are left and keeps
those it did not consume. Loops and nested expressions run on a bound computed from the number of
lexemes; every turn consumes one, so the bound is never used up. -/

namespace CircuitCloak.Qasm

abbrev Parser := StateT (List Lexeme) (Except ParseError)

/-- What all steps know: the dialect, and the line of the last lexeme. -/
structure Setting where
  dialect : Dialect
  lastLine : Nat

namespace Parser

def peek : Parser (Option Token) := return (← get).head?.map (·.token)

def advance : Parser (Option Token) := do
  match ← get with
  | [] => return none
  | lexeme :: rest =>
    set rest
    return some lexeme.token

def check (token : Token) : Parser Bool := return (← peek) == some token

def consume (token : Token) : Parser Bool := do
  if ← check token then
    let _ ← advance
    return true
  else return false

/-- The line of the next token, or of the last one. -/
def line (setting : Setting) : Parser Nat := do
  return ((← get).head?.map (·.place.line)).getD setting.lastLine

def unexpected {α : Type} (setting : Setting) (expected : String) : Parser α := do
  match ← peek with
  | some found => throw (.unexpectedToken (← line setting) expected found)
  | none => throw (.unexpectedEnd expected)

def expect (setting : Setting) (token : Token) : Parser Unit := do
  match ← peek with
  | none => throw (.unexpectedEnd ("expected " ++ token.text))
  | some found =>
    if found == token then
      let _ ← advance
    else throw (.unexpectedToken (← line setting) token.text found)

def unsupported {α : Type} (setting : Setting) (construct : String) : Parser α := do
  throw (.unsupported (← line setting) construct)

def identifier (setting : Setting) : Parser String := do
  match ← peek with
  | some (.identifier name) =>
    let _ ← advance
    return name
  | _ => unexpected setting "identifier"

/-- A size or an index; registers are addressed by words of 32 bits. -/
def index (setting : Setting) : Parser Nat := do
  match ← peek with
  | some (.integer value) =>
    if value < wordCount then
      let _ ← advance
      return value
    else throw (.indexTooLarge value)
  | _ => unexpected setting "integer"

def commaList {α : Type} (member : Parser α) : Nat → Parser (List α)
  | 0 => throw .tooDeep
  | fuel + 1 => do
    let first ← member
    if ← consume (.mark .comma) then return first :: (← commaList member fuel)
    else return [first]

/-- A bound on the turns of any loop from here. -/
def bound : Parser Nat := return (← get).length + 1

def operator? : Token → Option Operator
  | .mark .plus => some .add
  | .mark .minus => some .sub
  | .mark .star => some .mul
  | .mark .slash => some .div
  | .mark .doubleStar | .mark .caret => some .pow
  | _ => none

def peekOperator : Parser (Option Operator) := return (← peek).bind operator?

mutual

/-- A signed primary expression. A leading minus takes no more than the primary after it. -/
def signed (setting : Setting) : Nat → Parser Expr
  | 0 => throw .tooDeep
  | fuel + 1 => do
    if ← consume (.mark .minus) then return .neg (← signed setting fuel)
    else if ← consume (.mark .plus) then signed setting fuel
    else primary setting fuel

/-- A literal, a name, a function call, or an expression in parentheses. -/
def primary (setting : Setting) : Nat → Parser Expr
  | 0 => throw .tooDeep
  | fuel + 1 => do
    let place ← line setting
    match ← advance with
    | none => throw (.unexpectedEnd "expression")
    | some (.integer value) => return .int value
    | some (.decimal value) => return .decimal value
    | some (.keyword .pi) => return .pi
    | some (.keyword .tau) => return .tau
    | some (.keyword .euler) => return .euler
    | some (.identifier name) =>
      if ← consume (.mark .leftParen) then
        let list ← arguments setting fuel
        expect setting (.mark .rightParen)
        return .call name list
      else return .name name
    | some (.mark .leftParen) =>
      let inner ← climb setting 0 fuel
      expect setting (.mark .rightParen)
      return .paren inner
    | some found => throw (.unexpectedToken place "expression" found)

/-- An expression of operators of at least the given level. -/
def climb (setting : Setting) (least : Nat) : Nat → Parser Expr
  | 0 => throw .tooDeep
  | fuel + 1 => do
    let left ← signed setting fuel
    extend setting least left fuel

/-- Extends an expression to the right as long as the operators are of at least the given level. -/
def extend (setting : Setting) (least : Nat) (left : Expr) : Nat → Parser Expr
  | 0 => throw .tooDeep
  | fuel + 1 => do
    match ← peekOperator with
    | none => return left
    | some operator =>
      if operator.level < least then return left
      else
        let _ ← advance
        let right ← climb setting operator.rightLevel fuel
        extend setting least (.binary left operator right) fuel

def arguments (setting : Setting) : Nat → Parser (List Expr)
  | 0 => throw .tooDeep
  | fuel + 1 => do
    if ← check (.mark .rightParen) then return []
    else argumentsFrom setting fuel

def argumentsFrom (setting : Setting) : Nat → Parser (List Expr)
  | 0 => throw .tooDeep
  | fuel + 1 => do
    let first ← climb setting 0 fuel
    if ← consume (.mark .comma) then return first :: (← argumentsFrom setting fuel)
    else return [first]

end

/-- A bound on the steps of the expressions from here: each token takes part in at most four, and the
end of the text in five. -/
def expressionBound : Parser Nat := return 4 * (← get).length + 5

def expression (setting : Setting) : Parser Expr := do climb setting 0 (← expressionBound)

def expressionList (setting : Setting) : Parser (List Expr) := do
  arguments setting (← expressionBound)

def operand (setting : Setting) : Parser Operand := do
  let register ← identifier setting
  if ← consume (.mark .leftBracket) then
    let position ← index setting
    expect setting (.mark .rightBracket)
    return ⟨register, some position⟩
  else return ⟨register, none⟩

def operands (setting : Setting) : Parser (List Operand) := do
  commaList (operand setting) (← bound)

def identifiers (setting : Setting) : Parser (List String) := do
  commaList (identifier setting) (← bound)

/-- The name of a gate; two of them are reserved words. -/
def gateName (setting : Setting) : Parser String := do
  match ← peek with
  | some (.keyword .upperU) =>
    let _ ← advance
    return "U"
  | some (.keyword .upperCX) =>
    let _ ← advance
    return "CX"
  | _ => identifier setting

def callAfterName (setting : Setting) (name : String) : Parser GateCall := do
  let arguments ← if ← consume (.mark .leftParen) then
      let list ← expressionList setting
      expect setting (.mark .rightParen)
      pure list
    else pure []
  let targets ← operands setting
  expect setting (.mark .semicolon)
  return ⟨name, arguments, targets⟩

def includeFile (setting : Setting) : Parser Statement := do
  expect setting (.keyword .includeFile)
  match ← peek with
  | some (.quoted path) =>
    let _ ← advance
    expect setting (.mark .semicolon)
    return .includeFile path
  | _ => unexpected setting "string literal"

def declaration (quantum : Bool) (name : String) (size : Nat) : Statement :=
  if quantum then .quantumRegister name size else .classicalRegister name size

/-- A declaration with the size after the name. -/
def sizedDeclaration (setting : Setting) (quantum : Bool) : Parser Statement := do
  let _ ← advance
  let name ← identifier setting
  expect setting (.mark .leftBracket)
  let size ← index setting
  expect setting (.mark .rightBracket)
  expect setting (.mark .semicolon)
  return declaration quantum name size

/-- A declaration with an optional size before the name. -/
def typedDeclaration (setting : Setting) (quantum : Bool) : Parser Statement := do
  let _ ← advance
  let size ← if ← consume (.mark .leftBracket) then
      let size ← index setting
      expect setting (.mark .rightBracket)
      pure size
    else pure 1
  let name ← identifier setting
  if ← check (.mark .equal) then unsupported setting "initialized declaration"
  expect setting (.mark .semicolon)
  return declaration quantum name size

def measure (setting : Setting) : Parser Statement := do
  expect setting (.keyword .measure)
  let qubits ← operand setting
  expect setting (.mark .arrow)
  let bits ← operand setting
  expect setting (.mark .semicolon)
  return .measure qubits bits

def reset (setting : Setting) : Parser Statement := do
  expect setting (.keyword .reset)
  let qubits ← operand setting
  expect setting (.mark .semicolon)
  return .reset qubits

/-- A barrier; without operands it spans all qubits. -/
def barrier (setting : Setting) : Parser (List Operand) := do
  expect setting (.keyword .barrier)
  let qubits ← if ← check (.mark .semicolon) then pure [] else operands setting
  expect setting (.mark .semicolon)
  return qubits

/-- The calls of a gate body, up to its closing brace. -/
def gateBody (setting : Setting) : Nat → Parser (List GateCall)
  | 0 => throw .tooDeep
  | fuel + 1 => do
    if ← check (.mark .rightBrace) then return []
    else match ← peek with
      | some (.keyword .barrier) =>
        let _ ← barrier setting
        gateBody setting fuel
      | some (.identifier _) | some (.keyword .upperU) | some (.keyword .upperCX) =>
        let name ← gateName setting
        let call ← callAfterName setting name
        return call :: (← gateBody setting fuel)
      | some (.keyword .measure) | some (.keyword .reset) =>
        unsupported setting "non-unitary operation in gate body"
      | _ => unexpected setting "gate call"

def gateDefinition (setting : Setting) : Parser GateDefinition := do
  expect setting (.keyword .gate)
  let name ← gateName setting
  let formals ← if ← consume (.mark .leftParen) then
      let list ← if ← check (.mark .rightParen) then pure [] else identifiers setting
      expect setting (.mark .rightParen)
      pure list
    else pure []
  let qubits ← identifiers setting
  expect setting (.mark .leftBrace)
  let body ← gateBody setting (← bound)
  expect setting (.mark .rightBrace)
  return ⟨name, formals, qubits, body⟩

/-- What follows the target of a measurement that is written as an assignment. -/
def assignment (setting : Setting) (register : String) : Parser Statement := do
  let index ← if ← consume (.mark .leftBracket) then
      let position ← index setting
      expect setting (.mark .rightBracket)
      pure (some position)
    else pure none
  expect setting (.mark .equal)
  if ← consume (.keyword .measure) then
    let qubits ← operand setting
    expect setting (.mark .semicolon)
    return .measure qubits ⟨register, index⟩
  else unsupported setting "classical assignment"

/-- A statement that starts with a name: a gate call, or an assignment where the dialect has
them. -/
def namedStatement (setting : Setting) : Parser Statement := do
  let name ← gateName setting
  if (← check (.mark .equal)) || (← check (.mark .leftBracket)) then
    if setting.dialect = .qasm2 then unexpected setting "gate arguments"
    else assignment setting name
  else if ← check (.mark .atSign) then unsupported setting "gate modifier"
  else return .gate (← callAfterName setting name)

/-- One statement; a lone semicolon is none. -/
def statement (setting : Setting) : Parser (Option Statement) := do
  match ← peek with
  | none => throw (.unexpectedEnd "statement")
  | some (.mark .semicolon) =>
    let _ ← advance
    return none
  | some (.keyword .includeFile) => some <$> includeFile setting
  | some (.keyword .qreg) => some <$> sizedDeclaration setting true
  | some (.keyword .creg) => some <$> sizedDeclaration setting false
  | some (.keyword .qubit) =>
    if setting.dialect = .qasm3 then some <$> typedDeclaration setting true
    else unexpected setting "statement"
  | some (.keyword .bit) =>
    if setting.dialect = .qasm3 then some <$> typedDeclaration setting false
    else unexpected setting "statement"
  | some (.keyword .measure) => some <$> measure setting
  | some (.keyword .reset) => some <$> reset setting
  | some (.keyword .barrier) => return some (.barrier (← barrier setting))
  | some (.keyword .gate) => return some (.define (← gateDefinition setting))
  | some (.keyword .ifThen) | some (.keyword .opaqueGate) | some (.keyword .forLoop)
  | some (.keyword .whileLoop) | some (.keyword .inputValue) | some (.keyword .outputValue) =>
    unsupported setting (((← peek).map (·.text)).getD "")
  | some (.identifier _) | some (.keyword .upperU) | some (.keyword .upperCX) =>
    some <$> namedStatement setting
  | some _ => unexpected setting "statement"

/-- Statements up to the end, of which those already parsed are given last first. -/
def statementsFrom (setting : Setting) : Nat → List Statement → Parser (List Statement)
  | 0, _ => throw .tooDeep
  | fuel + 1, found => do
    if (← get).isEmpty then return found.reverse
    else
      let next ← statement setting
      statementsFrom setting fuel (next.toList ++ found)

/-- The version of the header and its whole part. -/
def versionNumber : Token → Option (String × Nat)
  | .decimal value => some (Decimal.version.text value, value.toUInt64.toNat)
  | .integer value => some (toString value ++ ".0", value)
  | _ => none

/-- The header names a version of the dialect. -/
def header (setting : Setting) : Parser Unit := do
  expect setting (.keyword .header)
  match ← advance with
  | none => throw (.unexpectedEnd "version number")
  | some token =>
    match versionNumber token with
    | none => throw (.invalidVersion token)
    | some (version, major) =>
      if major ≠ setting.dialect.versionNumber then
        throw (.wrongVersion version setting.dialect.name)
  expect setting (.mark .semicolon)

def program (setting : Setting) : Parser (List Statement) := do
  header setting
  statementsFrom setting (← bound) []

end Parser

/-- The statements of a source text in the given dialect. -/
def statements (dialect : Dialect) (source : String) : Except ParseError (List Statement) := do
  let tokens ← match lexemes source with
    | .ok tokens => .ok tokens
    | .error fault => .error (.invalidToken fault)
  let lastLine := (tokens.getLast?.map (·.place.line)).getD 1
  let (program, _) ← (Parser.program ⟨dialect, lastLine⟩).run tokens
  return program

end CircuitCloak.Qasm

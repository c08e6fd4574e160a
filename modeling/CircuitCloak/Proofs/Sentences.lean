import CircuitCloak.Proofs.Constants

/-! What the text of a listing says: the tokens that it is cut into, statement by statement, each with the
statement that they stand for. -/

namespace CircuitCloak.Qasm

/-- An angle without numbers, in which every symbol is an identifier. -/
def Plain : Angle → Prop
  | .const _ => False
  | .symbol name => IsIdentifier name
  | .pi => True
  | .neg operand => Plain operand
  | .add left right | .sub left right | .mul left right | .div left right => Plain left ∧ Plain right

def operationTokens (symbol : Mark) (left right : List Token) : List Token :=
  [.mark .leftParen] ++ left ++ [.mark symbol] ++ right ++ [.mark .rightParen]

/-- An angle in which every symbol is an identifier. -/
def Sayable : Angle → Prop
  | .const _ | .pi => True
  | .symbol name => IsIdentifier name
  | .neg operand => Sayable operand
  | .add left right | .sub left right | .mul left right | .div left right => Sayable left ∧ Sayable right

theorem Plain.sayable {angle : Angle} (plain : Plain angle) : Sayable angle := by
  induction angle with
  | const => trivial
  | symbol => exact plain
  | pi => trivial
  | neg operand ih => exact ih plain
  | add left right first second | sub left right first second | mul left right first second
  | div left right first second => exact ⟨first plain.1, second plain.2⟩

def angleFactors : Angle → List Factor
  | .const value => (constantProduct value).factors
  | _ => []

def angleTokens : Angle → List Token
  | .const value => (constantProduct value).headTokens ++ (constantProduct value).factors.flatMap (·.tokens)
  | .symbol name => [.identifier name]
  | .pi => [.keyword .pi]
  | .neg operand => [.mark .minus, .mark .leftParen] ++ angleTokens operand ++ [.mark .rightParen]
  | .add left right => operationTokens .plus (angleTokens left) (angleTokens right)
  | .sub left right => operationTokens .minus (angleTokens left) (angleTokens right)
  | .mul left right => operationTokens .star (angleTokens left) (angleTokens right)
  | .div left right => operationTokens .slash (angleTokens left) (angleTokens right)

/-- A product or a quotient. Of a number on the right the operator takes the literal, and the factors come after. -/
def regrouped (left : Expr) (operator : Operator) (right : Angle) (tree : Expr) : Expr :=
  match right with
  | .const value => extended (constantProduct value).factors (.binary left operator (constantProduct value).head)
  | _ => .binary left operator tree

/-- The expression that is read for the text of an angle. -/
def angleTree : Angle → Expr
  | .const value => extended (constantProduct value).factors (constantProduct value).head
  | .symbol name => .name name
  | .pi => .pi
  | .neg operand => .neg (.paren (angleTree operand))
  | .add left right => .paren (.binary (angleTree left) .add (angleTree right))
  | .sub left right => .paren (.binary (angleTree left) .sub (angleTree right))
  | .mul left right => .paren (regrouped (angleTree left) .mul right (angleTree right))
  | .div left right => .paren (regrouped (angleTree left) .div right (angleTree right))

/-- The tokens of an angle before the factors, if it is a number. -/
def headTokens : Angle → List Token
  | .const value => (constantProduct value).headTokens
  | angle => angleTokens angle

def headTree : Angle → Expr
  | .const value => (constantProduct value).head
  | angle => angleTree angle

theorem angleTokens_eq (angle : Angle) :
    angleTokens angle = headTokens angle ++ (angleFactors angle).flatMap (·.tokens) := by
  cases angle <;> first | rfl | exact (List.append_nil _).symm

theorem angleTree_eq (angle : Angle) : angleTree angle = extended (angleFactors angle) (headTree angle) := by
  cases angle <;> rfl

theorem regrouped_eq (left : Expr) (operator : Operator) (right : Angle) :
    regrouped left operator right (angleTree right) =
      extended (angleFactors right) (.binary left operator (headTree right)) := by
  cases right <;> rfl

theorem proper_angleFactors (angle : Angle) : ∀ factor ∈ angleFactors angle, factor.Proper := by
  cases angle with
  | const value => exact (proper_constantProduct value).factors
  | _ => exact nofun

def commas (runs : List (List Token)) : List Token := List.intercalate [.mark .comma] runs

def argumentTokens : List Angle → List Token
  | [] => []
  | angles => [.mark .leftParen] ++ commas (angles.map angleTokens) ++ [.mark .rightParen]

def calleeName (dialect : Dialect) : Callee → String
  | .defined name => name
  | .elementary kind => kindText dialect kind

def calleeAngles : Callee → List Angle
  | .defined _ => []
  | .elementary kind => kind.angles

def Callee.Legible : Callee → Prop
  | .defined name => IsIdentifier name
  | .elementary kind => ∀ angle ∈ kind.angles, Sayable angle

structure WrittenCall.Legible (call : WrittenCall) : Prop where
  callee : call.callee.Legible
  operands : call.qubits ≠ []

def callTokens (dialect : Dialect) (qubit : Nat → List Token) (call : WrittenCall) : List Token :=
  [.identifier (calleeName dialect call.callee)] ++ argumentTokens (calleeAngles call.callee) ++
    commas (call.qubits.map qubit) ++ [.mark .semicolon]

def callTree (dialect : Dialect) (qubit : Nat → Operand) (call : WrittenCall) : GateCall :=
  ⟨calleeName dialect call.callee, (calleeAngles call.callee).map angleTree, call.qubits.map qubit⟩

def formalTokens (qubit : Nat) : List Token := [.identifier (formalText qubit)]

def formalOperand (qubit : Nat) : Operand := ⟨formalText qubit, none⟩

def elementTokens (register : String) (position : Nat) : List Token :=
  [.identifier register, .mark .leftBracket, .integer position, .mark .rightBracket]

def elementOperand (register : String) (position : Nat) : Operand := ⟨register, some position⟩

/-- A statement with the tokens that stand for it. -/
structure Sentence where
  tokens : List Token
  statement : Statement

/-- A gate definition from its name, its qubits and the calls in its body. -/
def definitionSentence (name : String) (qubits : List String) (body : List (List Token × GateCall)) : Sentence :=
  ⟨[.keyword .gate, .identifier name] ++ commas (qubits.map fun qubit => [.identifier qubit]) ++
      [.mark .leftBrace] ++ body.flatMap (·.1) ++ [.mark .rightBrace],
    .define ⟨name, [], qubits, body.map (·.2)⟩⟩

namespace WrittenGate

def formals (gate : WrittenGate) : List String := (List.range gate.composite.arity).map formalText

def sentence (dialect : Dialect) (gate : WrittenGate) : Sentence :=
  definitionSentence gate.name gate.formals
    (gate.calls.map fun call => (callTokens dialect formalTokens call, callTree dialect formalOperand call))

structure Legible (gate : WrittenGate) : Prop where
  name : IsIdentifier gate.name
  operands : 0 < gate.composite.arity
  calls : ∀ call ∈ gate.calls, call.Legible

end WrittenGate

/-- The definition that the newer dialect's include file lacks. -/
def sxdgSentence : Sentence :=
  definitionSentence "sxdg" ["a"] (["h", "sdg", "h"].map fun name =>
    ([.identifier name, .identifier "a", .mark .semicolon], ⟨name, [], [⟨"a", none⟩]⟩))

def measureSentence (dialect : Dialect) (qubit clbit : Nat) : Sentence :=
  ⟨match dialect with
    | .qasm2 => [.keyword .measure] ++ elementTokens "q" qubit ++ [.mark .arrow] ++ elementTokens "c" clbit ++
        [.mark .semicolon]
    | .qasm3 => elementTokens "c" clbit ++ [.mark .equal, .keyword .measure] ++ elementTokens "q" qubit ++
        [.mark .semicolon],
    .measure (elementOperand "q" qubit) (elementOperand "c" clbit)⟩

def resetSentence (qubit : Nat) : Sentence :=
  ⟨[.keyword .reset] ++ elementTokens "q" qubit ++ [.mark .semicolon], .reset (elementOperand "q" qubit)⟩

namespace WrittenInstruction

def sentences (dialect : Dialect) : WrittenInstruction → List Sentence
  | .call written =>
    [⟨callTokens dialect (elementTokens "q") written, .gate (callTree dialect (elementOperand "q") written)⟩]
  | .measure qubits clbits => List.zipWith (measureSentence dialect) qubits clbits
  | .reset qubits => qubits.map resetSentence
  | .barrier qubits =>
    [⟨[.keyword .barrier] ++ commas (qubits.map (elementTokens "q")) ++ [.mark .semicolon],
      .barrier (qubits.map (elementOperand "q"))⟩]

/-- Calls can be written, and positions are words. -/
def Legible : WrittenInstruction → Prop
  | .call written => written.Legible ∧ ∀ qubit ∈ written.qubits, qubit < wordCount
  | .measure qubits clbits => (∀ qubit ∈ qubits, qubit < wordCount) ∧ ∀ clbit ∈ clbits, clbit < wordCount
  | .reset qubits => ∀ qubit ∈ qubits, qubit < wordCount
  | .barrier qubits => ∀ qubit ∈ qubits, qubit < wordCount

def angles : WrittenInstruction → List Angle
  | .call written => calleeAngles written.callee
  | _ => []

end WrittenInstruction

def versionToken : Dialect → Token
  | .qasm2 => .decimal (decimalValue "2.0".toList)
  | .qasm3 => .decimal (decimalValue "3.0".toList)

def headerTokens (dialect : Dialect) : List Token := [.keyword .header, versionToken dialect, .mark .semicolon]

def includedFile : Dialect → String
  | .qasm2 => "qelib1.inc"
  | .qasm3 => "stdgates.inc"

def includeSentence (dialect : Dialect) : Sentence :=
  ⟨[.keyword .includeFile, .quoted (includedFile dialect), .mark .semicolon], .includeFile (includedFile dialect)⟩

/-- A declaration, with its size after the name in the older dialect and before it in the newer one. -/
def registerTokens (dialect : Dialect) (sized typed : Keyword) (name : String) (size : Nat) : List Token :=
  match dialect with
  | .qasm2 => [.keyword sized] ++ elementTokens name size ++ [.mark .semicolon]
  | .qasm3 => [.keyword typed, .mark .leftBracket, .integer size, .mark .rightBracket, .identifier name,
      .mark .semicolon]

def quantumSentence (dialect : Dialect) (size : Nat) : Sentence :=
  ⟨registerTokens dialect .qreg .qubit "q" size, .quantumRegister "q" size⟩

def classicalSentence (dialect : Dialect) (size : Nat) : Sentence :=
  ⟨registerTokens dialect .creg .bit "c" size, .classicalRegister "c" size⟩

namespace Listing

def definitions (dialect : Dialect) (listing : Listing) : List Sentence :=
  (if listing.needsSxdg dialect then [sxdgSentence] else []) ++ listing.gates.map (·.sentence dialect)

def registers (dialect : Dialect) (listing : Listing) : List Sentence :=
  (if listing.numQubits > 0 then [quantumSentence dialect listing.numQubits] else []) ++
    if listing.numClbits > 0 then [classicalSentence dialect listing.numClbits] else []

def sentences (dialect : Dialect) (listing : Listing) : List Sentence :=
  [includeSentence dialect] ++ listing.definitions dialect ++ listing.registers dialect ++
    listing.body.flatMap (·.sentences dialect)

/-- Everything in a listing can be written, and positions are words. -/
structure Sayable (listing : Listing) : Prop where
  qubits : listing.numQubits < wordCount
  clbits : listing.numClbits < wordCount
  gates : ∀ gate ∈ listing.gates, gate.Legible
  body : ∀ instruction ∈ listing.body, instruction.Legible

def angles (listing : Listing) : List Angle :=
  listing.gates.flatMap (fun gate => gate.calls.flatMap fun call => calleeAngles call.callee) ++
    listing.body.flatMap (·.angles)

/-- Numbers in a listing are not too large either. -/
structure Legible (listing : Listing) : Prop extends listing.Sayable where
  numbers : ∀ angle ∈ listing.angles, Sized (angleTokens angle)

end Listing

end CircuitCloak.Qasm

import CircuitCloak.Qasm.Listing
import CircuitCloak.Qasm.Tree

/-! Writing circuits as text in either dialect. -/

namespace CircuitCloak.Qasm

/-- A small multiple of π: `numerator * pi / denominator`. -/
structure PiMultiple where
  numerator : Int
  denominator : Nat
  deriving DecidableEq, Repr

/-- The multiples that are written as such, in the order in which they are tried. -/
def PiMultiple.all : List PiMultiple :=
  [1, 2, 3, 4, 6, 8].flatMap fun denominator =>
    (List.range 16).flatMap fun (step : Nat) =>
      [⟨step + 1, denominator⟩, ⟨-(step + 1), denominator⟩]

def PiMultiple.value (multiple : PiMultiple) : Float :=
  Float.ofInt multiple.numerator * Angle.piValue / Float.ofNat multiple.denominator

def PiMultiple.text (multiple : PiMultiple) : String :=
  let sign := if multiple.numerator < 0 then "-" else ""
  let scaled := match multiple.numerator.natAbs with
    | 1 => "pi"
    | scale => toString scale ++ "*pi"
  let divided := if multiple.denominator = 1 then "" else "/" ++ toString multiple.denominator
  sign ++ scaled ++ divided

/-- The first small multiple of π that is as good as equal to a number. -/
def PiMultiple.near? (value : Float) : Option PiMultiple :=
  all.find? fun multiple => (value - multiple.value).abs < 1e-12

/-- A number in circuit text; small multiples of π are recognised. -/
def constantText (value : Float) : String :=
  if value == 0 then "0"
  else match PiMultiple.near? value with
    | some multiple => multiple.text
    | none => Decimal.plain.text value

def angleText : Angle → String
  | .const value => constantText value
  | .symbol name => name
  | .pi => "pi"
  | .neg operand => "-(" ++ angleText operand ++ ")"
  | .add left right => "(" ++ angleText left ++ " + " ++ angleText right ++ ")"
  | .sub left right => "(" ++ angleText left ++ " - " ++ angleText right ++ ")"
  | .mul left right => "(" ++ angleText left ++ " * " ++ angleText right ++ ")"
  | .div left right => "(" ++ angleText left ++ " / " ++ angleText right ++ ")"

def kindText (dialect : Dialect) (kind : Elementary) : String :=
  match kind, dialect with
  | .u _ _ _, _ => "u3"
  | .p _, .qasm2 => "u1"
  | .cp _, .qasm2 => "cu1"
  | _, _ => kind.name

/-- The name of a call, with angles where the gate has them. -/
def calleeText (dialect : Dialect) : Callee → String
  | .defined name => name
  | .elementary kind =>
    match kind.angles with
    | [] => kindText dialect kind
    | angles => kindText dialect kind ++ "(" ++ ", ".intercalate (angles.map angleText) ++ ")"

def formalText (qubit : Nat) : String := "a" ++ toString qubit

def qubitText (qubit : Nat) : String := "q[" ++ toString qubit ++ "]"

def clbitText (clbit : Nat) : String := "c[" ++ toString clbit ++ "]"

def callText (dialect : Dialect) (qubitName : Nat → String) (call : WrittenCall) : String :=
  calleeText dialect call.callee ++ " " ++ ", ".intercalate (call.qubits.map qubitName) ++ ";"

def WrittenGate.lines (dialect : Dialect) (gate : WrittenGate) : List String :=
  let formals := (List.range gate.composite.arity).map formalText
  ("gate " ++ gate.name ++ " " ++ ", ".intercalate formals ++ " \x7b") ::
    gate.calls.map (fun call => "  " ++ callText dialect formalText call) ++ ["\x7d"]

def measureText (dialect : Dialect) (qubit clbit : Nat) : String :=
  match dialect with
  | .qasm2 => "measure " ++ qubitText qubit ++ " -> " ++ clbitText clbit ++ ";"
  | .qasm3 => clbitText clbit ++ " = measure " ++ qubitText qubit ++ ";"

/-- The lines of an instruction; a measurement or reset of several qubits takes a line for each. -/
def WrittenInstruction.lines (dialect : Dialect) : WrittenInstruction → List String
  | .call written => [callText dialect qubitText written]
  | .measure qubits clbits => List.zipWith (measureText dialect) qubits clbits
  | .reset qubits => qubits.map fun qubit => "reset " ++ qubitText qubit ++ ";"
  | .barrier [] => ["barrier;"]
  | .barrier qubits => ["barrier " ++ ", ".intercalate (qubits.map qubitText) ++ ";"]

def headerLines : Dialect → List String
  | .qasm2 => ["OPENQASM 2.0;", "include \"qelib1.inc\";", ""]
  | .qasm3 => ["OPENQASM 3.0;", "include \"stdgates.inc\";", ""]

def Listing.registerLines (dialect : Dialect) (listing : Listing) : List String :=
  let quantum := match dialect with
    | .qasm2 => "qreg q[" ++ toString listing.numQubits ++ "];"
    | .qasm3 => "qubit[" ++ toString listing.numQubits ++ "] q;"
  let classical := match dialect with
    | .qasm2 => "creg c[" ++ toString listing.numClbits ++ "];"
    | .qasm3 => "bit[" ++ toString listing.numClbits ++ "] c;"
  (if listing.numQubits > 0 then [quantum] else []) ++
    (if listing.numClbits > 0 then [classical] else [])

def WrittenCall.isSxdg (call : WrittenCall) : Bool :=
  match call.callee with
  | .elementary .sxdg => true
  | _ => false

/-- The newer dialect's include file has no `sxdg`. -/
def Listing.needsSxdg (dialect : Dialect) (listing : Listing) : Bool :=
  dialect == .qasm3 &&
    (listing.gates.any (·.calls.any (·.isSxdg)) ||
      listing.body.any fun instruction => match instruction with
        | .call written => written.isSxdg
        | _ => false)

/-- A group of lines, closed by an empty line unless there are none. -/
def paragraph (lines : List String) : List String := if lines.isEmpty then [] else lines ++ [""]

def Listing.lines (dialect : Dialect) (listing : Listing) : List String :=
  let own := if listing.needsSxdg dialect then ["gate sxdg a \x7b h a; sdg a; h a; \x7d"] else []
  headerLines dialect ++
    paragraph (own ++ listing.gates.flatMap (WrittenGate.lines dialect)) ++
    paragraph (listing.registerLines dialect) ++
    listing.body.flatMap (WrittenInstruction.lines dialect)

def write (dialect : Dialect) (circuit : Circuit) : String :=
  String.join (((Listing.ofCircuit circuit).lines dialect).map (· ++ "\n"))

end CircuitCloak.Qasm

import CircuitCloak.Circuit.Basic
import CircuitCloak.Qasm.Builtin

/-! Listings: a circuit with a named gate definition for every composite, ready to be written.
A definition stands before its first use, and equal composites share one definition. -/

namespace CircuitCloak.Qasm

inductive Callee where
  | elementary (kind : Elementary)
  | defined (name : String)

/-- A call in a listing; its qubits are positions or, in a definition, local ones. -/
structure WrittenCall where
  callee : Callee
  qubits : List Nat

structure WrittenGate where
  composite : Composite
  name : String
  calls : List WrittenCall

/-- The definition's name can not be given again. -/
def isTaken (gates : List WrittenGate) (name : String) : Bool :=
  isBuiltin name || name == "sxdg" || gates.any (·.name == name)

/-- The first free name among `base_1`, `base_2`, and so on, from the given number. As many names
as there are definitions can be taken, and names with a fixed meaning have no such ending, so one
more trial than definitions always finds a free name. -/
def suffixedName (gates : List WrittenGate) (base : String) : Nat → Nat → String
  | 0, number => base ++ "_" ++ toString number
  | fuel + 1, number =>
    let name := base ++ "_" ++ toString number
    if isTaken gates name then suffixedName gates base fuel (number + 1) else name

/-- A free name for a composite: its own, or its own with a number. -/
def freeName (gates : List WrittenGate) (base : String) : String :=
  if isTaken gates base then suffixedName gates base gates.length 1 else base

mutual

/-- What a call of the gate names, with the definitions that this needs, last first. -/
def Gate.callee : Gate → List WrittenGate → Callee × List WrittenGate
  | .elementary kind _, gates => (.elementary kind, gates)
  | .composite ⟨base, arity, body⟩ _, gates =>
    match gates.reverse.find? (·.composite == ⟨base, arity, body⟩) with
    | some gate => (.defined gate.name, gates)
    | none =>
      let (calls, gates) := Application.callees body gates
      let name := freeName gates base
      (.defined name, ⟨⟨base, arity, body⟩, name, calls⟩ :: gates)

def Application.callees :
    List Application → List WrittenGate → List WrittenCall × List WrittenGate
  | [], gates => ([], gates)
  | ⟨gate, qubits⟩ :: rest, gates =>
    let (callee, gates) := Gate.callee gate gates
    let (calls, gates) := Application.callees rest gates
    (⟨callee, qubits⟩ :: calls, gates)

end

inductive WrittenInstruction where
  | call (call : WrittenCall)
  | measure (qubits clbits : List Nat)
  | reset (qubits : List Nat)
  | barrier (qubits : List Nat)

/-- A circuit ready to be written. -/
structure Listing where
  numQubits : Nat
  numClbits : Nat
  /-- The definitions, in the order in which they are written. -/
  gates : List WrittenGate
  body : List WrittenInstruction

/-- An instruction in a listing. Only a measurement is written with its classical bits. -/
def Instruction.written : Instruction → List WrittenGate → WrittenInstruction × List WrittenGate
  | .gate ⟨gate, qubits⟩ _, gates =>
    let (callee, gates) := Gate.callee gate gates
    (.call ⟨callee, qubits⟩, gates)
  | .measure qubits clbits, gates => (.measure qubits clbits, gates)
  | .reset qubits _, gates => (.reset qubits, gates)
  | .barrier qubits _, gates => (.barrier qubits, gates)

/-- Instructions in a listing, those already written last first. -/
def writeAll (instructions : List Instruction) : List WrittenInstruction × List WrittenGate :=
  let (body, gates) := instructions.foldl
    (fun (body, gates) instruction =>
      let (written, gates) := Instruction.written instruction gates
      (written :: body, gates))
    ([], [])
  (body.reverse, gates.reverse)

def Listing.ofCircuit (circuit : Circuit) : Listing :=
  let (body, gates) := writeAll circuit.instructions.toList
  ⟨circuit.numQubits, circuit.numClbits, gates, body⟩

end CircuitCloak.Qasm

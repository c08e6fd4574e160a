import CircuitCloak.Circuit.Basic

/-! The tables that drive every transform: alternatives for gates, sequences that do nothing, gates
to inject with their inverses, and the camouflage block. -/

namespace CircuitCloak

/-- A gate of an alternative, on positions in the operands of the gate that it replaces. -/
structure PlacedGate where
  gate : Elementary
  operands : List Nat
  deriving BEq, Inhabited

/-- Sequences that can stand for a gate. -/
structure EquivalenceRule where
  target : Elementary
  alternatives : List (List PlacedGate)
  deriving BEq, Inhabited

/-- A step of a sequence that does nothing. -/
inductive IdentityStep where
  /-- A one-qubit gate on the qubit that is padded. -/
  | onQubit (gate : Elementary)
  /-- A two-qubit gate on each of the pairs `(0, 1)`, `(2, 3)`, and so on. -/
  | acrossPairs (gate : Elementary)
  deriving BEq, Inhabited

structure IdentitySequence where
  name : String
  steps : List IdentityStep
  deriving BEq, Inhabited

structure Library where
  rules : List EquivalenceRule
  identities : List IdentitySequence
  /-- Gates that are injected together with their inverses. -/
  injections : List Elementary
  camouflage : List Elementary
  deriving BEq, Inhabited

inductive TablePlace where
  | target (gate : String)
  | alternative (gate : String) (index : Nat)
  | identity (name : String)
  | injection
  | camouflage
  deriving DecidableEq, Repr

def TablePlace.text : TablePlace → String
  | target gate => s!"rule target '{gate}'"
  | alternative gate index => s!"rule '{gate}' alternative {index}"
  | identity name => s!"identity '{name}'"
  | injection => "injection pair"
  | camouflage => "camouflage block"

inductive LibraryFault where
  | parameterized (place : TablePlace) (gate : String)
  | duplicateRule (gate : String)
  | noAlternatives (gate : String)
  | emptyEntry (place : TablePlace)
  | notSelfInverse (place : TablePlace) (gate : String)
  | repeatedOperand (place : TablePlace) (gate : String) (operand : Nat)
  | emptyCamouflage
  | unknownGate (name : String)
  | arityMismatch (place : TablePlace) (gate : String) (required available : Nat)
  deriving DecidableEq, Repr

def LibraryFault.message : LibraryFault → String
  | parameterized place gate => s!"Invalid rule: {place.text}: '{gate}' is parameterized"
  | duplicateRule gate => s!"Invalid rule: duplicate rule for '{gate}'"
  | noAlternatives gate => s!"Invalid rule: rule for '{gate}' has no alternatives"
  | emptyEntry place => s!"Invalid rule: {place.text} is empty"
  | notSelfInverse place gate => s!"Invalid rule: {place.text}: '{gate}' is not self-inverse"
  | repeatedOperand place gate operand =>
    s!"Invalid rule: {place.text}: step '{gate}' repeats operand {operand}"
  | emptyCamouflage => "Invalid rule: camouflage block is empty"
  | unknownGate name => s!"Invalid rule: unknown gate '{name}'"
  | arityMismatch place gate required available =>
    s!"Arity mismatch in {place.text} step '{gate}': needs {required} qubits, " ++
      s!"register has {available}"

def checkDiscrete (place : TablePlace) (gate : Elementary) : Except (Halt LibraryFault) Unit :=
  if gate.isDiscrete then .ok () else .error (.refused (.parameterized place gate.name))

def checkArity (place : TablePlace) (gate : Elementary) (available : Nat) :
    Except (Halt LibraryFault) Unit :=
  if gate.arity = available then .ok ()
  else .error (.refused (.arityMismatch place gate.name gate.arity available))

/-- The first member of a list that stands in it already. -/
def firstRepeated? : List Nat → List Nat → Option Nat
  | _, [] => none
  | seen, item :: rest => if item ∈ seen then some item else firstRepeated? (seen ++ [item]) rest

/-- A gate of an alternative fits the operands of the target. Operands are compared as words, and
counted as a word. -/
def PlacedGate.check (place : TablePlace) (arity : Nat) (step : PlacedGate) :
    Except (Halt LibraryFault) Unit := do
  checkDiscrete place step.gate
  if wordSize step.operands.length ≠ step.gate.arity then
    .error (.refused
      (.arityMismatch place step.gate.name step.gate.arity (wordSize step.operands.length)))
  else
    match step.operands.find? (arity ≤ wordSize ·) with
    | some operand => do
      let required ← addSizes (wordSize operand) 1
      .error (.refused (.arityMismatch place step.gate.name required arity))
    | none =>
      match firstRepeated? [] step.operands with
      | some operand => .error (.refused (.repeatedOperand place step.gate.name operand))
      | none => .ok ()

def checkAlternative (target : Elementary) (entry : List PlacedGate × Nat) :
    Except (Halt LibraryFault) Unit := do
  let place := TablePlace.alternative target.name entry.2
  if entry.1.isEmpty then .error (.refused (.emptyEntry place))
  else entry.1.forM (PlacedGate.check place target.arity)

def EquivalenceRule.check (before : List EquivalenceRule) (rule : EquivalenceRule) :
    Except (Halt LibraryFault) Unit := do
  checkDiscrete (.target rule.target.name) rule.target
  if before.any (·.target.sameKind rule.target) then .error (.refused (.duplicateRule rule.target.name))
  else if rule.alternatives.isEmpty then .error (.refused (.noAlternatives rule.target.name))
  else rule.alternatives.zipIdx.forM (checkAlternative rule.target)

def checkRules : List EquivalenceRule → List EquivalenceRule → Except (Halt LibraryFault) Unit
  | _, [] => .ok ()
  | before, rule :: rest => do
    rule.check before
    checkRules (before ++ [rule]) rest

def IdentityStep.check (place : TablePlace) : IdentityStep → Except (Halt LibraryFault) Unit
  | onQubit gate => do
    checkDiscrete place gate
    checkArity place gate 1
  | acrossPairs gate => do
    checkDiscrete place gate
    checkArity place gate 2
    if gate.isSelfInverse then .ok () else .error (.refused (.notSelfInverse place gate.name))

def IdentitySequence.check (sequence : IdentitySequence) : Except (Halt LibraryFault) Unit := do
  if sequence.steps.isEmpty then .error (.refused (.emptyEntry (.identity sequence.name)))
  else sequence.steps.forM (IdentityStep.check (.identity sequence.name))

def checkCamouflage (gates : List Elementary) : Except (Halt LibraryFault) Unit := do
  if gates.isEmpty then .error (.refused .emptyCamouflage)
  else gates.forM fun gate => do
    checkDiscrete .camouflage gate
    checkArity .camouflage gate 1

namespace Library

def validate (library : Library) : Except (Halt LibraryFault) Unit := do
  checkRules [] library.rules
  library.identities.forM IdentitySequence.check
  library.injections.forM (checkDiscrete .injection)
  checkCamouflage library.camouflage

def rule? (library : Library) (gate : Elementary) : Option EquivalenceRule :=
  library.rules.find? (·.target.sameKind gate)

/-- The camouflage block undone: inverses in reverse order. -/
def restore (library : Library) : List Elementary :=
  library.camouflage.reverse.filterMap (·.inverse?)

end Library

end CircuitCloak

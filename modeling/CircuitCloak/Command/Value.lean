import CircuitCloak.Decimal.Numeral
import CircuitCloak.Qasm.Tree
import CircuitCloak.Word

/-! Values on a command line. -/

namespace CircuitCloak.Command

def digitRun? (text : List Char) : Option Nat :=
  if !text.isEmpty && text.all Char.isDigit then some (Decimal.digitsValue text) else none

def signedInteger? (text : String) : Option Int :=
  match text.toList with
  | '-' :: digits => (digitRun? digits).map fun value => -(value : Int)
  | '+' :: digits => (digitRun? digits).map fun value => (value : Int)
  | digits => (digitRun? digits).map fun value => (value : Int)

/-- A size: an integer of 32 bits that is not negative. -/
def size? (text : String) : Option Nat :=
  match signedInteger? text with
  | some (.ofNat value) => if value < wordCount then some value else none
  | _ => none

/-- A seed of 64 bits, without a minus sign. -/
def seed? (text : String) : Option Nat :=
  let digits := match text.toList with
    | '+' :: digits => digits
    | digits => digits
  (digitRun? digits).filter (· < longWordCount)

def path? (text : String) : Option String := if text.isEmpty then none else some text

def dialect? : String → Option Qasm.Dialect
  | "qasm2" => some .qasm2
  | "qasm3" => some .qasm3
  | _ => none

inductive ValueForm where
  | text
  | path
  | size
  | seed
  | real
  | dialect
  deriving DecidableEq, Repr

def ValueForm.accepts (form : ValueForm) (text : String) : Bool :=
  match form with
  | .text => true
  | .path => (path? text).isSome
  | .size => (size? text).isSome
  | .seed => (seed? text).isSome
  | .real => (Decimal.float? text).isSome
  | .dialect => (dialect? text).isSome

end CircuitCloak.Command

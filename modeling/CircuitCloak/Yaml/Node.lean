import CircuitCloak.Decimal.Numeral
import CircuitCloak.Word
import CircuitCloak.Yaml.Tag

/-! The values of a YAML document, and what the texts of scalars stand for. -/

namespace CircuitCloak.Yaml

inductive ScalarForm where
  | plain
  | quoted
  | literal
  | folded
  deriving DecidableEq, Repr, Inhabited

/-- A value, with its tag if it has one. -/
inductive Node where
  | scalar (text : String) (form : ScalarForm) (tag : Option Tag)
  | sequence (items : List Node) (tag : Option Tag)
  | mapping (entries : List (Node × Node)) (tag : Option Tag)
  deriving Repr, Inhabited

/-- The name in a value's tag that belongs to the document alone. -/
def localName? (tag : Option Tag) : Option String := tag.bind Tag.localName?

def isNullWord (text : String) : Bool := ["null", "Null", "NULL", "~"].contains text

def isBooleanText (text : String) : Bool :=
  ["true", "True", "TRUE", "false", "False", "FALSE"].contains text

def digit? (base : Nat) (c : Char) : Option Nat :=
  let value :=
    if c.isDigit then some (c.toNat - '0'.toNat)
    else if 'a' ≤ c && c ≤ 'f' then some (c.toNat - 'a'.toNat + 10)
    else if 'A' ≤ c && c ≤ 'F' then some (c.toNat - 'A'.toNat + 10)
    else none
  value.filter (· < base)

def natural? (base : Nat) (digits : List Char) : Option Nat :=
  if digits.isEmpty then none
  else digits.foldlM (fun total c => (digit? base c).map (total * base + ·)) 0

/-- Digits with a leading zero are no number. -/
def hasLeadingZero (digits : List Char) : Bool :=
  digits.length > 1 && digits.head? == some '0' && digits.all Char.isDigit

/-- The magnitude of an integer: decimal, or in another base after a mark. -/
def magnitude? : List Char → Option Nat
  | '0' :: 'x' :: digits => natural? 16 digits
  | '0' :: 'o' :: digits => natural? 8 digits
  | '0' :: 'b' :: digits => natural? 2 digits
  | digits => if hasLeadingZero digits then none else natural? 10 digits

def integer? (text : String) : Option Int :=
  match text.toList with
  | '-' :: digits => (magnitude? digits).map fun value => -(value : Int)
  | '+' :: digits => (magnitude? digits).map fun value => (value : Int)
  | digits => (magnitude? digits).map fun value => (value : Int)

/-- The finite number of a decimal text, with its sign. -/
def finite? (negative : Bool) (digits : List Char) : Option Float :=
  match Decimal.numeral? digits with
  | some (numeral, []) =>
    let value := numeral.toFloat
    if value.isFinite then some (if negative then -value else value) else none
  | _ => none

def float? (text : String) : Option Float :=
  if [".inf", ".Inf", ".INF", "+.inf", "+.Inf", "+.INF"].contains text then some (1 / 0)
  else if ["-.inf", "-.Inf", "-.INF"].contains text then some (-1 / 0)
  else if [".nan", ".NaN", ".NAN"].contains text then some (0 / 0)
  else match text.toList with
    | '-' :: digits => finite? true digits
    | '+' :: digits => finite? false digits
    | digits => finite? false digits

/-- What a scalar is where its form and its tag decide. -/
inductive ScalarValue where
  | null
  | boolean
  | integer (value : Int)
  | float
  | text
  deriving DecidableEq, Repr

/-- The integer that a text is where its form decides; integers of more than 128 bits are none. -/
def formedInteger? (text : String) : Option Int :=
  (integer? text).filter fun value => -(Nat.pow 2 127 : Int) ≤ value && value < Nat.pow 2 128

/-- An integer that fits 64 bits, with or without a sign. -/
def ScalarValue.ofInteger? (value : Int) : Option ScalarValue :=
  if -(Nat.pow 2 63 : Int) ≤ value && value < longWordCount then some (.integer value) else none

/-- What a plain scalar without a tag is. -/
def ScalarValue.ofPlain? (text : String) : Option ScalarValue :=
  let digits := text.toList.dropWhile fun c => c == '-' || c == '+'
  if text.isEmpty || isNullWord text then some .null
  else if isBooleanText text then some .boolean
  else match formedInteger? text with
    | some value => ScalarValue.ofInteger? value
    | none => some (if (float? text).isSome && !hasLeadingZero digits then .float else .text)

/-- What a scalar is; `none` if it is not what its tag says, or too large. A local tag must have no
name, and leaves the decision to the form. -/
def ScalarValue.of? (text : String) (form : ScalarForm) (tag : Option Tag) : Option ScalarValue :=
  let byForm := if form == .plain then ScalarValue.ofPlain? text else some .text
  match tag with
  | none => byForm
  | some tag =>
    if tag.isLocal then if tag.localName?.isSome then none else byForm
    else if tag == .null then if isNullWord text then some .null else none
    else if tag == .boolean then if isBooleanText text then some .boolean else none
    else if tag == .integer then formedInteger? text >>= ScalarValue.ofInteger?
    else if tag == .float then (float? text).map fun _ => .float
    else some .text

end CircuitCloak.Yaml

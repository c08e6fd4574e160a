import CircuitCloak.Decimal.Numeral
import CircuitCloak.Json.Reader
import CircuitCloak.Word

/-! Typed views of JSON values: texts, numbers, and records with named fields. -/

namespace CircuitCloak.Json

/-- Digits read so far, as many of them as fit a word, and the power of ten that is still
missing. -/
structure Significand where
  digits : Nat
  exponent : Int
  /-- No further digits are taken in. -/
  isFull : Bool

/-- Takes in a digit of the whole part. -/
def Significand.addWhole (number : Significand) (digit : Char) : Significand :=
  let next := number.digits * 10 + Decimal.digitsValue [digit]
  if number.isFull || longWordCount ≤ next then ⟨number.digits, number.exponent + 1, true⟩
  else ⟨next, number.exponent, false⟩

def Significand.addFraction (number : Significand) (digit : Char) : Significand :=
  let next := number.digits * 10 + Decimal.digitsValue [digit]
  if number.isFull || longWordCount ≤ next then { number with isFull := true }
  else ⟨next, number.exponent - 1, false⟩

/-- A positive double times a power of ten, if that is finite. Only powers up to 308 are at hand. -/
def scaleByTen (value : Float) (exponent : Int) : Option Float :=
  if exponent < -308 then
    if value == 0 then some value else scaleByTen (value / 1e308) (exponent + 308)
  else if exponent < 0 then some (value / .ofScientific 1 false exponent.natAbs)
  else if exponent ≤ 308 then
    let scaled := value * .ofScientific 1 false exponent.natAbs
    if scaled.isInf then none else some scaled
  else if value == 0 then some value
  else none
termination_by exponent.natAbs
decreasing_by omega

def magnitude? (written : List Char) : Option Float := do
  let (whole, rest) := Decimal.spanDigits written
  let (fraction, rest) := match rest with
    | '.' :: rest => Decimal.spanDigits rest
    | rest => ([], rest)
  let (exponent, _) := (Decimal.exponentPart? rest).getD (0, rest)
  let start := whole.foldl Significand.addWhole ⟨0, 0, false⟩
  let number := fraction.foldl Significand.addFraction { start with isFull := false }
  scaleByTen number.digits.toUInt64.toFloat (number.exponent + exponent)

namespace Value

def text? : Value → Option String
  | .text content => content
  | _ => none

/-- A natural number below a bound, without fraction and exponent. -/
def below? (bound : Nat) : Value → Option Nat
  | .number written =>
    let digits := written.toList
    if digits.all Char.isDigit && Decimal.digitsValue digits < bound then
      some (Decimal.digitsValue digits)
    else none
  | _ => none

def float? : Value → Option Float
  | .number written =>
    match written.toList with
    | '-' :: rest => (magnitude? rest).map (- ·)
    | rest => magnitude? rest
  | _ => none

def nullable? {α : Type} (read : Value → Option α) : Value → Option (Option α)
  | .null => some none
  | value => (read value).map some

end Value

/-- The fields of a record that were found. -/
abbrev Fields := List (String × Value)

/-- Takes the named entries, none of which comes twice; others are passed over. -/
def fieldsFrom? (names : List String) : Fields → List (Option String × Value) → Option Fields
  | fields, [] => some fields
  | _, (none, _) :: _ => none
  | fields, (some key, value) :: rest =>
    if names.contains key then
      if (fields.lookup key).isSome then none
      else fieldsFrom? names (fields ++ [(key, value)]) rest
    else fieldsFrom? names fields rest

/-- The fields of a record: an object, or an array with exactly the fields in their order. -/
def Value.fields? (names : List String) : Value → Option Fields
  | .object entries => fieldsFrom? names [] entries
  | .array items => if items.length = names.length then some (names.zip items) else none
  | _ => none

def Fields.required? {α : Type} (fields : Fields) (name : String) (read : Value → Option α) :
    Option α := do
  read (← fields.lookup name)

def Fields.optional? {α : Type} (fields : Fields) (name : String) (read : Value → Option α) :
    Option (Option α) :=
  match fields.lookup name with
  | some value => value.nullable? read
  | none => some none

end CircuitCloak.Json

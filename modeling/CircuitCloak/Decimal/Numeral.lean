/-! Reading decimal text as the nearest double. -/

namespace CircuitCloak.Decimal

/-- An unsigned decimal number as written: `digits * 10 ^ exponent`. -/
structure Numeral where
  digits : Nat
  exponent : Int
  deriving Repr, DecidableEq

def digitsValue (digits : List Char) : Nat :=
  digits.foldl (fun total digit => total * 10 + (digit.toNat - '0'.toNat)) 0

/-- Beyond these exponents of the leading digit every magnitude is infinite or zero. -/
def Numeral.overflows (numeral : Numeral) : Bool :=
  numeral.exponent + (Nat.toDigits 10 numeral.digits).length > 400

def Numeral.vanishes (numeral : Numeral) : Bool :=
  numeral.digits = 0 || numeral.exponent + (Nat.toDigits 10 numeral.digits).length < -400

/-- The nearest double. Exponents far out of range are settled without computing the power. -/
def Numeral.toFloat (numeral : Numeral) : Float :=
  if numeral.vanishes then 0
  else if numeral.overflows then 1 / 0
  else .ofScientific numeral.digits (numeral.exponent < 0) numeral.exponent.natAbs

def spanDigits (text : List Char) : List Char × List Char := text.span Char.isDigit

/-- An exponent part `e`, a sign and digits, with what follows it. -/
def exponentPart? : List Char → Option (Int × List Char)
  | mark :: rest =>
    if mark == 'e' || mark == 'E' then
      let (negative, rest) := match rest with
        | '-' :: rest => (true, rest)
        | '+' :: rest => (false, rest)
        | rest => (false, rest)
      let (digits, rest) := spanDigits rest
      if digits.isEmpty then none
      else some (if negative then -(digitsValue digits : Int) else digitsValue digits, rest)
    else none
  | [] => none

/-- An unsigned number: digits with an optional fraction, at least one digit in all, and an optional
exponent. -/
def numeral? (text : List Char) : Option (Numeral × List Char) :=
  let (whole, rest) := spanDigits text
  let (fraction, rest) := match rest with
    | '.' :: rest => spanDigits rest
    | rest => ([], rest)
  if whole.isEmpty && fraction.isEmpty then none
  else
    let (exponent, rest) := (exponentPart? rest).getD (0, rest)
    some (⟨digitsValue (whole ++ fraction), exponent - fraction.length⟩, rest)

/-- The nearest double to a whole text: an optional sign before a number, or before a word for an
infinity or for what is no number, in letters of either case. -/
def float? (text : String) : Option Float :=
  let (negative, body) := match text.toList with
    | '-' :: rest => (true, rest)
    | '+' :: rest => (false, rest)
    | rest => (false, rest)
  let signed (value : Float) := if negative then -value else value
  match String.ofList (body.map Char.toLower) with
  | "inf" | "infinity" => some (signed (1 / 0))
  | "nan" => some (signed (0 / 0))
  | _ => match numeral? body with
    | some (numeral, []) => some (signed numeral.toFloat)
    | _ => none

end CircuitCloak.Decimal

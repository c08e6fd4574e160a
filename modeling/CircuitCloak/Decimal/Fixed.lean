import CircuitCloak.Decimal.Layout

/-! Numbers with a fixed count of decimal places, rounded on the exact binary value. -/

namespace CircuitCloak.Decimal

/-- The whole number nearest to `top / bottom`; a tie goes to the even neighbour. -/
def roundQuotient (top bottom : Nat) : Nat :=
  let quotient := top / bottom
  let twice := 2 * (top % bottom)
  if twice > bottom || (twice == bottom && quotient % 2 == 1) then quotient + 1 else quotient

/-- The value in units of the last place. -/
def Binary.roundTo (value : Binary) (places : Nat) : Nat :=
  let (top, bottom) := value.ratio
  roundQuotient (top * Nat.pow 10 places) bottom

/-- Writes a count of units of the last place with its decimal point. -/
def placesText (units places : Nat) : String :=
  let whole := toString (units / Nat.pow 10 places)
  if places = 0 then whole
  else
    let digits := Nat.toDigits 10 (units % Nat.pow 10 places)
    whole ++ "." ++ zeros (places - digits.length) ++ String.ofList digits

def fixed (places : Nat) (value : Float) : String :=
  match Reading.ofFloat value with
  | .nan => "NaN"
  | .infinite negative => (if negative then "-" else "") ++ "inf"
  | .finite negative magnitude =>
    (if negative then "-" else "") ++ placesText (magnitude.roundTo places) places

/-- As `fixed`, with a rounded zero always written without a sign. -/
def fixedUnsignedZero (places : Nat) (value : Float) : String :=
  match Reading.ofFloat value with
  | .finite true magnitude =>
    if magnitude.roundTo places = 0 then placesText 0 places else fixed places value
  | _ => fixed places value

end CircuitCloak.Decimal

import CircuitCloak.Decimal.Binary

/-! The fewest decimal digits that read back as a given double. The search walks from one digit
upwards; on each grid only the two neighbours of the value can be the answer. -/

namespace CircuitCloak.Decimal

/-- The decimal `digits * 10 ^ exponent`. -/
structure Scientific where
  digits : Nat
  exponent : Int
  deriving Repr, DecidableEq

inductive Tie where
  | toEven
  | upward
  deriving Repr, DecidableEq

/-- How many digits a natural number has; zero has none. -/
def digitCount (n : Nat) : Nat := if n = 0 then 0 else (Nat.toDigits 10 n).length

/-- The largest `p` with `10 ^ p ≤ top / bottom`, for positive `top` and `bottom`. -/
def leadingExponent (top bottom : Nat) : Int :=
  if bottom ≤ top then (digitCount (top / bottom) : Int) - 1
  else -(digitCount ((bottom - 1) / top) : Int)

/-- Moves trailing zeros of the digits into the exponent. -/
def Scientific.strip (value : Scientific) : Scientific :=
  let zeros := ((Nat.toDigits 10 value.digits).reverse.takeWhile (· == '0')).length
  if value.digits = 0 then ⟨0, 0⟩ else ⟨value.digits / Nat.pow 10 zeros, value.exponent + zeros⟩

/-- The nearest decimal of the grid `10 ^ exponent` that reads back as the value, if there is
one. -/
def Binary.onGrid? (tie : Tie) (value : Binary) (exponent : Int) : Option Scientific :=
  let up := Nat.pow 10 exponent.toNat
  let down := Nat.pow 10 (-exponent).toNat
  let (top, bottom) := value.ratio
  let quotient := top * down / (bottom * up)
  let twice := 2 * (top * down - quotient * (bottom * up))
  let lower := value.covers (quotient * up) down
  let upper := value.covers ((quotient + 1) * up) down
  let preferUpper := twice > bottom * up ||
    (twice == bottom * up && match tie with | .upward => true | .toEven => quotient % 2 == 1)
  if lower && upper then some ⟨if preferUpper then quotient + 1 else quotient, exponent⟩
  else if lower then some ⟨quotient, exponent⟩
  else if upper then some ⟨quotient + 1, exponent⟩
  else none

/-- The shortest decimal that reads back; seventeen digits always suffice, and the exact value
stands in should no shorter one be found. -/
def Binary.shortest (tie : Tie) (value : Binary) : Scientific :=
  if value.significand = 0 then ⟨0, 0⟩ else
    let (top, bottom) := value.ratio
    let leading := leadingExponent top bottom
    let found := (List.range 17).findSome? fun (count : Nat) => value.onGrid? tie (leading - count)
    let exact : Scientific :=
      ⟨value.significand * Nat.pow 2 value.exponent.toNat * Nat.pow 5 (-value.exponent).toNat,
        -(-value.exponent).toNat⟩
    (found.getD exact).strip

end CircuitCloak.Decimal

/-! Finite doubles as exact numbers `± significand · 2 ^ exponent`, and the interval of reals that
rounds to such a number. Every decimal text of the library is chosen by arithmetic on these
naturals. -/

namespace CircuitCloak.Decimal

/-- The magnitude of a finite double, `significand * 2 ^ exponent`. -/
structure Binary where
  significand : Nat
  exponent : Int
  /-- The gap to the next smaller double is half the gap to the next larger one. -/
  narrowBelow : Bool
  deriving Repr, DecidableEq

/-- What the bits of a double stand for. -/
inductive Reading where
  | finite (negative : Bool) (magnitude : Binary)
  | infinite (negative : Bool)
  | nan
  deriving Repr, DecidableEq

def Reading.ofBits (bits : UInt64) : Reading :=
  let negative := bits >>> 63 == 1
  let scale := ((bits >>> 52) &&& 0x7FF).toNat
  let fraction := (bits &&& 0xFFFFFFFFFFFFF).toNat
  if scale == 0x7FF then
    if fraction == 0 then .infinite negative else .nan
  else if scale == 0 then .finite negative ⟨fraction, -1074, false⟩
  else
    .finite negative
      ⟨0x10000000000000 + fraction, (scale : Int) - 1075, fraction == 0 && scale > 1⟩

def Reading.ofFloat (value : Float) : Reading := .ofBits value.toBits

/-- The magnitude as a quotient of naturals; the divisor is a power of two. -/
def Binary.ratio (value : Binary) : Nat × Nat :=
  (value.significand * Nat.pow 2 value.exponent.toNat, Nat.pow 2 (-value.exponent).toNat)

/-- The halfway points to the neighbouring doubles, in quarters of the last place. -/
def Binary.lowerQuarters (value : Binary) : Nat :=
  if value.narrowBelow then 4 * value.significand - 1 else 4 * value.significand - 2

def Binary.upperQuarters (value : Binary) : Nat := 4 * value.significand + 2

/-- The rational `top / bottom` lies among the reals that round to the value: nearest, ties to the
even significand. -/
def Binary.covers (value : Binary) (top bottom : Nat) : Bool :=
  let up := Nat.pow 2 (value.exponent - 2).toNat
  let down := Nat.pow 2 (2 - value.exponent).toNat
  let low := value.lowerQuarters * up * bottom
  let high := value.upperQuarters * up * bottom
  let point := top * down
  if value.significand % 2 == 0 then low ≤ point && point ≤ high else low < point && point < high

end CircuitCloak.Decimal

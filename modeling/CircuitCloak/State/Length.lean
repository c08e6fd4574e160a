/-! The length of a vector in the plane. The root of the sum of squares is corrected by a step that
uses the exact remainder of the sum, and vectors whose squares leave the range of doubles are scaled
first. -/

namespace CircuitCloak

/-- The root of the sum of squares of two numbers, the first of which is not the smaller one. -/
def correctedRoot (long short : Float) : Float :=
  let root := (long * long + short * short).sqrt
  if root ≤ 2 * short then
    let excess := root - short
    let first := long * (2 * excess - long)
    let second := (excess - 2 * (long - short)) * excess
    root - (first + second) / (2 * root)
  else
    let excess := root - long
    let first := 2 * excess * (long - 2 * short)
    let second := (4 * excess - short) * short + excess * excess
    root - (first + second) / (2 * root)

/-- Beyond this ratio the shorter number does not change the length. -/
def negligible : Float := (1 : Float).scaleB (-54)

/-- Brings numbers near the ends of the range into its middle. -/
def lengthScale : Float := (1 : Float).scaleB (-600)

/-- The length of a vector of two numbers that are not negative, the first not the smaller one. -/
def orderedLength (long short : Float) : Float :=
  if (1 : Float).scaleB 511 < long then
    if short ≤ long * negligible then long + short
    else correctedRoot (long * lengthScale) (short * lengthScale) / lengthScale
  else if short < (1 : Float).scaleB (-459) then
    if short / negligible ≤ long then long + short
    else correctedRoot (long / lengthScale) (short / lengthScale) * lengthScale
  else if short ≤ long * negligible then long + short
  else correctedRoot long short

/-- The length of a vector. An infinite part makes it infinite, whatever the other part is. -/
def vectorLength (first second : Float) : Float :=
  if first.isInf || second.isInf then 1 / 0
  else if first.isNaN || second.isNaN then first + second
  else
    let first := first.abs
    let second := second.abs
    if first < second then orderedLength second first else orderedLength first second

end CircuitCloak

import CircuitCloak.Random.Source

/-! Draws from a source of words: uniform integers, permutations, samples without repetition, coin
tosses, and indices by weight. -/

namespace CircuitCloak.Random

/-- A computation that consumes random words. -/
abbrev Draw (σ : Type) := StateM σ

variable {σ : Type} [WordSource σ]

def word32 : Draw σ Nat := fun source =>
  let (word, next) := WordSource.next32 source
  (word.toNat, next)

def longWord : Draw σ UInt64 := fun source => WordSource.next64 source

def word64 : Draw σ Nat := return (← longWord).toNat

/-- How often a word may be refused before the next one is taken as it comes. The loop of a sampler
by rejection has no bound: this one stands in for it. A word is refused with a probability below one
half, so the two differ with a probability below `2 ^ -4096`, and on no source that stops refusing
before. -/
def refusalBound : Nat := 4096

/-- Draws until a word is accepted, with at most `bound` refusals. -/
def redraw (draw : Draw σ Nat) (accept : Nat → Bool) : Nat → Draw σ Nat
  | 0 => draw
  | bound + 1 => do
    let word ← draw
    if accept word then return word else redraw draw accept bound

/-- The words of the given width whose multiple by `n` keeps every result equally likely. -/
def evenlySpread (width n word : Nat) : Bool :=
  word * n % Nat.pow 2 width < n * Nat.pow 2 (width - (Nat.log2 n + 1))

/-- A uniform integer below `n`, from words of the given width. -/
def uniform (draw : Draw σ Nat) (width n : Nat) : Draw σ Nat := do
  let word ← redraw draw (evenlySpread width n) refusalBound
  return word * n / Nat.pow 2 width

/-- A uniform integer below `n`, from short words. -/
def below (n : Nat) : Draw σ Nat := uniform word32 32 n

/-- A uniform integer below `n`, from long words. -/
def belowLong (n : Nat) : Draw σ Nat := uniform word64 64 n

/-- A uniform element; nothing is drawn for an empty array. -/
def choose {α : Type} (items : Array α) : Draw σ (Option α) := do
  if items.isEmpty then return none
  let index ← below items.size
  return items[index]?

/-- Swaps each position, from the last down to the second, with one at or before it. -/
def shuffleDown {α : Type} : Nat → Array α → Draw σ (Array α)
  | 0, items => return items
  | position + 1, items => do
    let other ← below (position + 2)
    shuffleDown position (items.swapIfInBounds (position + 1) other)

def shuffle {α : Type} (items : Array α) : Draw σ (Array α) :=
  shuffleDown (items.size - 1) items

/-- Extends a sample by one index at or below `bound`: a repeated index makes room for `bound`. -/
def extendSample (bound : Nat) (sample : List Nat) : Draw σ (List Nat) := do
  let index ← below (bound + 1)
  match sample.idxOf? index with
  | some place => return sample.insertIdx place bound
  | none => return sample ++ [index]

/-- `count` distinct indices below `size`, in random order. -/
def sampleIndices (size count : Nat) : Draw σ (List Nat) :=
  (List.range count).foldlM (fun sample step => extendSample (size - count + step) sample) []

/-- A coin that shows heads with the given probability; a certain outcome draws nothing. -/
def coin (probability : Float) : Draw σ Bool := do
  if probability == 1 then return true
  let word ← longWord
  return word < (probability * 18446744073709551616).toUInt64

/-- A uniform double in `[0, 1)` on the grid of 53 bits. -/
def unitFloat : Draw σ Float := do
  let word ← longWord
  return (word >>> 11).toFloat / 9007199254740992

/-- Heads if a uniform double lies below the probability. -/
def toss (probability : Float) : Draw σ Bool := return (← unitFloat) < probability

/-- A uniform double in `[0, 1)` on the grid of 52 bits. -/
def coarseUnit : Draw σ Float := do
  let word ← longWord
  return (word >>> 12).toFloat / 4503599627370496

/-- A uniform double in `[-1, 1)`. -/
def signedUnit : Draw σ Float := do
  let value ← coarseUnit
  return value * 2 - 1

inductive WeightFault where
  | invalidWeight
  | allZero
  deriving Repr, DecidableEq

def WeightFault.message : WeightFault → String
  | .invalidWeight => "A weight is invalid in distribution"
  | .allZero => "All weights are zero in distribution"

/-- Weights prepared for sampling: the sums of every proper initial part, and the total. -/
structure Weights where
  partialSums : Array Float
  total : Float

def Weights.ofArray (weights : Array Float) : Except WeightFault Weights :=
  if weights.all (· ≥ 0) then
    let (sums, total) := weights.foldl
      (fun (sums, total) weight => (sums.push (total + weight), total + weight)) (#[], 0)
    if total == 0 then .error .allZero else .ok ⟨sums.pop, total⟩
  else .error .invalidWeight

/-- How many of the sums from `low` to `high` do not exceed the value, when they ascend. -/
def countUpTo (sums : Array Float) (value : Float) (low high : Nat) : Nat :=
  if low < high then
    let middle := (low + high) / 2
    if sums[middle]?.any (· ≤ value) then countUpTo sums value (middle + 1) high
    else countUpTo sums value low middle
  else low
termination_by high - low

/-- An index, with a probability proportional to its weight. -/
def Weights.sample (weights : Weights) : Draw σ Nat := do
  let share ← coarseUnit
  return countUpTo weights.partialSums (share * weights.total) 0 weights.partialSums.size

end CircuitCloak.Random

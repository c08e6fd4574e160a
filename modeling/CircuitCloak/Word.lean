/-! Machine words, and sums of sizes that must be words. -/

namespace CircuitCloak

/-- The number of words of 32 bits. -/
def wordCount : Nat := 4294967296

/-- The number of words of 64 bits. -/
def longWordCount : Nat := 18446744073709551616

/-- A count as it is stored: a word of 32 bits. -/
def wordSize (size : Nat) : Nat := size % wordCount

/-- Why a computation gives no value: it refuses what it was given, or it panics. -/
inductive Halt (ε : Type) where
  | refused (fault : ε)
  | panic
  deriving DecidableEq, Repr

def Halt.map {ε δ : Type} (f : ε → δ) : Halt ε → Halt δ
  | refused fault => .refused (f fault)
  | panic => .panic

/-- A result whose errors are refusals. -/
def refusing {ε α : Type} (result : Except ε α) : Except (Halt ε) α := result.mapError .refused

/-- The sum of two sizes. Additions are checked, as in a build for development: a sum past the last
word is a panic. -/
def addSizes {ε : Type} (first second : Nat) : Except (Halt ε) Nat :=
  if first + second < wordCount then .ok (first + second) else .error .panic

end CircuitCloak

/-! Blank characters of all scripts, and trimming by them. -/

namespace CircuitCloak.Text

/-- The code points of white space, as closed ranges in ascending order. -/
def blankRanges : List (Nat × Nat) :=
  [(0x9, 0xD), (0x20, 0x20), (0x85, 0x85), (0xA0, 0xA0), (0x1680, 0x1680), (0x2000, 0x200A),
    (0x2028, 0x2029), (0x202F, 0x202F), (0x205F, 0x205F), (0x3000, 0x3000)]

def isBlank (c : Char) : Bool :=
  blankRanges.any fun (first, last) => first ≤ c.toNat && c.toNat ≤ last

def trim (text : String) : String :=
  String.ofList ((text.toList.dropWhile isBlank).reverse.dropWhile isBlank).reverse

/-- The text with the letters `A` to `Z` made small. -/
def lowerAscii (text : String) : String := String.ofList (text.toList.map Char.toLower)

/-- Texts that differ in the case of `A` to `Z` at most. -/
def sameIgnoringCase (first second : String) : Bool := lowerAscii first == lowerAscii second

end CircuitCloak.Text

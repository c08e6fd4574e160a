import CircuitCloak.Decimal.Shortest

/-! How shortest digits are laid out as text. One record holds what the several written forms of a
number decide differently. -/

namespace CircuitCloak.Decimal

/-- The decisions of one written form. -/
structure Layout where
  tie : Tie
  /-- A leading digit of a place below this is written with an exponent. -/
  plainFrom : Option Int
  /-- A leading digit of this place or above is written with an exponent. -/
  plainBelow : Option Int
  /-- Whole numbers end in `.0`. -/
  pointZero : Bool
  /-- Positive exponents carry a sign. -/
  exponentPlus : Bool

/-- Positional for every size, whole numbers bare: the form of angles and messages. -/
def plain : Layout := ⟨.upward, none, none, false, false⟩

/-- The form in which a version number is quoted back. -/
def version : Layout := ⟨.upward, some (-4), some 16, true, false⟩

def report : Layout := ⟨.toEven, some (-5), some 16, true, true⟩

def zeros (count : Nat) : String := String.ofList (List.replicate count '0')

/-- Places the decimal point so that the first digit stands for `10 ^ leading`. -/
def Layout.positional (layout : Layout) (digits : List Char) (leading : Int) : String :=
  if leading < 0 then "0." ++ zeros (-leading - 1).toNat ++ String.ofList digits
  else
    let whole := leading.toNat + 1
    if digits.length ≤ whole then
      String.ofList digits ++ zeros (whole - digits.length) ++
        (if layout.pointZero then ".0" else "")
    else String.ofList (digits.take whole) ++ "." ++ String.ofList (digits.drop whole)

def Layout.exponential (layout : Layout) (digits : List Char) (leading : Int) : String :=
  let fraction := match digits.tail with
    | [] => ""
    | rest => "." ++ String.ofList rest
  let sign := if leading < 0 then "-" else if layout.exponentPlus then "+" else ""
  String.ofList (digits.take 1) ++ fraction ++ "e" ++ sign ++ toString leading.natAbs

def Layout.isPlain (layout : Layout) (leading : Int) : Bool :=
  layout.plainFrom.all (· ≤ leading) && layout.plainBelow.all (leading < ·)

def Layout.magnitude (layout : Layout) (value : Binary) : String :=
  let decimal := value.shortest layout.tie
  let digits := Nat.toDigits 10 decimal.digits
  if decimal.digits = 0 then layout.positional digits 0
  else
    let leading := decimal.exponent + digits.length - 1
    if layout.isPlain leading then layout.positional digits leading
    else layout.exponential digits leading

/-- The text of a double: a sign, then the magnitude, or a word for what is not finite. -/
def Layout.text (layout : Layout) (value : Float) : String :=
  match Reading.ofFloat value with
  | .nan => "NaN"
  | .infinite negative => (if negative then "-" else "") ++ "inf"
  | .finite negative magnitude => (if negative then "-" else "") ++ layout.magnitude magnitude

end CircuitCloak.Decimal

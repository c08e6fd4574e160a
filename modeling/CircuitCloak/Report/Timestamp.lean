import CircuitCloak.Decimal.Numeral
import CircuitCloak.Text.Blank

/-! Moments in time: as seconds, as a date and a time of day, and as text such as
`2023-11-14T22:13:20Z`. -/

namespace CircuitCloak

/-- A moment: whole seconds since the start of 1970 in UTC, and nanoseconds. A leap second has a
billion nanoseconds or more. -/
structure Timestamp where
  seconds : Int
  nanoseconds : Nat
  deriving DecidableEq, Repr, Inhabited

structure Date where
  year : Int
  month : Nat
  day : Nat
  deriving DecidableEq, Repr, Inhabited

namespace Date

/-- Days from the start of March of year zero to the start of a year that begins in March. -/
def daysBeforeYear (year : Int) : Int :=
  365 * year + year.fdiv 4 - year.fdiv 100 + year.fdiv 400

/-- Days from the start of March to the start of a month, counted from March. -/
def daysBeforeMonth (month : Nat) : Nat := (153 * month + 2) / 5

/-- Days from the start of March of year zero to the start of 1970. -/
def epoch : Int := 719468

def toDays (date : Date) : Int :=
  let year := if date.month ≤ 2 then date.year - 1 else date.year
  let month := (date.month + 9) % 12
  daysBeforeYear year + daysBeforeMonth month + (date.day - 1) - epoch

/-- The date of a day after the start of 1970. -/
def ofDays (days : Int) : Date :=
  let shifted := days + epoch
  let era := shifted.fdiv 146097
  let dayOfEra := (shifted - era * 146097).toNat
  let yearOfEra := (dayOfEra - dayOfEra / 1460 + dayOfEra / 36524 - dayOfEra / 146096) / 365
  let dayOfYear := dayOfEra - (365 * yearOfEra + yearOfEra / 4 - yearOfEra / 100)
  let month := (5 * dayOfYear + 2) / 153
  let year := yearOfEra + era * 400
  ⟨if month < 10 then year else year + 1, if month < 10 then month + 3 else month - 9,
    dayOfYear - daysBeforeMonth month + 1⟩

def isLeapYear (year : Int) : Bool := year % 4 == 0 && (year % 100 != 0 || year % 400 == 0)

def daysInMonth (year : Int) (month : Nat) : Nat :=
  if month = 2 then if isLeapYear year then 29 else 28
  else if month = 4 || month = 6 || month = 9 || month = 11 then 30
  else 31

/-- The years that the calendar covers. -/
def firstYear : Int := -262143

def lastYear : Int := 262142

def isCovered (date : Date) : Bool := firstYear ≤ date.year && date.year ≤ lastYear

def isValid (date : Date) : Bool :=
  date.isCovered && 1 ≤ date.month && date.month ≤ 12 &&
    1 ≤ date.day && date.day ≤ daysInMonth date.year date.month

end Date

namespace Timestamp

def padded (width value : Nat) : String :=
  let digits := Nat.toDigits 10 value
  String.ofList (List.replicate (width - digits.length) '0' ++ digits)

/-- Four digits; other years carry a sign. -/
def yearText (year : Int) : String :=
  if 0 ≤ year && year ≤ 9999 then padded 4 year.toNat
  else (if year < 0 then "-" else "+") ++ padded 4 year.natAbs

/-- Nothing, or three, six or nine digits, as few as are exact. -/
def fractionText (nanoseconds : Nat) : String :=
  if nanoseconds = 0 then ""
  else if nanoseconds % 1000000 = 0 then "." ++ padded 3 (nanoseconds / 1000000)
  else if nanoseconds % 1000 = 0 then "." ++ padded 6 (nanoseconds / 1000)
  else "." ++ padded 9 nanoseconds

def days (moment : Timestamp) : Int := moment.seconds.fdiv 86400

def date (moment : Timestamp) : Date := Date.ofDays moment.days

def text (moment : Timestamp) : String :=
  let time := (moment.seconds - moment.days * 86400).toNat
  let date := moment.date
  let isLeap := 1000000000 ≤ moment.nanoseconds
  yearText date.year ++ "-" ++ padded 2 date.month ++ "-" ++ padded 2 date.day ++ "T" ++
    padded 2 (time / 3600) ++ ":" ++ padded 2 (time / 60 % 60) ++ ":" ++
    padded 2 (time % 60 + if isLeap then 1 else 0) ++
    fractionText (moment.nanoseconds % 1000000000) ++ "Z"

/-- A reader of the text from a place on. -/
abbrev Reader := StateT (List Char) Option

def skipSpace : Reader Unit := modify (·.dropWhile Text.isBlank)

def digits (most : Nat) : Reader Nat := do
  let text ← get
  let run := (text.take most).takeWhile Char.isDigit
  if run.isEmpty then failure
  set (text.drop run.length)
  return Decimal.digitsValue run

def field (most : Nat) : Reader Nat := do
  skipSpace
  digits most

def separator (c : Char) : Reader Unit := do
  skipSpace
  match ← get with
  | first :: rest =>
    if first != c then failure
    set rest
  | [] => failure

/-- A year: four digits, or any number of them after a sign. -/
def yearField : Reader Int := do
  skipSpace
  let text ← get
  match text with
  | '-' :: rest =>
    set rest
    return -(← digits rest.length : Nat)
  | '+' :: rest =>
    set rest
    return (← digits rest.length : Nat)
  | _ => return (← digits 4 : Nat)

/-- A fraction of a second, of which nine digits count. -/
def fractionField : Reader Nat := do
  match ← get with
  | '.' :: rest =>
    let run := rest.takeWhile Char.isDigit
    if run.isEmpty then failure
    set (rest.drop run.length)
    let counted := run.take 9
    return Decimal.digitsValue counted * Nat.pow 10 (9 - counted.length)
  | _ => return 0

/-- Two digits, neither fewer nor after space. -/
def twoDigits : Reader Nat := do
  match ← get with
  | first :: second :: rest =>
    if !(first.isDigit && second.isDigit) then failure
    set rest
    return Decimal.digitsValue [first, second]
  | _ => failure

/-- The distance from UTC in seconds, without its sign. -/
def offsetAmount : Reader Int := do
  let hours ← twoDigits
  modify (·.dropWhile fun c => c == ':' || Text.isBlank c)
  let minutes ← twoDigits
  if 60 ≤ minutes || 24 ≤ hours then failure
  return (hours * 3600 + minutes * 60 : Nat)

def offsetField : Reader Int := do
  skipSpace
  let text ← get
  if (text.take 3).map Char.toUpper == ['U', 'T', 'C'] then
    set (text.drop 3)
    return 0
  match text with
  | sign :: rest =>
    set rest
    if sign == 'Z' || sign == 'z' then return 0
    else if sign == '+' then offsetAmount
    else if sign == '-' || sign == '\u2212' then return -(← offsetAmount)
    else failure
  | [] => failure

/-- A moment with date, time and distance from UTC. The calendar covers both its date and that
in UTC. -/
def momentField : Reader Timestamp := do
  let year ← yearField
  separator '-'
  let month ← field 2
  separator '-'
  let day ← field 2
  match ← get with
  | mark :: rest =>
    if mark != 'T' && mark != 't' && mark != ' ' then failure
    set rest
  | [] => failure
  let hour ← field 2
  separator ':'
  let minute ← field 2
  separator ':'
  let second ← field 2
  let fraction ← fractionField
  let offset ← offsetField
  let date : Date := ⟨year, month, day⟩
  if !date.isValid || 24 ≤ hour || 60 ≤ minute || 60 < second then failure
  let isLeap := second = 60
  let time : Nat := hour * 3600 + minute * 60 + (if isLeap then 59 else second)
  let moment : Timestamp :=
    ⟨date.toDays * 86400 + time - offset, fraction + if isLeap then 1000000000 else 0⟩
  if !moment.date.isCovered then failure
  return moment

def ofText? (text : String) : Option Timestamp := do
  let (moment, rest) ← momentField.run text.toList
  if rest.all Text.isBlank then some moment else none

end Timestamp

end CircuitCloak

/-! Histograms of measurement outcomes. The entries are kept in ascending order of outcomes, each
outcome once, so that a histogram does not depend on the order in which it was filled. Counts are
words of 64 bits, and so are their sums. Past the last word a sum wraps here, where a checked addition
is a panic. -/

namespace CircuitCloak

/-- How often each outcome was seen. -/
structure Counts where
  entries : List (String × UInt64)
  deriving DecidableEq, Repr, Inhabited

namespace Counts

def empty : Counts := ⟨[]⟩

/-- Adds observations of an outcome to ascending entries. -/
def insertEntry (outcome : String) (count : UInt64) :
    List (String × UInt64) → List (String × UInt64)
  | [] => [(outcome, count)]
  | (first, seen) :: rest =>
    if outcome < first then (outcome, count) :: (first, seen) :: rest
    else if outcome = first then (first, seen + count) :: rest
    else (first, seen) :: insertEntry outcome count rest

def insert (counts : Counts) (outcome : String) (count : UInt64) : Counts :=
  ⟨insertEntry outcome count counts.entries⟩

def ofList (observations : List (String × UInt64)) : Counts :=
  observations.foldl (fun counts entry => counts.insert entry.1 entry.2) empty

/-- How often an outcome was seen; zero if it never was. -/
def get (counts : Counts) (outcome : String) : UInt64 := (counts.entries.lookup outcome).getD 0

def total (counts : Counts) : UInt64 := counts.entries.foldr (fun entry sum => entry.2 + sum) 0

def size (counts : Counts) : Nat := counts.entries.length

def isEmpty (counts : Counts) : Bool := counts.entries.isEmpty

/-- The later entry if it was seen more often. -/
def moreFrequent (best entry : String × UInt64) : String × UInt64 :=
  if best.2 < entry.2 then entry else best

/-- The outcome that was seen most often, the smallest of several. -/
def mode? (counts : Counts) : Option (String × UInt64) :=
  match counts.entries with
  | [] => none
  | first :: rest => some (rest.foldl moreFrequent first)

/-- Relative frequencies; none for a histogram without observations. -/
def probabilities (counts : Counts) : List (String × Float) :=
  if counts.total = 0 then []
  else counts.entries.map fun entry =>
    (entry.1, entry.2.toFloat / counts.total.toFloat)

end Counts

end CircuitCloak

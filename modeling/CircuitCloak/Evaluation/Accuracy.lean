import CircuitCloak.Execution.Counts

/-! Semantic accuracy: which part of a histogram another one reproduces. -/

namespace CircuitCloak.Counts

/-- The observations of a histogram that another one shares, outcome by outcome. -/
def shared (reference obfuscated : Counts) : UInt64 :=
  reference.entries.foldr (fun entry sum => min entry.2 (obfuscated.get entry.1) + sum) 0

/-- The percentage of a histogram that another one reproduces; zero for a histogram without
observations. -/
def accuracy (reference obfuscated : Counts) : Float :=
  if reference.total = 0 then 0
  else 100 * (reference.shared obfuscated).toFloat / reference.total.toFloat

end CircuitCloak.Counts

import CircuitCloak.Evaluation.Validation
import CircuitCloak.Json.Decode
import CircuitCloak.Report.Timestamp
import CircuitCloak.Transform.Obfuscator
import CircuitCloak.Word

/-! Reports of an obfuscation, and their JSON form. Fields come in the order of the structures; what
is missing is left out. -/

namespace CircuitCloak

def schemaVersion : String := "0.1.0"

def toolVersion : String := "0.4.0"

structure Report where
  schemaVersion : String := CircuitCloak.schemaVersion
  toolVersion : String := CircuitCloak.toolVersion
  timestamp : Timestamp
  /-- Where the program came from. -/
  source : Option String := none
  seed : Option Nat := none
  stats : TransformStats
  validation : Option ValidationReport := none
  deriving BEq, Repr

namespace Report
open Json (Value Fields)

def statsValue (stats : TransformStats) : Value :=
  .ofFields [("strategy", .ofText stats.strategy.name),
    ("original_ops", .ofNat stats.opsBefore),
    ("obfuscated_ops", .ofNat stats.opsAfter),
    ("original_depth", .ofNat stats.depthBefore),
    ("obfuscated_depth", .ofNat stats.depthAfter),
    ("growth_factor", .ofFloat stats.growthFactor),
    ("measurements", .ofNat stats.measurements)]

def countsValue (counts : Counts) : Value :=
  .ofFields (counts.entries.map fun entry => (entry.1, .ofNat entry.2.toNat))

def validationValue (report : ValidationReport) : Value :=
  .ofFields [("backend", .ofText report.backend),
    ("shots", .ofNat report.shots),
    ("trials", .ofNat report.trials),
    ("original_counts", countsValue report.referenceCounts),
    ("obfuscated_counts", countsValue report.obfuscatedCounts),
    ("accuracy", .ofFloat report.accuracy),
    ("original_latency_ms", .ofFloat report.referenceLatency),
    ("obfuscated_latency_ms", .ofFloat report.obfuscatedLatency)]

def presentField {α : Type} (name : String) (encode : α → Value) : Option α → List (String × Value)
  | some value => [(name, encode value)]
  | none => []

def toValue (report : Report) : Value :=
  .ofFields ([("schema_version", .ofText report.schemaVersion),
    ("tool_version", .ofText report.toolVersion),
    ("timestamp", .ofText report.timestamp.text)] ++
    presentField "source" .ofText report.source ++
    presentField "seed" .ofNat report.seed ++
    [("stats", statsValue report.stats)] ++
    presentField "validation" validationValue report.validation)

def write (layout : Json.Layout) (report : Report) : String := report.toValue.write layout 0

def strategyOfValue? (value : Value) : Option Strategy := do
  (Strategy.ofName (← value.text?)).toOption

def statsOfValue? (value : Value) : Option TransformStats := do
  let fields ← value.fields? ["strategy", "original_ops", "obfuscated_ops", "original_depth",
    "obfuscated_depth", "growth_factor", "measurements"]
  let count (name : String) : Option Nat := fields.required? name (Value.below? longWordCount)
  return {
    strategy := ← fields.required? "strategy" strategyOfValue?
    opsBefore := ← count "original_ops"
    opsAfter := ← count "obfuscated_ops"
    depthBefore := ← count "original_depth"
    depthAfter := ← count "obfuscated_depth"
    growthFactor := ← fields.required? "growth_factor" Value.float?
    measurements := ← count "measurements" }

/-- Sets an outcome's count; a repeated outcome has its last one. -/
def addCount (counts : List (String × UInt64)) (entry : Option String × Value) :
    Option (List (String × UInt64)) := do
  let outcome ← entry.1
  let count ← entry.2.below? longWordCount
  return counts.filter (·.1 != outcome) ++ [(outcome, UInt64.ofNat count)]

def countsOfValue? : Value → Option Counts
  | .object entries => (entries.foldlM addCount []).map Counts.ofList
  | _ => none

def validationOfValue? (value : Value) : Option ValidationReport := do
  let fields ← value.fields? ["backend", "shots", "trials", "original_counts", "obfuscated_counts",
    "accuracy", "original_latency_ms", "obfuscated_latency_ms"]
  return {
    backend := ← fields.required? "backend" Value.text?
    shots := ← fields.required? "shots" (Value.below? wordCount)
    trials := ← fields.required? "trials" (Value.below? wordCount)
    referenceCounts := ← fields.required? "original_counts" countsOfValue?
    obfuscatedCounts := ← fields.required? "obfuscated_counts" countsOfValue?
    accuracy := ← fields.required? "accuracy" Value.float?
    referenceLatency := ← fields.required? "original_latency_ms" Value.float?
    obfuscatedLatency := ← fields.required? "obfuscated_latency_ms" Value.float? }

def timestampOfValue? (value : Value) : Option Timestamp := do
  Timestamp.ofText? (← value.text?)

def ofValue? (value : Value) : Option Report := do
  let fields ← value.fields? ["schema_version", "tool_version", "timestamp", "source", "seed",
    "stats", "validation"]
  return {
    schemaVersion := ← fields.required? "schema_version" Value.text?
    toolVersion := ← fields.required? "tool_version" Value.text?
    timestamp := ← fields.required? "timestamp" timestampOfValue?
    source := ← fields.optional? "source" Value.text?
    seed := ← fields.optional? "seed" (Value.below? longWordCount)
    stats := ← fields.required? "stats" statsOfValue?
    validation := ← fields.optional? "validation" validationOfValue? }

def parse? (text : String) : Option Report := do ofValue? (← Json.parse? text)

end Report

end CircuitCloak

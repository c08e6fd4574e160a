import CircuitCloak.Decimal.Fixed
import CircuitCloak.Evaluation.Validation
import CircuitCloak.Transform.Strategy

/-! Texts that commands print: histograms with bars, the outcome of a validation, and the list of
strategies. -/

namespace CircuitCloak.Command

def alignRight (width : Nat) (text : String) : String :=
  String.ofList (List.replicate (width - text.length) ' ') ++ text

def alignLeft (width : Nat) (text : String) : String :=
  text ++ String.ofList (List.replicate (width - text.length) ' ')

def line (text : String) : String := text ++ "\n"

def shownOutcomes : Nat := 16

/-- A bar of a block for every two percent. -/
def bar (percent : Float) : String :=
  String.ofList (List.replicate (percent / 2).round.toUInt64.toNat '█')

def outcomeLine (total : Float) (entry : String × UInt64) : String :=
  let percent := entry.2.toFloat / total * 100
  line ("    " ++ entry.1 ++ ": " ++ alignRight 6 (toString entry.2) ++ " (" ++
    alignRight 5 (Decimal.fixed 2 percent) ++ "%) " ++ bar percent)

def countsText (title : String) (counts : Counts) : String :=
  let total := (max counts.total 1).toFloat
  let more := counts.size - shownOutcomes
  line "" ++ line s!"  {title} ({counts.total} shots):" ++
    String.join ((counts.entries.take shownOutcomes).map (outcomeLine total)) ++
    (if more = 0 then "" else line s!"    ... and {more} more outcomes")

/-- The accuracy in percent below which a validation counts as failed. -/
def accuracyThreshold : Float := 95

def validationText (report : ValidationReport) : String :=
  let mark := if report.passes accuracyThreshold then "✓" else "✗"
  let overhead := match report.overhead? with
    | some overhead => line ("  Overhead: " ++ Decimal.fixed 2 overhead ++ "x")
    | none => ""
  countsText "Original" report.referenceCounts ++ countsText "Obfuscated" report.obfuscatedCounts ++
    line "" ++ line (mark ++ " Semantic accuracy: " ++ Decimal.fixed 2 report.accuracy ++
      s!"% ({report.trials} trials on {report.backend})") ++
    line ("  Latency: " ++ Decimal.fixed 2 report.referenceLatency ++ " ms original, " ++
      Decimal.fixed 2 report.obfuscatedLatency ++ " ms obfuscated") ++ overhead

def strategyText (strategy : Strategy) : String :=
  let second := match strategy.alias? with
    | some name => s!" (alias: {name})"
    | none => ""
  let mark := if strategy = .substitution then " [default]" else ""
  line ("  " ++ alignLeft 14 strategy.name ++ second ++ mark) ++
    line ("      " ++ strategy.description)

def strategiesText : String :=
  line "Available strategies:" ++ line "" ++ String.join (Strategy.all.map strategyText)

end CircuitCloak.Command

import CircuitCloak.Circuit.Basic
import CircuitCloak.Evaluation.Accuracy
import CircuitCloak.Execution.Simulator

/-! Validation: a program and its obfuscated form are executed several times and their last
histograms are compared. -/

namespace CircuitCloak

structure ValidationReport where
  backend : String
  shots : Nat
  trials : Nat
  referenceCounts : Counts
  obfuscatedCounts : Counts
  /-- In percent. -/
  accuracy : Float
  /-- Milliseconds per execution, on average. -/
  referenceLatency : Float
  obfuscatedLatency : Float
  deriving BEq, Repr

def ValidationReport.passes (report : ValidationReport) (threshold : Float) : Bool :=
  threshold ≤ report.accuracy

/-- How many times as long the obfuscated program took. -/
def ValidationReport.overhead? (report : ValidationReport) : Option Float :=
  if 0 < report.referenceLatency then some (report.obfuscatedLatency / report.referenceLatency)
  else none

structure Validator where
  shots : Nat := 1024
  trials : Nat := 10
  deriving DecidableEq, Repr

/-- What the trials so far have shown. -/
structure Trials where
  referenceCounts : Counts
  obfuscatedCounts : Counts
  referenceTime : Float
  obfuscatedTime : Float

namespace Validator

def setShots (validator : Validator) (shots : Nat) : Validator := { validator with shots }

/-- At least one trial is made. -/
def setTrials (validator : Validator) (trials : Nat) : Validator :=
  { validator with trials := max trials 1 }

/-- What validation needs: a clock, in milliseconds, and a backend. -/
structure Bench (m : Type → Type) where
  clock : m Float
  backend : String
  execute : Circuit → Nat → ExceptT ExecutionError m ExecutionResult

variable {m : Type → Type} [Monad m]

/-- The histogram of a program, and the milliseconds that it took. -/
def timed (bench : Bench m) (circuit : Circuit) (shots : Nat) :
    ExceptT ExecutionError m (Counts × Float) := do
  let start ← (bench.clock : m Float)
  let result ← bench.execute circuit shots
  let stop ← (bench.clock : m Float)
  return (result.counts, stop - start)

def trial (bench : Bench m) (reference obfuscated : Circuit) (shots : Nat) (trials : Trials) :
    ExceptT ExecutionError m Trials := do
  let (referenceCounts, referenceTime) ← timed bench reference shots
  let (obfuscatedCounts, obfuscatedTime) ← timed bench obfuscated shots
  return ⟨referenceCounts, obfuscatedCounts, trials.referenceTime + referenceTime,
    trials.obfuscatedTime + obfuscatedTime⟩

def repeatTrials (bench : Bench m) (reference obfuscated : Circuit) (shots : Nat) :
    Nat → Trials → ExceptT ExecutionError m Trials
  | 0, trials => return trials
  | count + 1, trials => do
    repeatTrials bench reference obfuscated shots count
      (← trial bench reference obfuscated shots trials)

/-- Compares a program with its obfuscated form by the histograms of the last trial. -/
def compare (validator : Validator) (bench : Bench m) (reference obfuscated : Circuit) :
    ExceptT ExecutionError m ValidationReport := do
  let trials ← repeatTrials bench reference obfuscated validator.shots validator.trials
    ⟨.empty, .empty, 0, 0⟩
  return {
    backend := bench.backend
    shots := validator.shots
    trials := validator.trials
    referenceCounts := trials.referenceCounts
    obfuscatedCounts := trials.obfuscatedCounts
    accuracy := trials.referenceCounts.accuracy trials.obfuscatedCounts
    referenceLatency := trials.referenceTime / Float.ofNat validator.trials
    obfuscatedLatency := trials.obfuscatedTime / Float.ofNat validator.trials }

end Validator

def Simulator.bench {m : Type → Type} [Monad m] (clock : m Float) (backend : String) :
    Validator.Bench (StateT Simulator m) where
  clock := clock
  backend
  execute circuit shots := ExceptT.mk fun simulator =>
    return (Simulator.execute circuit shots).run.run simulator

end CircuitCloak

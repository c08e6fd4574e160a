import CircuitCloak.Circuit.Depth
import CircuitCloak.Circuit.Samples
import CircuitCloak.Command.Host
import CircuitCloak.Command.Request
import CircuitCloak.Command.Table
import CircuitCloak.Qasm.Load
import CircuitCloak.Qasm.Writer
import CircuitCloak.Report.Export
import CircuitCloak.Transform.Settings

/-! Running requests. Messages about an obfuscation go to their own stream, so that the transformed
program can be piped on. -/

namespace CircuitCloak.Command
open Files

/-- Why a command fails: causes from the outermost to the innermost. -/
abbrev Failure := List String

def failureText (failure : Failure) : String := line ("Error: " ++ ": ".intercalate failure)

/-- The causes of a failed transform; an error that stands in another one is named again. -/
def transformCauses (fault : TransformError) : Failure :=
  match fault with
  | .unreadableFile _ reason => [fault.message, reason]
  | .circuit inner => [fault.message, inner.message]
  | _ => [fault.message]

def evaluationCauses (fault : EvaluationError) : Failure :=
  match fault with
  | .execution inner => [fault.message, inner.message]
  | _ => [fault.message]

variable {m : Type → Type} [Monad m] [Host m]

abbrev Task (m : Type → Type) := ExceptT (Halt Failure) m

def fail {α : Type} (failure : Failure) : Task m α := throw (.refused failure)

def print (text : String) : Task m Unit := (Host.print text : m Unit)

def notify (text : String) : Task m Unit := (Host.notify text : m Unit)

/-- The value of a step, or its causes of failure below what was tried. -/
def during {ε α : Type} (causes : ε → Failure) (attempt : Failure) (step : ExceptT ε m α) :
    Task m α := do
  match ← (step.run : m _) with
  | .ok value => return value
  | .error fault => fail (attempt ++ causes fault)

/-- The value of a computation, or its causes of failure below what was tried. -/
def settle {ε α : Type} (causes : ε → Failure) (attempt : Failure) (result : Except ε α) :
    Task m α :=
  during causes attempt (ExceptT.mk (pure result) : ExceptT ε m α)

/-- The circuit of a file, and the dialect in which it is written. -/
def readCircuit (path : String) : Task m (Circuit × Qasm.Dialect) := do
  if !(← (FileStore.contains path : m Bool)) then fail [s!"File not found: {path}"]
  match ← (FileStore.read path : m _) with
  | .error fault => fail [s!"Failed to read file: {path}", fault.message]
  | .ok source =>
    match Qasm.load source with
    | .ok loaded => return loaded
    | .error (.refused fault) => fail [s!"Failed to parse {path}", fault.message]
    | .error .panic => throw .panic

def saveCircuit (circuit : Circuit) (dialect : Qasm.Dialect) (output : Option String) :
    Task m Unit := do
  let text := Qasm.write dialect circuit
  match output with
  | none => print text
  | some path =>
    match ← (FileStore.write path text : m _) with
    | .ok () => return ()
    | .error fault => fail [s!"Failed to write file: {path}", fault.message]

/-- The settings of the named file, or of the file in the home directory if there is one. -/
def loadSettings (config home : Option String) : Task m Settings := do
  match config, home with
  | some path, _ =>
    during transformCauses [s!"Failed to load config: {path}"] (Settings.load path : ExceptT _ m _)
  | none, some home =>
    let path := joinPath (joinPath home ".obfusq") "config.yaml"
    during transformCauses [s!"Failed to load config: {path}"]
      (Settings.loadIfPresent path : ExceptT _ m _)
  | none, none => return {}

def ObfuscateRequest.settings (request : ObfuscateRequest) (settings : Settings) :
    Except TransformError Settings := do
  let strategy ← match request.strategy with
    | some name => Strategy.ofName name
    | none => pure settings.strategy
  let options :=
    { settings.options with probability := request.probability.getD settings.options.probability }
  options.validate
  return { settings with strategy, options, seed := request.seed <|> settings.seed }

/-- Executes both programs on a simulator and compares them. -/
def validatePrograms (reference obfuscated : Circuit) (shots trials : Nat) :
    Task m ValidationReport := do
  let simulator := Simulator.new Simulator.defaultQubits (← (Host.entropy : m _))
  let validator := (({} : Validator).setShots shots).setTrials trials
  let bench : Validator.Bench (StateT Simulator m) :=
    Simulator.bench (Host.clock : m Float) simulator.capabilities.name
  match ← ((validator.compare bench reference obfuscated).run.run' simulator : m _) with
  | .ok report => return report
  | .error fault => fail ("Validation run failed" :: evaluationCauses (.execution fault))

def requireAccuracy (report : ValidationReport) : Task m Unit := do
  if !report.passes accuracyThreshold then
    fail ["Semantic accuracy " ++ Decimal.fixed 2 report.accuracy ++ "% is below " ++
      Decimal.plain.text accuracyThreshold ++ "%"]

def writeReport (request : ObfuscateRequest) (settings : Settings) (stats : TransformStats)
    (validation : Option ValidationReport) (path : String) : Task m Unit := do
  let report : Report :=
    { timestamp := ← (Host.now : m _), source := some request.input, seed := settings.seed, stats,
      validation }
  during evaluationCauses [s!"Failed to write report: {path}"]
    (report.save path .indented : ExceptT _ m _)
  notify (line s!"✓ Report written to {path}")

def obfuscate (config home : Option String) (request : ObfuscateRequest) : Task m Unit := do
  let settings ← loadSettings config home
  let settings ← settle transformCauses [] (request.settings settings)
  notify (line s!"→ Obfuscating {request.input} with {settings.strategy.name}")
  let (circuit, dialect) ← readCircuit request.input
  notify (line (s!"  Loaded ({dialect.name}): {circuit.numQubits} qubits, {circuit.size} ops, " ++
    s!"depth {circuit.depth}"))
  let unseeded ← (Host.entropy : m _)
  let setUp := ["Failed to set up the obfuscator"]
  let obfuscator ← (Obfuscator.ofSettings settings unseeded : ExceptT _ m _).adapt
    (Halt.map (setUp ++ transformCauses ·))
  let (output, stats) ← settle transformCauses [s!"Failed to obfuscate {request.input}"]
    (obfuscator.run circuit).1
  notify (line (s!"  Obfuscated: {stats.opsAfter} ops, depth {stats.depthAfter} (" ++
    Decimal.fixed 2 stats.growthFactor ++ "x growth)"))
  let written := request.dialect.getD dialect
  saveCircuit output written request.output
  if let some path := request.output then notify (line s!"✓ Wrote {path} ({written.name})")
  let validation ←
    if request.validates then
      some <$> validatePrograms circuit output request.shots request.trials
    else pure none
  if let some report := validation then notify (validationText report)
  if let some path := request.report then writeReport request settings stats validation path
  if let some report := validation then requireAccuracy report

def validate (referencePath obfuscatedPath : String) (shots trials : Nat) : Task m Unit := do
  print (line (s!"→ Comparing {referencePath} with {obfuscatedPath} " ++
    s!"({shots} shots, {trials} trials)"))
  let (reference, _) ← readCircuit referencePath
  let (obfuscated, _) ← readCircuit obfuscatedPath
  if reference.numQubits ≠ obfuscated.numQubits || reference.numClbits ≠ obfuscated.numClbits then
    fail [s!"Register shapes differ: {reference.numQubits}q/{reference.numClbits}c vs " ++
      s!"{obfuscated.numQubits}q/{obfuscated.numClbits}c"]
  let report ← validatePrograms reference obfuscated shots trials
  print (validationText report)
  requireAccuracy report

def generate (qubits depth : Nat) (seed : Option Nat) (output : Option String) : Task m Unit := do
  if qubits = 0 then fail ["A program needs at least one qubit"]
  let source ← match seed with
    | some seed => pure (.ofSeed (UInt64.ofNat seed))
    | none => (Host.entropy : m Random.ChaCha)
  let drawn : ExceptT CircuitError (Random.Draw Random.ChaCha) Circuit :=
    Circuit.random qubits depth
  match (drawn.run source).1 with
  | .error fault => fail ["Failed to build random program", fault.message]
  | .ok circuit =>
    saveCircuit circuit .qasm3 output
    if let some path := output then
      notify (line s!"✓ Wrote {path} ({circuit.numQubits} qubits, {circuit.size} ops)")

def versionText : String :=
  line s!"Obfusq v{toolVersion} - Semantics-preserving quantum circuit obfuscation" ++
    line "" ++ line "Components:" ++
    line "  obfusq-ir     Circuit intermediate representation" ++
    line "  obfusq-qasm   OpenQASM 2/3 ingestion and serialization" ++
    line "  obfusq-core   Equivalence library and rewrite strategies" ++
    line "  obfusq-hal    Execution capability" ++
    line "  obfusq-eval   Semantic accuracy validation and reports" ++
    line "  obfusq-cli    Command-line interface" ++
    line "" ++ line "License:    Apache-2.0"

def perform (invocation : Invocation) (home : Option String) : Task m Unit :=
  match invocation.request with
  | .obfuscate request => obfuscate invocation.config home request
  | .validate reference obfuscated shots trials => validate reference obfuscated shots trials
  | .strategies => print strategiesText
  | .generate qubits depth seed output => generate qubits depth seed output
  | .version => print versionText

def usageText : String :=
  line "Usage: obfusq [OPTIONS] <COMMAND>" ++ line "" ++
    line "Commands: obfuscate, validate, strategies, generate, version"

/-- Runs a command line and returns its exit code: one for a failure, two for words that make no
request, 101 for a panic. -/
def run (words : List String) (environment : Environment) : m UInt32 := do
  match Invocation.ofWords words environment with
  | .error .usage =>
    Host.notify usageText
    return 2
  | .error .help =>
    Host.print usageText
    return 0
  | .error .version =>
    Host.print (line s!"obfusq {toolVersion}")
    return 0
  | .ok invocation =>
    match ← (perform invocation (environment.lookup "HOME") : Task m Unit).run with
    | .ok () => return 0
    | .error (.refused failure) =>
      Host.notify (failureText failure)
      return 1
    | .error .panic => return 101

end CircuitCloak.Command

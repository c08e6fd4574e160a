import CircuitCloak.Command.Options

/-! Requests: what a command line, with the environment, asks the program to do. -/

namespace CircuitCloak.Command

structure ObfuscateRequest where
  input : String
  output : Option String
  strategy : Option String
  seed : Option Nat
  probability : Option Float
  dialect : Option Qasm.Dialect
  validates : Bool
  shots : Nat
  trials : Nat
  report : Option String

inductive Request where
  | obfuscate (request : ObfuscateRequest)
  | validate (reference obfuscated : String) (shots trials : Nat)
  | strategies
  | generate (qubits depth : Nat) (seed : Option Nat) (output : Option String)
  | version

/-- A request with the configuration file that is named for it. -/
structure Invocation where
  config : Option String
  request : Request

abbrev Environment := List (String × String)

/-- The value of an option, or else of a variable that stands for it. -/
def Words.value? (words : Words) (environment : Environment) (option : String)
    (setting : Option String) : Option String :=
  match words.options.lookup option, setting with
  | some value, _ => some value
  | none, some setting => environment.lookup setting
  | none, none => none

def optional {α : Type} (read : String → Option α) : Option String → Except Stop (Option α)
  | none => .ok none
  | some text =>
    match read text with
    | some value => .ok (some value)
    | none => .error .usage

def required {α : Type} (read : String → Option α) (text : Option String) : Except Stop α := do
  match ← optional read text with
  | some value => return value
  | none => .error .usage

def verboseForm : OptionForm :=
  { long := "verbose", short := some 'v', mayRepeat := true }

def configForm : OptionForm := { long := "config", value := some .path }

def sharedForms : List OptionForm := [verboseForm, configForm]

def rootGrammar : Grammar := { options := sharedForms, hasCommands := true, hasVersion := true }

def validationForms : List OptionForm :=
  [{ long := "shots", value := some .size }, { long := "trials", value := some .size }]

def outputForm : OptionForm := { long := "output", short := some 'o', value := some .path }

def seedForm : OptionForm := { long := "seed", value := some .seed }

def obfuscateGrammar : Grammar where
  options := sharedForms ++ validationForms ++
    [{ long := "input", short := some 'i', value := some .path }, outputForm,
      { long := "strategy", short := some 's', value := some .text }, seedForm,
      { long := "probability", value := some .real },
      { long := "dialect", value := some .dialect }, { long := "validate" },
      { long := "report", value := some .path }]

def validateGrammar : Grammar where
  options := sharedForms ++ validationForms
  positionals := [.path, .path]

def generateGrammar : Grammar where
  options := sharedForms ++
    [{ long := "qubits", short := some 'q', value := some .size },
      { long := "depth", short := some 'd', value := some .size }, seedForm, outputForm]

/-- The grammar of a command that has no words of its own. -/
def plainGrammar : Grammar where
  options := sharedForms

def defaultShots : Nat := 1024

def defaultTrials : Nat := 10

def obfuscateOf (words : Words) (environment : Environment) : Except Stop ObfuscateRequest := do
  let value := fun option => words.value? environment option none
  return {
    input := ← required path? (value "input")
    output := ← optional path? (value "output")
    strategy := words.value? environment "strategy" (some "OBFUSQ_STRATEGY")
    seed := ← optional seed? (words.value? environment "seed" (some "OBFUSQ_SEED"))
    probability := ← optional Decimal.float? (value "probability")
    dialect := ← optional dialect? (value "dialect")
    validates := words.isGiven "validate"
    shots := (← optional size? (value "shots")).getD defaultShots
    trials := (← optional size? (value "trials")).getD defaultTrials
    report := ← optional path? (value "report") }

def validateOf (words : Words) : Except Stop Request := do
  let shots ← optional size? (words.options.lookup "shots")
  let trials ← optional size? (words.options.lookup "trials")
  match words.positionals with
  | [reference, obfuscated] =>
    return .validate (← required path? reference) (← required path? obfuscated)
      (shots.getD defaultShots) (trials.getD defaultTrials)
  | _ => .error .usage

def generateOf (words : Words) : Except Stop Request := do
  return .generate (← required size? (words.options.lookup "qubits"))
    (← required size? (words.options.lookup "depth"))
    (← optional seed? (words.options.lookup "seed"))
    (← optional path? (words.options.lookup "output"))

def namesCommand : List String → Bool
  | [] => true
  | [name] =>
    ["obfuscate", "validate", "strategies", "generate", "version", "help"].contains name
  | _ => false

/-- The words of a command and what they ask for. Help can be asked for a command. -/
def requestOf (command : String) (words : List String) (environment : Environment) :
    Except Stop (Words × Request) := do
  match command with
  | "obfuscate" =>
    let words ← obfuscateGrammar.read {} words
    return (words, .obfuscate (← obfuscateOf words environment))
  | "validate" =>
    let words ← validateGrammar.read {} words
    return (words, ← validateOf words)
  | "strategies" => return (← plainGrammar.read {} words, .strategies)
  | "generate" =>
    let words ← generateGrammar.read {} words
    return (words, ← generateOf words)
  | "version" => return (← plainGrammar.read {} words, .version)
  | "help" => .error (if namesCommand words then .help else .usage)
  | _ => .error .usage

def configVariable : String := "OBFUSQ_CONFIG"

/-- What a command line asks for. The configuration file may be named before or after the command,
or else by a variable. -/
def Invocation.ofWords (words : List String) (environment : Environment) :
    Except Stop Invocation := do
  let root ← rootGrammar.read {} words
  match root.positionals with
  | [command] =>
    let (inner, request) ← requestOf command root.rest environment
    let root ← root.settle
    let before ← optional path? (root.value? environment "config" (some configVariable))
    let after ← optional path? (inner.value? environment "config" (some configVariable))
    return ⟨if inner.isGiven "config" then after else before, request⟩
  | _ => .error .usage

end CircuitCloak.Command

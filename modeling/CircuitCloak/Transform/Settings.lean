import CircuitCloak.Files.Path
import CircuitCloak.Files.Store
import CircuitCloak.Library.Document
import CircuitCloak.Transform.Obfuscator
import CircuitCloak.Word

/-! Settings of an obfuscator, as they are kept in YAML files. Every setting may be left out. -/

namespace CircuitCloak

structure Settings where
  strategy : Strategy := .substitution
  /-- The seed of the random source, below `2 ^ 64`. -/
  seed : Option Nat := none
  options : TransformOptions := {}
  /-- The file of the library. -/
  library : Option String := none

namespace Settings
open Yaml

def strategyOfNode? (node : Node) : Option Strategy := do
  (Strategy.ofName (← node.text?)).toOption

def decoysOfNode? (node : Node) : Option DecoyMode := do
  match ← node.choice? with
  | "empty" => some .empty
  | "self_inverse_pairs" => some .selfInversePairs
  | _ => none

/-- The settings of a document, not yet checked. -/
def ofNode? (node : Node) : Option Settings := do
  let fields ← node.fields? ["strategy", "seed", "probability", "label", "decoys", "library"]
  let standard : TransformOptions := {}
  return {
    strategy := ← fields.optional? "strategy" .substitution strategyOfNode?
    seed := ← fields.optional? "seed" none (Node.nullable? (Node.below? longWordCount))
    options := {
      probability := ← fields.optional? "probability" standard.probability Node.float?
      label := ← fields.optional? "label" standard.label Node.text?
      decoys := ← fields.optional? "decoys" standard.decoys decoysOfNode? }
    library := ← fields.optional? "library" none (Node.nullable? Node.text?) }

def ofYaml (text : String) : Except TransformError Settings :=
  match Yaml.parse? text >>= ofNode? with
  | none => .error .malformedDocument
  | some settings => do
    settings.options.validate
    return settings

end Settings

open Files

variable {m : Type → Type} [Monad m] [FileStore m]

def readFile (path : String) : ExceptT TransformError m String := do
  match ← (FileStore.read path : m _) with
  | .ok text => return text
  | .error fault => throw (.unreadableFile path fault.message)

/-- The settings of a file. The library's path begins at the file's directory. -/
def Settings.load (path : String) : ExceptT TransformError m Settings := do
  let settings ← Settings.ofYaml (← readFile path)
  return { settings with library := settings.library.map (besideFile path) }

/-- The settings of a file, or the standard ones if there is no such file. -/
def Settings.loadIfPresent (path : String) : ExceptT TransformError m Settings := do
  if ← (FileStore.contains path : m Bool) then Settings.load path else return {}

/-- The refusal of a library as one of the transform. -/
def LibraryDocumentFault.transformError : LibraryDocumentFault → TransformError
  | malformed => .malformedDocument
  | tables fault => .library fault

/-- The library of a YAML text, for a transform. -/
def libraryOfYaml (text : String) : Except (Halt TransformError) Library :=
  (Library.ofYaml text).mapError (·.map LibraryDocumentFault.transformError)

def Library.load (path : String) : ExceptT (Halt TransformError) m Library := do
  libraryOfYaml (← (readFile path : ExceptT _ m _).adapt Halt.refused)

/-- The obfuscator of settings; without a seed it draws from the given source. -/
def Obfuscator.ofSettings (settings : Settings) (unseeded : Random.ChaCha) :
    ExceptT (Halt TransformError) m (Obfuscator Random.ChaCha) := do
  refusing settings.options.validate
  let library ← match settings.library with
    | some path => Library.load path
    | none => pure Library.builtin
  return {
    strategy := settings.strategy
    library
    options := settings.options
    source := match settings.seed with
      | some seed => .ofSeed (UInt64.ofNat seed)
      | none => unseeded }

end CircuitCloak

import CircuitCloak.Circuit.Depth
import CircuitCloak.Library.Builtin
import CircuitCloak.Transform.Encapsulation
import CircuitCloak.Transform.Injection
import CircuitCloak.Transform.Padding
import CircuitCloak.Transform.Substitution

/-! Obfuscators: a strategy with its library, options and random source, which go on from one
program to the next. -/

namespace CircuitCloak
open CircuitCloak.Random

variable {σ : Type} [WordSource σ]

def Strategy.apply (strategy : Strategy) (circuit : Circuit) (library : Library)
    (options : TransformOptions) : Transform σ Circuit :=
  match strategy with
  | .substitution => Substitution.apply circuit library options.decoys
  | .composite => Encapsulation.apply circuit library options
  | .padding => Padding.apply circuit library
  | .segmented => Injection.apply circuit library

structure TransformStats where
  strategy : Strategy
  opsBefore : Nat
  opsAfter : Nat
  depthBefore : Nat
  depthAfter : Nat
  /-- The quotient of the sizes, or one for an empty program. -/
  growthFactor : Float
  measurements : Nat
  deriving BEq, Repr

def TransformStats.ofCircuits (strategy : Strategy) (before after : Circuit) : TransformStats where
  strategy
  opsBefore := before.size
  opsAfter := after.size
  depthBefore := before.depth
  depthAfter := after.depth
  growthFactor := if before.size = 0 then 1 else Float.ofNat after.size / Float.ofNat before.size
  measurements := before.measurements.length

structure Obfuscator (σ : Type) where
  strategy : Strategy
  library : Library
  options : TransformOptions
  source : σ

namespace Obfuscator

/-- Changes the library, if its tables are sound. -/
def setLibrary (obfuscator : Obfuscator σ) (library : Library) :
    Except (Halt TransformError) (Obfuscator σ) := do
  library.validate.mapError (·.map .library)
  return { obfuscator with library }

/-- Changes the options, if they are sound. -/
def setOptions (obfuscator : Obfuscator σ) (options : TransformOptions) :
    Except TransformError (Obfuscator σ) := do
  options.validate
  return { obfuscator with options }

/-- Transforms a circuit; the random source goes on also where this fails. -/
def run (obfuscator : Obfuscator σ) (circuit : Circuit) :
    Except TransformError (Circuit × TransformStats) × Obfuscator σ :=
  let (result, source) :=
    (obfuscator.strategy.apply circuit obfuscator.library obfuscator.options :
      Transform σ Circuit).run obfuscator.source
  let answer := do
    let after ← result
    checkBoundary circuit after
    return (after, TransformStats.ofCircuits obfuscator.strategy circuit after)
  (answer, { obfuscator with source })

end Obfuscator

end CircuitCloak

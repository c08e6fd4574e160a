import CircuitCloak.Execution.Job
import CircuitCloak.Random.Draw

/-! Why a program is not admitted to a backend, or its execution has no result. -/

namespace CircuitCloak

inductive ExecutionError where
  | noShots
  | tooManyShots (requested : Nat) (backend : String) (limit : Nat)
  | tooManyQubits (qubits : Nat) (backend : String) (limit : Nat)
  | unsupportedGate (gate backend : String)
  | symbolicAngle (gate : String)
  | jobNotFound (id : JobId)
  | jobFailed (message : String)
  /-- A job without a result, because it failed or has not finished. -/
  | noResult (id : JobId)
  /-- A job that must be asked again later. -/
  | unfinished (id : JobId)
  /-- The weights of the final state can not be sampled. -/
  | degenerateState (fault : Random.WeightFault)
  deriving DecidableEq, Repr

def ExecutionError.message : ExecutionError → String
  | noShots => "Invalid shots: shots must be positive"
  | tooManyShots requested backend limit =>
    s!"Invalid shots: {requested} shots requested but {backend} allows at most {limit}"
  | tooManyQubits qubits backend limit =>
    s!"Circuit exceeds backend capabilities: Circuit has {qubits} qubits but {backend} " ++
      s!"only supports {limit}"
  | unsupportedGate gate backend =>
    s!"Unsupported feature: gate '{gate}' is not supported by {backend}"
  | symbolicAngle gate => s!"Unsupported feature: gate '{gate}' has an unbound symbolic parameter"
  | jobNotFound id => s!"Job not found: {id.text}"
  | jobFailed message => s!"Job failed: {message}"
  | noResult id => s!"Backend error: job {id.text} has no result"
  | unfinished id => s!"Backend error: job {id.text} has not finished"
  | degenerateState fault => s!"Backend error: degenerate statevector: {fault.message}"

end CircuitCloak

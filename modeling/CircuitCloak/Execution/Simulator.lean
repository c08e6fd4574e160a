import CircuitCloak.Execution.Capabilities
import CircuitCloak.Execution.Job
import CircuitCloak.Execution.Sampling

/-! The simulator: a store of jobs, each step of which is taken as a whole, and the calls that
clients make of it. A failed job is forgotten once its status was reported, a completed one once its
result was handed out. -/

namespace CircuitCloak

structure ExecutionResult where
  counts : Counts
  shots : Nat
  deriving DecidableEq, Repr, Inhabited

/-- A job with its result, once there is one. -/
structure TrackedJob where
  job : Job
  result : Option ExecutionResult
  deriving DecidableEq, Repr, Inhabited

/-- Jobs by their ids, each id once. -/
structure JobStore where
  jobs : List (JobId × TrackedJob)
  deriving DecidableEq, Repr, Inhabited

namespace JobStore

def empty : JobStore := ⟨[]⟩

def find? (store : JobStore) (id : JobId) : Option TrackedJob := store.jobs.lookup id

def erase (store : JobStore) (id : JobId) : JobStore := ⟨store.jobs.filter (·.1 != id)⟩

def insert (store : JobStore) (id : JobId) (job : TrackedJob) : JobStore :=
  ⟨(id, job) :: (store.erase id).jobs⟩

def size (store : JobStore) : Nat := store.jobs.length

def track (store : JobStore) (id : JobId) (shots : Nat) (backend : String) : JobStore :=
  store.insert id ⟨{ id, shots, backend }, none⟩

def TrackedJob.finish (tracked : TrackedJob) (moment : Nat) :
    Except ExecutionError ExecutionResult → TrackedJob
  | .ok result => ⟨tracked.job.transition .completed moment, some result⟩
  | .error fault => { tracked with job := tracked.job.transition (.failed fault.message) moment }

/-- Notes the end of a job's execution, if the job is still there. -/
def close (store : JobStore) (id : JobId) (moment : Nat)
    (outcome : Except ExecutionError ExecutionResult) : JobStore :=
  match store.find? id with
  | some tracked => store.insert id (TrackedJob.finish tracked moment outcome)
  | none => store

def status (store : JobStore) (id : JobId) : Except ExecutionError JobStatus × JobStore :=
  match store.find? id with
  | none => (.error (.jobNotFound id), store)
  | some tracked =>
    match tracked.job.status with
    | .failed message => (.ok (.failed message), store.erase id)
    | status => (.ok status, store)

def result (store : JobStore) (id : JobId) : Except ExecutionError ExecutionResult × JobStore :=
  match store.find? id with
  | none => (.error (.jobNotFound id), store)
  | some tracked =>
    match tracked.result with
    | some result => (.ok result, store.erase id)
    | none => (.error (.noResult id), store)

end JobStore

structure Simulator where
  capabilities : Capabilities
  store : JobStore
  /-- The random source of the next execution. -/
  source : Random.ChaCha
  /-- Every execution begins with the same source. -/
  isSeeded : Bool
  /-- The number of jobs that were submitted. -/
  submitted : Nat

namespace Simulator

/-- A simulator of at most the given number of qubits, which draws from the given source. -/
def new (maxQubits : Nat) (source : Random.ChaCha) : Simulator :=
  ⟨.simulator maxQubits, .empty, source, false, 0⟩

def defaultQubits : Nat := 20

/-- A simulator whose executions are reproducible. -/
def seeded (seed : Nat) : Simulator :=
  ⟨.simulator defaultQubits, .empty, .ofSeed (UInt64.ofNat seed), true, 0⟩

abbrev Call := ExceptT ExecutionError (StateM Simulator)

def hasSymbolicAngle (kind : Elementary) : Bool := kind.angles.any fun angle => angle.value?.isNone

/-- Admits a program: by the capabilities, and every angle has a value. -/
def validate (simulator : Simulator) (circuit : Circuit) (shots : Nat) :
    Except ExecutionError Unit := do
  simulator.capabilities.check circuit shots
  match circuit.findKind? hasSymbolicAngle with
  | some kind => .error (.symbolicAngle kind.name)
  | none => .ok ()

/-- Executes a program; an unseeded source goes on. -/
def run (simulator : Simulator) (circuit : Circuit) (shots : Nat) :
    Except ExecutionError ExecutionResult × Simulator :=
  let (outcome, source) :=
    (circuit.execute shots : ExceptT ExecutionError (Random.Draw Random.ChaCha) Counts).run
      simulator.source
  (outcome.map (⟨·, shots⟩),
    if simulator.isSeeded then simulator else { simulator with source })

/-- Submits a program, which is executed at once, and returns the job's id, which is a new one. -/
def submit (circuit : Circuit) (shots : Nat) : Call JobId := do
  let simulator ← get
  let number := simulator.submitted
  let id := JobId.issued number
  let store := simulator.store.track id shots simulator.capabilities.name
  let (outcome, simulator) := { simulator with store }.run circuit shots
  set ({ simulator with
    store := simulator.store.close id number outcome, submitted := number + 1 } : Simulator)
  return id

def onStore {α : Type} (step : JobStore → Except ExecutionError α × JobStore) : Call α := do
  let simulator ← get
  let (answer, store) := step simulator.store
  set ({ simulator with store } : Simulator)
  answer

def status (id : JobId) : Call JobStatus := onStore (·.status id)

def result (id : JobId) : Call ExecutionResult := onStore (·.result id)

def wait (id : JobId) : Call ExecutionResult := do
  match ← status id with
  | .completed => result id
  | .failed message => throw (.jobFailed message)
  | .queued | .running => throw (.unfinished id)

/-- Admits a program, submits it and waits for its result. -/
def execute (circuit : Circuit) (shots : Nat) : Call ExecutionResult := do
  (← get).validate circuit shots
  let id ← submit circuit shots
  wait id

end Simulator

end CircuitCloak

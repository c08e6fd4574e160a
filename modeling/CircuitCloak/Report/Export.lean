import CircuitCloak.Files.Store
import CircuitCloak.Report.Basic

/-! Reports in files, and why an evaluation fails. -/

namespace CircuitCloak

inductive EvaluationError where
  | execution (fault : ExecutionError)
  | unreadable (path reason : String)
  | unwritable (path reason : String)
  | malformedReport
  deriving DecidableEq, Repr

def EvaluationError.message : EvaluationError → String
  | execution fault => "Backend error: " ++ fault.message
  | unreadable path reason => s!"I/O error: Failed to read {path}: {reason}"
  | unwritable path reason => s!"I/O error: Failed to write {path}: {reason}"
  | malformedReport => "Export error"

namespace Report
open Files

variable {m : Type → Type} [Monad m] [FileStore m]

def save (report : Report) (path : String) (layout : Json.Layout) :
    ExceptT EvaluationError m Unit := do
  match ← (FileStore.write path (report.write layout) : m _) with
  | .ok () => return ()
  | .error fault => throw (.unwritable path fault.message)

def load (path : String) : ExceptT EvaluationError m Report := do
  match ← (FileStore.read path : m _) with
  | .error fault => throw (.unreadable path fault.message)
  | .ok text =>
    match parse? text with
    | some report => return report
    | none => throw .malformedReport

end Report

end CircuitCloak

/-! The life of a job. A job that has completed or failed stays as it is. -/

namespace CircuitCloak

inductive JobStatus where
  | queued
  | running
  | completed
  | failed (message : String)
  deriving DecidableEq, Repr, Inhabited

namespace JobStatus

def isTerminal : JobStatus → Bool
  | queued | running => false
  | completed | failed _ => true

def isSuccess : JobStatus → Bool
  | completed => true
  | _ => false

def text : JobStatus → String
  | queued => "Queued"
  | running => "Running"
  | completed => "Completed"
  | failed message => s!"Failed: {message}"

end JobStatus

/-- The id of a job: the number that a backend gave it, or a text by which a client asks. No text is
the id of a job that a backend took in. -/
inductive JobId where
  | issued (number : Nat)
  | named (text : String)
  deriving DecidableEq, Repr, Inhabited

def JobId.text : JobId → String
  | issued number => s!"job{number}"
  | named text => text

structure Job where
  id : JobId
  shots : Nat
  backend : String
  status : JobStatus := .queued
  /-- The moment at which the job reached a terminal status. -/
  finishedAt : Option Nat := none
  deriving DecidableEq, Repr, Inhabited

/-- Gives a job another status at some moment, unless its status is terminal. -/
def Job.transition (job : Job) (status : JobStatus) (moment : Nat) : Job :=
  if job.status.isTerminal then job
  else { job with status, finishedAt := if status.isTerminal then some moment else job.finishedAt }

end CircuitCloak

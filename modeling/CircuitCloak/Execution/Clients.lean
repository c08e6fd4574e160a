import CircuitCloak.Execution.Simulator

/-! A simulator that clients share. Each call takes hold of the jobs in sections, which are carried out
as a whole; between two sections of one call those of any other calls may come, or the call may never
go on. A job gets an id that no job had before, and an execution draws from some source of its own. -/

namespace CircuitCloak.Service

inductive Request where
  | submit (circuit : Circuit) (shots : Nat)
  | status (id : JobId)
  | result (id : JobId)
  | wait (id : JobId)
  | execute (circuit : Circuit) (shots : Nat)

/-- The section of a call that comes next. -/
inductive Stage where
  | validate (circuit : Circuit) (shots : Nat)
  /-- A program becomes a job, whose result may be awaited by the same call. -/
  | track (circuit : Circuit) (shots : Nat) (awaited : Bool)
  /-- The execution of a job has ended. -/
  | close (id : JobId) (circuit : Circuit) (shots : Nat) (awaited : Bool)
  | status (id : JobId)
  | result (id : JobId)
  /-- A waiting call asks for the status of its job, -/
  | poll (id : JobId)
  /-- and for the result once it was told that there is one. -/
  | collect (id : JobId)

def Request.stage : Request → Stage
  | submit circuit shots => .track circuit shots false
  | status id => .status id
  | result id => .result id
  | wait id => .poll id
  | execute circuit shots => .validate circuit shots

/-- What a call returns. A call that executes a program has submitted it before. -/
inductive Answer where
  | refused (fault : ExecutionError)
  | submitted (id : JobId)
  | status (id : JobId) (answer : Except ExecutionError JobStatus)
  | result (id : JobId) (answer : Except ExecutionError ExecutionResult)
  | awaited (id : JobId) (answer : Except ExecutionError ExecutionResult)

namespace Answer

/-- The job whose result is handed out. -/
def delivers? : Answer → Option JobId
  | result id (.ok _) | awaited id (.ok _) => some id
  | _ => none

/-- The job whose result is handed out or whose failure is reported. -/
def settles? : Answer → Option JobId
  | status id (.ok (.failed _)) | awaited id (.error (.jobFailed _)) => some id
  | answer => answer.delivers?

def about? : Answer → Option JobId
  | status id _ | result id _ | awaited id _ => some id
  | refused _ | submitted _ => none

inductive NotFound : Answer → Prop where
  | status {id} : NotFound (status id (.error (.jobNotFound id)))
  | result {id} : NotFound (result id (.error (.jobNotFound id)))
  | awaited {id} : NotFound (awaited id (.error (.jobNotFound id)))

end Answer

/-- What a section can not know beforehand. -/
structure Choice where
  /-- The id of a new job. -/
  id : JobId
  moment : Nat
  /-- The random source of an execution. -/
  source : Random.ChaCha

/-- What a section leaves: the simulator, a job that is new, an answer, and how the call goes on. -/
structure Section where
  simulator : Simulator
  issued : Option JobId := none
  answer : Option Answer := none
  next : Option Stage := none

/-- How a waiting call goes on after it was told a status. -/
def waited (simulator : Simulator) (id : JobId) : Except ExecutionError JobStatus → Section
  | .ok .completed => { simulator, next := some (.collect id) }
  | .ok (.failed message) => { simulator, answer := some (.awaited id (.error (.jobFailed message))) }
  | .ok .queued | .ok .running => { simulator, next := some (.poll id) }
  | .error fault => { simulator, answer := some (.awaited id (.error fault)) }

def Stage.run (choice : Choice) (simulator : Simulator) : Stage → Section
  | validate circuit shots =>
    match simulator.validate circuit shots with
    | .error fault => { simulator, answer := some (.refused fault) }
    | .ok () => { simulator, next := some (.track circuit shots true) }
  | track circuit shots awaited =>
    let store := simulator.store.track choice.id shots simulator.capabilities.name
    { simulator := { simulator with store, submitted := simulator.submitted + 1 }
      issued := some choice.id
      next := some (.close choice.id circuit shots awaited) }
  | close id circuit shots awaited =>
    let (outcome, simulator) := { simulator with source := choice.source }.run circuit shots
    { simulator := { simulator with store := simulator.store.close id choice.moment outcome }
      answer := some (.submitted id)
      next := if awaited then some (.poll id) else none }
  | status id =>
    let (answer, store) := simulator.store.status id
    { simulator := { simulator with store }, answer := some (.status id answer) }
  | result id =>
    let (answer, store) := simulator.store.result id
    { simulator := { simulator with store }, answer := some (.result id answer) }
  | poll id =>
    let (answer, store) := simulator.store.status id
    waited { simulator with store } id answer
  | collect id =>
    let (answer, store) := simulator.store.result id
    { simulator := { simulator with store }, answer := some (.awaited id answer) }

end Service

/-- A simulator with the calls that are under way, and what happened so far. -/
structure Service where
  simulator : Simulator
  calls : List Service.Stage
  /-- The ids of the jobs that there were. -/
  issued : List JobId
  /-- What calls returned, the earliest answer first. -/
  answers : List Service.Answer

namespace Service

/-- Ids are new, and a seeded simulator always draws from the same source. -/
def Permits (service : Service) (choice : Choice) : Prop :=
  choice.id ∉ service.issued ∧
    (service.simulator.isSeeded = true → choice.source = service.simulator.source)

def note (service : Service) (done : Section) : Service :=
  { service with
    simulator := done.simulator
    issued := done.issued.toList ++ service.issued
    answers := service.answers ++ done.answer.toList }

/-- A call begins, or one that is under way goes on by a section. -/
inductive Step : Service → Service → Prop where
  | begin (service : Service) (request : Request) :
      Step service { service with calls := request.stage :: service.calls }
  | goOn {service : Service} {stage : Stage} {others : List Stage} {choice : Choice}
      (held : service.calls.Perm (stage :: others)) (permitted : service.Permits choice) :
      Step service { service.note (stage.run choice service.simulator) with
        calls := (stage.run choice service.simulator).next.toList ++ others }

/-- What any calls of any clients lead to, in any order of their sections. -/
inductive Reachable : Service → Prop where
  | opened {simulator : Simulator} (untouched : simulator.store = .empty) : Reachable ⟨simulator, [], [], []⟩
  | step {service next : Service} (reached : Reachable service) (step : Step service next) : Reachable next

end Service

end CircuitCloak

import CircuitCloak.Execution.Clients
import CircuitCloak.Proofs.TrackedJobs

/-! The sections of calls. A section looks at the jobs, tracks a new one, closes the execution of one, or
settles one by handing out its result or reporting its failure. -/

namespace CircuitCloak

namespace Service

variable {simulator : Simulator} {store : JobStore} {choice : Choice} {circuit : Circuit} {shots : Nat} {id : JobId}
  {tracked : TrackedJob}

theorem run_validate_of_error {fault : ExecutionError} (rejected : simulator.validate circuit shots = .error fault) :
    (Stage.validate circuit shots).run choice simulator = { simulator, answer := some (.refused fault) } := by
  simp only [Stage.run, rejected]

theorem run_validate_of_ok (admitted : simulator.validate circuit shots = .ok ()) :
    (Stage.validate circuit shots).run choice simulator = { simulator, next := some (.track circuit shots true) } := by
  simp only [Stage.run, admitted]

theorem run_close_store (simulator : Simulator) (choice : Choice) (id : JobId) (circuit : Circuit) (shots : Nat)
    (awaited : Bool) : ((Stage.close id circuit shots awaited).run choice simulator).simulator.store =
      simulator.store.close id choice.moment ({ simulator with source := choice.source }.run circuit shots).1 :=
  congrArg (fun store : JobStore => store.close id choice.moment _)
    (Simulator.run_store { simulator with source := choice.source } circuit shots)

theorem run_poll_completed (known : simulator.store.find? id = some tracked) (done : tracked.job.status = .completed) :
    (Stage.poll id).run choice simulator = { simulator, next := some (.collect id) } := by
  simp only [Stage.run, JobStore.status_of_completed known done]
  rfl

theorem run_poll_failed {message : String} (known : simulator.store.find? id = some tracked)
    (failed : tracked.job.status = .failed message) :
    (Stage.poll id).run choice simulator =
      { simulator := { simulator with store := simulator.store.erase id }
        answer := some (.awaited id (.error (.jobFailed message))) } := by
  simp only [Stage.run, JobStore.status_of_failed known failed]
  rfl

theorem run_collect {result : ExecutionResult} (known : simulator.store.find? id = some tracked)
    (has : tracked.result = some result) :
    (Stage.collect id).run choice simulator =
      { simulator := { simulator with store := simulator.store.erase id }, answer := some (.awaited id (.ok result)) } := by
  simp only [Stage.run, JobStore.result_of_some known has]

/-- The job that a section asks for. -/
def Stage.asks? : Stage → Option JobId
  | .status id | .result id | .poll id | .collect id => some id
  | _ => none

/-- A section that asks for a job that is not there says so, and that is all. -/
theorem run_of_absent {stage : Stage} (asks : stage.asks? = some id)
    (absent : simulator.store.find? id = none) (choice : Choice) :
    ∃ answer, stage.run choice simulator = { simulator, answer := some answer } ∧ answer.about? = some id ∧
      answer.NotFound := by
  cases stage with
  | validate | track | close => cases asks
  | status =>
    cases asks
    simp only [Stage.run, JobStore.status_of_absent absent]
    exact ⟨_, rfl, rfl, .status⟩
  | result =>
    cases asks
    simp only [Stage.run, JobStore.result_of_absent absent]
    exact ⟨_, rfl, rfl, .result⟩
  | poll =>
    cases asks
    simp only [Stage.run, JobStore.status_of_absent absent]
    exact ⟨_, rfl, rfl, .awaited⟩
  | collect =>
    cases asks
    simp only [Stage.run, JobStore.result_of_absent absent]
    exact ⟨_, rfl, rfl, .awaited⟩

theorem Answer.about_of_settles {answer : Answer} (settles : answer.settles? = some id) :
    answer.about? = some id := by
  cases answer with
  | refused | submitted => cases settles
  | status other outcome =>
    cases outcome with
    | error => cases settles
    | ok status => cases status <;> first | exact settles | cases settles
  | result other outcome => cases outcome <;> first | exact settles | cases settles
  | awaited other outcome =>
    cases outcome with
    | ok => exact settles
    | error fault => cases fault <;> first | exact settles | cases settles

theorem Answer.settles_of_delivers {answer : Answer} (delivers : answer.delivers? = some id) :
    answer.settles? = some id := by
  cases answer with
  | refused | submitted | status => cases delivers
  | result => exact delivers
  | awaited other outcome =>
    cases outcome with
    | ok => exact delivers
    | error => cases delivers

theorem Answer.NotFound.delivers {answer : Answer} (unfound : answer.NotFound) : answer.delivers? = none := by
  cases unfound <;> rfl

/-- The job whose execution ends with a section. -/
def Stage.executes? : Stage → Option JobId
  | .close id _ _ _ => some id
  | _ => none

/-- An answer that changes nothing: a job that is not there is not found. -/
structure Answer.Harmless (store : JobStore) (answer : Answer) : Prop where
  unsettling : answer.settles? = none
  other : ∀ id, answer ≠ .submitted id
  unfound : ∀ id, answer.about? = some id → store.find? id = none → answer.NotFound

/-- What a section does to the jobs, by the job whose execution it ends and the one that is executed next. -/
inductive Effect (store : JobStore) (choice : Choice) :
    Option JobId → JobStore → Option JobId → Option Answer → Option JobId → Prop where
  | looked {answer : Option Answer} (harmless : ∀ given ∈ answer, given.Harmless store) :
      Effect store choice none store none answer none
  | tracked {shots : Nat} {backend : String} :
      Effect store choice none (store.track choice.id shots backend) (some choice.id) none (some choice.id)
  | closed {id : JobId} {moment : Nat} {outcome : Except ExecutionError ExecutionResult} :
      Effect store choice (some id) (store.close id moment outcome) none (some (.submitted id)) none
  | settled {id : JobId} {tracked : TrackedJob} {answer : Answer} (known : store.find? id = some tracked)
      (ended : tracked.result ≠ none ∨ tracked.job.status ≠ .queued) (settles : answer.settles? = some id) :
      Effect store choice none (store.erase id) none (some answer) none

theorem effect_unanswered : Effect store choice none store none none none := .looked nofun

theorem effect_absent {answer : Answer} (unsettling : answer.settles? = none) (unfound : answer.NotFound) :
    Effect store choice none store none (some answer) none := by
  refine .looked fun given same => ?_
  cases same
  refine ⟨unsettling, fun id same => ?_, fun _ _ _ => unfound⟩
  subst same
  cases unfound

theorem effect_known (known : store.find? id = some tracked) {answer : Answer}
    (unsettling : answer.settles? = none) (about : answer.about? = some id) :
    Effect store choice none store none (some answer) none := by
  refine .looked fun given same => ?_
  cases same
  refine ⟨unsettling, fun id same => ?_, fun other asked absent => ?_⟩
  · subst same
    cases about
  · cases about.symm.trans asked
    exact absurd (known.symm.trans absent) nofun

theorem effect_status {answer} (told : store.StatusOf id answer) :
    Effect store choice none answer.2 none (some (.status id answer.1)) none := by
  cases told with
  | absent => exact effect_absent rfl .status
  | reported known failed => exact .settled known (.inr (failed ▸ nofun)) rfl
  | @told tracked known unfailed =>
    refine effect_known known ?_ rfl
    cases status : tracked.job.status with
    | failed message => exact absurd status (unfailed message)
    | queued | running | completed => rfl

theorem effect_result {answer} {reply : Except ExecutionError ExecutionResult → Answer}
    (replies : reply = .result id ∨ reply = .awaited id) (given : store.ResultOf id answer) :
    Effect store choice none answer.2 none (some (reply answer.1)) none := by
  cases given with
  | absent =>
    rcases replies with rfl | rfl
    · exact effect_absent rfl .result
    · exact effect_absent rfl .awaited
  | handed known has => exact .settled known (.inl (has ▸ nofun)) (by rcases replies with rfl | rfl <;> rfl)
  | missing known => rcases replies with rfl | rfl <;> exact effect_known known rfl rfl

theorem effect_poll {answer} (told : store.StatusOf id answer) (simulator : Simulator) :
    Effect store choice none answer.2 none (waited simulator id answer.1).answer
      ((waited simulator id answer.1).next.bind Stage.executes?) := by
  cases told with
  | absent => exact effect_absent rfl .awaited
  | reported known failed => exact .settled known (.inr (failed ▸ nofun)) rfl
  | @told tracked known unfailed =>
    cases status : tracked.job.status with
    | failed message => exact absurd status (unfailed message)
    | queued | running | completed => exact effect_unanswered

theorem waited_simulator (simulator : Simulator) (id : JobId) (answer : Except ExecutionError JobStatus) :
    (waited simulator id answer).simulator = simulator ∧ (waited simulator id answer).issued = none := by
  cases answer with
  | error => exact ⟨rfl, rfl⟩
  | ok status => cases status <;> exact ⟨rfl, rfl⟩

/-- Every section of every call has one of the four effects. -/
theorem effect_run (choice : Choice) (simulator : Simulator) (stage : Stage) :
    Effect simulator.store choice stage.executes? (stage.run choice simulator).simulator.store
      (stage.run choice simulator).issued (stage.run choice simulator).answer
      ((stage.run choice simulator).next.bind Stage.executes?) := by
  cases stage with
  | validate circuit shots =>
    simp only [Stage.run]
    cases simulator.validate circuit shots with
    | error fault =>
      refine .looked fun given same => ?_
      obtain rfl := Option.mem_some.mp same
      exact ⟨rfl, nofun, nofun⟩
    | ok => exact effect_unanswered
  | track circuit shots awaited => exact .tracked
  | close id circuit shots awaited =>
    rw [run_close_store]
    cases awaited <;> exact .closed
  | status id => exact effect_status (simulator.store.statusOf_status id)
  | result id => exact effect_result (.inl rfl) (simulator.store.resultOf_result id)
  | poll id =>
    have kept := waited_simulator { simulator with store := (simulator.store.status id).2 } id (simulator.store.status id).1
    simp only [Stage.run, kept]
    exact effect_poll (simulator.store.statusOf_status id) _
  | collect id => exact effect_result (.inr rfl) (simulator.store.resultOf_result id)

end Service

end CircuitCloak

import CircuitCloak.Proofs.CallSections
import Mathlib.Data.Fintype.EquivFin

/-! A call that no other call comes between. Whatever its sections may choose, an execution comes to its
end, and the jobs are then those that it found. -/

namespace CircuitCloak

namespace Service

variable {goal : Service → Prop} {service current : Service} {simulator : Simulator} {choice : Choice}
  {circuit : Circuit} {shots : Nat} {id : JobId} {tracked : TrackedJob}

theorem exists_permitted (service : Service) : ∃ choice, service.Permits choice := by
  have endless : Infinite JobId := .of_injective JobId.issued fun _ _ => JobId.issued.inj
  obtain ⟨id, fresh⟩ := Infinite.exists_notMem_finset service.issued.toFinset
  exact ⟨⟨id, 0, service.simulator.source⟩, fun member => fresh (List.mem_toFinset.mpr member), fun _ => rfl⟩

/-- A call at some stage, with no other between its sections, returns in the end, and the goal is reached
by then. -/
inductive Alone (goal : Service → Prop) : Service → Stage → Prop where
  | intro {service : Service} {stage : Stage} (possible : ∃ choice, service.Permits choice)
      (returns : ∀ choice, service.Permits choice → (stage.run choice service.simulator).next = none →
        goal (service.note (stage.run choice service.simulator)))
      (goesOn : ∀ choice next, service.Permits choice → (stage.run choice service.simulator).next = some next →
        Alone goal (service.note (stage.run choice service.simulator)) next) : Alone goal service stage

theorem alone_of_returns {stage : Stage} (returns : ∀ choice, service.Permits choice →
    (stage.run choice service.simulator).next = none ∧ goal (service.note (stage.run choice service.simulator))) :
    Alone goal service stage := by
  refine .intro service.exists_permitted (fun choice permitted _ => (returns choice permitted).2) ?_
  intro choice next permitted onward
  exact nomatch (returns choice permitted).1.symm.trans onward

theorem alone_of_next {stage : Stage} (goesOn : ∀ choice, service.Permits choice →
    ∃ next, (stage.run choice service.simulator).next = some next ∧
      Alone goal (service.note (stage.run choice service.simulator)) next) : Alone goal service stage := by
  refine .intro service.exists_permitted ?_ ?_
  · intro choice permitted halted
    obtain ⟨next, onward, _⟩ := goesOn choice permitted
    exact nomatch onward.symm.trans halted
  · intro choice next permitted onward
    obtain ⟨other, same, alone⟩ := goesOn choice permitted
    cases same.symm.trans onward
    exact alone

theorem reachable_of_alone {stage : Stage} (alone : Alone goal service stage)
    (reached : Reachable { service with calls := stage :: service.calls }) :
    ∃ after, Reachable after ∧ after.calls = service.calls ∧ goal after := by
  induction alone with
  | @intro service stage possible returns _ ih =>
    obtain ⟨choice, permitted⟩ := possible
    have done : Reachable { service.note (stage.run choice service.simulator) with
        calls := (stage.run choice service.simulator).next.toList ++ service.calls } :=
      reached.step (.goOn (.refl _) permitted)
    cases onward : (stage.run choice service.simulator).next with
    | none =>
      rw [onward] at done
      exact ⟨_, done, rfl, returns choice permitted onward⟩
    | some next =>
      rw [onward] at done
      exact ih choice next permitted onward done

/-- What is returned where an execution is undisturbed: why it was not admitted, its result, or its failure. -/
inductive Executed (simulator : Simulator) (circuit : Circuit) (shots : Nat) : List Answer → Prop where
  | refused {fault : ExecutionError} (rejected : simulator.validate circuit shots = .error fault) :
      Executed simulator circuit shots [.refused fault]
  | completed {id : JobId} {source : Random.ChaCha} {result : ExecutionResult}
      (admitted : simulator.validate circuit shots = .ok ())
      (ran : ({ simulator with source }.run circuit shots).1 = .ok result) :
      Executed simulator circuit shots [.submitted id, .awaited id (.ok result)]
  | failed {id : JobId} {source : Random.ChaCha} {fault : ExecutionError}
      (admitted : simulator.validate circuit shots = .ok ())
      (ran : ({ simulator with source }.run circuit shots).1 = .error fault) :
      Executed simulator circuit shots [.submitted id, .awaited id (.error (.jobFailed fault.message))]

/-- The jobs after an execution are those before it. -/
structure Traceless (circuit : Circuit) (shots : Nat) (service after : Service) : Prop where
  store : after.simulator.store = service.simulator.store
  answers : ∃ answers, Executed service.simulator circuit shots answers ∧ after.answers = service.answers ++ answers

/-- A service whose last job has just ended, and is awaited. -/
structure Ended (circuit : Circuit) (shots : Nat) (service : Service) (id : JobId) (tracked : TrackedJob)
    (current : Service) : Prop where
  absent : service.simulator.store.find? id = none
  store : current.simulator.store = service.simulator.store.insert id tracked
  answers : current.answers = service.answers ++ [.submitted id]

namespace Ended

theorem known (ended : Ended circuit shots service id tracked current) :
    current.simulator.store.find? id = some tracked := by
  rw [ended.store]
  exact JobStore.find?_insert_self

theorem forgotten (ended : Ended circuit shots service id tracked current) :
    current.simulator.store.erase id = service.simulator.store := by
  rw [ended.store, JobStore.erase_insert, JobStore.erase_eq_self ended.absent]

theorem traceless {outcome : Except ExecutionError ExecutionResult} (ended : Ended circuit shots service id tracked current)
    (executed : Executed service.simulator circuit shots [.submitted id, .awaited id outcome]) :
    Traceless circuit shots service (current.note
      { simulator := { current.simulator with store := current.simulator.store.erase id }
        answer := some (.awaited id outcome) }) := by
  refine ⟨ended.forgotten, _, executed, ?_⟩
  change current.answers ++ [.awaited id outcome] = _
  rw [ended.answers, List.append_assoc]
  rfl

end Ended

theorem alone_poll_completed {result : ExecutionResult} (ended : Ended circuit shots service id tracked current)
    (done : tracked.job.status = .completed) (has : tracked.result = some result)
    (executed : Executed service.simulator circuit shots [.submitted id, .awaited id (.ok result)]) :
    Alone (Traceless circuit shots service) current (.poll id) := by
  refine alone_of_next fun choice _ => ?_
  rw [run_poll_completed ended.known done]
  have same : current.note { simulator := current.simulator, next := some (.collect id) } = current := by
    simp [note]
  rw [same]
  refine ⟨_, rfl, alone_of_returns fun choice _ => ?_⟩
  rw [run_collect ended.known has]
  exact ⟨rfl, ended.traceless executed⟩

theorem alone_poll_failed {message : String} (ended : Ended circuit shots service id tracked current)
    (failed : tracked.job.status = .failed message)
    (executed : Executed service.simulator circuit shots [.submitted id, .awaited id (.error (.jobFailed message))]) :
    Alone (Traceless circuit shots service) current (.poll id) := by
  refine alone_of_returns fun choice _ => ?_
  rw [run_poll_failed ended.known failed]
  exact ⟨rfl, ended.traceless executed⟩

theorem alone_close (admitted : service.simulator.validate circuit shots = .ok ())
    (absent : service.simulator.store.find? id = none) {backend : String}
    (store : current.simulator.store = service.simulator.store.track id shots backend)
    (answers : current.answers = service.answers) :
    Alone (Traceless circuit shots service) current (.close id circuit shots true) := by
  refine alone_of_next fun choice _ => ⟨.poll id, rfl, ?_⟩
  have ended (outcome) (ran : ({ current.simulator with source := choice.source }.run circuit shots).1 = outcome) :
      Ended circuit shots service id (JobStore.TrackedJob.finish ⟨{ id, shots, backend }, none⟩ choice.moment outcome)
        (current.note ((Stage.close id circuit shots true).run choice current.simulator)) := by
    refine ⟨absent, (run_close_store current.simulator choice id circuit shots true).trans ?_, congrArg (· ++ _) answers⟩
    rw [ran, store, JobStore.close_track]
  have same : ({ current.simulator with source := choice.source }.run circuit shots).1 =
      ({ service.simulator with source := choice.source }.run circuit shots).1 := rfl
  cases ran : ({ service.simulator with source := choice.source }.run circuit shots).1 with
  | ok result => exact alone_poll_completed (ended _ (same.trans ran)) rfl rfl (.completed admitted ran)
  | error fault => exact alone_poll_failed (ended _ (same.trans ran)) rfl (.failed admitted ran)

/-- An execution that no other call comes between returns, and leaves the jobs as it found them. -/
theorem alone_execute (known : ∀ id, id ∉ service.issued → service.simulator.store.find? id = none)
    (circuit : Circuit) (shots : Nat) : Alone (Traceless circuit shots service) service (.validate circuit shots) := by
  cases admitted : service.simulator.validate circuit shots with
  | error fault =>
    refine alone_of_returns fun choice _ => ?_
    rw [run_validate_of_error admitted]
    exact ⟨rfl, rfl, _, .refused admitted, rfl⟩
  | ok =>
    refine alone_of_next fun choice _ => ⟨.track circuit shots true, ?_⟩
    rw [run_validate_of_ok admitted]
    refine ⟨rfl, alone_of_next fun choice permitted => ⟨_, rfl, ?_⟩⟩
    refine alone_close admitted (known _ permitted.1) rfl ?_
    simp [note, Stage.run]

theorem run_status (simulator : Simulator) (id : JobId) : (Simulator.status id).run.run simulator =
    ((simulator.store.status id).1, { simulator with store := (simulator.store.status id).2 }) := rfl

theorem run_result (simulator : Simulator) (id : JobId) : (Simulator.result id).run.run simulator =
    ((simulator.store.result id).1, { simulator with store := (simulator.store.result id).2 }) := rfl

/-- A submission is its two sections. -/
theorem run_submit (simulator : Simulator) (circuit : Circuit) (shots : Nat) (awaited : Bool) :
    let choice : Choice := ⟨.issued simulator.submitted, simulator.submitted, simulator.source⟩
    let tracked := ((Stage.track circuit shots awaited).run choice simulator).simulator
    (Simulator.submit circuit shots).run.run simulator =
      (.ok choice.id, ((Stage.close choice.id circuit shots awaited).run choice tracked).simulator) := by
  obtain ⟨capabilities, store, source, isSeeded, submitted⟩ := simulator
  cases isSeeded <;> rfl

theorem run_submit_store (simulator : Simulator) (circuit : Circuit) (shots : Nat) :
    ((Simulator.submit circuit shots).run.run simulator).2.store = simulator.store.insert (.issued simulator.submitted)
      (JobStore.TrackedJob.finish ⟨{ id := .issued simulator.submitted, shots, backend := simulator.capabilities.name }, none⟩
        simulator.submitted (simulator.run circuit shots).1) := by
  rw [run_submit simulator circuit shots true]
  exact (run_close_store _ _ _ circuit shots true).trans (JobStore.close_track ..)

theorem run_wait_completed {result : ExecutionResult} (known : simulator.store.find? id = some tracked)
    (done : tracked.job.status = .completed) (has : tracked.result = some result) :
    (Simulator.wait id).run.run simulator =
      (.ok result, { simulator with store := simulator.store.erase id }) := by
  unfold Simulator.wait
  rw [ExceptT.run_bind, StateT.run_bind, run_status, JobStore.status_of_completed known done]
  refine (run_result simulator id).trans ?_
  rw [JobStore.result_of_some known has]

theorem run_wait_failed {message : String} (known : simulator.store.find? id = some tracked)
    (failed : tracked.job.status = .failed message) :
    (Simulator.wait id).run.run simulator =
      (.error (.jobFailed message), { simulator with store := simulator.store.erase id }) := by
  unfold Simulator.wait
  rw [ExceptT.run_bind, StateT.run_bind, run_status, JobStore.status_of_failed known failed]
  rfl

theorem run_execute (simulator : Simulator) (circuit : Circuit) (shots : Nat) :
    (Simulator.execute circuit shots).run.run simulator =
      match simulator.validate circuit shots with
      | .error fault => (.error fault, simulator)
      | .ok () =>
        (Simulator.wait (.issued simulator.submitted)).run.run ((Simulator.submit circuit shots).run.run simulator).2 := by
  have start : (Simulator.execute circuit shots).run.run simulator =
      ((simulator.validate circuit shots : Simulator.Call Unit) >>= fun _ =>
        Simulator.submit circuit shots >>= Simulator.wait).run.run simulator := rfl
  rw [start]
  cases simulator.validate circuit shots <;> rfl

/-- An admitted program is executed by one run, and its job is forgotten afterwards. -/
theorem run_execute_of_admitted (admitted : simulator.validate circuit shots = .ok ()) :
    (Simulator.execute circuit shots).run.run simulator =
      ((simulator.run circuit shots).1.mapError (.jobFailed ·.message),
        { ((Simulator.submit circuit shots).run.run simulator).2 with
          store := ((Simulator.submit circuit shots).run.run simulator).2.store.erase (.issued simulator.submitted) }) := by
  rw [run_execute, admitted]
  have submitted := run_submit_store simulator circuit shots
  generalize ((Simulator.submit circuit shots).run.run simulator).2 = after at submitted ⊢
  have known := (congrArg (·.find? (.issued simulator.submitted)) submitted).trans JobStore.find?_insert_self
  cases ran : (simulator.run circuit shots).1 with
  | ok result =>
    rw [ran] at known
    exact run_wait_completed known rfl rfl
  | error fault =>
    rw [ran] at known
    exact run_wait_failed known rfl

/-- An execution leaves the jobs of a simulator as it found them, whatever becomes of it. -/
theorem execute_store (absent : simulator.store.find? (.issued simulator.submitted) = none) (circuit : Circuit)
    (shots : Nat) : ((Simulator.execute circuit shots).run.run simulator).2.store = simulator.store := by
  cases admitted : simulator.validate circuit shots with
  | error =>
    rw [run_execute, admitted]
  | ok =>
    rw [run_execute_of_admitted admitted]
    change (((Simulator.submit circuit shots).run.run simulator).2.store).erase _ = simulator.store
    rw [run_submit_store, JobStore.erase_insert, JobStore.erase_eq_self absent]

theorem execute_ok_iff {result : ExecutionResult} :
    ((Simulator.execute circuit shots).run.run simulator).1 = .ok result ↔
      simulator.validate circuit shots = .ok () ∧ (simulator.run circuit shots).1 = .ok result := by
  cases admitted : simulator.validate circuit shots with
  | error fault =>
    rw [run_execute, admitted]
    exact ⟨nofun, nofun⟩
  | ok =>
    rw [run_execute_of_admitted admitted]
    cases (simulator.run circuit shots).1 with
    | ok finished => exact ⟨fun same => ⟨rfl, same⟩, fun both => both.2⟩
    | error fault => exact ⟨nofun, nofun⟩

end Service

end CircuitCloak

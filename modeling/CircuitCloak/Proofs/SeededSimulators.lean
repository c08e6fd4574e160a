import CircuitCloak.Execution.Clients
import CircuitCloak.Proofs.Admission
import CircuitCloak.Proofs.RecordedShots
import CircuitCloak.Proofs.SharedObservations

/-! Simulators that were made with a seed. No call changes what they draw from, and a new job has an id that no job has;
so an execution returns what it would return at first, whatever there was before it, with each of its shots. -/

namespace CircuitCloak

variable {circuit : Circuit} {shots seed : Nat} {α β : Type}

namespace Simulator

/-- Whatever comes of a call, the simulator has the property afterwards. -/
def Keeps (property : Simulator → Prop) (call : Call α) : Prop :=
  ∀ simulator, property simulator → property (call.run.run simulator).2

namespace Keeps

variable {property : Simulator → Prop}

theorem throw (fault : ExecutionError) : Keeps property (MonadExcept.throw fault : Call α) :=
  fun _ held => held

theorem bind {call : Call α} {next : α → Call β} (first : Keeps property call)
    (later : ∀ value, Keeps property (next value)) : Keeps property (call >>= next) := by
  intro simulator held
  rw [ExceptT.run_bind, StateT.run_bind]
  have kept := first simulator held
  generalize call.run.run simulator = done at kept ⊢
  obtain ⟨answer, after⟩ := done
  cases answer with
  | ok value => exact later value after kept
  | error fault => exact kept

end Keeps

/-- A simulator that was made with a seed and has its next ids for new jobs. -/
structure Seeded (seed : Nat) (simulator : Simulator) : Prop where
  capabilities : simulator.capabilities = .simulator defaultQubits
  source : simulator.source = .ofSeed (UInt64.ofNat seed)
  isSeeded : simulator.isSeeded = true
  unissued : ∀ number, simulator.submitted ≤ number → simulator.store.find? (.issued number) = none

theorem seeded_seeded (seed : Nat) : (seeded seed).Seeded seed := ⟨rfl, rfl, rfl, fun _ _ => rfl⟩

/-- A submission to a seeded simulator changes the jobs and their number only. -/
theorem run_submit_of_seeded {simulator : Simulator} (same : simulator.isSeeded = true) :
    ((submit circuit shots).run.run simulator).2 =
      { simulator with
        store := ((submit circuit shots).run.run simulator).2.store
        submitted := simulator.submitted + 1 } := by
  obtain ⟨capabilities, store, source, isSeeded, submitted⟩ := simulator
  cases same
  rfl

theorem keeps_submit : Keeps (Seeded seed) (submit circuit shots) := by
  intro simulator held
  rw [run_submit_of_seeded held.isSeeded, Service.run_submit_store]
  refine ⟨held.capabilities, held.source, held.isSeeded, fun number later => ?_⟩
  have other : JobId.issued number ≠ .issued simulator.submitted :=
    fun same => absurd later (JobId.issued.inj same ▸ Nat.not_succ_le_self _)
  exact (JobStore.find?_insert_of_ne other).trans (held.unissued number (Nat.le_of_succ_le later))

/-- What asks the store for no new job keeps the simulator seeded. -/
theorem keeps_onStore {step : JobStore → Except ExecutionError α × JobStore}
    (known : ∀ store id, store.find? id = none → (step store).2.find? id = none) :
    Keeps (Seeded seed) (onStore step) := by
  intro simulator held
  exact ⟨held.capabilities, held.source, held.isSeeded, fun number later => known _ _ (held.unissued number later)⟩

theorem keeps_status (id : JobId) : Keeps (Seeded seed) (status id) := by
  refine keeps_onStore fun store other absent => ?_
  have told := store.statusOf_status id
  generalize store.status id = answer at told ⊢
  cases told with
  | absent | told => exact absent
  | reported => exact JobStore.find?_erase_eq_none absent

theorem keeps_result (id : JobId) : Keeps (Seeded seed) (result id) := by
  refine keeps_onStore fun store other absent => ?_
  have given := store.resultOf_result id
  generalize store.result id = answer at given ⊢
  cases given with
  | handed => exact JobStore.find?_erase_eq_none absent
  | _ => exact absent

theorem keeps_wait (id : JobId) : Keeps (Seeded seed) (wait id) := by
  refine (keeps_status id).bind fun status => ?_
  cases status with
  | completed => exact keeps_result id
  | failed | queued | running => exact .throw _

theorem keeps_execute : Keeps (Seeded seed) (execute circuit shots) := by
  intro simulator held
  rw [Service.run_execute]
  split
  · exact held
  · exact keeps_wait _ _ (keeps_submit simulator held)

/-- The simulator after a call that no other comes between. -/
def after (simulator : Simulator) : Service.Request → Simulator
  | .submit circuit shots => ((submit circuit shots).run.run simulator).2
  | .status id => ((status id).run.run simulator).2
  | .result id => ((result id).run.run simulator).2
  | .wait id => ((wait id).run.run simulator).2
  | .execute circuit shots => ((execute circuit shots).run.run simulator).2

theorem Seeded.after {simulator : Simulator} (held : simulator.Seeded seed) (request : Service.Request) :
    (simulator.after request).Seeded seed := by
  cases request with
  | submit circuit shots => exact keeps_submit simulator held
  | status id => exact keeps_status id simulator held
  | result id => exact keeps_result id simulator held
  | wait id => exact keeps_wait id simulator held
  | execute circuit shots => exact keeps_execute simulator held

theorem seeded_foldl (seed : Nat) (earlier : List Service.Request) : (earlier.foldl after (seeded seed)).Seeded seed :=
  List.foldlRecOn earlier _ (seeded_seeded seed) fun _ held request _ => held.after request

def outcome (simulator : Simulator) (circuit : Circuit) (shots : Nat) : Except ExecutionError ExecutionResult :=
  ((execute circuit shots).run.run simulator).1

theorem outcome_of_admitted {simulator : Simulator} (admitted : simulator.validate circuit shots = .ok ()) :
    simulator.outcome circuit shots = (simulator.run circuit shots).1.mapError (.jobFailed ·.message) := by
  rw [outcome, Service.run_execute_of_admitted admitted]

/-- Neither earlier jobs nor their number show in what an execution returns. -/
theorem Seeded.outcome {simulator : Simulator} (held : simulator.Seeded seed) (circuit : Circuit) (shots : Nat) :
    simulator.outcome circuit shots = (seeded seed).outcome circuit shots := by
  have checked : simulator.validate circuit shots = (seeded seed).validate circuit shots := by
    unfold validate
    rw [held.capabilities]
    rfl
  have ran : (simulator.run circuit shots).1 = ((seeded seed).run circuit shots).1 := by
    unfold run
    rw [held.source]
    rfl
  cases admitted : simulator.validate circuit shots with
  | error fault =>
    rw [Simulator.outcome, Simulator.outcome, Service.run_execute, Service.run_execute, ← checked, admitted]
  | ok => rw [outcome_of_admitted admitted, outcome_of_admitted (checked ▸ admitted), ran]

structure Holds (seed : Nat) (store : JobStore) (simulator : Simulator) : Prop where
  seeded : simulator.Seeded seed
  store : simulator.store = store

theorem keeps_execute_holds {store : JobStore} : Keeps (Holds seed store) (execute circuit shots) := by
  intro simulator held
  have unissued := held.seeded.unissued _ (Nat.le_refl _)
  exact ⟨keeps_execute simulator held.seeded, (Service.execute_store unissued circuit shots).trans held.store⟩

end Simulator

/-- A histogram that holds each of the shots, every outcome once. -/
structure Counts.Complete (shots : Nat) (counts : Counts) : Prop where
  total : counts.total.toNat = shots
  distinct : counts.Distinct

namespace Circuit

open CircuitCloak.Random

variable {σ : Type} [WordSource σ]

theorem ascending_countsOfTally (wiring : List (Nat × Nat)) (numClbits : Nat) (tally : Array Nat) :
    (countsOfTally wiring numClbits tally).Ascending := by
  refine List.foldlRecOn _ _ Counts.ascending_empty fun counts ascending entry _ => ?_
  split
  · exact ascending
  · exact ascending.insert _ _

theorem ascending_runShots (shots : Nat) {counts : Counts} (ascending : counts.Ascending) :
    Always (circuit.runShots shots counts : Draw σ Counts) Counts.Ascending := by
  induction shots generalizing counts with
  | zero => exact Always.pure ascending
  | succ shots ih => exact Always.bind (Always.trivial _) fun bits _ => ih (ascending.insert _ _)

theorem complete_sampleAtEnd (word : shots < 2 ^ 64) :
    Always (circuit.sampleAtEnd shots : ExceptT ExecutionError (Draw σ) Counts).run
      fun outcome => ∀ counts, outcome = .ok counts → counts.Complete shots := by
  cases made : circuit.finalWeights with
  | error fault =>
    unfold finalWeights at made
    simp only [sampleAtEnd, made]
    intro source counts same
    cases same
  | ok weights =>
    have tallied : Always (circuit.sampleAtEnd shots : ExceptT ExecutionError (Draw σ) Counts).run
        fun outcome => ∃ counts, outcome = .ok counts ∧ counts.Tallies (fun _ => True) shots :=
      sampleAtEnd_tallies made (Always.trivial _) (fun _ _ => trivial) word
    unfold finalWeights at made
    simp only [sampleAtEnd, made] at tallied ⊢
    intro source counts same
    obtain ⟨_, again, tallies⟩ := tallied source
    cases same.symm.trans again
    cases same
    exact ⟨tallies.total word, (ascending_countsOfTally ..).distinct⟩

theorem complete_runShots (word : shots < 2 ^ 64) :
    Always (circuit.runShots shots .empty : Draw σ Counts) (Counts.Complete shots) := by
  have tallied : Always (circuit.runShots shots .empty : Draw σ Counts) (Counts.Tallies (fun _ => True) (0 + shots)) :=
    runShots_tallies (Always.trivial _) .empty ((Nat.zero_add shots).symm ▸ word)
  rw [Nat.zero_add] at tallied
  intro source
  exact ⟨(tallied source).total word, (ascending_runShots shots Counts.ascending_empty source).distinct⟩

/-- Every shot is counted, also of a circuit that does not fit its registers: of the outcomes nothing is asked here. -/
theorem complete_execute (word : shots < 2 ^ 64) :
    Always (circuit.execute shots : ExceptT ExecutionError (Draw σ) Counts).run
      fun outcome => ∀ counts, outcome = .ok counts → counts.Complete shots := by
  unfold execute
  split
  next => exact complete_sampleAtEnd word
  next =>
    intro source counts same
    cases same
    exact complete_runShots word source

end Circuit

/-- What an execution by a seeded simulator returns has every shot, of which there are some and not too many. -/
theorem Simulator.complete_of_outcome {result : ExecutionResult}
    (returned : (Simulator.seeded seed).outcome circuit shots = .ok result) :
    result.counts.Complete shots ∧ 1 ≤ shots ∧ shots ≤ 1000000 := by
  obtain ⟨admitted, ran⟩ := Service.execute_ok_iff.mp returned
  have admits := validate_ok_iff.mp admitted
  have bounded : shots ≤ 1000000 := admits.bounded
  refine ⟨?_, admits.positive, bounded⟩
  have complete : ∀ counts, ((circuit.execute shots).run.run (seeded seed).source).1 = .ok counts →
      counts.Complete shots := Circuit.complete_execute (by omega) (seeded seed).source
  have same : ((circuit.execute shots).run.run (seeded seed).source).1.map (⟨·, shots⟩) = .ok result := ran
  generalize ((circuit.execute shots).run.run (seeded seed).source).1 = answer at complete same
  cases answer with
  | error fault => cases same
  | ok counts =>
    cases same
    exact complete counts rfl

end CircuitCloak

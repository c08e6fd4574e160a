import CircuitCloak.Proofs.DrawOutcomes
import CircuitCloak.Proofs.Fitting
import CircuitCloak.Proofs.Histograms
import CircuitCloak.Proofs.Motions
import CircuitCloak.Proofs.UndisturbedCalls

/-! What executions record. A register is as long as the circuit says from its first bit to the last write, and
writes reach the targets of measurements only; every sampled index lies in the tally. So no shot is lost between
the random source and the histogram, whichever way the shots are run. -/

namespace CircuitCloak

open CircuitCloak.Random

variable {circuit : Circuit} {bits : List Bool} {clbit shots : Nat}

namespace Circuit

/-- Some measurement writes the classical bit. -/
def Targets (circuit : Circuit) (clbit : Nat) : Prop :=
  ∃ instruction ∈ circuit.measurements, clbit ∈ instruction.clbits

theorem lt_of_targets (fits : circuit.Fits) (targeted : circuit.Targets clbit) : clbit < circuit.numClbits := by
  obtain ⟨instruction, measured, named⟩ := targeted
  exact (fits instruction (List.mem_filter.mp measured).1).clbits clbit named

/-- A classical register in which nothing but targets of measurements is set. -/
structure Register (circuit : Circuit) (bits : List Bool) : Prop where
  length : bits.length = circuit.numClbits
  clear : ∀ clbit < circuit.numClbits, ¬circuit.Targets clbit → bits[clbit]? = some false

theorem register_replicate (circuit : Circuit) : circuit.Register (List.replicate circuit.numClbits false) := by
  refine ⟨List.length_replicate, fun clbit inside _ => ?_⟩
  rw [List.getElem?_replicate, if_pos inside]

theorem Register.set (register : circuit.Register bits) (targeted : circuit.Targets clbit) (value : Bool) :
    circuit.Register (bits.set clbit value) := by
  refine ⟨List.length_set.trans register.length, fun other inside untouched => ?_⟩
  have different : clbit ≠ other := fun same => untouched (same ▸ targeted)
  rw [List.getElem?_set_ne different]
  exact register.clear other inside untouched

structure Records (circuit : Circuit) (text : String) : Prop where
  length : text.length = circuit.numClbits
  clear : ∀ clbit < circuit.numClbits, ¬circuit.Targets clbit → text.toList[clbit]? = some '0'

theorem Register.records (register : circuit.Register bits) : circuit.Records (bitText bits) := by
  unfold bitText
  refine ⟨?_, fun clbit inside untouched => ?_⟩
  · rw [String.length_ofList, List.length_map, register.length]
  · rw [String.toList_ofList, List.getElem?_map, register.clear clbit inside untouched]
    rfl

end Circuit

def writeBit? (bits : List Bool) (clbit : Nat) (value : Bool) : Option (List Bool) :=
  if clbit < bits.length then some (bits.set clbit value) else none

theorem Circuit.Register.writeBit? (register : circuit.Register bits) (fits : circuit.Fits)
    (targeted : circuit.Targets clbit) (value : Bool) : writeBit? bits clbit value = some (bits.set clbit value) :=
  if_pos (register.length ▸ Circuit.lt_of_targets fits targeted)

/-- As `recordedBits`, with every write checked. -/
def recordedBits? (wiring : List (Nat × Nat)) (numClbits index : Nat) : Option (List Bool) :=
  wiring.foldlM (fun bits wire => writeBit? bits wire.2 (index.testBit wire.1)) (List.replicate numClbits false)

namespace Circuit

theorem targets_of_wiring {wire : Nat × Nat} (member : wire ∈ circuit.wiring) : circuit.Targets wire.2 := by
  obtain ⟨instruction, measured, within⟩ := List.mem_flatMap.mp member
  cases instruction with
  | measure qubits clbits => exact ⟨_, measured, (List.of_mem_zip within).2⟩
  | gate => cases within
  | reset => cases within
  | barrier => cases within

theorem recordedBits_checked (fits : circuit.Fits) (index : Nat) :
    recordedBits? circuit.wiring circuit.numClbits index = some (recordedBits circuit.wiring circuit.numClbits index) ∧
      circuit.Register (recordedBits circuit.wiring circuit.numClbits index) := by
  have targeted : ∀ wire ∈ circuit.wiring, circuit.Targets wire.2 := fun wire => targets_of_wiring
  unfold recordedBits? recordedBits
  generalize circuit.wiring = wires at targeted
  have register := circuit.register_replicate
  generalize List.replicate circuit.numClbits false = bits at register
  induction wires generalizing bits with
  | nil => exact ⟨rfl, register⟩
  | cons wire wires ih =>
    obtain ⟨first, others⟩ := List.forall_mem_cons.mp targeted
    rw [List.foldlM_cons, register.writeBit? fits first]
    exact ih others _ (register.set first _)

end Circuit

section Checked

variable {σ α β : Type}

/-- A computation that may fail does not: it draws and returns what another does, always with some property. -/
structure Checked (checked : OptionT (Draw σ) α) (plain : Draw σ α) (property : α → Prop) : Prop where
  same : checked.run = some <$> plain
  always : Always plain property

namespace Checked

variable {property : α → Prop}

theorem pure {value : α} (holds : property value) :
    Checked (Pure.pure value : OptionT (Draw σ) α) (Pure.pure value) property :=
  ⟨rfl, Always.pure holds⟩

theorem lift {plain : Draw σ α} (always : Always plain property) : Checked (OptionT.lift plain) plain property :=
  ⟨rfl, always⟩

theorem bind {checked : OptionT (Draw σ) α} {plain : Draw σ α} {checkedNext : α → OptionT (Draw σ) β}
    {next : α → Draw σ β} {final : β → Prop} (first : Checked checked plain property)
    (resume : ∀ value, property value → Checked (checkedNext value) (next value) final) :
    Checked (checked >>= checkedNext) (plain >>= next) final := by
  refine ⟨?_, Always.bind first.always fun value holds => (resume value holds).always⟩
  rw [OptionT.run_bind, first.same]
  funext source
  exact congrFun (resume _ (first.always source)).same _

theorem foldlM {items : List β} {checkedStep : α → β → OptionT (Draw σ) α} {step : α → β → Draw σ α} {start : α}
    (initial : property start) (steps : ∀ value item, item ∈ items → property value →
      Checked (checkedStep value item) (step value item) property) :
    Checked (items.foldlM checkedStep start) (items.foldlM step start) property := by
  induction items generalizing start with
  | nil => exact pure initial
  | cons item items ih =>
    rw [List.foldlM_cons, List.foldlM_cons]
    refine bind (steps start item List.mem_cons_self initial) fun value holds => ?_
    exact ih holds fun other later member => steps other later (List.mem_cons_of_mem _ member)

end Checked

end Checked

section Shots

variable {σ α ρ : Type} [Zero α] [Weight ρ] [Amplitude α ρ] (toss : ρ → Draw σ Bool)

/-- As `Shot.measureInto`, with the write checked. -/
def Shot.measureInto? (shot : Shot α) (wire : Nat × Nat) : OptionT (Draw σ) (Shot α) := do
  let (outcome, state) ← OptionT.lift (shot.state.measure toss wire.1)
  let bits ← OptionT.mk (pure (writeBit? shot.bits wire.2 outcome))
  return ⟨state, bits⟩

theorem Circuit.checked_measureInto (fits : circuit.Fits) {shot : Shot α} (register : circuit.Register shot.bits)
    {wire : Nat × Nat} (targeted : circuit.Targets wire.2) :
    Checked (shot.measureInto? toss wire) (shot.measureInto toss wire) (circuit.Register ·.bits) := by
  refine Checked.bind (Checked.lift (Always.trivial _)) fun found _ => ?_
  obtain ⟨outcome, state⟩ := found
  dsimp only
  rw [register.writeBit? fits targeted]
  exact Checked.pure (register.set targeted outcome)

variable [One α] [Neg α] [Add α] [Mul α] [GateScalar α]

def Shot.step? (shot : Shot α) : Instruction → OptionT (Draw σ) (Shot α)
  | .measure qubits clbits => (qubits.zip clbits).foldlM (Shot.measureInto? toss) shot
  | instruction => OptionT.lift (Shot.step toss shot instruction)

/-- As `Circuit.shot`, with every write checked. -/
def Circuit.shot? (circuit : Circuit) (start : Statevector α) : OptionT (Draw σ) (List Bool) := do
  let shot ← circuit.instructions.toList.foldlM (Shot.step? toss) ⟨start, List.replicate circuit.numClbits false⟩
  return shot.bits

namespace Circuit

theorem checked_step (fits : circuit.Fits) {shot : Shot α} (register : circuit.Register shot.bits)
    {instruction : Instruction} (member : instruction ∈ circuit.instructions.toList) :
    Checked (shot.step? toss instruction) (shot.step toss instruction) (circuit.Register ·.bits) := by
  cases instruction with
  | gate call clbits => exact Checked.lift (Always.pure register)
  | measure qubits clbits =>
    refine Checked.foldlM register fun shot wire within register => ?_
    have measured : .measure qubits clbits ∈ circuit.measurements := List.mem_filter.mpr ⟨member, rfl⟩
    exact checked_measureInto toss fits register ⟨_, measured, (List.of_mem_zip within).2⟩
  | reset qubits clbits =>
    refine Checked.lift (Always.foldlM register fun shot qubit _ register => ?_)
    exact Always.bind (Always.trivial _) fun state _ => Always.pure register
  | barrier qubits clbits => exact Checked.lift (Always.pure register)

/-- Nothing is written beyond the classical register, and the register is as long as at the start. -/
theorem checked_shot (fits : circuit.Fits) (start : Statevector α) :
    Checked (circuit.shot? toss start) (circuit.shot toss start) circuit.Register := by
  let first : Shot α := ⟨start, List.replicate circuit.numClbits false⟩
  have steps : Checked (circuit.instructions.toList.foldlM (Shot.step? toss) first)
      (circuit.instructions.toList.foldlM (Shot.step toss) first) (circuit.Register ·.bits) :=
    Checked.foldlM circuit.register_replicate fun shot instruction member register =>
      checked_step toss fits register member
  exact steps.bind fun shot register => Checked.pure register

end Circuit

end Shots

section Executions

variable {σ : Type} [WordSource σ]

theorem sum_modify {tally : Array Nat} {index : Nat} (inside : index < tally.size) :
    (tally.modify index (· + 1)).toList.sum = tally.toList.sum + 1 := by
  rw [Array.toList_modify, List.modify_eq_take_cons_drop inside]
  conv_rhs => rw [← List.take_append_drop index tally.toList, List.drop_eq_getElem_cons inside]
  simp only [List.sum_append, List.sum_cons]
  omega

theorem tallySamples_sum {weights : Weights} {size : Nat} (sampled : Always (weights.sample : Draw σ Nat) (· < size))
    (shots : Nat) {tally : Array Nat} (whole : tally.size = size) :
    Always (tallySamples weights shots tally : Draw σ (Array Nat)) (·.toList.sum = tally.toList.sum + shots) := by
  induction shots generalizing tally with
  | zero => exact Always.pure rfl
  | succ shots ih =>
    refine Always.bind sampled fun index inside => ?_
    refine (ih (Array.size_modify.trans whole)).mono fun counted total => ?_
    rw [total, sum_modify (whole ▸ inside), Nat.add_assoc, Nat.add_comm 1]

def Counted (reached : Nat → Prop) (tally : Array Nat) : Prop :=
  ∀ index times, tally[index]? = some times → times ≠ 0 → reached index

theorem counted_replicate (reached : Nat → Prop) (size : Nat) : Counted reached (Array.replicate size 0) := by
  intro index times found some
  rw [Array.getElem?_replicate] at found
  split at found
  · exact absurd (Option.some.inj found).symm some
  · cases found

theorem tallySamples_counted {weights : Weights} {reached : Nat → Prop}
    (sampled : Always (weights.sample : Draw σ Nat) reached) (shots : Nat) {tally : Array Nat}
    (counted : Counted reached tally) : Always (tallySamples weights shots tally : Draw σ (Array Nat)) (Counted reached) := by
  induction shots generalizing tally with
  | zero => exact Always.pure counted
  | succ shots ih =>
    refine Always.bind sampled fun index holds => ih fun place times found some => ?_
    rw [Array.getElem?_modify] at found
    split at found
    next same => exact same ▸ holds
    next => exact counted place times found some

/-- Indices with the same text share an entry. -/
theorem tallies_countsOfTally {property : String → Prop} {reached : Nat → Prop} {wiring : List (Nat × Nat)}
    {numClbits : Nat} (recorded : ∀ index, reached index → property (bitText (recordedBits wiring numClbits index)))
    {tally : Array Nat} (counted : Counted reached tally) (word : tally.toList.sum < 2 ^ 64) :
    (countsOfTally wiring numClbits tally).Tallies property tally.toList.sum := by
  have followed (entries : List (Nat × Nat)) (known : ∀ entry ∈ entries, entry.1 ≠ 0 → reached entry.2) {seen : Nat}
      {counts : Counts} (tallies : counts.Tallies property seen) (word : seen + (entries.map Prod.fst).sum < 2 ^ 64) :
      Counts.Tallies property (seen + (entries.map Prod.fst).sum) (entries.foldl (fun counts entry =>
        if entry.1 = 0 then counts
        else counts.insert (bitText (recordedBits wiring numClbits entry.2)) (UInt64.ofNat entry.1)) counts) := by
    induction entries generalizing seen counts with
    | nil => exact tallies
    | cons entry entries ih =>
      obtain ⟨first, others⟩ := List.forall_mem_cons.mp known
      rw [List.map_cons, List.sum_cons, ← Nat.add_assoc] at word ⊢
      have fitting := Nat.lt_of_le_of_lt (Nat.le_add_right _ _) word
      exact ih others (tallies.insertSome (fun some => recorded entry.2 (first some)) fitting) word
  have known : ∀ entry ∈ tally.toList.zipIdx, entry.1 ≠ 0 → reached entry.2 := by
    intro entry member
    exact counted entry.2 entry.1 (Array.getElem?_toList ▸ List.mem_zipIdx_iff_getElem?.mp member)
  have total := List.zipIdx_map_fst 0 tally.toList
  have whole := followed tally.toList.zipIdx known Counts.Tallies.empty (by rwa [total, Nat.zero_add])
  rwa [total, Nat.zero_add] at whole

namespace Circuit

theorem runShots_tallies {property : String → Prop}
    (recorded : Always (circuit.shot (Random.toss : Float → Draw σ Bool)
      (.ground circuit.numQubits : Statevector FloatComplex)) fun bits => property (bitText bits))
    {seen : Nat} {counts : Counts} (tallies : counts.Tallies property seen) (word : seen + shots < 2 ^ 64) :
    Always (circuit.runShots shots counts : Draw σ Counts) (Counts.Tallies property (seen + shots)) := by
  induction shots generalizing seen counts with
  | zero => exact Always.pure tallies
  | succ shots ih =>
    refine Always.bind recorded fun bits holds => ?_
    have room : seen + 1 < 2 ^ 64 := by omega
    have next : Counts.Tallies property (seen + (1 : UInt64).toNat) (counts.insert (bitText bits) 1) :=
      tallies.insert holds (by decide) room
    rw [Nat.add_comm shots, ← Nat.add_assoc] at word ⊢
    exact ih next word

/-- The weights by which the final state of a program that measures at its end is sampled. -/
def finalWeights (circuit : Circuit) : Except WeightFault Weights :=
  Weights.ofArray ((Statevector.ground circuit.numQubits : Statevector FloatComplex).applyAll
    circuit.instructions.toList).probabilities.toArray

theorem sample_of_finalWeights {weights : Weights} (made : circuit.finalWeights = .ok weights) :
    Always (weights.sample : Draw σ Nat) (· < Nat.pow 2 circuit.numQubits) := by
  have size := Statevector.numQubits_applyAll (.ground circuit.numQubits : Statevector FloatComplex)
    circuit.instructions.toList
  have sampled := Weights.sample_lt (σ := σ) made
  rw [Vector.size_toArray, size] at sampled
  exact sampled (Nat.two_pow_pos _)

/-- What shots come to: all of them are counted, or the final state that is to be sampled has no weights. -/
inductive Outcome (circuit : Circuit) (shots : Nat) : Except ExecutionError Counts → Prop where
  | counted {counts : Counts} (total : counts.total.toNat = shots) (tallies : counts.Tallies circuit.Records shots) :
      Outcome circuit shots (.ok counts)
  | degenerate {fault : WeightFault} (sampled : circuit.measuresAtEnd = true)
      (unweighted : circuit.finalWeights = .error fault) : Outcome circuit shots (.error (.degenerateState fault))

/-- Where the final state has weights, every shot is counted under the text of an index that can be sampled. -/
theorem sampleAtEnd_tallies {weights : Weights} (made : circuit.finalWeights = .ok weights) {reached : Nat → Prop}
    (sampled : Always (weights.sample : Draw σ Nat) reached) {property : String → Prop}
    (recorded : ∀ index, reached index → property (bitText (recordedBits circuit.wiring circuit.numClbits index)))
    (word : shots < 2 ^ 64) : Always (circuit.sampleAtEnd shots : ExceptT ExecutionError (Draw σ) Counts).run
      fun outcome => ∃ counts, outcome = .ok counts ∧ counts.Tallies property shots := by
  unfold finalWeights at made
  simp only [sampleAtEnd, made]
  have drawn := tallySamples_sum (sample_of_finalWeights (σ := σ) made) shots (Array.size_replicate (v := 0))
  rw [Array.toList_replicate, List.sum_replicate, smul_zero, Nat.zero_add] at drawn
  intro source
  have total := drawn source
  have tallies := tallies_countsOfTally recorded
    (tallySamples_counted sampled shots (counted_replicate reached _) source) (total.symm ▸ word)
  rw [total] at tallies
  exact ⟨_, rfl, tallies⟩

theorem sampleAtEnd_outcome (fits : circuit.Fits) (word : shots < 2 ^ 64) (ends : circuit.measuresAtEnd = true) :
    Always (circuit.sampleAtEnd shots : ExceptT ExecutionError (Draw σ) Counts).run (circuit.Outcome shots) := by
  cases made : circuit.finalWeights with
  | error fault =>
    unfold finalWeights at made
    simp only [sampleAtEnd, made]
    exact Always.pure (.degenerate ends made)
  | ok weights =>
    refine (sampleAtEnd_tallies made (Always.trivial _)
      (fun index _ => (recordedBits_checked fits index).2.records) word).mono fun outcome counted => ?_
    obtain ⟨counts, rfl, tallies⟩ := counted
    exact .counted (tallies.total word) tallies

theorem execute_outcome (fits : circuit.Fits) (word : shots < 2 ^ 64) :
    Always (circuit.execute shots : ExceptT ExecutionError (Draw σ) Counts).run (circuit.Outcome shots) := by
  unfold execute
  split
  next ends => exact sampleAtEnd_outcome fits word ends
  next =>
    have ran := runShots_tallies (σ := σ)
      ((checked_shot Random.toss fits _).always.mono fun _ register => register.records) .empty
      ((Nat.zero_add shots).symm ▸ word)
    rw [Nat.zero_add] at ran
    exact Always.map ran fun counts tallies => .counted (tallies.total word) tallies

end Circuit

end Executions

/-- A program that is run shot by shot does not fail. -/
theorem Simulator.run_of_collapses (collapses : circuit.measuresAtEnd = false) (simulator : Simulator) (shots : Nat) :
    ∃ result, (simulator.run circuit shots).1 = .ok result := by
  unfold Simulator.run Circuit.execute
  rw [collapses]
  exact ⟨_, rfl⟩

namespace Circuit

/-- In a circuit that fits its registers no write leaves the classical register. Every shot is counted, under a text
of the length of that register, unless the final state can not be sampled; and so it is in the result of a job. -/
theorem execute_complete (fits : circuit.Fits) (word : shots < 2 ^ 64) :
    (∀ index, recordedBits? circuit.wiring circuit.numClbits index =
      some (recordedBits circuit.wiring circuit.numClbits index)) ∧
    (∀ (σ : Type) [WordSource σ] (start : Statevector FloatComplex),
      (circuit.shot? Random.toss start : OptionT (Draw σ) (List Bool)).run = some <$> circuit.shot Random.toss start) ∧
    (∀ (σ : Type) [WordSource σ] (source : σ), circuit.Outcome shots ((circuit.execute shots).run.run source).1) ∧
    ∀ simulator result, ((Simulator.execute circuit shots).run.run simulator).1 = .ok result →
      result.shots = shots ∧ circuit.Outcome shots (.ok result.counts) := by
  refine ⟨?_, ?_, ?_, ?_⟩
  · intro index
    exact (recordedBits_checked fits index).1
  · intro σ _ start
    exact (checked_shot Random.toss fits start).same
  · intro σ _ source
    exact execute_outcome fits word source
  · intro simulator result returned
    have ran : (((circuit.execute shots).run.run simulator.source).1.map (⟨·, shots⟩)) = .ok result :=
      (Service.execute_ok_iff.mp returned).2
    have outcome := execute_outcome fits word simulator.source
    cases same : ((circuit.execute shots).run.run simulator.source).1 with
    | error fault =>
      rw [same] at ran
      cases ran
    | ok counts =>
      rw [same] at ran outcome
      cases ran
      exact ⟨rfl, outcome⟩

/-- A classical bit is written twice, a gate comes in between, and another bit is never written. -/
def revised : Circuit := ⟨"revised", 2, 3,
  #[.elementary .h [0], .measure [0] [1], .elementary .cx [0, 1], .measure [0, 1] [1, 0]]⟩

theorem execute_complete_revised : revised.Fits ∧ 5 < 2 ^ 64 ∧
    ∃ result, ((Simulator.execute revised 5).run.run (.seeded 7)).1 = .ok result ∧
      result.shots = 5 ∧ revised.Outcome 5 (.ok result.counts) := by
  have fits : revised.Fits := (ofInstructions_eq_ok_iff.mp
    (show ofInstructions "revised" 2 3 revised.instructions.toList = .ok revised from rfl)).1
  have admitted : (Simulator.seeded 7).validate revised 5 = .ok () := rfl
  have collapses : revised.measuresAtEnd = false := rfl
  obtain ⟨result, ran⟩ := Simulator.run_of_collapses collapses (.seeded 7) 5
  have returned := Service.execute_ok_iff.mpr ⟨admitted, ran⟩
  exact ⟨fits, by decide, result, returned, (execute_complete fits (by decide)).2.2.2 _ result returned⟩

end Circuit

end CircuitCloak

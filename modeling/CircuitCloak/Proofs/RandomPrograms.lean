import CircuitCloak.Circuit.Samples
import CircuitCloak.Proofs.DependencyChains
import CircuitCloak.Proofs.Fitting
import CircuitCloak.Proofs.TransformOutcomes

/-! Random programs. A layer puts one gate on every qubit and at most one on a pair of them, whatever the source
yields; so it prolongs every chain at a qubit, and none by more than two. -/

namespace CircuitCloak

open CircuitCloak.Random

variable {σ α : Type} {numQubits layers : Nat} {circuit : Circuit}

/-- The circuit with a run behind its instructions. -/
def Circuit.appended (circuit : Circuit) (run : List Instruction) : Circuit :=
  { circuit with instructions := circuit.instructions ++ run.toArray }

@[simp]
theorem Circuit.appended_nil (circuit : Circuit) : circuit.appended [] = circuit := by
  simp [appended]

@[simp]
theorem Circuit.appended_appended (circuit : Circuit) (run more : List Instruction) :
    (circuit.appended run).appended more = circuit.appended (run ++ more) := by
  simp [appended]

/-- A computation that never fails and puts a run with a property behind the instructions of a circuit. -/
def Adds (circuit : Circuit) (build : ExceptT CircuitError (Draw σ) Circuit) (property : List Instruction → Prop) :
    Prop :=
  Always build.run fun outcome => ∃ run, property run ∧ outcome = .ok (circuit.appended run)

namespace Adds

variable {property : List Instruction → Prop}

theorem pure (circuit : Circuit) (none : property []) :
    Adds circuit (Pure.pure circuit : ExceptT CircuitError (Draw σ) Circuit) property := by
  intro source
  refine ⟨[], none, ?_⟩
  rw [Circuit.appended_nil]
  rfl

theorem push {instruction : Instruction} (fits : instruction.Fits circuit.numQubits circuit.numClbits)
    (single : property [instruction]) :
    Adds circuit (liftM (circuit.push instruction) : ExceptT CircuitError (Draw σ) Circuit) property := by
  have pushed : circuit.push instruction = .ok (circuit.appended [instruction]) :=
    Circuit.push_eq_ok_iff.mpr ⟨fits, by simp [Circuit.appended]⟩
  rw [pushed]
  exact fun _ => ⟨[instruction], single, rfl⟩

theorem draw {draw : Draw σ α} {drawn : α → Prop} {next : α → ExceptT CircuitError (Draw σ) Circuit}
    (held : Always draw drawn) (resume : ∀ value, drawn value → Adds circuit (next value) property) :
    Adds circuit (liftM draw >>= next) property :=
  fun source => resume _ (held source) _

theorem bind {build : ExceptT CircuitError (Draw σ) Circuit} {next : Circuit → ExceptT CircuitError (Draw σ) Circuit}
    {first : List Instruction → Prop} (held : Adds circuit build first) (resume : ∀ run, first run →
      Adds (circuit.appended run) (next (circuit.appended run)) fun more => property (run ++ more)) :
    Adds circuit (build >>= next) property := by
  unfold Adds
  rw [ExceptT.run_bind]
  refine Always.bind held fun outcome reached => ?_
  obtain ⟨run, holds, rfl⟩ := reached
  refine (resume run holds).mono fun outcome reached => ?_
  obtain ⟨more, whole, same⟩ := reached
  exact ⟨run ++ more, whole, same.trans (congrArg _ (circuit.appended_appended run more))⟩

theorem foldlM {items : List α} {step : Circuit → α → ExceptT CircuitError (Draw σ) Circuit}
    {part : α → List Instruction → Prop}
    (steps : ∀ run, ∀ item ∈ items, Adds (circuit.appended run) (step (circuit.appended run) item) (part item)) :
    Adds circuit (items.foldlM step circuit) (Concatenation part items) := by
  induction items generalizing circuit with
  | nil => exact Adds.pure circuit .nil
  | cons item items ih =>
    rw [List.foldlM_cons]
    have first := steps [] item List.mem_cons_self
    rw [Circuit.appended_nil] at first
    refine bind first fun run added => ?_
    refine (ih fun more later member => ?_).mono fun outcome reached => ?_
    · rw [Circuit.appended_appended]
      exact steps (run ++ more) later (List.mem_cons_of_mem item member)
    · obtain ⟨rest, others, same⟩ := reached
      exact ⟨rest, .cons added others, same⟩

end Adds

def Instruction.isGateOn (count : Nat) (instruction : Instruction) : Bool :=
  instruction.isGate && instruction.qubits.length == count

namespace Circuit

/-- A gate of the layer set on a qubit. -/
def Turned (qubit : Nat) (run : List Instruction) : Prop :=
  ∃ kind ∈ layerGates, run = [.elementary kind [qubit]]

/-- A controlled gate on two different qubits, where there are two. -/
inductive Entangled (numQubits : Nat) : List Instruction → Prop where
  | alone (few : numQubits < 2) : Entangled numQubits []
  | pair {kind : Elementary} {control target : Nat} (enough : 2 ≤ numQubits) (controlled : kind = .cx ∨ kind = .cz)
      (operands : Operands numQubits [control, target]) : Entangled numQubits [.elementary kind [control, target]]

/-- A gate on every qubit, then an entangler. -/
def Layer (numQubits : Nat) (run : List Instruction) : Prop :=
  ∃ singles rest, Concatenation Turned (List.range numQubits) singles ∧ Entangled numQubits rest ∧ run = singles ++ rest

theorem arity_of_layerGates {kind : Elementary} (member : kind ∈ layerGates) : kind.arity = 1 := by
  have gates : kind ∈ [Elementary.x, .y, .z, .s, .t] := Array.mem_toList_iff.mpr member
  simp only [List.mem_cons, List.not_mem_nil, or_false] at gates
  rcases gates with rfl | rfl | rfl | rfl | rfl <;> rfl

section Draws

variable [WordSource σ]

theorem pushLayerGate_adds {qubit : Nat} (inside : qubit < circuit.numQubits) :
    Adds circuit (pushLayerGate circuit qubit : ExceptT CircuitError (Draw σ) Circuit) (Turned qubit) := by
  unfold pushLayerGate
  refine Adds.draw (belowLong_lt (by decide)) fun index within => ?_
  have member : layerGates.getD index .x ∈ layerGates := by
    rw [Array.getD_eq_getD_getElem?, Array.getElem?_eq_getElem within, Option.getD_some]
    exact Array.getElem_mem within
  refine Adds.push (Instruction.fits_elementary (arity_of_layerGates member).symm ?_) ⟨_, member, rfl⟩
  exact ⟨by simpa using inside, List.nodup_singleton qubit⟩

theorem pushEntangler_adds (enough : 2 ≤ circuit.numQubits) :
    Adds circuit (pushEntangler circuit : ExceptT CircuitError (Draw σ) Circuit) (Entangled circuit.numQubits) := by
  unfold pushEntangler
  refine Adds.draw (sampleIndices_sample enough) fun pair sample => ?_
  refine Adds.draw (Always.trivial _) fun heads _ => ?_
  obtain ⟨control, target, rfl⟩ := List.length_eq_two.mp sample.length
  have operands : Operands circuit.numQubits [control, target] := ⟨sample.inside, sample.distinct⟩
  cases heads with
  | true => exact Adds.push (Instruction.fits_elementary rfl operands) (.pair enough (.inl rfl) operands)
  | false => exact Adds.push (Instruction.fits_elementary rfl operands) (.pair enough (.inr rfl) operands)

theorem pushLayer_adds (circuit : Circuit) :
    Adds circuit (pushLayer circuit : ExceptT CircuitError (Draw σ) Circuit) (Layer circuit.numQubits) := by
  unfold pushLayer
  have gates : Adds circuit ((List.range circuit.numQubits).foldlM pushLayerGate circuit :
      ExceptT CircuitError (Draw σ) Circuit) (Concatenation Turned (List.range circuit.numQubits)) := by
    refine Adds.foldlM fun run qubit member => ?_
    exact pushLayerGate_adds (List.mem_range.mp member)
  refine Adds.bind gates fun singles turned => ?_
  split
  next few => exact Adds.pure _ ⟨singles, [], turned, .alone few, rfl⟩
  next many =>
    refine (pushEntangler_adds (Nat.le_of_not_lt many)).mono fun outcome reached => ?_
    obtain ⟨rest, entangled, same⟩ := reached
    exact ⟨rest, ⟨singles, rest, turned, entangled, rfl⟩, same⟩

end Draws

/-- Where no two instructions share a wire, a chain has one instruction. -/
theorem length_le_one_of_apart {run chain : List Instruction} (apart : run.Pairwise fun one other => ¬one.Shares other)
    (chained : Chained run chain) : chain.length ≤ 1 := by
  match chain, chained with
  | [], _ => exact Nat.zero_le 1
  | [_], _ => exact Nat.le_refl 1
  | one :: other :: rest, chained =>
    have linked := (List.isChain_cons_cons.mp chained.linked).1
    have different := (List.pairwise_cons.mp (apart.sublist chained.ordered)).1 other List.mem_cons_self
    exact absurd linked different

theorem shares_single_iff {kind other : Elementary} {qubit place : Nat} :
    (Instruction.elementary kind [qubit]).Shares (.elementary other [place]) ↔ qubit = place := by
  simp [Instruction.Shares, Instruction.elementary, Instruction.apply, Instruction.qubits, Instruction.clbits]

theorem mem_turned {qubits : List Nat} {run : List Instruction} (turned : Concatenation Turned qubits run) :
    ∀ instruction ∈ run, ∃ kind ∈ layerGates, ∃ qubit ∈ qubits, instruction = .elementary kind [qubit] := by
  refine turned.forall_mem fun qubit listed part made instruction member => ?_
  obtain ⟨kind, known, rfl⟩ := made
  exact ⟨kind, known, qubit, listed, List.mem_singleton.mp member⟩

theorem apart_of_turned {qubits : List Nat} {run : List Instruction} (turned : Concatenation Turned qubits run)
    (distinct : qubits.Nodup) : run.Pairwise fun one other => ¬one.Shares other := by
  induction turned with
  | nil => exact .nil
  | cons first others ih =>
    obtain ⟨absent, distinct⟩ := List.nodup_cons.mp distinct
    obtain ⟨kind, -, rfl⟩ := first
    refine List.pairwise_cons.mpr ⟨?_, ih distinct⟩
    intro instruction member
    obtain ⟨other, -, place, listed, rfl⟩ := mem_turned others instruction member
    rw [shares_single_iff]
    rintro rfl
    exact absent listed

/-- Gates of a register: how many act on one qubit and how many on two, how often a qubit is used at least, and how
long a chain is at most. -/
structure Census (numQubits ones twos least longest : Nat) (gates : List Instruction) : Prop where
  gate : ∀ instruction ∈ gates, instruction.isGate = true
  fits : ∀ instruction ∈ gates, instruction.Fits numQubits numQubits
  singles : gates.countP (·.isGateOn 1) = ones
  pairs : gates.countP (·.isGateOn 2) = twos
  length : gates.length = ones + twos
  used : ∀ qubit < numQubits, least ≤ gates.countP (·.uses (.qubit qubit))
  chains : ∀ chain, Chained gates chain → chain.length ≤ longest

def entanglers (numQubits : Nat) : Nat := if 2 ≤ numQubits then 1 else 0

namespace Census

theorem nil (numQubits longest : Nat) : Census numQubits 0 0 0 longest [] where
  gate := nofun
  fits := nofun
  singles := rfl
  pairs := rfl
  length := rfl
  used := fun _ _ => Nat.le_refl 0
  chains := fun _ chained => Nat.le_trans chained.ordered.length_le (Nat.zero_le longest)

theorem append {ones twos least longest moreOnes moreTwos more longer : Nat} {front back : List Instruction}
    (first : Census numQubits ones twos least longest front)
    (second : Census numQubits moreOnes moreTwos more longer back) :
    Census numQubits (ones + moreOnes) (twos + moreTwos) (least + more) (longest + longer) (front ++ back) where
  gate := List.forall_mem_append.mpr ⟨first.gate, second.gate⟩
  fits := List.forall_mem_append.mpr ⟨first.fits, second.fits⟩
  singles := by rw [List.countP_append, first.singles, second.singles]
  pairs := by rw [List.countP_append, first.pairs, second.pairs]
  length := by
    rw [List.length_append, first.length, second.length]
    omega
  used := by
    intro qubit inside
    rw [List.countP_append]
    exact Nat.add_le_add (first.used qubit inside) (second.used qubit inside)
  chains := by
    intro chain chained
    obtain ⟨early, late, rfl, before, after⟩ := chained.split
    rw [List.length_append]
    exact Nat.add_le_add (first.chains early before) (second.chains late after)

theorem of_turned {run : List Instruction} (turned : Concatenation Turned (List.range numQubits) run) :
    Census numQubits numQubits 0 1 1 run := by
  have single : ∀ instruction ∈ run, instruction.isGateOn 1 = true ∧ instruction.isGateOn 2 = false ∧
      instruction.isGate = true ∧ instruction.Fits numQubits numQubits := by
    intro instruction member
    obtain ⟨kind, known, qubit, listed, rfl⟩ := mem_turned turned instruction member
    refine ⟨rfl, rfl, rfl, Instruction.fits_elementary (arity_of_layerGates known).symm ⟨?_, List.nodup_singleton qubit⟩⟩
    simpa using listed
  have length : run.length = numQubits := by
    have lengths : run.length = ((List.range numQubits).map fun _ => 1).sum := by
      apply turned.length_eq
      rintro qubit - part ⟨kind, -, rfl⟩
      rfl
    simpa using lengths
  refine ⟨fun instruction member => (single instruction member).2.2.1,
    fun instruction member => (single instruction member).2.2.2, ?_, ?_, length, ?_, ?_⟩
  · exact (List.countP_eq_length.mpr fun instruction member => (single instruction member).1).trans length
  · exact List.countP_eq_zero.mpr fun instruction member => Bool.eq_false_iff.mp (single instruction member).2.1
  · intro qubit inside
    obtain ⟨part, ⟨kind, -, rfl⟩, within⟩ := turned.exists_run (List.mem_range.mpr inside)
    refine List.countP_pos_iff.mpr ⟨_, within _ List.mem_cons_self, ?_⟩
    simp [Instruction.uses, Instruction.elementary, Instruction.apply, Instruction.wires, Instruction.qubits,
      Instruction.isBarrier]
  · intro chain chained
    exact length_le_one_of_apart (apart_of_turned turned List.nodup_range) chained

theorem of_entangled {run : List Instruction} (entangled : Entangled numQubits run) :
    Census numQubits 0 (entanglers numQubits) 0 1 run := by
  cases entangled with
  | alone few =>
    rw [entanglers, if_neg (Nat.not_le_of_lt few)]
    exact nil numQubits 1
  | @pair kind control target enough controlled operands =>
    have arity : kind.arity = 2 := by rcases controlled with rfl | rfl <;> rfl
    rw [entanglers, if_pos enough]
    refine ⟨?_, ?_, rfl, rfl, rfl, fun _ _ => Nat.zero_le _, fun chain chained => chained.ordered.length_le⟩
    · exact List.forall_mem_singleton.mpr rfl
    · exact List.forall_mem_singleton.mpr (Instruction.fits_elementary arity.symm operands)

/-- A chain that runs through a layer has at most one of its single gates, and its entangler. -/
theorem of_layer {run : List Instruction} (layer : Layer numQubits run) :
    Census numQubits numQubits (entanglers numQubits) 1 2 run := by
  obtain ⟨singles, rest, turned, entangled, rfl⟩ := layer
  have both := (of_turned turned).append (of_entangled entangled)
  rwa [Nat.zero_add] at both

theorem of_layers {items : List Nat} {gates : List Instruction}
    (whole : Concatenation (fun _ => Layer numQubits) items gates) :
    Census numQubits (items.length * numQubits) (items.length * entanglers numQubits) items.length
      (items.length * 2) gates := by
  induction whole with
  | nil =>
    rw [List.length_nil, Nat.zero_mul, Nat.zero_mul]
    exact nil numQubits 0
  | cons first _ ih =>
    have longer := (of_layer first).append ih
    rw [List.length_cons, Nat.succ_mul, Nat.succ_mul, Nat.succ_mul]
    simpa only [Nat.add_comm] using longer

end Census

theorem measureAll_eq (square : circuit.numClbits = circuit.numQubits) : circuit.measureAll =
    .ok (circuit.appended [.measure (List.range circuit.numQubits) (List.range circuit.numQubits)]) := by
  have wide : max circuit.numClbits circuit.numQubits = circuit.numQubits := by rw [square, Nat.max_self]
  refine measureAll_eq_ok_iff.mpr (push_eq_ok_iff.mpr ⟨?_, ?_⟩)
  · exact fits_measureAll (Nat.le_max_right _ _)
  · simp [appended, square]

theorem random_adds [WordSource σ] (numQubits layers : Nat) :
    Adds (empty "random" numQubits numQubits) (random numQubits layers : ExceptT CircuitError (Draw σ) Circuit)
      fun run => ∃ gates, Concatenation (fun _ => Layer numQubits) (List.range layers) gates ∧
        run = gates ++ [.measure (List.range numQubits) (List.range numQubits)] := by
  have layered : Adds (empty "random" numQubits numQubits) ((List.range layers).foldlM (fun circuit _ => pushLayer circuit)
      (empty "random" numQubits numQubits) : ExceptT CircuitError (Draw σ) Circuit)
      (Concatenation (fun _ => Layer numQubits) (List.range layers)) :=
    Adds.foldlM fun run _ _ => pushLayer_adds ((empty "random" numQubits numQubits).appended run)
  unfold random
  refine Adds.bind layered fun gates added => ?_
  rw [measureAll_eq rfl]
  exact fun _ => ⟨_, ⟨gates, added, rfl⟩, rfl⟩

/-- Every stream of random words gives a program that fits its registers: a gate on every qubit in each layer, an
entangler where there are two qubits, and at the end one measurement of all qubits in order. -/
theorem random_layered [WordSource σ] {numQubits : Nat} (inhabited : 1 ≤ numQubits) (layers : Nat) (source : σ) :
    ∃ circuit gates, ((random numQubits layers : ExceptT CircuitError (Draw σ) Circuit).run.run source).1 = .ok circuit ∧
      circuit.numQubits = numQubits ∧ circuit.numClbits = numQubits ∧ circuit.Fits ∧
      circuit.instructions.toList = gates ++ [.measure (List.range numQubits) (List.range numQubits)] ∧
      (∀ instruction ∈ gates, instruction.isGate = true) ∧
      gates.countP (·.isGateOn 1) = layers * numQubits ∧
      gates.countP (·.isGateOn 2) = (if 2 ≤ numQubits then layers else 0) ∧
      circuit.numGates = layers * numQubits + (if 2 ≤ numQubits then layers else 0) ∧
      layers + 1 ≤ circuit.depth ∧ circuit.depth ≤ 2 * layers + 1 := by
  obtain ⟨run, ⟨gates, whole, rfl⟩, made⟩ := random_adds (σ := σ) numQubits layers source
  let measurement : Instruction := .measure (List.range numQubits) (List.range numQubits)
  let circuit := (empty "random" numQubits numQubits).appended (gates ++ [measurement])
  have listed : circuit.instructions.toList = gates ++ [measurement] := by simp [circuit, appended, empty]
  have census := Census.of_layers whole
  rw [List.length_range] at census
  have pairs : layers * entanglers numQubits = if 2 ≤ numQubits then layers else 0 := by
    unfold entanglers
    split <;> simp
  refine ⟨circuit, gates, made, rfl, rfl, ?_, listed, census.gate, census.singles, census.pairs.trans pairs, ?_, ?_, ?_⟩
  · unfold Fits
    rw [listed]
    exact List.forall_mem_append.mpr ⟨census.fits, List.forall_mem_singleton.mpr (fits_measureAll (Nat.le_refl numQubits))⟩
  · have gate : gates.countP (·.isGate) = gates.length := List.countP_eq_length.mpr census.gate
    rw [numGates, ← Array.countP_toList, listed, List.countP_append, gate, census.length, pairs]
    rfl
  · have used := circuit.countP_uses_le_depth (.qubit 0)
    have measured : measurement.uses (.qubit 0) = true := by
      simpa [measurement, Instruction.uses, Instruction.isBarrier, Instruction.wires, Instruction.qubits] using
        Nat.pos_of_ne_zero (Nat.ne_of_gt inhabited)
    rw [listed, List.countP_append, List.countP_singleton, if_pos measured] at used
    exact Nat.le_trans (Nat.add_le_add_right (census.used 0 inhabited) 1) used
  · obtain ⟨chain, chained, length⟩ := circuit.isGreatest_depth.1
    rw [listed] at chained
    obtain ⟨early, late, rfl, before, after⟩ := chained.split
    rw [← length, List.length_append, Nat.mul_comm]
    exact Nat.add_le_add (census.chains early before) after.ordered.length_le

theorem random_layered_pair : 1 ≤ 2 ∧ ∃ circuit gates,
    ((random 2 3 : ExceptT CircuitError (Draw SplitMix) Circuit).run.run ⟨7⟩).1 = .ok circuit ∧
      circuit.instructions.toList = gates ++ [.measure [0, 1] [0, 1]] ∧ gates.countP (·.isGateOn 1) = 6 ∧
      gates.countP (·.isGateOn 2) = 3 ∧ 4 ≤ circuit.depth ∧ circuit.depth ≤ 7 := by
  have inhabited : 1 ≤ 2 := by decide
  obtain ⟨circuit, gates, made, -, -, -, listed, -, singles, pairs, -, low, high⟩ :=
    random_layered inhabited 3 (⟨7⟩ : SplitMix)
  exact ⟨inhabited, circuit, gates, made, listed, singles, pairs, low, high⟩

end Circuit

end CircuitCloak

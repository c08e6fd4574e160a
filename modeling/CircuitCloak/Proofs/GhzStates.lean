import CircuitCloak.Circuit.Samples
import CircuitCloak.Proofs.RecordedShots
import CircuitCloak.Proofs.TerminalSampling

/-! GHZ programs prepare GHZ states. Along the chain the state stands at two indices only, at zero and at the index
whose bits up to the last entangled qubit are set; the next gate moves the second of them one bit further. The
argument asks little of the amplitudes, so it holds of complex numbers and of rounded ones alike. Rounded or not, the
two ends weigh the same, and sampling finds one of them. -/

namespace CircuitCloak

open CircuitCloak.Random

/-- The index is zero, or its set bits are the lowest ones of a number. -/
def AtEnd (width index : Nat) : Prop := index = 0 ∨ index = 2 ^ width - 1

instance (width index : Nat) : Decidable (AtEnd width index) := inferInstanceAs (Decidable (_ ∨ _))

theorem testBit_of_atEnd {width index : Nat} (ends : AtEnd width index) {place : Nat} (inside : place < width) :
    index.testBit place = true ↔ index = 2 ^ width - 1 := by
  have upper : (2 ^ width - 1).testBit place = true := by
    rw [Nat.testBit_two_pow_sub_one]
    exact decide_eq_true inside
  constructor
  · intro set
    refine ends.resolve_left fun zero => ?_
    rw [zero, Nat.zero_testBit] at set
    cases set
  · rintro rfl
    exact upper

/-- Where the last of the lower bits is clear, only zero is an end. -/
theorem atEnd_of_clear {width more index : Nat} (clear : index.testBit width = false) (inside : width < more) :
    AtEnd more index ↔ index = 0 := by
  refine ⟨fun ends => ends.resolve_right fun upper => ?_, Or.inl⟩
  rw [(testBit_of_atEnd ends inside).mpr upper] at clear
  cases clear

theorem withBit_lowerBits (width : Nat) : withBit (2 ^ width - 1) width true = 2 ^ (width + 1) - 1 := by
  refine Nat.eq_of_testBit_eq fun place => ?_
  rw [testBit_withBit, Nat.testBit_two_pow_sub_one, Nat.testBit_two_pow_sub_one]
  split
  next same => simp [same]
  next different =>
    rw [decide_eq_decide]
    omega

/-- Where it is set, a flip of the next bit moves the other end by one bit. -/
theorem atEnd_flipped {width index : Nat} (set : index.testBit width = true) :
    AtEnd (width + 1) (withBit index (width + 1) (!index.testBit (width + 1))) ↔ AtEnd (width + 2) index := by
  have still : (withBit index (width + 1) (!index.testBit (width + 1))).testBit width = true := by
    rwa [testBit_withBit_of_ne (Nat.ne_of_lt (Nat.lt_succ_self width))]
  constructor
  · intro ends
    have flipped := (testBit_of_atEnd ends (Nat.lt_succ_self width)).mp still
    have next : (withBit index (width + 1) (!index.testBit (width + 1))).testBit (width + 1) = false := by
      rw [flipped, Nat.testBit_two_pow_sub_one]
      exact decide_eq_false (Nat.lt_irrefl _)
    rw [testBit_withBit_self, Bool.not_eq_false'] at next
    right
    rw [← withBit_lowerBits, ← flipped, withBit_withBit, ← next, withBit_testBit]
  · intro ends
    have upper := (testBit_of_atEnd ends (by omega : width < width + 2)).mp set
    have next := (testBit_of_atEnd ends (Nat.lt_succ_self (width + 1))).mpr upper
    right
    rw [next, upper, ← withBit_lowerBits, withBit_withBit]
    apply withBit_eq_self
    rw [Nat.testBit_two_pow_sub_one]
    exact decide_eq_false (Nat.lt_irrefl _)

theorem withBit_zero_false {index : Nat} : withBit index 0 false = 0 ↔ AtEnd 1 index := by
  have bits : index = withBit (withBit index 0 false) 0 (index.testBit 0) := by rw [withBit_withBit, withBit_testBit]
  constructor
  · intro cleared
    rw [cleared] at bits
    rw [bits]
    cases index.testBit 0 <;> decide
  · rintro (rfl | rfl) <;> decide

/-- What amplitudes at an end and elsewhere have to satisfy so that the gates of the chain move them. -/
structure Marks {α : Type} [Zero α] [One α] [Neg α] [Add α] [Mul α] [GateScalar α] (marked : Bool → α → Prop) :
    Prop where
  upper : marked true (GateScalar.invSqrtTwo * 1 + GateScalar.invSqrtTwo * 0)
  lower : marked true (GateScalar.invSqrtTwo * 1 + -GateScalar.invSqrtTwo * 0)
  emptyUpper : marked false (GateScalar.invSqrtTwo * 0 + GateScalar.invSqrtTwo * 0)
  emptyLower : marked false (GateScalar.invSqrtTwo * 0 + -GateScalar.invSqrtTwo * 0)
  first : ∀ {one other : Bool} {low high : α}, marked one low → marked other high → marked one (1 * low + 0 * high)
  second : ∀ {one other : Bool} {low high : α}, marked one low → marked other high → marked other (0 * low + 1 * high)

section Chain

variable {α : Type} [Zero α] [One α] [Neg α] [Add α] [Mul α] [GateScalar α] {marked : Bool → α → Prop}
  {numQubits width : Nat}

/-- A state that stands at the two ends of a chain. -/
def Stands (marked : Bool → α → Prop) (numQubits width : Nat) (state : Statevector α) : Prop :=
  ∃ amplitudes : Vector α (Nat.pow 2 numQubits), state = ⟨numQubits, amplitudes⟩ ∧
    ∀ index : Index numQubits, marked (decide (AtEnd width index)) (amplitudes.get index)

theorem Marks.opened (marks : Marks marked) (inhabited : 0 < numQubits) :
    Stands marked numQubits 1 ((Statevector.ground numQubits : Statevector α).applyInstruction (.elementary .h [0])) := by
  let qubit : Fin numQubits := ⟨0, inhabited⟩
  let ground : Vector α (Nat.pow 2 numQubits) := (Vector.replicate (Nat.pow 2 numQubits) 0).set 0 1 (Nat.two_pow_pos numQubits)
  let matrix : QubitMatrix α := ⟨GateScalar.invSqrtTwo, GateScalar.invSqrtTwo, GateScalar.invSqrtTwo, -GateScalar.invSqrtTwo⟩
  refine ⟨Kernel.actOnQubit 0 qubit matrix ground, rfl, fun index => ?_⟩
  have opened (place : Index numQubits) : ground.get place = if place.val = 0 then 1 else 0 := by
    simp only [get_eq_getElem, ground, Vector.getElem_set, Vector.getElem_replicate, eq_comm]
  have high : ground.get (index.put qubit true) = 0 := by
    rw [opened, if_neg]
    intro zero
    have bit : (index.put qubit true).val.testBit 0 = true := testBit_withBit_self index.val 0 true
    rw [zero, Nat.zero_testBit] at bit
    cases bit
  have low : ground.get (index.put qubit false) = if AtEnd 1 index then 1 else 0 := by
    rw [opened]
    exact if_congr withBit_zero_false rfl rfl
  rw [Kernel.get_actOnQubit (Nat.zero_testBit _), Kernel.turnedAt,
    if_pos (index.hasControls_eq_true_iff.mp (Kernel.hasControls_zero index)), high, low]
  by_cases ends : AtEnd 1 index
  · rw [if_pos ends, decide_eq_true ends]
    cases index.val.testBit qubit with
    | false => exact marks.upper
    | true => exact marks.lower
  · rw [if_neg ends, decide_eq_false ends]
    cases index.val.testBit qubit with
    | false => exact marks.emptyUpper
    | true => exact marks.emptyLower

theorem Marks.prolonged (marks : Marks marked) {state : Statevector α} (stands : Stands marked numQubits (width + 1) state)
    (inside : width + 1 < numQubits) :
    Stands marked numQubits (width + 2) (state.applyInstruction (.elementary .cx [width, width + 1])) := by
  obtain ⟨amplitudes, rfl, known⟩ := stands
  let target : Fin numQubits := ⟨width + 1, inside⟩
  refine ⟨Kernel.actOnQubit (Kernel.bitMask width) target flipMatrix amplitudes, rfl, fun index => ?_⟩
  have apart : (Kernel.bitMask width).testBit target = false := by
    rw [Kernel.bitMask, Nat.pow_eq, Nat.testBit_two_pow]
    exact decide_eq_false (Nat.ne_of_lt (Nat.lt_succ_self width))
  have controlled : index.Contains (Kernel.bitMask width) ↔ index.val.testBit width = true := by
    rw [← Index.hasControls_eq_true_iff, Kernel.hasControls_bitMask]
  rw [Kernel.get_actOnQubit apart, Kernel.turnedAt]
  split
  next contained =>
    have moved := atEnd_flipped (controlled.mp contained)
    have low := known (index.put target false)
    have high := known (index.put target true)
    cases bit : index.val.testBit target with
    | false =>
      rw [show index.val.testBit (width + 1) = false from bit] at moved
      rw [← decide_eq_decide.mpr moved]
      exact marks.second low high
    | true =>
      rw [show index.val.testBit (width + 1) = true from bit] at moved
      rw [← decide_eq_decide.mpr moved]
      exact marks.first low high
  next idle =>
    have clear := Bool.eq_false_iff.mpr fun set => idle (controlled.mpr set)
    have same := (atEnd_of_clear clear (Nat.lt_succ_self width)).trans
      (atEnd_of_clear clear (by omega : width < width + 2)).symm
    rw [← decide_eq_decide.mpr same]
    exact known index

/-- The gates that entangle the qubits one after the other. -/
def chainGates (links : Nat) : List Instruction :=
  (List.range links).map fun qubit => .elementary .cx [qubit, qubit + 1]

theorem Marks.chained (marks : Marks marked) {links : Nat} (inside : links < numQubits) :
    Stands marked numQubits (links + 1)
      ((Statevector.ground numQubits : Statevector α).applyAll (.elementary .h [0] :: chainGates links)) := by
  induction links with
  | zero => exact marks.opened inside
  | succ links ih =>
    have next := marks.prolonged (ih (Nat.lt_of_succ_lt inside)) inside
    have gates : chainGates (links + 1) = chainGates links ++ [.elementary .cx [links, links + 1]] := by
      simp [chainGates, List.range_succ]
    rw [gates, Statevector.applyAll, ← List.cons_append, List.foldl_append]
    exact next

end Chain

namespace Circuit

variable {numQubits : Nat}

/-- Every qubit is measured into the bit of its position. -/
def measurementsInOrder (numQubits : Nat) : List Instruction :=
  (List.range numQubits).map fun qubit => .measure [qubit] [qubit]

/-- The program that `ghz` builds. -/
def ghzProgram (numQubits : Nat) : Circuit :=
  ⟨"ghz", numQubits, numQubits,
    (.elementary .h [0] :: chainGates (numQubits - 1) ++ measurementsInOrder numQubits).toArray⟩

theorem fits_ghzProgram (numQubits : Nat) (inhabited : 1 ≤ numQubits) : (ghzProgram numQubits).Fits := by
  intro instruction member
  change instruction.Fits numQubits numQubits
  rcases List.mem_append.mp member with gate | measured
  · rcases List.mem_cons.mp gate with rfl | linked
    · exact Instruction.fits_elementary rfl ⟨List.forall_mem_singleton.mpr inhabited, List.nodup_singleton 0⟩
    · obtain ⟨qubit, listed, rfl⟩ := List.mem_map.mp linked
      have inside : qubit + 1 < numQubits := Nat.add_lt_of_lt_sub (List.mem_range.mp listed)
      refine Instruction.fits_elementary rfl ⟨?_, by simp⟩
      exact List.forall_mem_cons.mpr ⟨Nat.lt_of_succ_lt inside, List.forall_mem_singleton.mpr inside⟩
  · obtain ⟨qubit, listed, rfl⟩ := List.mem_map.mp measured
    have inside : qubit < numQubits := List.mem_range.mp listed
    refine Instruction.fits_measure_iff.mpr ⟨⟨?_, List.nodup_singleton qubit⟩, rfl, ?_⟩
    all_goals exact List.forall_mem_singleton.mpr inside

theorem ghz_eq (inhabited : 1 ≤ numQubits) : ghz numQubits = .ok (ghzProgram numQubits) := by
  unfold ghz
  rw [if_neg (Nat.ne_of_gt inhabited)]
  exact ofInstructions_eq_ok_iff.mpr ⟨fits_ghzProgram numQubits inhabited, rfl⟩

theorem stands_ghz {α : Type} [Zero α] [One α] [Neg α] [Add α] [Mul α] [GateScalar α] {marked : Bool → α → Prop}
    (marks : Marks marked) (inhabited : 1 ≤ numQubits) : Stands marked numQubits numQubits
      ((Statevector.ground numQubits : Statevector α).applyAll (ghzProgram numQubits).instructions.toList) := by
  have measured (state : Statevector α) : state.applyAll (measurementsInOrder numQubits) = state := by
    rw [Statevector.applyAll, measurementsInOrder, List.foldl_map]
    exact List.foldl_fixed' (fun _ => rfl) _
  have chained := marks.chained (Nat.sub_lt inhabited Nat.one_pos)
  rw [Nat.sub_add_cancel inhabited] at chained
  rw [← measured (Statevector.applyAll ..)] at chained
  rwa [Statevector.applyAll, Statevector.applyAll, ← List.foldl_append] at chained

/-- The state with one amplitude at the index of zeros and at that of ones, and none elsewhere. -/
noncomputable def ghzState (numQubits : Nat) (amplitude : ℂ) : Statevector ℂ :=
  ⟨numQubits, Vector.ofFn fun index => if index.val = 0 ∨ index.val = 2 ^ numQubits - 1 then amplitude else 0⟩

theorem marks_exact :
    Marks fun ends (amplitude : ℂ) => amplitude = (if ends then 1 / (Real.sqrt 2 : ℝ) else 0 : ℂ) := by
  have root : (GateScalar.invSqrtTwo : ℂ) = 1 / (Real.sqrt 2 : ℝ) := rfl
  refine ⟨?_, ?_, ?_, ?_, ?_, ?_⟩
  all_goals simp [root]

theorem finalState_ghz (inhabited : 1 ≤ numQubits) :
    (ghzProgram numQubits).finalState = ghzState numQubits (1 / (Real.sqrt 2 : ℝ)) := by
  obtain ⟨amplitudes, reached, known⟩ := stands_ghz marks_exact inhabited
  refine reached.trans ?_
  unfold ghzState
  congr 1
  refine Vector.ext fun index inside => ?_
  rw [Vector.getElem_ofFn]
  exact (known ⟨index, inside⟩).trans (if_congr decide_eq_true_iff rfl rfl)

def zeros (numQubits : Nat) : String := String.ofList (List.replicate numQubits '0')

def ones (numQubits : Nat) : String := String.ofList (List.replicate numQubits '1')

theorem wiring_ghz (numQubits : Nat) :
    (ghzProgram numQubits).wiring = (List.range numQubits).map fun place => (place, place) := by
  have silent (links : Nat) : (chainGates links).flatMap Instruction.connections = [] := by
    rw [chainGates, List.flatMap_map]
    exact List.flatMap_eq_nil_iff.mpr fun _ _ => rfl
  rw [wiring_eq]
  change (Instruction.elementary .h [0] :: chainGates (numQubits - 1) ++ measurementsInOrder numQubits).flatMap
    Instruction.connections = _
  rw [List.flatMap_append, List.flatMap_cons, silent, measurementsInOrder, List.flatMap_map]
  exact List.flatMap_pure_eq_map ..

theorem recordedBits_ghz (numQubits index : Nat) :
    recordedBits (ghzProgram numQubits).wiring numQubits index = (List.range numQubits).map index.testBit := by
  have written (count : Nat) (inside : count ≤ numQubits) :
      (List.range count).foldl (fun bits place => bits.set place (index.testBit place)) (List.replicate numQubits false) =
        (List.range count).map index.testBit ++ List.replicate (numQubits - count) false := by
    induction count with
    | zero => rfl
    | succ count ih =>
      have rest : numQubits - count = numQubits - (count + 1) + 1 := by omega
      rw [List.range_succ, List.foldl_append, ih (Nat.le_of_succ_le inside), rest, List.replicate_succ]
      simp
  have whole := written numQubits (Nat.le_refl _)
  rw [Nat.sub_self, List.replicate_zero, List.append_nil] at whole
  rw [wiring_ghz, recordedBits, List.foldl_map]
  exact whole

theorem bitText_of_ends {index : Nat} {value : Bool} (bits : ∀ place < numQubits, index.testBit place = value) :
    bitText (recordedBits (ghzProgram numQubits).wiring numQubits index) =
      String.ofList (List.replicate numQubits (if value then '1' else '0')) := by
  have same : (List.range numQubits).map index.testBit = List.replicate numQubits value := by
    refine List.eq_replicate_iff.mpr ⟨by simp, fun bit member => ?_⟩
    obtain ⟨place, inside, rfl⟩ := List.mem_map.mp member
    exact bits place (List.mem_range.mp inside)
  rw [recordedBits_ghz, same, bitText, List.map_replicate]

theorem bitText_zero (numQubits : Nat) :
    bitText (recordedBits (ghzProgram numQubits).wiring numQubits 0) = zeros numQubits :=
  bitText_of_ends fun place _ => Nat.zero_testBit place

theorem bitText_lowerBits (numQubits : Nat) :
    bitText (recordedBits (ghzProgram numQubits).wiring numQubits (2 ^ numQubits - 1)) = ones numQubits := by
  have set : ∀ place < numQubits, (2 ^ numQubits - 1).testBit place = true := by
    intro place inside
    rw [Nat.testBit_two_pow_sub_one]
    exact decide_eq_true inside
  exact bitText_of_ends set

/-- All qubits are found clear or all are found set. -/
def Uniform (numQubits : Nat) (text : String) : Prop := text = zeros numQubits ∨ text = ones numQubits

instance (numQubits : Nat) (text : String) : Decidable (Uniform numQubits text) :=
  inferInstanceAs (Decidable (_ ∨ _))

theorem uniform_of_atEnd {index : Nat} (ends : AtEnd numQubits index) :
    Uniform numQubits (bitText (recordedBits (ghzProgram numQubits).wiring numQubits index)) := by
  rcases ends with rfl | rfl
  · exact .inl (bitText_zero numQubits)
  · exact .inr (bitText_lowerBits numQubits)

theorem zeros_ne_ones (inhabited : 1 ≤ numQubits) : zeros numQubits ≠ ones numQubits := by
  intro same
  have lists : List.replicate numQubits '0' = List.replicate numQubits '1' := String.ofList_injective same
  rcases List.replicate_inj.mp lists with ⟨-, none | equal⟩
  · exact absurd inhabited (by rw [none]; decide)
  · exact absurd equal (by decide)

theorem sampledChance_eq {circuit : Circuit} {state : Statevector ℂ} (reached : circuit.finalState = state)
    (text : String) : circuit.sampledChance text = ∑ index : Fin (Nat.pow 2 state.numQubits),
      if bitText (recordedBits circuit.wiring circuit.numClbits index) = text then
        Complex.normSq (state.amplitudes.get index) else 0 := by
  subst reached
  unfold sampledChance
  apply Finset.sum_congr rfl
  intro index _
  congr 1
  exact Vector.getElem_map ..

theorem normSq_ghzState (amplitude : ℂ) (index : Index numQubits) :
    Complex.normSq ((ghzState numQubits amplitude).amplitudes.get index) =
      if AtEnd numQubits index then Complex.normSq amplitude else 0 := by
  have entry : (ghzState numQubits amplitude).amplitudes.get index =
      if AtEnd numQubits index then amplitude else 0 := Vector.getElem_ofFn ..
  rw [entry, apply_ite Complex.normSq, Complex.normSq_zero]

theorem normSq_rootHalf : Complex.normSq (1 / (Real.sqrt 2 : ℝ)) = 1 / 2 := by
  rw [map_div₀, Complex.normSq_one, Complex.normSq_ofReal, Real.mul_self_sqrt (by norm_num)]

theorem sampledChance_ghz (inhabited : 1 ≤ numQubits) (text : String) :
    (ghzProgram numQubits).sampledChance text = if Uniform numQubits text then 1 / 2 else 0 := by
  let low : Index numQubits := ⟨0, Nat.two_pow_pos numQubits⟩
  let high : Index numQubits := ⟨2 ^ numQubits - 1, Nat.sub_lt (Nat.two_pow_pos numQubits) Nat.one_pos⟩
  have apart : low ≠ high := by
    intro same
    have size : 2 ^ 1 ≤ 2 ^ numQubits := Nat.pow_le_pow_right (by decide) inhabited
    have values : 0 = 2 ^ numQubits - 1 := congrArg Fin.val same
    omega
  have rest (index : Index numQubits) (between : index ≠ low ∧ index ≠ high) : ¬AtEnd numQubits index := by
    rintro (zero | upper)
    · exact between.1 (Fin.ext zero)
    · exact between.2 (Fin.ext upper)
  rw [sampledChance_eq (finalState_ghz inhabited)]
  refine (Fintype.sum_eq_add low high apart fun index between => ?_).trans ?_
  · rw [normSq_ghzState, if_neg (rest index between), ite_self]
  · have lowEnd : AtEnd numQubits low := .inl rfl
    have highEnd : AtEnd numQubits high := .inr rfl
    rw [normSq_ghzState, normSq_ghzState, if_pos lowEnd, if_pos highEnd, normSq_rootHalf]
    change (if bitText (recordedBits _ numQubits 0) = text then (1 / 2 : ℝ) else 0) +
      (if bitText (recordedBits _ numQubits (2 ^ numQubits - 1)) = text then 1 / 2 else 0) = _
    rw [bitText_zero, bitText_lowerBits]
    by_cases clear : zeros numQubits = text
    · have other : ones numQubits ≠ text := fun set => zeros_ne_ones inhabited (clear.trans set.symm)
      rw [if_pos clear, if_neg other, add_zero, if_pos (.inl clear.symm)]
    · rw [if_neg clear, zero_add]
      refine if_congr ?_ rfl rfl
      exact ⟨fun set => .inr set.symm, fun uniform => (uniform.resolve_left (Ne.symm clear)).symm⟩

end Circuit

deriving instance DecidableEq for FloatComplex

def roundedRoot : Float := 0.7071067811865476

/-- What is computed at an end of the chain and elsewhere; the signs of zeros depend on the way there. -/
def roundedValues : Bool → List FloatComplex
  | true => [⟨roundedRoot, 0⟩, ⟨roundedRoot, -0⟩]
  | false => [⟨0, 0⟩, ⟨0, -0⟩, ⟨-0, 0⟩, ⟨-0, -0⟩]

theorem marks_rounded : Marks fun ends amplitude => amplitude ∈ roundedValues ends := by
  have kept : ∀ one other, ∀ low ∈ roundedValues one, ∀ high ∈ roundedValues other,
      1 * low + 0 * high ∈ roundedValues one ∧ 0 * low + 1 * high ∈ roundedValues other := by decide
  refine ⟨by decide, by decide, by decide, by decide, fun low high => ?_, fun low high => ?_⟩
  · exact (kept _ _ _ low _ high).1
  · exact (kept _ _ _ low _ high).2

/-- The weight of either end, a little above one half. -/
def endWeight : Float := roundedRoot * roundedRoot

theorem normSq_of_rounded : ∀ ends, ∀ amplitude ∈ roundedValues ends,
    amplitude.normSq = if ends then endWeight else 0 := by decide

def endWeights (gap : Nat) : List Float := endWeight :: List.replicate gap 0 ++ [endWeight]

theorem foldl_addWeight_zeros (gap : Nat) (sums : Array Float) :
    (List.replicate gap 0).foldl addWeight (sums, endWeight) = (sums ++ Array.replicate gap endWeight, endWeight) := by
  have unchanged : endWeight + 0 = endWeight := by decide
  induction gap generalizing sums with
  | zero => simp
  | succ gap ih => simp [List.replicate_succ, addWeight, unchanged, ih, Array.replicate_succ']

theorem ofArray_endWeights (gap : Nat) : Weights.ofArray (endWeights gap).toArray =
    .ok ⟨Array.replicate (gap + 1) endWeight, endWeight + endWeight⟩ := by
  have nonneg : ∀ weight ∈ (endWeights gap).toArray, weight ≥ 0 := by
    have least : endWeight ≥ 0 ∧ (0 : Float) ≥ 0 := by decide
    intro weight member
    rcases List.mem_append.mp (List.mem_toArray.mp member) with early | last
    · rcases List.mem_cons.mp early with rfl | between
      · exact least.1
      · exact List.eq_of_mem_replicate between ▸ least.2
    · exact List.mem_singleton.mp last ▸ least.1
  have added : (endWeights gap).toArray.foldl addWeight (#[], 0) =
      ((Array.replicate (gap + 1) endWeight).push (endWeight + endWeight), endWeight + endWeight) := by
    have first : addWeight (#[], 0) endWeight = (#[endWeight], endWeight) := by decide
    rw [List.foldl_toArray, endWeights, List.foldl_concat, List.foldl_cons, first, foldl_addWeight_zeros]
    simp [addWeight, Array.replicate_succ']
  have made := Weights.ofArray_of_sums nonneg added (by decide)
  rwa [Array.pop_push] at made

/-- The partial sums are equal, so the index that is found is the first or the last one. -/
theorem sample_endWeights {σ : Type} [WordSource σ] (gap : Nat) :
    Always (Weights.sample ⟨Array.replicate (gap + 1) endWeight, endWeight + endWeight⟩ : Draw σ Nat)
      fun index => index = 0 ∨ index = gap + 1 := by
  refine Always.bind (Always.trivial _) fun share _ => Always.pure ?_
  have alike : ∀ place < gap + 1, (Array.replicate (gap + 1) endWeight)[place]?.any
      (· ≤ share * (endWeight + endWeight)) = decide (endWeight ≤ share * (endWeight + endWeight)) := by
    intro place inside
    rw [Array.getElem?_replicate, if_pos inside]
    rfl
  dsimp only
  rw [Array.size_replicate, countUpTo_of_alike (Nat.zero_le _) alike]
  split
  · exact .inr rfl
  · exact .inl rfl

theorem getElem_endWeights {gap index : Nat} (inside : index < (endWeights gap).length) :
    (endWeights gap)[index] = if index = 0 ∨ index = gap + 1 then endWeight else 0 := by
  cases index with
  | zero => rfl
  | succ index =>
    simp only [endWeights, List.cons_append, List.getElem_cons_succ, List.getElem_append, List.getElem_replicate,
      List.length_replicate, List.getElem_singleton]
    split
    next between =>
      rw [if_neg (by omega)]
    next last =>
      have length : (endWeights gap).length = gap + 2 := by simp [endWeights]
      rw [if_pos (by omega)]

theorem probabilities_of_stands {numQubits gap : Nat} (size : 2 ^ numQubits = gap + 2) {state : Statevector FloatComplex}
    (stands : Stands (fun ends amplitude => amplitude ∈ roundedValues ends) numQubits numQubits state) :
    state.probabilities.toArray = (endWeights gap).toArray := by
  obtain ⟨amplitudes, rfl, known⟩ := stands
  have length : (endWeights gap).length = gap + 2 := by simp [endWeights]
  apply Array.ext
  · exact (Vector.size_toArray _).trans (size.trans length.symm)
  · intro index inside within
    let place : Index numQubits := ⟨index, by simpa using inside⟩
    have last : index = 2 ^ numQubits - 1 ↔ index = gap + 1 := by omega
    refine Eq.trans (b := (amplitudes.get place).normSq) (Vector.getElem_map ..) ?_
    rw [normSq_of_rounded _ _ (known place), List.getElem_toArray, getElem_endWeights]
    exact if_congr (decide_eq_true_iff.trans (or_congr_right last)) rfl rfl

namespace Circuit

variable {numQubits : Nat}

theorem measuresAtEnd_ghz (numQubits : Nat) : (ghzProgram numQubits).measuresAtEnd = true := by
  have measured (flag : Bool) (qubits : List Nat) :
      endsInMeasurements flag (qubits.map fun qubit => .measure [qubit] [qubit]) = true := by
    induction qubits generalizing flag with
    | nil => cases flag <;> rfl
    | cons qubit qubits ih => cases flag <;> exact ih true
  have linked (qubits : List Nat) (later : List Instruction) (ends : endsInMeasurements false later = true) :
      endsInMeasurements false ((qubits.map fun qubit => .elementary .cx [qubit, qubit + 1]) ++ later) = true := by
    induction qubits with
    | nil => exact ends
    | cons qubit qubits ih => exact ih
  exact linked _ _ (measured false _)

theorem finalWeights_ghz (inhabited : 1 ≤ numQubits) {gap : Nat} (size : 2 ^ numQubits = gap + 2) :
    (ghzProgram numQubits).finalWeights = .ok ⟨Array.replicate (gap + 1) endWeight, endWeight + endWeight⟩ := by
  have stands := stands_ghz marks_rounded inhabited
  have probabilities := probabilities_of_stands size stands
  exact (congrArg Weights.ofArray probabilities).trans (ofArray_endWeights gap)

theorem execute_ghz {σ : Type} [WordSource σ] (inhabited : 1 ≤ numQubits) {shots : Nat} (word : shots < 2 ^ 64) :
    Always ((ghzProgram numQubits).execute shots : ExceptT ExecutionError (Draw σ) Counts).run
      fun outcome => ∃ counts, outcome = .ok counts ∧ counts.Tallies (Uniform numQubits) shots := by
  obtain ⟨gap, size⟩ : ∃ gap, 2 ^ numQubits = gap + 2 := by
    have least : 2 ^ 1 ≤ 2 ^ numQubits := Nat.pow_le_pow_right (by decide) inhabited
    exact ⟨2 ^ numQubits - 2, by omega⟩
  have sampled : Always (Weights.sample _ : Draw σ Nat) (AtEnd numQubits) :=
    (sample_endWeights gap).mono fun index ends => ends.imp_right fun last => by omega
  unfold execute
  rw [if_pos (measuresAtEnd_ghz numQubits)]
  exact sampleAtEnd_tallies (finalWeights_ghz inhabited size) sampled (fun index ends => uniform_of_atEnd ends) word

/-- A GHZ program of any size leaves equal amplitudes at the index of zeros and at that of ones, and none elsewhere.
Only uniform texts have a chance, and rounding adds no others: all shots of an execution come out uniform. -/
theorem ghz_entangled (inhabited : 1 ≤ numQubits) : ∃ circuit, ghz numQubits = .ok circuit ∧
    circuit.finalState = ghzState numQubits (1 / (Real.sqrt 2 : ℝ)) ∧
    (∀ text, circuit.sampledChance text = if Uniform numQubits text then 1 / 2 else 0) ∧
    ∀ (σ : Type) [WordSource σ] (source : σ) (shots : Nat), shots < 2 ^ 64 →
      ∃ counts, ((circuit.execute shots).run.run source).1 = .ok counts ∧
        counts.Tallies (Uniform numQubits) shots := by
  refine ⟨ghzProgram numQubits, ghz_eq inhabited, finalState_ghz inhabited, sampledChance_ghz inhabited, ?_⟩
  intro σ _ source shots word
  exact execute_ghz inhabited word source

theorem ghz_entangled_three : 1 ≤ 3 ∧ 5 < 2 ^ 64 ∧ ∃ circuit, ghz 3 = .ok circuit ∧
    circuit.finalState = ghzState 3 (1 / (Real.sqrt 2 : ℝ)) ∧
    circuit.sampledChance "111" = 1 / 2 ∧ circuit.sampledChance "110" = 0 ∧
    ∃ counts, ((circuit.execute 5).run.run (ChaCha.ofSeed 7)).1 = .ok counts ∧ counts.Tallies (Uniform 3) 5 := by
  obtain ⟨circuit, built, state, chances, executed⟩ := ghz_entangled (by decide : 1 ≤ 3)
  refine ⟨by decide, by decide, circuit, built, state, ?_, ?_, executed ChaCha (.ofSeed 7) 5 (by decide)⟩
  · exact (chances "111").trans (if_pos (by decide))
  · exact (chances "110").trans (if_neg (by decide))

end Circuit

end CircuitCloak

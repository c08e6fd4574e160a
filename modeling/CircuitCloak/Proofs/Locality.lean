import CircuitCloak.Library.Basic
import CircuitCloak.Proofs.ExactScalars
import CircuitCloak.Proofs.Motions
import CircuitCloak.Proofs.Wrapping
import Mathlib.Algebra.BigOperators.Ring.Finset

/-! Gates on a few operands do the same in every register: fixing all other bits cuts a wave into small
ones, on which the gates act by the positions of their operands. So two short runs of gates agree in
every register, up to a phase, as soon as they agree on the basis of the small one, and that is computed
over exact numbers. -/

namespace CircuitCloak

/-- The index in which the bits of the operands are those of a small index. -/
def overwrite (index : Nat) : List Nat → Nat → Nat
  | [], _ => index
  | operand :: rest, small => withBit (overwrite index rest (small / 2)) operand (small.testBit 0)

/-- The small index of the bits of the operands. -/
def gather (index : Nat) : List Nat → Nat
  | [] => 0
  | operand :: rest => 2 * gather index rest + (index.testBit operand).toNat

theorem gather_lt (index : Nat) (operands : List Nat) : gather index operands < 2 ^ operands.length := by
  induction operands with
  | nil => exact Nat.one_pos
  | cons operand rest ih =>
    have bit := Bool.toNat_le (index.testBit operand)
    rw [gather, List.length_cons, Nat.pow_succ]
    omega

theorem testBit_gather (index : Nat) {operands : List Nat} {place : Nat} (inside : place < operands.length) :
    (gather index operands).testBit place = index.testBit operands[place] := by
  induction operands generalizing place with
  | nil => cases inside
  | cons operand rest ih =>
    cases place with
    | zero =>
      rw [gather, Nat.testBit_zero, List.getElem_cons_zero]
      cases index.testBit operand <;> simp
    | succ place =>
      have half : (2 * gather index rest + (index.testBit operand).toNat) / 2 = gather index rest := by
        have bit := Bool.toNat_le (index.testBit operand)
        omega
      rw [gather, Nat.testBit_succ, half, ih (Nat.lt_of_succ_lt_succ inside)]
      rfl

theorem testBit_overwrite_of_not_mem {index : Nat} {operands : List Nat} {qubit : Nat}
    (absent : qubit ∉ operands) (small : Nat) :
    (overwrite index operands small).testBit qubit = index.testBit qubit := by
  induction operands generalizing small with
  | nil => rfl
  | cons operand rest ih =>
    obtain ⟨different, absent⟩ := not_or.mp (List.mem_cons.not.mp absent)
    rw [overwrite, testBit_withBit_of_ne different, ih absent]

theorem testBit_overwrite_getElem {operands : List Nat} (distinct : operands.Nodup) (index small : Nat)
    {place : Nat} (inside : place < operands.length) :
    (overwrite index operands small).testBit operands[place] = small.testBit place := by
  induction operands generalizing small place with
  | nil => cases inside
  | cons operand rest ih =>
    obtain ⟨absent, distinct⟩ := List.nodup_cons.mp distinct
    cases place with
    | zero => exact testBit_withBit_self _ _ _
    | succ place =>
      have within := Nat.lt_of_succ_lt_succ inside
      have different : rest[place] ≠ operand := fun same => absent (same ▸ List.getElem_mem within)
      rw [List.getElem_cons_succ, overwrite, testBit_withBit_of_ne different, ih distinct _ within,
        Nat.testBit_succ]

/-- Two indices are the same if they agree on the operands and elsewhere. -/
theorem eq_of_operands (operands : List Nat) {first second : Nat}
    (inside : ∀ place (within : place < operands.length),
      first.testBit operands[place] = second.testBit operands[place])
    (outside : ∀ qubit ∉ operands, first.testBit qubit = second.testBit qubit) : first = second := by
  refine Nat.eq_of_testBit_eq fun qubit => ?_
  by_cases member : qubit ∈ operands
  · obtain ⟨place, within, rfl⟩ := List.getElem_of_mem member
    exact inside place within
  · exact outside qubit member

theorem overwrite_gather {operands : List Nat} (distinct : operands.Nodup) (index : Nat) :
    overwrite index operands (gather index operands) = index := by
  refine eq_of_operands operands (fun place within => ?_) fun qubit absent => testBit_overwrite_of_not_mem absent _
  rw [testBit_overwrite_getElem distinct, testBit_gather index within]

theorem overwrite_withBit {operands : List Nat} (distinct : operands.Nodup) (index small : Nat) {place : Nat}
    (inside : place < operands.length) (value : Bool) :
    overwrite index operands (withBit small place value) =
      withBit (overwrite index operands small) operands[place] value := by
  refine eq_of_operands operands (fun other within => ?_) fun qubit absent => ?_
  · rw [testBit_overwrite_getElem distinct index _ within, testBit_withBit, testBit_withBit,
      testBit_overwrite_getElem distinct index _ within]
    exact if_congr (List.Nodup.getElem_inj_iff distinct).symm rfl rfl
  · have different : qubit ≠ operands[place] := fun same => absent (same ▸ List.getElem_mem inside)
    rw [testBit_withBit_of_ne different, testBit_overwrite_of_not_mem absent,
      testBit_overwrite_of_not_mem absent]

namespace Wave

variable {α : Type}

/-- The small wave of the operands where all other bits are those of an index. -/
def slice (index : Nat) (operands : List Nat) (wave : Wave α) : Wave α :=
  fun small => wave (overwrite index operands small)

theorem slice_gather {operands : List Nat} (distinct : operands.Nodup) (wave : Wave α) (index : Nat) :
    wave.slice index operands (gather index operands) = wave index := by
  rw [slice, overwrite_gather distinct]

end Wave

namespace Motion

variable {α : Type}

/-- A motion on operands acts on slices as it does on their positions. -/
theorem slice_change [Add α] [Mul α] {operands : List Nat} (distinct : operands.Nodup) {motion : Motion α}
    (inside : ∀ place ∈ motion.qubits, place < operands.length) (wave : Wave α) (index : Nat) :
    ((motion.mapQubits fun place => operands.getD place 0).change wave).slice index operands =
      motion.change (wave.slice index operands) := by
  have read : ∀ place, place < operands.length → ∀ small,
      (overwrite index operands small).testBit (operands.getD place 0) = small.testBit place := by
    intro place within small
    rw [getD_of_lt within, testBit_overwrite_getElem distinct index small within]
  have write : ∀ place, place < operands.length → ∀ small value,
      withBit (overwrite index operands small) (operands.getD place 0) value =
        overwrite index operands (withBit small place value) := by
    intro place within small value
    rw [getD_of_lt within, overwrite_withBit distinct index small within]
  have controls : ∀ places : List Nat, (∀ place ∈ places, place < operands.length) → ∀ small,
      allSet (places.map fun place => operands.getD place 0) (overwrite index operands small) =
        allSet places small := by
    intro places within small
    rw [allSet, allSet, List.all_map, Bool.eq_iff_iff, List.all_eq_true, List.all_eq_true]
    refine forall₂_congr fun place member => ?_
    rw [Function.comp_apply, read place (within place member)]
  funext small
  cases motion with
  | still => rfl
  | turn places target matrix =>
    have target_lt : target < operands.length := inside target (by simp [qubits])
    have places_lt : ∀ place ∈ places, place < operands.length :=
      fun place member => inside place (by simp [qubits, member])
    simp only [Wave.slice, mapQubits, change, Wave.turned, controls places places_lt, read target target_lt,
      write target target_lt]
  | exchange places first second =>
    have first_lt : first < operands.length := inside first (by simp [qubits])
    have second_lt : second < operands.length := inside second (by simp [qubits])
    have places_lt : ∀ place ∈ places, place < operands.length :=
      fun place member => inside place (by simp [qubits, member])
    simp only [Wave.slice, mapQubits, change, Wave.exchanged, controls places places_lt, exchangeBits,
      read first first_lt, read second second_lt, write first first_lt, write second second_lt]

end Motion

namespace PlacedGate

variable {α : Type} [Zero α] [One α] [Neg α] [Add α] [Mul α] [GateScalar α]

def run (steps : List PlacedGate) (wave : Wave α) : Wave α :=
  steps.foldl (fun wave step => (step.gate.motion step.operands).change wave) wave

/-- The operands of every gate are positions below a width. -/
def Within (width : Nat) (steps : List PlacedGate) : Prop :=
  ∀ step ∈ steps, ∀ place ∈ step.operands, place < width

omit [Add α] [Mul α] in
theorem qubits_lt {width : Nat} {step : PlacedGate} (inside : ∀ place ∈ step.operands, place < width) :
    ∀ place ∈ (step.gate.motion step.operands : Motion α).qubits, place < width := by
  rcases step.gate.motion_qubits (α := α) step.operands with same | none
  · rw [same]
    exact inside
  · rw [none]
    exact nofun

/-- The gates on the operands that their positions stand for. -/
def onto (operands : List Nat) (steps : List PlacedGate) : List PlacedGate :=
  steps.map fun step => ⟨step.gate, mapOperands operands step.operands⟩

theorem slice_run {operands : List Nat} (distinct : operands.Nodup) {steps : List PlacedGate}
    (within : Within operands.length steps) (wave : Wave α) (index : Nat) :
    (run (onto operands steps) wave).slice index operands = run steps (wave.slice index operands) := by
  induction steps generalizing wave with
  | nil => rfl
  | cons step rest ih =>
    obtain ⟨here, others⟩ := List.forall_mem_cons.mp within
    change (run (onto operands rest) ((step.gate.motion (mapOperands operands step.operands)).change wave)).slice
      index operands = run rest ((step.gate.motion step.operands).change (wave.slice index operands))
    rw [ih others, mapOperands, step.gate.motion_map, Motion.slice_change distinct (qubits_lt here)]

end PlacedGate

namespace Wave

def basis {α : Type} [Zero α] [One α] (place : Nat) : Wave α := fun index => if index = place then 1 else 0

variable {α : Type} [CommRing α]

/-- A motion inside a width maps sums of waves to sums, index by index. -/
theorem change_sum {motion : Motion α} {width : Nat} (inside : ∀ place ∈ motion.qubits, place < width)
    {wave : Wave α} {weights : Nat → α} {parts : Nat → Wave α}
    (sum : ∀ index < 2 ^ width, wave index = ∑ place ∈ Finset.range (2 ^ width), weights place * parts place index) :
    ∀ index < 2 ^ width, motion.change wave index =
      ∑ place ∈ Finset.range (2 ^ width), weights place * motion.change (parts place) index := by
  intro index small
  cases motion with
  | still => exact sum index small
  | turn controls target matrix =>
    have target_lt : target < width := inside target (by simp [Motion.qubits])
    have near : ∀ value, withBit index target value < 2 ^ width :=
      fun value => (withBit_lt_iff target_lt index value).mpr small
    simp only [Motion.change, turned]
    split
    next =>
      rw [sum _ (near false), sum _ (near true), Finset.mul_sum, Finset.mul_sum, ← Finset.sum_add_distrib]
      refine Finset.sum_congr rfl fun place _ => ?_
      ring
    next => exact sum index small
  | exchange controls first second =>
    have first_lt : first < width := inside first (by simp [Motion.qubits])
    have second_lt : second < width := inside second (by simp [Motion.qubits])
    simp only [Motion.change, exchanged]
    split
    next => exact sum _ ((withBit_lt_iff second_lt _ _).mpr ((withBit_lt_iff first_lt _ _).mpr small))
    next => exact sum index small

end Wave

namespace PlacedGate

/-- A run of gates is known from what it makes of the basis. -/
theorem run_eq_sum {α : Type} [CommRing α] [GateScalar α] {width : Nat} {steps : List PlacedGate}
    (within : Within width steps) (wave : Wave α) :
    ∀ index < 2 ^ width, run steps wave index =
      ∑ place ∈ Finset.range (2 ^ width), wave place * run steps (Wave.basis place) index := by
  induction steps using List.reverseRecOn with
  | nil =>
    intro index small
    simp [run, Wave.basis, small]
  | append_singleton steps step ih =>
    obtain ⟨earlier, last⟩ := List.forall_mem_append.mp within
    intro index small
    simp only [run, List.foldl_append, List.foldl_cons, List.foldl_nil]
    exact Wave.change_sum (qubits_lt (last step (by simp))) (ih earlier) index small

end PlacedGate

def QubitMatrix.map {α β : Type} (f : α → β) (matrix : QubitMatrix α) : QubitMatrix β :=
  ⟨f matrix.zeroZero, f matrix.zeroOne, f matrix.oneZero, f matrix.oneOne⟩

def Motion.map {α β : Type} (f : α → β) : Motion α → Motion β
  | still => still
  | turn controls target matrix => turn controls target (matrix.map f)
  | exchange controls first second => exchange controls first second

namespace Exact

theorem targetMatrix_value (gate : Elementary) :
    (targetMatrix? gate : Option (QubitMatrix Exact)).map (QubitMatrix.map value) = targetMatrix? gate := by
  cases gate <;>
    simp [targetMatrix?, discreteMatrix?, flipMatrix, QubitMatrix.map, Elementary.isDiscrete, Elementary.angles,
      GateScalar.rotation?]

theorem ofMatrix_value (controls : List Nat) (target : Nat) (gate : Elementary) :
    (Motion.ofMatrix controls target (targetMatrix? gate)).map value =
      Motion.ofMatrix controls target (targetMatrix? gate) := by
  rw [← targetMatrix_value gate]
  cases (targetMatrix? gate : Option (QubitMatrix Exact)) <;> rfl

theorem motion_value (gate : Elementary) (qubits : List Nat) :
    (gate.motion qubits : Motion Exact).map value = gate.motion qubits := by
  unfold Elementary.motion
  split <;> first | rfl | exact ofMatrix_value _ _ _

theorem change_value (motion : Motion Exact) (wave : Wave Exact) :
    (motion.map value).change (value ∘ wave) = value ∘ motion.change wave := by
  have entry : ∀ (matrix : QubitMatrix Exact) row column,
      (matrix.map value).entry row column = value (matrix.entry row column) := by
    intro matrix row column
    cases row <;> cases column <;> rfl
  funext index
  cases motion with
  | still => rfl
  | turn controls target matrix =>
    simp only [Motion.map, Motion.change, Wave.turned, Function.comp_apply, entry]
    split <;> simp
  | exchange controls first second =>
    simp only [Motion.map, Motion.change, Wave.exchanged, Function.comp_apply]
    split <;> rfl

theorem run_value (steps : List PlacedGate) (wave : Wave Exact) :
    PlacedGate.run steps (value ∘ wave) = value ∘ PlacedGate.run steps wave := by
  induction steps generalizing wave with
  | nil => rfl
  | cons step rest ih =>
    change PlacedGate.run rest ((step.gate.motion step.operands).change (value ∘ wave)) =
      value ∘ PlacedGate.run rest ((step.gate.motion step.operands).change wave)
    rw [← ih, ← change_value, motion_value]

theorem basis_value (place : Nat) : (Wave.basis place : Wave ℂ) = value ∘ Wave.basis place := by
  funext index
  simp only [Wave.basis, Function.comp_apply]
  split <;> simp

end Exact

namespace PlacedGate

/-- Two runs make the same of every basis wave of a width, up to a given power of `e^(iπ/4)`. -/
def AgreeBy (count width : Nat) (first second : List PlacedGate) : Prop :=
  ∀ place < 2 ^ width, ∀ index < 2 ^ width,
    Exact.same ((run first (Wave.basis place) : Wave Exact) index)
      (Exact.turn count * run second (Wave.basis place) index) = true

instance (count width : Nat) (first second : List PlacedGate) : Decidable (AgreeBy count width first second) :=
  inferInstanceAs (Decidable (∀ place < 2 ^ width, _))

/-- Two runs make the same of every basis wave of a width, up to one power of `e^(iπ/4)`. -/
def Agree (width : Nat) (first second : List PlacedGate) : Prop := ∃ count < 8, AgreeBy count width first second

instance (width : Nat) (first second : List PlacedGate) : Decidable (Agree width first second) :=
  inferInstanceAs (Decidable (∃ count < 8, _))

/-- Runs that agree on the basis of a width agree on any operands of any register. -/
theorem run_of_agreeBy {operands : List Nat} (distinct : operands.Nodup) {first second : List PlacedGate}
    (withinFirst : Within operands.length first) (withinSecond : Within operands.length second) {count : Nat}
    (agree : AgreeBy count operands.length first second) (wave : Wave ℂ) (index : Nat) :
    run (onto operands first) wave index = eighthRoot ^ count * run (onto operands second) wave index := by
  have small := gather_lt index operands
  rw [← Exact.value_turn, ← Wave.slice_gather distinct (run (onto operands first) wave), slice_run distinct withinFirst,
    ← Wave.slice_gather distinct (run (onto operands second) wave), slice_run distinct withinSecond,
    run_eq_sum withinFirst _ _ small, run_eq_sum withinSecond _ _ small, Finset.mul_sum]
  refine Finset.sum_congr rfl fun place member => ?_
  rw [Exact.basis_value, Exact.run_value, Exact.run_value, Function.comp_apply, Function.comp_apply,
    Exact.value_eq_of_same (agree place (Finset.mem_range.mp member) _ small), Exact.value_mul]
  ring

end PlacedGate

end CircuitCloak

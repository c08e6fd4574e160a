import CircuitCloak.Proofs.BoundarySafety
import Mathlib.Algebra.BigOperators.Ring.List
import Mathlib.Tactic.Ring

/-! How often injection passes over the register, and how much it puts in. Where a pass is made depends on the
length of the body alone, and a pass puts in as many gates in whatever order and on whatever qubits it draws
them; so the size of the output is known in advance. -/

namespace CircuitCloak.Injection
open CircuitCloak.Random

/-- What the loop does: it makes a pass before the instruction at an index, keeps an instruction, or makes a
pass after the one at an index. -/
inductive Event where
  | before (index : Nat)
  | keep (instruction : Instruction)
  | after (index : Nat)

def Event.isPass : Event → Bool
  | keep _ => false
  | before _ | after _ => true

/-- What is done at one instruction, in segments of the given length. -/
def events (length : Nat) (entry : Instruction × Nat) : List Event :=
  (if opens length entry.2 then [.before entry.2] else []) ++
    .keep entry.1 :: if closes length entry.2 then [.after entry.2] else []

def script (body : List Instruction) : List Event := body.zipIdx.flatMap (events (segmentSize body.length))

def perform {σ : Type} [WordSource σ] (library : Library) (frame : Frame) : Event → Draw σ (List Instruction)
  | .keep instruction => return [instruction]
  | .before _ | .after _ => pass library frame

theorem surround_eq {σ : Type} [WordSource σ] (library : Library) (frame : Frame) (length : Nat)
    (entry : Instruction × Nat) : (surround library frame length entry : Draw σ (List Instruction)) =
      List.flatten <$> (events length entry).mapM (perform library frame) := by
  unfold surround events
  by_cases opened : opens length entry.2 = true <;> by_cases closed : closes length entry.2 = true <;>
    simp [opened, closed, perform]

private theorem mapM_flatMap {m : Type → Type} [Monad m] [LawfulMonad m] {α β γ : Type} (items : List α)
    (parts : α → List β) (body : β → m (List γ)) :
    List.flatten <$> (items.flatMap parts).mapM body =
      List.flatten <$> items.mapM fun item => List.flatten <$> (parts item).mapM body := by
  induction items with
  | nil => simp
  | cons item rest ih =>
    have behind (first : List γ) := congrArg ((first ++ ·) <$> ·) ih
    simp only [map_eq_pure_bind, bind_assoc, pure_bind] at behind
    simp only [List.flatMap_cons, List.mapM_append, List.mapM_cons, map_eq_pure_bind, bind_assoc, pure_bind,
      List.flatten_append, List.flatten_cons, behind]

/-- The loop does what the script says and draws for nothing else. -/
theorem transform_eq {σ : Type} [WordSource σ] (library : Library) (body : List Instruction) (frame : Frame) :
    (transform library body frame : Draw σ (List Instruction)) =
      List.flatten <$> (script body).mapM (perform library frame) := by
  rw [script, mapM_flatMap]
  simp only [← surround_eq]
  rfl

theorem sum_map_ite {α : Type} (condition : α → Prop) [DecidablePred condition] (value : Nat) (items : List α) :
    (items.map fun item => if condition item then value else 0).sum = value * items.countP (condition ·) := by
  induction items with
  | nil => rfl
  | cons item rest ih =>
    rw [List.map_cons, List.sum_cons, ih, List.countP_cons]
    by_cases holds : condition item
    · rw [if_pos holds, if_pos (decide_eq_true holds), Nat.mul_add, Nat.mul_one, Nat.add_comm]
    · rw [if_neg holds, if_neg (by simpa using holds), Nat.zero_add, Nat.add_zero]

theorem segmentSize_pos (count : Nat) : 0 < segmentSize count := Nat.lt_of_lt_of_le Nat.one_pos (Nat.le_max_right _ 1)

theorem opens_iff {length index : Nat} : opens length index = true ↔ 0 < index ∧ length ∣ index := by
  rw [opens, Bool.and_eq_true, beq_iff_eq, bne_iff_ne, Nat.pos_iff_ne_zero, Nat.dvd_iff_mod_eq_zero, and_comm]

theorem closes_iff {length index : Nat} : closes length index = true ↔ index % length = length - 1 := beq_iff_eq

/-- A segment ends where the next index is a multiple of its length. -/
theorem closes_iff_dvd {length index : Nat} (positive : 0 < length) :
    closes length index = true ↔ length ∣ index + 1 := by
  have below := Nat.mod_lt index positive
  have split : length ∣ index + 1 ↔ length ∣ index % length + 1 := by
    conv_lhs => rw [← Nat.div_add_mod index length, Nat.add_assoc]
    exact Nat.dvd_add_right (Nat.dvd_mul_right length _)
  rw [closes_iff, split]
  constructor
  · intro last
    rw [last, Nat.sub_add_cancel positive]
  · intro divides
    have least := Nat.le_of_dvd (Nat.succ_pos _) divides
    omega

theorem countP_opens (length count : Nat) : (List.range count).countP (opens length) = (count - 1) / length := by
  induction count with
  | zero => simp
  | succ count ih =>
    rw [List.range_succ, List.countP_append, List.countP_singleton, ih]
    cases count with
    | zero => simp [opens]
    | succ count => simp [opens_iff, Nat.succ_div]

theorem countP_closes {length : Nat} (positive : 0 < length) (count : Nat) :
    (List.range count).countP (closes length) = count / length := by
  induction count with
  | zero => simp
  | succ count ih =>
    simp only [List.range_succ, List.countP_append, List.countP_singleton, ih, closes_iff_dvd positive, Nat.succ_div]

private theorem countP_events (length : Nat) (entry : Instruction × Nat) :
    (events length entry).countP (·.isPass) =
      (if opens length entry.2 then 1 else 0) + if closes length entry.2 then 1 else 0 := by
  unfold events
  by_cases opened : opens length entry.2 = true <;> by_cases closed : closes length entry.2 = true <;>
    simp [opened, closed, Event.isPass]

theorem countP_script (body : List Instruction) : (script body).countP (·.isPass) = passCount body.length := by
  have indices : body.zipIdx.map (·.2) = List.range body.length := by
    rw [List.zipIdx_map_snd, List.range_eq_range']
  have counted (condition : Nat → Bool) :
      (body.zipIdx.map fun entry => if condition entry.2 then 1 else 0).sum =
        (List.range body.length).countP condition := by
    rw [sum_map_ite, Nat.one_mul, ← indices, List.countP_map]
    simp only [Bool.decide_eq_true, Function.comp_def]
  simp only [script, List.countP_flatMap, Function.comp_def, countP_events, List.sum_map_add, counted, countP_opens,
    countP_closes (segmentSize_pos _), passCount]
  split
  next empty => simp [empty]
  next => rfl

theorem passCount_bounds {count : Nat} (positive : 0 < count) : 1 ≤ passCount count ∧ passCount count ≤ 9 := by
  rw [passCount, if_neg (Nat.ne_of_gt positive)]
  have size : segmentSize count = max (count / 3) 1 := rfl
  have shorter : segmentSize count ≤ count := by omega
  have first : 1 ≤ count / segmentSize count := Nat.div_pos shorter (segmentSize_pos count)
  have closing : count / segmentSize count ≤ 5 :=
    Nat.le_of_lt_succ ((Nat.div_lt_iff_lt_mul (segmentSize_pos count)).mpr (by omega))
  have opening : (count - 1) / segmentSize count ≤ 4 :=
    Nat.le_of_lt_succ ((Nat.div_lt_iff_lt_mul (segmentSize_pos count)).mpr (by omega))
  exact ⟨Nat.le_add_left_of_le first, Nat.add_le_add opening closing⟩

private theorem mem_script_iff {body : List Instruction} {event : Event} {index : Nat} {condition : Prop}
    (decided : ∀ instruction place, event ∈ events (segmentSize body.length) (instruction, place) ↔
      place = index ∧ condition) : event ∈ script body ↔ index < body.length ∧ condition := by
  simp only [script, List.mem_flatMap, Prod.exists, List.mem_zipIdx_iff_getElem?, decided]
  constructor
  · rintro ⟨instruction, _, found, rfl, holds⟩
    exact ⟨(List.getElem?_eq_some_iff.mp found).1, holds⟩
  · rintro ⟨within, holds⟩
    exact ⟨body[index], index, List.getElem?_eq_getElem within, rfl, holds⟩

theorem before_mem_script {body : List Instruction} {index : Nat} :
    .before index ∈ script body ↔ index < body.length ∧ 0 < index ∧ segmentSize body.length ∣ index := by
  rw [← opens_iff]
  exact mem_script_iff fun instruction place => by grind [events]

theorem after_mem_script {body : List Instruction} {index : Nat} :
    .after index ∈ script body ↔
      index < body.length ∧ index % segmentSize body.length = segmentSize body.length - 1 := by
  rw [← closes_iff]
  exact mem_script_iff fun instruction place => by grind [events]

def pairCount (library : Library) (frame : Frame) : Nat := library.injections.countP (·.arity ≤ frame.numQubits)

theorem length_of_pair {frame : Frame} {qubit : Nat} (inside : qubit < frame.numQubits) {gate : Elementary}
    (discrete : gate.isDiscrete = true) {run : List Instruction} (pair : Pair frame qubit gate run) :
    run.length = if gate.arity ≤ frame.numQubits then 2 else 0 := by
  cases pair with
  | absent none =>
    obtain ⟨inverse, found, _⟩ := Elementary.inverse_of_discrete discrete
    rcases none with missing | large
    · cases missing.symm.trans found
    · exact (if_neg (Nat.not_le_of_lt large)).symm
  | onQubit _ single => exact (if_pos (by omega)).symm
  | sampled _ sample =>
    have fits := Operands.length_le ⟨sample.inside, sample.distinct⟩
    exact (if_pos (sample.length ▸ fits)).symm

theorem length_of_injected {library : Library} (discrete : ∀ gate ∈ library.injections, gate.isDiscrete = true)
    {frame : Frame} {qubit : Nat} (inside : qubit < frame.numQubits) {run : List Instruction}
    (injected : Injected library frame qubit run) : run.length = 2 * pairCount library frame := by
  obtain ⟨order, permuted, parts⟩ := injected
  have lengths := parts.length_eq fun gate member _ pair =>
    length_of_pair inside (discrete gate (permuted.mem_iff.mp member)) pair
  rw [lengths, pairCount, ← permuted.countP_eq, sum_map_ite]

theorem length_of_passed {library : Library} (discrete : ∀ gate ∈ library.injections, gate.isDiscrete = true)
    {frame : Frame} {run : List Instruction} (passed : Passed library frame run) :
    run.length = frame.numQubits * (2 * pairCount library frame) := by
  have lengths := passed.length_eq fun qubit member _ injected =>
    length_of_injected discrete (Frame.mem_qubits.mp member) injected
  simpa [Frame.qubits] using lengths

theorem length_of_passedIf {library : Library} (discrete : ∀ gate ∈ library.injections, gate.isDiscrete = true)
    {frame : Frame} {condition : Bool} {run : List Instruction} (passed : PassedIf library frame condition run) :
    run.length = if condition then frame.numQubits * (2 * pairCount library frame) else 0 := by
  unfold PassedIf at passed
  split at passed
  next holds => rw [length_of_passed discrete passed, if_pos holds]
  next fails => rw [passed, if_neg fails, List.length_nil]

theorem length_of_surrounded {library : Library} (discrete : ∀ gate ∈ library.injections, gate.isDiscrete = true)
    {frame : Frame} {length : Nat} {entry : Instruction × Nat} {run : List Instruction}
    (surrounded : Surrounded library frame length entry run) :
    run.length = 1 + (events length entry).countP (·.isPass) * (frame.numQubits * (2 * pairCount library frame)) := by
  obtain ⟨before, after, rfl, opened, closed⟩ := surrounded
  rw [List.length_append, List.length_cons, length_of_passedIf discrete opened, length_of_passedIf discrete closed,
    countP_events]
  split <;> split <;> ring

/-- A pass puts in as much wherever it is made and whatever it draws. -/
theorem length_of_segmented {library : Library} (discrete : ∀ gate ∈ library.injections, gate.isDiscrete = true)
    {body output : List Instruction} {frame : Frame} (segmented : Segmented library body frame output) :
    output.length =
      body.length + 2 * passCount body.length * frame.numQubits * pairCount library frame := by
  have lengths := segmented.length_eq fun _ _ _ surrounded => length_of_surrounded discrete surrounded
  have passes : (body.zipIdx.map fun entry => (events (segmentSize body.length) entry).countP (·.isPass)).sum =
      passCount body.length := by
    rw [← countP_script, script, List.countP_flatMap]
    rfl
  rw [lengths, List.sum_map_add, List.sum_map_mul_right, passes]
  simp
  ring

/-- What injection leaves of a circuit: it fails only where an instruction does not fit, and the size of its
output is told by the size of the body, the width of the register and the pairs that fit it. -/
theorem apply_sizes {library : Library} (discrete : ∀ gate ∈ library.injections, gate.isDiscrete = true)
    (circuit : Circuit) {σ : Type} [WordSource σ] (source : σ) :
    ((∃ output, ((apply circuit library : Transform σ Circuit).run source).1 = .ok output) ↔ circuit.Fits) ∧
      ∀ output, ((apply circuit library : Transform σ Circuit).run source).1 = .ok output →
        output.body.length = circuit.body.length +
          2 * passCount circuit.body.length * circuit.numQubits * pairCount library circuit.frame := by
  obtain ⟨body, segmented, reached⟩ := apply_outcomes circuit library source
  have made : ((apply circuit library : Transform σ Circuit).run source).1 = circuit.withBody body := reached
  have kept := mem_of_segmented segmented
  have placeable := fun fits : circuit.Fits => placeable_of_segmented (placeable_body fits) segmented
  rw [made]
  refine ⟨Circuit.withBody_ok_iff_fits kept placeable, fun output done => ?_⟩
  rw [(Circuit.body_of_kept kept placeable done).2, length_of_segmented discrete segmented]
  rfl

/-- The passes over a body, and the size of what they leave, are fixed before any word is drawn. -/
theorem passes_fixed :
    (∀ (σ : Type) [WordSource σ] (library : Library) (body : List Instruction) (frame : Frame),
      (transform library body frame : Draw σ (List Instruction)) =
        List.flatten <$> (script body).mapM (perform library frame)) ∧
    (∀ body : List Instruction, (script body).countP (·.isPass) = passCount body.length ∧
      ∀ index,
        (.before index ∈ script body ↔ index < body.length ∧ 0 < index ∧ segmentSize body.length ∣ index) ∧
        (.after index ∈ script body ↔
          index < body.length ∧ index % segmentSize body.length = segmentSize body.length - 1)) ∧
    (∀ count, 0 < count → 1 ≤ passCount count ∧ passCount count ≤ 9) ∧
    ∀ (library : Library) (circuit : Circuit) (σ : Type) [WordSource σ] (source : σ), library.validate = .ok () →
      ((∃ output, ((apply circuit library : Transform σ Circuit).run source).1 = .ok output) ↔ circuit.Fits) ∧
      ∀ output, ((apply circuit library : Transform σ Circuit).run source).1 = .ok output →
        output.body.length = circuit.body.length +
          2 * passCount circuit.body.length * circuit.numQubits * pairCount library circuit.frame :=
  ⟨fun _ _ library body frame => transform_eq library body frame,
    fun body => ⟨countP_script body, fun _ => ⟨before_mem_script, after_mem_script⟩⟩,
    fun _ => passCount_bounds,
    fun _ circuit _ _ source validated => apply_sizes (Library.validate_ok_iff.mp validated).injections circuit source⟩

/-- Seven gates on a register that is too small for gates of three qubits. -/
def chain : Circuit := ⟨"chain", 2, 0, (List.replicate 7 (Instruction.elementary .h [1])).toArray⟩

/-- Segments of two instructions, and eight pairs of the standard library on each of two qubits. -/
theorem passes_fixed_chain : (0 < 7 ∧ Library.builtin.validate = .ok ()) ∧ passCount 7 ≤ 9 ∧
    ∃ output, ((apply chain .builtin : Transform SplitMix Circuit).run ⟨0⟩).1 = .ok output ∧
      output.body.length = 7 + 2 * 6 * 2 * 8 := by
  obtain ⟨_, _, bounds, sizes⟩ := passes_fixed
  obtain ⟨taken, length⟩ := sizes .builtin chain SplitMix ⟨0⟩ Library.builtin_validates
  have fits : chain.Fits := by
    intro instruction member
    have same : instruction = .elementary .h [1] := by simpa [chain] using member
    rw [same]
    exact (placeable_elementary rfl (operands_singleton (by decide)) : Placeable chain.frame _).fits
  obtain ⟨output, done⟩ := taken.mpr fits
  refine ⟨⟨by decide, Library.builtin_validates⟩, (bounds 7 (by decide)).2, output, done, ?_⟩
  exact (length output done).trans (by decide)

end CircuitCloak.Injection

import CircuitCloak.Circuit.Basic
import CircuitCloak.Proofs.Results
import Mathlib.Data.List.Nodup
import Mathlib.Data.List.Perm.Subperm

/-! When instructions fit registers, and what building a circuit leaves in it. Every stored
instruction fitted the registers of its moment, and registers only grow. -/

namespace CircuitCloak

/-- Operands that lie below a limit, each once. -/
structure Operands (limit : Nat) (qubits : List Nat) : Prop where
  inside : ∀ qubit ∈ qubits, qubit < limit
  distinct : qubits.Nodup

theorem Operands.widen {limit larger : Nat} {qubits : List Nat} (operands : Operands limit qubits)
    (grown : limit ≤ larger) : Operands larger qubits :=
  ⟨fun qubit member => Nat.lt_of_lt_of_le (operands.inside qubit member) grown, operands.distinct⟩

/-- There are no more operands than there are numbers below their limit. -/
theorem Operands.length_le {limit : Nat} {qubits : List Nat} (operands : Operands limit qubits) :
    qubits.length ≤ limit := by
  have within : qubits ⊆ List.range limit := fun qubit member => List.mem_range.mpr (operands.inside qubit member)
  calc qubits.length ≤ (List.range limit).length := (List.subperm_of_subset operands.distinct within).length_le
    _ = limit := List.length_range

theorem wordSize_of_lt {number : Nat} (small : number < wordCount) : wordSize number = number :=
  Nat.mod_eq_of_lt small

private theorem checkQubits_seen_iff {limit : Nat} {operation : String} {seen qubits : List Nat} :
    checkQubits limit operation seen qubits = .ok () ↔
      Operands limit qubits ∧ ∀ qubit ∈ qubits, qubit ∉ seen := by
  induction qubits generalizing seen with
  | nil => simp [checkQubits, Operands.mk]
  | cons qubit rest ih =>
    unfold checkQubits
    split
    next beyond =>
      simp only [reduceCtorEq, false_iff]
      exact fun both => absurd (both.1.inside qubit (by simp)) (Nat.not_lt.mpr beyond)
    next within =>
      split
      next repeated =>
        simp only [reduceCtorEq, false_iff]
        exact fun both => both.2 qubit (by simp) repeated
      next fresh =>
        rw [ih]
        constructor
        · rintro ⟨⟨inside, distinct⟩, apart⟩
          refine ⟨⟨?_, ?_⟩, ?_⟩
          · exact List.forall_mem_cons.mpr ⟨Nat.lt_of_not_le within, inside⟩
          · exact List.nodup_cons.mpr ⟨fun member => apart qubit member (by simp), distinct⟩
          · exact List.forall_mem_cons.mpr ⟨fresh, fun other member seen => apart other member (by simp [seen])⟩
        · rintro ⟨⟨inside, distinct⟩, apart⟩
          obtain ⟨absent, distinct⟩ := List.nodup_cons.mp distinct
          refine ⟨⟨fun other member => inside other (by simp [member]), distinct⟩, ?_⟩
          intro other member seen
          rcases List.mem_append.mp seen with seen | last
          · exact apart other (by simp [member]) seen
          · exact absent (List.mem_singleton.mp last ▸ member)

theorem checkQubits_ok_iff {limit : Nat} {operation : String} {qubits : List Nat} :
    checkQubits limit operation [] qubits = .ok () ↔ Operands limit qubits := by
  simp [checkQubits_seen_iff]

theorem checkClbits_ok_iff {limit : Nat} {operation : String} {clbits : List Nat} :
    checkClbits limit operation clbits = .ok () ↔ ∀ clbit ∈ clbits, clbit < limit := by
  induction clbits with
  | nil => simp [checkClbits]
  | cons clbit rest ih =>
    unfold checkClbits
    split
    next beyond =>
      simp only [reduceCtorEq, List.forall_mem_cons, false_iff, not_and]
      exact fun within => absurd within (Nat.not_lt.mpr beyond)
    next within => simp [ih, Nat.lt_of_not_le within]

theorem Elementary.arity_le (gate : Elementary) : gate.arity ≤ 3 := by
  cases gate <;> simp [arity]

namespace Instruction

def Fits (instruction : Instruction) (numQubits numClbits : Nat) : Prop :=
  instruction.validate numQubits numClbits = .ok ()

variable {instruction : Instruction} {numQubits numClbits : Nat}

theorem checkCount_ok_iff : instruction.checkCount = .ok () ↔
    ∀ call ∈ instruction.call?, wordSize call.qubits.length = call.gate.arity := by
  cases instruction with
  | gate call clbits => simp [checkCount, call?]
  | measure qubits clbits => simp [checkCount, call?]
  | reset qubits clbits => simp [checkCount, call?]
  | barrier qubits clbits => simp [checkCount, call?]

theorem checkPairs_ok_iff : instruction.checkPairs = .ok () ↔
    (instruction.isMeasure = true → instruction.qubits.length = instruction.clbits.length) := by
  cases instruction with
  | gate call clbits => simp [checkPairs, isMeasure]
  | measure qubits clbits => simp [checkPairs, isMeasure, Instruction.qubits, Instruction.clbits]
  | reset qubits clbits => simp [checkPairs, isMeasure]
  | barrier qubits clbits => simp [checkPairs, isMeasure]

theorem fits_iff : instruction.Fits numQubits numClbits ↔
    (∀ call ∈ instruction.call?, wordSize call.qubits.length = call.gate.arity) ∧
      Operands numQubits instruction.qubits ∧
      (instruction.isMeasure = true → instruction.qubits.length = instruction.clbits.length) ∧
      ∀ clbit ∈ instruction.clbits, clbit < numClbits := by
  unfold Fits validate
  simp only [check_bind_eq_ok_iff, checkCount_ok_iff, checkQubits_ok_iff, checkPairs_ok_iff, checkClbits_ok_iff]

theorem fits_gate_iff {call : Application} {clbits : List Nat} :
    (Instruction.gate call clbits).Fits numQubits numClbits ↔
      wordSize call.qubits.length = call.gate.arity ∧ Operands numQubits call.qubits ∧
        ∀ clbit ∈ clbits, clbit < numClbits := by
  simp [fits_iff, call?, isMeasure, Instruction.qubits, Instruction.clbits]

theorem fits_measure_iff {qubits clbits : List Nat} :
    (Instruction.measure qubits clbits).Fits numQubits numClbits ↔
      Operands numQubits qubits ∧ qubits.length = clbits.length ∧ ∀ clbit ∈ clbits, clbit < numClbits := by
  simp [fits_iff, call?, isMeasure, Instruction.qubits, Instruction.clbits]

theorem fits_reset_iff {qubits clbits : List Nat} :
    (Instruction.reset qubits clbits).Fits numQubits numClbits ↔
      Operands numQubits qubits ∧ ∀ clbit ∈ clbits, clbit < numClbits := by
  simp [fits_iff, call?, isMeasure, Instruction.qubits, Instruction.clbits]

theorem fits_barrier_iff {qubits clbits : List Nat} :
    (Instruction.barrier qubits clbits).Fits numQubits numClbits ↔
      Operands numQubits qubits ∧ ∀ clbit ∈ clbits, clbit < numClbits := by
  simp [fits_iff, call?, isMeasure, Instruction.qubits, Instruction.clbits]

theorem Fits.operands (fits : instruction.Fits numQubits numClbits) : Operands numQubits instruction.qubits :=
  (fits_iff.mp fits).2.1

theorem Fits.clbits (fits : instruction.Fits numQubits numClbits) : ∀ clbit ∈ instruction.clbits, clbit < numClbits :=
  (fits_iff.mp fits).2.2.2

theorem Fits.widen {moreQubits moreClbits : Nat} (fits : instruction.Fits numQubits numClbits)
    (qubits : numQubits ≤ moreQubits) (clbits : numClbits ≤ moreClbits) : instruction.Fits moreQubits moreClbits := by
  obtain ⟨count, operands, pairs, inside⟩ := fits_iff.mp fits
  exact fits_iff.mpr ⟨count, operands.widen qubits, pairs,
    fun clbit member => Nat.lt_of_lt_of_le (inside clbit member) clbits⟩

/-- The operands of an instruction suit its operation and lie in registers of the given sizes. -/
structure Suits (instruction : Instruction) (numQubits numClbits : Nat) : Prop where
  count : ∀ call ∈ instruction.call?, call.qubits.length = call.gate.arity
  operands : Operands numQubits instruction.qubits
  pairs : instruction.isMeasure = true → instruction.qubits.length = instruction.clbits.length
  clbits : ∀ clbit ∈ instruction.clbits, clbit < numClbits

/-- In a register below the last word, operands that lie in it, each once, are counted by a word. -/
theorem fits_iff_suits (small : numQubits < wordCount) :
    instruction.Fits numQubits numClbits ↔ instruction.Suits numQubits numClbits := by
  have counted (operands : Operands numQubits instruction.qubits) :
      wordSize instruction.qubits.length = instruction.qubits.length :=
    wordSize_of_lt (Nat.lt_of_le_of_lt operands.length_le small)
  have same : ∀ call ∈ instruction.call?, call.qubits = instruction.qubits := by
    cases instruction <;> simp [call?, Instruction.qubits]
  rw [fits_iff]
  constructor
  · rintro ⟨count, operands, pairs, clbits⟩
    refine ⟨fun call member => ?_, operands, pairs, clbits⟩
    have whole := count call member
    rwa [same call member, counted operands, ← same call member] at whole
  · rintro ⟨count, operands, pairs, clbits⟩
    refine ⟨fun call member => ?_, operands, pairs, clbits⟩
    rw [same call member, counted operands, ← same call member]
    exact count call member

/-- A gate that fits a register below the last word has as many operands as its arity. -/
theorem Fits.length_eq {call : Application} {clbits : List Nat}
    (fits : (Instruction.gate call clbits).Fits numQubits numClbits) (small : numQubits < wordCount) :
    call.qubits.length = call.gate.arity :=
  ((fits_iff_suits small).mp fits).count call rfl

theorem fits_elementary {kind : Elementary} {qubits : List Nat} (length : qubits.length = kind.arity)
    (operands : Operands numQubits qubits) : (Instruction.elementary kind qubits).Fits numQubits numClbits := by
  have few : qubits.length < wordCount := length ▸ Nat.lt_of_le_of_lt kind.arity_le (by decide)
  exact fits_gate_iff.mpr ⟨(wordSize_of_lt few).trans length, operands, List.forall_mem_nil _⟩

/-- A classical bit has no place where there are no classical bits. -/
theorem validate_carrier {call : Application} (bit : Nat) (others : List Nat)
    (fits : (Instruction.gate call []).Fits numQubits 0) :
    (Instruction.gate call (bit :: others)).validate numQubits 0 = .error (.clbitNotFound bit call.gate.name) := by
  obtain ⟨count, operands, _⟩ := fits_gate_iff.mp fits
  have counted : (Instruction.gate call (bit :: others)).checkCount = .ok () := if_pos count
  have placed : checkQubits numQubits (Instruction.gate call (bit :: others)).name []
      (Instruction.gate call (bit :: others)).qubits = .ok () := checkQubits_ok_iff.mpr operands
  unfold validate
  rw [counted, placed]
  rfl

end Instruction

namespace Circuit

def Fits (circuit : Circuit) : Prop :=
  ∀ instruction ∈ circuit.instructions.toList, instruction.Fits circuit.numQubits circuit.numClbits

theorem push_eq_ok_iff {circuit result : Circuit} {instruction : Instruction} :
    circuit.push instruction = .ok result ↔
      instruction.Fits circuit.numQubits circuit.numClbits ∧
        result = { circuit with instructions := circuit.instructions.push instruction } := by
  unfold push
  rw [bind_eq_ok_iff]
  constructor
  · rintro ⟨_, fits, pushed⟩
    exact ⟨fits, (Except.ok.inj pushed).symm⟩
  · rintro ⟨fits, rfl⟩
    exact ⟨(), fits, rfl⟩

theorem pushAll_cons (circuit : Circuit) (instruction : Instruction) (rest : List Instruction) :
    circuit.pushAll (instruction :: rest) = circuit.push instruction >>= fun next => next.pushAll rest :=
  List.foldlM_cons

@[simp]
theorem pushAll_singleton (circuit : Circuit) (instruction : Instruction) :
    circuit.pushAll [instruction] = circuit.push instruction :=
  bind_pure _

theorem pushAll_eq_ok_iff {circuit result : Circuit} {instructions : List Instruction} :
    circuit.pushAll instructions = .ok result ↔
      (∀ instruction ∈ instructions, instruction.Fits circuit.numQubits circuit.numClbits) ∧
        result = { circuit with instructions := circuit.instructions ++ instructions.toArray } := by
  induction instructions generalizing circuit with
  | nil => simp [pushAll, pure, Except.pure, eq_comm]
  | cons instruction rest ih =>
    rw [pushAll_cons, bind_eq_ok_iff, List.forall_mem_cons]
    constructor
    · rintro ⟨next, pushed, rest⟩
      obtain ⟨fits, rfl⟩ := push_eq_ok_iff.mp pushed
      obtain ⟨others, rfl⟩ := ih.mp rest
      exact ⟨⟨fits, others⟩, by simp⟩
    · rintro ⟨⟨fits, others⟩, rfl⟩
      exact ⟨_, push_eq_ok_iff.mpr ⟨fits, rfl⟩, ih.mpr ⟨others, by simp⟩⟩

theorem ofInstructions_eq_ok_iff {name : String} {numQubits numClbits : Nat}
    {instructions : List Instruction} {result : Circuit} :
    ofInstructions name numQubits numClbits instructions = .ok result ↔
      (∀ instruction ∈ instructions, instruction.Fits numQubits numClbits) ∧
        result = ⟨name, numQubits, numClbits, instructions.toArray⟩ := by
  simp [ofInstructions, empty, pushAll_eq_ok_iff]

/-- The circuits that steps can build, from registers whose sizes are words. -/
inductive Reachable : Circuit → Prop where
  | empty {name numQubits numClbits} (qubits : numQubits < wordCount) (clbits : numClbits < wordCount) :
    Reachable (empty name numQubits numClbits)
  | step {circuit step next} (reached : Reachable circuit) (done : circuit.step step = .ok next) : Reachable next

theorem Reachable.push {circuit result : Circuit} {instruction : Instruction} (reached : circuit.Reachable)
    (pushed : circuit.push instruction = .ok result) : result.Reachable := by
  have done : circuit.step (.push instruction) = .ok result := refusing_eq_ok_iff.mpr pushed
  exact reached.step done

theorem Reachable.pushAll {circuit result : Circuit} {instructions : List Instruction} (reached : circuit.Reachable)
    (pushed : circuit.pushAll instructions = .ok result) : result.Reachable :=
  foldlM_preserves (fun _ _ _ (held : Reachable _) pushed => held.push pushed) reached pushed

theorem reachable_of_ofInstructions {name : String} {numQubits numClbits : Nat}
    {instructions : List Instruction} {circuit : Circuit} (qubits : numQubits < wordCount) (clbits : numClbits < wordCount)
    (made : ofInstructions name numQubits numClbits instructions = .ok circuit) : circuit.Reachable :=
  (Reachable.empty qubits clbits).pushAll made

theorem Fits.push {circuit next : Circuit} {instruction : Instruction} (fits : circuit.Fits)
    (pushed : circuit.push instruction = .ok next) : next.Fits := by
  obtain ⟨fitting, rfl⟩ := push_eq_ok_iff.mp pushed
  intro other member
  rcases List.mem_append.mp (Array.toList_push ▸ member) with earlier | last
  · exact fits other earlier
  · exact List.mem_singleton.mp last ▸ fitting

theorem Fits.pushAll {circuit next : Circuit} {instructions : List Instruction} (fits : circuit.Fits)
    (pushed : circuit.pushAll instructions = .ok next) : next.Fits :=
  foldlM_preserves (fun before _ _ (held : before.Fits) pushed => held.push pushed) fits pushed

theorem Fits.widen {circuit : Circuit} {numQubits numClbits : Nat} (fits : circuit.Fits)
    (qubits : circuit.numQubits ≤ numQubits) (clbits : circuit.numClbits ≤ numClbits) :
    Fits { circuit with numQubits, numClbits } :=
  fun instruction member => (fits instruction member).widen qubits clbits

theorem growQubits_eq_ok_iff {ε : Type} {circuit next : Circuit} {size : Nat} :
    (circuit.growQubits size : Except (Halt ε) Circuit) = .ok next ↔
      circuit.numQubits + size < wordCount ∧ next = { circuit with numQubits := circuit.numQubits + size } := by
  unfold growQubits
  rw [bind_eq_ok_iff]
  simp [addSizes_eq_ok_iff, pure, Except.pure, eq_comm]

theorem growClbits_eq_ok_iff {ε : Type} {circuit next : Circuit} {size : Nat} :
    (circuit.growClbits size : Except (Halt ε) Circuit) = .ok next ↔
      circuit.numClbits + size < wordCount ∧ next = { circuit with numClbits := circuit.numClbits + size } := by
  unfold growClbits
  rw [bind_eq_ok_iff]
  simp [addSizes_eq_ok_iff, pure, Except.pure, eq_comm]

theorem growQubits_eq_panic_iff {ε : Type} {circuit : Circuit} {size : Nat} :
    (circuit.growQubits size : Except (Halt ε) Circuit) = .error .panic ↔ wordCount ≤ circuit.numQubits + size := by
  rw [← addSizes_eq_panic_iff (ε := ε)]
  unfold growQubits
  cases (addSizes circuit.numQubits size : Except (Halt ε) Nat) <;> simp [bind, Except.bind, pure, Except.pure]

theorem growClbits_eq_panic_iff {ε : Type} {circuit : Circuit} {size : Nat} :
    (circuit.growClbits size : Except (Halt ε) Circuit) = .error .panic ↔ wordCount ≤ circuit.numClbits + size := by
  rw [← addSizes_eq_panic_iff (ε := ε)]
  unfold growClbits
  cases (addSizes circuit.numClbits size : Except (Halt ε) Nat) <;> simp [bind, Except.bind, pure, Except.pure]

theorem measureAll_eq_ok_iff {circuit next : Circuit} : circuit.measureAll = .ok next ↔
    { circuit with numClbits := max circuit.numClbits circuit.numQubits }.push
      (.measure (List.range circuit.numQubits) (List.range circuit.numQubits)) = .ok next := by
  have paired : Instruction.measureInto (List.range circuit.numQubits) (List.range circuit.numQubits) = .ok _ := if_pos rfl
  simp only [measureAll, paired]
  rfl

/-- What a step that is taken makes of a circuit. -/
inductive Takes (circuit : Circuit) : Step → Circuit → Prop where
  | push {step instruction} (fits : instruction.Fits circuit.numQubits circuit.numClbits) :
    Takes circuit step { circuit with instructions := circuit.instructions.push instruction }
  | measureAll : Takes circuit .measureAll { circuit with
      numClbits := max circuit.numClbits circuit.numQubits
      instructions := circuit.instructions.push
        (.measure (List.range circuit.numQubits) (List.range circuit.numQubits)) }
  | growQubits {size} (word : circuit.numQubits + size < wordCount) :
    Takes circuit (.growQubits size) { circuit with numQubits := circuit.numQubits + size }
  | growClbits {size} (word : circuit.numClbits + size < wordCount) :
    Takes circuit (.growClbits size) { circuit with numClbits := circuit.numClbits + size }
  | rename {name} : Takes circuit (.rename name) { circuit with name }

private theorem takes_of_push {circuit next : Circuit} {step : Step} {instruction : Instruction}
    (done : refusing (circuit.push instruction) = .ok next) : Takes circuit step next := by
  obtain ⟨fits, rfl⟩ := push_eq_ok_iff.mp (refusing_eq_ok_iff.mp done)
  exact .push fits

theorem takes_of_step {circuit next : Circuit} {step : Step} (done : circuit.step step = .ok next) :
    Takes circuit step next := by
  cases step with
  | push instruction => exact takes_of_push done
  | apply gate qubits => exact takes_of_push done
  | measure qubit clbit => exact takes_of_push done
  | measureAll =>
    obtain ⟨_, rfl⟩ := push_eq_ok_iff.mp (measureAll_eq_ok_iff.mp (refusing_eq_ok_iff.mp done))
    exact .measureAll
  | reset qubit => exact takes_of_push done
  | barrier qubits => exact takes_of_push done
  | growQubits size =>
    obtain ⟨word, rfl⟩ := growQubits_eq_ok_iff.mp done
    exact .growQubits word
  | growClbits size =>
    obtain ⟨word, rfl⟩ := growClbits_eq_ok_iff.mp done
    exact .growClbits word
  | rename name =>
    cases done
    exact .rename

/-- The measurement of every qubit fits, however many there are. -/
theorem fits_measureAll {numQubits numClbits : Nat} (enough : numQubits ≤ numClbits) :
    (Instruction.measure (List.range numQubits) (List.range numQubits)).Fits numQubits numClbits :=
  Instruction.fits_measure_iff.mpr ⟨⟨fun _ => List.mem_range.mp, List.nodup_range⟩, rfl,
    fun _ member => Nat.lt_of_lt_of_le (List.mem_range.mp member) enough⟩

/-- Every instruction fits, in registers whose sizes are words. -/
structure Sound (circuit : Circuit) : Prop where
  qubits : circuit.numQubits < wordCount
  clbits : circuit.numClbits < wordCount
  fits : circuit.Fits

theorem Sound.takes {circuit next : Circuit} {step : Step} (sound : circuit.Sound) (taken : Takes circuit step next) :
    next.Sound := by
  cases taken with
  | push fits => exact ⟨sound.qubits, sound.clbits, sound.fits.push (push_eq_ok_iff.mpr ⟨fits, rfl⟩)⟩
  | measureAll =>
    have wide := sound.fits.widen (Nat.le_refl _) (Nat.le_max_left _ circuit.numQubits)
    exact ⟨sound.qubits, Nat.max_lt.mpr ⟨sound.clbits, sound.qubits⟩,
      wide.push (push_eq_ok_iff.mpr ⟨fits_measureAll (Nat.le_max_right _ _), rfl⟩)⟩
  | growQubits word => exact ⟨word, sound.clbits, sound.fits.widen (Nat.le_add_right _ _) (Nat.le_refl _)⟩
  | growClbits word => exact ⟨sound.qubits, word, sound.fits.widen (Nat.le_refl _) (Nat.le_add_right _ _)⟩
  | rename => exact ⟨sound.qubits, sound.clbits, sound.fits⟩

theorem Reachable.sound {circuit : Circuit} (reached : circuit.Reachable) : circuit.Sound := by
  induction reached with
  | empty qubits clbits => exact ⟨qubits, clbits, nofun⟩
  | step _ done ih => exact ih.takes (takes_of_step done)

end Circuit

end CircuitCloak

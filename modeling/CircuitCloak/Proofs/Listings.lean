import CircuitCloak.Proofs.Naming
import CircuitCloak.Proofs.Units

/-! What a listing says of its circuit. Definitions are only ever added, and a name that was given keeps its
meaning; so each call names its gate in the finished listing if it did when it was written. -/

namespace CircuitCloak.Qasm

/-- Composites that share a definition. Numbers compare as doubles do, so that none is equal to one without a value. -/
def Alike (first second : Composite) : Prop := first = second ∨ (first == second) = true

theorem Alike.arity {first second : Composite} (alike : Alike first second) : first.arity = second.arity := by
  rcases alike with rfl | same
  · rfl
  · obtain ⟨name, arity, body⟩ := first
    obtain ⟨other, size, run⟩ := second
    have parts : (name == other && arity == size && Application.beqList body run) = true := same
    simp only [Bool.and_eq_true, beq_iff_eq] at parts
    exact parts.1.2

theorem beq_composite {first second : Composite} (same : (first == second) = true) (label : Option String) :
    Gate.beq (.composite first label) (.composite second label) = true := by
  obtain ⟨name, arity, body⟩ := first
  obtain ⟨other, size, run⟩ := second
  rw [Gate.beq]
  exact Bool.and_eq_true_iff.mpr ⟨same, beq_self_eq_true label⟩

theorem Alike.eq {first second : Composite} (alike : Alike first second) (label : Option String)
    (writable : Writable (.composite second label)) : first = second := by
  rcases alike with rfl | same
  · rfl
  · exact (Gate.composite.inj (eq_of_beq_gate writable (beq_composite same label))).1

/-- A callee stands for a gate, with labels left out. -/
inductive Names (gates : List WrittenGate) : Callee → Gate → Prop
  | elementary (kind : Elementary) (label : Option String) (sayable : ∀ angle ∈ kind.angles, Sayable angle) :
    Names gates (.elementary kind) (.elementary kind label)
  | defined (gate : WrittenGate) {composite : Composite} (label : Option String) (listed : gate ∈ gates)
    (alike : Alike gate.composite composite) : Names gates (.defined gate.name) (.composite composite label)

theorem Names.extend {gates more : List WrittenGate} {callee : Callee} {gate : Gate} (names : Names gates callee gate)
    (included : gates ⊆ more) : Names more callee gate := by
  cases names with
  | elementary kind label sayable => exact .elementary kind label sayable
  | defined gate label listed alike => exact .defined gate label (included listed) alike

structure Calls (gates : List WrittenGate) (call : WrittenCall) (application : Application) : Prop where
  names : Names gates call.callee application.gate
  qubits : call.qubits = application.qubits

theorem Calls.extend {gates more : List WrittenGate} {call : WrittenCall} {application : Application}
    (calls : Calls gates call application) (included : gates ⊆ more) : Calls more call application :=
  ⟨calls.names.extend included, calls.qubits⟩

/-- A definition that can follow earlier ones. -/
structure Follows (earlier : List WrittenGate) (gate : WrittenGate) : Prop where
  free : isTaken earlier gate.name = false
  identifier : IsIdentifier gate.name
  operands : 0 < gate.composite.arity
  small : gate.composite.arity < wordCount
  valid : ∀ call ∈ gate.composite.body, call.Valid gate.composite.arity
  calls : List.Forall₂ (Calls earlier) gate.calls gate.composite.body

/-- Definitions, last first, each after those that it needs. -/
inductive Listed : List WrittenGate → Prop
  | nil : Listed []
  | cons {earlier : List WrittenGate} {gate : WrittenGate} (follows : Follows earlier gate) (listed : Listed earlier) :
    Listed (gate :: earlier)

theorem Listed.follows {gates : List WrittenGate} (listed : Listed gates) :
    ∀ gate ∈ gates, ∃ earlier, Listed earlier ∧ Follows earlier gate := by
  induction listed with
  | nil => exact nofun
  | cons follows listed ih => exact List.forall_mem_cons.mpr ⟨⟨_, listed, follows⟩, ih⟩

/-- A callee that names a gate can be written, and the gate has operands. -/
theorem Names.legible {gates : List WrittenGate} (listed : Listed gates) {callee : Callee} {gate : Gate}
    (names : Names gates callee gate) : callee.Legible ∧ 0 < gate.arity := by
  cases names with
  | elementary kind label sayable =>
    refine ⟨sayable, ?_⟩
    cases kind <;> exact Nat.zero_lt_succ _
  | defined gate label member alike =>
    obtain ⟨earlier, _, follows⟩ := listed.follows gate member
    exact ⟨follows.identifier, Nat.lt_of_lt_of_eq follows.operands alike.arity⟩

theorem Calls.legible {gates : List WrittenGate} (listed : Listed gates) {call : WrittenCall}
    {application : Application} (calls : Calls gates call application) {limit : Nat}
    (valid : application.Valid limit) : call.Legible := by
  obtain ⟨callee, positive⟩ := calls.names.legible listed
  refine ⟨callee, fun empty => ?_⟩
  rw [← valid.length, ← calls.qubits, empty] at positive
  exact Nat.lt_irrefl 0 positive

theorem Listed.legible {gates : List WrittenGate} (listed : Listed gates) : ∀ gate ∈ gates, gate.Legible := by
  intro gate member
  obtain ⟨earlier, before, follows⟩ := listed.follows gate member
  refine ⟨follows.identifier, follows.operands, fun call stored => ?_⟩
  obtain ⟨application, within, calls⟩ := exists_mem_of_forall₂ follows.calls.flip stored
  exact calls.legible before (follows.valid application within)

/-- Definitions that hold on to earlier ones. -/
structure Grown (gates result : List WrittenGate) : Prop where
  listed : Listed result
  kept : gates ⊆ result

mutual

/-- A callee names its gate, by a definition that was found or one that was added. -/
theorem names_callee : ∀ {gate : Gate} {gates : List WrittenGate}, gate.arity < wordCount → gate.WellFormed →
    SayableGate gate → Listed gates →
      Grown gates (Gate.callee gate gates).2 ∧ Names (Gate.callee gate gates).2 (Gate.callee gate gates).1 gate
  | .elementary kind label, gates, _, _, sayable, listed => by
    rw [SayableGate] at sayable
    rw [Gate.callee]
    exact ⟨⟨listed, List.Subset.refl _⟩, .elementary kind label sayable⟩
  | .composite ⟨base, arity, body⟩ label, gates, small, formed, sayable, listed => by
    rw [Gate.WellFormed] at formed
    rw [SayableGate] at sayable
    rw [Gate.callee]
    split
    next gate found =>
      have member : gate ∈ gates := List.mem_reverse.mp (List.mem_of_find?_eq_some found)
      have same := List.find?_some found
      exact ⟨⟨listed, List.Subset.refl _⟩, .defined gate label member (.inr same)⟩
    next =>
      obtain ⟨grown, calls⟩ := calls_callees small formed sayable.2.2 listed
      refine ⟨⟨.cons ⟨isTaken_freeName _ base, isIdentifier_freeName _ sayable.1, sayable.2.1, small, ?_, calls⟩ grown.listed,
        List.Subset.trans grown.kept (List.subset_cons_self _ _)⟩, ?_⟩
      · exact Application.wellFormedBody_iff.mp formed
      · exact .defined ⟨_, _, _⟩ label List.mem_cons_self (.inl rfl)

theorem calls_callees : ∀ {body : List Application} {arity : Nat} {gates : List WrittenGate}, arity < wordCount →
    Application.WellFormedBody arity body → SayableBody body → Listed gates →
    Grown gates (Application.callees body gates).2 ∧
      List.Forall₂ (Calls (Application.callees body gates).2) (Application.callees body gates).1 body
  | [], _, gates, _, _, _, listed => by
    rw [Application.callees]
    exact ⟨⟨listed, List.Subset.refl _⟩, .nil⟩
  | ⟨gate, qubits⟩ :: rest, arity, gates, small, formed, sayable, listed => by
    rw [Application.WellFormedBody] at formed
    rw [SayableBody] at sayable
    rw [Application.callees]
    have less : gate.arity < wordCount := formed.1.1 ▸ Nat.lt_of_le_of_lt formed.1.2.1.length_le small
    obtain ⟨grown, names⟩ := names_callee less formed.1.2.2 sayable.1 listed
    obtain ⟨later, calls⟩ := calls_callees small formed.2 sayable.2 grown.listed
    exact ⟨⟨later.listed, List.Subset.trans grown.kept later.kept⟩, .cons ⟨names.extend later.kept, rfl⟩ calls⟩

end

inductive Stands (gates : List WrittenGate) : WrittenInstruction → Instruction → Prop
  | call {call : WrittenCall} {application : Application} (calls : Calls gates call application) (clbits : List Nat) :
    Stands gates (.call call) (.gate application clbits)
  | measure (qubits clbits : List Nat) : Stands gates (.measure qubits clbits) (.measure qubits clbits)
  | reset (qubits clbits : List Nat) : Stands gates (.reset qubits) (.reset qubits clbits)
  | barrier (qubits clbits : List Nat) : Stands gates (.barrier qubits) (.barrier qubits clbits)

theorem Stands.extend {gates more : List WrittenGate} {written : WrittenInstruction} {instruction : Instruction}
    (stands : Stands gates written instruction) (included : gates ⊆ more) : Stands more written instruction := by
  cases stands with
  | call calls clbits => exact .call (calls.extend included) clbits
  | measure qubits clbits => exact .measure qubits clbits
  | reset qubits clbits => exact .reset qubits clbits
  | barrier qubits clbits => exact .barrier qubits clbits

/-- What can be written of an instruction: a gate that is writable and well formed, and no empty barrier. -/
def Recordable : Instruction → Prop
  | .gate call _ => call.gate.WellFormed ∧ Writable call.gate
  | .barrier qubits _ => qubits ≠ []
  | _ => True

/-- An instruction that can be written but for numbers that are too large. -/
def SayableInstruction : Instruction → Prop
  | .gate call _ => call.gate.WellFormed ∧ SayableGate call.gate
  | _ => True

theorem Recordable.sayable {instruction : Instruction} (recordable : Recordable instruction) :
    SayableInstruction instruction := by
  cases instruction with
  | gate call clbits => exact ⟨recordable.1, recordable.2.sayable⟩
  | measure | reset | barrier => trivial

/-- The gates of instructions have word many operands. -/
def Counted (instructions : List Instruction) : Prop :=
  ∀ call clbits, .gate call clbits ∈ instructions → call.gate.arity < wordCount

theorem stands_written {instruction : Instruction} {gates : List WrittenGate} (counted : Counted [instruction])
    (sayable : SayableInstruction instruction) (listed : Listed gates) : Grown gates (Instruction.written instruction gates).2 ∧
      Stands (Instruction.written instruction gates).2 (Instruction.written instruction gates).1 instruction := by
  cases instruction with
  | gate call clbits =>
    have small := counted call clbits List.mem_cons_self
    obtain ⟨gate, qubits⟩ := call
    obtain ⟨grown, names⟩ := names_callee small sayable.1 sayable.2 listed
    exact ⟨grown, .call ⟨names, rfl⟩ clbits⟩
  | measure qubits clbits => exact ⟨⟨listed, List.Subset.refl _⟩, .measure qubits clbits⟩
  | reset qubits clbits => exact ⟨⟨listed, List.Subset.refl _⟩, .reset qubits clbits⟩
  | barrier qubits clbits => exact ⟨⟨listed, List.Subset.refl _⟩, .barrier qubits clbits⟩

/-- Writing instructions one by one, with the definitions and the body so far last first. -/
theorem stands_foldl {instructions done : List Instruction} {body : List WrittenInstruction} {gates : List WrittenGate}
    (counted : Counted instructions) (sayable : ∀ instruction ∈ instructions, SayableInstruction instruction)
    (listed : Listed gates) (stands : List.Forall₂ (Stands gates) body.reverse done) :
    let result := instructions.foldl (fun (state : List WrittenInstruction × List WrittenGate) instruction =>
      ((Instruction.written instruction state.2).1 :: state.1, (Instruction.written instruction state.2).2)) (body, gates)
    Listed result.2 ∧ List.Forall₂ (Stands result.2) result.1.reverse (done ++ instructions) := by
  induction instructions generalizing done body gates with
  | nil =>
    rw [List.append_nil]
    exact ⟨listed, stands⟩
  | cons instruction rest ih =>
    obtain ⟨first, others⟩ := List.forall_mem_cons.mp sayable
    obtain ⟨one, more⟩ : Counted [instruction] ∧ Counted rest :=
      ⟨fun call clbits member => counted call clbits (List.mem_singleton.mp member ▸ List.mem_cons_self),
        fun call clbits member => counted call clbits (List.mem_cons_of_mem _ member)⟩
    obtain ⟨grown, last⟩ := stands_written one first listed
    have longer : List.Forall₂ (Stands (Instruction.written instruction gates).2)
        ((Instruction.written instruction gates).1 :: body).reverse (done ++ [instruction]) := by
      rw [List.reverse_cons]
      exact List.rel_append (stands.imp fun _ _ held => held.extend grown.kept) (.cons last .nil)
    have later := ih more others grown.listed longer
    rwa [List.append_assoc] at later

theorem stands_writeAll {instructions : List Instruction} (counted : Counted instructions)
    (sayable : ∀ instruction ∈ instructions, SayableInstruction instruction) :
    Listed (writeAll instructions).2.reverse ∧
      List.Forall₂ (Stands (writeAll instructions).2.reverse) (writeAll instructions).1 instructions := by
  obtain ⟨listed, stands⟩ := stands_foldl counted sayable .nil (show List.Forall₂ (Stands []) (List.reverse []) [] from .nil)
  unfold writeAll
  rw [List.reverse_reverse]
  exact ⟨listed, stands⟩

/-- An instruction that fits some registers is written as it should be. -/
theorem Stands.legible {gates : List WrittenGate} (listed : Listed gates) {written : WrittenInstruction}
    {instruction : Instruction} (stands : Stands gates written instruction) {numQubits numClbits : Nat}
    (qubits : numQubits < wordCount) (clbits : numClbits < wordCount)
    (fits : instruction.Fits numQubits numClbits) (sayable : SayableInstruction instruction) : written.Legible := by
  have inside := fun qubit member => Nat.lt_trans (fits.operands.inside qubit member) qubits
  cases stands with
  | call calls =>
    refine ⟨calls.legible listed ⟨fits.length_eq qubits, fits.operands, sayable.1⟩, ?_⟩
    rw [calls.qubits]
    exact inside
  | measure => exact ⟨inside, fun clbit member => Nat.lt_trans (fits.clbits clbit member) clbits⟩
  | reset => exact inside
  | barrier => exact inside

end CircuitCloak.Qasm

namespace CircuitCloak.Circuit
open Qasm

theorem Sound.counted {circuit : Circuit} (sound : circuit.Sound) : Counted circuit.instructions.toList := by
  intro call clbits member
  have fits := sound.fits _ member
  rw [← fits.length_eq sound.qubits]
  exact Nat.lt_of_le_of_lt fits.operands.length_le sound.qubits

/-- A circuit that can be written but for numbers that are too large. -/
structure Sayable (circuit : Circuit) : Prop where
  sound : circuit.Sound
  instructions : ∀ instruction ∈ circuit.instructions.toList, SayableInstruction instruction

theorem Sayable.listing {circuit : Circuit} (sayable : circuit.Sayable) :
    ∃ gates, Listed gates ∧ (Listing.ofCircuit circuit).gates = gates.reverse ∧
      List.Forall₂ (Stands gates) (Listing.ofCircuit circuit).body circuit.instructions.toList := by
  obtain ⟨listed, stands⟩ := stands_writeAll sayable.sound.counted sayable.instructions
  exact ⟨_, listed, (List.reverse_reverse _).symm, stands⟩

theorem Sayable.sayable {circuit : Circuit} (sayable : circuit.Sayable) : (Listing.ofCircuit circuit).Sayable := by
  obtain ⟨gates, listed, same, stands⟩ := sayable.listing
  refine ⟨sayable.sound.qubits, sayable.sound.clbits, fun gate member => ?_, fun written member => ?_⟩
  · rw [same] at member
    exact listed.legible gate (List.mem_reverse.mp member)
  · obtain ⟨instruction, stored, held⟩ := exists_mem_of_forall₂ stands.flip member
    exact held.legible listed sayable.sound.qubits sayable.sound.clbits (sayable.sound.fits instruction stored)
      (sayable.instructions instruction stored)

/-- A circuit that can be written and loaded again. -/
structure Recordable (circuit : Circuit) : Prop where
  valid : circuit.Valid
  gates : ∀ call clbits, .gate call clbits ∈ circuit.instructions.toList → Writable call.gate
  barriers : ∀ clbits, .barrier [] clbits ∉ circuit.instructions.toList

theorem Recordable.instruction {circuit : Circuit} (recordable : circuit.Recordable) :
    ∀ instruction ∈ circuit.instructions.toList, Qasm.Recordable instruction := by
  intro instruction member
  cases instruction with
  | gate call clbits => exact ⟨recordable.valid.gates call clbits member, recordable.gates call clbits member⟩
  | barrier qubits clbits => exact fun empty => recordable.barriers clbits (empty ▸ member)
  | measure => trivial
  | reset => trivial

theorem Recordable.sayable {circuit : Circuit} (recordable : circuit.Recordable) : circuit.Sayable :=
  ⟨recordable.valid.sound, fun instruction member => (recordable.instruction instruction member).sayable⟩

end CircuitCloak.Circuit

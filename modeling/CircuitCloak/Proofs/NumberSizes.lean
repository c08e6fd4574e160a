import CircuitCloak.Proofs.DecimalReading
import CircuitCloak.Proofs.Listings
import Mathlib

/-! Sizes of numbers in circuit text. Only numbers in angles can be too large, and an angle of the circuit is in the
listing itself or by an equal one, whose text is the same; so the text of a circuit is cut into tokens just if no
number in its angles is too large. -/

namespace CircuitCloak

mutual

def Gate.angles : Gate → List Angle
  | .elementary kind _ => kind.angles
  | .composite ⟨_, _, body⟩ _ => Application.anglesBody body

def Application.anglesBody : List Application → List Angle
  | [] => []
  | ⟨gate, _⟩ :: rest => gate.angles ++ Application.anglesBody rest

end

theorem Gate.angles_composite (composite : Composite) (label : Option String) :
    (Gate.composite composite label).angles = Application.anglesBody composite.body := by
  cases composite
  rfl

def Instruction.angles : Instruction → List Angle
  | .gate call _ => call.gate.angles
  | _ => []

def Circuit.angles (circuit : Circuit) : List Angle := circuit.instructions.toList.flatMap (·.angles)

namespace Qasm

@[simp] theorem sized_nil : Sized [] := List.forall_mem_nil _

@[simp] theorem sized_cons {token : Token} {tokens : List Token} : Sized (token :: tokens) ↔ token.Sized ∧ Sized tokens :=
  List.forall_mem_cons

@[simp] theorem sized_append {tokens more : List Token} : Sized (tokens ++ more) ↔ Sized tokens ∧ Sized more :=
  List.forall_mem_append

theorem sized_flatMap {α : Type} {items : List α} {tokens : α → List Token} :
    Sized (items.flatMap tokens) ↔ ∀ item ∈ items, Sized (tokens item) := by
  unfold Sized
  simp only [List.mem_flatMap, forall_exists_index, and_imp]
  exact ⟨fun all item member token within => all token item member within,
    fun all token item member within => all item member token within⟩

@[simp] theorem sized_keyword (word : Keyword) : (Token.keyword word).Sized := trivial

@[simp] theorem sized_mark (symbol : Mark) : (Token.mark symbol).Sized := trivial

@[simp] theorem sized_identifier (name : String) : (Token.identifier name).Sized := trivial

@[simp] theorem sized_quoted (text : String) : (Token.quoted text).Sized := trivial

theorem sized_commas {runs : List (List Token)} : Sized (commas runs) ↔ ∀ run ∈ runs, Sized run := by
  induction runs with
  | nil => exact ⟨fun _ => List.forall_mem_nil _, fun _ => sized_nil⟩
  | cons run rest ih =>
    cases rest with
    | nil => rw [commas, List.intercalate_singleton, List.forall_mem_singleton]
    | cons next rest =>
      rw [commas, List.intercalate_cons_cons, List.forall_mem_cons, ← ih]
      simp [commas]

theorem sized_argumentTokens {angles : List Angle} :
    Sized (argumentTokens angles) ↔ ∀ angle ∈ angles, Sized (angleTokens angle) := by
  cases angles with
  | nil => exact ⟨fun _ => List.forall_mem_nil _, fun _ => sized_nil⟩
  | cons angle rest => simp [argumentTokens, sized_commas]

theorem sized_element {position : Nat} (word : position < wordCount) (register : String) :
    Sized (elementTokens register position) := by
  have size : position < longWordCount := Nat.lt_trans word (by decide)
  simp [elementTokens, Token.Sized, size]

theorem sized_callTokens (dialect : Dialect) {call : WrittenCall} {tokens : Nat → List Token}
    (operands : ∀ qubit ∈ call.qubits, Sized (tokens qubit)) :
    Sized (callTokens dialect tokens call) ↔ ∀ angle ∈ calleeAngles call.callee, Sized (angleTokens angle) := by
  have qubits : Sized (commas (call.qubits.map tokens)) := sized_commas.mpr (List.forall_mem_map.mpr operands)
  simp [callTokens, sized_argumentTokens, qubits]

theorem sized_instruction (dialect : Dialect) {instruction : WrittenInstruction} (legible : instruction.Legible) :
    Sized (sentenceTokens (instruction.sentences dialect)) ↔
      ∀ angle ∈ instruction.angles, Sized (angleTokens angle) := by
  unfold sentenceTokens
  rw [sized_flatMap]
  cases instruction with
  | call written =>
    rw [WrittenInstruction.sentences, List.forall_mem_singleton]
    exact sized_callTokens dialect fun qubit member => sized_element (legible.2 qubit member) "q"
  | measure qubits clbits =>
    refine ⟨fun _ => List.forall_mem_nil _, fun _ sentence member => ?_⟩
    rw [WrittenInstruction.sentences, ← List.map_uncurry_zip_eq_zipWith] at member
    obtain ⟨wire, within, rfl⟩ := List.mem_map.mp member
    obtain ⟨one, other⟩ := List.of_mem_zip (show (wire.1, wire.2) ∈ _ from within)
    have first := sized_element (legible.1 _ one) "q"
    have second := sized_element (legible.2 _ other) "c"
    change Sized (measureSentence dialect wire.1 wire.2).tokens
    cases dialect <;> simp [measureSentence, first, second]
  | reset qubits =>
    refine ⟨fun _ => List.forall_mem_nil _, fun _ sentence member => ?_⟩
    obtain ⟨qubit, within, rfl⟩ := List.mem_map.mp member
    simp [resetSentence, sized_element (legible qubit within) "q"]
  | barrier qubits =>
    refine ⟨fun _ => List.forall_mem_nil _, fun _ => List.forall_mem_singleton.mpr ?_⟩
    have listed : Sized (commas (qubits.map (elementTokens "q"))) :=
      sized_commas.mpr (List.forall_mem_map.mpr fun qubit member => sized_element (legible qubit member) "q")
    simp [listed]

theorem sized_definition {name : String} {qubits : List String} {body : List (List Token × GateCall)} :
    Sized (definitionSentence name qubits body).tokens ↔ ∀ call ∈ body, Sized call.1 := by
  have formals : Sized (commas (qubits.map fun qubit => [Token.identifier qubit])) :=
    sized_commas.mpr (List.forall_mem_map.mpr fun qubit _ => by simp)
  simp [definitionSentence, formals, sized_flatMap]

theorem sized_gate (dialect : Dialect) (gate : WrittenGate) : Sized (gate.sentence dialect).tokens ↔
    ∀ angle ∈ gate.calls.flatMap fun call => calleeAngles call.callee, Sized (angleTokens angle) := by
  unfold WrittenGate.sentence
  rw [sized_definition, List.forall_mem_map]
  simp only [List.mem_flatMap, forall_exists_index, and_imp]
  have operands : ∀ qubit : Nat, Sized (formalTokens qubit) := fun qubit => by simp [formalTokens]
  refine ⟨fun all angle call member within => ?_, fun all call member => ?_⟩
  · exact (sized_callTokens dialect fun qubit _ => operands qubit).mp (all call member) angle within
  · exact (sized_callTokens dialect fun qubit _ => operands qubit).mpr fun angle within => all angle call member within

theorem sized_registers (dialect : Dialect) {listing : Listing} (sayable : listing.Sayable) :
    Sized (sentenceTokens (listing.registers dialect)) := by
  have size : ∀ {size : Nat}, size < wordCount → size < longWordCount := fun word => Nat.lt_trans word (by decide)
  have quantum := size sayable.qubits
  have classical := size sayable.clbits
  unfold sentenceTokens Listing.registers
  rw [List.flatMap_append, sized_append]
  constructor
  · split
    · cases dialect <;> simp [quantumSentence, registerTokens, elementTokens, Token.Sized, quantum]
    · exact sized_nil
  · split
    · cases dialect <;> simp [classicalSentence, registerTokens, elementTokens, Token.Sized, classical]
    · exact sized_nil

theorem sized_listing (dialect : Dialect) {listing : Listing} (sayable : listing.Sayable) :
    Sized (headerTokens dialect ++ sentenceTokens (listing.sentences dialect)) ↔
      ∀ angle ∈ listing.angles, Sized (angleTokens angle) := by
  have header : Sized (headerTokens dialect) := by cases dialect <;> simp [headerTokens, versionToken, Token.Sized]
  have own : Sized (sentenceTokens (if listing.needsSxdg dialect then [sxdgSentence] else [])) := by
    split
    · simp [sentenceTokens, sxdgSentence, sized_definition]
    · exact sized_nil
  have registers := sized_registers dialect sayable
  have includes : Sized (includeSentence dialect).tokens := by simp [includeSentence]
  have gates : Sized (sentenceTokens (listing.gates.map (·.sentence dialect))) ↔
      ∀ angle ∈ listing.gates.flatMap fun gate => gate.calls.flatMap fun call => calleeAngles call.callee,
        Sized (angleTokens angle) := by
    unfold sentenceTokens
    rw [sized_flatMap, List.forall_mem_map]
    simp only [sized_gate, List.mem_flatMap, forall_exists_index, and_imp]
    exact ⟨fun all angle gate member call stored within => all gate member angle call stored within,
      fun all gate member angle call stored within => all angle gate member call stored within⟩
  have body : Sized (sentenceTokens (listing.body.flatMap (·.sentences dialect))) ↔
      ∀ angle ∈ listing.body.flatMap (·.angles), Sized (angleTokens angle) := by
    unfold sentenceTokens
    rw [List.flatMap_assoc, sized_flatMap]
    simp only [List.mem_flatMap, forall_exists_index, and_imp]
    refine ⟨fun all angle instruction member within => ?_, fun all instruction member => ?_⟩
    · exact (sized_instruction dialect (sayable.body instruction member)).mp (all instruction member) angle within
    · exact (sized_instruction dialect (sayable.body instruction member)).mpr
        fun angle within => all angle instruction member within
  unfold sentenceTokens at *
  rw [Listing.sentences, Listing.definitions, Listing.angles, List.forall_mem_append, ← gates, ← body]
  simp only [List.flatMap_append, List.flatMap_singleton, sized_append]
  exact ⟨fun all => ⟨all.2.1.1.2.2, all.2.2⟩, fun all => ⟨header, ⟨⟨includes, own, all.1⟩, registers⟩, all.2⟩⟩

/-- Doubles that compare equal are written alike. -/
theorem constantProduct_of_beq {first second : Float} (same : (first == second) = true) :
    constantProduct first = constantProduct second := by
  obtain ⟨_, _, rfl | ⟨rfl, rfl⟩ | ⟨rfl, rfl⟩⟩ := Float.beq_iff_ne_nan_and_eq.mp same
  · rfl
  · unfold constantProduct
    rw [if_pos Decimal.zero_beq.1, if_pos Decimal.zero_beq.2]
  · unfold constantProduct
    rw [if_pos Decimal.zero_beq.1, if_pos Decimal.zero_beq.2]

theorem angleTokens_of_beq {first second : Angle} (same : (first == second) = true) :
    angleTokens first = angleTokens second := by
  have equals := Angle.equals_of_beq same
  clear same
  induction equals with
  | const same => rw [angleTokens, angleTokens, constantProduct_of_beq same]
  | symbol | pi => rfl
  | neg _ ih => rw [angleTokens, angleTokens, ih]
  | add _ _ one two | sub _ _ one two | mul _ _ one two | div _ _ one two => rw [angleTokens, angleTokens, one, two]

theorem angles_of_beq_elementary {first second : Elementary} (same : (first == second) = true) :
    first.angles.map angleTokens = second.angles.map angleTokens := by
  change instBEqElementary.beq first second = true at same
  unfold instBEqElementary.beq at same
  split at same
  next =>
    split at same
    case u =>
      obtain ⟨theta, others⟩ := Bool.and_eq_true_iff.mp same
      obtain ⟨phi, lambda⟩ := Bool.and_eq_true_iff.mp others
      simp only [Elementary.angles, List.map_cons, List.map_nil, angleTokens_of_beq theta, angleTokens_of_beq phi,
        angleTokens_of_beq lambda]
    all_goals first | rfl | simp only [Elementary.angles, List.map_cons, List.map_nil, angleTokens_of_beq same]
  next => cases same

mutual

theorem angles_of_beq : ∀ {first second : Gate}, Gate.beq first second = true →
    first.angles.map angleTokens = second.angles.map angleTokens
  | .elementary _ _, .elementary _ _, same => by
    rw [Gate.beq, Bool.and_eq_true] at same
    rw [Gate.angles, Gate.angles, angles_of_beq_elementary same.1]
  | .composite ⟨_, _, _⟩ _, .composite ⟨_, _, _⟩ _, same => by
    rw [Gate.beq] at same
    simp only [Bool.and_eq_true] at same
    rw [Gate.angles, Gate.angles, angles_of_beqList same.1.2]
  | .elementary _ _, .composite ⟨_, _, _⟩ _, same => by
    simp [Gate.beq] at same
  | .composite ⟨_, _, _⟩ _, .elementary _ _, same => by
    simp [Gate.beq] at same

theorem angles_of_beqList : ∀ {first second : List Application}, Application.beqList first second = true →
    (Application.anglesBody first).map angleTokens = (Application.anglesBody second).map angleTokens
  | [], [], _ => rfl
  | ⟨gate, qubits⟩ :: rest, ⟨other, operands⟩ :: tail, same => by
    rw [Application.beqList] at same
    simp only [Bool.and_eq_true] at same
    rw [Application.anglesBody, Application.anglesBody, List.map_append, List.map_append, angles_of_beq same.1.1,
      angles_of_beqList same.2]
  | [], ⟨_, _⟩ :: _, same => by
    simp [Application.beqList] at same
  | ⟨_, _⟩ :: _, [], same => by
    simp [Application.beqList] at same

end

def SizedAngles (angles : List Angle) : Prop := ∀ angle ∈ angles, Sized (angleTokens angle)

theorem sizedAngles_append {first second : List Angle} :
    SizedAngles (first ++ second) ↔ SizedAngles first ∧ SizedAngles second := List.forall_mem_append

theorem sizedAngles_of_map {first second : List Angle} (same : first.map angleTokens = second.map angleTokens)
    (sized : SizedAngles first) : SizedAngles second := by
  have runs : ∀ run ∈ second.map angleTokens, Sized run := same ▸ List.forall_mem_map.mpr sized
  exact List.forall_mem_map.mp runs

theorem Alike.sized {first second : Composite} (alike : Alike first second) (label : Option String)
    (sized : SizedAngles (Gate.composite first label).angles) : SizedAngles (Gate.composite second label).angles := by
  rcases alike with rfl | same
  · exact sized
  · exact sizedAngles_of_map (angles_of_beq (beq_composite same label)) sized

def listedAngles (gates : List WrittenGate) : List Angle :=
  gates.flatMap fun gate => gate.calls.flatMap fun call => calleeAngles call.callee

/-- A gate has no larger numbers than the callee that names it and the definitions that it needs. -/
theorem Names.sized {gates : List WrittenGate} (listed : Listed gates) (sized : SizedAngles (listedAngles gates))
    {callee : Callee} {gate : Gate} (names : Names gates callee gate) (called : SizedAngles (calleeAngles callee)) :
    SizedAngles gate.angles := by
  induction listed generalizing callee gate with
  | nil =>
    cases names with
    | elementary => exact called
    | defined gate label member => cases member
  | @cons earlier last follows listed ih =>
    cases names with
    | elementary => exact called
    | defined gate label member alike =>
      obtain ⟨own, before⟩ := sizedAngles_append.mp (show SizedAngles (_ ++ listedAngles earlier) from sized)
      rcases List.mem_cons.mp member with rfl | inside
      · have body : ∀ {calls : List WrittenCall} {body : List Application}, List.Forall₂ (Calls earlier) calls body →
            SizedAngles (calls.flatMap fun call => calleeAngles call.callee) →
            SizedAngles (Application.anglesBody body) := by
          intro calls body stand sized
          induction stand with
          | nil => exact sized
          | @cons call application _ _ first _ later =>
            obtain ⟨one, others⟩ := sizedAngles_append.mp sized
            obtain ⟨inner, qubits⟩ := application
            exact sizedAngles_append.mpr ⟨ih before first.names one, later others⟩
        refine alike.sized label ?_
        rw [Gate.angles_composite]
        exact body follows.calls own
      · exact ih before (.defined gate label inside alike) called

mutual

/-- What is listed for a gate has no larger numbers than the gate and what was listed before. -/
theorem sized_callee : ∀ {gate : Gate} {gates : List WrittenGate}, SizedAngles gate.angles →
    SizedAngles (listedAngles gates) → SizedAngles (calleeAngles (Gate.callee gate gates).1) ∧
      SizedAngles (listedAngles (Gate.callee gate gates).2)
  | .elementary kind label, gates, sized, listed => by
    rw [Gate.angles] at sized
    rw [Gate.callee]
    exact ⟨sized, listed⟩
  | .composite ⟨base, arity, body⟩ label, gates, sized, listed => by
    rw [Gate.angles] at sized
    rw [Gate.callee]
    split
    · exact ⟨nofun, listed⟩
    · obtain ⟨calls, later⟩ := sized_callees sized listed
      exact ⟨nofun, sizedAngles_append.mpr ⟨calls, later⟩⟩

theorem sized_callees : ∀ {body : List Application} {gates : List WrittenGate},
    SizedAngles (Application.anglesBody body) → SizedAngles (listedAngles gates) →
    SizedAngles ((Application.callees body gates).1.flatMap fun call => calleeAngles call.callee) ∧
      SizedAngles (listedAngles (Application.callees body gates).2)
  | [], gates, _, listed => by
    rw [Application.callees]
    exact ⟨nofun, listed⟩
  | ⟨gate, qubits⟩ :: rest, gates, sized, listed => by
    rw [Application.anglesBody, sizedAngles_append] at sized
    rw [Application.callees]
    obtain ⟨first, grown⟩ := sized_callee sized.1 listed
    obtain ⟨others, later⟩ := sized_callees sized.2 grown
    exact ⟨sizedAngles_append.mpr ⟨first, others⟩, later⟩

end

theorem sized_written {instruction : Instruction} {gates : List WrittenGate} (sized : SizedAngles instruction.angles)
    (listed : SizedAngles (listedAngles gates)) : SizedAngles (Instruction.written instruction gates).1.angles ∧
      SizedAngles (listedAngles (Instruction.written instruction gates).2) := by
  cases instruction with
  | gate call clbits =>
    obtain ⟨gate, qubits⟩ := call
    exact sized_callee sized listed
  | measure | reset | barrier => exact ⟨nofun, listed⟩

theorem sized_foldl {instructions : List Instruction} {body : List WrittenInstruction} {gates : List WrittenGate}
    (sized : ∀ instruction ∈ instructions, SizedAngles instruction.angles)
    (done : ∀ written ∈ body, SizedAngles written.angles) (listed : SizedAngles (listedAngles gates)) :
    let result := instructions.foldl (fun (state : List WrittenInstruction × List WrittenGate) instruction =>
      ((Instruction.written instruction state.2).1 :: state.1, (Instruction.written instruction state.2).2)) (body, gates)
    (∀ written ∈ result.1, SizedAngles written.angles) ∧ SizedAngles (listedAngles result.2) := by
  induction instructions generalizing body gates with
  | nil => exact ⟨done, listed⟩
  | cons instruction rest ih =>
    obtain ⟨first, others⟩ := List.forall_mem_cons.mp sized
    obtain ⟨written, grown⟩ := sized_written first listed
    exact ih others (List.forall_mem_cons.mpr ⟨written, done⟩) grown

end Qasm

namespace Circuit
open Qasm

theorem sizedAngles_iff {circuit : Circuit} :
    SizedAngles circuit.angles ↔ ∀ instruction ∈ circuit.instructions.toList, SizedAngles instruction.angles := by
  unfold SizedAngles angles
  simp only [List.mem_flatMap, forall_exists_index, and_imp]
  exact ⟨fun all instruction member angle within => all angle instruction member within,
    fun all angle instruction member within => all instruction member angle within⟩

/-- A listing has no larger numbers than its circuit, and no smaller ones. -/
theorem Sayable.sized_iff {circuit : Circuit} (sayable : circuit.Sayable) :
    SizedAngles (Listing.ofCircuit circuit).angles ↔ SizedAngles circuit.angles := by
  have turned : ∀ {gates : List WrittenGate}, SizedAngles (listedAngles gates.reverse) ↔ SizedAngles (listedAngles gates) := by
    intro gates
    unfold SizedAngles listedAngles
    simp only [List.mem_flatMap, List.mem_reverse]
  rw [sizedAngles_iff]
  constructor
  · intro sized instruction member
    obtain ⟨gates, listed, same, stands⟩ := sayable.listing
    obtain ⟨defined, body⟩ := sizedAngles_append.mp (show SizedAngles (listedAngles _ ++ _) from sized)
    rw [same, turned] at defined
    obtain ⟨written, stored, held⟩ := exists_mem_of_forall₂ stands member
    have called : SizedAngles written.angles := fun angle within => body angle (List.mem_flatMap.mpr ⟨written, stored, within⟩)
    cases held with
    | call calls => exact calls.names.sized listed defined called
    | measure | reset | barrier => exact nofun
  · intro sized
    obtain ⟨body, defined⟩ := sized_foldl sized (List.forall_mem_nil _) (show SizedAngles (listedAngles []) from nofun)
    refine sizedAngles_append.mpr ⟨turned.mpr defined, fun angle within => ?_⟩
    obtain ⟨written, stored, member⟩ := List.mem_flatMap.mp within
    exact body written (List.mem_reverse.mp stored) angle member

end Circuit

namespace Qasm

/-- The text of a circuit is cut into the tokens of its listing. -/
theorem cuts_write (dialect : Dialect) {circuit : Circuit} (legible : (Listing.ofCircuit circuit).Legible) :
    Cuts (write dialect circuit).toList
      (headerTokens dialect ++ sentenceTokens ((Listing.ofCircuit circuit).sentences dialect)) :=
  ⟨falls_write dialect legible.toSayable, (sized_listing dialect legible.toSayable).mpr legible.numbers⟩

end Qasm

namespace Circuit
open Qasm

theorem sized_plain {angle : Angle} (plain : Plain angle) : Sized (angleTokens angle) := by
  induction angle with
  | const => cases plain
  | symbol | pi => simp [angleTokens]
  | neg operand ih => simp [angleTokens, ih plain]
  | add left right one two | sub left right one two | mul left right one two | div left right one two =>
    simp [angleTokens, operationTokens, one plain.1, two plain.2]

mutual

theorem sized_writable : ∀ {gate : Gate}, Writable gate → SizedAngles gate.angles
  | .elementary _ _, writable => by
    rw [Writable] at writable
    rw [Gate.angles]
    exact fun angle member => sized_plain (writable angle member)
  | .composite ⟨_, _, _⟩ _, writable => by
    rw [Writable] at writable
    rw [Gate.angles]
    exact sized_writableBody writable.2.2

theorem sized_writableBody : ∀ {body : List Application}, WritableBody body → SizedAngles (Application.anglesBody body)
  | [], _ => nofun
  | ⟨_, _⟩ :: _, writable => by
    rw [WritableBody] at writable
    rw [Application.anglesBody]
    exact sizedAngles_append.mpr ⟨sized_writable writable.1, sized_writableBody writable.2⟩

end

theorem Recordable.legible {circuit : Circuit} (recordable : circuit.Recordable) :
    (Listing.ofCircuit circuit).Legible := by
  refine ⟨recordable.sayable.sayable, recordable.sayable.sized_iff.mpr (sizedAngles_iff.mpr fun instruction member => ?_)⟩
  cases instruction with
  | gate call clbits => exact sized_writable (recordable.gates call clbits member)
  | measure | reset | barrier => exact nofun

end Circuit

end CircuitCloak

import CircuitCloak.Proofs.Fitting
import Mathlib.Data.Set.List

/-! Wrapping a run of gates. The composite's local qubits number the operands, so that wrapping gates with
distinct operands fails only for a classical bit, and the composite stands for the gates that it was made of. -/

namespace CircuitCloak

private theorem firstAppearances_step {seen items : List Nat} (distinct : seen.Nodup) :
    (items.foldl (fun seen item => if item ∈ seen then seen else seen ++ [item]) seen).Nodup ∧
      ∀ item, item ∈ items.foldl (fun seen item => if item ∈ seen then seen else seen ++ [item]) seen ↔
        item ∈ seen ∨ item ∈ items := by
  induction items generalizing seen with
  | nil => simp [distinct]
  | cons item rest ih =>
    rw [List.foldl_cons]
    split
    next known =>
      obtain ⟨kept, members⟩ := ih distinct
      refine ⟨kept, fun other => ?_⟩
      rw [members other, List.mem_cons]
      constructor
      · rintro (earlier | later)
        · exact .inl earlier
        · exact .inr (.inr later)
      · rintro (earlier | rfl | later)
        · exact .inl earlier
        · exact .inl known
        · exact .inr later
    next fresh =>
      have grown : (seen ++ [item]).Nodup :=
        List.nodup_append.mpr ⟨distinct, by simp, fun first member second last same =>
          fresh (List.mem_singleton.mp last ▸ same ▸ member)⟩
      obtain ⟨kept, members⟩ := ih grown
      exact ⟨kept, fun other => by rw [members other]; simp [or_assoc]⟩

theorem firstAppearances_nodup (items : List Nat) : (firstAppearances items).Nodup :=
  (firstAppearances_step List.nodup_nil).1

@[simp]
theorem mem_firstAppearances {item : Nat} {items : List Nat} :
    item ∈ firstAppearances items ↔ item ∈ items :=
  ((firstAppearances_step List.nodup_nil).2 item).trans (by simp)

theorem getD_of_lt {operands : List Nat} {place : Nat} (inside : place < operands.length) :
    operands.getD place 0 = operands[place] := by
  rw [List.getD_eq_getElem?_getD, List.getElem?_eq_getElem inside, Option.getD_some]

def localIndex (operands : List Nat) (qubit : Nat) : Nat := (operands.idxOf? qubit).getD 0

theorem localIndex_lt {operands : List Nat} {qubit : Nat} (member : qubit ∈ operands) :
    localIndex operands qubit < operands.length := by
  obtain ⟨index, found⟩ := Option.isSome_iff_exists.mp (List.isSome_idxOf?.mpr member)
  rw [localIndex, found]
  exact (List.idxOf?_eq_some_iff.mp found).1

theorem getD_localIndex {operands : List Nat} {qubit : Nat} (member : qubit ∈ operands) :
    operands.getD (localIndex operands qubit) 0 = qubit := by
  obtain ⟨index, found⟩ := Option.isSome_iff_exists.mp (List.isSome_idxOf?.mpr member)
  obtain ⟨inside, same, _⟩ := List.idxOf?_eq_some_iff.mp found
  rw [localIndex, found, Option.getD_some, getD_of_lt inside]
  exact same

/-- Local numbers stand for the operands that they were given to. -/
theorem mapOperands_localIndex {operands qubits : List Nat} (members : ∀ qubit ∈ qubits, qubit ∈ operands) :
    mapOperands operands (qubits.map (localIndex operands)) = qubits := by
  rw [mapOperands, List.map_map]
  exact (List.map_congr_left fun qubit member => getD_localIndex (members qubit member)).trans (List.map_id' _)

theorem localIndex_operands {operands qubits : List Nat} (members : ∀ qubit ∈ qubits, qubit ∈ operands)
    (distinct : qubits.Nodup) : Operands operands.length (qubits.map (localIndex operands)) := by
  refine ⟨?_, ?_⟩
  · intro index member
    obtain ⟨qubit, within, rfl⟩ := List.mem_map.mp member
    exact localIndex_lt (members qubit within)
  · refine (List.nodup_map_iff_inj_on distinct).mpr fun first member second other same => ?_
    rw [← getD_localIndex (members first member), same, getD_localIndex (members second other)]

theorem mapOperands_operands {limit : Nat} {qubits locals : List Nat} (operands : Operands limit qubits)
    (positions : Operands qubits.length locals) : Operands limit (mapOperands qubits locals) := by
  refine ⟨?_, ?_⟩
  · intro qubit member
    obtain ⟨index, within, rfl⟩ := List.mem_map.mp member
    rw [getD_of_lt (positions.inside index within)]
    exact operands.inside _ (List.getElem_mem _)
  · refine (List.nodup_map_iff_inj_on positions.distinct).mpr fun first member second other same => ?_
    rw [getD_of_lt (positions.inside first member), getD_of_lt (positions.inside second other)] at same
    exact (List.Nodup.getElem_inj_iff operands.distinct).mp same

/-- A gate with as many operands as it takes, each once. -/
def Application.Formed (call : Application) : Prop :=
  call.qubits.length = call.gate.arity ∧ call.qubits.Nodup

def Application.localized (operands : List Nat) (call : Application) : Application :=
  ⟨call.gate, call.qubits.map (localIndex operands)⟩

theorem Application.expandBody_cons (call : Application) (rest : List Application) (operands : List Nat) :
    expandBody (call :: rest) operands =
      call.gate.expand (mapOperands operands call.qubits) ++ expandBody rest operands := by
  cases call
  rw [expandBody]

namespace Composite

def wrapOperands (calls : List Application) : List Nat := firstAppearances (calls.flatMap (·.qubits))

theorem mem_wrapOperands {calls : List Application} {call : Application} (member : call ∈ calls) :
    ∀ qubit ∈ call.qubits, qubit ∈ wrapOperands calls := by
  intro qubit within
  rw [wrapOperands, mem_firstAppearances]
  exact List.mem_flatMap.mpr ⟨call, member, within⟩

/-- The call that a composite makes of one instruction. -/
private def part (name : String) (arity : Nat) : Instruction → Except CircuitError Application
  | .gate call clbits => do
    (Instruction.gate call clbits).validate arity 0
    return call
  | other => .error (.notAGate name other.name)

private theorem ofInstructions_eq (name : String) (arity : Nat) (run : List Instruction) :
    ofInstructions name arity run = run.mapM (part name arity) >>= fun calls => .ok ⟨name, arity, calls⟩ :=
  rfl

private theorem part_eq_ok_iff {name : String} {arity : Nat} {instruction : Instruction} {call : Application} :
    part name arity instruction = .ok call ↔
      instruction = .gate call [] ∧ (Instruction.gate call []).Fits arity 0 := by
  constructor
  · intro done
    cases instruction with
    | gate inner clbits =>
      obtain ⟨_, fits, same⟩ := bind_eq_ok_iff.mp done
      cases same
      obtain rfl : clbits = [] := List.eq_nil_iff_forall_not_mem.mpr fun clbit member =>
        Nat.not_lt_zero clbit ((Instruction.fits_gate_iff.mp fits).2.2 clbit member)
      exact ⟨rfl, fits⟩
    | measure => cases done
    | reset => cases done
    | barrier => cases done
  · rintro ⟨rfl, fits⟩
    exact bind_eq_ok_iff.mpr ⟨(), fits, rfl⟩

private theorem mapM_part {name : String} {arity : Nat} {calls : List Application}
    (fits : ∀ call ∈ calls, (Instruction.gate call []).Fits arity 0) :
    (calls.map (Instruction.gate · [])).mapM (part name arity) = .ok calls := by
  rw [mapM_eq_ok_iff, List.forall₂_map_left_iff]
  exact List.forall₂_same.mpr fun call member => part_eq_ok_iff.mpr ⟨rfl, fits call member⟩

/-- A composite takes gates that fit below its arity, and only those: it has no classical bits. -/
theorem ofInstructions_eq_ok_iff {name : String} {arity : Nat} {run : List Instruction} {unit : Composite} :
    ofInstructions name arity run = .ok unit ↔ ∃ calls : List Application, run = calls.map (.gate · []) ∧
      (∀ call ∈ calls, (Instruction.gate call []).Fits arity 0) ∧ unit = ⟨name, arity, calls⟩ := by
  rw [ofInstructions_eq, bind_eq_ok_iff]
  constructor
  · rintro ⟨calls, parts, same⟩
    have each := (mapM_eq_ok_iff.mp parts).imp fun _ _ done => part_eq_ok_iff.mp done
    refine ⟨calls, ?_, fun call member => ?_, (Except.ok.inj same).symm⟩
    · rw [← List.forall₂_eq_eq_eq, List.forall₂_map_right_iff]
      exact each.imp fun _ _ both => both.1
    · obtain ⟨_, _, _, fits⟩ := exists_mem_of_forall₂ each member
      exact fits
  · rintro ⟨calls, rfl, fits, rfl⟩
    exact ⟨calls, mapM_part fits, rfl⟩

/-- Gates that fit below the arity are taken as they come. -/
theorem ofInstructions_eq_ok (name : String) {arity : Nat} {calls : List Application}
    (fits : ∀ call ∈ calls, (Instruction.gate call []).Fits arity 0) :
    ofInstructions name arity (calls.map (.gate · [])) = .ok ⟨name, arity, calls⟩ :=
  ofInstructions_eq_ok_iff.mpr ⟨calls, rfl, fits, rfl⟩

/-- A composite is refused for the first classical bit of a gate that would fit otherwise. -/
theorem ofInstructions_carrier (name : String) {arity bit : Nat} {before : List Application} {call : Application}
    (others : List Nat) (after : List Instruction) (bare : ∀ call ∈ before, (Instruction.gate call []).Fits arity 0)
    (fits : (Instruction.gate call []).Fits arity 0) :
    ofInstructions name arity (before.map (.gate · []) ++ .gate call (bit :: others) :: after) =
      .error (.clbitNotFound bit call.gate.name) := by
  have refused : part name arity (.gate call (bit :: others)) = .error (.clbitNotFound bit call.gate.name) :=
    congrArg (· >>= fun _ => Except.ok call) (Instruction.validate_carrier bit others fits)
  rw [ofInstructions_eq, List.mapM_append, List.mapM_cons, mapM_part bare, refused]
  rfl

/-- A formed call fits the local qubits of a composite whose operands are among its own. -/
theorem fits_localized {operands : List Nat} {call : Application} (formed : call.Formed)
    (members : ∀ qubit ∈ call.qubits, qubit ∈ operands) (small : operands.length < wordCount) :
    (Instruction.gate (call.localized operands) []).Fits operands.length 0 := by
  have inside := localIndex_operands members formed.2
  refine (Instruction.fits_iff_suits small).mpr ⟨fun other same => ?_, inside, nofun, List.forall_mem_nil _⟩
  cases same
  exact (List.length_map _).trans formed.1

/-- Formed calls fit the composite that wraps them. -/
theorem fits_wrapOperands {calls : List Application} (formed : ∀ call ∈ calls, call.Formed)
    (small : (wrapOperands calls).length < wordCount) : ∀ call ∈ calls.map (·.localized (wrapOperands calls)),
      (Instruction.gate call []).Fits (wrapOperands calls).length 0 := by
  intro call member
  obtain ⟨original, within, rfl⟩ := List.mem_map.mp member
  exact fits_localized (formed original within) (mem_wrapOperands within) small

private theorem wrap_eq (name : String) (run : List Instruction) :
    wrap name run =
      (ofInstructions name (wordSize (firstAppearances (run.flatMap (·.qubits))).length)
        (run.map (·.mapQubits (localIndex (firstAppearances (run.flatMap (·.qubits)))))) >>=
        fun composite => .ok (composite, firstAppearances (run.flatMap (·.qubits)))) :=
  rfl

private theorem operands_of_gates (calls : List Application) :
    firstAppearances ((calls.map (Instruction.gate · [])).flatMap (·.qubits)) = wrapOperands calls := by
  rw [List.flatMap_map]
  rfl

private theorem mapQubits_gates (calls : List Application) (operands : List Nat) :
    (calls.map (Instruction.gate · [])).map (·.mapQubits (localIndex operands)) =
      (calls.map (·.localized operands)).map (Instruction.gate · []) := by
  simp only [List.map_map]
  rfl

/-- An instruction whose renumbered form is a gate without classical bits is one itself. -/
private theorem gate_of_mapQubits {instruction : Instruction} {rename : Nat → Nat} {call : Application}
    (renamed : instruction.mapQubits rename = .gate call []) : ∃ original, instruction = .gate original [] := by
  cases instruction with
  | gate original clbits =>
    cases renamed
    exact ⟨original, rfl⟩
  | measure => cases renamed
  | reset => cases renamed
  | barrier => cases renamed

/-- Operands whose local numbers lie below their number, cut to a word, are not more than there are words. -/
private theorem wordSize_of_localIndex {operands : List Nat} (distinct : operands.Nodup)
    (below : ∀ qubit ∈ operands, localIndex operands qubit < wordSize operands.length) :
    operands.length < wordCount := by
  by_contra many
  have cut : wordSize operands.length < wordCount := Nat.mod_lt _ (by decide)
  have inside : wordSize operands.length < operands.length := Nat.lt_of_lt_of_le cut (Nat.le_of_not_lt many)
  have place : localIndex operands operands[wordSize operands.length] = wordSize operands.length := by
    have found := getD_localIndex (List.getElem_mem inside)
    rw [getD_of_lt (localIndex_lt (List.getElem_mem inside))] at found
    exact (List.Nodup.getElem_inj_iff distinct).mp found
  exact Nat.lt_irrefl _ (place ▸ below _ (List.getElem_mem inside))

private theorem exists_calls_of_mapQubits {run : List Instruction} {rename : Nat → Nat} {locals : List Application}
    (renamed : run.map (·.mapQubits rename) = locals.map (.gate · [])) :
    ∃ calls : List Application, run = calls.map (.gate · []) := by
  have range : run ∈ Set.range (List.map (Instruction.gate · [])) := by
    rw [Set.range_list_map]
    intro instruction member
    have mapped := List.mem_map_of_mem (f := (·.mapQubits rename)) member
    rw [renamed] at mapped
    obtain ⟨_, _, same⟩ := List.mem_map.mp mapped
    exact (gate_of_mapQubits same.symm).imp fun _ same => same.symm
  exact range.imp fun _ same => same.symm

/-- Calls that fit the composite that wraps them are formed, and have as many operands as a word can count. -/
private theorem formed_of_fits {calls : List Application}
    (fits : ∀ call ∈ calls.map (·.localized (wrapOperands calls)),
      (Instruction.gate call []).Fits (wordSize (wrapOperands calls).length) 0) :
    (∀ call ∈ calls, call.Formed) ∧ (wrapOperands calls).length < wordCount := by
  have placed (call : Application) (member : call ∈ calls) :=
    Instruction.fits_gate_iff.mp (fits _ (List.mem_map_of_mem member))
  have small : (wrapOperands calls).length < wordCount := by
    refine wordSize_of_localIndex (firstAppearances_nodup _) fun qubit member => ?_
    obtain ⟨call, within, named⟩ := List.mem_flatMap.mp (mem_firstAppearances.mp member)
    exact (placed call within).2.1.inside _ (List.mem_map_of_mem named)
  rw [wordSize_of_lt small] at placed
  refine ⟨fun call member => ⟨?_, (placed call member).2.1.distinct.of_map _⟩, small⟩
  obtain ⟨count, inside, _⟩ := placed call member
  have few : (call.localized (wrapOperands calls)).qubits.length < wordCount :=
    Nat.lt_of_le_of_lt inside.length_le small
  rw [wordSize_of_lt few] at count
  exact (List.length_map _).symm.trans count

/-- What wrapping a run takes and gives: the run is of gates without classical bits, each formed on its own,
and its operands are counted by a word. -/
theorem wrap_eq_ok_iff {name : String} {run : List Instruction} {unit : Composite} {operands : List Nat} :
    wrap name run = .ok (unit, operands) ↔ ∃ calls : List Application, run = calls.map (.gate · []) ∧
      (∀ call ∈ calls, call.Formed) ∧ (wrapOperands calls).length < wordCount ∧
      unit = ⟨name, (wrapOperands calls).length, calls.map (·.localized (wrapOperands calls))⟩ ∧
      operands = wrapOperands calls := by
  rw [wrap_eq, bind_eq_ok_iff]
  constructor
  · rintro ⟨composite, made, same⟩
    obtain ⟨locals, renamed, fits, rfl⟩ := ofInstructions_eq_ok_iff.mp made
    obtain ⟨rfl, rfl⟩ := Prod.mk.inj (Except.ok.inj same)
    obtain ⟨calls, rfl⟩ := exists_calls_of_mapQubits renamed
    rw [operands_of_gates, mapQubits_gates] at renamed
    have injective : Function.Injective (Instruction.gate · []) := fun _ _ same => (Instruction.gate.inj same).1
    obtain rfl := (List.map_injective_iff.mpr injective) renamed
    rw [operands_of_gates] at fits ⊢
    obtain ⟨formed, small⟩ := formed_of_fits fits
    exact ⟨calls, rfl, formed, small, by rw [wordSize_of_lt small], rfl⟩
  · rintro ⟨calls, rfl, formed, small, rfl, rfl⟩
    rw [operands_of_gates, mapQubits_gates, wordSize_of_lt small]
    exact ⟨_, ofInstructions_eq_ok name (fits_wrapOperands formed small), rfl⟩

theorem wrap_eq_ok (name : String) {calls : List Application} (formed : ∀ call ∈ calls, call.Formed)
    (small : (wrapOperands calls).length < wordCount) :
    wrap name (calls.map (.gate · [])) = .ok
      (⟨name, (wrapOperands calls).length, calls.map (·.localized (wrapOperands calls))⟩,
        wrapOperands calls) :=
  wrap_eq_ok_iff.mpr ⟨calls, rfl, formed, small, rfl, rfl⟩

/-- Wrapping gates that are formed is refused for the first classical bit among them. -/
theorem wrap_carrier (name : String) {bit : Nat} {before : List Application} {call : Application} (others : List Nat)
    {after run : List Instruction} (split : run = before.map (.gate · []) ++ .gate call (bit :: others) :: after)
    (bare : ∀ call ∈ before, call.Formed) (formed : call.Formed)
    (small : (firstAppearances (run.flatMap (·.qubits))).length < wordCount) :
    wrap name run = .error (.clbitNotFound bit call.gate.name) := by
  have members : ∀ instruction ∈ run, ∀ qubit ∈ instruction.qubits, qubit ∈ firstAppearances (run.flatMap (·.qubits)) :=
    fun instruction member qubit within => mem_firstAppearances.mpr (List.mem_flatMap.mpr ⟨instruction, member, within⟩)
  rw [wrap_eq, wordSize_of_lt small]
  generalize firstAppearances (run.flatMap (·.qubits)) = operands at members small ⊢
  subst split
  have renamed : (before.map (Instruction.gate · []) ++ .gate call (bit :: others) :: after).map
      (·.mapQubits (localIndex operands)) =
      (before.map (·.localized operands)).map (.gate · []) ++ .gate (call.localized operands) (bit :: others) ::
        after.map (·.mapQubits (localIndex operands)) := by
    rw [List.map_append, mapQubits_gates]
    rfl
  rw [renamed, ofInstructions_carrier]
  · rfl
  · intro other member
    obtain ⟨original, within, rfl⟩ := List.mem_map.mp member
    exact fits_localized (bare original within)
      (members _ (List.mem_append_left _ (List.mem_map_of_mem within))) small
  · exact fits_localized formed (members _ (List.mem_append_right _ List.mem_cons_self)) small

/-- What a composite stands for on the operands of the run that it wraps: the run itself. -/
theorem expandBody_localized {operands : List Nat} {calls : List Application}
    (members : ∀ call ∈ calls, ∀ qubit ∈ call.qubits, qubit ∈ operands) :
    Application.expandBody (calls.map (·.localized operands)) operands = calls.flatMap (·.expand) := by
  induction calls with
  | nil => rfl
  | cons call rest ih =>
    rw [List.map_cons, List.flatMap_cons, Application.expandBody_cons,
      ih fun other member => members other (by simp [member])]
    change call.gate.expand (mapOperands operands (call.qubits.map (localIndex operands))) ++ _ = _
    rw [mapOperands_localIndex (members call (by simp))]
    rfl

end Composite

end CircuitCloak

import CircuitCloak.Proofs.Fitting
import CircuitCloak.Proofs.KernelAmplitudes

/-! Elementary gates as changes of waves. A gate reads and writes an index at its operands only, so it
does the same on the operands as on their positions, and it is linear in the wave. -/

namespace CircuitCloak

/-- How a gate moves amplitudes: not at all, by a matrix on a qubit, or by an exchange of two, wherever
the controls are set. -/
inductive Motion (α : Type) where
  | still
  | turn (controls : List Nat) (target : Nat) (matrix : QubitMatrix α)
  | exchange (controls : List Nat) (first second : Nat)

namespace Motion

variable {α : Type}

def allSet (controls : List Nat) (index : Nat) : Bool := controls.all index.testBit

def change [Add α] [Mul α] : Motion α → Wave α → Wave α
  | still, wave => wave
  | turn controls target matrix, wave => wave.turned (allSet controls) target matrix
  | exchange controls first second, wave => wave.exchanged (allSet controls) first second

def qubits : Motion α → List Nat
  | still => []
  | turn controls target _ => controls ++ [target]
  | exchange controls first second => controls ++ [first, second]

def mapQubits (rename : Nat → Nat) : Motion α → Motion α
  | still => still
  | turn controls target matrix => turn (controls.map rename) (rename target) matrix
  | exchange controls first second => exchange (controls.map rename) (rename first) (rename second)

def ofMatrix (controls : List Nat) (target : Nat) : Option (QubitMatrix α) → Motion α
  | some matrix => turn controls target matrix
  | none => still

@[simp]
theorem mapQubits_ofMatrix (controls : List Nat) (target : Nat) (matrix : Option (QubitMatrix α))
    (rename : Nat → Nat) : (ofMatrix controls target matrix).mapQubits rename =
      ofMatrix (controls.map rename) (rename target) matrix := by
  cases matrix <;> rfl

theorem qubits_ofMatrix (controls : List Nat) (target : Nat) (matrix : Option (QubitMatrix α)) :
    (ofMatrix controls target matrix).qubits = controls ++ [target] ∨
      (ofMatrix controls target matrix).qubits = [] := by
  cases matrix with
  | some => exact .inl rfl
  | none => exact .inr rfl

end Motion

namespace Motion

theorem allSet_withBit {controls : List Nat} {qubit : Nat} (apart : qubit ∉ controls) (index : Nat)
    (value : Bool) : allSet controls (withBit index qubit value) = allSet controls index := by
  rw [allSet, allSet, Bool.eq_iff_iff, List.all_eq_true, List.all_eq_true]
  refine forall₂_congr fun control member => ?_
  have different : control ≠ qubit := fun same => apart (same ▸ member)
  rw [testBit_withBit_of_ne different]

theorem allSet_exchangeBits {controls : List Nat} {first second : Nat} (apartFirst : first ∉ controls)
    (apartSecond : second ∉ controls) (index : Nat) :
    allSet controls (exchangeBits index first second) = allSet controls index := by
  rw [exchangeBits, allSet_withBit apartSecond, allSet_withBit apartFirst]

variable {α : Type} [CommRing α]

private theorem turn_turn {controls others : List Nat} {target other : Nat}
    (apart : ∀ qubit ∈ controls ++ [target], qubit ∉ others ++ [other])
    (matrix another : QubitMatrix α) (wave : Wave α) :
    (turn controls target matrix).change ((turn others other another).change wave) =
      (turn others other another).change ((turn controls target matrix).change wave) := by
  have different : target ≠ other := fun same => apart target (by simp) (by simp [same])
  have left : target ∉ others := fun member => apart target (by simp) (by simp [member])
  have right : other ∉ controls := fun member => apart other (by simp [member]) (by simp)
  funext index
  simp only [change, Wave.turned, allSet_withBit left, allSet_withBit right, testBit_withBit_of_ne different,
    testBit_withBit_of_ne different.symm, withBit_comm different]
  split
  · split
    · ring
    · rfl
  · rfl

private theorem turn_exchange {controls others : List Nat} {target first second : Nat}
    (apart : ∀ qubit ∈ controls ++ [target], qubit ∉ others ++ [first, second])
    (matrix : QubitMatrix α) (wave : Wave α) :
    (turn controls target matrix).change ((exchange others first second).change wave) =
      (exchange others first second).change ((turn controls target matrix).change wave) := by
  have one : target ≠ first := fun same => apart target (by simp) (by simp [same])
  have two : target ≠ second := fun same => apart target (by simp) (by simp [same])
  have left : target ∉ others := fun member => apart target (by simp) (by simp [member])
  have front : first ∉ controls := fun member => apart first (by simp [member]) (by simp)
  have back : second ∉ controls := fun member => apart second (by simp [member]) (by simp)
  funext index
  simp only [change, Wave.turned, Wave.exchanged, allSet_withBit left, allSet_exchangeBits front back,
    testBit_exchangeBits_of_ne one two, exchangeBits_withBit one two]
  split <;> split <;> rfl

private theorem exchange_exchange {controls others : List Nat} {first second third fourth : Nat}
    (apart : ∀ qubit ∈ controls ++ [first, second], qubit ∉ others ++ [third, fourth]) (wave : Wave α) :
    (exchange controls first second).change ((exchange others third fourth).change wave) =
      (exchange others third fourth).change ((exchange controls first second).change wave) := by
  have one : first ≠ third := fun same => apart first (by simp) (by simp [same])
  have two : first ≠ fourth := fun same => apart first (by simp) (by simp [same])
  have three : second ≠ third := fun same => apart second (by simp) (by simp [same])
  have four : second ≠ fourth := fun same => apart second (by simp) (by simp [same])
  have left : first ∉ others := fun member => apart first (by simp) (by simp [member])
  have right : second ∉ others := fun member => apart second (by simp) (by simp [member])
  have front : third ∉ controls := fun member => apart third (by simp [member]) (by simp)
  have back : fourth ∉ controls := fun member => apart fourth (by simp [member]) (by simp)
  have moved : ∀ index, exchangeBits (exchangeBits index first second) third fourth =
      exchangeBits (exchangeBits index third fourth) first second := by
    intro index
    have outer : exchangeBits index third fourth =
        withBit (withBit index third (index.testBit fourth)) fourth (index.testBit third) := rfl
    rw [outer, exchangeBits_withBit two.symm four.symm, exchangeBits_withBit one.symm three.symm,
      ← testBit_exchangeBits_of_ne one.symm three.symm, ← testBit_exchangeBits_of_ne two.symm four.symm]
    rfl
  funext index
  simp only [change, Wave.exchanged, allSet_exchangeBits left right, allSet_exchangeBits front back, moved]
  split <;> split <;> rfl

/-- Motions of different qubits may be taken in either order. -/
theorem change_comm {first second : Motion α} (apart : ∀ qubit ∈ first.qubits, qubit ∉ second.qubits)
    (wave : Wave α) : first.change (second.change wave) = second.change (first.change wave) := by
  have back : ∀ qubit ∈ second.qubits, qubit ∉ first.qubits := fun qubit named member => apart qubit member named
  cases first with
  | still => rfl
  | turn controls target matrix =>
    cases second with
    | still => rfl
    | turn others other another => exact turn_turn apart matrix another wave
    | exchange others one two => exact turn_exchange apart matrix wave
  | exchange controls one two =>
    cases second with
    | still => rfl
    | turn others other another => exact (turn_exchange back another wave).symm
    | exchange others three four => exact exchange_exchange apart wave

end Motion

namespace Elementary

variable {α : Type} [Zero α] [One α] [Neg α] [GateScalar α]

/-- The motion of a gate on as many operands as it takes. -/
def motion (gate : Elementary) (qubits : List Nat) : Motion α :=
  match gate, qubits with
  | .id, _ => .still
  | .swap, [first, second] => .exchange [] first second
  | .cswap, [control, first, second] => .exchange [control] first second
  | .ccx, [control, other, target] => .ofMatrix [control, other] target (targetMatrix? .ccx)
  | gate, [target] => .ofMatrix [] target (targetMatrix? gate)
  | gate, [control, target] => .ofMatrix [control] target (targetMatrix? gate)
  | _, _ => .still

theorem motion_map (gate : Elementary) (qubits : List Nat) (rename : Nat → Nat) :
    (gate.motion (qubits.map rename) : Motion α) = (gate.motion qubits).mapQubits rename := by
  match qubits with
  | [] => cases gate <;> rfl
  | [_] => cases gate <;> first | rfl | simp only [motion, List.map_cons, List.map_nil, Motion.mapQubits_ofMatrix]
  | [_, _] => cases gate <;> first | rfl | simp only [motion, List.map_cons, List.map_nil, Motion.mapQubits_ofMatrix]
  | [_, _, _] => cases gate <;> rfl
  | _ :: _ :: _ :: _ :: _ => cases gate <;> rfl

theorem motion_qubits (gate : Elementary) (qubits : List Nat) :
    (gate.motion qubits : Motion α).qubits = qubits ∨ (gate.motion qubits : Motion α).qubits = [] := by
  match qubits with
  | [] => cases gate <;> exact .inr rfl
  | [_] => cases gate <;> first | exact .inr rfl | exact .inl rfl | exact Motion.qubits_ofMatrix [] _ _
  | [_, _] => cases gate <;> first | exact .inr rfl | exact .inl rfl | exact Motion.qubits_ofMatrix [_] _ _
  | [_, _, _] => cases gate <;> first | exact .inr rfl | exact .inl rfl
  | _ :: _ :: _ :: _ :: _ => cases gate <;> exact .inr rfl

end Elementary

namespace Kernel

def maskOf (controls : List Nat) : Nat := controls.foldr (fun control mask => bitMask control ||| mask) 0

theorem testBit_maskOf (controls : List Nat) (qubit : Nat) :
    (maskOf controls).testBit qubit = decide (qubit ∈ controls) := by
  induction controls with
  | nil => simp [maskOf]
  | cons control rest ih =>
    rw [maskOf, List.foldr_cons, Nat.testBit_or]
    change ((bitMask control).testBit qubit || (maskOf rest).testBit qubit) = _
    rw [ih, bitMask]
    simp [Nat.testBit_two_pow, eq_comm]

theorem hasControls_maskOf (controls : List Nat) : hasControls (maskOf controls) = Motion.allSet controls := by
  funext index
  induction controls with
  | nil => exact hasControls_zero index
  | cons control rest ih =>
    rw [Motion.allSet, List.all_cons, ← hasControls_bitMask]
    exact (hasControls_or _ _ _).trans (congrArg _ ih)

end Kernel

namespace Statevector
open Kernel

section Gates

variable {α : Type} [Add α] [Mul α]

def move : Motion α → Statevector α → Statevector α
  | .still, state => state
  | .turn controls target matrix, state => state.applyTo (maskOf controls) target (some matrix)
  | .exchange controls first second, state => state.exchange (maskOf controls) first second

theorem applyTo_eq_move {mask : Nat} (controls : List Nat) (masked : mask = maskOf controls) (target : Nat)
    (matrix : Option (QubitMatrix α)) (state : Statevector α) :
    state.applyTo mask target matrix = move (.ofMatrix controls target matrix) state := by
  rw [masked]
  cases matrix <;> rfl

theorem exchange_eq_move {mask : Nat} (controls : List Nat) (masked : mask = maskOf controls) (first second : Nat)
    (state : Statevector α) : state.exchange mask first second = move (.exchange controls first second) state := by
  rw [masked]
  rfl

@[simp]
theorem numQubits_applyTo (mask target : Nat) (matrix : Option (QubitMatrix α)) (state : Statevector α) :
    (state.applyTo mask target matrix).numQubits = state.numQubits := by
  cases matrix <;> rfl

variable [Zero α] [One α] [Neg α] [GateScalar α]

@[simp]
theorem numQubits_applyElementary (gate : Elementary) (qubits : List Nat) (state : Statevector α) :
    (state.applyElementary gate qubits).numQubits = state.numQubits := by
  unfold applyElementary
  split <;> first | rfl | exact numQubits_applyTo .. | skip
  split <;> exact numQubits_applyTo ..

/-- A gate on as many operands as it takes does what its motion does. -/
theorem applyElementary_eq_move {gate : Elementary} {qubits : List Nat} (length : qubits.length = gate.arity)
    (state : Statevector α) : state.applyElementary gate qubits = move (gate.motion qubits) state := by
  match qubits with
  | [] => cases gate <;> cases length
  | [target] =>
    cases gate with
    | id => rfl
    | x | y | z | h | s | sdg | t | tdg | sx | sxdg | rx | ry | rz | p | u =>
      simp only [applyElementary, Elementary.motion]
      exact applyTo_eq_move [] rfl target _ state
    | _ => cases length
  | [control, target] =>
    have masked : bitMask control = maskOf [control] := (Nat.or_zero _).symm
    have binary : gate.arity = 2 := length.symm
    cases gate with
    | swap => exact exchange_eq_move [] rfl control target state
    | cx | cy | cz | ch | crz | cp =>
      simp only [applyElementary, Elementary.motion, if_pos binary]
      exact applyTo_eq_move [control] masked target _ state
    | _ => cases length
  | [control, other, target] =>
    have masked : bitMask control = maskOf [control] := (Nat.or_zero _).symm
    have both : bitMask control ||| bitMask other = maskOf [control, other] := by simp [maskOf]
    cases gate with
    | ccx => exact applyTo_eq_move [control, other] both target (targetMatrix? .ccx) state
    | cswap => exact exchange_eq_move [control] masked other target state
    | _ => cases length
  | _ :: _ :: _ :: _ :: _ => cases gate <;> cases length

theorem numQubits_applyCall (state : Statevector α) (call : Application) :
    (state.applyCall call).numQubits = state.numQubits := by
  unfold applyCall
  split
  · exact numQubits_applyElementary ..
  · rfl

theorem numQubits_apply (state : Statevector α) (call : Application) :
    (state.apply call).numQubits = state.numQubits := by
  unfold apply
  generalize call.expand = leaves
  induction leaves generalizing state with
  | nil => rfl
  | cons leaf leaves ih => exact (ih (state.applyCall leaf)).trans (state.numQubits_applyCall leaf)

theorem numQubits_applyAll (state : Statevector α) (instructions : List Instruction) :
    (state.applyAll instructions).numQubits = state.numQubits := by
  unfold applyAll
  induction instructions generalizing state with
  | nil => rfl
  | cons instruction instructions ih =>
    refine (ih (state.applyInstruction instruction)).trans ?_
    cases instruction with
    | gate call => exact state.numQubits_apply call
    | measure => rfl
    | reset => rfl
    | barrier => rfl

end Gates

def wave (state : Statevector ℂ) : Wave ℂ := Kernel.wave state.amplitudes

theorem eq_of_wave {first second : Statevector ℂ} (size : first.numQubits = second.numQubits)
    (same : first.wave = second.wave) : first = second := by
  obtain ⟨numQubits, amplitudes⟩ := first
  obtain ⟨other, found⟩ := second
  cases size
  exact congrArg _ (wave_injective same)

variable {state : Statevector ℂ} {mask : Nat}

theorem wave_applyTo (controls : List Nat) {target : Nat} (masked : mask = maskOf controls)
    (operands : Operands state.numQubits (controls ++ [target])) (matrix : Option (QubitMatrix ℂ)) :
    (state.applyTo mask target matrix).wave = (Motion.ofMatrix controls target matrix).change state.wave := by
  cases matrix with
  | none => rfl
  | some matrix =>
    have apart : mask.testBit target = false := by
      rw [masked, testBit_maskOf]
      have distinct := List.nodup_append.mp operands.distinct
      exact decide_eq_false fun member => distinct.2.2 target member target (by simp) rfl
    refine (wave_actOnQubit (operands.inside target (by simp)) apart matrix state.amplitudes).trans ?_
    rw [masked, hasControls_maskOf]
    rfl

theorem wave_exchange (controls : List Nat) {first second : Nat} (masked : mask = maskOf controls)
    (operands : Operands state.numQubits (controls ++ [first, second])) :
    (state.exchange mask first second).wave = (Motion.exchange controls first second).change state.wave := by
  have distinct := List.nodup_append.mp operands.distinct
  have apart : ∀ qubit ∈ [first, second], mask.testBit qubit = false := by
    intro qubit named
    rw [masked, testBit_maskOf]
    exact decide_eq_false fun member => distinct.2.2 qubit member qubit named rfl
  have different : first ≠ second := by simpa using distinct.2.1
  refine (wave_exchangeQubits (operands.inside first (by simp)) (operands.inside second (by simp)) different
    (apart first (by simp)) (apart second (by simp)) state.amplitudes).trans ?_
  rw [masked, hasControls_maskOf]
  rfl

theorem wave_move {motion : Motion ℂ} (operands : Operands state.numQubits motion.qubits) :
    (move motion state).wave = motion.change state.wave := by
  cases motion with
  | still => rfl
  | turn controls target matrix => exact wave_applyTo controls rfl operands (some matrix)
  | exchange controls first second => exact wave_exchange controls rfl operands

/-- A gate on as many operands as it takes, each once, moves the wave of a state. -/
theorem wave_applyElementary [GateScalar ℂ] {gate : Elementary} {qubits : List Nat} (length : qubits.length = gate.arity)
    (operands : Operands state.numQubits qubits) :
    (state.applyElementary gate qubits).wave = (gate.motion qubits).change state.wave := by
  rw [applyElementary_eq_move length]
  apply wave_move
  rcases gate.motion_qubits (α := ℂ) qubits with all | none
  · rw [all]
    exact operands
  · rw [none]
    exact ⟨nofun, List.nodup_nil⟩

end Statevector

end CircuitCloak

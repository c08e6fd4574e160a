import CircuitCloak.Proofs.Locality
import CircuitCloak.Proofs.TransformOutcomes
import Mathlib.Data.Matrix.Mul

/-! What a run of instructions does to a state. Discrete gates act as the simulator applies them over
complex numbers; a gate with angles and a reset may be anything that lets a factor through. Two runs
that are alike differ by one factor of norm one, which then passes through all that follows. -/

namespace CircuitCloak

namespace Kernel

variable {size : Nat}

def scaled (factor : ℂ) (amplitudes : Vector ℂ size) : Vector ℂ size := amplitudes.map (factor * ·)

theorem getElem_scaled (factor : ℂ) (amplitudes : Vector ℂ size) {index : Nat} (inside : index < size) :
    (scaled factor amplitudes)[index] = factor * amplitudes[index] :=
  Vector.getElem_map _ inside

private theorem foldl_scaled {step : Vector ℂ size → Fin size → Vector ℂ size} {factor : ℂ}
    (passes : ∀ amplitudes index, step (scaled factor amplitudes) index = scaled factor (step amplitudes index))
    (amplitudes : Vector ℂ size) :
    Fin.foldl size step (scaled factor amplitudes) = scaled factor (Fin.foldl size step amplitudes) := by
  rw [Fin.foldl_eq_finRange_foldl, Fin.foldl_eq_finRange_foldl]
  exact (List.foldl_hom (scaled factor) fun amplitudes index => passes amplitudes index)

theorem actOnQubit_scaled (controls target : Nat) (matrix : QubitMatrix ℂ) (factor : ℂ)
    (amplitudes : Vector ℂ size) :
    actOnQubit controls target matrix (scaled factor amplitudes) =
      scaled factor (actOnQubit controls target matrix amplitudes) := by
  refine foldl_scaled (fun amplitudes index => ?_) amplitudes
  unfold matrixStep scaled
  split
  · dsimp only
    split
    · simp only [Fin.getElem_fin, Vector.getElem_map, Vector.map_set]
      congr 1
      · congr 1
        ring
      · ring
    · rfl
  · rfl

theorem exchangeQubits_scaled (controls first second : Nat) (factor : ℂ) (amplitudes : Vector ℂ size) :
    exchangeQubits controls first second (scaled factor amplitudes) =
      scaled factor (exchangeQubits controls first second amplitudes) := by
  refine foldl_scaled (fun amplitudes index => ?_) amplitudes
  unfold swapStep scaled
  split
  · dsimp only
    split
    · refine Vector.ext fun place inside => ?_
      simp only [Vector.getElem_map, Vector.getElem_swap]
      split
      · rfl
      · split <;> rfl
    · rfl
  · rfl

end Kernel

namespace Statevector

def scaled (state : Statevector ℂ) (factor : ℂ) : Statevector ℂ :=
  ⟨state.numQubits, Kernel.scaled factor state.amplitudes⟩

@[simp]
theorem numQubits_scaled (state : Statevector ℂ) (factor : ℂ) :
    (state.scaled factor).numQubits = state.numQubits := rfl

theorem wave_scaled (state : Statevector ℂ) (factor : ℂ) :
    (state.scaled factor).wave = fun index => factor * state.wave index := by
  funext index
  by_cases inside : index < Nat.pow 2 state.numQubits
  · exact (Kernel.wave_of_lt _ inside).trans
      ((Vector.getElem_map _ inside).trans (congrArg _ (Kernel.wave_of_lt _ inside).symm))
  · have outside := Nat.le_of_not_lt inside
    exact (Kernel.wave_of_le _ outside).trans
      ((mul_zero factor).symm.trans (congrArg _ (Kernel.wave_of_le _ outside).symm))

@[simp]
theorem scaled_one (state : Statevector ℂ) : state.scaled 1 = state := by
  refine eq_of_wave rfl ?_
  simp [wave_scaled]

theorem scaled_scaled (state : Statevector ℂ) (first second : ℂ) :
    (state.scaled first).scaled second = state.scaled (first * second) := by
  refine eq_of_wave rfl ?_
  funext index
  simp only [wave_scaled]
  ring

theorem applyTo_scaled (controls target : Nat) (matrix : Option (QubitMatrix ℂ)) (factor : ℂ)
    (state : Statevector ℂ) :
    (state.scaled factor).applyTo controls target matrix = (state.applyTo controls target matrix).scaled factor := by
  cases matrix with
  | none => rfl
  | some matrix => exact congrArg _ (Kernel.actOnQubit_scaled controls target matrix factor state.amplitudes)

theorem exchange_scaled (controls first second : Nat) (factor : ℂ) (state : Statevector ℂ) :
    (state.scaled factor).exchange controls first second = (state.exchange controls first second).scaled factor :=
  congrArg _ (Kernel.exchangeQubits_scaled controls first second factor state.amplitudes)

theorem applyElementary_scaled (gate : Elementary) (qubits : List Nat) (factor : ℂ) (state : Statevector ℂ) :
    (state.scaled factor).applyElementary gate qubits = (state.applyElementary gate qubits).scaled factor := by
  unfold applyElementary
  split
  · rfl
  · exact exchange_scaled _ _ _ _ _
  · exact exchange_scaled _ _ _ _ _
  · exact applyTo_scaled _ _ _ _ _
  · exact applyTo_scaled _ _ _ _ _
  · split <;> exact applyTo_scaled _ _ _ _ _
  · rfl

end Statevector

/-- A change of states that keeps the register and lets factors through, as every linear map does. -/
structure Operator where
  act : Statevector ℂ → Statevector ℂ
  register : ∀ state, (act state).numQubits = state.numQubits
  scaled : ∀ state factor, act (state.scaled factor) = (act state).scaled factor

noncomputable def Operator.ofMatrix
    (matrix : (numQubits : Nat) → Matrix (Fin (Nat.pow 2 numQubits)) (Fin (Nat.pow 2 numQubits)) ℂ) : Operator where
  act state := ⟨state.numQubits, Vector.ofFn ((matrix state.numQubits).mulVec state.amplitudes.get)⟩
  register _ := rfl
  scaled state factor := by
    have factored : (Kernel.scaled factor state.amplitudes).get = factor • state.amplitudes.get := by
      funext index
      exact Vector.getElem_map _ index.isLt
    refine congrArg (Statevector.mk state.numQubits) (Vector.ext fun index inside => ?_)
    change (Vector.ofFn ((matrix state.numQubits).mulVec (Kernel.scaled factor state.amplitudes).get))[index] = _
    rw [factored, Matrix.mulVec_smul]
    refine (Vector.getElem_ofFn inside).trans ?_
    exact ((Kernel.getElem_scaled _ _ inside).trans (congrArg (factor * ·) (Vector.getElem_ofFn inside))).symm

/-- A meaning for the gates with angles, on their operands, and for every reset, by its number. -/
structure Reading where
  turn : Elementary → List Nat → Operator
  reset : Nat → List Nat → Operator

namespace Reading

noncomputable def call (reading : Reading) (state : Statevector ℂ) (call : Application) : Statevector ℂ :=
  match call.gate with
  | .elementary gate _ =>
    if gate.isDiscrete then state.applyElementary gate call.qubits
    else (reading.turn gate call.qubits).act state
  | .composite _ _ => state

/-- Applies the gates that a call stands for, in order. -/
noncomputable def apply (reading : Reading) (state : Statevector ℂ) (call : Application) : Statevector ℂ :=
  call.expand.foldl reading.call state

/-- Applies gates and resets in order; the resets are numbered from the given number on. -/
noncomputable def run (reading : Reading) : Nat → List Instruction → Statevector ℂ → Statevector ℂ
  | _, [], state => state
  | number, .gate call _ :: rest, state => reading.run number rest (reading.apply state call)
  | number, .reset qubits _ :: rest, state =>
    reading.run (number + 1) rest ((reading.reset number qubits).act state)
  | number, .measure _ _ :: rest, state => reading.run number rest state
  | number, .barrier _ _ :: rest, state => reading.run number rest state

theorem call_scaled (reading : Reading) (state : Statevector ℂ) (factor : ℂ) (call : Application) :
    reading.call (state.scaled factor) call = (reading.call state call).scaled factor := by
  unfold Reading.call
  split
  next gate _ _ =>
    split
    · exact Statevector.applyElementary_scaled gate call.qubits factor state
    · exact (reading.turn gate call.qubits).scaled state factor
  next => rfl

theorem call_register (reading : Reading) (state : Statevector ℂ) (call : Application) :
    (reading.call state call).numQubits = state.numQubits := by
  unfold Reading.call
  split
  next gate _ _ =>
    split
    · exact Statevector.numQubits_applyElementary gate call.qubits state
    · exact (reading.turn gate call.qubits).register state
  next => rfl

private theorem foldl_scaled (reading : Reading) (calls : List Application) (state : Statevector ℂ) (factor : ℂ) :
    calls.foldl reading.call (state.scaled factor) = (calls.foldl reading.call state).scaled factor :=
  List.foldl_hom (Statevector.scaled · factor) fun state call => reading.call_scaled state factor call

private theorem foldl_register (reading : Reading) (calls : List Application) (state : Statevector ℂ) :
    (calls.foldl reading.call state).numQubits = state.numQubits := by
  induction calls generalizing state with
  | nil => rfl
  | cons call rest ih => exact (ih _).trans (reading.call_register state call)

/-- A factor of the state before a run is one of the state after it. -/
theorem run_scaled (reading : Reading) (number : Nat) (instructions : List Instruction) (state : Statevector ℂ)
    (factor : ℂ) :
    reading.run number instructions (state.scaled factor) = (reading.run number instructions state).scaled factor := by
  induction instructions generalizing number state with
  | nil => rfl
  | cons instruction rest ih =>
    cases instruction with
    | gate call clbits =>
      simp only [run, Reading.apply, foldl_scaled]
      exact ih number _
    | reset qubits clbits =>
      simp only [run, (reading.reset number qubits).scaled]
      exact ih (number + 1) _
    | measure => exact ih number state
    | barrier => exact ih number state

theorem run_register (reading : Reading) (number : Nat) (instructions : List Instruction) (state : Statevector ℂ) :
    (reading.run number instructions state).numQubits = state.numQubits := by
  induction instructions generalizing number state with
  | nil => rfl
  | cons instruction rest ih =>
    cases instruction with
    | gate call clbits => exact (ih number _).trans (foldl_register reading call.expand state)
    | reset qubits clbits => exact (ih (number + 1) _).trans ((reading.reset number qubits).register state)
    | measure => exact ih number state
    | barrier => exact ih number state

end Reading

/-- The reading in which gates with angles and resets do nothing. -/
noncomputable def Reading.still : Reading where
  turn _ _ := .ofMatrix fun _ => 1
  reset _ _ := .ofMatrix fun _ => 1

theorem Operator.ofMatrix_one (state : Statevector ℂ) : (ofMatrix fun _ => 1).act state = state := by
  refine congrArg (Statevector.mk state.numQubits) (Vector.ext fun index inside => ?_)
  rw [Matrix.one_mulVec]
  exact Vector.getElem_ofFn inside

theorem Statevector.applyElementary_of_angles {gate : Elementary} (angled : gate.isDiscrete = false)
    (qubits : List Nat) (state : Statevector ℂ) : state.applyElementary gate qubits = state := by
  have absent : (targetMatrix? gate : Option (QubitMatrix ℂ)) = none := by
    cases gate <;> first | rfl | cases angled
  unfold applyElementary
  split
  · rfl
  · cases angled
  · cases angled
  · cases angled
  · rw [absent]
    rfl
  · rw [absent]
    exact ite_self _
  · rfl

open Operator in
theorem Reading.call_still : Reading.still.call = Statevector.applyCall := by
  funext state call
  obtain ⟨gate, qubits⟩ := call
  cases gate with
  | composite => rfl
  | elementary gate label =>
    change (if gate.isDiscrete then state.applyElementary gate qubits else (ofMatrix fun _ => 1).act state) =
      state.applyElementary gate qubits
    split
    next => rfl
    next angled => rw [ofMatrix_one, Statevector.applyElementary_of_angles (Bool.eq_false_iff.mpr angled)]

/-- Without a meaning for angles, a reading applies what the simulator applies. -/
theorem Reading.run_still (number : Nat) (instructions : List Instruction) (state : Statevector ℂ) :
    Reading.still.run number instructions state = state.applyAll instructions := by
  induction instructions generalizing number state with
  | nil => rfl
  | cons instruction rest ih =>
    cases instruction with
    | gate call clbits =>
      rw [Reading.run, Reading.apply, call_still]
      exact ih number _
    | reset qubits clbits =>
      have unchanged : (Reading.still.reset number qubits).act state = state := Operator.ofMatrix_one state
      rw [Reading.run, unchanged]
      exact ih (number + 1) state
    | measure => exact ih number state
    | barrier => exact ih number state

def resetCount (instructions : List Instruction) : Nat :=
  instructions.countP fun instruction => match instruction with
    | .reset _ _ => true
    | _ => false

theorem Reading.run_append (reading : Reading) (number : Nat) (first second : List Instruction)
    (state : Statevector ℂ) :
    reading.run number (first ++ second) state =
      reading.run (number + resetCount first) second (reading.run number first state) := by
  induction first generalizing number state with
  | nil => rfl
  | cons instruction rest ih =>
    rw [List.cons_append]
    cases instruction with
    | gate call clbits => exact ih number _
    | reset qubits clbits =>
      have counted : number + resetCount (.reset qubits clbits :: rest) = number + 1 + resetCount rest := by
        rw [resetCount, List.countP_cons_of_pos rfl, resetCount]
        omega
      rw [counted]
      exact ih (number + 1) _
    | measure => exact ih number state
    | barrier => exact ih number state

/-- Two runs of the same number of resets do exactly the same to every state of a register. -/
structure Coincide (numQubits : Nat) (first second : List Instruction) : Prop where
  resets : resetCount first = resetCount second
  run : ∀ (reading : Reading) (number : Nat) (state : Statevector ℂ), state.numQubits = numQubits →
    reading.run number first state = reading.run number second state

namespace Coincide

variable {numQubits : Nat}

theorem refl (instructions : List Instruction) : Coincide numQubits instructions instructions :=
  ⟨rfl, fun _ _ _ _ => rfl⟩

theorem trans {first second third : List Instruction} (one : Coincide numQubits first second)
    (two : Coincide numQubits second third) : Coincide numQubits first third :=
  ⟨one.resets.trans two.resets, fun reading number state size =>
    (one.run reading number state size).trans (two.run reading number state size)⟩

theorem append {first second third fourth : List Instruction} (one : Coincide numQubits first second)
    (two : Coincide numQubits third fourth) : Coincide numQubits (first ++ third) (second ++ fourth) := by
  refine ⟨?_, fun reading number state size => ?_⟩
  · rw [resetCount, List.countP_append, resetCount, List.countP_append]
    exact congrArg₂ _ one.resets two.resets
  · have register := (reading.run_register number second state).trans size
    rw [reading.run_append, reading.run_append, one.resets, one.run reading number state size,
      two.run reading _ _ register]

theorem nil_of_concatenation {α : Type} {part : α → List Instruction → Prop} {items : List α}
    {output : List Instruction} (whole : Concatenation part items output)
    (idle : ∀ item ∈ items, ∀ run, part item run → Coincide numQubits run []) : Coincide numQubits output [] := by
  have together : Coincide numQubits output (items.flatMap fun _ => []) := whole.congruence (refl []) append idle
  rwa [List.flatMap_eq_nil_iff.mpr fun _ _ => rfl] at together

theorem surround {leading middle trailing body : List Instruction} (before : Coincide numQubits leading [])
    (between : Coincide numQubits middle body) (after : Coincide numQubits trailing []) :
    Coincide numQubits (leading ++ middle ++ trailing) body := by
  have whole := append (append before between) after
  rwa [List.nil_append, List.append_nil] at whole

/-- An instruction that may be exchanged with each one of a run may be moved behind the run. -/
theorem past {instruction : Instruction} {run : List Instruction}
    (each : ∀ other ∈ run, Coincide numQubits [instruction, other] [other, instruction]) :
    Coincide numQubits (instruction :: run) (run ++ [instruction]) := by
  induction run with
  | nil => exact refl _
  | cons other rest ih =>
    obtain ⟨here, later⟩ := List.forall_mem_cons.mp each
    have exchanged : Coincide numQubits (instruction :: other :: rest) (other :: instruction :: rest) :=
      append here (refl rest)
    have moved : Coincide numQubits (other :: instruction :: rest) (other :: (rest ++ [instruction])) :=
      append (refl [other]) (ih later)
    exact exchanged.trans moved

/-- Runs whose instructions may be exchanged one by one may be exchanged as a whole. -/
theorem across {first second : List Instruction}
    (each : ∀ one ∈ first, ∀ other ∈ second, Coincide numQubits [one, other] [other, one]) :
    Coincide numQubits (first ++ second) (second ++ first) := by
  induction first with
  | nil =>
    rw [List.append_nil]
    exact refl second
  | cons instruction rest ih =>
    obtain ⟨here, later⟩ := List.forall_mem_cons.mp each
    have moved := append (past here) (refl rest)
    rw [List.append_assoc, List.singleton_append] at moved
    exact (append (refl [instruction]) (ih later)).trans moved

end Coincide

/-- Two runs of the same number of resets do the same to every state of a register, up to one factor of
norm one. -/
structure Alike (numQubits : Nat) (first second : List Instruction) : Prop where
  resets : resetCount first = resetCount second
  phase : ∃ phase : ℂ, ‖phase‖ = 1 ∧ ∀ (reading : Reading) (number : Nat) (state : Statevector ℂ),
    state.numQubits = numQubits →
      reading.run number first state = (reading.run number second state).scaled phase

namespace Alike

variable {numQubits : Nat}

theorem refl (instructions : List Instruction) : Alike numQubits instructions instructions :=
  ⟨rfl, 1, norm_one, fun _ _ _ _ => (Statevector.scaled_one _).symm⟩

theorem of_coincide {first second : List Instruction} (same : Coincide numQubits first second) :
    Alike numQubits first second :=
  ⟨same.resets, 1, norm_one, fun reading number state size =>
    (same.run reading number state size).trans (Statevector.scaled_one _).symm⟩

theorem trans {first second third : List Instruction} (one : Alike numQubits first second)
    (two : Alike numQubits second third) : Alike numQubits first third := by
  obtain ⟨left, unit, run⟩ := one.phase
  obtain ⟨right, other, next⟩ := two.phase
  refine ⟨one.resets.trans two.resets, right * left, ?_, fun reading number state size => ?_⟩
  · rw [norm_mul, unit, other, one_mul]
  · rw [run reading number state size, next reading number state size, Statevector.scaled_scaled]

theorem append {first second third fourth : List Instruction} (one : Alike numQubits first second)
    (two : Alike numQubits third fourth) : Alike numQubits (first ++ third) (second ++ fourth) := by
  obtain ⟨left, unit, run⟩ := one.phase
  obtain ⟨right, other, next⟩ := two.phase
  refine ⟨?_, left * right, ?_, fun reading number state size => ?_⟩
  · rw [resetCount, List.countP_append, resetCount, List.countP_append]
    exact congrArg₂ _ one.resets two.resets
  · rw [norm_mul, unit, other, one_mul]
  · have register := (reading.run_register number second state).trans size
    rw [reading.run_append, reading.run_append, one.resets, run reading number state size, reading.run_scaled,
      next reading _ _ register, Statevector.scaled_scaled, mul_comm]

/-- Runs put together are alike to what their parts are alike to. -/
theorem of_concatenation {α : Type} {part : α → List Instruction → Prop} {image : α → List Instruction}
    {items : List α} {output : List Instruction} (whole : Concatenation part items output)
    (alike : ∀ item ∈ items, ∀ run, part item run → Alike numQubits run (image item)) :
    Alike numQubits output (items.flatMap image) :=
  whole.congruence (refl []) append alike

theorem nil_of_concatenation {α : Type} {part : α → List Instruction → Prop} {items : List α}
    {output : List Instruction} (whole : Concatenation part items output)
    (idle : ∀ item ∈ items, ∀ run, part item run → Alike numQubits run []) : Alike numQubits output [] := by
  have alike : Alike numQubits output (items.flatMap fun _ => []) := of_concatenation whole idle
  rwa [List.flatMap_eq_nil_iff.mpr fun _ _ => rfl] at alike

theorem surround {leading middle trailing body : List Instruction} (before : Alike numQubits leading [])
    (between : Alike numQubits middle body) (after : Alike numQubits trailing []) :
    Alike numQubits (leading ++ middle ++ trailing) body := by
  have whole := append (append before between) after
  rwa [List.nil_append, List.append_nil] at whole

end Alike

end CircuitCloak

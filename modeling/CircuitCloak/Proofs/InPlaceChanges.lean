import CircuitCloak.Proofs.BasisIndices
import Mathlib.Data.List.FinRange

/-! What the in-place changes of amplitudes compute, whatever the amplitudes are. A change visits every
index, but the indices fall into groups, each of which is changed once, at its leader, from amplitudes of
the group alone; so the result is read off the amplitudes before the change. -/

namespace CircuitCloak

abbrev Index (width : Nat) := Fin (Nat.pow 2 width)

namespace Index

variable {width controls : Nat}

def put (index : Index width) (qubit : Fin width) (value : Bool) : Index width :=
  ⟨withBit index qubit value, (withBit_lt_iff qubit.isLt index value).mpr index.isLt⟩

/-- The index with the bits of two qubits exchanged. -/
def exchange (index : Index width) (first second : Fin width) : Index width :=
  (index.put first (index.val.testBit second)).put second (index.val.testBit first)

def Contains (index : Index width) (controls : Nat) : Prop :=
  ∀ qubit, controls.testBit qubit = true → index.val.testBit qubit = true

theorem hasControls_eq_true_iff (index : Index width) :
    Kernel.hasControls controls index = true ↔ index.Contains controls := Kernel.hasControls_iff

instance (index : Index width) : Decidable (index.Contains controls) :=
  decidable_of_iff _ index.hasControls_eq_true_iff

theorem put_put (index : Index width) (qubit : Fin width) (first second : Bool) :
    (index.put qubit first).put qubit second = index.put qubit second := Fin.ext (withBit_withBit ..)

theorem put_eq_self {index : Index width} {qubit : Fin width} {value : Bool}
    (same : index.val.testBit qubit = value) : index.put qubit value = index := Fin.ext (withBit_eq_self same)

theorem exchange_exchange (index : Index width) (first second : Fin width) :
    (index.exchange first second).exchange first second = index := Fin.ext (exchangeBits_exchangeBits ..)

end Index

section Groups

variable {α : Type} {size : Nat}

theorem get_eq_getElem (amplitudes : Vector α size) (place : Fin size) :
    amplitudes.get place = getElem amplitudes place.val place.isLt := rfl

/-- A step at an index changes the group that the index leads, and what it writes depends on that group
alone. -/
structure Grouped (step : Vector α size → Fin size → Vector α size) (leader : Fin size → Fin size)
    (final : Vector α size → Fin size → α) : Prop where
  changes : ∀ amplitudes place, (step amplitudes (leader place)).get place = final amplitudes place
  keeps : ∀ amplitudes index place, leader place ≠ index → (step amplitudes index).get place = amplitudes.get place
  reads : ∀ before after place, (∀ other, leader other = leader place → before.get other = after.get other) →
    final before place = final after place

theorem Grouped.foldl {step : Vector α size → Fin size → Vector α size} {leader : Fin size → Fin size}
    {final : Vector α size → Fin size → α} (grouped : Grouped step leader final)
    (indices : List (Fin size)) (distinct : indices.Nodup) (amplitudes : Vector α size) (place : Fin size) :
    (indices.foldl step amplitudes).get place =
      if leader place ∈ indices then final amplitudes place else amplitudes.get place := by
  induction indices generalizing amplitudes with
  | nil => rfl
  | cons index rest ih =>
    obtain ⟨absent, distinct⟩ := List.nodup_cons.mp distinct
    rw [List.foldl_cons, ih distinct]
    by_cases later : leader place ∈ rest
    · rw [if_pos later, if_pos (List.mem_cons_of_mem _ later)]
      refine grouped.reads _ _ _ fun other same => grouped.keeps _ _ _ fun led => absent ?_
      exact led ▸ same ▸ later
    · rw [if_neg later]
      by_cases now : leader place = index
      · rw [if_pos (now ▸ List.mem_cons_self), ← now]
        exact grouped.changes amplitudes place
      · rw [if_neg fun member => (List.mem_cons.mp member).elim now later]
        exact grouped.keeps amplitudes index place now

/-- A change that visits every index leaves what each group makes of itself. -/
theorem Grouped.foldl_all {step : Vector α size → Fin size → Vector α size} {leader : Fin size → Fin size}
    {final : Vector α size → Fin size → α} (grouped : Grouped step leader final)
    (amplitudes : Vector α size) (place : Fin size) :
    (Fin.foldl size step amplitudes).get place = final amplitudes place := by
  rw [Fin.foldl_eq_finRange_foldl, grouped.foldl _ (List.nodup_finRange size), if_pos (List.mem_finRange _)]

end Groups

/-- The coefficient of a matrix in a row and a column. -/
def QubitMatrix.entry {α : Type} (matrix : QubitMatrix α) : Bool → Bool → α
  | false, false => matrix.zeroZero
  | false, true => matrix.zeroOne
  | true, false => matrix.oneZero
  | true, true => matrix.oneOne

namespace Kernel

variable {α : Type} {size width controls : Nat}

section Matrices

variable [Add α] [Mul α] {target : Fin width} {index place : Index width}

/-- What a controlled matrix on a qubit gives at an index. -/
def turnedAt (controls : Nat) (target : Fin width) (matrix : QubitMatrix α)
    (amplitudes : Vector α (Nat.pow 2 width)) (index : Index width) : α :=
  if index.Contains controls then
    matrix.entry (index.val.testBit target) false * amplitudes.get (index.put target false) +
      matrix.entry (index.val.testBit target) true * amplitudes.get (index.put target true)
  else amplitudes.get index

theorem matrixStep_of_idle {mask : Nat} {matrix : QubitMatrix α} {amplitudes : Vector α size}
    {index : Fin size} (idle : (index.val &&& mask == 0 && hasControls controls index) = false) :
    matrixStep controls mask matrix amplitudes index = amplitudes := by
  unfold matrixStep
  rw [idle]
  rfl

/-- A step at an index with a clear target bit writes the index and its partner. -/
theorem matrixStep_of_active (matrix : QubitMatrix α) (amplitudes : Vector α (Nat.pow 2 width))
    (clear : index.val.testBit target = false) (contains : index.Contains controls) :
    matrixStep controls (bitMask target) matrix amplitudes index =
      (amplitudes.set index (matrix.zeroZero * amplitudes.get index +
          matrix.zeroOne * amplitudes.get (index.put target true))).set (index.put target true)
        (matrix.oneZero * amplitudes.get index + matrix.oneOne * amplitudes.get (index.put target true))
        (index.put target true).isLt := by
  unfold matrixStep
  rw [and_bitMask_eq_zero, clear, hasControls_iff.mpr contains, Bool.not_false, Bool.and_true, if_pos rfl]
  exact dif_pos (index.put target true).isLt

theorem contains_put (apart : controls.testBit target = false) (value : Bool) :
    (index.put target value).Contains controls ↔ index.Contains controls := by
  rw [← Index.hasControls_eq_true_iff, ← Index.hasControls_eq_true_iff]
  exact Eq.to_iff (congrArg (· = true) (hasControls_withBit apart index.val value))

theorem matrixStep_changes (apart : controls.testBit target = false) (matrix : QubitMatrix α)
    (amplitudes : Vector α (Nat.pow 2 width)) (place : Index width) :
    (matrixStep controls (bitMask target) matrix amplitudes (place.put target false)).get place =
      turnedAt controls target matrix amplitudes place := by
  have clear : (place.put target false).val.testBit target = false := testBit_withBit_self place.val target false
  have high : (place.put target false).put target true = place.put target true := place.put_put target false true
  unfold turnedAt
  by_cases contains : place.Contains controls
  · rw [if_pos contains, matrixStep_of_active matrix amplitudes clear ((contains_put apart false).mpr contains), high]
    simp only [get_eq_getElem, Vector.getElem_set]
    cases bit : place.val.testBit target with
    | true =>
      have own : place.put target true = place := Index.put_eq_self bit
      rw [if_pos (congrArg Fin.val own)]
      rfl
    | false =>
      have own : place.put target false = place := Index.put_eq_self bit
      have different : (place.put target true).val ≠ place.val := by
        intro same
        have set : (place.put target true).val.testBit target = true := testBit_withBit_self place.val target true
        rw [same, bit] at set
        cases set
      rw [if_neg different, if_pos (congrArg Fin.val own)]
      rfl
  · rw [if_neg contains, matrixStep_of_idle]
    rw [Bool.and_eq_false_iff]
    exact .inr (Bool.eq_false_iff.mpr fun controlled =>
      contains ((contains_put apart false).mp (hasControls_iff.mp controlled)))

theorem matrixStep_keeps (matrix : QubitMatrix α) (amplitudes : Vector α (Nat.pow 2 width))
    (apart : place.put target false ≠ index) :
    (matrixStep controls (bitMask target) matrix amplitudes index).get place = amplitudes.get place := by
  cases active : (index.val &&& bitMask target == 0 && hasControls controls index) with
  | false => rw [matrixStep_of_idle active]
  | true =>
    rw [and_bitMask_eq_zero, Bool.and_eq_true, Bool.not_eq_true'] at active
    obtain ⟨bit, controlled⟩ := active
    have own : index ≠ place := by
      intro same
      apply apart
      rw [← same]
      exact Index.put_eq_self bit
    have partner : index.put target true ≠ place := by
      intro same
      apply apart
      rw [← same, Index.put_put]
      exact Index.put_eq_self bit
    rw [matrixStep_of_active matrix amplitudes bit (hasControls_iff.mp controlled)]
    simp only [get_eq_getElem, Vector.getElem_set, if_neg (Fin.val_ne_of_ne own), if_neg (Fin.val_ne_of_ne partner)]

theorem matrixStep_grouped (apart : controls.testBit target = false) (matrix : QubitMatrix α) :
    Grouped (matrixStep controls (bitMask target) matrix) (Index.put · target false)
      (turnedAt controls target matrix) := by
  refine ⟨matrixStep_changes apart matrix, fun amplitudes _ _ => matrixStep_keeps matrix amplitudes, ?_⟩
  intro before after place same
  have agree : ∀ value, before.get (Index.put place target value) = after.get (Index.put place target value) :=
    fun value => same _ (Index.put_put place target value false)
  have own : before.get place = after.get place := by
    have bit := agree (place.val.testBit target)
    rwa [Index.put_eq_self rfl] at bit
  unfold turnedAt
  rw [agree, agree, own]

theorem get_actOnQubit (apart : controls.testBit target = false) (matrix : QubitMatrix α)
    (amplitudes : Vector α (Nat.pow 2 width)) (index : Index width) :
    (actOnQubit controls target matrix amplitudes).get index = turnedAt controls target matrix amplitudes index :=
  (matrixStep_grouped apart matrix).foldl_all amplitudes index

end Matrices

section Exchanges

variable {first second : Fin width} {index place : Index width}

/-- What a controlled exchange of two qubits gives at an index. -/
def exchangedAt (controls : Nat) (first second : Fin width) (amplitudes : Vector α (Nat.pow 2 width))
    (index : Index width) : α :=
  if index.Contains controls then amplitudes.get (index.exchange first second) else amplitudes.get index

/-- A step exchanges where the controls are set, the first bit is set and the second one is clear. -/
def exchanges (controls first second index : Nat) : Bool :=
  hasControls controls index && index.testBit first && !index.testBit second

theorem swapStep_of_idle {amplitudes : Vector α size} {first second : Nat} {index : Fin size}
    (idle : exchanges controls first second index = false) :
    swapStep controls (bitMask first) (bitMask second) amplitudes index = amplitudes := by
  unfold swapStep
  rw [bne, and_bitMask_eq_zero, and_bitMask_eq_zero, Bool.not_not]
  exact if_neg (Bool.not_eq_true _ ▸ idle)

theorem swapStep_of_active (amplitudes : Vector α (Nat.pow 2 width))
    (active : exchanges controls first second index = true) :
    swapStep controls (bitMask first) (bitMask second) amplitudes index =
      amplitudes.swap index (index.exchange first second) index.isLt (index.exchange first second).isLt := by
  have bits := active
  rw [exchanges, Bool.and_eq_true, Bool.and_eq_true, Bool.not_eq_true'] at bits
  unfold swapStep
  rw [bne, and_bitMask_eq_zero, and_bitMask_eq_zero, Bool.not_not]
  simp only [moveBit_eq bits.1.2 bits.2]
  exact (if_pos active).trans (dif_pos (index.exchange first second).isLt)

theorem hasControls_exchange (apartFirst : controls.testBit first = false)
    (apartSecond : controls.testBit second = false) (index : Index width) :
    hasControls controls (index.exchange first second) = hasControls controls index := by
  refine (hasControls_withBit apartSecond _ _).trans ?_
  exact hasControls_withBit apartFirst _ _

/-- The index of a pair of partners at which the exchange is made. -/
def swapPartner (controls : Nat) (first second : Fin width) (place : Index width) : Index width :=
  if exchanges controls second first place then place.exchange first second else place

/-- Only where exactly one of the bits is set does an exchange move to another index. -/
theorem exchangedAt_eq (amplitudes : Vector α (Nat.pow 2 width)) (index : Index width) :
    exchangedAt controls first second amplitudes index =
      if exchanges controls first second index || exchanges controls second first index then
        amplitudes.get (index.exchange first second)
      else amplitudes.get index := by
  unfold exchangedAt exchanges
  by_cases contains : index.Contains controls
  · rw [if_pos contains, hasControls_iff.mpr contains]
    by_cases same : index.val.testBit first = index.val.testBit second
    · have still : index.exchange first second = index := Fin.ext (exchangeBits_of_same same)
      rw [still, ite_self]
    · cases one : index.val.testBit first <;> cases other : index.val.testBit second <;> simp_all
  · have uncontrolled : hasControls controls index = false :=
      Bool.eq_false_iff.mpr fun controlled => contains (hasControls_iff.mp controlled)
    rw [if_neg contains, uncontrolled]
    rfl

theorem exchanges_opposite {first second index : Nat} (active : exchanges controls first second index = true) :
    exchanges controls second first index = false := by
  rw [exchanges, Bool.and_eq_true, Bool.and_eq_true] at active
  rw [exchanges, active.1.2, Bool.not_true, Bool.and_false]

section Steps

variable (different : first ≠ second) (apartFirst : controls.testBit first = false)
  (apartSecond : controls.testBit second = false)

include different apartFirst apartSecond

theorem exchanges_exchange (index : Index width) :
    exchanges controls first second (index.exchange first second) = exchanges controls second first index := by
  have bits : ∀ qubit, (index.exchange first second).val.testBit qubit =
      if qubit = second then index.val.testBit first
      else if qubit = first then index.val.testBit second else index.val.testBit qubit :=
    fun qubit => testBit_exchangeBits index.val qubit
  unfold exchanges
  rw [hasControls_exchange apartFirst apartSecond, bits, bits, if_neg (Fin.val_ne_of_ne different), if_pos rfl,
    if_pos rfl]

theorem swapStep_changes (amplitudes : Vector α (Nat.pow 2 width)) (place : Index width) :
    (swapStep controls (bitMask first) (bitMask second) amplitudes (swapPartner controls first second place)).get place =
      exchangedAt controls first second amplitudes place := by
  rw [exchangedAt_eq]
  unfold swapPartner
  cases back : exchanges controls second first place with
  | true =>
    have active := (exchanges_exchange different apartFirst apartSecond place).trans back
    rw [if_pos rfl, swapStep_of_active amplitudes active, Bool.or_true, if_pos rfl]
    simp only [get_eq_getElem, Index.exchange_exchange, Vector.getElem_swap_right]
  | false =>
    rw [if_neg Bool.false_ne_true, Bool.or_false]
    cases active : exchanges controls first second place with
    | true =>
      rw [swapStep_of_active amplitudes active, if_pos rfl]
      simp only [get_eq_getElem, Vector.getElem_swap_left]
    | false => rw [swapStep_of_idle active, if_neg Bool.false_ne_true]

theorem swapStep_keeps (amplitudes : Vector α (Nat.pow 2 width)) (index place : Index width)
    (apart : swapPartner controls first second place ≠ index) :
    (swapStep controls (bitMask first) (bitMask second) amplitudes index).get place = amplitudes.get place := by
  cases active : exchanges controls first second index with
  | false => rw [swapStep_of_idle active]
  | true =>
    have own : place ≠ index := by
      intro same
      have still : exchanges controls second first place = false := exchanges_opposite (same ▸ active)
      apply apart
      unfold swapPartner
      rw [still]
      exact same
    have partner : place ≠ index.exchange first second := by
      intro same
      have moved : exchanges controls second first place = true := by
        rw [← exchanges_exchange different apartFirst apartSecond, same, Index.exchange_exchange, active]
      apply apart
      unfold swapPartner
      rw [if_pos moved, same, Index.exchange_exchange]
    rw [swapStep_of_active amplitudes active]
    simp only [get_eq_getElem]
    exact Vector.getElem_swap_of_ne (Fin.val_ne_of_ne own) (Fin.val_ne_of_ne partner)

theorem swapStep_grouped : Grouped (swapStep controls (bitMask first) (bitMask second))
    (swapPartner controls first second) (exchangedAt (α := α) controls first second) := by
  refine ⟨swapStep_changes different apartFirst apartSecond, swapStep_keeps different apartFirst apartSecond, ?_⟩
  intro before after place same
  have own : before.get place = after.get place := same place rfl
  rw [exchangedAt_eq, exchangedAt_eq, own]
  split
  next moves =>
    have turned : exchanges controls second first (Index.exchange place first second) =
        exchanges controls first second place := by
      rw [← exchanges_exchange different apartFirst apartSecond, Index.exchange_exchange]
    rw [same (Index.exchange place first second)]
    unfold swapPartner
    rw [turned, Index.exchange_exchange]
    cases active : exchanges controls first second place with
    | true => rw [if_pos rfl, exchanges_opposite active, if_neg Bool.false_ne_true]
    | false =>
      rw [active, Bool.false_or] at moves
      rw [if_neg Bool.false_ne_true, if_pos moves]
  next => rfl

theorem get_exchangeQubits (amplitudes : Vector α (Nat.pow 2 width)) (index : Index width) :
    (exchangeQubits controls first second amplitudes).get index = exchangedAt controls first second amplitudes index :=
  (swapStep_grouped different apartFirst apartSecond).foldl_all amplitudes index

end Steps

end Exchanges

/-- A controlled matrix leaves at every index the row of the qubit's bit, applied to the amplitudes of the two
partners; a controlled exchange leaves the amplitude of the index with its bits exchanged. -/
theorem inPlace_exact [Add α] [Mul α] (controls : Nat) (amplitudes : Vector α (Nat.pow 2 width)) :
    (∀ (target : Fin width) (matrix : QubitMatrix α), controls.testBit target = false → ∀ index : Index width,
      (actOnQubit controls target matrix amplitudes)[index] =
        if index.Contains controls then
          matrix.entry (index.val.testBit target) false * amplitudes[index.put target false] +
            matrix.entry (index.val.testBit target) true * amplitudes[index.put target true]
        else amplitudes[index]) ∧
    ∀ first second : Fin width, first ≠ second → controls.testBit first = false → controls.testBit second = false →
      ∀ index : Index width, (exchangeQubits controls first second amplitudes)[index] =
        if index.Contains controls then amplitudes[index.exchange first second] else amplitudes[index] := by
  refine ⟨?_, ?_⟩
  · intro target matrix apart index
    exact get_actOnQubit apart matrix amplitudes index
  · intro first second different apartFirst apartSecond index
    exact get_exchangeQubits different apartFirst apartSecond amplitudes index

/-- Eight amplitudes that tell the indices apart. -/
def numbered : Vector ℤ (Nat.pow 2 3) := #v[0, 1, 2, 3, 4, 5, 6, 7]

/-- A matrix under two controls, and an exchange under one. -/
theorem inPlace_exact_controlled :
    Nat.testBit 5 1 = false ∧ (1 : Fin 3) ≠ 2 ∧ Nat.testBit 1 1 = false ∧ Nat.testBit 1 2 = false ∧
      (actOnQubit 5 1 ⟨10, 20, 30, 40⟩ numbered)[(7 : Index 3)] = 30 * 5 + 40 * 7 ∧
        (exchangeQubits 1 1 2 numbered)[(3 : Index 3)] = 5 := by
  have matrix := (inPlace_exact 5 numbered).1 1 ⟨10, 20, 30, 40⟩ (by decide) 7
  have exchange := (inPlace_exact 1 numbered).2 1 2 (by decide) (by decide) (by decide) 3
  exact ⟨by decide, by decide, by decide, by decide, matrix, exchange⟩

end Kernel

end CircuitCloak

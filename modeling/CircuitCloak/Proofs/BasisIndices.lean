import CircuitCloak.State.Kernel
import Mathlib.Data.Nat.Bitwise

/-! Bits of basis indices. Gates read an index at the bits of their operands and move to indices that
differ from it there; every such index is the first one with some bits replaced. -/

namespace CircuitCloak

def withBit (index qubit : Nat) (value : Bool) : Nat :=
  if value then index ||| Nat.pow 2 qubit else (index ||| Nat.pow 2 qubit) ^^^ Nat.pow 2 qubit

theorem testBit_withBit (index qubit : Nat) (value : Bool) (other : Nat) :
    (withBit index qubit value).testBit other = if other = qubit then value else index.testBit other := by
  unfold withBit
  by_cases same : other = qubit
  · cases value <;> simp [Nat.testBit_or, Nat.testBit_xor, same]
  · have different : (2 ^ qubit).testBit other = false := by
      rw [Nat.testBit_two_pow]
      exact decide_eq_false (Ne.symm same)
    cases value <;> simp [Nat.testBit_or, Nat.testBit_xor, different, same]

@[simp]
theorem testBit_withBit_self (index qubit : Nat) (value : Bool) :
    (withBit index qubit value).testBit qubit = value := by
  rw [testBit_withBit, if_pos rfl]

@[simp]
theorem testBit_withBit_of_ne {qubit other : Nat} (different : other ≠ qubit) (index : Nat) (value : Bool) :
    (withBit index qubit value).testBit other = index.testBit other := by
  rw [testBit_withBit, if_neg different]

@[simp]
theorem withBit_withBit (index qubit : Nat) (first second : Bool) :
    withBit (withBit index qubit first) qubit second = withBit index qubit second := by
  refine Nat.eq_of_testBit_eq fun other => ?_
  simp only [testBit_withBit]
  split <;> rfl

theorem withBit_comm {qubit other : Nat} (different : qubit ≠ other) (index : Nat) (first second : Bool) :
    withBit (withBit index qubit first) other second = withBit (withBit index other second) qubit first := by
  refine Nat.eq_of_testBit_eq fun place => ?_
  simp only [testBit_withBit]
  by_cases last : place = other
  · have apart : place ≠ qubit := fun same => different (same.symm.trans last)
    rw [if_pos last, if_neg apart, if_pos last]
  · rw [if_neg last, if_neg last]

@[simp]
theorem withBit_testBit (index qubit : Nat) : withBit index qubit (index.testBit qubit) = index := by
  refine Nat.eq_of_testBit_eq fun other => ?_
  rw [testBit_withBit]
  split
  next same => rw [same]
  next => rfl

theorem withBit_eq_self {index qubit : Nat} {value : Bool} (same : index.testBit qubit = value) :
    withBit index qubit value = index := by
  rw [← same, withBit_testBit]

/-- A bit inside a register does not decide whether an index lies in it. -/
theorem withBit_lt_iff {width qubit : Nat} (inside : qubit < width) (index : Nat) (value : Bool) :
    withBit index qubit value < 2 ^ width ↔ index < 2 ^ width := by
  have within : ∀ index value, index < 2 ^ width → withBit index qubit value < 2 ^ width := by
    intro index value small
    refine Nat.lt_pow_two_of_testBit _ fun place beyond => ?_
    rw [testBit_withBit_of_ne (Nat.ne_of_gt (Nat.lt_of_lt_of_le inside beyond))]
    exact Nat.testBit_lt_two_pow (Nat.lt_of_lt_of_le small (Nat.pow_le_pow_right (by decide) beyond))
  refine ⟨fun small => ?_, within index value⟩
  have back := within _ (index.testBit qubit) small
  rwa [withBit_withBit, withBit_testBit] at back

def exchangeBits (index first second : Nat) : Nat :=
  withBit (withBit index first (index.testBit second)) second (index.testBit first)

theorem testBit_exchangeBits (index : Nat) {first second : Nat} (place : Nat) :
    (exchangeBits index first second).testBit place =
      if place = second then index.testBit first
      else if place = first then index.testBit second else index.testBit place := by
  unfold exchangeBits
  rw [testBit_withBit, testBit_withBit]

theorem exchangeBits_of_same {index first second : Nat} (same : index.testBit first = index.testBit second) :
    exchangeBits index first second = index := by
  unfold exchangeBits
  rw [← same, withBit_testBit, same, withBit_testBit]

@[simp]
theorem exchangeBits_exchangeBits (index first second : Nat) :
    exchangeBits (exchangeBits index first second) first second = index := by
  refine Nat.eq_of_testBit_eq fun place => ?_
  simp only [testBit_exchangeBits]
  by_cases last : place = second
  · subst last
    by_cases same : first = place <;> simp [same]
  · by_cases front : place = first
    · subst front
      simp [last]
    · simp [last, front]

theorem exchangeBits_withBit {first second qubit : Nat} (apartFirst : qubit ≠ first) (apartSecond : qubit ≠ second)
    (index : Nat) (value : Bool) :
    exchangeBits (withBit index qubit value) first second = withBit (exchangeBits index first second) qubit value := by
  unfold exchangeBits
  rw [testBit_withBit_of_ne apartFirst.symm, testBit_withBit_of_ne apartSecond.symm, withBit_comm apartFirst,
    withBit_comm apartSecond]

theorem testBit_exchangeBits_of_ne {first second qubit : Nat} (apartFirst : qubit ≠ first)
    (apartSecond : qubit ≠ second) (index : Nat) :
    (exchangeBits index first second).testBit qubit = index.testBit qubit := by
  rw [testBit_exchangeBits, if_neg apartSecond, if_neg apartFirst]

namespace Kernel

theorem and_bitMask_eq_zero (index qubit : Nat) :
    (index &&& bitMask qubit == 0) = !index.testBit qubit := by
  have single : index &&& bitMask qubit = 2 ^ qubit * (index.testBit qubit).toNat :=
    Nat.and_two_pow index qubit ▸ (Nat.mul_comm _ _)
  rw [single]
  cases index.testBit qubit <;> simp

/-- All control bits are set exactly if every bit of the mask is set in the index. -/
theorem hasControls_iff {controls index : Nat} :
    hasControls controls index = true ↔ ∀ qubit, controls.testBit qubit = true → index.testBit qubit = true := by
  unfold hasControls
  rw [beq_iff_eq]
  constructor
  · intro same qubit set
    rw [← same, Nat.testBit_and, Bool.and_eq_true] at set
    exact set.1
  · intro implied
    refine Nat.eq_of_testBit_eq fun qubit => ?_
    rw [Nat.testBit_and]
    cases set : controls.testBit qubit with
    | false => rw [Bool.and_false]
    | true => rw [implied qubit set, Bool.and_true]

@[simp]
theorem hasControls_zero (index : Nat) : hasControls 0 index = true := by
  simp [hasControls]

@[simp]
theorem hasControls_bitMask (qubit index : Nat) : hasControls (bitMask qubit) index = index.testBit qubit := by
  refine Bool.eq_iff_iff.mpr (hasControls_iff.trans ?_)
  simp [bitMask, Nat.testBit_two_pow]

@[simp]
theorem hasControls_or (first second index : Nat) :
    hasControls (first ||| second) index = (hasControls first index && hasControls second index) := by
  refine Bool.eq_iff_iff.mpr ?_
  simp only [Bool.and_eq_true, hasControls_iff, Nat.testBit_or, Bool.or_eq_true]
  exact ⟨fun all => ⟨fun qubit set => all qubit (.inl set), fun qubit set => all qubit (.inr set)⟩,
    fun both qubit set => set.elim (both.1 qubit) (both.2 qubit)⟩

/-- Controls do not read a qubit outside their mask. -/
theorem hasControls_withBit {controls qubit : Nat} (apart : controls.testBit qubit = false) (index : Nat)
    (value : Bool) : hasControls controls (withBit index qubit value) = hasControls controls index := by
  refine Bool.eq_iff_iff.mpr ?_
  rw [hasControls_iff, hasControls_iff]
  refine forall_congr' fun other => imp_congr_right fun set => ?_
  rw [testBit_withBit_of_ne]
  rintro rfl
  exact absurd set (by rw [apart]; decide)

theorem moveBit_eq {index source destination : Nat} (set : index.testBit source = true)
    (clear : index.testBit destination = false) :
    moveBit index (bitMask source) (bitMask destination) = exchangeBits index source destination := by
  refine Nat.eq_of_testBit_eq fun place => ?_
  rw [testBit_exchangeBits]
  have mask : ∀ qubit, (bitMask qubit).testBit place = decide (qubit = place) :=
    fun qubit => Nat.testBit_two_pow
  unfold moveBit
  rw [Nat.testBit_or, Nat.testBit_xor, mask, mask]
  by_cases last : place = destination
  · simp [last, set]
  · by_cases front : place = source
    · subst front
      simp [last, set, clear, Ne.symm last]
    · simp [last, front, Ne.symm last, Ne.symm front]

end Kernel

end CircuitCloak

import CircuitCloak.State.Scalar
import Mathlib.Analysis.SpecialFunctions.Trigonometric.Complex
import Mathlib.Tactic.LinearCombination

/-! The numbers that discrete gates are made of, in two forms: as complex numbers, and as combinations
of the powers of `e^(iπ/4)`, on which the kernel computes. The second form is read as the
first one, and reading respects every operation. -/

namespace CircuitCloak

/-- The eighth root of unity `e^(iπ/4)`. -/
noncomputable def eighthRoot : ℂ := Complex.exp (Real.pi / 4 * Complex.I)

theorem eighthRoot_eq : eighthRoot = (Real.sqrt 2 / 2 : ℝ) + (Real.sqrt 2 / 2 : ℝ) * Complex.I := by
  unfold eighthRoot
  rw [Complex.exp_mul_I, ← Real.cos_pi_div_four]
  nth_rewrite 2 [Real.cos_pi_div_four]
  rw [← Real.sin_pi_div_four]
  push_cast
  rfl

theorem eighthRoot_sq : eighthRoot ^ 2 = Complex.I := by
  have double : (2 : ℕ) * (Real.pi / 4 * Complex.I : ℂ) = Real.pi / 2 * Complex.I := by
    push_cast
    ring
  rw [eighthRoot, ← Complex.exp_nat_mul, double, Complex.exp_pi_div_two_mul_I]

theorem eighthRoot_pow_four : eighthRoot ^ 4 = -1 := by
  rw [show 4 = 2 * 2 from rfl, pow_mul, eighthRoot_sq, Complex.I_sq]

theorem norm_eighthRoot : ‖eighthRoot‖ = 1 := by
  have real : (Real.pi / 4 * Complex.I : ℂ) = (Real.pi / 4 : ℝ) * Complex.I := by push_cast; rfl
  rw [eighthRoot, real, Complex.norm_exp_ofReal_mul_I]

/-- The gates over complex numbers. Gates with angles are left open. -/
noncomputable instance : GateScalar ℂ where
  i := Complex.I
  invSqrtTwo := 1 / (Real.sqrt 2 : ℝ)
  halfUp := (1 + Complex.I) / 2
  halfDown := (1 - Complex.I) / 2
  quarterTurn := Complex.exp (Real.pi / 2 * Complex.I)
  quarterTurnBack := Complex.exp (-(Real.pi / 2 * Complex.I))
  eighthTurn := Complex.exp (Real.pi / 4 * Complex.I)
  eighthTurnBack := Complex.exp (-(Real.pi / 4 * Complex.I))
  rotation? _ := none

/-- A whole combination of `1`, `e^(iπ/4)`, `e^(iπ/2)` and `e^(3iπ/4)`, divided by a power of two. -/
structure Exact where
  constant : ℤ
  eighth : ℤ
  quarter : ℤ
  threeEighths : ℤ
  halvings : ℕ
  deriving DecidableEq

namespace Exact

instance : Zero Exact := ⟨⟨0, 0, 0, 0, 0⟩⟩
instance : One Exact := ⟨⟨1, 0, 0, 0, 0⟩⟩

instance : Neg Exact := ⟨fun a => ⟨-a.constant, -a.eighth, -a.quarter, -a.threeEighths, a.halvings⟩⟩

/-- The same number over a larger power of two. -/
def refined (a : Exact) (more : ℕ) : Exact :=
  ⟨a.constant * 2 ^ more, a.eighth * 2 ^ more, a.quarter * 2 ^ more, a.threeEighths * 2 ^ more, a.halvings + more⟩

/-- The sum of numbers over the same power of two. -/
def aligned (a b : Exact) : Exact :=
  ⟨a.constant + b.constant, a.eighth + b.eighth, a.quarter + b.quarter, a.threeEighths + b.threeEighths, a.halvings⟩

instance : Add Exact := ⟨fun a b =>
  if a.halvings = b.halvings then aligned a b else aligned (refined a b.halvings) (refined b a.halvings)⟩

/-- The fourth power of `e^(iπ/4)` is `-1`. -/
def product (a b : Exact) : Exact :=
  ⟨a.constant * b.constant - a.eighth * b.threeEighths - a.quarter * b.quarter - a.threeEighths * b.eighth,
    a.constant * b.eighth + a.eighth * b.constant - a.quarter * b.threeEighths - a.threeEighths * b.quarter,
    a.constant * b.quarter + a.eighth * b.eighth + a.quarter * b.constant - a.threeEighths * b.threeEighths,
    a.constant * b.threeEighths + a.eighth * b.quarter + a.quarter * b.eighth + a.threeEighths * b.constant,
    a.halvings + b.halvings⟩

/-- Most entries of the gates are zero or one, and then the other factor need not be known. -/
instance : Mul Exact := ⟨fun a b => if a = 0 then 0 else if a = 1 then b else product a b⟩

instance : GateScalar Exact where
  i := ⟨0, 0, 1, 0, 0⟩
  invSqrtTwo := ⟨0, 1, 0, -1, 1⟩
  halfUp := ⟨1, 0, 1, 0, 1⟩
  halfDown := ⟨1, 0, -1, 0, 1⟩
  quarterTurn := ⟨0, 0, 1, 0, 0⟩
  quarterTurnBack := ⟨0, 0, -1, 0, 0⟩
  eighthTurn := ⟨0, 1, 0, 0, 0⟩
  eighthTurnBack := ⟨0, 0, 0, -1, 0⟩
  rotation? _ := none

/-- A power of `e^(iπ/4)`. -/
def turn : Nat → Exact
  | 0 => 1
  | count + 1 => ⟨0, 1, 0, 0, 0⟩ * turn count

/-- The numbers are the same over a common power of two. -/
def same (a b : Exact) : Bool := refined a b.halvings == refined b a.halvings

/-- The complex number that is meant. -/
noncomputable def value (a : Exact) : ℂ :=
  (a.constant + a.eighth * eighthRoot + a.quarter * eighthRoot ^ 2 + a.threeEighths * eighthRoot ^ 3) /
    2 ^ a.halvings

@[simp]
theorem value_zero : value 0 = 0 := by
  change (((0 : ℤ) : ℂ) + (0 : ℤ) * eighthRoot + (0 : ℤ) * eighthRoot ^ 2 + (0 : ℤ) * eighthRoot ^ 3) / 2 ^ 0 = 0
  simp

@[simp]
theorem value_one : value 1 = 1 := by
  change (((1 : ℤ) : ℂ) + (0 : ℤ) * eighthRoot + (0 : ℤ) * eighthRoot ^ 2 + (0 : ℤ) * eighthRoot ^ 3) / 2 ^ 0 = 1
  simp

@[simp]
theorem value_neg (a : Exact) : value (-a) = -value a := by
  change (((-a.constant : ℤ) : ℂ) + (-a.eighth : ℤ) * eighthRoot + (-a.quarter : ℤ) * eighthRoot ^ 2 +
    (-a.threeEighths : ℤ) * eighthRoot ^ 3) / 2 ^ a.halvings = _
  unfold value
  push_cast
  ring

@[simp]
theorem value_refined (a : Exact) (more : ℕ) : value (refined a more) = value a := by
  unfold value refined
  push_cast
  rw [pow_add]
  field_simp

theorem value_eq_of_same {a b : Exact} (agree : same a b = true) : value a = value b := by
  rw [← value_refined a b.halvings, beq_iff_eq.mp agree, value_refined]

theorem value_aligned {a b : Exact} (level : a.halvings = b.halvings) :
    value (aligned a b) = value a + value b := by
  unfold value aligned
  push_cast
  rw [← level]
  ring

@[simp]
theorem value_add (a b : Exact) : value (a + b) = value a + value b := by
  change value (if a.halvings = b.halvings then aligned a b else
    aligned (refined a b.halvings) (refined b a.halvings)) = _
  split
  next level => exact value_aligned level
  next => rw [value_aligned (Nat.add_comm _ _), value_refined, value_refined]

theorem value_product (a b : Exact) : value (product a b) = value a * value b := by
  unfold value product
  push_cast
  rw [pow_add, div_mul_div_comm]
  congr 1
  linear_combination (-(a.eighth * b.threeEighths + a.quarter * b.quarter + a.threeEighths * b.eighth +
    (a.quarter * b.threeEighths + a.threeEighths * b.quarter) * eighthRoot +
    a.threeEighths * b.threeEighths * eighthRoot ^ 2) : ℂ) * eighthRoot_pow_four

@[simp]
theorem value_mul (a b : Exact) : value (a * b) = value a * value b := by
  change value (if a = 0 then 0 else if a = 1 then b else product a b) = _
  split
  next zero => rw [zero, value_zero, zero_mul]
  next =>
    split
    next one => rw [one, value_one, one_mul]
    next => exact value_product a b

@[simp]
theorem value_turn (count : Nat) : value (turn count) = eighthRoot ^ count := by
  induction count with
  | zero => exact value_one
  | succ count ih =>
    have root : value ⟨0, 1, 0, 0, 0⟩ = eighthRoot := by simp [value]
    rw [turn, value_mul, root, ih, pow_succ']

open GateScalar

@[simp]
theorem value_i : value i = i := by
  change _ = Complex.I
  simp [value, i, eighthRoot_sq]

@[simp]
theorem value_invSqrtTwo : value invSqrtTwo = invSqrtTwo := by
  have root : (Real.sqrt 2 : ℂ) ^ 2 = 2 := by
    rw [← Complex.ofReal_pow, Real.sq_sqrt (by norm_num)]
    norm_num
  have nonzero : (Real.sqrt 2 : ℂ) ≠ 0 := fun zero => by simp [zero] at root
  have difference : eighthRoot - eighthRoot ^ 3 = (Real.sqrt 2 : ℂ) := by
    rw [pow_succ, eighthRoot_sq, eighthRoot_eq]
    push_cast
    linear_combination (-(Real.sqrt 2 : ℂ) / 2) * Complex.I_sq
  change _ = (1 / (Real.sqrt 2 : ℝ) : ℂ)
  rw [eq_div_iff nonzero]
  simp only [value, invSqrtTwo]
  push_cast
  linear_combination (Real.sqrt 2 / 2 : ℂ) * difference + root / 2

@[simp]
theorem value_halfUp : value halfUp = halfUp := by
  change _ = (1 + Complex.I) / 2
  simp only [value, halfUp, eighthRoot_sq]
  push_cast
  ring

@[simp]
theorem value_halfDown : value halfDown = halfDown := by
  change _ = (1 - Complex.I) / 2
  simp only [value, halfDown, eighthRoot_sq]
  push_cast
  ring

@[simp]
theorem value_quarterTurn : value quarterTurn = quarterTurn := by
  change _ = Complex.exp (Real.pi / 2 * Complex.I)
  rw [Complex.exp_pi_div_two_mul_I]
  simp [value, quarterTurn, eighthRoot_sq]

@[simp]
theorem value_quarterTurnBack : value quarterTurnBack = quarterTurnBack := by
  change _ = Complex.exp (-(Real.pi / 2 * Complex.I))
  rw [Complex.exp_neg, Complex.exp_pi_div_two_mul_I, Complex.inv_I]
  simp [value, quarterTurnBack, eighthRoot_sq]

@[simp]
theorem value_eighthTurn : value eighthTurn = eighthTurn := by
  change _ = eighthRoot
  simp [value, eighthTurn]

@[simp]
theorem value_eighthTurnBack : value eighthTurnBack = eighthTurnBack := by
  have nonzero : eighthRoot ≠ 0 := Complex.exp_ne_zero _
  change _ = Complex.exp (-(Real.pi / 4 * Complex.I))
  rw [Complex.exp_neg]
  refine eq_inv_of_mul_eq_one_left ?_
  change value eighthTurnBack * eighthRoot = 1
  simp only [value, eighthTurnBack]
  push_cast
  linear_combination (-1) * eighthRoot_pow_four

end Exact

end CircuitCloak

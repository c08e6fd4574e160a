import CircuitCloak.Decimal.Shortest
import Mathlib.Algebra.Order.Field.Power
import Mathlib.Data.Rat.Cast.Order
import Mathlib.Tactic.FieldSimp
import Mathlib.Tactic.Linarith
import Mathlib.Tactic.Positivity
import Mathlib.Tactic.Ring

/-! The shortest decimal of a double lies among the reals that round to the double: it is only taken after a test
of exactly that, and the exact value, which stands in for it, lies in the middle of them. -/

namespace CircuitCloak.Decimal

theorem zpow_eq_quotient {base : ℚ} (nonzero : base ≠ 0) (exponent : ℤ) :
    base ^ exponent = base ^ exponent.toNat / base ^ (-exponent).toNat := by
  rw [← zpow_natCast, ← zpow_natCast, ← zpow_sub₀ nonzero, Int.toNat_sub_toNat_neg]

namespace Binary

def value (magnitude : Binary) : ℚ := magnitude.significand * 2 ^ magnitude.exponent

/-- The unit in which the halfway points are counted. -/
def quarter (magnitude : Binary) : ℚ := 2 ^ (magnitude.exponent - 2)

theorem quarter_pos (magnitude : Binary) : 0 < magnitude.quarter := zpow_pos two_pos _

theorem value_eq_quarters (magnitude : Binary) : magnitude.value = 4 * magnitude.significand * magnitude.quarter := by
  rw [value, quarter, zpow_sub₀ two_ne_zero]
  ring

/-- Between the halfway points to the neighbours, with these if the significand is even. -/
def Covers (magnitude : Binary) (point : ℚ) : Prop :=
  if magnitude.significand % 2 = 0 then
    magnitude.lowerQuarters * magnitude.quarter ≤ point ∧ point ≤ magnitude.upperQuarters * magnitude.quarter
  else magnitude.lowerQuarters * magnitude.quarter < point ∧ point < magnitude.upperQuarters * magnitude.quarter

namespace Covers

variable {magnitude : Binary} {point : ℚ}

theorem lower (covers : magnitude.Covers point) : magnitude.lowerQuarters * magnitude.quarter ≤ point := by
  unfold Covers at covers
  split at covers
  · exact covers.1
  · exact covers.1.le

theorem upper (covers : magnitude.Covers point) : point ≤ magnitude.upperQuarters * magnitude.quarter := by
  unfold Covers at covers
  split at covers
  · exact covers.2
  · exact covers.2.le

theorem of_between (low : magnitude.lowerQuarters * magnitude.quarter < point)
    (high : point < magnitude.upperQuarters * magnitude.quarter) : magnitude.Covers point := by
  unfold Covers
  split
  · exact ⟨low.le, high.le⟩
  · exact ⟨low, high⟩

end Covers

/-- The test on naturals decides where a quotient rounds to. -/
theorem covers_iff {magnitude : Binary} {top bottom : Nat} (positive : 0 < bottom) :
    magnitude.covers top bottom = true ↔ magnitude.Covers (top / bottom) := by
  have divisor : (0 : ℚ) < bottom := Nat.cast_pos.mpr positive
  have scale : magnitude.quarter =
      2 ^ (magnitude.exponent - 2).toNat / 2 ^ (2 - magnitude.exponent).toNat := by
    rw [quarter, zpow_eq_quotient two_ne_zero, neg_sub]
  have below : ∀ quarters : Nat, (quarters : ℚ) * magnitude.quarter ≤ top / bottom ↔
      quarters * Nat.pow 2 (magnitude.exponent - 2).toNat * bottom ≤
        top * Nat.pow 2 (2 - magnitude.exponent).toNat := by
    intro quarters
    rw [scale, mul_div_assoc', div_le_div_iff₀ (by positivity) divisor]
    exact_mod_cast Iff.rfl
  have above : ∀ quarters : Nat, (top / bottom : ℚ) ≤ quarters * magnitude.quarter ↔
      top * Nat.pow 2 (2 - magnitude.exponent).toNat ≤
        quarters * Nat.pow 2 (magnitude.exponent - 2).toNat * bottom := by
    intro quarters
    rw [scale, mul_div_assoc', div_le_div_iff₀ divisor (by positivity)]
    exact_mod_cast Iff.rfl
  unfold covers Covers
  dsimp only
  by_cases even : magnitude.significand % 2 = 0
  · rw [if_pos even, if_pos (beq_iff_eq.mpr even), Bool.and_eq_true, decide_eq_true_eq, decide_eq_true_eq, below, above]
  · rw [if_neg even, if_neg (beq_iff_eq.not.mpr even), Bool.and_eq_true, decide_eq_true_eq, decide_eq_true_eq,
      ← not_le, ← not_le, ← not_le, ← not_le, below, above]

theorem lowerQuarters_lt {magnitude : Binary} (positive : magnitude.significand ≠ 0) :
    magnitude.lowerQuarters < 4 * magnitude.significand := by
  unfold lowerQuarters
  split <;> omega

/-- A double rounds to itself. -/
theorem covers_value {magnitude : Binary} (positive : magnitude.significand ≠ 0) :
    magnitude.Covers magnitude.value := by
  have low : (magnitude.lowerQuarters : ℚ) < 4 * magnitude.significand := by exact_mod_cast lowerQuarters_lt positive
  have high : (4 * magnitude.significand : ℚ) < magnitude.upperQuarters := by
    unfold upperQuarters
    push_cast
    linarith
  rw [value_eq_quarters]
  exact .of_between (mul_lt_mul_of_pos_right low magnitude.quarter_pos)
    (mul_lt_mul_of_pos_right high magnitude.quarter_pos)

theorem Covers.pos {magnitude : Binary} (positive : magnitude.significand ≠ 0) {point : ℚ}
    (covers : magnitude.Covers point) : 0 < point := by
  have some : 0 < magnitude.lowerQuarters := by
    unfold lowerQuarters
    split <;> omega
  have low : (0 : ℚ) < magnitude.lowerQuarters * magnitude.quarter :=
    mul_pos (Nat.cast_pos.mpr some) magnitude.quarter_pos
  exact low.trans_le covers.lower

end Binary

namespace Scientific

def value (decimal : Scientific) : ℚ := decimal.digits * 10 ^ decimal.exponent

theorem pow_trailingZeros_dvd (number : Nat) :
    10 ^ ((Nat.toDigits 10 number).reverse.takeWhile (· == '0')).length ∣ number := by
  induction number using Nat.strongRecOn with
  | ind number ih =>
    by_cases single : number < 10
    · rw [Nat.toDigits_of_lt_base single]
      by_cases zero : number = 0
      · rw [zero]
        exact dvd_zero _
      · have others : ∀ digit < 10, digit ≠ 0 → (Nat.digitChar digit == '0') = false := by decide
        have other := others number single zero
        rw [List.reverse_singleton, List.takeWhile_cons, other]
        exact one_dvd _
    · rw [Nat.toDigits_of_base_le (by decide) (Nat.le_of_not_lt single), List.reverse_append, List.reverse_singleton,
        List.singleton_append, List.takeWhile_cons]
      split
      next zero =>
        have only : ∀ digit < 10, (Nat.digitChar digit == '0') = true → digit = 0 := by decide
        have last : number % 10 = 0 := only _ (Nat.mod_lt number (by decide)) zero
        obtain ⟨factor, same⟩ := ih (number / 10) (by omega)
        refine ⟨factor, ?_⟩
        rw [List.length_cons, pow_succ, mul_right_comm, ← same]
        omega
      next => exact one_dvd _

/-- Moving zeros into the exponent keeps the value. -/
theorem value_strip (decimal : Scientific) : decimal.strip.value = decimal.value := by
  unfold strip
  dsimp only
  split
  next zero => simp [value, zero]
  next =>
    obtain ⟨factor, same⟩ := pow_trailingZeros_dvd decimal.digits
    generalize ((Nat.toDigits 10 decimal.digits).reverse.takeWhile (· == '0')).length = zeros at same ⊢
    have quotient : decimal.digits / Nat.pow 10 zeros = factor := by
      rw [same]
      exact Nat.mul_div_cancel_left factor (Nat.pow_pos (by decide))
    unfold value
    dsimp only
    rw [quotient, same, zpow_add₀ (by norm_num), zpow_natCast]
    push_cast
    ring

end Scientific

namespace Binary

variable {tie : Tie} {magnitude : Binary}

/-- What is found on a grid has been tested. -/
theorem covers_of_onGrid {exponent : ℤ} {decimal : Scientific} (found : magnitude.onGrid? tie exponent = some decimal) :
    magnitude.Covers decimal.value ∧ decimal.exponent = exponent := by
  have tested : ∀ digits : Nat, magnitude.covers (digits * Nat.pow 10 exponent.toNat) (Nat.pow 10 (-exponent).toNat) = true →
      magnitude.Covers (Scientific.value ⟨digits, exponent⟩) := by
    intro digits within
    have covered := (covers_iff (Nat.pow_pos (by decide))).mp within
    have point : (Scientific.value ⟨digits, exponent⟩) =
        ((digits * Nat.pow 10 exponent.toNat : Nat) : ℚ) / (Nat.pow 10 (-exponent).toNat : Nat) := by
      unfold Scientific.value
      rw [zpow_eq_quotient (by norm_num)]
      push_cast [Nat.pow_eq]
      rw [mul_div_assoc]
    rw [point]
    exact covered
  unfold onGrid? at found
  dsimp only at found
  split at found
  next both =>
    obtain ⟨lower, upper⟩ := Bool.and_eq_true_iff.mp both
    have either : ∀ (choice : Bool) {low high : Nat}, magnitude.Covers (Scientific.value ⟨low, exponent⟩) →
        magnitude.Covers (Scientific.value ⟨high, exponent⟩) →
        magnitude.Covers (Scientific.value ⟨if choice then high else low, exponent⟩) := by
      intro choice low high one other
      cases choice
      · exact one
      · exact other
    cases found
    exact ⟨either _ (tested _ lower) (tested _ upper), rfl⟩
  next =>
    split at found
    next lower =>
      cases found
      exact ⟨tested _ lower, rfl⟩
    next =>
      split at found
      next upper =>
        cases found
        exact ⟨tested _ upper, rfl⟩
      next => cases found

def exact (magnitude : Binary) : Scientific :=
  ⟨magnitude.significand * Nat.pow 2 magnitude.exponent.toNat * Nat.pow 5 (-magnitude.exponent).toNat,
    -(-magnitude.exponent).toNat⟩

theorem value_exact (magnitude : Binary) : magnitude.exact.value = magnitude.value := by
  have tens : (10 : ℚ) ^ (-magnitude.exponent).toNat =
      2 ^ (-magnitude.exponent).toNat * 5 ^ (-magnitude.exponent).toNat := by
    rw [← mul_pow]
    norm_num
  unfold Scientific.value exact value
  dsimp only
  rw [zpow_neg, zpow_natCast, tens, zpow_eq_quotient two_ne_zero]
  push_cast [Nat.pow_eq]
  field_simp

/-- The decimal before its zeros are moved: one that was found on a grid of at most seventeen digits, or the exact one. -/
theorem shortest_cases (tie : Tie) (nonzero : magnitude.significand ≠ 0) : ∃ decimal : Scientific,
    magnitude.shortest tie = decimal.strip ∧ (decimal = magnitude.exact ∨ ∃ count < 17, magnitude.Covers decimal.value ∧
      decimal.exponent = leadingExponent magnitude.ratio.1 magnitude.ratio.2 - (count : ℕ)) := by
  unfold shortest
  rw [if_neg nonzero]
  dsimp only
  cases found : (List.range 17).findSome? fun (count : Nat) =>
      magnitude.onGrid? tie (leadingExponent magnitude.ratio.1 magnitude.ratio.2 - count) with
  | none => exact ⟨magnitude.exact, rfl, .inl rfl⟩
  | some decimal =>
    obtain ⟨count, member, here⟩ := List.exists_of_findSome?_eq_some found
    obtain ⟨covers, same⟩ := covers_of_onGrid here
    exact ⟨decimal, rfl, .inr ⟨count, List.mem_range.mp member, covers, same⟩⟩

/-- The shortest decimal rounds to the double. -/
theorem covers_shortest (tie : Tie) (nonzero : magnitude.significand ≠ 0) : magnitude.Covers (magnitude.shortest tie).value := by
  obtain ⟨decimal, same, found⟩ := shortest_cases tie nonzero
  rw [same, Scientific.value_strip]
  rcases found with rfl | ⟨_, _, covers, _⟩
  · rw [value_exact]
    exact covers_value nonzero
  · exact covers

theorem shortest_digits_ne_zero (tie : Tie) (nonzero : magnitude.significand ≠ 0) : (magnitude.shortest tie).digits ≠ 0 := by
  intro zero
  have positive := (covers_shortest tie nonzero).pos nonzero
  rw [Scientific.value, zero] at positive
  simp at positive

end Binary

end CircuitCloak.Decimal

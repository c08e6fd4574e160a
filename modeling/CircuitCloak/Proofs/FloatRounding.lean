import CircuitCloak.Proofs.ShortestDecimals
import Mathlib

/-! Rounding to doubles. Every operation first finds a significand that falls short of the exact result by less
than a unit, with a note of where in the unit the result lies, and then rounds this once. So where the exact result
is among the reals that round to a double, that double is the result. -/

namespace CircuitCloak.Decimal
open Float.Model Float.Model.UnpackedFloat

/-- The point lies where the note says, in the unit that starts at the significand. -/
def Lies (significand : Nat) : Accuracy → ℚ → Prop
  | .exact, point => point = significand
  | .inexact .lt, point => significand < point ∧ point < significand + 1 / 2
  | .inexact .eq, point => point = significand + 1 / 2
  | .inexact .gt, point => significand + 1 / 2 < point ∧ point < significand + 1

theorem Lies.bounds {significand : Nat} {accuracy : Accuracy} {point : ℚ} (lies : Lies significand accuracy point) :
    significand ≤ point ∧ point < significand + 1 := by
  unfold Lies at lies
  split at lies
  · exact ⟨lies.ge, by linarith⟩
  · exact ⟨lies.1.le, by linarith [lies.2]⟩
  · exact ⟨by linarith, by linarith⟩
  · exact ⟨by linarith [lies.1], lies.2⟩

theorem lies_ofMantissaAndAccuracy {significand : Nat} {accuracy : Accuracy} {point : ℚ}
    (lies : Lies significand accuracy point) :
    Lies (ExtendedMantissa.ofMantissaAndAccuracy significand accuracy).mantissa
      (ExtendedMantissa.ofMantissaAndAccuracy significand accuracy).accuracy point := by
  rcases accuracy with _ | (_ | _ | _) <;> exact lies

theorem lies_shiftRightOne {extended : ExtendedMantissa} {point : ℚ}
    (lies : Lies extended.mantissa extended.accuracy point) :
    Lies extended.shiftRightOne.mantissa extended.shiftRightOne.accuracy (point / 2) := by
  obtain ⟨significand, round, sticky⟩ := extended
  obtain ⟨half, rfl | rfl⟩ : ∃ half, significand = 2 * half ∨ significand = 2 * half + 1 :=
    ⟨significand / 2, by omega⟩
  · have whole : 2 * half / 2 = half := by omega
    have even : 2 * half % 2 = 0 := by omega
    cases round <;> cases sticky <;>
      simp only [ExtendedMantissa.shiftRightOne, ExtendedMantissa.accuracy, Lies, whole, even, Bool.or_false, Bool.or_true,
        bne_self_eq_false] at lies ⊢ <;>
      push_cast at lies <;> first | linarith | exact ⟨by linarith [lies.1], by linarith [lies.2]⟩ | exact ⟨by linarith, by linarith⟩
  · have whole : (2 * half + 1) / 2 = half := by omega
    have odd : (2 * half + 1) % 2 = 1 := by omega
    have set : ((1 : Nat) != 0) = true := rfl
    cases round <;> cases sticky <;>
      simp only [ExtendedMantissa.shiftRightOne, ExtendedMantissa.accuracy, Lies, whole, odd, set, Bool.or_false,
        Bool.or_true] at lies ⊢ <;>
      push_cast at lies <;> first | linarith | exact ⟨by linarith [lies.1], by linarith [lies.2]⟩ | exact ⟨by linarith, by linarith⟩

theorem lies_shiftRight {extended : ExtendedMantissa} {point : ℚ} (lies : Lies extended.mantissa extended.accuracy point)
    (count : Nat) : Lies (extended >>> count).mantissa (extended >>> count).accuracy (point / 2 ^ count) := by
  change Lies (count.repeat _ extended).mantissa (count.repeat _ extended).accuracy _
  induction count with
  | zero =>
    rw [pow_zero, div_one]
    exact lies
  | succ count ih =>
    rw [pow_succ, ← div_div]
    exact lies_shiftRightOne ih

theorem mantissa_shiftRight (extended : ExtendedMantissa) (count : Nat) :
    (extended >>> count).mantissa = extended.mantissa / 2 ^ count := by
  change (count.repeat _ extended).mantissa = _
  induction count with
  | zero => rw [pow_zero, Nat.div_one]; rfl
  | succ count ih =>
    rw [pow_succ, ← Nat.div_div_eq_div_mul, ← ih]
    rfl

/-- No whole number is nearer, and of two that are as near it is the even one. -/
def Nearest (number : Nat) (point : ℚ) : Prop :=
  (number : ℚ) - 1 / 2 ≤ point ∧ point ≤ number + 1 / 2 ∧
    (point = number - 1 / 2 ∨ point = number + 1 / 2 → number % 2 = 0)

theorem nearest_rounded {significand : Nat} {accuracy : Accuracy} {point : ℚ} (lies : Lies significand accuracy point) :
    Nearest (accuracy.roundToNearestEven significand) point := by
  rcases accuracy with _ | (_ | _ | _)
  · have same : point = significand := lies
    change Nearest significand point
    refine ⟨by linarith, by linarith, fun tie => ?_⟩
    rcases tie with low | high <;> linarith
  · obtain ⟨low, high⟩ : (significand : ℚ) < point ∧ point < significand + 1 / 2 := lies
    change Nearest significand point
    refine ⟨by linarith, high.le, fun tie => ?_⟩
    rcases tie with low | high <;> linarith
  · have same : point = significand + 1 / 2 := lies
    rcases Nat.mod_two_eq_zero_or_one significand with even | odd
    · change Nearest (significand + significand % 2) point
      rw [even, add_zero]
      exact ⟨by linarith, by linarith, fun _ => even⟩
    · change Nearest (significand + significand % 2) point
      rw [odd]
      unfold Nearest
      push_cast
      exact ⟨by linarith, by linarith, fun _ => by omega⟩
  · obtain ⟨low, high⟩ : (significand : ℚ) + 1 / 2 < point ∧ point < significand + 1 := lies
    change Nearest (significand + 1) point
    unfold Nearest
    push_cast
    refine ⟨by linarith, by linarith, fun tie => ?_⟩
    rcases tie with low | high <;> linarith

theorem Nearest.unique {first second : Nat} {point : ℚ} (one : Nearest first point) (other : Nearest second point) :
    first = second := by
  have apart : ∀ {low high : Nat}, Nearest low point → Nearest high point → ¬low < high := by
    intro low high lower upper less
    have next : (low : ℚ) + 1 ≤ high := by exact_mod_cast less
    have middle : point = low + 1 / 2 := by linarith [lower.2.1, upper.1]
    have beside : (high : ℚ) = low + 1 := by linarith [upper.1]
    have same : high = low + 1 := by exact_mod_cast beside
    have one := lower.2.2 (.inr middle)
    have other := upper.2.2 (.inl (by rw [middle, beside]; ring))
    omega
  rcases Nat.lt_trichotomy first second with less | same | less
  · exact absurd less (apart one other)
  · exact same
  · exact absurd less (apart other one)

/-- The significand and the exponent of a positive double. -/
structure Canonical (significand : Nat) (exponent : ℤ) : Prop where
  positive : 0 < significand
  below : significand < 2 ^ 53
  least : -1074 ≤ exponent
  greatest : exponent ≤ 971
  full : -1074 < exponent → 2 ^ 52 ≤ significand

/-- The magnitude with a given significand and exponent. -/
def double (significand : Nat) (exponent : ℤ) : Binary :=
  ⟨significand, exponent, decide (significand = 2 ^ 52 ∧ -1074 < exponent)⟩

theorem targetExponent_eq (total : ℤ) : Format.binary64.targetExponent total = max (total - 53) (-1074) := rfl

section Rounding

variable {significand : Nat} {exponent : ℤ} {point : ℚ}

/-- The reals that round to a double, in units of its significand. -/
theorem Binary.Covers.scaled (covers : (double significand exponent).Covers point) :
    (((double significand exponent).lowerQuarters : ℚ) / 4 ≤ point / 2 ^ exponent ∧
      point / 2 ^ exponent ≤ significand + 1 / 2) ∧
    (significand % 2 = 1 → ((double significand exponent).lowerQuarters : ℚ) / 4 < point / 2 ^ exponent ∧
      point / 2 ^ exponent < significand + 1 / 2) := by
  have unit : (0 : ℚ) < 2 ^ exponent := zpow_pos two_pos _
  have quarter : (double significand exponent).quarter = 2 ^ exponent / 4 := by
    rw [Binary.quarter, double, zpow_sub₀ two_ne_zero]
    norm_num
  have top : ((double significand exponent).upperQuarters : ℚ) = 4 * significand + 2 := by
    unfold Binary.upperQuarters double
    push_cast
    rfl
  refine ⟨⟨?_, ?_⟩, fun odd => ?_⟩
  · have low := covers.lower
    rw [quarter] at low
    rw [le_div_iff₀ unit]
    linarith
  · have high := covers.upper
    rw [quarter, top] at high
    rw [div_le_iff₀ unit]
    linarith
  · unfold Binary.Covers at covers
    rw [if_neg (by change ¬significand % 2 = 0; omega), quarter, top] at covers
    rw [lt_div_iff₀ unit, div_lt_iff₀ unit]
    exact ⟨by linarith [covers.1], by linarith [covers.2]⟩

theorem lowerQuarters_double (canonical : Canonical significand exponent) :
    4 * (significand : ℚ) - 2 ≤ (double significand exponent).lowerQuarters := by
  have positive := canonical.positive
  unfold Binary.lowerQuarters double
  dsimp only
  split
  · rw [Nat.cast_sub (by omega)]
    push_cast
    linarith
  · rw [Nat.cast_sub (by omega)]
    push_cast
    linarith

theorem nearest_of_covers (canonical : Canonical significand exponent) (covers : (double significand exponent).Covers point) :
    Nearest significand (point / 2 ^ exponent) := by
  obtain ⟨⟨low, high⟩, inner⟩ := covers.scaled
  have bound := lowerQuarters_double canonical
  refine ⟨by linarith, high, fun tie => ?_⟩
  by_contra other
  obtain ⟨above, below⟩ := inner (by omega)
  rcases tie with same | same
  · linarith
  · linarith

theorem rounded_again (canonical : Canonical significand exponent) (sign : Sign) :
    (let (extended, last) := shiftToTargetExponent Format.binary64 significand exponent .exact
      if nonzero : extended.mantissa = 0 then UnpackedFloat.zero sign
      else .finite sign extended.mantissa last (Nat.pos_of_ne_zero nonzero)) =
      .finite sign significand exponent canonical.positive := by
  have size : significand.log2 < 53 := (Nat.log2_lt canonical.positive.ne').mpr canonical.below
  have still : (Format.binary64.targetExponent (totalExponent significand exponent) - exponent).toNat = 0 := by
    rw [targetExponent_eq, totalExponent]
    have least := canonical.least
    omega
  unfold shiftToTargetExponent shiftToExponent
  dsimp only
  rw [still]
  have kept : (ExtendedMantissa.ofMantissaAndAccuracy significand .exact >>> 0).mantissa = significand := rfl
  simp only [kept]
  rw [dif_neg canonical.positive.ne']
  congr 1
  exact add_zero exponent

/-- The significand that overflowed to a power of two is halved. -/
theorem rounded_carry (exponent : ℤ) (least : -1074 ≤ exponent) (sign : Sign) :
    (let (extended, last) := shiftToTargetExponent Format.binary64 (2 ^ 53) exponent .exact
      if nonzero : extended.mantissa = 0 then UnpackedFloat.zero sign
      else .finite sign extended.mantissa last (Nat.pos_of_ne_zero nonzero)) =
      .finite sign (2 ^ 52) (exponent + 1) (Nat.two_pow_pos 52) := by
  have size : (2 ^ 53 : Nat).log2 = 53 := Nat.log2_two_pow
  have step : (Format.binary64.targetExponent (totalExponent (2 ^ 53) exponent) - exponent).toNat = 1 := by
    rw [targetExponent_eq, totalExponent, size]
    omega
  unfold shiftToTargetExponent shiftToExponent
  dsimp only
  rw [step]
  rfl

/-- A truncated result with as many bits as a double has in its unit. -/
structure Truncated (extended : ExtendedMantissa) (target : ℤ) (point : ℚ) : Prop where
  lies : Lies extended.mantissa extended.accuracy (point / 2 ^ target)
  least : -1074 ≤ target
  few : extended.mantissa < 2 ^ 53
  many : -1074 < target → 2 ^ 52 ≤ extended.mantissa

theorem truncated_shift {given : Nat} {unit : ℤ} {accuracy : Accuracy} (lies : Lies given accuracy (point / 2 ^ unit))
    (fine : unit ≤ Format.binary64.targetExponent (totalExponent given unit)) :
    ∃ extended target, shiftToTargetExponent Format.binary64 given unit accuracy = (extended, target) ∧
      Truncated extended target point := by
  obtain ⟨target, named⟩ : ∃ target, target = Format.binary64.targetExponent (totalExponent given unit) := ⟨_, rfl⟩
  obtain ⟨count, shift⟩ : ∃ count : Nat, target = unit + count := ⟨(target - unit).toNat, by omega⟩
  have amount : (target - unit).toNat = count := by omega
  have total : target = max (given.log2 + 1 + unit - 53) (-1074) := named.trans (targetExponent_eq _)
  have moved : shiftToTargetExponent Format.binary64 given unit accuracy =
      (ExtendedMantissa.ofMantissaAndAccuracy given accuracy >>> count, target) := by
    unfold shiftToTargetExponent shiftToExponent
    dsimp only
    rw [← named, amount, ← shift]
  have quotient : (ExtendedMantissa.ofMantissaAndAccuracy given accuracy >>> count).mantissa = given / 2 ^ count := by
    rw [mantissa_shiftRight]
    rcases accuracy with _ | (_ | _ | _) <;> rfl
  refine ⟨_, target, moved, ?_, by omega, ?_, fun large => ?_⟩
  · have scaled := lies_shiftRight (lies_ofMantissaAndAccuracy lies) count
    rwa [div_div, ← zpow_natCast, ← zpow_add₀ two_ne_zero, ← shift] at scaled
  · rw [quotient]
    apply Nat.div_lt_of_lt_mul
    rw [← pow_add]
    exact Nat.lt_of_lt_of_le Nat.lt_log2_self (Nat.pow_le_pow_right (by decide) (by omega))
  · have nonzero : given ≠ 0 := by
      rintro rfl
      rw [Nat.log2_zero] at total
      omega
    have log : given.log2 = 52 + count := by omega
    rw [quotient]
    apply (Nat.le_div_iff_mul_le (Nat.two_pow_pos count)).mpr
    rw [← pow_add, ← log]
    exact Nat.log2_self_le nonzero

namespace Truncated

variable {extended : ExtendedMantissa} {target : ℤ}

/-- No double of a smaller unit is as great. -/
theorem not_finer (truncated : Truncated extended target point) (canonical : Canonical significand exponent)
    (covers : (double significand exponent).Covers point) : ¬exponent < target := by
  intro finer
  have unitPositive : (0 : ℚ) < 2 ^ exponent := zpow_pos two_pos _
  have targetPositive : (0 : ℚ) < 2 ^ target := zpow_pos two_pos _
  have twice : (2 : ℚ) * 2 ^ exponent ≤ 2 ^ target := by
    rw [← zpow_one_add₀ two_ne_zero]
    exact zpow_le_zpow_right₀ one_le_two (by omega)
  have large : (2 : ℚ) ^ 52 ≤ extended.mantissa := by
    exact_mod_cast truncated.many (Int.lt_of_le_of_lt canonical.least finer)
  have below : (significand : ℚ) + 1 ≤ 2 ^ 53 := by exact_mod_cast canonical.below
  have low := truncated.lies.bounds.1
  have high := covers.scaled.1.2
  rw [le_div_iff₀ targetPositive] at low
  rw [div_le_iff₀ unitPositive] at high
  nlinarith

/-- A double of a greater unit is reached by a carry only, into a power of two. -/
theorem carry (truncated : Truncated extended target point) (canonical : Canonical significand exponent)
    (covers : (double significand exponent).Covers point) (coarser : target < exponent) :
    significand = 2 ^ 52 ∧ exponent = target + 1 ∧ extended.roundedMantissa = 2 ^ 53 := by
  have unitPositive : (0 : ℚ) < 2 ^ exponent := zpow_pos two_pos _
  have targetPositive : (0 : ℚ) < 2 ^ target := zpow_pos two_pos _
  have least := truncated.least
  have full := canonical.full (by omega)
  have bound := lowerQuarters_double canonical
  have under : point < 2 ^ 53 * 2 ^ target := by
    have few : (extended.mantissa : ℚ) + 1 ≤ 2 ^ 53 := by exact_mod_cast truncated.few
    have high := truncated.lies.bounds.2
    rw [div_lt_iff₀ targetPositive] at high
    exact high.trans_le (mul_le_mul_of_nonneg_right few targetPositive.le)
  have low := covers.scaled.1.1
  rw [le_div_iff₀ unitPositive] at low
  have first : significand = 2 ^ 52 := by
    have twice : (2 : ℚ) * 2 ^ target ≤ 2 ^ exponent := by
      rw [← zpow_one_add₀ two_ne_zero]
      exact zpow_le_zpow_right₀ one_le_two (by omega)
    by_contra other
    have more : (2 : ℚ) ^ 52 + 1 ≤ significand := by exact_mod_cast (by omega : 2 ^ 52 + 1 ≤ significand)
    nlinarith
  subst first
  have narrow : ((double (2 ^ 52) exponent).lowerQuarters : ℚ) = 2 ^ 54 - 1 := by
    unfold Binary.lowerQuarters double
    rw [if_pos (decide_eq_true ⟨rfl, by omega⟩)]
    norm_num
  rw [narrow] at low
  have next : exponent = target + 1 := by
    by_contra other
    have fourfold : (4 : ℚ) * 2 ^ target ≤ 2 ^ exponent := by
      rw [show (4 : ℚ) = 2 ^ (2 : ℤ) by norm_num, ← zpow_add₀ two_ne_zero]
      exact zpow_le_zpow_right₀ one_le_two (by omega)
    nlinarith
  refine ⟨rfl, next, (nearest_rounded truncated.lies).unique ⟨?_, ?_, fun _ => rfl⟩⟩
  · rw [next, zpow_add_one₀ two_ne_zero] at low
    rw [le_div_iff₀ targetPositive]
    push_cast
    linarith
  · rw [div_le_iff₀ targetPositive]
    push_cast
    linarith

end Truncated

/-- A result that is known to less than a unit, in a unit that is fine enough, is rounded to the double among whose
reals it lies. -/
theorem roundWithAccuracy_eq (canonical : Canonical significand exponent)
    (covers : (double significand exponent).Covers point) {given : Nat} {unit : ℤ} {accuracy : Accuracy}
    (lies : Lies given accuracy (point / 2 ^ unit))
    (fine : unit ≤ Format.binary64.targetExponent (totalExponent given unit)) (sign : Sign) :
    roundWithAccuracy Format.binary64 sign given unit accuracy = .finite sign significand exponent canonical.positive := by
  obtain ⟨extended, target, moved, truncated⟩ := truncated_shift lies fine
  unfold roundWithAccuracy
  rw [moved]
  rcases lt_trichotomy exponent target with finer | rfl | coarser
  · exact absurd finer (truncated.not_finer canonical covers)
  · have rounded : extended.roundedMantissa = significand :=
      (nearest_rounded truncated.lies).unique (nearest_of_covers canonical covers)
    dsimp only
    rw [rounded]
    exact rounded_again canonical sign
  · obtain ⟨rfl, rfl, rounded⟩ := truncated.carry canonical covers coarser
    dsimp only
    rw [rounded]
    exact rounded_carry target truncated.least sign

/-- The result of rounding a magnitude that is known to less than a unit, in a unit that is fine enough. -/
def Rounds (sign : Sign) (point : ℚ) (result : UnpackedFloat) : Prop :=
  ∃ given unit accuracy, Lies given accuracy (point / 2 ^ unit) ∧
    unit ≤ Format.binary64.targetExponent (totalExponent given unit) ∧
    result = roundWithAccuracy Format.binary64 sign given unit accuracy

namespace Rounds

variable {sign : Sign} {result : UnpackedFloat}

theorem eq (rounds : Rounds sign point result) (canonical : Canonical significand exponent)
    (covers : (double significand exponent).Covers point) :
    result = .finite sign significand exponent canonical.positive := by
  obtain ⟨given, unit, accuracy, lies, fine, rfl⟩ := rounds
  exact roundWithAccuracy_eq canonical covers lies fine sign

/-- A magnitude that is neither too small nor too large is rounded to a double of a unit that its size allows, which is
less than a unit away. -/
theorem exists_near (rounds : Rounds sign point result) {least most : ℤ} (normal : -1074 ≤ least) (finite : most ≤ 971)
    (low : 2 ^ (least + 53) ≤ point) (high : point < 2 ^ (most + 52)) :
    ∃ significand exponent, ∃ canonical : Canonical significand exponent,
      result = .finite sign significand exponent canonical.positive ∧ least < exponent ∧ exponent ≤ most ∧
        |(significand : ℚ) * 2 ^ exponent - point| ≤ 2 ^ exponent / 2 := by
  obtain ⟨given, unit, accuracy, lies, fine, rfl⟩ := rounds
  obtain ⟨extended, target, moved, truncated⟩ := truncated_shift lies fine
  have scale : (0 : ℚ) < 2 ^ target := zpow_pos two_pos _
  obtain ⟨down, up⟩ := truncated.lies.bounds
  rw [le_div_iff₀ scale] at down
  rw [div_lt_iff₀ scale] at up
  have above : least < target := by
    have few : (extended.mantissa : ℚ) + 1 ≤ 2 ^ (53 : ℤ) := by exact_mod_cast truncated.few
    have under : (2 : ℚ) ^ (least + 53) < 2 ^ (target + 53) := by
      calc (2 : ℚ) ^ (least + 53) ≤ point := low
        _ < (extended.mantissa + 1) * 2 ^ target := up
        _ ≤ 2 ^ (53 : ℤ) * 2 ^ target := mul_le_mul_of_nonneg_right few scale.le
        _ = 2 ^ (target + 53) := by rw [← zpow_add₀ two_ne_zero, add_comm]
    have order := (zpow_lt_zpow_iff_right₀ one_lt_two).mp under
    omega
  have many := truncated.many (by omega)
  have below : target < most := by
    have full : (2 : ℚ) ^ (52 : ℤ) ≤ extended.mantissa := by exact_mod_cast many
    have beyond : (2 : ℚ) ^ (target + 52) < 2 ^ (most + 52) := by
      calc (2 : ℚ) ^ (target + 52) = 2 ^ (52 : ℤ) * 2 ^ target := by rw [← zpow_add₀ two_ne_zero, add_comm]
        _ ≤ extended.mantissa * 2 ^ target := mul_le_mul_of_nonneg_right full scale.le
        _ ≤ point := down
        _ < 2 ^ (most + 52) := high
    have order := (zpow_lt_zpow_iff_right₀ one_lt_two).mp beyond
    omega
  obtain ⟨left, right, _⟩ : Nearest extended.roundedMantissa _ := nearest_rounded truncated.lies
  have rounded : extended.mantissa ≤ extended.roundedMantissa ∧ extended.roundedMantissa ≤ extended.mantissa + 1 := by
    obtain ⟨first, second⟩ := truncated.lies.bounds
    have one : (extended.mantissa : ℚ) < extended.roundedMantissa + 1 := by linarith
    have other : (extended.roundedMantissa : ℚ) < extended.mantissa + 2 := by linarith
    have one : extended.mantissa < extended.roundedMantissa + 1 := by exact_mod_cast one
    have other : extended.roundedMantissa < extended.mantissa + 2 := by exact_mod_cast other
    omega
  have near : |(extended.roundedMantissa : ℚ) * 2 ^ target - point| ≤ 2 ^ target / 2 := by
    rw [le_div_iff₀ scale] at left
    rw [div_le_iff₀ scale] at right
    rw [abs_le]
    constructor <;> linarith
  have few := truncated.few
  unfold roundWithAccuracy
  rw [moved]
  dsimp only
  by_cases carry : extended.roundedMantissa = 2 ^ 53
  · rw [carry] at near ⊢
    have same : ((2 ^ 52 : ℕ) : ℚ) * 2 ^ (target + 1) = ((2 ^ 53 : ℕ) : ℚ) * 2 ^ target := by
      rw [zpow_add_one₀ two_ne_zero]
      push_cast
      ring
    have wide : (2 : ℚ) ^ target ≤ 2 ^ (target + 1) := zpow_le_zpow_right₀ one_le_two (by omega)
    refine ⟨2 ^ 52, target + 1, ⟨by norm_num, by norm_num, by omega, by omega, fun _ => le_rfl⟩,
      rounded_carry target truncated.least sign, by omega, by omega, ?_⟩
    rw [same]
    linarith
  · have canonical : Canonical extended.roundedMantissa target :=
      ⟨by omega, by omega, truncated.least, by omega, fun _ => by omega⟩
    exact ⟨_, target, canonical, rounded_again canonical sign, above, below.le, near⟩

end Rounds

end Rounding

end CircuitCloak.Decimal

import CircuitCloak.Proofs.Constants
import CircuitCloak.Proofs.DecimalReading

/-! Numbers whose text the lexer takes. A number below 2^64 is written with a whole part below it, because its shortest
decimal does not pass the halfway point to the next double; from there on a number is written as a whole number that
is no word of 64 bits. -/

namespace CircuitCloak.Decimal

section Limits

variable {significand : Nat} {exponent : ℤ}

theorem value_double (significand : Nat) (exponent : ℤ) : (double significand exponent).value = significand * 2 ^ exponent := rfl

theorem lt_limit (canonical : Canonical significand exponent) (small : (double significand exponent).value < 2 ^ 64) {point : ℚ}
    (covers : (double significand exponent).Covers point) : point < 2 ^ 64 := by
  have unit : (0 : ℚ) < 2 ^ exponent := zpow_pos two_pos _
  have few : (significand : ℚ) + 1 ≤ 2 ^ 53 := by exact_mod_cast canonical.below
  have low : exponent ≤ 11 := by
    by_contra high
    have full : (2 : ℚ) ^ 52 ≤ significand := by exact_mod_cast canonical.full (by omega)
    have least : (2 : ℚ) ^ (12 : ℤ) ≤ 2 ^ exponent := zpow_le_zpow_right₀ one_le_two (by omega)
    rw [value_double] at small
    norm_num at least
    nlinarith
  have most : (2 : ℚ) ^ exponent ≤ 2 ^ (11 : ℤ) := zpow_le_zpow_right₀ one_le_two low
  have high := covers.scaled.1.2
  rw [div_le_iff₀ unit] at high
  norm_num at most
  nlinarith

theorem le_exponent_of_limit (canonical : Canonical significand exponent)
    (large : 2 ^ 64 ≤ (double significand exponent).value) : 12 ≤ exponent := by
  by_contra low
  have few : (significand : ℚ) + 1 ≤ 2 ^ 53 := by exact_mod_cast canonical.below
  have most : (2 : ℚ) ^ exponent ≤ 2 ^ (11 : ℤ) := zpow_le_zpow_right₀ one_le_two (by omega)
  have unit : (0 : ℚ) < 2 ^ exponent := zpow_pos two_pos _
  rw [value_double] at large
  norm_num at most
  nlinarith

/-- The decimal of a number beyond the limit is a whole number. -/
theorem exponent_shortest (canonical : Canonical significand exponent)
    (large : 2 ^ 64 ≤ (double significand exponent).value) :
    0 ≤ ((double significand exponent).shortest .upward).exponent := by
  have scale := le_exponent_of_limit canonical large
  have nonzero : (double significand exponent).significand ≠ 0 := canonical.positive.ne'
  obtain ⟨decimal, same, found⟩ := Binary.shortest_cases .upward nonzero
  have digits := Binary.shortest_digits_ne_zero .upward nonzero
  rw [same] at digits ⊢
  have kept : decimal.exponent ≤ decimal.strip.exponent := by
    unfold Scientific.strip at digits ⊢
    dsimp only at digits ⊢
    split at digits
    next => exact absurd rfl digits
    next some =>
      rw [if_neg some]
      exact le_add_of_nonneg_right (Int.natCast_nonneg _)
  refine le_trans ?_ kept
  rcases found with rfl | ⟨count, few, _, grid⟩
  · change 0 ≤ -((-exponent).toNat : ℤ)
    omega
  · have whole : (double significand exponent).ratio = (significand * 2 ^ exponent.toNat, 1) := by
      change (significand * Nat.pow 2 exponent.toNat, Nat.pow 2 (-exponent).toNat) = _
      rw [show (-exponent).toNat = 0 by omega]
      rfl
    have number : 10 ^ 19 ≤ significand * 2 ^ exponent.toNat := by
      calc 10 ^ 19 ≤ 2 ^ 52 * 2 ^ 12 := by decide
        _ ≤ significand * 2 ^ exponent.toNat :=
          Nat.mul_le_mul (canonical.full (by omega)) (Nat.pow_le_pow_right (by decide) (by omega))
    rw [grid, whole]
    generalize significand * 2 ^ exponent.toNat = top at number
    have length : 19 < (Nat.toDigits 10 top).length := by
      by_contra short
      have below := (Nat.length_toDigits_le_iff (by decide) (by decide)).mp (Nat.le_of_not_lt short)
      omega
    unfold leadingExponent digitCount
    dsimp only
    rw [if_pos (by omega), Nat.div_one, if_neg (by omega)]
    omega

/-- So is the decimal itself not below the limit. -/
theorem limit_le_shortest (canonical : Canonical significand exponent)
    (large : 2 ^ 64 ≤ (double significand exponent).value) :
    2 ^ 64 ≤ ((double significand exponent).shortest .upward).value := by
  have scale := le_exponent_of_limit canonical large
  by_cases first : significand = 2 ^ 52 ∧ exponent = 12
  · obtain ⟨rfl, rfl⟩ := first
    have decimal : (double (2 ^ 52) 12).shortest .upward = ⟨18446744073709552, 3⟩ := by decide +kernel
    rw [decimal, Scientific.value]
    norm_num
  · have covers : (double significand exponent).Covers ((double significand exponent).shortest .upward).value :=
      Binary.covers_shortest .upward canonical.positive.ne'
    have unit : (0 : ℚ) < 2 ^ exponent := zpow_pos two_pos _
    have low := covers.scaled.1.1
    have bound := lowerQuarters_double canonical
    rw [le_div_iff₀ unit] at low
    have full := canonical.full (by omega)
    by_cases least : exponent = 12
    · have more : (2 : ℚ) ^ 52 + 1 ≤ significand := by exact_mod_cast (by omega : 2 ^ 52 + 1 ≤ significand)
      subst least
      norm_num at low
      linarith
    · have more : (2 : ℚ) ^ 52 ≤ significand := by exact_mod_cast full
      have wide : (2 : ℚ) ^ (13 : ℤ) ≤ 2 ^ exponent := zpow_le_zpow_right₀ one_le_two (by omega)
      norm_num at wide
      nlinarith

/-- The text of a number is a token just below the limit. -/
theorem sized_numeral (canonical : Canonical significand exponent) :
    (Qasm.Literal.ofNumeral (plain.magnitude (double significand exponent))).token.Sized ↔
      (double significand exponent).value < 2 ^ 64 := by
  have numerical := numerical_magnitude (double significand exponent)
  constructor
  · intro sized
    by_contra large
    have whole := exponent_shortest canonical (le_of_not_gt large)
    have value := limit_le_shortest canonical (le_of_not_gt large)
    obtain ⟨text, digits, same, number⟩ := positional_whole
      ((double significand exponent).shortest .upward).digits whole
    rw [← magnitude_eq] at same
    have plain : '.' ∉ (plain.magnitude (double significand exponent)).toList := by
      rw [same]
      exact fun point => absurd (digits.each '.' point) (by decide)
    rw [Qasm.Literal.ofNumeral, if_neg plain] at sized
    have below : digitsValue text < longWordCount := by
      rw [← same]
      exact sized
    rw [Scientific.value, ← number] at value
    have above : 2 ^ 64 ≤ digitsValue text := by exact_mod_cast value
    exact absurd below (Nat.not_lt.mpr above)
  · intro small
    unfold Qasm.Literal.ofNumeral
    split
    · trivial
    next none =>
      generalize written : (plain.magnitude (double significand exponent)).toList = text at numerical none
      generalize denoted : ((double significand exponent).shortest .upward).value = value at numerical
      cases numerical with
      | whole digits =>
        have covers : (double significand exponent).Covers (digitsValue text : ℚ) := by
          rw [← denoted]
          exact Binary.covers_shortest .upward canonical.positive.ne'
        have below : digitsValue text < 2 ^ 64 := by exact_mod_cast lt_limit canonical small covers
        change digitsValue (plain.magnitude (double significand exponent)).toList < _
        rw [written]
        exact below
      | fraction digits each => exact absurd (List.mem_append_right _ List.mem_cons_self) none

end Limits

end CircuitCloak.Decimal

import CircuitCloak.Proofs.NumberLimits

/-! Small multiples of π as doubles. A change of sign commutes with every operation, so a number is near a multiple
just if its opposite is near the opposite one; and a number of 2^64 or more is near none, because to take a small
multiple away does not change it. -/

namespace CircuitCloak
open Float.Model Float.Model.UnpackedFloat

theorem unpack_packComponents_neg (sign : Sign) (exponent : BitVec Format.binary64.exponentBits)
    (mantissa : BitVec Format.binary64.mantissaBitsWithoutImplicit) :
    UnpackedFloat.unpack Format.binary64 (packComponents Format.binary64 (-sign) exponent mantissa) =
      (UnpackedFloat.unpack Format.binary64 (packComponents Format.binary64 sign exponent mantissa)).neg := by
  unfold UnpackedFloat.unpack
  simp only [unpackExponent_packComponents, unpackMantissa_packComponents, unpackSign_packComponents,
    Sign.ofBitVec_toBitVec]
  split
  · split <;> rfl
  · split
    · split <;> rfl
    · rfl

theorem unpack_pack_neg (unpacked : UnpackedFloat) :
    UnpackedFloat.unpack Format.binary64 (UnpackedFloat.pack Format.binary64 unpacked.neg) =
      (UnpackedFloat.unpack Format.binary64 (UnpackedFloat.pack Format.binary64 unpacked)).neg := by
  cases unpacked with
  | notANumber => rfl
  | infinity sign => exact unpack_packComponents_neg sign _ _
  | zero sign => exact unpack_packComponents_neg sign _ _
  | finite sign significand exponent positive =>
    unfold UnpackedFloat.neg UnpackedFloat.pack
    dsimp only
    split
    · exact unpack_packComponents_neg sign _ _
    · split
      · exact unpack_packComponents_neg sign _ _
      · exact unpack_packComponents_neg sign _ _

theorem unpack_neg (value : Float) : (-value).toModel.unpack = value.toModel.unpack.neg := by
  have packed : UnpackedFloat.pack Format.binary64 value.toModel.unpack = value.toModel.toBits.toBitVec :=
    pack_unpack_of_valid value.toModel.valid
  have moved := unpack_pack_neg value.toModel.unpack
  rw [packed] at moved
  exact moved

theorem eq_of_unpack_eq {first second : Float} (same : first.toModel.unpack = second.toModel.unpack) : first = second :=
  (Decimal.eq_of_unpack same).trans (Decimal.eq_of_unpack rfl).symm

theorem neg_pack (unpacked : UnpackedFloat) :
    Float.ofModel (.pack unpacked.neg) = -Float.ofModel (.pack unpacked) :=
  eq_of_unpack_eq ((unpack_pack_neg unpacked).trans (unpack_neg (.ofModel (.pack unpacked))).symm)

theorem roundWithAccuracy_neg (sign : Sign) (significand : Nat) (exponent : ℤ) (accuracy : Accuracy) :
    roundWithAccuracy Format.binary64 (-sign) significand exponent accuracy =
      (roundWithAccuracy Format.binary64 sign significand exponent accuracy).neg := by
  unfold roundWithAccuracy
  dsimp only
  split <;> rfl

theorem neg_mul_float (first second : Float) : -first * second = -(first * second) := by
  have sign : ∀ one other : Sign, -one * other = -(one * other) := by
    intro one other
    cases one <;> cases other <;> rfl
  have unpacked : ∀ one other : UnpackedFloat,
      UnpackedFloat.mul Format.binary64 one.neg other = (UnpackedFloat.mul Format.binary64 one other).neg := by
    intro one other
    cases one <;> cases other <;> simp only [UnpackedFloat.neg, UnpackedFloat.mul, sign, roundWithAccuracy_neg]
  change Float.ofModel (.pack (UnpackedFloat.mul _ (-first).toModel.unpack _)) = _
  rw [unpack_neg, unpacked]
  exact neg_pack _

theorem neg_div_float (first second : Float) : -first / second = -(first / second) := by
  have sign : ∀ one other : Sign, -one / other = -(one / other) := by
    intro one other
    cases one <;> cases other <;> rfl
  have unpacked : ∀ one other : UnpackedFloat,
      UnpackedFloat.div Format.binary64 one.neg other = (UnpackedFloat.div Format.binary64 one other).neg := by
    intro one other
    cases one <;> cases other <;> simp only [UnpackedFloat.neg, UnpackedFloat.div, sign, roundWithAccuracy_neg]
  change Float.ofModel (.pack (UnpackedFloat.div _ (-first).toModel.unpack _)) = _
  rw [unpack_neg, unpacked]
  exact neg_pack _

theorem neg_neg_float (value : Float) : - -value = value := by
  refine eq_of_unpack_eq ?_
  rw [unpack_neg, unpack_neg]
  have sign : ∀ sign : Sign, - -sign = sign := by
    intro sign
    cases sign <;> rfl
  cases value.toModel.unpack <;> simp only [UnpackedFloat.neg, sign]

theorem abs_neg_float (value : Float) : (-value).abs = value.abs := by
  change Float.ofModel (.pack (-value).toModel.unpack.abs) = .ofModel (.pack value.toModel.unpack.abs)
  rw [unpack_neg]
  cases value.toModel.unpack <;> rfl

theorem normalize_neg (mantissa exponent : ℤ) :
    normalize Format.binary64 (-mantissa) exponent .positive = normalize Format.binary64 mantissa exponent .positive ∨
      normalize Format.binary64 (-mantissa) exponent .positive =
        (normalize Format.binary64 mantissa exponent .positive).neg := by
  rcases lt_trichotomy mantissa 0 with less | rfl | greater
  · right
    unfold UnpackedFloat.normalize
    rw [compare_lt_iff_lt.mpr less, compare_gt_iff_gt.mpr (neg_pos.mpr less)]
    exact roundWithAccuracy_neg .negative _ _ _
  · exact .inl rfl
  · right
    unfold UnpackedFloat.normalize
    rw [compare_gt_iff_gt.mpr greater, compare_lt_iff_lt.mpr (neg_lt_zero.mpr greater), neg_neg]
    exact roundWithAccuracy_neg .positive _ _ _

theorem abs_neg_sub_neg (first second : Float) : (-first - -second).abs = (first - second).abs := by
  have unpacked : ∀ one other : UnpackedFloat,
      UnpackedFloat.sub Format.binary64 one.neg other.neg = UnpackedFloat.sub Format.binary64 one other ∨
        UnpackedFloat.sub Format.binary64 one.neg other.neg = (UnpackedFloat.sub Format.binary64 one other).neg := by
    intro one other
    cases one with
    | notANumber => exact .inl rfl
    | infinity sign =>
      cases other with
      | infinity other => cases sign <;> cases other <;> first | exact .inl rfl | exact .inr rfl
      | notANumber => exact .inl rfl
      | zero | finite => exact .inr rfl
    | zero sign =>
      cases other with
      | zero other => cases sign <;> cases other <;> first | exact .inl rfl | exact .inr rfl
      | notANumber => exact .inl rfl
      | infinity | finite => exact .inr rfl
    | finite sign significand exponent positive =>
      cases other with
      | finite =>
        have opposite : ∀ (sign : Sign) (magnitude : ℤ), (-sign).apply magnitude = -sign.apply magnitude := by
          intro sign magnitude
          cases sign
          · exact (neg_neg magnitude).symm
          · rfl
        unfold UnpackedFloat.neg UnpackedFloat.sub
        dsimp only
        rw [opposite, opposite, neg_sub_neg, ← neg_sub]
        exact normalize_neg _ _
      | notANumber => exact .inl rfl
      | infinity | zero => exact .inr rfl
  change Float.abs (.ofModel (.pack (UnpackedFloat.sub _ (-first).toModel.unpack (-second).toModel.unpack))) =
    Float.abs (.ofModel (.pack (UnpackedFloat.sub _ first.toModel.unpack second.toModel.unpack)))
  rw [unpack_neg, unpack_neg]
  rcases unpacked first.toModel.unpack second.toModel.unpack with same | opposite
  · rw [same]
  · rw [opposite, neg_pack, abs_neg_float]

namespace Decimal

theorem neg_floatOf {significand : Nat} {exponent : ℤ} (canonical : Canonical significand exponent) (sign : Sign) :
    -floatOf canonical sign = floatOf canonical (-sign) := (neg_pack _).symm

theorem rounds_sub {first second : Nat} (positive : 0 < first) (nonzero : 0 < second) (sign other : Sign) (scale unit : ℤ)
    (apart : (sign.apply first : ℚ) * 2 ^ scale - other.apply second * 2 ^ unit ≠ 0) : ∃ mark,
      Rounds mark |(sign.apply first : ℚ) * 2 ^ scale - other.apply second * 2 ^ unit|
        (UnpackedFloat.sub Format.binary64 (.finite sign first scale positive) (.finite other second unit nonzero)) := by
  have shifted : ∀ (sign : Sign) (part : Nat) (own : ℤ), min scale unit ≤ own →
      (sign.apply ((part <<< (own - min scale unit).toNat : ℕ) : ℤ) : ℚ) * 2 ^ min scale unit =
        sign.apply part * 2 ^ own := by
    intro sign part own less
    have power : (2 : ℚ) ^ own = 2 ^ (own - min scale unit).toNat * 2 ^ min scale unit := by
      rw [← zpow_natCast, ← zpow_add₀ two_ne_zero]
      congr 1
      omega
    rw [power, Nat.shiftLeft_eq]
    cases sign <;> simp only [Sign.apply] <;> push_cast <;> ring
  have one := shifted sign first scale (min_le_left _ _)
  have two := shifted other second unit (min_le_right _ _)
  unfold UnpackedFloat.sub decreaseExponent
  dsimp only
  generalize sign.apply ((first <<< (scale - min scale unit).toNat : ℕ) : ℤ) = left at one
  generalize other.apply ((second <<< (unit - min scale unit).toNat : ℕ) : ℤ) = right at two
  rw [← one, ← two, ← sub_mul] at apart ⊢
  obtain ⟨mark, same⟩ : ∃ mark : Sign, left - right = mark.apply (left - right).natAbs := by
    rcases le_total 0 (left - right) with above | below
    · exact ⟨.positive, by simp only [Sign.apply]; omega⟩
    · exact ⟨.negative, by simp only [Sign.apply]; omega⟩
  have some : 0 < (left - right).natAbs := by
    refine Int.natAbs_pos.mpr fun none => apart ?_
    rw [← Int.cast_sub, none, Int.cast_zero, zero_mul]
  have size : |((left : ℚ) - right) * 2 ^ min scale unit| = ((left - right).natAbs : ℚ) * 2 ^ min scale unit := by
    have step : (0 : ℚ) < 2 ^ min scale unit := zpow_pos two_pos _
    rw [abs_mul, abs_of_pos step, Nat.cast_natAbs]
    push_cast
    rfl
  refine ⟨mark, ?_⟩
  rw [size, same, normalize_apply mark some, ← same]
  exact rounds_round mark some _

theorem tolerance_eq : ∃ canonical : Canonical 4951760157141521 (-92), (1e-12 : Float) = floatOf canonical .positive :=
  eq_floatOf (by decide +kernel) (by norm_num)

theorem exists_ofNat {number : Nat} (positive : 0 < number) (small : number < 2 ^ 53) : ∃ significand exponent,
    ∃ canonical : Canonical significand exponent, Float.ofNat number = floatOf canonical .positive ∧
      2 ^ 52 ≤ significand ∧ (significand : ℚ) * 2 ^ exponent = number := by
  obtain ⟨significand, exponent, canonical, _, large, value⟩ := ofNat_eq positive small
  refine ⟨significand, exponent, canonical, float_ofNat_eq canonical ?_, large, value⟩
  have nonzero : (double significand exponent).significand ≠ 0 := canonical.positive.ne'
  rw [← value]
  exact Binary.covers_value nonzero

section Differences

variable {significand part : Nat} {exponent unit : ℤ}

/-- A number of a greater unit than the tolerance is beyond it. -/
theorem abs_not_lt (canonical : Canonical significand exponent) (sign : Sign) (greater : -92 < exponent) :
    ¬(floatOf canonical sign).abs < 1e-12 := by
  obtain ⟨least, same⟩ := tolerance_eq
  have distance : (floatOf canonical sign).abs = floatOf canonical .positive := by
    change Float.ofModel (.pack (floatOf canonical sign).toModel.unpack.abs) = _
    rw [unpack_floatOf]
    rfl
  rw [distance, same]
  intro less
  have compared : UnpackedFloat.lt (floatOf canonical .positive).toModel.unpack (floatOf least .positive).toModel.unpack =
    true := of_decide_eq_true less
  rw [unpack_floatOf, unpack_floatOf] at compared
  change (some ((compare exponent (-92)).then (compare significand 4951760157141521)) == some .lt) = true at compared
  rw [compare_gt_iff_gt.mpr greater] at compared
  cases compared

/-- Numbers that are not too large are as far apart as their difference says. -/
theorem not_close (canonical : Canonical significand exponent) (proper : Canonical part unit) (sign other : Sign)
    (apart : (2 : ℚ) ^ (-39 : ℤ) ≤ |(sign.apply significand : ℚ) * 2 ^ exponent - other.apply part * 2 ^ unit|)
    (near : |(sign.apply significand : ℚ) * 2 ^ exponent - other.apply part * 2 ^ unit| < 2 ^ (1023 : ℤ)) :
    ¬(floatOf canonical sign - floatOf proper other).abs < 1e-12 := by
  have nonzero : (sign.apply significand : ℚ) * 2 ^ exponent - other.apply part * 2 ^ unit ≠ 0 :=
    abs_pos.mp (lt_of_lt_of_le (zpow_pos two_pos _) apart)
  obtain ⟨mark, rounds⟩ := rounds_sub canonical.positive proper.positive sign other exponent unit nonzero
  obtain ⟨difference, last, whole, same, greater, _⟩ :=
    rounds.exists_near (by norm_num : (-1074 : ℤ) ≤ -92) (le_refl 971) apart near
  rw [sub_floatOf, same]
  exact abs_not_lt whole mark greater

theorem abs_apply (sign : Sign) (number : Nat) (unit : ℤ) :
    |(sign.apply number : ℚ) * 2 ^ unit| = number * 2 ^ unit := by
  have scale : (0 : ℚ) < 2 ^ unit := zpow_pos two_pos _
  have positive : (0 : ℚ) ≤ number := Nat.cast_nonneg number
  rw [abs_mul, abs_of_pos scale]
  cases sign <;> simp [Sign.apply]

theorem lt_of_fine (proper : Canonical part unit) (fine : unit ≤ -46) : (part : ℚ) * 2 ^ unit < 2 ^ (7 : ℤ) := by
  have few : (part : ℚ) < 2 ^ (53 : ℤ) := by exact_mod_cast proper.below
  calc (part : ℚ) * 2 ^ unit < 2 ^ (53 : ℤ) * 2 ^ unit := mul_lt_mul_of_pos_right few (zpow_pos two_pos _)
    _ ≤ 2 ^ (53 : ℤ) * 2 ^ (-46 : ℤ) :=
      mul_le_mul_of_nonneg_left (zpow_le_zpow_right₀ one_le_two fine) (zpow_pos two_pos _).le
    _ = 2 ^ (7 : ℤ) := by norm_num

/-- To take a small number away from a large one does not change it. -/
theorem not_close_of_large (canonical : Canonical significand exponent) (proper : Canonical part unit) (sign other : Sign)
    (large : 12 ≤ exponent) (fine : unit ≤ -46) : ¬(floatOf canonical sign - floatOf proper other).abs < 1e-12 := by
  have quarter : (2 : ℚ) ^ (10 : ℤ) ≤ (double significand exponent).quarter :=
    zpow_le_zpow_right₀ one_le_two (by change 10 ≤ exponent - 2; omega)
  have value : (significand : ℚ) * 2 ^ exponent = 4 * significand * (double significand exponent).quarter :=
    Binary.value_eq_quarters (double significand exponent)
  have little := lt_of_fine proper fine
  have low := abs_sub_abs_le_abs_sub ((sign.apply significand : ℚ) * 2 ^ exponent) (other.apply part * 2 ^ unit)
  have high := abs_sub ((sign.apply significand : ℚ) * 2 ^ exponent) (other.apply part * 2 ^ unit)
  rw [abs_apply, abs_apply, value] at low high
  norm_num at quarter little
  have covers : (double significand exponent).Covers
      |(sign.apply significand : ℚ) * 2 ^ exponent - other.apply part * 2 ^ unit| := by
    have below : ((double significand exponent).lowerQuarters : ℚ) + 1 ≤ 4 * significand := by
      have nonzero : (double significand exponent).significand ≠ 0 := canonical.positive.ne'
      exact_mod_cast Binary.lowerQuarters_lt nonzero
    have above : ((double significand exponent).upperQuarters : ℚ) = 4 * significand + 2 := by
      unfold Binary.upperQuarters double
      push_cast
      rfl
    refine Binary.Covers.of_between ?_ ?_
    · nlinarith
    · rw [above]
      nlinarith
  have nonzero : (sign.apply significand : ℚ) * 2 ^ exponent - other.apply part * 2 ^ unit ≠ 0 :=
    abs_pos.mp (covers.pos canonical.positive.ne')
  obtain ⟨mark, rounds⟩ := rounds_sub canonical.positive proper.positive sign other exponent unit nonzero
  rw [sub_floatOf, rounds.eq canonical covers]
  exact abs_not_lt canonical mark (by omega)

end Differences

end Decimal

namespace Qasm.PiMultiple
open Decimal (Canonical floatOf)

def opposite (multiple : PiMultiple) : PiMultiple := ⟨-multiple.numerator, multiple.denominator⟩

theorem mem_all_iff (multiple : PiMultiple) : multiple ∈ all ↔ multiple.denominator ∈ [1, 2, 3, 4, 6, 8] ∧
    multiple.numerator ≠ 0 ∧ multiple.numerator.natAbs ≤ 16 := by
  obtain ⟨numerator, denominator⟩ := multiple
  simp only [all, List.mem_flatMap, List.mem_range, List.mem_cons, List.not_mem_nil, or_false, mk.injEq]
  constructor
  · rintro ⟨own, listed, step, small, ⟨rfl, rfl⟩ | ⟨rfl, rfl⟩⟩
    · exact ⟨listed, by omega, by omega⟩
    · exact ⟨listed, by omega, by omega⟩
  · rintro ⟨listed, nonzero, small⟩
    refine ⟨denominator, listed, numerator.natAbs - 1, by omega, ?_⟩
    rcases le_or_gt numerator 0 with negative | positive
    · exact .inr ⟨by omega, rfl⟩
    · exact .inl ⟨by omega, rfl⟩

theorem opposite_mem (multiple : PiMultiple) (member : multiple ∈ all) : multiple.opposite ∈ all := by
  obtain ⟨listed, nonzero, small⟩ := (mem_all_iff multiple).mp member
  exact (mem_all_iff _).mpr ⟨listed, neg_ne_zero.mpr nonzero, (Int.natAbs_neg _).trans_le small⟩

theorem numerator_ne_zero (multiple : PiMultiple) (member : multiple ∈ all) : multiple.numerator ≠ 0 :=
  ((mem_all_iff multiple).mp member).2.1

theorem bounds_of_mem_all (multiple : PiMultiple) (member : multiple ∈ all) : multiple.numerator.natAbs ≤ 16 ∧
    0 < multiple.denominator ∧ multiple.denominator ≤ 8 := by
  obtain ⟨listed, _, small⟩ := (mem_all_iff multiple).mp member
  simp only [List.mem_cons, List.not_mem_nil, or_false] at listed
  exact ⟨small, by omega, by omega⟩

theorem value_opposite {multiple : PiMultiple} (nonzero : multiple.numerator ≠ 0) :
    multiple.opposite.value = -multiple.value := by
  have whole : Float.ofInt (-multiple.numerator) = -Float.ofInt multiple.numerator := by
    cases numerator : multiple.numerator with
    | ofNat number =>
      cases number with
      | zero => exact absurd numerator nonzero
      | succ number => rfl
    | negSucc number => exact (neg_neg_float (Float.ofNat (number + 1))).symm
  rw [value, value, opposite, whole, neg_mul_float, neg_div_float]

theorem near?_neg {value : Float} (apart : near? value = none) : near? (-value) = none := by
  rw [near?, List.find?_eq_none] at apart ⊢
  intro multiple member near
  have other := apart multiple.opposite (opposite_mem multiple member)
  rw [value_opposite (numerator_ne_zero multiple member)] at other
  rw [← neg_neg_float multiple.value, abs_neg_sub_neg] at near
  exact other near

/-- The double nearest to π, as a fraction. -/
def piFraction : ℚ := 7074237752028440 * 2 ^ (-51 : ℤ)

theorem piValue_eq : ∃ canonical : Canonical 7074237752028440 (-51), Angle.piValue = floatOf canonical .positive :=
  Decimal.eq_floatOf (by decide +kernel) (by norm_num)

/-- Two roundings leave a multiple close to the exact one. -/
theorem value_positive {numerator denominator : Nat} (some : 0 < numerator) (few : numerator ≤ 16)
    (positive : 0 < denominator) (small : denominator ≤ 8) : ∃ significand exponent,
      ∃ canonical : Canonical significand exponent, value ⟨numerator, denominator⟩ = floatOf canonical .positive ∧
        exponent ≤ -46 ∧ |(significand : ℚ) * 2 ^ exponent - numerator * piFraction / denominator| ≤ 2 ^ (-46 : ℤ) := by
  obtain ⟨pi, circle⟩ := piValue_eq
  obtain ⟨top, scale, whole, made, large, exact⟩ := Decimal.exists_ofNat some (by omega)
  obtain ⟨bottom, unit, divisor, counted, _, same⟩ := Decimal.exists_ofNat positive (by omega)
  have one : (1 : ℚ) ≤ numerator := by exact_mod_cast some
  have most : (numerator : ℚ) ≤ 16 := by exact_mod_cast few
  have least : (1 : ℚ) ≤ denominator := by exact_mod_cast positive
  have eight : (denominator : ℚ) ≤ 8 := by exact_mod_cast small
  have low : 3 ≤ piFraction := by norm_num [piFraction]
  have high : piFraction ≤ 22 / 7 := by norm_num [piFraction]
  have product : Decimal.Rounds .positive (numerator * piFraction) (UnpackedFloat.mul Format.binary64
      (.finite .positive top scale whole.positive) (.finite .positive 7074237752028440 (-51) pi.positive)) :=
    exact ▸ Decimal.rounds_mul .positive .positive whole.positive pi.positive large
  obtain ⟨middle, power, proper, times, _, lower, near⟩ :=
    product.exists_near (by norm_num : (-1074 : ℤ) ≤ -52) (by norm_num : (-46 : ℤ) ≤ 971)
      (by norm_num; nlinarith) (by norm_num; nlinarith)
  have step : (2 : ℚ) ^ power ≤ 2 ^ (-46 : ℤ) := zpow_le_zpow_right₀ one_le_two lower
  have quotient : Decimal.Rounds .positive ((middle : ℚ) * 2 ^ power / (bottom * 2 ^ unit)) (UnpackedFloat.div Format.binary64
      (.finite .positive middle power proper.positive) (.finite .positive bottom unit divisor.positive)) :=
    Decimal.rounds_div .positive .positive proper.positive divisor.positive
  rw [same] at quotient
  generalize hm : (middle : ℚ) * 2 ^ power = result at near quotient
  obtain ⟨down, up⟩ := abs_le.mp near
  norm_num at step
  have above : 2 ≤ result := by nlinarith
  have below : result < 51 := by nlinarith
  have floor : (2 : ℚ) ^ (-55 + 53 : ℤ) ≤ result / denominator := by
    rw [le_div_iff₀ (by linarith)]
    norm_num
    linarith
  have ceiling : result / denominator < (2 : ℚ) ^ (-46 + 52 : ℤ) := by
    rw [div_lt_iff₀ (by linarith)]
    norm_num
    linarith
  obtain ⟨significand, exponent, canonical, divided, _, last, close⟩ :=
    quotient.exists_near (by norm_num) (by norm_num) floor ceiling
  have unitStep : (2 : ℚ) ^ exponent ≤ 2 ^ (-46 : ℤ) := zpow_le_zpow_right₀ one_le_two last
  refine ⟨significand, exponent, canonical, ?_, last, ?_⟩
  · change Float.ofNat numerator * Angle.piValue / Float.ofNat denominator = _
    rw [made, circle, Decimal.mul_floatOf, times]
    change floatOf proper .positive / Float.ofNat denominator = _
    rw [counted, Decimal.div_floatOf, divided]
    rfl
  · have kept : |result / denominator - numerator * piFraction / denominator| ≤ 2 ^ (-46 : ℤ) / 2 := by
      rw [← sub_div, abs_div, abs_of_pos (show (0 : ℚ) < denominator by linarith), div_le_iff₀ (by linarith)]
      norm_num
      nlinarith
    have halves : (2 : ℚ) ^ exponent / 2 + 2 ^ (-46 : ℤ) / 2 ≤ 2 ^ (-46 : ℤ) := by
      rw [← add_div, div_le_iff₀ two_pos, mul_two]
      exact add_le_add_left unitStep _
    exact (abs_sub_le _ (result / denominator) _).trans ((add_le_add close kept).trans halves)

/-- A multiple is a double of at most 2^7, and close to the exact multiple. -/
theorem value_near {multiple : PiMultiple} (member : multiple ∈ all) : ∃ sign significand exponent,
    ∃ canonical : Canonical significand exponent, multiple.value = floatOf canonical sign ∧ exponent ≤ -46 ∧
      |(sign.apply significand : ℚ) * 2 ^ exponent - multiple.numerator * piFraction / multiple.denominator| ≤
        2 ^ (-46 : ℤ) := by
  obtain ⟨few, positive, small⟩ := bounds_of_mem_all multiple member
  have nonzero := numerator_ne_zero multiple member
  obtain ⟨numerator, denominator⟩ := multiple
  dsimp only at few positive small nonzero
  obtain ⟨number, rfl | rfl⟩ := numerator.eq_nat_or_neg
  · obtain ⟨significand, exponent, canonical, same, bound, near⟩ :=
      value_positive (by omega : 0 < number) (by omega) positive small
    exact ⟨.positive, significand, exponent, canonical, same, bound, near⟩
  · obtain ⟨significand, exponent, canonical, same, bound, near⟩ :=
      value_positive (by omega : 0 < number) (by omega) positive small
    refine ⟨.negative, significand, exponent, canonical, ?_, bound, ?_⟩
    · have some : (number : ℤ) ≠ 0 := by omega
      have opposed := @value_opposite ⟨number, denominator⟩ some
      rw [same, Decimal.neg_floatOf] at opposed
      exact opposed
    · rw [← abs_neg]
      convert near using 2
      simp only [Sign.apply]
      push_cast
      ring

/-- No whole number in the text of a multiple is near an exact multiple. -/
theorem apart_of_mem_all : ∀ multiple ∈ all, ∀ number ∈ List.range' 2 15, multiple.denominator * 2 ^ 13 ≤
    ((number * multiple.denominator * 2 ^ 51 : ℕ) - multiple.numerator * 7074237752028440 : ℤ).natAbs := by
  decide +kernel

/-- A whole number is as far from the double of a multiple as from the multiple, up to the roundings. -/
theorem le_distance {multiple : PiMultiple} (member : multiple ∈ all) {number : Nat} (least : 2 ≤ number)
    (most : number ≤ 16) {value : ℚ}
    (near : |value - multiple.numerator * piFraction / multiple.denominator| ≤ 2 ^ (-46 : ℤ)) :
    2 ^ (-39 : ℤ) ≤ |number - value| := by
  have positive : (0 : ℚ) < multiple.denominator := by exact_mod_cast (bounds_of_mem_all multiple member).2.1
  have whole : (multiple.denominator : ℚ) * 2 ^ 13 ≤
      |(number : ℚ) * multiple.denominator * 2 ^ 51 - multiple.numerator * 7074237752028440| := by
    have exact := apart_of_mem_all multiple member number (List.mem_range'_1.mpr ⟨least, by omega⟩)
    rw [← Int.ofNat_le, Int.natCast_natAbs] at exact
    exact_mod_cast exact
  have apart : (2 : ℚ) ^ (-38 : ℤ) ≤ |(number : ℚ) - multiple.numerator * piFraction / multiple.denominator| := by
    have scaled : (number : ℚ) - multiple.numerator * piFraction / multiple.denominator =
        ((number : ℚ) * multiple.denominator * 2 ^ 51 - multiple.numerator * 7074237752028440) /
          (multiple.denominator * 2 ^ 51) := by
      rw [piFraction]
      field_simp
    rw [scaled, abs_div, abs_of_pos (by positivity : (0 : ℚ) < multiple.denominator * 2 ^ 51), le_div_iff₀ (by positivity)]
    norm_num at whole ⊢
    linarith
  have triangle := abs_sub_le (number : ℚ) value (multiple.numerator * piFraction / multiple.denominator)
  norm_num at apart near ⊢
  linarith

/-- The whole numbers in the texts of multiples are near none. -/
theorem near?_ofNat {number : Nat} (least : 2 ≤ number) (most : number ≤ 16) : near? (.ofNat number) = none := by
  rw [near?, List.find?_eq_none]
  intro multiple member close
  obtain ⟨whole, scale, exact, made, _, value⟩ := Decimal.exists_ofNat (by omega : 0 < number) (by omega)
  obtain ⟨sign, significand, exponent, canonical, same, fine, near⟩ := value_near member
  have first : (Sign.positive.apply whole : ℚ) * 2 ^ scale = number := value
  have below : |(number : ℚ) - sign.apply significand * 2 ^ exponent| < 2 ^ (1023 : ℤ) := by
    have few : (number : ℚ) ≤ 16 := by exact_mod_cast most
    have little := Decimal.lt_of_fine canonical fine
    have both := abs_sub (number : ℚ) (sign.apply significand * 2 ^ exponent)
    rw [Decimal.abs_apply, Nat.abs_cast] at both
    norm_num at little
    refine lt_of_le_of_lt both (lt_trans (by linarith : _ < (2 : ℚ) ^ (8 : ℤ)) (zpow_lt_zpow_right₀ one_lt_two (by norm_num)))
  refine Decimal.not_close exact canonical .positive sign ?_ ?_ (made ▸ same ▸ of_decide_eq_true close)
  · rw [first]
    exact le_distance member least most near
  · rw [first]
    exact below

/-- A number of 2^64 or more is near no small multiple. -/
theorem near?_eq_none_of_large {value : Float} {negative : Bool} {magnitude : Decimal.Binary}
    (read : Decimal.Reading.ofFloat value = .finite negative magnitude) (large : 2 ^ 64 ≤ magnitude.value) :
    near? value = none := by
  rcases Decimal.cases_finite read with ⟨-, rfl⟩ | ⟨sign, significand, exponent, canonical, rfl, rfl, rfl⟩
  · exact absurd large (by norm_num [Decimal.value_double])
  · have scale := Decimal.le_exponent_of_limit canonical large
    rw [near?, List.find?_eq_none]
    intro multiple member close
    obtain ⟨other, part, unit, proper, same, fine, _⟩ := value_near member
    exact Decimal.not_close_of_large canonical proper sign other scale fine (same ▸ of_decide_eq_true close)

end Qasm.PiMultiple

end CircuitCloak

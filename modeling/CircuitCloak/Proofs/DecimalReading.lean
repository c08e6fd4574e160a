import CircuitCloak.Decimal.Numeral
import CircuitCloak.Proofs.FloatRounding

/-! Reading decimals as doubles. A decimal is computed by one product or one quotient of exact numbers, which is
rounded once; so it is read as the double among whose reals it lies. -/

namespace CircuitCloak.Decimal
open Float.Model Float.Model.UnpackedFloat

namespace Reading

/-- What a sign, a biased exponent and a fraction stand for. -/
def ofFields (negative : Bool) (scale fraction : Nat) : Reading :=
  if scale = 0x7FF then if fraction = 0 then .infinite negative else .nan
  else if scale = 0 then .finite negative (double fraction (-1074))
  else .finite negative (double (2 ^ 52 + fraction) ((scale : ℤ) - 1075))

def ofUnpacked : UnpackedFloat → Reading
  | .notANumber => .nan
  | .infinity sign => .infinite (sign == .negative)
  | .zero sign => .finite (sign == .negative) (double 0 (-1074))
  | .finite sign significand exponent _ => .finite (sign == .negative) (double significand exponent)

end Reading

theorem toNat_one_append {size : Nat} (rest : BitVec size) : (1#1 ++ rest).toNat = 2 ^ size + rest.toNat := by
  rw [BitVec.toNat_append, ← Nat.shiftLeft_add_eq_or_of_lt rest.isLt, Nat.shiftLeft_eq]
  exact congrArg (· + rest.toNat) (Nat.one_mul _)

section Bits

variable (bits : BitVec Format.binary64.numBits)

theorem toNat_unpackMantissa : (unpackMantissa bits).toNat = bits.toNat % 2 ^ 52 := by
  rw [unpackMantissa_def, BitVec.extractLsb'_toNat, Nat.shiftRight_zero]

theorem toNat_unpackExponent : (unpackExponent bits).toNat = bits.toNat / 2 ^ 52 % 2 ^ 11 := by
  rw [unpackExponent_def, BitVec.extractLsb'_toNat, Nat.shiftRight_eq_div_pow]

theorem unpackSign_eq : (Sign.ofBitVec (unpackSign bits) == .negative) = decide (bits.toNat / 2 ^ 63 = 1) := by
  have small : bits.toNat / 2 ^ 63 < 2 := by
    have word : bits.toNat < 2 ^ 64 := bits.isLt
    omega
  have same : unpackSign bits = BitVec.ofNat 1 (bits.toNat / 2 ^ 63) := by
    apply BitVec.eq_of_toNat_eq
    rw [unpackSign_def, BitVec.extractLsb'_toNat, Nat.shiftRight_eq_div_pow, BitVec.toNat_ofNat]
    rfl
  rw [same]
  generalize bits.toNat / 2 ^ 63 = top at small
  obtain rfl | rfl : top = 0 ∨ top = 1 := by omega
  all_goals rfl

theorem ofUnpacked_unpack : Reading.ofUnpacked (UnpackedFloat.unpack Format.binary64 bits) =
    .ofFields (decide (bits.toNat / 2 ^ 63 = 1)) (bits.toNat / 2 ^ 52 % 2 ^ 11) (bits.toNat % 2 ^ 52) := by
  rw [← unpackSign_eq, ← toNat_unpackExponent, ← toNat_unpackMantissa]
  have top : unpackExponent bits = -1#_ ↔ (unpackExponent bits).toNat = 0x7FF := BitVec.toNat_inj.symm
  have bottom : unpackExponent bits = 0#_ ↔ (unpackExponent bits).toNat = 0 := BitVec.toNat_inj.symm
  have none : unpackMantissa bits = 0#_ ↔ (unpackMantissa bits).toNat = 0 := BitVec.toNat_inj.symm
  unfold UnpackedFloat.unpack Reading.ofFields
  simp only [top, bottom, none]
  split
  · split <;> rfl
  · split
    next zero =>
      split
      next empty =>
        rw [empty]
        rfl
      next =>
        rw [zero]
        rfl
    next =>
      refine Eq.trans ?_ (congrArg (fun significand => Reading.finite _ (double significand _))
        (toNat_one_append (unpackMantissa bits)))
      rfl

end Bits

theorem Reading.ofFloat_eq (value : Float) : ofFloat value = ofUnpacked value.toModel.unpack := by
  refine Eq.trans ?_ (ofUnpacked_unpack _).symm
  have sign : (value.toBits >>> 63 == 1) = decide (value.toBits.toNat / 2 ^ 63 = 1) := by
    rw [Bool.eq_iff_iff, beq_iff_eq, decide_eq_true_eq, ← UInt64.toNat_inj, UInt64.toNat_shiftRight,
      Nat.shiftRight_eq_div_pow]
    rfl
  have scale : ((value.toBits >>> 52) &&& 0x7FF).toNat = value.toBits.toNat / 2 ^ 52 % 2 ^ 11 := by
    rw [UInt64.toNat_and, UInt64.toNat_shiftRight, Nat.shiftRight_eq_div_pow]
    exact Nat.and_two_pow_sub_one_eq_mod _ 11
  have fraction : (value.toBits &&& 0xFFFFFFFFFFFFF).toNat = value.toBits.toNat % 2 ^ 52 := by
    rw [UInt64.toNat_and]
    exact Nat.and_two_pow_sub_one_eq_mod _ 52
  unfold ofFloat ofBits
  dsimp only
  rw [sign, scale, fraction]
  change _ = ofFields _ (value.toBits.toNat / 2 ^ 52 % 2 ^ 11) (value.toBits.toNat % 2 ^ 52)
  generalize value.toBits.toNat / 2 ^ 52 % 2 ^ 11 = scale
  have small : value.toBits.toNat % 2 ^ 52 < 2 ^ 52 := Nat.mod_lt _ (by decide)
  generalize value.toBits.toNat % 2 ^ 52 = fraction at small
  have narrow : (fraction == 0 && scale > 1) = decide (2 ^ 52 + fraction = 2 ^ 52 ∧ -1074 < (scale : ℤ) - 1075) := by
    rw [Bool.eq_iff_iff, Bool.and_eq_true, beq_iff_eq, decide_eq_true_eq, decide_eq_true_eq]
    omega
  have denormal : decide (fraction = 2 ^ 52 ∧ (-1074 : ℤ) < -1074) = false := decide_eq_false (by omega)
  unfold ofFields double
  simp only [beq_iff_eq, narrow, denormal]
  rfl

/-- What is unpacked from a double has the significand and the exponent of one. -/
theorem canonical_of_unpack {value : Float} {sign : Sign} {significand : Nat} {exponent : ℤ} {positive : 0 < significand}
    (unpacked : value.toModel.unpack = .finite sign significand exponent positive) : Canonical significand exponent := by
  have fields := ofUnpacked_unpack value.toModel.toBits.toBitVec
  change Reading.ofUnpacked value.toModel.unpack = _ at fields
  rw [unpacked, Reading.ofUnpacked] at fields
  have scale : value.toModel.toBits.toBitVec.toNat / 2 ^ 52 % 2 ^ 11 < 2 ^ 11 := Nat.mod_lt _ (by decide)
  have fraction : value.toModel.toBits.toBitVec.toNat % 2 ^ 52 < 2 ^ 52 := Nat.mod_lt _ (by decide)
  unfold Reading.ofFields at fields
  generalize value.toModel.toBits.toBitVec.toNat / 2 ^ 52 % 2 ^ 11 = scale at fields scale
  generalize value.toModel.toBits.toBitVec.toNat % 2 ^ 52 = fraction at fields fraction
  split at fields
  · split at fields <;> cases fields
  · split at fields
    all_goals
      simp only [Reading.finite.injEq, double, Binary.mk.injEq] at fields
      obtain ⟨_, rfl, rfl, _⟩ := fields
      exact ⟨positive, by omega, by omega, by omega, by omega⟩

theorem eq_of_unpack {value : Float} {unpacked : UnpackedFloat} (same : value.toModel.unpack = unpacked) :
    value = .ofModel (.pack unpacked) := by
  have packed : UnpackedFloat.pack Format.binary64 value.toModel.unpack = value.toModel.toBits.toBitVec :=
    pack_unpack_of_valid value.toModel.valid
  rw [← same]
  apply Float.toBits_inj.mp
  apply UInt64.toBitVec_inj.mp
  exact packed.symm

theorem finite_congr {sign : Sign} {first second : Nat} {exponent other : ℤ} {one : 0 < first} {two : 0 < second}
    (significands : first = second) (exponents : exponent = other) :
    UnpackedFloat.finite sign first exponent one = .finite sign second other two := by
  subst significands exponents
  rfl

section Packing

variable {significand : Nat} {exponent : ℤ}

theorem unpack_pack (canonical : Canonical significand exponent) (sign : Sign) :
    UnpackedFloat.unpack Format.binary64 (UnpackedFloat.pack Format.binary64
      (.finite sign significand exponent canonical.positive)) = .finite sign significand exponent canonical.positive := by
  obtain ⟨positive, below, least, greatest, full⟩ := canonical
  have logarithm : significand.log2 < 53 := (Nat.log2_lt positive.ne').mpr below
  obtain ⟨biased, same⟩ : ∃ biased, biased =
      (exponent + Format.binary64.exponentBias + Format.binary64.mantissaBitsWithoutImplicit).toNat := ⟨_, rfl⟩
  have bias : (Format.binary64.exponentBias : ℤ) = 1023 := rfl
  have fraction : (Format.binary64.mantissaBitsWithoutImplicit : ℤ) = 52 := rfl
  have number : exponent = (biased : ℤ) - 1075 := by omega
  have finite : ¬2 ^ Format.binary64.exponentBits ≤ biased + 1 := by
    change ¬2048 ≤ biased + 1
    omega
  unfold UnpackedFloat.pack
  simp only [← same]
  rw [if_neg finite]
  split
  next normal =>
    have large : 2 ^ 52 ≤ significand := by
      have size : significand.log2 = 52 := by
        change significand.log2 + 1 = 53 at normal
        omega
      rw [← size]
      exact Nat.log2_self_le positive.ne'
    have field : (BitVec.ofNat 11 biased).toNat = biased := Nat.mod_eq_of_lt (by change biased < 2048; omega)
    have others : BitVec.ofNat 11 biased ≠ -1#_ ∧ BitVec.ofNat 11 biased ≠ 0#_ := by
      refine ⟨fun top => ?_, fun bottom => ?_⟩
      · have value := congrArg BitVec.toNat top
        rw [field] at value
        change biased = 2047 at value
        change ¬2048 ≤ biased + 1 at finite
        omega
      · have value := congrArg BitVec.toNat bottom
        rw [field] at value
        change biased = 0 at value
        omega
    unfold UnpackedFloat.unpack
    simp only [unpackExponent_packComponents, unpackMantissa_packComponents, unpackSign_packComponents,
      Sign.ofBitVec_toBitVec]
    rw [if_neg others.1, if_neg others.2]
    refine finite_congr ?_ ?_
    · rw [toNat_one_append, BitVec.toNat_ofNat]
      omega
    · rw [field, number]
      rfl
  next subnormal =>
    have small : significand < 2 ^ 52 := by
      change ¬significand.log2 + 1 = 53 at subnormal
      exact (Nat.log2_lt positive.ne').mp (by omega)
    have field : (BitVec.ofNat 52 significand).toNat = significand := Nat.mod_eq_of_lt small
    have nonzero : BitVec.ofNat 52 significand ≠ 0#_ := by
      intro empty
      have value := congrArg BitVec.toNat empty
      rw [field] at value
      exact positive.ne' value
    have lowest : exponent = -1074 := by
      by_contra other
      have := full (by omega)
      omega
    have zero : 0#(Format.binary64.exponentBits) ≠ -1#_ := by decide
    unfold UnpackedFloat.unpack
    simp only [unpackExponent_packComponents, unpackMantissa_packComponents, unpackSign_packComponents,
      Sign.ofBitVec_toBitVec]
    rw [if_neg zero, if_pos trivial, dif_neg nonzero]
    refine finite_congr field ?_
    rw [lowest]
    rfl

/-- The double with a given sign, significand and exponent. -/
def floatOf (canonical : Canonical significand exponent) (sign : Sign) : Float :=
  .ofModel (.pack (.finite sign significand exponent canonical.positive))

theorem unpack_floatOf (canonical : Canonical significand exponent) (sign : Sign) :
    (floatOf canonical sign).toModel.unpack = .finite sign significand exponent canonical.positive :=
  unpack_pack canonical sign

theorem mul_floatOf {part : Nat} {unit : ℤ} (canonical : Canonical significand exponent) (other : Canonical part unit)
    (one two : Sign) : floatOf canonical one * floatOf other two = .ofModel (.pack (UnpackedFloat.mul Format.binary64
      (.finite one significand exponent canonical.positive) (.finite two part unit other.positive))) := by
  change Float.ofModel (.pack (UnpackedFloat.mul _ (floatOf canonical one).toModel.unpack
    (floatOf other two).toModel.unpack)) = _
  rw [unpack_floatOf, unpack_floatOf]

theorem div_floatOf {part : Nat} {unit : ℤ} (canonical : Canonical significand exponent) (other : Canonical part unit)
    (one two : Sign) : floatOf canonical one / floatOf other two = .ofModel (.pack (UnpackedFloat.div Format.binary64
      (.finite one significand exponent canonical.positive) (.finite two part unit other.positive))) := by
  change Float.ofModel (.pack (UnpackedFloat.div _ (floatOf canonical one).toModel.unpack
    (floatOf other two).toModel.unpack)) = _
  rw [unpack_floatOf, unpack_floatOf]

theorem sub_floatOf {part : Nat} {unit : ℤ} (canonical : Canonical significand exponent) (other : Canonical part unit)
    (one two : Sign) : floatOf canonical one - floatOf other two = .ofModel (.pack (UnpackedFloat.sub Format.binary64
      (.finite one significand exponent canonical.positive) (.finite two part unit other.positive))) := by
  change Float.ofModel (.pack (UnpackedFloat.sub _ (floatOf canonical one).toModel.unpack
    (floatOf other two).toModel.unpack)) = _
  rw [unpack_floatOf, unpack_floatOf]

theorem ofFloat_floatOf (canonical : Canonical significand exponent) (sign : Sign) :
    Reading.ofFloat (floatOf canonical sign) = .finite (sign == .negative) (double significand exponent) := by
  rw [Reading.ofFloat_eq, unpack_floatOf]
  rfl

theorem zero_beq : ((0 : Float) == 0) = true ∧ ((-0 : Float) == 0) = true := by decide +kernel

theorem floatOf_beq_zero (canonical : Canonical significand exponent) (sign : Sign) :
    (floatOf canonical sign == 0) = false := by
  have zeros : (0 : Float).toModel.unpack = .zero .positive ∧ (-0 : Float).toModel.unpack = .zero .negative := by
    exact ⟨rfl, rfl⟩
  have unpacked := unpack_floatOf canonical sign
  refine Bool.eq_false_iff.mpr fun zero => ?_
  obtain ⟨_, _, same | ⟨same, _⟩ | ⟨same, _⟩⟩ := Float.beq_iff_ne_nan_and_eq.mp zero
  · rw [same, zeros.1] at unpacked
    cases unpacked
  · rw [same, zeros.1] at unpacked
    cases unpacked
  · rw [same, zeros.2] at unpacked
    cases unpacked

/-- A finite number is a zero, or has a sign, a significand and an exponent. -/
theorem cases_finite {value : Float} {negative : Bool} {magnitude : Binary}
    (read : Reading.ofFloat value = .finite negative magnitude) :
    ((value == 0) = true ∧ magnitude = double 0 (-1074)) ∨
      ∃ sign significand exponent, ∃ canonical : Canonical significand exponent, value = floatOf canonical sign ∧
        negative = (sign == .negative) ∧ magnitude = double significand exponent := by
  rw [Reading.ofFloat_eq] at read
  cases unpacked : value.toModel.unpack with
  | notANumber | infinity =>
    rw [unpacked] at read
    cases read
  | zero sign =>
    rw [unpacked] at read
    cases read
    refine .inl ⟨?_, rfl⟩
    rw [eq_of_unpack unpacked]
    cases sign <;> decide +kernel
  | finite sign significand exponent positive =>
    rw [unpacked] at read
    cases read
    exact .inr ⟨sign, significand, exponent, canonical_of_unpack unpacked, eq_of_unpack unpacked, rfl, rfl⟩

theorem eq_floatOf {value : Float} (read : Reading.ofFloat value = .finite false (double significand exponent))
    (positive : 0 < significand) : ∃ canonical : Canonical significand exponent, value = floatOf canonical .positive := by
  rcases cases_finite read with ⟨-, zero⟩ | ⟨sign, number, unit, canonical, rfl, mark, same⟩
  · exact absurd (congrArg Binary.significand zero) positive.ne'
  · obtain rfl : significand = number := congrArg Binary.significand same
    obtain rfl : exponent = unit := congrArg Binary.exponent same
    cases sign with
    | positive => exact ⟨canonical, rfl⟩
    | negative => cases mark

end Packing

section Operations

variable {significand : Nat} {exponent : ℤ} {point : ℚ}

/-- A number of enough bits is rounded from its own unit. -/
theorem fine_of_large {given : Nat} (unit : ℤ) (large : 2 ^ 52 ≤ given) :
    unit ≤ Format.binary64.targetExponent (totalExponent given unit) := by
  have bits : 52 ≤ given.log2 := (Nat.le_log2 (by omega)).mpr large
  rw [targetExponent_eq, totalExponent]
  omega

/-- A magnitude that is known exactly is rounded from its own unit, or from a finer one if it has few bits. -/
theorem rounds_round (sign : Sign) {number : Nat} (positive : 0 < number) (unit : ℤ) :
    Rounds sign (number * 2 ^ unit) (UnpackedFloat.round Format.binary64 sign number unit) := by
  obtain ⟨target, named⟩ : ∃ target, target = Format.binary64.targetExponent (totalExponent number unit) := ⟨_, rfl⟩
  obtain ⟨shift, amount⟩ : ∃ shift : Nat, shift = (unit - target).toNat := ⟨_, rfl⟩
  have total : totalExponent (number * 2 ^ shift) (unit - shift) = totalExponent number unit := by
    have bits : (number * 2 ^ shift).log2 = number.log2 + shift := by
      refine (Nat.log2_eq_iff (Nat.mul_ne_zero positive.ne' (Nat.two_pow_pos shift).ne')).mpr ⟨?_, ?_⟩
      · rw [pow_add]
        exact Nat.mul_le_mul_right _ (Nat.log2_self_le positive.ne')
      · rw [Nat.add_right_comm, pow_add]
        exact Nat.mul_lt_mul_of_pos_right Nat.lt_log2_self (Nat.two_pow_pos shift)
    unfold totalExponent
    rw [bits]
    push_cast
    ring
  refine ⟨number * 2 ^ shift, unit - shift, .exact, ?_, ?_, ?_⟩
  · change _ / _ = _
    rw [zpow_sub₀ two_ne_zero, zpow_natCast]
    push_cast
    field_simp
  · rw [total, ← named]
    omega
  · unfold UnpackedFloat.round decreaseExponent
    dsimp only
    rw [← named, ← amount, Nat.shiftLeft_eq]

theorem normalize_apply (sign : Sign) {number : Nat} (positive : 0 < number) (unit : ℤ) :
    UnpackedFloat.normalize Format.binary64 (sign.apply number) unit .positive =
      UnpackedFloat.round Format.binary64 sign number unit := by
  have above : (0 : ℤ) < number := Int.natCast_pos.mpr positive
  unfold UnpackedFloat.normalize
  cases sign with
  | positive =>
    rw [Sign.apply, compare_gt_iff_gt.mpr above]
    rfl
  | negative =>
    rw [Sign.apply, compare_lt_iff_lt.mpr (neg_lt_zero.mpr above), neg_neg]
    rfl

theorem rounds_mul (sign other : Sign) {first second : Nat} {one two : ℤ} (positive : 0 < first) (nonzero : 0 < second)
    (large : 2 ^ 52 ≤ first) : Rounds (sign * other) (first * 2 ^ one * (second * 2 ^ two))
      (UnpackedFloat.mul Format.binary64 (.finite sign first one positive) (.finite other second two nonzero)) := by
  refine ⟨first * second, one + two, .exact, ?_, fine_of_large _ (by nlinarith), rfl⟩
  change _ / _ = _
  rw [zpow_add₀ two_ne_zero]
  push_cast
  field_simp

theorem mul_eq (canonical : Canonical significand exponent) (covers : (double significand exponent).Covers point)
    {first second : Nat} {one other : ℤ} (positive : 0 < first) (nonzero : 0 < second)
    (product : point = first * 2 ^ one * (second * 2 ^ other)) (large : 2 ^ 52 ≤ first) :
    UnpackedFloat.mul Format.binary64 (.finite .positive first one positive) (.finite .positive second other nonzero) =
      .finite .positive significand exponent canonical.positive :=
  (rounds_mul .positive .positive positive nonzero large).eq canonical (product ▸ covers)

theorem lies_accuracyOfFraction {whole part total : Nat} (less : part < total) :
    Lies whole (accuracyOfFraction part total) (whole + part / total) := by
  have positive : (0 : ℚ) < total := by exact_mod_cast Nat.zero_lt_of_lt less
  have below : (part : ℚ) / total < 1 := (div_lt_one positive).mpr (by exact_mod_cast less)
  unfold accuracyOfFraction
  split
  next none =>
    change (whole : ℚ) + part / total = whole
    rw [none, Nat.cast_zero, zero_div, add_zero]
  next some =>
    have above : (0 : ℚ) < part / total := div_pos (by exact_mod_cast Nat.pos_of_ne_zero some) positive
    cases side : compare (2 * part) total with
    | lt =>
      have half : (part : ℚ) / total < 1 / 2 := by
        rw [div_lt_div_iff₀ positive two_pos]
        exact_mod_cast (by have := Nat.compare_eq_lt.mp side; omega : part * 2 < 1 * total)
      exact ⟨by linarith, by linarith⟩
    | eq =>
      have half : (part : ℚ) / total = 1 / 2 := by
        rw [div_eq_div_iff positive.ne' two_ne_zero]
        exact_mod_cast (by have := Nat.compare_eq_eq.mp side; omega : part * 2 = 1 * total)
      change (whole : ℚ) + part / total = whole + 1 / 2
      rw [half]
    | gt =>
      have half : (1 : ℚ) / 2 < part / total := by
        rw [div_lt_div_iff₀ two_pos positive]
        exact_mod_cast (by have := Nat.compare_eq_gt.mp side; omega : 1 * total < part * 2)
      exact ⟨by linarith, by linarith⟩

theorem rounds_div (sign other : Sign) {first second : Nat} {one two : ℤ} (positive : 0 < first) (nonzero : 0 < second) :
    Rounds (sign / other) (first * 2 ^ one / (second * 2 ^ two))
      (UnpackedFloat.div Format.binary64 (.finite sign first one positive) (.finite other second two nonzero)) := by
  obtain ⟨unit, named⟩ : ∃ unit, unit = min (one - two)
      (Format.binary64.targetExponent (totalExponent first one - totalExponent second two)) := ⟨_, rfl⟩
  obtain ⟨count, shift⟩ : ∃ count : Nat, one - two - unit = count := ⟨(one - two - unit).toNat, by omega⟩
  have divisor : (second : ℚ) ≠ 0 := by exact_mod_cast nonzero.ne'
  have lies : Lies ((first <<< count) / second) (accuracyOfFraction ((first <<< count) % second) second)
      ((first : ℚ) * 2 ^ one / (second * 2 ^ two) / 2 ^ unit) := by
    have same : (first : ℚ) * 2 ^ one / (second * 2 ^ two) / 2 ^ unit =
        ((first <<< count) / second : Nat) + ((first <<< count) % second : Nat) / second := by
      have divided : ((first <<< count : Nat) : ℚ) =
          second * ((first <<< count) / second : Nat) + ((first <<< count) % second : Nat) := by
        exact_mod_cast (Nat.div_add_mod (first <<< count) second).symm
      have scaled : (first : ℚ) * 2 ^ one / (second * 2 ^ two) / 2 ^ unit = (first <<< count : Nat) / second := by
        have power : (2 : ℚ) ^ one = 2 ^ count * 2 ^ unit * 2 ^ two := by
          rw [← zpow_natCast, ← shift, ← zpow_add₀ two_ne_zero, ← zpow_add₀ two_ne_zero]
          congr 1
          omega
        rw [power, Nat.shiftLeft_eq]
        push_cast
        field_simp
      rw [scaled, divided, add_div, mul_div_cancel_left₀ _ divisor]
    rw [same]
    exact lies_accuracyOfFraction (Nat.mod_lt _ nonzero)
  have fine : unit ≤ Format.binary64.targetExponent (totalExponent ((first <<< count) / second) unit) := by
    by_cases lowest : unit ≤ -1074
    · rw [targetExponent_eq]
      omega
    · apply fine_of_large
      rw [targetExponent_eq, totalExponent, totalExponent] at named
      apply (Nat.le_div_iff_mul_le nonzero).mpr
      have log : second < 2 ^ (second.log2 + 1) := Nat.lt_log2_self
      calc 2 ^ 52 * second ≤ 2 ^ 52 * 2 ^ (second.log2 + 1) := Nat.mul_le_mul_left _ log.le
        _ = 2 ^ (52 + (second.log2 + 1)) := (pow_add 2 52 (second.log2 + 1)).symm
        _ ≤ 2 ^ (first.log2 + count) := Nat.pow_le_pow_right (by decide) (by omega)
        _ = 2 ^ first.log2 * 2 ^ count := pow_add 2 _ _
        _ ≤ first * 2 ^ count := Nat.mul_le_mul_right _ (Nat.log2_self_le positive.ne')
        _ = first <<< count := (Nat.shiftLeft_eq first count).symm
  have core : divCore Format.binary64 first one second two =
      ((first <<< count) / second, unit, accuracyOfFraction ((first <<< count) % second) second) := by
    unfold divCore
    simp only [← named, shift]
    rfl
  refine ⟨_, unit, _, lies, fine, ?_⟩
  unfold UnpackedFloat.div
  dsimp only
  rw [core]

theorem div_eq (canonical : Canonical significand exponent) (covers : (double significand exponent).Covers point)
    {first second : Nat} {one other : ℤ} (positive : 0 < first) (nonzero : 0 < second)
    (quotient : point = first * 2 ^ one / (second * 2 ^ other)) :
    UnpackedFloat.div Format.binary64 (.finite .positive first one positive) (.finite .positive second other nonzero) =
      .finite .positive significand exponent canonical.positive :=
  (rounds_div .positive .positive positive nonzero).eq canonical (quotient ▸ covers)

end Operations

section Decimals

variable {significand : Nat} {exponent : ℤ} {point : ℚ}

theorem tiny_lt : (10 : ℚ) ^ (-324 : ℤ) < 2 ^ (-1075 : ℤ) := by
  have power : 2 ^ 1075 < 10 ^ 324 := by
    calc 2 ^ 1075 = (2 ^ 215) ^ 5 := by rw [← pow_mul]
      _ < (10 ^ 162) ^ 2 := by norm_num
      _ = 10 ^ 324 := by rw [← pow_mul]
  rw [zpow_neg, zpow_neg]
  apply inv_strictAnti₀ (zpow_pos two_pos _)
  exact_mod_cast power

theorem lt_huge : (2 : ℚ) ^ (1024 : ℤ) < 10 ^ (309 : ℤ) := by
  have power : 2 ^ 1024 < 10 ^ 309 := by
    calc 2 ^ 1024 = (2 ^ 128) ^ 8 := by rw [← pow_mul]
      _ < (10 ^ 103) ^ 3 := by norm_num
      _ = 10 ^ 309 := by rw [← pow_mul]
  exact_mod_cast power

theorem bounds_of_covers (canonical : Canonical significand exponent)
    (covers : (double significand exponent).Covers point) :
    (2 : ℚ) ^ (-1075 : ℤ) ≤ point ∧ point < 2 ^ (1024 : ℤ) := by
  have unit : (0 : ℚ) < 2 ^ exponent := zpow_pos two_pos _
  have bound := lowerQuarters_double canonical
  obtain ⟨low, high⟩ := covers.scaled.1
  rw [le_div_iff₀ unit] at low
  rw [div_le_iff₀ unit] at high
  constructor
  · have one : (1 : ℚ) ≤ significand := by exact_mod_cast canonical.positive
    have least : (2 : ℚ) ^ (-1074 : ℤ) ≤ 2 ^ exponent := zpow_le_zpow_right₀ one_le_two canonical.least
    have half : (2 : ℚ) * 2 ^ (-1075 : ℤ) = 2 ^ (-1074 : ℤ) := (zpow_one_add₀ two_ne_zero _).symm
    generalize (2 : ℚ) ^ (-1075 : ℤ) = bottom at half ⊢
    generalize (2 : ℚ) ^ (-1074 : ℤ) = unit at least half
    nlinarith
  · have below : (significand : ℚ) + 1 ≤ 2 ^ 53 := by exact_mod_cast canonical.below
    have greatest : (2 : ℚ) ^ exponent ≤ 2 ^ (971 : ℤ) := zpow_le_zpow_right₀ one_le_two canonical.greatest
    have whole : (2 : ℚ) ^ (1024 : ℤ) = 2 ^ 53 * 2 ^ (971 : ℤ) := by
      rw [← zpow_natCast, ← zpow_add₀ two_ne_zero]
      rfl
    rw [whole]
    generalize (2 : ℚ) ^ (971 : ℤ) = unit at greatest ⊢
    nlinarith

/-- Decimals that round to a double have no exponents far out of range. -/
theorem exponent_bounds (canonical : Canonical significand exponent) {digits : Nat} {power : ℤ}
    (covers : (double significand exponent).Covers (digits * 10 ^ power)) {size : Nat}
    (low : 10 ^ size ≤ digits) (high : digits < 10 ^ (size + 1)) : -324 ≤ power + size ∧ power + size ≤ 308 := by
  obtain ⟨above, below⟩ := bounds_of_covers canonical covers
  have ten : (0 : ℚ) < 10 ^ power := zpow_pos (by norm_num) _
  have lower : (10 : ℚ) ^ (power + size) ≤ digits * 10 ^ power := by
    rw [zpow_add₀ (by norm_num), zpow_natCast, mul_comm]
    exact mul_le_mul_of_nonneg_right (by exact_mod_cast low) ten.le
  have upper : (digits : ℚ) * 10 ^ power < 10 ^ (power + size + 1) := by
    rw [add_assoc, add_comm, zpow_add₀ (by norm_num)]
    exact mul_lt_mul_of_pos_right (by exact_mod_cast high) ten
  constructor
  · by_contra less
    have small : (10 : ℚ) ^ (power + size + 1) ≤ 10 ^ (-324 : ℤ) := zpow_le_zpow_right₀ (by norm_num) (by omega)
    exact absurd (upper.trans_le small) (tiny_lt.trans_le above).not_gt
  · by_contra more
    have large : (10 : ℚ) ^ (309 : ℤ) ≤ 10 ^ (power + size) := zpow_le_zpow_right₀ (by norm_num) (by omega)
    exact absurd (large.trans lower) (below.trans lt_huge).not_ge

theorem exists_size {digits : Nat} (nonzero : digits ≠ 0) : ∃ size, 10 ^ size ≤ digits ∧ digits < 10 ^ (size + 1) ∧
    (Nat.toDigits 10 digits).length = size + 1 := by
  obtain ⟨size, length⟩ : ∃ size, (Nat.toDigits 10 digits).length = size + 1 :=
    ⟨_, (Nat.succ_pred_eq_of_pos Nat.length_toDigits_pos).symm⟩
  refine ⟨size, ?_, (Nat.length_toDigits_le_iff (by decide) (Nat.succ_pos size)).mp length.le, length⟩
  cases size with
  | zero => exact Nat.one_le_iff_ne_zero.mpr nonzero
  | succ size =>
    by_contra less
    have short := (Nat.length_toDigits_le_iff (by decide) (Nat.succ_pos size)).mpr (Nat.lt_of_not_le less)
    omega

theorem digits_ne_zero (canonical : Canonical significand exponent) {digits : Nat} {power : ℤ}
    (covers : (double significand exponent).Covers (digits * 10 ^ power)) : digits ≠ 0 := by
  rintro rfl
  have positive := covers.pos canonical.positive.ne'
  rw [Nat.cast_zero, zero_mul] at positive
  exact positive.false

/-- A decimal that rounds to a double is computed as that double. -/
theorem ofScientific_eq (canonical : Canonical significand exponent) {digits : Nat} {power : ℤ}
    (covers : (double significand exponent).Covers (digits * 10 ^ power)) :
    UnpackedFloat.ofScientific Format.binary64 digits power =
      .finite .positive significand exponent canonical.positive := by
  have nonzero := digits_ne_zero canonical covers
  obtain ⟨size, low, high, _⟩ := exists_size nonzero
  obtain ⟨least, greatest⟩ := exponent_bounds canonical covers low high
  have bits : size ≤ digits.log2 :=
    (Nat.le_log2 nonzero).mpr (Nat.le_trans (Nat.pow_le_pow_left (by decide) size) low)
  have range : ¬power > 2 ^ Format.binary64.exponentBits ∧
      ¬power < -((2 ^ Format.binary64.exponentBits : ℤ) + digits.log2) := by
    change ¬power > 2048 ∧ ¬power < -(2048 + (digits.log2 : ℤ))
    omega
  unfold UnpackedFloat.ofScientific
  rw [dif_neg nonzero, if_neg range.1, if_neg range.2]
  split
  next whole =>
    apply mul_eq canonical covers
    · have power : (10 : ℚ) ^ power = 10 ^ power.toNat := by
        rw [← zpow_natCast, Int.toNat_of_nonneg whole]
      rw [power, Nat.shiftLeft_eq]
      push_cast
      rw [zpow_neg, zpow_natCast, mul_one]
      field_simp
    · rw [Nat.shiftLeft_eq]
      exact Nat.le_trans (Nat.pow_le_pow_right (by decide) (by decide)) (Nat.le_mul_of_pos_left _ (Nat.pos_of_ne_zero nonzero))
  next part =>
    apply div_eq canonical covers
    have power : (10 : ℚ) ^ power = 1 / 10 ^ (-power).toNat := by
      rw [← zpow_natCast, Int.toNat_of_nonneg (by omega), zpow_neg, one_div, inv_inv]
    rw [power]
    push_cast
    field_simp

/-- A whole number of at most 53 bits is exact, with all of them. -/
theorem ofNat_eq {number : Nat} (positive : 0 < number) (small : number < 2 ^ 53) : ∃ full unit,
    ∃ canonical : Canonical full unit, UnpackedFloat.ofNat Format.binary64 number =
      .finite .positive full unit canonical.positive ∧ 2 ^ 52 ≤ full ∧ (full : ℚ) * 2 ^ unit = number := by
  have bits : number.log2 < 53 := (Nat.log2_lt positive.ne').mpr small
  obtain ⟨count, shift⟩ : ∃ count, number.log2 + count = 52 := ⟨52 - number.log2, by omega⟩
  have least : 2 ^ 52 ≤ number * 2 ^ count := by
    rw [← shift, pow_add]
    exact Nat.mul_le_mul_right _ (Nat.log2_self_le positive.ne')
  have most : number * 2 ^ count < 2 ^ 53 := by
    rw [show 53 = number.log2 + 1 + count by omega, pow_add]
    exact Nat.mul_lt_mul_of_pos_right Nat.lt_log2_self (Nat.two_pow_pos count)
  have canonical : Canonical (number * 2 ^ count) (-count : ℤ) := ⟨by omega, most, by omega, by omega, fun _ => least⟩
  have value : ((number * 2 ^ count : Nat) : ℚ) * 2 ^ (-count : ℤ) = number := by
    push_cast
    rw [zpow_neg, zpow_natCast]
    field_simp
  have covers : (double (number * 2 ^ count) (-count)).Covers (number * 2 ^ (0 : ℤ)) := by
    have nonzero : (double (number * 2 ^ count) (-count)).significand ≠ 0 := canonical.positive.ne'
    have self := Binary.covers_value nonzero
    rwa [Binary.value, double, value, ← mul_one (number : ℚ), ← zpow_zero (2 : ℚ)] at self
  refine ⟨_, _, canonical, ?_, least, value⟩
  exact (normalize_apply .positive positive 0).trans ((rounds_round .positive positive 0).eq canonical covers)

def isPowerOfTen (count : Nat) (value : Float) : Bool :=
  match value.toModel.unpack with
  | .finite .positive significand exponent _ =>
    significand * 2 ^ exponent.toNat == 10 ^ count * 2 ^ (-exponent).toNat
  | _ => false

theorem exists_power {count : Nat} {value : Float} (power : isPowerOfTen count value = true) :
    ∃ significand exponent positive, value.toModel.unpack = .finite .positive significand exponent positive ∧
      (significand : ℚ) * 2 ^ exponent = 10 ^ count := by
  unfold isPowerOfTen at power
  split at power
  next significand exponent positive unpacked =>
    have same : (significand : ℚ) * 2 ^ exponent.toNat = 10 ^ count * 2 ^ (-exponent).toNat := by
      exact_mod_cast beq_iff_eq.mp power
    refine ⟨significand, exponent, positive, unpacked, ?_⟩
    rw [zpow_eq_quotient two_ne_zero, mul_div_assoc', same, mul_div_cancel_right₀ _ (pow_ne_zero _ two_ne_zero)]
  next => cases power

theorem isPowerOfTen_table : ∀ place : Fin Float.exactlyRepresentablePowersOfTen.size,
    isPowerOfTen place Float.exactlyRepresentablePowersOfTen[place] = true := by
  decide +kernel

theorem float_ofScientific_eq (canonical : Canonical significand exponent) {digits count : Nat} {negative : Bool}
    (covers : (double significand exponent).Covers (digits * 10 ^ (if negative then -(count : ℤ) else count))) :
    Float.ofScientific digits negative count = floatOf canonical .positive := by
  unfold Float.ofScientific
  split
  next quick =>
    obtain ⟨small, few⟩ := quick
    have positive := Nat.pos_of_ne_zero (digits_ne_zero canonical covers)
    obtain ⟨full, unit, whole, made, large, value⟩ := ofNat_eq positive small
    have loaded : digits.toUInt64.toFloat = floatOf whole .positive := by
      have number : digits.toUInt64.toNat = digits := Nat.mod_eq_of_lt (Nat.lt_trans small (by decide))
      change Float.ofModel (.pack (UnpackedFloat.ofNat Format.binary64 digits.toUInt64.toNat)) = _
      rw [number, made]
      rfl
    have inside : count < Float.exactlyRepresentablePowersOfTen.size := Nat.lt_succ_of_le few
    have table : isPowerOfTen count Float.exactlyRepresentablePowersOfTen[count] = true :=
      isPowerOfTen_table ⟨count, inside⟩
    obtain ⟨ten, power, nonzero, unpacked, tenValue⟩ := exists_power table
    dsimp only
    rw [loaded]
    cases negative with
    | true =>
      have quotient : (digits : ℚ) * 10 ^ (-(count : ℤ)) = full * 2 ^ unit / (ten * 2 ^ power) := by
        rw [value, tenValue, zpow_neg, zpow_natCast]
        rfl
      have divided := div_eq canonical covers whole.positive nonzero quotient
      change Float.ofModel (.pack (UnpackedFloat.div Format.binary64 (floatOf whole .positive).toModel.unpack
        Float.exactlyRepresentablePowersOfTen[count].toModel.unpack)) = _
      rw [unpack_floatOf, unpacked, divided]
      rfl
    | false =>
      have product : (digits : ℚ) * 10 ^ (count : ℤ) = full * 2 ^ unit * (ten * 2 ^ power) := by
        rw [value, tenValue, zpow_natCast]
      have multiplied := mul_eq canonical covers whole.positive nonzero product large
      change Float.ofModel (.pack (UnpackedFloat.mul Format.binary64 (floatOf whole .positive).toModel.unpack
        Float.exactlyRepresentablePowersOfTen[count].toModel.unpack)) = _
      rw [unpack_floatOf, unpacked, multiplied]
      rfl
  next =>
    have exponent : (if negative = true then Int.negOfNat count else Int.ofNat count) =
        if negative = true then -(count : ℤ) else count := by
      split
      · exact Int.negOfNat_eq
      · rfl
    dsimp only
    change Float.ofModel (.pack (UnpackedFloat.ofScientific Format.binary64 digits _)) = _
    rw [exponent, ofScientific_eq canonical covers]
    rfl

theorem float_ofNat_eq (canonical : Canonical significand exponent) {number : Nat}
    (covers : (double significand exponent).Covers number) : Float.ofNat number = floatOf canonical .positive := by
  apply float_ofScientific_eq canonical
  change (double significand exponent).Covers (number * 10 ^ (0 : ℤ))
  rwa [zpow_zero, mul_one]

def Numeral.value (numeral : Numeral) : ℚ := numeral.digits * 10 ^ numeral.exponent

/-- A numeral is read as the double that it rounds to. -/
theorem toFloat_eq (canonical : Canonical significand exponent) {numeral : Numeral}
    (covers : (double significand exponent).Covers numeral.value) : numeral.toFloat = floatOf canonical .positive := by
  have nonzero := digits_ne_zero canonical covers
  obtain ⟨size, low, high, length⟩ := exists_size nonzero
  obtain ⟨least, greatest⟩ := exponent_bounds canonical covers low high
  have vanishes : numeral.vanishes = false := by
    unfold Numeral.vanishes
    rw [length, decide_eq_false nonzero, Bool.false_or]
    exact decide_eq_false (by omega)
  have overflows : numeral.overflows = false := by
    unfold Numeral.overflows
    rw [length]
    exact decide_eq_false (by omega)
  unfold Numeral.toFloat
  rw [vanishes, overflows, if_neg Bool.false_ne_true, if_neg Bool.false_ne_true]
  apply float_ofScientific_eq canonical
  have power : (if decide (numeral.exponent < 0) = true then -(numeral.exponent.natAbs : ℤ) else numeral.exponent.natAbs) =
      numeral.exponent := by
    by_cases negative : numeral.exponent < 0
    · rw [if_pos (decide_eq_true negative)]
      omega
    · rw [if_neg (Bool.not_eq_true _ ▸ decide_eq_false negative)]
      omega
  rw [power]
  exact covers

end Decimals

end CircuitCloak.Decimal

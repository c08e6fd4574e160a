import CircuitCloak.Proofs.DecimalReading
import CircuitCloak.Proofs.SharedObservations

/-! The accuracy of a histogram against itself. Products and quotients of whole numbers that fit the bits of a double
are rounded to themselves, so all of the observations are exactly a hundred percent of them. -/

namespace CircuitCloak

namespace Decimal
open Float.Model Float.Model.UnpackedFloat

variable {first second number : Nat} {one two both : Float}

/-- The double is the whole number, with all bits that a double has. -/
def Represents (number : Nat) (value : Float) : Prop :=
  ∃ full unit, ∃ canonical : Canonical full unit,
    value = floatOf canonical .positive ∧ 2 ^ 52 ≤ full ∧ (full : ℚ) * 2 ^ unit = number

/-- A whole number in all bits is the only double that it lies near. -/
theorem covers_of_value {full : Nat} {unit : ℤ} (canonical : Canonical full unit)
    (value : (full : ℚ) * 2 ^ unit = number) : (double full unit).Covers number := by
  have self : (double full unit).Covers (double full unit).value := Binary.covers_value canonical.positive.ne'
  rwa [Binary.value, double, value] at self

theorem represents_of_made {value : Float} (positive : 0 < number) (small : number < 2 ^ 53)
    (made : value = .ofModel (.pack (UnpackedFloat.ofNat Format.binary64 number))) : Represents number value := by
  obtain ⟨full, unit, canonical, whole, large, same⟩ := ofNat_eq positive small
  exact ⟨full, unit, canonical, made.trans (by rw [whole]; rfl), large, same⟩

theorem exists_represents (positive : 0 < number) (small : number < 2 ^ 53) : ∃ value, Represents number value :=
  ⟨_, represents_of_made positive small rfl⟩

theorem represents_toFloat {count : UInt64} (positive : 0 < count.toNat) (small : count.toNat < 2 ^ 53) :
    Represents count.toNat count.toFloat :=
  represents_of_made positive small rfl

theorem represents_ofNat (positive : 0 < number) (small : number < 2 ^ 53) :
    Represents number (Float.ofNat number) := by
  obtain ⟨full, unit, canonical, _, large, value⟩ := ofNat_eq positive small
  exact ⟨full, unit, canonical, float_ofNat_eq canonical (covers_of_value canonical value), large, value⟩

namespace Represents

theorem mul_eq (left : Represents first one) (right : Represents second two)
    (product : Represents (first * second) both) : one * two = both := by
  obtain ⟨full, unit, canonical, rfl, large, value⟩ := left
  obtain ⟨part, scale, other, rfl, _, factor⟩ := right
  obtain ⟨_, _, result, rfl, _, total⟩ := product
  have point : ((first * second : Nat) : ℚ) = full * 2 ^ unit * (part * 2 ^ scale) := by
    rw [value, factor, Nat.cast_mul]
  rw [mul_floatOf, Decimal.mul_eq result (covers_of_value result total) _ _ point large]
  rfl

theorem div_eq (product : Represents (first * second) both) (right : Represents second two)
    (left : Represents first one) : both / two = one := by
  obtain ⟨full, unit, canonical, rfl, _, total⟩ := product
  obtain ⟨part, scale, other, rfl, _, factor⟩ := right
  obtain ⟨_, _, result, rfl, _, value⟩ := left
  have nonzero : (part : ℚ) * 2 ^ scale ≠ 0 :=
    mul_ne_zero (Nat.cast_ne_zero.mpr other.positive.ne') (zpow_ne_zero _ two_ne_zero)
  have point : (first : ℚ) = full * 2 ^ unit / (part * 2 ^ scale) := by
    rw [eq_div_iff nonzero, total, factor, Nat.cast_mul]
  rw [div_floatOf, Decimal.div_eq result (covers_of_value result value) _ _ point]
  rfl

end Represents

end Decimal

namespace Counts

variable {counts : Counts}

/-- A histogram shares all of its observations with itself. -/
theorem shared_self (distinct : counts.Distinct) : counts.shared counts = counts.total := by
  apply List.foldr_ext
  intro entry member sum
  rw [get_of_mem distinct member, Std.min_self]

/-- As long as a hundred times the observations fit the bits of a double. -/
theorem accuracy_self (distinct : counts.Distinct) (some : counts.total.toNat ≠ 0)
    (small : 100 * counts.total.toNat < 2 ^ 53) : counts.accuracy counts = 100 := by
  have nonzero : counts.total ≠ 0 := fun none => some (congrArg UInt64.toNat none)
  have positive := Nat.pos_of_ne_zero some
  obtain ⟨both, product⟩ := Decimal.exists_represents (Nat.mul_pos (by decide) positive) small
  have total := Decimal.represents_toFloat positive (by omega)
  have hundred : Decimal.Represents 100 100 := Decimal.represents_ofNat (by decide) (by decide)
  rw [accuracy, if_neg nonzero, shared_self distinct, hundred.mul_eq total product, product.div_eq total hundred]

end Counts

end CircuitCloak

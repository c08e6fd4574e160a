import CircuitCloak.Proofs.NumberSizes
import CircuitCloak.Proofs.PiMultiples

/-! Which numbers the lexer takes again. Zero and small multiples of π are written with small numbers, an infinity by
its name, and any other number in digits, which are a token if the number is below 2^64. -/

namespace CircuitCloak

/-- A number that is written in digits that the lexer takes: one below 2^64, or none that is finite. -/
def Printable (value : Float) : Prop :=
  ∀ negative magnitude, Decimal.Reading.ofFloat value = .finite negative magnitude → magnitude.value < 2 ^ 64

def Angle.numbers : Angle → List Float
  | .const value => [value]
  | .symbol _ | .pi => []
  | .neg operand => operand.numbers
  | .add left right | .sub left right | .mul left right | .div left right => left.numbers ++ right.numbers

def Circuit.numbers (circuit : Circuit) : List Float := circuit.angles.flatMap (·.numbers)

namespace Qasm

theorem sized_literal {number : Nat} (small : number ≤ 16) : (Literal.integer (toString number)).token.Sized := by
  change Decimal.digitsValue (toString number).toList < longWordCount
  rw [toList_toString, digitsValue_toDigits]
  exact Nat.lt_of_le_of_lt small (by decide)

/-- The text of a small multiple of π has small numbers only. -/
theorem sized_multiple {multiple : PiMultiple} (member : multiple ∈ PiMultiple.all) :
    Sized (multiple.product.headTokens ++ multiple.product.factors.flatMap (·.tokens)) := by
  obtain ⟨scale, _, divisor⟩ := PiMultiple.bounds_of_mem_all multiple member
  have below := sized_literal (Nat.le_trans divisor (by decide))
  have divided : Sized ((if multiple.denominator = 1 then [] else
      [⟨.div, .integer (toString multiple.denominator)⟩] : List Factor).flatMap (·.tokens)) := by
    split
    · exact sized_nil
    · exact sized_cons.mpr ⟨trivial, sized_cons.mpr ⟨below, sized_nil⟩⟩
  have sign : ∀ (negative : Bool) {tokens : List Token}, Sized tokens →
      Sized ((if negative then [.mark .minus] else []) ++ tokens) := by
    intro negative tokens sized
    cases negative <;> simpa using sized
  unfold PiMultiple.product Product.headTokens
  dsimp only
  split
  · exact sized_append.mpr ⟨sign _ (by simp [Literal.token]), divided⟩
  · refine sized_append.mpr ⟨sign _ (sized_cons.mpr ⟨sized_literal scale, sized_nil⟩), ?_⟩
    rw [List.flatMap_cons]
    exact sized_append.mpr ⟨by simp [Factor.tokens, Literal.token], divided⟩

theorem printable_zero {value : Float} (zero : (value == 0) = true) : Printable value := by
  intro negative magnitude read
  rcases Decimal.cases_finite read with ⟨-, rfl⟩ | ⟨sign, significand, exponent, canonical, rfl, -, -⟩
  · norm_num [Decimal.value_double]
  · exact absurd zero (ne_true_of_eq_false (Decimal.floatOf_beq_zero canonical sign))

/-- The digits of a number are a token just if it is printable. -/
theorem sized_number (value : Float) : Sized ((numberProduct value).headTokens ++
    (numberProduct value).factors.flatMap (·.tokens)) ↔ Printable value := by
  have digits : ∀ negative magnitude, Decimal.Reading.ofFloat value = .finite negative magnitude →
      ((Literal.ofNumeral (Decimal.plain.magnitude magnitude)).token.Sized ↔ magnitude.value < 2 ^ 64) := by
    intro negative magnitude read
    rcases Decimal.cases_finite read with ⟨-, rfl⟩ | ⟨sign, significand, exponent, canonical, rfl, rfl, rfl⟩
    · have text : Decimal.plain.magnitude (Decimal.double 0 (-1074)) = "0" := by decide +kernel
      rw [text]
      refine iff_of_true ?_ (by norm_num [Decimal.value_double])
      change Decimal.digitsValue ['0'] < longWordCount
      decide
    · exact Decimal.sized_numeral canonical
  unfold numberProduct Product.headTokens Printable
  cases read : Decimal.Reading.ofFloat value with
  | nan => simp [Literal.token]
  | infinite negative => cases negative <;> simp [Literal.token]
  | finite negative magnitude =>
    simp only [List.flatMap_nil, List.append_nil]
    cases negative <;> simp [digits _ _ read]

theorem sized_constant (value : Float) : Sized (angleTokens (.const value)) ↔ Printable value := by
  rw [angleTokens]
  unfold constantProduct
  split
  next zero =>
    refine iff_of_true ?_ (printable_zero zero)
    exact sized_cons.mpr ⟨show Decimal.digitsValue ['0'] < longWordCount by decide, sized_nil⟩
  · cases near : PiMultiple.near? value with
    | some multiple =>
      refine iff_of_true (sized_multiple (List.mem_of_find?_eq_some near)) fun negative magnitude read => ?_
      by_contra large
      rw [PiMultiple.near?_eq_none_of_large read (le_of_not_gt large)] at near
      cases near
    | none => exact sized_number value

theorem sized_angle (angle : Angle) : Sized (angleTokens angle) ↔ ∀ number ∈ angle.numbers, Printable number := by
  induction angle with
  | const value => rw [sized_constant, Angle.numbers, List.forall_mem_singleton]
  | symbol | pi => simp [angleTokens, Angle.numbers]
  | neg operand ih => simp [angleTokens, Angle.numbers, ih]
  | add left right one two | sub left right one two | mul left right one two | div left right one two =>
    simp only [angleTokens, operationTokens, Angle.numbers, List.forall_mem_append, ← one, ← two]
    simp

end Qasm

theorem Circuit.sized_iff_printable {circuit : Circuit} :
    Qasm.SizedAngles circuit.angles ↔ ∀ number ∈ circuit.numbers, Printable number := by
  unfold Qasm.SizedAngles Circuit.numbers
  simp only [Qasm.sized_angle, List.mem_flatMap, forall_exists_index, and_imp]
  exact ⟨fun all number angle member within => all angle member number within,
    fun all angle member number within => all number angle member within⟩

end CircuitCloak

import CircuitCloak.Proofs.Lowering
import CircuitCloak.Proofs.ParsedCalls
import CircuitCloak.Proofs.PrintableNumbers

/-! What angles are worth in exact arithmetic, and what the text of one is worth when it is read back. A number
counts as what its text says. The text of a number may be a product, of which an operator before it takes the first
factor only; that does no harm after a multiplication, and after a division it does. -/

namespace CircuitCloak
open Float.Model Float.Model.UnpackedFloat

namespace Decimal

/-- The number that a text of digits stands for. -/
def numeralValue (text : List Char) : ℚ :=
  match numeral? text with
  | some (numeral, []) => numeral.value
  | _ => 0

/-- The number that a decimal text stands for, with or without a sign. -/
def writtenValue (text : List Char) : ℚ :=
  match text with
  | '-' :: rest => -numeralValue rest
  | rest => numeralValue rest

end Decimal

/-- What the text of a number says: an exact multiple of π, or a decimal. -/
noncomputable def Qasm.constantValue (value : Float) : ℝ :=
  if value == 0 then 0
  else match PiMultiple.near? value with
    | some multiple => multiple.numerator * Real.pi / multiple.denominator
    | none => (Decimal.writtenValue (Decimal.plain.text value).toList : ℚ)

namespace Angle

/-- The value in exact arithmetic where names have values, if no divisor is zero. -/
@[simp] noncomputable def exactValue? (names : String → ℝ) : Angle → Option ℝ
  | const value => some (Qasm.constantValue value)
  | symbol name => some (names name)
  | pi => some Real.pi
  | neg operand => return -(← operand.exactValue? names)
  | add left right => return (← left.exactValue? names) + (← right.exactValue? names)
  | sub left right => return (← left.exactValue? names) - (← right.exactValue? names)
  | mul left right => return (← left.exactValue? names) * (← right.exactValue? names)
  | div left right => do
    let dividend ← left.exactValue? names
    let divisor ← right.exactValue? names
    if divisor = 0 then none else some (dividend / divisor)

/-- No divisor is a number whose text is a product. -/
def SingleDivisors : Angle → Prop
  | const _ | symbol _ | pi => True
  | neg operand => operand.SingleDivisors
  | add left right | sub left right | mul left right => left.SingleDivisors ∧ right.SingleDivisors
  | div left (const value) =>
    left.SingleDivisors ∧ ∀ c ∈ (Qasm.constantText value).toList, c ≠ '*' ∧ c ≠ '/'
  | div left right => left.SingleDivisors ∧ right.SingleDivisors

end Angle

/-- A finite number below 2^64. -/
def Moderate (value : Float) : Prop :=
  ∃ negative magnitude, Decimal.Reading.ofFloat value = .finite negative magnitude ∧ magnitude.value < 2 ^ 64

theorem Moderate.printable {value : Float} (moderate : Moderate value) : Printable value := by
  obtain ⟨negative, magnitude, read, small⟩ := moderate
  intro other second same
  rw [read] at same
  cases same
  exact small

namespace Decimal

theorem exists_numeral {text : List Char} {value : ℚ} (numerical : Numerical text value) :
    ∃ numeral, numeral? text = some (numeral, []) ∧ numeral.value = value := by
  have all : ∀ {digits : List Char}, (∀ c ∈ digits, c.isDigit = true) → spanDigits digits = (digits, []) := by
    intro digits each
    have span : spanDigits (digits ++ []) = (digits, []) := Qasm.span_of_ends [] each nofun
    rwa [List.append_nil] at span
  cases numerical with
  | whole digits =>
    refine ⟨⟨digitsValue text, 0⟩, ?_, by simp [Numeral.value]⟩
    unfold numeral?
    rw [all digits.each]
    simp [digits.nonempty, exponentPart?]
  | @fraction whole fraction digits each =>
    have first : spanDigits (whole ++ '.' :: fraction) = (whole, '.' :: fraction) :=
      Qasm.span_of_ends _ digits.each fun c head => by cases head; rfl
    refine ⟨⟨digitsValue (whole ++ fraction), -fraction.length⟩, ?_, rfl⟩
    unfold numeral?
    rw [first]
    simp [all each, digits.nonempty, exponentPart?]

theorem numeralValue_eq {text : List Char} {value : ℚ} (numerical : Numerical text value) : numeralValue text = value := by
  obtain ⟨numeral, read, same⟩ := exists_numeral numerical
  rw [numeralValue, read]
  exact same

theorem writtenValue_eq {text : List Char} {value : ℚ} (numerical : Numerical text value) :
    writtenValue text = value ∧ writtenValue ('-' :: text) = -value := by
  have digit : ∀ rest, text ≠ '-' :: rest := by
    rintro rest rfl
    generalize same : '-' :: rest = text at numerical
    cases numerical with
    | whole digits => exact absurd (digits.each '-' (same ▸ List.mem_cons_self)) (by decide)
    | @fraction whole fraction digits each =>
      obtain ⟨first, others, rfl⟩ := List.exists_cons_of_ne_nil digits.nonempty
      cases same
      exact absurd (digits.each '-' List.mem_cons_self) (by decide)
  refine ⟨?_, congrArg Neg.neg (numeralValue_eq numerical)⟩
  unfold writtenValue
  split
  · exact absurd rfl (digit _)
  · exact numeralValue_eq numerical

end Decimal

namespace Qasm
open Decimal (Canonical floatOf double)

section Numerals

variable {significand : Nat} {exponent : ℤ} (canonical : Canonical significand exponent)

/-- The digits of a number are read as its magnitude. -/
theorem angle_numeral : (Literal.ofNumeral (Decimal.plain.magnitude (double significand exponent))).angle =
    .const (floatOf canonical .positive) := by
  have numerical := Decimal.numerical_magnitude (double significand exponent)
  have covers : (double significand exponent).Covers ((double significand exponent).shortest .upward).value :=
    Decimal.Binary.covers_shortest .upward canonical.positive.ne'
  generalize ((double significand exponent).shortest .upward).value = value at numerical covers
  unfold Literal.ofNumeral
  split
  next point =>
    have decimal : decimalValue (Decimal.plain.magnitude (double significand exponent)).toList =
        floatOf canonical .positive := by
      obtain ⟨numeral, read, rfl⟩ := Decimal.exists_numeral numerical
      rw [decimalValue, read]
      exact Decimal.toFloat_eq canonical covers
    exact congrArg Angle.const decimal
  next none =>
    generalize written : (Decimal.plain.magnitude (double significand exponent)).toList = text at numerical none
    cases numerical with
    | whole digits =>
      rw [Literal.angle, written]
      exact congrArg Angle.const (Decimal.float_ofNat_eq canonical covers)
    | fraction digits each => exact absurd (List.mem_append_right _ List.mem_cons_self) none

theorem near?_positive {sign : Sign} (apart : PiMultiple.near? (floatOf canonical sign) = none) :
    PiMultiple.near? (floatOf canonical .positive) = none := by
  cases sign with
  | positive => exact apart
  | negative => exact Decimal.neg_floatOf canonical .negative ▸ PiMultiple.near?_neg apart

theorem ofFloat_floatOf (sign : Sign) : Decimal.Reading.ofFloat (floatOf canonical sign) =
    .finite (sign == .negative) (double significand exponent) := by
  rw [Decimal.Reading.ofFloat_eq, Decimal.unpack_floatOf]
  rfl

theorem constantValue_floatOf {sign : Sign} (apart : PiMultiple.near? (floatOf canonical sign) = none) :
    constantValue (floatOf canonical sign) =
      if sign == .negative then -(((double significand exponent).shortest .upward).value : ℝ)
      else ((double significand exponent).shortest .upward).value := by
  obtain ⟨plain, signed⟩ := Decimal.writtenValue_eq (Decimal.numerical_magnitude (double significand exponent))
  unfold constantValue
  rw [Decimal.floatOf_beq_zero, if_neg Bool.false_ne_true, apart]
  dsimp only
  unfold Decimal.Layout.text
  rw [ofFloat_floatOf]
  cases sign with
  | positive =>
    change ((Decimal.writtenValue ("" ++ Decimal.plain.magnitude _).toList : ℚ) : ℝ) = _
    rw [String.empty_append, plain]
    rfl
  | negative =>
    change ((Decimal.writtenValue ("-" ++ Decimal.plain.magnitude _).toList : ℚ) : ℝ) = _
    rw [String.toList_append]
    change ((Decimal.writtenValue ('-' :: (Decimal.plain.magnitude (double significand exponent)).toList) : ℚ) : ℝ) = _
    rw [signed, Rat.cast_neg]
    rfl

end Numerals

theorem text_ofNat : ∀ number < 17, 2 ≤ number → (Float.ofNat number == 0) = false ∧
    Decimal.plain.text (.ofNat number) = toString number := by decide +kernel

/-- The whole numbers in the texts of multiples of π are worth themselves. -/
theorem exactValue_integer {number : Nat} (least : 2 ≤ number) (most : number ≤ 16) (names : String → ℝ) :
    (Literal.integer (toString number)).angle.exactValue? names = some (number : ℝ) := by
  obtain ⟨nonzero, text⟩ := text_ofNat number (by omega) least
  have digits : Decimal.digitsValue (toString number).toList = number := by rw [toList_toString, digitsValue_toDigits]
  have written := (Decimal.writtenValue_eq (.whole (digits_toString number))).1
  rw [Literal.angle, digits, Angle.exactValue?]
  congr 1
  unfold constantValue
  rw [nonzero, if_neg Bool.false_ne_true, PiMultiple.near?_ofNat least most]
  dsimp only
  rw [text, written, digits]
  norm_cast

/-- Factors after an angle multiply its value. -/
def Scales (factors : List Factor) (scale : ℝ) : Prop := ∀ names angle,
  (factors.foldl Factor.angle angle).exactValue? names = (angle.exactValue? names).map (· * scale)

theorem scales_nil : Scales [] 1 := by
  intro names angle
  rw [List.foldl_nil]
  cases angle.exactValue? names <;> simp

theorem Scales.eq_one {scale : ℝ} (scales : Scales [] scale) : scale = 1 := by
  have same := scales (fun _ => 0) .pi
  rw [List.foldl_nil, Angle.exactValue?, Option.map_some, Option.some.injEq] at same
  exact (mul_eq_left₀ Real.pi_ne_zero).mp same.symm

theorem scales_pi {factors : List Factor} {scale : ℝ} (scales : Scales factors scale) :
    Scales (⟨.mul, .pi⟩ :: factors) (Real.pi * scale) := by
  intro names angle
  have product : (Factor.angle angle ⟨.mul, .pi⟩).exactValue? names =
      (angle.exactValue? names).map (· * Real.pi) := by
    change (Angle.mul angle .pi).exactValue? names = _
    rw [Angle.exactValue?]
    cases angle.exactValue? names <;> rfl
  rw [List.foldl_cons, scales, product, Option.map_map]
  congr 1
  funext value
  exact mul_assoc value Real.pi scale

theorem scales_divided {multiple : PiMultiple} (member : multiple ∈ PiMultiple.all) :
    Scales (if multiple.denominator = 1 then [] else [⟨.div, .integer (toString multiple.denominator)⟩])
      (1 / multiple.denominator) := by
  obtain ⟨_, least, most⟩ := PiMultiple.bounds_of_mem_all multiple member
  split
  next whole =>
    rw [whole, Nat.cast_one, div_one]
    exact scales_nil
  next many =>
    intro names angle
    change (Angle.div angle (Literal.integer (toString multiple.denominator)).angle).exactValue? names = _
    have nonzero : (multiple.denominator : ℝ) ≠ 0 := Nat.cast_ne_zero.mpr least.ne'
    rw [Angle.exactValue?, exactValue_integer (by omega) (by omega)]
    cases angle.exactValue? names with
    | none => rfl
    | some value => simp [nonzero, div_eq_mul_inv]

/-- What the two parts of a product are worth, the sign with the first literal and the factors. -/
structure Product.Worth (product : Product) (head scale : ℝ) : Prop where
  head : ∀ names, product.headAngle.exactValue? names = some head
  factors : Scales product.factors scale

theorem exactValue_head {product : Product} {names : String → ℝ} {value : ℝ}
    (first : product.first.angle.exactValue? names = some value) :
    product.headAngle.exactValue? names = some (if product.negative then -value else value) := by
  unfold Product.headAngle
  split
  · rw [Angle.exactValue?, first]
    rfl
  · exact first

theorem worth_multiple {multiple : PiMultiple} (member : multiple ∈ PiMultiple.all) : ∃ head scale,
    multiple.product.Worth head scale ∧ head * scale = multiple.numerator * Real.pi / multiple.denominator := by
  obtain ⟨most, _⟩ := PiMultiple.bounds_of_mem_all multiple member
  have nonzero := PiMultiple.numerator_ne_zero multiple member
  have divided := scales_divided member
  have signed : (if decide (multiple.numerator < 0) = true then -(multiple.numerator.natAbs : ℝ)
      else multiple.numerator.natAbs) = multiple.numerator := by
    split
    next negative =>
      have same : -(multiple.numerator.natAbs : ℤ) = multiple.numerator := by
        have below := of_decide_eq_true negative
        omega
      rw [← Int.cast_natCast, ← Int.cast_neg, same]
    next positive =>
      have same : (multiple.numerator.natAbs : ℤ) = multiple.numerator := by
        have above : ¬multiple.numerator < 0 := fun below => positive (decide_eq_true below)
        omega
      rw [← Int.cast_natCast, same]
  unfold PiMultiple.product
  dsimp only
  split
  next one =>
    rw [one, Nat.cast_one] at signed
    have first : ∀ names, Literal.pi.angle.exactValue? names = some Real.pi := fun _ => rfl
    refine ⟨_, _, ⟨fun names => exactValue_head (first names), divided⟩, ?_⟩
    rw [← signed]
    dsimp only
    split <;> ring
  next many =>
    have least : 2 ≤ multiple.numerator.natAbs := by
      have other : multiple.numerator.natAbs ≠ 1 := many
      omega
    refine ⟨_, _, ⟨fun names => exactValue_head (exactValue_integer least most names), scales_pi divided⟩, ?_⟩
    rw [signed]
    ring

/-- The two parts of a number are worth what its text says. -/
theorem worth_constant {value : Float} (moderate : Moderate value) : ∃ head scale,
    (constantProduct value).Worth head scale ∧ head * scale = constantValue value := by
  obtain ⟨negative, magnitude, read, _⟩ := moderate
  rcases Decimal.cases_finite read with ⟨zero, -⟩ | ⟨sign, significand, exponent, canonical, rfl, rfl, rfl⟩
  · unfold constantProduct constantValue
    rw [if_pos zero, if_pos zero]
    have nothing : constantValue (.ofNat 0) = 0 := if_pos Decimal.zero_beq.1
    exact ⟨0, 1, ⟨fun names => congrArg some nothing, scales_nil⟩, mul_one 0⟩
  · have nonzero := ne_true_of_eq_false (Decimal.floatOf_beq_zero canonical sign)
    cases near : PiMultiple.near? (floatOf canonical sign) with
    | some multiple =>
      obtain ⟨head, scale, worth, value⟩ := worth_multiple (List.mem_of_find?_eq_some near)
      refine ⟨head, scale, ?_, value.trans ?_⟩
      · unfold constantProduct
        rw [if_neg nonzero, near]
        exact worth
      · unfold constantValue
        rw [if_neg nonzero, near]
    | none =>
      have positive := constantValue_floatOf canonical (near?_positive canonical near)
      refine ⟨_, 1, ⟨fun names => ?_, ?_⟩, (mul_one _).trans (constantValue_floatOf canonical near).symm⟩
      all_goals
        unfold constantProduct
        rw [if_neg nonzero, near]
        dsimp only
        unfold numberProduct
        rw [ofFloat_floatOf]
      · refine exactValue_head ?_
        rw [angle_numeral canonical]
        exact congrArg some positive
      · exact scales_nil

/-- A number whose text has no operator in it has no factors. -/
theorem factors_eq_nil {value : Float} (single : ∀ c ∈ (constantText value).toList, c ≠ '*' ∧ c ≠ '/') :
    (constantProduct value).factors = [] := by
  have proper := (proper_constantProduct value).factors
  rw [← text_constantProduct, Product.text, String.toList_append] at single
  cases factors : (constantProduct value).factors with
  | nil => rfl
  | cons factor rest =>
    rw [factors] at proper single
    have within : ∀ c ∈ factor.operator.symbol.text.toList, c ≠ '*' ∧ c ≠ '/' := by
      intro c member
      refine single c (List.mem_append_right _ ?_)
      rw [List.map_cons, String.join_cons, String.toList_append, Factor.text, String.toList_append]
      exact List.mem_append_left _ (List.mem_append_left _ member)
    rcases (proper factor List.mem_cons_self).operator with same | same
    · rw [same] at within
      exact absurd rfl (within '*' List.mem_cons_self).1
    · rw [same] at within
      exact absurd rfl (within '/' List.mem_cons_self).2

/-- What is read for an angle is worth as much as the angle. -/
theorem exactValue_reread {angle : Angle} (moderate : ∀ number ∈ angle.numbers, Moderate number)
    (single : angle.SingleDivisors) (names : String → ℝ) :
    (reread angle).exactValue? names = angle.exactValue? names := by
  induction angle with
  | const value =>
    obtain ⟨head, scale, worth, same⟩ := worth_constant (moderate value List.mem_cons_self)
    rw [reread, worth.factors, worth.head, Option.map_some, same]
    rfl
  | symbol | pi => rfl
  | neg operand ih => rw [reread, Angle.exactValue?, Angle.exactValue?, ih moderate single]
  | add left right one two | sub left right one two =>
    obtain ⟨first, second⟩ := List.forall_mem_append.mp moderate
    rw [reread, Angle.exactValue?, Angle.exactValue?, one first single.1, two second single.2]
  | mul left right one two =>
    obtain ⟨first, second⟩ := List.forall_mem_append.mp moderate
    have former := one first single.1
    have latter := two second single.2
    cases right
    case const value =>
      obtain ⟨head, scale, worth, same⟩ := worth_constant (second value List.mem_cons_self)
      rw [reread, worth.factors, Angle.exactValue?, Angle.exactValue?, Angle.exactValue?, worth.head, former, ← same]
      cases left.exactValue? names with
      | none => rfl
      | some value => exact congrArg some (mul_assoc value head scale)
    all_goals
      change (Angle.mul (reread left) (reread _)).exactValue? names = _
      rw [Angle.exactValue?, Angle.exactValue?, former, latter]
  | div left right one two =>
    obtain ⟨first, second⟩ := List.forall_mem_append.mp moderate
    cases right
    case const value =>
      obtain ⟨head, scale, worth, same⟩ := worth_constant (second value List.mem_cons_self)
      have factors := worth.factors
      rw [factors_eq_nil single.2] at factors
      rw [factors.eq_one, mul_one] at same
      rw [reread, factors_eq_nil single.2, List.foldl_nil, Angle.exactValue?, Angle.exactValue?, Angle.exactValue?,
        worth.head, one first single.1, same]
    all_goals
      change (Angle.div (reread left) (reread _)).exactValue? names = _
      rw [Angle.exactValue?, Angle.exactValue?, one first single.1, two second single.2]

theorem read_angleText {angle : Angle} (sayable : Sayable angle) (printable : ∀ number ∈ angle.numbers, Printable number)
    (setting : Setting) : ∃ tokens expression, lexemes (angleText angle) = .ok tokens ∧
      Parser.expression setting tokens = .ok (expression, []) ∧ expression.angle [] = .ok (reread angle) := by
  have falls := word_angle sayable [] [] nofun .done
  rw [List.append_nil, List.append_nil] at falls
  obtain ⟨tokens, cut, same⟩ := lexemes_of_cuts ⟨falls, (sized_angle angle).mpr printable⟩
  have reads : Reads (Parser.expression setting) (angleTokens angle) (angleTree angle) Closes :=
    Reads.expressionBound fun limit enough => reads_angle setting angle (by omega)
  have read := reads tokens [] same ⟨rfl, rfl⟩
  rw [List.append_nil] at read
  exact ⟨tokens, angleTree angle, cut, read, angle_angleTree angle⟩

end Qasm

/-- The text of an angle keeps its value, unless a divisor is a number whose text is a product. -/
theorem Angle.exactValue_written {angle : Angle} (sayable : Qasm.Sayable angle)
    (moderate : ∀ number ∈ angle.numbers, Moderate number) (single : angle.SingleDivisors) (setting : Qasm.Setting) :
    ∃ tokens expression again, Qasm.lexemes (Qasm.angleText angle) = .ok tokens ∧
      Qasm.Parser.expression setting tokens = .ok (expression, []) ∧ expression.angle [] = .ok again ∧
      ∀ names, again.exactValue? names = angle.exactValue? names := by
  obtain ⟨tokens, expression, cut, read, angle⟩ :=
    Qasm.read_angleText sayable (fun number member => (moderate number member).printable) setting
  exact ⟨tokens, expression, _, cut, read, angle, Qasm.exactValue_reread moderate single⟩

def wholeTurn : Float := 6.283185307179586

theorem wholeTurn_eq : ∃ canonical : Decimal.Canonical 7074237752028440 (-50),
    wholeTurn = Decimal.floatOf canonical .positive :=
  Decimal.eq_floatOf (by decide +kernel) (by norm_num)

theorem moderate_wholeTurn : Moderate wholeTurn := by
  obtain ⟨canonical, same⟩ := wholeTurn_eq
  exact ⟨false, _, same ▸ Decimal.ofFloat_floatOf canonical .positive, by norm_num [Decimal.value_double]⟩

theorem moderate_piValue : Moderate Angle.piValue := by
  obtain ⟨canonical, same⟩ := Qasm.PiMultiple.piValue_eq
  exact ⟨false, _, same ▸ Decimal.ofFloat_floatOf canonical .positive, by norm_num [Decimal.value_double]⟩

theorem Angle.exactValue_written_half :
    ∃ tokens expression again,
      Qasm.lexemes (Qasm.angleText (.div (.mul (.symbol "a") (.const wholeTurn)) (.const piValue))) = .ok tokens ∧
      Qasm.Parser.expression ⟨.qasm2, 1⟩ tokens = .ok (expression, []) ∧ expression.angle [] = .ok again ∧
      ∀ names, again.exactValue? names =
        (Angle.div (.mul (.symbol "a") (.const wholeTurn)) (.const piValue)).exactValue? names := by
  have sayable : Qasm.Sayable (.div (.mul (.symbol "a") (.const wholeTurn)) (.const piValue)) :=
    ⟨⟨Eq.refl _, trivial⟩, trivial⟩
  have moderate : ∀ number ∈ (Angle.div (.mul (.symbol "a") (.const wholeTurn)) (.const piValue)).numbers, Moderate number :=
    List.forall_mem_cons.mpr ⟨moderate_wholeTurn, List.forall_mem_singleton.mpr moderate_piValue⟩
  have text : Qasm.constantText piValue = "pi" := by decide +kernel
  have single : (Angle.div (.mul (.symbol "a") (.const wholeTurn)) (.const piValue)).SingleDivisors := by
    refine ⟨⟨trivial, trivial⟩, ?_⟩
    rw [text]
    exact List.forall_mem_cons.mpr ⟨by decide, List.forall_mem_singleton.mpr (by decide)⟩
  exact exactValue_written sayable moderate single ⟨.qasm2, 1⟩

/-- The text of a quotient by a whole turn is read as a product with π. -/
theorem Angle.exactValue_divided : Qasm.Sayable (.div (.symbol "a") (.const wholeTurn)) ∧
    (∀ number ∈ (Angle.div (.symbol "a") (.const wholeTurn)).numbers, Moderate number) ∧
    ∃ tokens expression again,
      Qasm.lexemes (Qasm.angleText (.div (.symbol "a") (.const wholeTurn))) = .ok tokens ∧
      Qasm.Parser.expression ⟨.qasm2, 1⟩ tokens = .ok (expression, []) ∧ expression.angle [] = .ok again ∧
      again.exactValue? (fun _ => 1) = some (1 / 2 * Real.pi) ∧
      (Angle.div (.symbol "a") (.const wholeTurn)).exactValue? (fun _ => 1) = some (1 / (2 * Real.pi)) ∧
      1 / 2 * Real.pi ≠ 1 / (2 * Real.pi) := by
  have sayable : Qasm.Sayable (.div (.symbol "a") (.const wholeTurn)) := ⟨Eq.refl _, trivial⟩
  have moderate : ∀ number ∈ (Angle.div (.symbol "a") (.const wholeTurn)).numbers, Moderate number :=
    List.forall_mem_singleton.mpr moderate_wholeTurn
  have nonzero : (wholeTurn == 0) = false := by
    obtain ⟨canonical, same⟩ := wholeTurn_eq
    exact same ▸ Decimal.floatOf_beq_zero canonical .positive
  have near : Qasm.PiMultiple.near? wholeTurn = some ⟨2, 1⟩ := by decide +kernel
  have number : Qasm.constantValue wholeTurn = 2 * Real.pi := by
    unfold Qasm.constantValue
    rw [nonzero, if_neg Bool.false_ne_true, near]
    simp
  have again : Qasm.reread (.div (.symbol "a") (.const wholeTurn)) =
      .mul (.div (.symbol "a") (Qasm.Literal.integer (toString 2)).angle) .pi := by
    rw [Qasm.reread, Qasm.constantProduct, nonzero, if_neg Bool.false_ne_true, near]
    rfl
  obtain ⟨tokens, expression, cut, read, angle⟩ :=
    Qasm.read_angleText sayable (fun number member => (moderate number member).printable) ⟨.qasm2, 1⟩
  refine ⟨sayable, moderate, tokens, expression, _, cut, read, angle, ?_, ?_, ?_⟩
  · have half : (Angle.div (.symbol "a") (Qasm.Literal.integer (toString 2)).angle).exactValue? (fun _ => 1) =
        some (1 / 2) := by
      rw [exactValue?, Qasm.exactValue_integer le_rfl (by norm_num)]
      simp [exactValue?]
    rw [again, exactValue?, half]
    rfl
  · simp [exactValue?, number, Real.pi_ne_zero]
  · intro same
    have above := Real.pi_gt_three
    rw [eq_div_iff (by positivity)] at same
    nlinarith

end CircuitCloak

import CircuitCloak.Decimal.Layout
import CircuitCloak.Proofs.Cutting
import CircuitCloak.Proofs.ShortestDecimals

/-! The plain text of a number: digits, with a fraction where the shortest decimal has one, and the value of that
decimal. -/

namespace CircuitCloak.Decimal
open Qasm (Digits)

theorem digitsValue_eq (text : List Char) : digitsValue text = Nat.ofDigitChars 10 text 0 := by
  unfold digitsValue
  rw [Nat.ofDigitChars_eq_foldl]
  simp only [Nat.mul_comm]

theorem digitsValue_append_zeros (text : List Char) (count : Nat) :
    digitsValue (text ++ List.replicate count '0') = digitsValue text * 10 ^ count := by
  rw [digitsValue_eq, digitsValue_eq, Nat.ofDigitChars_append, Nat.ofDigitChars_replicate_zero, Nat.mul_comm]

theorem digitsValue_zeros_append (text : List Char) (count : Nat) :
    digitsValue (List.replicate count '0' ++ text) = digitsValue text := by
  rw [digitsValue_eq, digitsValue_eq, Nat.ofDigitChars_append, Nat.ofDigitChars_replicate_zero, Nat.mul_zero]

theorem digits_toDigits (number : Nat) : Digits (Nat.toDigits 10 number) :=
  ⟨Nat.toDigits_ne_nil, fun _ member => Nat.isDigit_of_mem_toDigits (by decide) (by decide) member⟩

theorem isDigit_of_mem_zeros {count : Nat} : ∀ c ∈ List.replicate count '0', c.isDigit = true := by
  intro c member
  rw [List.eq_of_mem_replicate member]
  rfl

theorem toList_zeros (count : Nat) : (zeros count).toList = List.replicate count '0' := String.toList_ofList

/-- A text of digits, with or without a fraction, and the number that it stands for. -/
inductive Numerical : List Char → ℚ → Prop
  | whole {text : List Char} (digits : Digits text) : Numerical text (digitsValue text)
  | fraction {whole fraction : List Char} (digits : Digits whole) (each : ∀ c ∈ fraction, c.isDigit = true) :
    Numerical (whole ++ '.' :: fraction) (digitsValue (whole ++ fraction) * 10 ^ (-(fraction.length : ℤ)))

section Positional

variable {exponent : ℤ}

/-- A whole number is written without a fraction. -/
theorem positional_whole (number : Nat) (positive : 0 ≤ exponent) : ∃ text, Digits text ∧
    (plain.positional (Nat.toDigits 10 number) (exponent + (Nat.toDigits 10 number).length - 1)).toList = text ∧
    (digitsValue text : ℚ) = number * 10 ^ exponent := by
  have count : 0 < (Nat.toDigits 10 number).length := Nat.length_toDigits_pos
  obtain ⟨power, rfl⟩ := Int.eq_ofNat_of_zero_le positive
  have padding : ((power : ℤ) + (Nat.toDigits 10 number).length - 1).toNat + 1 - (Nat.toDigits 10 number).length = power := by
    omega
  refine ⟨Nat.toDigits 10 number ++ List.replicate power '0', ⟨?_, ?_⟩, ?_, ?_⟩
  · exact List.append_ne_nil_of_left_ne_nil Nat.toDigits_ne_nil _
  · exact List.forall_mem_append.mpr ⟨(digits_toDigits number).each, isDigit_of_mem_zeros⟩
  · unfold Layout.positional
    rw [if_neg (by omega)]
    dsimp only
    rw [if_pos (by omega), padding, String.toList_append, String.toList_append, String.toList_ofList, toList_zeros]
    exact List.append_nil _
  · rw [digitsValue_append_zeros, Qasm.digitsValue_toDigits]
    push_cast
    rw [zpow_natCast]

/-- Any other number is written with one. -/
theorem positional_fraction (number : Nat) (negative : exponent < 0) : ∃ whole fraction, Digits whole ∧
    (∀ c ∈ fraction, c.isDigit = true) ∧
    (plain.positional (Nat.toDigits 10 number) (exponent + (Nat.toDigits 10 number).length - 1)).toList =
      whole ++ '.' :: fraction ∧
    (digitsValue (whole ++ fraction) : ℚ) * 10 ^ (-(fraction.length : ℤ)) = number * 10 ^ exponent := by
  have count : 0 < (Nat.toDigits 10 number).length := Nat.length_toDigits_pos
  have digits := digits_toDigits number
  have value : digitsValue (Nat.toDigits 10 number) = number := Qasm.digitsValue_toDigits number
  generalize Nat.toDigits 10 number = text at count digits value ⊢
  unfold Layout.positional
  split
  next small =>
    obtain ⟨gap, same⟩ : ∃ gap : Nat, gap = (-(exponent + text.length - 1) - 1).toNat := ⟨_, rfl⟩
    refine ⟨['0'], List.replicate gap '0' ++ text, ⟨List.cons_ne_nil _ _, List.forall_mem_singleton.mpr rfl⟩,
      List.forall_mem_append.mpr ⟨isDigit_of_mem_zeros, digits.each⟩, ?_, ?_⟩
    · simp only [← same, String.toList_append, String.toList_ofList, toList_zeros, List.append_assoc]
      rfl
    · have length : -((List.replicate gap '0' ++ text).length : ℤ) = exponent := by
        rw [List.length_append, List.length_replicate]
        omega
      have same : ['0'] ++ (List.replicate gap '0' ++ text) = List.replicate (gap + 1) '0' ++ text := rfl
      rw [length, same, digitsValue_zeros_append, value]
  next large =>
    obtain ⟨whole, same⟩ : ∃ whole : Nat, whole = (exponent + text.length - 1).toNat + 1 := ⟨_, rfl⟩
    refine ⟨text.take whole, text.drop whole, ⟨?_, ?_⟩, ?_, ?_, ?_⟩
    · intro empty
      rcases List.take_eq_nil_iff.mp empty with none | none
      · omega
      · exact digits.nonempty none
    · exact fun c member => digits.each c (List.mem_of_mem_take member)
    · exact fun c member => digits.each c (List.mem_of_mem_drop member)
    · dsimp only
      rw [← same, if_neg (by omega)]
      simp only [String.toList_append, String.toList_ofList, List.append_assoc]
      rfl
    · have length : -((text.drop whole).length : ℤ) = exponent := by
        rw [List.length_drop]
        omega
      rw [List.take_append_drop, value, length]

end Positional

theorem magnitude_eq (magnitude : Binary) : plain.magnitude magnitude =
    plain.positional (Nat.toDigits 10 (magnitude.shortest .upward).digits)
      ((magnitude.shortest .upward).exponent + (Nat.toDigits 10 (magnitude.shortest .upward).digits).length - 1) := by
  unfold Layout.magnitude
  change (if (magnitude.shortest .upward).digits = 0 then _ else plain.positional _ _) = _
  split
  next none =>
    have zero : magnitude.significand = 0 := by
      by_contra some
      exact Binary.shortest_digits_ne_zero .upward some none
    have shortest : magnitude.shortest .upward = ⟨0, 0⟩ := by
      unfold Binary.shortest
      rw [if_pos zero]
    change plain.positional (Nat.toDigits 10 (magnitude.shortest .upward).digits) 0 = _
    rw [shortest]
    rfl
  next => rfl

theorem numerical_magnitude (magnitude : Binary) :
    Numerical (plain.magnitude magnitude).toList (magnitude.shortest .upward).value := by
  rw [magnitude_eq, Scientific.value]
  by_cases positive : 0 ≤ (magnitude.shortest .upward).exponent
  · obtain ⟨text, digits, same, value⟩ := positional_whole _ positive
    rw [same, ← value]
    exact .whole digits
  · obtain ⟨whole, fraction, digits, each, same, value⟩ :=
      positional_fraction _ (lt_of_not_ge positive)
    rw [same, ← value]
    exact .fraction digits each

end CircuitCloak.Decimal

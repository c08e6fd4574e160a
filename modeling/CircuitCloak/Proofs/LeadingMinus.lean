import CircuitCloak.Proofs.ParserProgress
import CircuitCloak.Proofs.PrintedExpressions
import CircuitCloak.Proofs.Reloading

/-! Signs before a power. A sign takes the primary expression after it, before any operator is seen; so it is the signed
base that is raised to the power, and not the power that is negated. -/

namespace CircuitCloak.Qasm

namespace Parser

variable {α : Type} {setting : Setting} {lexemes rest : List Lexeme}

/-- What a step does with a bound that is never used up. -/
def fully (step : Nat → Parser α) (lexemes : List Lexeme) : Except ParseError (α × List Lexeme) :=
  step (4 * lexemes.length + 5) lexemes

theorem signed_eq_fully (fuel : Nat) (enough : 4 * lexemes.length + 2 ≤ fuel) :
    signed setting fuel lexemes = fully (signed setting) lexemes :=
  ((expressionsAdvance (4 * lexemes.length + 5)).signed (by omega) enough lexemes (Nat.le_refl _)).1

theorem climb_eq_fully {level : Nat} (fuel : Nat) (enough : 4 * lexemes.length + 3 ≤ fuel) :
    climb setting level fuel lexemes = fully (climb setting level) lexemes :=
  ((expressionsAdvance (4 * lexemes.length + 5)).climb level (by omega) enough lexemes (Nat.le_refl _)).1

theorem extend_eq_fully {level : Nat} {left : Expr} (fuel : Nat) (enough : 4 * lexemes.length + 1 ≤ fuel) :
    extend setting level left fuel lexemes = fully (extend setting level left) lexemes :=
  ((expressionsAdvance (4 * lexemes.length + 5)).extend level left (by omega) enough lexemes (Nat.le_refl _)).1

theorem length_le_of_fully {step : Nat → Parser α} {value : α} {least : Nat}
    (advances : Advances setting lexemes.length least (step (4 * lexemes.length + 5)) (step (4 * lexemes.length + 5)))
    (read : fully step lexemes = .ok (value, rest)) : rest.length ≤ lexemes.length := by
  have halts := (advances lexemes (Nat.le_refl _)).2
  rw [show step (4 * lexemes.length + 5) lexemes = .ok (value, rest) from read] at halts
  cases halts with
  | value inside _ => exact inside.length_le

/-- What a sign makes of an expression. -/
def signedBy (sign : Lexeme) (tree : Expr) : Expr := if sign.token == .mark .minus then .neg tree else tree

def IsSign (lexeme : Lexeme) : Prop := lexeme.token = .mark .minus ∨ lexeme.token = .mark .plus

theorem signed_sign {sign : Lexeme} (known : IsSign sign) (fuel : Nat) : signed setting (fuel + 1) (sign :: lexemes) =
    (fun (tree, left) => (signedBy sign tree, left)) <$> signed setting fuel lexemes := by
  obtain ⟨token, place⟩ := sign
  rw [signed]
  obtain rfl | rfl := known
  · change (signed setting fuel lexemes >>= fun (tree, left) => Except.ok (Expr.neg tree, left)) = _
    cases signed setting fuel lexemes <;> rfl
  · change signed setting fuel lexemes = _
    cases signed setting fuel lexemes <;> rfl

theorem fully_sign {sign : Lexeme} (known : IsSign sign) : fully (signed setting) (sign :: lexemes) =
    (fun (tree, left) => (signedBy sign tree, left)) <$> fully (signed setting) lexemes := by
  rw [← signed_eq_fully (4 * lexemes.length + 5 + 1) (by rw [List.length_cons]; omega)]
  exact signed_sign known (4 * lexemes.length + 5)

/-- What is read as a primary expression has no sign before it. -/
theorem fully_signed_of_primary {tree : Expr} (read : fully (primary setting) lexemes = .ok (tree, rest)) :
    fully (signed setting) lexemes = .ok (tree, rest) := by
  rw [← signed_eq_fully (4 * lexemes.length + 5 + 1) (by omega), signed]
  cases lexemes with
  | nil => cases read
  | cons lexeme others =>
    obtain ⟨token, place⟩ := lexeme
    cases token with
    | mark symbol =>
      cases symbol with
      | minus | plus => cases read
      | _ => exact read
    | _ => exact read

theorem climb_succ (level fuel : Nat) : climb setting level (fuel + 1) lexemes =
    signed setting fuel lexemes >>= fun (left, rest) => extend setting level left fuel rest := by
  rw [climb]
  rfl

theorem fully_climb (level : Nat) : fully (climb setting level) lexemes =
    fully (signed setting) lexemes >>= fun (left, rest) => fully (extend setting level left) rest := by
  obtain ⟨fuel, large⟩ : ∃ fuel, fuel = 4 * lexemes.length + 5 := ⟨_, rfl⟩
  rw [← climb_eq_fully (fuel + 1) (by omega), climb_succ, signed_eq_fully fuel (by omega)]
  cases read : fully (signed setting) lexemes with
  | error fault => rfl
  | ok value =>
    obtain ⟨left, rest⟩ := value
    have fewer := length_le_of_fully ((expressionsAdvance _).signed (by omega) (by omega)) read
    exact extend_eq_fully fuel (by omega)

/-- An operator that extends an expression is taken together with its right operand. -/
theorem extend_succ {mark : Lexeme} {operator : Operator} {level : Nat} (found : operator? mark.token = some operator)
    (high : level ≤ operator.level) (left : Expr) (fuel : Nat) :
    extend setting level left (fuel + 1) (mark :: lexemes) =
      climb setting operator.rightLevel fuel lexemes >>= fun (right, rest) =>
        extend setting level (.binary left operator right) fuel rest := by
  have taken : ∀ next : Option Operator → Parser Expr,
      (peekOperator >>= next) (mark :: lexemes) = next (operator? mark.token) (mark :: lexemes) := fun _ => rfl
  rw [extend, taken, found]
  dsimp only
  rw [if_neg (Nat.not_lt.mpr high)]
  rfl

theorem fully_extend {mark : Lexeme} {operator : Operator} {level : Nat} (found : operator? mark.token = some operator)
    (high : level ≤ operator.level) (left : Expr) : fully (extend setting level left) (mark :: lexemes) =
    fully (climb setting operator.rightLevel) lexemes >>= fun (right, rest) =>
      fully (extend setting level (.binary left operator right)) rest := by
  obtain ⟨fuel, large⟩ : ∃ fuel, fuel = 4 * lexemes.length + 5 := ⟨_, rfl⟩
  rw [← extend_eq_fully (fuel + 1) (by rw [List.length_cons]; omega), extend_succ found high,
    climb_eq_fully fuel (by omega)]
  cases read : fully (climb setting operator.rightLevel) lexemes with
  | error fault => rfl
  | ok value =>
    obtain ⟨right, rest⟩ := value
    have fewer := length_le_of_fully ((expressionsAdvance _).climb _ (by omega) (by omega)) read
    exact extend_eq_fully fuel (by omega)

theorem fully_extend_end {level : Nat} (ends : (lexemes.head?.map (·.token)).bind operator? = none) (left : Expr) :
    fully (extend setting level left) lexemes = .ok (left, lexemes) := by
  have looked : ∀ next : Option Operator → Parser Expr,
      (peekOperator >>= next) lexemes = next ((lexemes.head?.map (·.token)).bind operator?) lexemes := fun _ => rfl
  rw [← extend_eq_fully (4 * lexemes.length + 5 + 1) (by omega), extend, looked, ends]
  rfl

theorem fully_signs {signs base : List Lexeme} (known : ∀ sign ∈ signs, IsSign sign) {tree : Expr}
    (read : fully (primary setting) base = .ok (tree, rest)) :
    fully (signed setting) (signs ++ base) = .ok (signs.foldr signedBy tree, rest) := by
  induction signs with
  | nil => exact fully_signed_of_primary read
  | cons sign signs ih =>
    obtain ⟨first, others⟩ := List.forall_mem_cons.mp known
    rw [List.cons_append, fully_sign first, ih others]
    rfl

/-- A signed base is raised to a power: the expression goes on with the whole as its left operand. -/
theorem fully_climb_power {signs base exponent : List Lexeme} {mark : Lexeme} {left right : Expr} {level : Nat}
    (known : ∀ sign ∈ signs, IsSign sign) (first : fully (primary setting) base = .ok (left, mark :: exponent))
    (power : operator? mark.token = some .pow) (second : fully (climb setting 3) exponent = .ok (right, rest))
    (low : level ≤ 3) : fully (climb setting level) (signs ++ base) =
      fully (extend setting level (.binary (signs.foldr signedBy left) .pow right)) rest := by
  have exponent : fully (climb setting Operator.pow.rightLevel) exponent = .ok (right, rest) := second
  rw [fully_climb, fully_signs known first]
  change fully (extend setting level (signs.foldr signedBy left)) _ = _
  rw [fully_extend power low, exponent]
  rfl

def signValue (sign : Lexeme) (value : Float) : Float := if sign.token == .mark .minus then -value else value

theorem angle_signs {bindings : Bindings} (signs : List Lexeme) {tree : Expr} {angle : Angle} {value : Float}
    (lowered : tree.angle bindings = .ok angle) (known : angle.value? = some value) :
    ∃ signed, (signs.foldr signedBy tree).angle bindings = .ok signed ∧
      signed.value? = some (signs.foldr signValue value) := by
  induction signs with
  | nil => exact ⟨angle, lowered, known⟩
  | cons sign signs ih =>
    obtain ⟨signed, lowered, known⟩ := ih
    rw [List.foldr_cons, List.foldr_cons, signedBy, signValue]
    split
    · refine ⟨.neg signed, ?_, ?_⟩
      · rw [Expr.angle, lowered]
        rfl
      · rw [Angle.value?, known]
        rfl
    · exact ⟨signed, lowered, known⟩

/-- Signs before a power belong to its base, at every place where an operand may start and however the parts and the
power are written; so the angle is the power of the signed value. -/
theorem signs_before_power (setting : Setting) {signs base exponent rest : List Lexeme} {mark : Lexeme}
    {left right : Expr} (known : ∀ sign ∈ signs, IsSign sign)
    (first : fully (primary setting) base = .ok (left, mark :: exponent))
    (power : mark.token = .mark .caret ∨ mark.token = .mark .doubleStar)
    (second : fully (climb setting 3) exponent = .ok (right, rest)) :
    (∀ level ≤ 3, fully (climb setting level) (signs ++ base) =
      fully (extend setting level (.binary (signs.foldr signedBy left) .pow right)) rest) ∧
    ((rest.head?.map (·.token)).bind operator? = none →
      expression setting (signs ++ base) = .ok (.binary (signs.foldr signedBy left) .pow right, rest)) ∧
    ∀ bindings x y value power, left.angle bindings = .ok x → x.value? = some value →
      right.angle bindings = .ok y → y.value? = some power →
      (Expr.binary (signs.foldr signedBy left) .pow right).angle bindings =
        .ok (.const ((signs.foldr signValue value).pow power)) := by
  have found : operator? mark.token = some .pow := by
    rcases power with same | same <;> rw [same] <;> rfl
  have climbs : ∀ level ≤ 3, fully (climb setting level) (signs ++ base) =
      fully (extend setting level (.binary (signs.foldr signedBy left) .pow right)) rest :=
    fun _ low => fully_climb_power known first found second low
  refine ⟨climbs, fun ends => (climbs 0 (Nat.zero_le 3)).trans (fully_extend_end ends _), ?_⟩
  intro bindings x y value power lowered valued other raised
  obtain ⟨signed, negated, signedValue⟩ := angle_signs signs lowered valued
  rw [Expr.angle, negated, other]
  change combine .pow signed y = _
  rw [combine, signedValue, raised]

/-- The lexemes of a square of a number, after which parentheses are closed. -/
def squareLexemes : List Lexeme :=
  [(.integer 3, 1), (.mark .caret, 2), (.integer 2, 3), (.mark .rightParen, 4)].map placedOnFirstLine

theorem signs_before_power_square :
    fully (primary ⟨.qasm2, 1⟩) squareLexemes = .ok (.int 3, squareLexemes.drop 1) ∧
    fully (climb ⟨.qasm2, 1⟩ 3) (squareLexemes.drop 2) = .ok (.int 2, squareLexemes.drop 3) ∧
    expression ⟨.qasm2, 1⟩ ([⟨.mark .minus, ⟨1, 0⟩⟩] ++ squareLexemes) =
      .ok (.binary (.neg (.int 3)) .pow (.int 2), squareLexemes.drop 3) ∧
    (Expr.binary (.neg (.int 3)) .pow (.int 2)).angle [] = .ok (.const ((-(Float.ofNat 3)).pow (.ofNat 2))) := by
  have base : fully (primary ⟨.qasm2, 1⟩) squareLexemes = .ok (.int 3, squareLexemes.drop 1) := rfl
  have exponent : fully (climb ⟨.qasm2, 1⟩ 3) (squareLexemes.drop 2) = .ok (.int 2, squareLexemes.drop 3) := rfl
  have minus : ∀ sign ∈ [(⟨.mark .minus, ⟨1, 0⟩⟩ : Lexeme)], IsSign sign := List.forall_mem_singleton.mpr (.inl rfl)
  obtain ⟨_, whole, angle⟩ := signs_before_power ⟨.qasm2, 1⟩ minus base (.inl rfl) exponent
  exact ⟨base, exponent, whole rfl, angle [] _ _ _ _ rfl rfl rfl rfl⟩

end Parser

/-- The square of a number after a minus is read as the square of the negated number, and not as the negated square: the
angle loses its sign. -/
theorem minus_before_square :
    statements .qasm2 "OPENQASM 2;qreg q[1];rz(-3^2) q[0];" = .ok [.quantumRegister "q" 1,
      .gate ⟨"rz", [.binary (.neg (.int 3)) .pow (.int 2)], [elementOperand "q" 0]⟩] ∧
    Expr.binary (.neg (.int 3)) .pow (.int 2) ≠ .neg (.binary (.int 3) .pow (.int 2)) ∧
    (Expr.binary (.neg (.int 3)) .pow (.int 2)).angle [] ≠ (Expr.neg (.binary (.int 3) .pow (.int 2))).angle [] := by
  have cut : lexemes "OPENQASM 2;qreg q[1];rz(-3^2) q[0];" = .ok ([(.keyword .header, 0), (.integer 2, 9),
      (.mark .semicolon, 10), (.keyword .qreg, 11), (.identifier "q", 16), (.mark .leftBracket, 17), (.integer 1, 18),
      (.mark .rightBracket, 19), (.mark .semicolon, 20), (.identifier "rz", 21), (.mark .leftParen, 23),
      (.mark .minus, 24), (.integer 3, 25), (.mark .caret, 26), (.integer 2, 27), (.mark .rightParen, 28),
      (.identifier "q", 30), (.mark .leftBracket, 31), (.integer 0, 32), (.mark .rightBracket, 33),
      (.mark .semicolon, 34)].map placedOnFirstLine) := by decide +kernel
  refine ⟨?_, nofun, ?_⟩
  · unfold statements
    rw [cut]
    rfl
  · have raised : (Expr.binary (.neg (.int 3)) .pow (.int 2)).angle [] =
        .ok (.const ((-(Float.ofNat 3)).pow (.ofNat 2))) := rfl
    have negated : (Expr.neg (.binary (.int 3) .pow (.int 2))).angle [] =
        .ok (.neg (.const ((Float.ofNat 3).pow (.ofNat 2)))) := rfl
    rw [raised, negated]
    exact nofun

end CircuitCloak.Qasm

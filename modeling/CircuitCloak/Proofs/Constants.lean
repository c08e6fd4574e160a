import CircuitCloak.Proofs.PrintedNumbers
import CircuitCloak.Qasm.Writer

/-! How numbers are written in circuit text: a sign, a literal, and factors of a multiple of π. Nothing closes such
a text off, so what stands before it may take the literal without its factors. -/

namespace CircuitCloak.Qasm

inductive Literal where
  | integer (text : String)
  | decimal (text : String)
  | name (given : String)
  | pi

def Operator.symbol : Operator → Mark
  | .add => .plus
  | .sub => .minus
  | .mul => .star
  | .div => .slash
  | .pow => .caret

namespace Literal

def ofNumeral (text : String) : Literal := if '.' ∈ text.toList then .decimal text else .integer text

def text : Literal → String
  | integer text | decimal text => text
  | name given => given
  | pi => "pi"

def token : Literal → Token
  | integer text => .integer (Decimal.digitsValue text.toList)
  | decimal text => .decimal (decimalValue text.toList)
  | name given => .identifier given
  | pi => .keyword .pi

def tree : Literal → Expr
  | integer text => .int (Decimal.digitsValue text.toList)
  | decimal text => .decimal (decimalValue text.toList)
  | name given => .name given
  | pi => .pi

def Proper : Literal → Prop
  | integer text => Digits text.toList
  | decimal text => ∃ whole fraction, text.toList = whole ++ '.' :: fraction ∧ Digits whole ∧
      ∀ c ∈ fraction, c.isDigit = true
  | name given => IsIdentifier given
  | pi => True

end Literal

structure Factor where
  operator : Operator
  literal : Literal

namespace Factor

def text (factor : Factor) : String := factor.operator.symbol.text ++ factor.literal.text

def tokens (factor : Factor) : List Token := [.mark factor.operator.symbol, factor.literal.token]

structure Proper (factor : Factor) : Prop where
  operator : factor.operator = .mul ∨ factor.operator = .div
  literal : factor.literal.Proper

end Factor

def extended (factors : List Factor) (tree : Expr) : Expr :=
  factors.foldl (fun tree factor => .binary tree factor.operator factor.literal.tree) tree

structure Product where
  negative : Bool
  first : Literal
  factors : List Factor

namespace Product

def text (product : Product) : String :=
  (if product.negative then "-" else "") ++ product.first.text ++ String.join (product.factors.map Factor.text)

def headTokens (product : Product) : List Token :=
  (if product.negative then [.mark .minus] else []) ++ [product.first.token]

def head (product : Product) : Expr := if product.negative then .neg product.first.tree else product.first.tree

structure Proper (product : Product) : Prop where
  first : product.first.Proper
  factors : ∀ factor ∈ product.factors, factor.Proper

end Product

def PiMultiple.product (multiple : PiMultiple) : Product :=
  let divided : List Factor :=
    if multiple.denominator = 1 then [] else [⟨.div, .integer (toString multiple.denominator)⟩]
  match multiple.numerator.natAbs with
  | 1 => ⟨multiple.numerator < 0, .pi, divided⟩
  | scale => ⟨multiple.numerator < 0, .integer (toString scale), ⟨.mul, .pi⟩ :: divided⟩

def numberProduct (value : Float) : Product :=
  match Decimal.Reading.ofFloat value with
  | .nan => ⟨false, .name "NaN", []⟩
  | .infinite negative => ⟨negative, .name "inf", []⟩
  | .finite negative magnitude => ⟨negative, .ofNumeral (Decimal.plain.magnitude magnitude), []⟩

def constantProduct (value : Float) : Product :=
  if value == 0 then ⟨false, .integer "0", []⟩
  else match PiMultiple.near? value with
    | some multiple => multiple.product
    | none => numberProduct value

theorem text_product (multiple : PiMultiple) : multiple.product.text = multiple.text := by
  have divided : String.join (List.map Factor.text
      (if multiple.denominator = 1 then [] else [⟨.div, .integer (toString multiple.denominator)⟩])) =
      if multiple.denominator = 1 then "" else "/" ++ toString multiple.denominator := by
    split
    · rfl
    · rw [List.map_singleton, String.join_cons, String.join_nil, String.append_empty]
      rfl
  have scaled : Factor.text ⟨.mul, .pi⟩ = "*pi" := by decide
  unfold PiMultiple.product PiMultiple.text Product.text
  dsimp only
  generalize multiple.numerator.natAbs = scale
  rcases scale with _ | _ | scale
  all_goals
    simp only [decide_eq_true_eq, List.map_cons, String.join_cons, divided, scaled, Literal.text, String.append_assoc]

theorem text_numberProduct (value : Float) : (numberProduct value).text = Decimal.plain.text value := by
  have numeral : ∀ text, (Literal.ofNumeral text).text = text := by
    intro text
    unfold Literal.ofNumeral
    split <;> rfl
  unfold numberProduct Decimal.Layout.text Product.text
  cases Decimal.Reading.ofFloat value with
  | nan => rfl
  | infinite => simp [Literal.text]
  | finite => simp [numeral]

theorem text_constantProduct (value : Float) : (constantProduct value).text = constantText value := by
  unfold constantProduct constantText
  split
  · rfl
  · cases PiMultiple.near? value with
    | some multiple => exact text_product multiple
    | none => exact text_numberProduct value

theorem proper_numeral {text : String} {value : ℚ} (numerical : Decimal.Numerical text.toList value) :
    (Literal.ofNumeral text).Proper := by
  unfold Literal.ofNumeral
  split
  next point =>
    generalize same : text.toList = characters at numerical point
    cases numerical with
    | whole digits => exact absurd (digits.each '.' point) (by decide)
    | fraction digits each => exact ⟨_, _, same, digits, each⟩
  next none =>
    generalize same : text.toList = characters at numerical none
    cases numerical with
    | whole digits => exact show Digits text.toList from same.symm ▸ digits
    | fraction digits each => exact absurd (List.mem_append_right _ List.mem_cons_self) none

theorem proper_product (multiple : PiMultiple) : multiple.product.Proper := by
  have divided : ∀ factor ∈ (if multiple.denominator = 1 then [] else
      [⟨.div, .integer (toString multiple.denominator)⟩] : List Factor), factor.Proper := by
    intro factor member
    split at member
    · cases member
    · rw [List.mem_singleton.mp member]
      exact ⟨.inr rfl, digits_toString _⟩
  unfold PiMultiple.product
  dsimp only
  split
  · exact ⟨trivial, divided⟩
  · exact ⟨digits_toString _, List.forall_mem_cons.mpr ⟨⟨.inl rfl, trivial⟩, divided⟩⟩

theorem proper_constantProduct (value : Float) : (constantProduct value).Proper := by
  unfold constantProduct
  split
  · exact ⟨⟨by decide, List.forall_mem_singleton.mpr rfl⟩, nofun⟩
  · split
    · exact proper_product _
    · unfold numberProduct
      split
      · exact ⟨Eq.refl _, nofun⟩
      · exact ⟨Eq.refl _, nofun⟩
      · exact ⟨proper_numeral (Decimal.numerical_magnitude _), nofun⟩

theorem word_keyword (word : Keyword) : Word word.text [.keyword word] := by
  have spelled : Spelled word.text.toList := by
    cases word <;> exact ⟨⟨_, _, rfl, rfl⟩, List.all_eq_true.mp rfl⟩
  have reserved : Keyword.ofText? word.text = some word := by cases word <;> rfl
  have found := word_of_spelled spelled
  rwa [reserved] at found

theorem Literal.Proper.word {literal : Literal} (proper : literal.Proper) : Word literal.text [literal.token] := by
  cases literal with
  | integer text => exact word_digits proper
  | decimal text =>
    obtain ⟨whole, fraction, same, digits, each⟩ := proper
    exact word_fraction same digits each
  | name given => exact word_identifier proper
  | pi => exact word_keyword .pi

/-- A literal starts with a letter, an underscore or a digit. -/
theorem Literal.Proper.starts {literal : Literal} (proper : literal.Proper) :
    ∃ first rest, literal.text.toList = first :: rest ∧ isNamePart first = true := by
  have digit : ∀ {text : List Char}, Digits text → ∃ first rest, text = first :: rest ∧ isNamePart first = true := by
    intro text digits
    obtain ⟨first, rest, rfl⟩ := List.exists_cons_of_ne_nil digits.nonempty
    exact ⟨first, rest, rfl, by simp [isNamePart, Char.isAlphanum, digits.each first List.mem_cons_self]⟩
  cases literal with
  | integer text => exact digit proper
  | decimal text =>
    obtain ⟨whole, fraction, same, digits, _⟩ := proper
    obtain ⟨first, rest, rfl, part⟩ := digit digits
    exact ⟨first, rest ++ '.' :: fraction, same, part⟩
  | name given =>
    obtain ⟨⟨first, rest, same, _⟩, parts⟩ := proper.spelled.1
    exact ⟨first, rest, same, parts first (same ▸ List.mem_cons_self)⟩
  | pi => exact ⟨_, _, rfl, rfl⟩

/-- A sign or an operator is cut by itself before a literal. -/
theorem piece_before {symbol : Mark} (single : symbol = .minus ∨ symbol = .star ∨ symbol = .slash) {first : Char}
    (part : isNamePart first = true) (rest : List Char) :
    Piece.ofText (symbol.text.toList ++ first :: rest) = .token (.mark symbol) symbol.text.toList (first :: rest) := by
  have other : ∀ {c : Char}, isNamePart c = false → first ≠ c := fun outside same => by
    rw [← same, part] at outside
    cases outside
  have star : first ≠ '*' := other rfl
  have slash : first ≠ '/' := other rfl
  have greater : first ≠ '>' := other rfl
  have plain : ∀ {c : Char} {symbol : Mark}, c ≠ '/' → isBlank c = false → c.isDigit = false → c ≠ '.' →
      isNameStart c = false → c ≠ '"' → mark? (c :: first :: rest) = some (symbol, [c], first :: rest) →
      Piece.ofText (c :: first :: rest) = .token (.mark symbol) [c] (first :: rest) := by
    intro c symbol division blank digit point start quote found
    have number : startsNumber (c :: first :: rest) = false := by
      unfold startsNumber
      split
      · next same => exact absurd (List.cons.inj same).1 point
      · next same =>
        cases same
        exact digit
      · rfl
    unfold Piece.ofText
    split
    · contradiction
    · next same => exact absurd (List.cons.inj same).1 division
    · next same => exact absurd (List.cons.inj same).1 division
    · next same =>
      cases same
      rw [if_neg (ne_true_of_eq_false blank), if_neg (ne_true_of_eq_false number), if_neg (ne_true_of_eq_false start),
        if_neg (by rw [beq_iff_eq]; exact quote), found]
  have negative : mark? ('-' :: first :: rest) = some (.minus, ['-'], first :: rest) := by simp [mark?, greater]
  have times : mark? ('*' :: first :: rest) = some (.star, ['*'], first :: rest) := by simp [mark?, star]
  rcases single with rfl | rfl | rfl
  · exact plain (by decide) rfl rfl (by decide) rfl (by decide) negative
  · exact plain (by decide) rfl rfl (by decide) rfl (by decide) times
  · change Piece.ofText ('/' :: first :: rest) = .token (.mark .slash) ['/'] (first :: rest)
    unfold Piece.ofText
    split
    · contradiction
    · next same => exact absurd (List.cons.inj (List.cons.inj same).2).1 slash
    · next same => exact absurd (List.cons.inj (List.cons.inj same).2).1 star
    · next same =>
      cases same
      rfl

theorem word_after {symbol : Mark} (single : symbol = .minus ∨ symbol = .star ∨ symbol = .slash) {literal : Literal}
    (proper : literal.Proper) : Word (symbol.text ++ literal.text) [.mark symbol, literal.token] := by
  intro rest more ends falls
  obtain ⟨first, others, same, part⟩ := proper.starts
  have later := proper.word rest more ends falls
  rw [String.toList_append, List.append_assoc]
  rw [same] at later ⊢
  refine .token (piece_before single part (others ++ rest)) ?_ later
  rw [List.length_append]
  have length : 0 < symbol.text.toList.length := by rcases single with rfl | rfl | rfl <;> decide
  exact Nat.lt_add_of_pos_left length

theorem Factor.Proper.word {factor : Factor} (proper : factor.Proper) :
    Word factor.text factor.tokens := by
  refine word_after ?_ proper.literal
  rcases proper.operator with same | same
  · exact .inr (.inl (same ▸ rfl))
  · exact .inr (.inr (same ▸ rfl))

theorem Factor.Proper.parts {factor : Factor} (proper : factor.Proper) :
    Parts factor.text := by
  refine Parts.append ?_
  rcases proper.operator with same | same
  all_goals
    rw [same]
    exact ⟨_, _, rfl, by decide⟩

theorem word_factors {text : String} {tokens : List Token} (word : Word text tokens) {factors : List Factor}
    (proper : ∀ factor ∈ factors, factor.Proper) :
    Word (text ++ String.join (factors.map Factor.text)) (tokens ++ factors.flatMap (·.tokens)) := by
  induction factors generalizing text tokens with
  | nil =>
    rw [List.map_nil, String.join_nil, String.append_empty, List.flatMap_nil, List.append_nil]
    exact word
  | cons factor rest ih =>
    obtain ⟨first, others⟩ := List.forall_mem_cons.mp proper
    have later := ih (word.append first.word first.parts) others
    rw [List.map_cons, String.join_cons, List.flatMap_cons, ← String.append_assoc, ← List.append_assoc]
    exact later

theorem Product.Proper.word {product : Product} (proper : product.Proper) :
    Word product.text (product.headTokens ++ product.factors.flatMap (·.tokens)) := by
  refine word_factors ?_ proper.factors
  unfold headTokens
  split
  · exact word_after (.inl rfl) proper.first
  · rw [String.empty_append, List.nil_append]
    exact proper.first.word

theorem word_constant (value : Float) : Word (constantText value)
    ((constantProduct value).headTokens ++ (constantProduct value).factors.flatMap (·.tokens)) :=
  text_constantProduct value ▸ (proper_constantProduct value).word

end CircuitCloak.Qasm

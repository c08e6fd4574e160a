import CircuitCloak.Proofs.Recutting

/-! How the pieces of a text are written. A token tells its own text, apart from the digits of a number, and a number
is read whole; what is no token is a blank, or a comment up to where it ends. -/

namespace CircuitCloak.Qasm

/-- How a token is written: a number with any digits that give its value, all else with its own text. -/
def Token.WrittenAs (token : Token) (written : List Char) : Prop :=
  match token with
  | .integer value => Digits written ∧ Decimal.digitsValue written = value
  | .decimal value => ∃ numeral, Decimal.numeral? written = some (numeral, []) ∧ numeral.toFloat = value
  | token => written = token.text.toList

theorem isDigit_of_mem_spanDigits {text : List Char} : ∀ c ∈ (Decimal.spanDigits text).1, c.isDigit = true := by
  intro c member
  rw [Decimal.spanDigits, List.span_eq_takeWhile_dropWhile] at member
  exact List.mem_takeWhile_imp member

/-- What a number may end with: its mark, a sign and digits, or nothing. -/
inductive IsExponent : List Char → Prop where
  | none : IsExponent []
  | some {mark : Char} {sign digits : List Char} (letter : (mark == 'e' || mark == 'E') = true)
      (signed : sign = [] ∨ sign = ['+'] ∨ sign = ['-']) (run : Digits digits) : IsExponent (mark :: sign ++ digits)

theorem isExponent_exponentSpan (text : List Char) : IsExponent (exponentSpan text).1 := by
  unfold exponentSpan
  split
  · split
    · next letter =>
      dsimp only
      split
      all_goals
        dsimp only
        split
        · exact .none
        · next filled =>
          apply IsExponent.some letter _ ⟨_, isDigit_of_mem_spanDigits⟩
          · simp
          · simpa using filled
    · exact .none
  · exact .none

theorem IsExponent.letter {exponent : List Char} (known : IsExponent exponent) :
    ∀ c ∈ exponent.head?, c = 'e' ∨ c = 'E' := by
  cases known with
  | none => exact nofun
  | some letter =>
    rintro c ⟨⟩
    simpa using letter

theorem IsExponent.stops {exponent : List Char} (known : IsExponent exponent) :
    ∀ c ∈ exponent.head?, c.isDigit = false := by
  intro c head
  obtain rfl | rfl := known.letter c head <;> rfl

/-- An exponent is read whole. -/
theorem IsExponent.read {exponent : List Char} (known : IsExponent exponent) (value : Int) :
    ∃ read, (Decimal.exponentPart? exponent).getD (value, exponent) = (read, []) := by
  cases known with
  | none => exact ⟨value, rfl⟩
  | @some mark sign digits letter signed run =>
    obtain ⟨first, others, rfl⟩ := List.exists_cons_of_ne_nil run.nonempty
    have digit := run.each first List.mem_cons_self
    have whole : Decimal.spanDigits (first :: others ++ []) = (first :: others, []) := span_of_ends [] run.each nofun
    rw [List.append_nil] at whole
    obtain rfl | rfl | rfl := signed
    · have plus : first ≠ '+' := by
        rintro rfl
        cases digit
      have minus : first ≠ '-' := by
        rintro rfl
        cases digit
      refine ⟨Decimal.digitsValue (first :: others), ?_⟩
      simp [Decimal.exponentPart?, letter, whole, plus, minus]
    · refine ⟨Decimal.digitsValue (first :: others), ?_⟩
      simp [Decimal.exponentPart?, letter, whole]
    · refine ⟨-Decimal.digitsValue (first :: others), ?_⟩
      simp [Decimal.exponentPart?, letter, whole]

theorem numeral?_fraction {whole digits exponent : List Char} (each : ∀ c ∈ whole, c.isDigit = true)
    (more : ∀ c ∈ digits, c.isDigit = true) (filled : (whole.isEmpty && digits.isEmpty) = false)
    (known : IsExponent exponent) :
    ∃ numeral, Decimal.numeral? (whole ++ '.' :: digits ++ exponent) = some (numeral, []) := by
  have first : Decimal.spanDigits (whole ++ '.' :: digits ++ exponent) = (whole, '.' :: (digits ++ exponent)) := by
    rw [List.append_assoc]
    exact span_of_ends _ each fun c head => by cases head; rfl
  have second : Decimal.spanDigits (digits ++ exponent) = (digits, exponent) := span_of_ends _ more known.stops
  obtain ⟨value, read⟩ := known.read 0
  refine ⟨⟨Decimal.digitsValue (whole ++ digits), value - digits.length⟩, ?_⟩
  simp only [Decimal.numeral?, first, second, filled, read]
  rfl

theorem numeral?_whole {whole exponent : List Char} (run : Digits whole) (known : IsExponent exponent) :
    ∃ numeral, Decimal.numeral? (whole ++ exponent) = some (numeral, []) := by
  have first : Decimal.spanDigits (whole ++ exponent) = (whole, exponent) := span_of_ends _ run.each known.stops
  have filled : whole.isEmpty = false := by simpa using run.nonempty
  obtain ⟨value, read⟩ := known.read 0
  refine ⟨⟨Decimal.digitsValue (whole ++ []), value - 0⟩, ?_⟩
  unfold Decimal.numeral?
  rw [first]
  dsimp only
  split
  · exact absurd (known.letter '.' rfl) (by decide)
  · simp only [filled, read]
    rfl

theorem writtenAs_decimalValue {written : List Char} (read : ∃ numeral, Decimal.numeral? written = some (numeral, [])) :
    (Token.decimal (decimalValue written)).WrittenAs written := by
  obtain ⟨numeral, same⟩ := read
  refine ⟨numeral, same, ?_⟩
  rw [decimalValue, same]

theorem fraction_of_startsNumber {text tail : List Char} (starts : startsNumber text = true)
    (point : (Decimal.spanDigits text).2 = '.' :: tail) :
    ((Decimal.spanDigits text).1.isEmpty && (Decimal.spanDigits tail).1.isEmpty) = false := by
  apply Bool.and_eq_false_imp.mpr
  intro none
  obtain ⟨c, rest, same, digit⟩ := point_of_startsNumber starts (List.isEmpty_iff.mp none)
  have both := spanDigits_append text
  rw [List.isEmpty_iff.mp none, List.nil_append, point] at both
  cases both.trans same
  rw [Decimal.spanDigits, List.span_eq_takeWhile_dropWhile, List.takeWhile_cons_of_pos digit]
  rfl

theorem writtenAs_numberPiece {text written rest : List Char} {token : Token} (starts : startsNumber text = true)
    (found : numberPiece text = .token token written rest) : token.WrittenAs written := by
  have splits := splits_numberPiece starts
  rw [found] at splits
  unfold numberPiece at found
  dsimp only at found
  split at found
  · next tail point =>
    simp only [List.isEmpty_cons, Bool.false_and, Bool.false_eq_true, if_false] at found
    cases found
    apply writtenAs_decimalValue
    exact numeral?_fraction isDigit_of_mem_spanDigits isDigit_of_mem_spanDigits
      (fraction_of_startsNumber starts point) (isExponent_exponentSpan _)
  · next point =>
    dsimp only at found
    split at found
    · split at found
      · cases found
        exact ⟨⟨splits.2, isDigit_of_mem_spanDigits⟩, rfl⟩
      · cases found
    · cases found
      have whole := whole_of_startsNumber starts point
      rw [List.append_nil]
      apply writtenAs_decimalValue
      exact numeral?_whole ⟨whole, isDigit_of_mem_spanDigits⟩ (isExponent_exponentSpan _)

theorem writtenAs_namePiece {text written rest : List Char} {token : Token}
    (found : namePiece text = .token token written rest) : token.WrittenAs written := by
  unfold namePiece at found
  dsimp only at found
  split at found
  · next word reserved =>
    cases found
    unfold Keyword.ofText? at reserved
    have same := List.find?_some reserved
    change _ = word.text.toList
    rw [beq_iff_eq.mp same, String.toList_ofList]
  · cases found
    exact String.toList_ofList.symm

theorem writtenAs_quotedPiece {text written rest : List Char} {token : Token}
    (found : quotedPiece text = .token token written rest) : token.WrittenAs written := by
  unfold quotedPiece at found
  rw [List.span_eq_takeWhile_dropWhile] at found
  dsimp only at found
  split at found
  · next quote rest same =>
    cases found
    have ends := List.head?_dropWhile_not (· != '"') text.tail
    rw [same, List.head?_cons] at ends
    obtain rfl : quote = '"' := by simpa using ends
    simp [Token.WrittenAs, Token.text]
  · cases found

theorem writtenAs_mark? {text written rest : List Char} {mark : Mark}
    (found : mark? text = some (mark, written, rest)) : (Token.mark mark).WrittenAs written := by
  unfold mark? at found
  split at found <;> cases found <;> rfl

theorem writtenAs_of_piece {text written rest : List Char} {token : Token}
    (piece : Piece.ofText text = .token token written rest) : token.WrittenAs written := by
  cases Piece.heads piece with
  | integer starts found => exact writtenAs_numberPiece starts found
  | decimal starts found => exact writtenAs_numberPiece starts found
  | word _ found => exact writtenAs_namePiece found
  | quoted found => exact writtenAs_quotedPiece found
  | mark found => exact writtenAs_mark? found

/-- What separates tokens, with the rest of the text: a blank, a comment up to the end of its line, or one up to the
first mark that closes it. -/
inductive IsGap : List Char → List Char → Prop where
  | blank {c : Char} (blank : isBlank c = true) (rest : List Char) : IsGap [c] rest
  | line {body rest : List Char} (within : '\n' ∉ body) (ends : ∀ c ∈ rest.head?, c = '\n') :
      IsGap ('/' :: '/' :: body) rest
  | comment {body : List Char} (first : ¬['*', '/'] <:+: body) (rest : List Char) :
      IsGap ('/' :: '*' :: (body ++ ['*', '/'])) rest

theorem commentBody?_first {text passed rest : List Char} (closed : commentBody? text = some (passed, rest)) :
    ∃ body, passed = body ++ ['*', '/'] ∧ ¬['*', '/'] <:+: body := by
  fun_induction commentBody? text generalizing passed with
  | case1 =>
    cases closed
    exact ⟨[], rfl, by simp⟩
  | case2 c text unclosed ih =>
    obtain ⟨⟨passed, _⟩, found, same⟩ := Option.map_eq_some_iff.mp closed
    cases same
    obtain ⟨body, rfl, first⟩ := ih found
    refine ⟨c :: body, rfl, fun earlier => ?_⟩
    obtain ⟨more, starts⟩ | later := List.infix_cons_iff.mp earlier
    · obtain ⟨star, slash⟩ := List.cons.inj starts
      have both := (commentBody?_append found).1
      rw [← slash] at both
      exact unclosed _ star.symm both.symm
    · exact first later
  | case3 => cases closed

theorem isGap_of_piece {text passed rest : List Char} (piece : Piece.ofText text = .gap passed rest)
    (some : text ≠ []) : IsGap passed rest := by
  cases Piece.heads piece with
  | nothing => contradiction
  | line body =>
    apply IsGap.line
    · intro member
      simpa using List.mem_takeWhile_imp member
    · intro c head
      have ends := List.head?_dropWhile_not (· != '\n') body
      rw [head] at ends
      simpa using ends
  | comment closed =>
    obtain ⟨body, rfl, first⟩ := commentBody?_first closed
    exact .comment first rest
  | blank blank => exact .blank blank rest

end CircuitCloak.Qasm

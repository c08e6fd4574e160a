import CircuitCloak.Qasm.Lexeme
import CircuitCloak.Proofs.Results
import Mathlib.Data.List.TakeDrop
import Mathlib.Data.List.TakeWhile

/-! Which tokens a text is cut into. A text is taken apart as it was put together: what ends in a mark or a
blank is cut by itself, whatever follows, and a name or a number is cut by itself where nothing follows that
would lengthen it. Numbers are taken at any size at first; a whole number that is no word of 64 bits spoils the
text in the end. -/

namespace CircuitCloak.Qasm

/-- A whole number is a word of 64 bits. -/
def Token.Sized : Token → Prop
  | .integer value => value < longWordCount
  | _ => True

def Sized (tokens : List Token) : Prop := ∀ token ∈ tokens, token.Sized

/-- A text falls into pieces that have the given tokens, with whole numbers of any size. -/
inductive Falls : List Char → List Token → Prop where
  | done : Falls [] []
  | gap {text passed rest tokens} (piece : Piece.ofText text = .gap passed rest)
      (shorter : rest.length < text.length) (later : Falls rest tokens) : Falls text tokens
  | token {text token written rest tokens} (piece : Piece.ofText text = .token token written rest)
      (shorter : rest.length < text.length) (later : Falls rest tokens) : Falls text (token :: tokens)
  | oversized {text spoilt value rest tokens} (piece : Piece.ofText text = .invalid spoilt)
      (large : longWordCount ≤ value) (shorter : rest.length < text.length) (later : Falls rest tokens) :
      Falls text (.integer value :: tokens)

/-- The tokens of lexemes, wherever these stand. -/
def tokensOf (lexemes : List Lexeme) : List Token := lexemes.map (·.token)

/-- A number is a token or spoils the text. -/
theorem numberPiece_cases (text : List Char) :
    (∃ value written rest, numberPiece text = .token (.integer value) written rest ∧ value < longWordCount) ∨
      (∃ value written rest, numberPiece text = .token (.decimal value) written rest) ∨
        ∃ spoilt, numberPiece text = .invalid spoilt := by
  unfold numberPiece
  dsimp only
  split
  all_goals
    split
    · split
      · exact .inl ⟨_, _, _, rfl, ‹_›⟩
      · exact .inr (.inr ⟨_, rfl⟩)
    · exact .inr (.inl ⟨_, _, _, rfl⟩)

def Token.IsWord : Token → Prop
  | .keyword _ | .identifier _ => True
  | _ => False

theorem namePiece_cases (text : List Char) :
    ∃ token written rest, namePiece text = .token token written rest ∧ token.IsWord := by
  unfold namePiece
  dsimp only
  split <;> exact ⟨_, _, _, rfl, trivial⟩

theorem quotedPiece_cases (text : List Char) :
    (∃ body written rest, quotedPiece text = .token (.quoted body) written rest) ∨
      ∃ spoilt, quotedPiece text = .invalid spoilt := by
  unfold quotedPiece
  dsimp only
  split
  · exact .inl ⟨_, _, _, rfl⟩
  · exact .inr ⟨_, rfl⟩

/-- What the head of a text can be, by the characters it starts with. -/
inductive Piece.Heads : List Char → Piece → Prop where
  | nothing : Heads [] (.gap [] [])
  | line (body : List Char) :
      Heads ('/' :: '/' :: body) (.gap ('/' :: '/' :: body.takeWhile (· != '\n')) (body.dropWhile (· != '\n')))
  | comment {body passed rest : List Char} (closed : commentBody? body = some (passed, rest)) :
      Heads ('/' :: '*' :: body) (.gap ('/' :: '*' :: passed) rest)
  | blank {c : Char} (blank : isBlank c = true) (rest : List Char) : Heads (c :: rest) (.gap [c] rest)
  | integer {text written rest : List Char} {value : Nat} (starts : startsNumber text = true)
      (found : numberPiece text = .token (.integer value) written rest) (small : value < longWordCount) :
      Heads text (.token (.integer value) written rest)
  | decimal {text written rest : List Char} {value : Float} (starts : startsNumber text = true)
      (found : numberPiece text = .token (.decimal value) written rest) : Heads text (.token (.decimal value) written rest)
  | word {c : Char} {tail written rest : List Char} {token : Token} (starts : isNameStart c = true)
      (found : namePiece (c :: tail) = .token token written rest) (word : token.IsWord) :
      Heads (c :: tail) (.token token written rest)
  | quoted {tail written rest : List Char} {body : String}
      (found : quotedPiece ('"' :: tail) = .token (.quoted body) written rest) :
      Heads ('"' :: tail) (.token (.quoted body) written rest)
  | mark {text : List Char} {mark : Mark} {written rest : List Char} (found : mark? text = some (mark, written, rest)) :
      Heads text (.token (.mark mark) written rest)
  | stray (text spoilt : List Char) : Heads text (.invalid spoilt)

theorem Piece.heads_ofText (text : List Char) : Piece.Heads text (.ofText text) := by
  unfold Piece.ofText
  split
  · exact .nothing
  · next body =>
    have span : ('/' :: '/' :: body).span (· != '\n') =
        ('/' :: '/' :: body.takeWhile (· != '\n'), body.dropWhile (· != '\n')) := by
      rw [List.span_eq_takeWhile_dropWhile]
      rfl
    rw [span]
    exact .line body
  · split
    · exact .comment ‹_›
    · exact .stray _ _
  · split
    · exact .blank ‹_› _
    split
    · next starts =>
      obtain ⟨value, written, rest, found, small⟩ | ⟨value, written, rest, found⟩ | ⟨spoilt, found⟩ :=
        numberPiece_cases (_ :: _)
      · exact found ▸ .integer starts found small
      · exact found ▸ .decimal starts found
      · exact found ▸ .stray _ spoilt
    split
    · next starts =>
      obtain ⟨token, written, rest, found, word⟩ := namePiece_cases (_ :: _)
      exact found ▸ .word starts found word
    split
    · next quote =>
      obtain rfl := beq_iff_eq.mp quote
      obtain ⟨body, written, rest, found⟩ | ⟨spoilt, found⟩ := quotedPiece_cases ('"' :: _)
      · exact found ▸ .quoted found
      · exact found ▸ .stray _ spoilt
    split
    · exact .mark ‹_›
    · exact .stray _ _

theorem Piece.heads {text : List Char} {piece : Piece} (found : Piece.ofText text = piece) : Piece.Heads text piece :=
  found ▸ heads_ofText text

theorem sized_of_piece {text : List Char} {token : Token} {written rest : List Char}
    (found : Piece.ofText text = .token token written rest) : token.Sized := by
  cases Piece.heads found with
  | integer _ _ small => exact small
  | word _ _ word => cases token <;> trivial
  | decimal | quoted | mark => trivial

theorem lexemesFrom_of_falls {text : List Char} {tokens : List Token} (falls : Falls text tokens) :
    ∀ fuel place found, text.length ≤ fuel →
      (Sized tokens → ∃ more, lexemesFrom fuel place found text = .ok (found.reverse ++ more) ∧ tokensOf more = tokens) ∧
      (¬Sized tokens → ∃ fault, lexemesFrom fuel place found text = .error fault) := by
  induction falls with
  | done =>
    intro fuel place found _
    refine ⟨fun _ => ⟨[], ?_, rfl⟩, fun other => absurd (List.forall_mem_nil _) other⟩
    rw [List.append_nil]
    cases fuel <;> rfl
  | @gap text passed rest tokens piece shorter later ih =>
    intro fuel place found enough
    obtain ⟨fuel, rfl⟩ : ∃ less, fuel = less + 1 := ⟨fuel - 1, by omega⟩
    cases text with
    | nil => cases shorter
    | cons first text =>
      rw [lexemesFrom, piece]
      · exact ih fuel (place.advance passed) found (by omega)
      · exact List.cons_ne_nil _ _
  | @token text token written rest tokens piece shorter later ih =>
    intro fuel place found enough
    obtain ⟨fuel, rfl⟩ : ∃ less, fuel = less + 1 := ⟨fuel - 1, by omega⟩
    obtain ⟨taken, spoilt⟩ := ih fuel (place.advance written) (⟨token, place⟩ :: found) (by omega)
    have step : lexemesFrom (fuel + 1) place found text =
        lexemesFrom fuel (place.advance written) (⟨token, place⟩ :: found) rest := by
      cases text with
      | nil => cases shorter
      | cons first text =>
        rw [lexemesFrom, piece]
        exact List.cons_ne_nil _ _
    rw [step]
    refine ⟨fun sized => ?_, fun other => spoilt fun sized => other ?_⟩
    · obtain ⟨more, done, same⟩ := taken (List.forall_mem_cons.mp sized).2
      refine ⟨⟨token, place⟩ :: more, ?_, congrArg (token :: ·) same⟩
      rw [done, List.reverse_cons, List.append_assoc]
      rfl
    · exact List.forall_mem_cons.mpr ⟨sized_of_piece piece, sized⟩
  | @oversized text spoilt value rest tokens piece large shorter later ih =>
    intro fuel place found enough
    obtain ⟨fuel, rfl⟩ : ∃ less, fuel = less + 1 := ⟨fuel - 1, by omega⟩
    refine ⟨fun sized => absurd (List.forall_mem_cons.mp sized).1 (Nat.not_lt.mpr large), fun _ => ?_⟩
    cases text with
    | nil => cases shorter
    | cons first text =>
      rw [lexemesFrom, piece]
      · exact ⟨_, rfl⟩
      · exact List.cons_ne_nil _ _

/-- A text is cut into the given tokens. -/
structure Cuts (text : List Char) (tokens : List Token) : Prop where
  falls : Falls text tokens
  sized : Sized tokens

theorem lexemes_of_cuts {source : String} {tokens : List Token} (cuts : Cuts source.toList tokens) :
    ∃ found, lexemes source = .ok found ∧ tokensOf found = tokens :=
  (lexemesFrom_of_falls cuts.falls _ ⟨1, 0⟩ [] (Nat.le_refl _)).1 cuts.sized

/-- A text with a whole number that is too large is not cut. -/
theorem sized_of_lexemes {source : String} {tokens : List Token} (falls : Falls source.toList tokens)
    {found : List Lexeme} (cut : lexemes source = .ok found) : Sized tokens := by
  by_contra other
  obtain ⟨fault, failed⟩ := (lexemesFrom_of_falls falls _ ⟨1, 0⟩ [] (Nat.le_refl _)).2 other
  cases cut.symm.trans failed

/-- Nothing that would lengthen a name or a number. -/
def Ends (rest : List Char) : Prop := ∀ c ∈ rest.head?, isNamePart c = false ∧ c ≠ '.'

/-- A part of a text that is cut by itself. -/
def Cut (text : String) (tokens : List Token) : Prop :=
  ∀ rest more, Falls rest more → Falls (text.toList ++ rest) (tokens ++ more)

/-- A part of a text that is cut by itself where a name or a number may end. -/
def Word (text : String) (tokens : List Token) : Prop :=
  ∀ rest more, Ends rest → Falls rest more → Falls (text.toList ++ rest) (tokens ++ more)

/-- A text at whose start a name or a number may end. -/
def Parts (text : String) : Prop := ∃ first rest, text.toList = first :: rest ∧ isNamePart first = false ∧ first ≠ '.'

theorem Parts.ends {text : String} (parts : Parts text) (rest : List Char) : Ends (text.toList ++ rest) := by
  obtain ⟨first, others, same, outside, point⟩ := parts
  rw [same]
  rintro c ⟨⟩
  exact ⟨outside, point⟩

theorem Parts.append {first second : String} (parts : Parts first) : Parts (first ++ second) := by
  obtain ⟨c, others, same, outside⟩ := parts
  exact ⟨c, others ++ second.toList, by rw [String.toList_append, same]; rfl, outside⟩

section Appending

variable {first second : String} {tokens more : List Token}

theorem Cut.word (cut : Cut first tokens) : Word first tokens := fun rest more _ => cut rest more

theorem Cut.empty : Cut "" [] := fun _ _ falls => falls

theorem Cut.append (one : Cut first tokens) (other : Cut second more) : Cut (first ++ second) (tokens ++ more) := by
  intro rest later falls
  rw [String.toList_append, List.append_assoc, List.append_assoc]
  exact one _ _ (other _ _ falls)

theorem Cut.before (one : Cut first tokens) (other : Word second more) : Word (first ++ second) (tokens ++ more) := by
  intro rest later ends falls
  rw [String.toList_append, List.append_assoc, List.append_assoc]
  exact one _ _ (other _ _ ends falls)

/-- A name or a number is closed by what follows it. -/
theorem Word.close (one : Word first tokens) (other : Cut second more) (parts : Parts second) :
    Cut (first ++ second) (tokens ++ more) := by
  intro rest later falls
  rw [String.toList_append, List.append_assoc, List.append_assoc]
  exact one _ _ (parts.ends rest) (other _ _ falls)

theorem Word.append (one : Word first tokens) (other : Word second more) (parts : Parts second) :
    Word (first ++ second) (tokens ++ more) := by
  intro rest later ends falls
  rw [String.toList_append, List.append_assoc, List.append_assoc]
  exact one _ _ (parts.ends rest) (other _ _ ends falls)

theorem Cut.join {texts : List String} {tokens : String → List Token} (cut : ∀ text ∈ texts, Cut text (tokens text)) :
    Cut (String.join texts) (texts.flatMap tokens) := by
  induction texts with
  | nil => exact .empty
  | cons text rest ih =>
    obtain ⟨first, others⟩ := List.forall_mem_cons.mp cut
    rw [String.join_cons]
    exact first.append (ih others)

end Appending

theorem cut_of_token {text : String} {token : Token} (nonempty : text ≠ "")
    (piece : ∀ rest, Piece.ofText (text.toList ++ rest) = .token token text.toList rest) : Cut text [token] := by
  intro rest more falls
  refine .token (piece rest) ?_ falls
  have length : 0 < text.toList.length := List.length_pos_iff.mpr (by simpa using nonempty)
  rw [List.length_append]
  omega

theorem cut_of_gap {text : String} (nonempty : text ≠ "")
    (piece : ∀ rest, Piece.ofText (text.toList ++ rest) = .gap text.toList rest) : Cut text [] := by
  intro rest more falls
  refine .gap (piece rest) ?_ falls
  have length : 0 < text.toList.length := List.length_pos_iff.mpr (by simpa using nonempty)
  rw [List.length_append]
  omega

theorem cut_space : Cut " " [] := cut_of_gap (by decide) fun _ => rfl

theorem parts_space : Parts " " := ⟨_, _, rfl, rfl, by decide⟩

theorem cut_newline : Cut "\n" [] := cut_of_gap (by decide) fun _ => rfl

theorem isNamePart_of_isNameStart {c : Char} (start : isNameStart c = true) : isNamePart c = true := by
  unfold isNameStart at start
  unfold isNamePart Char.isAlphanum
  rw [Bool.or_right_comm, start, Bool.true_or]

/-- The lexer reads the whole text as one identifier. -/
def IsIdentifier (name : String) : Prop := Piece.ofText name.toList = .token (.identifier name) name.toList []

/-- A letter or an underscore, followed by letters, digits and underscores. -/
structure Spelled (text : List Char) : Prop where
  start : ∃ first rest, text = first :: rest ∧ isNameStart first = true
  parts : ∀ c ∈ text, isNamePart c = true

/-- Where a word is found, the text starts as a name does. -/
theorem namePiece_of_word {text : List Char} {token : Token} {written rest : List Char}
    (found : Piece.ofText text = .token token written rest) (word : token.IsWord) :
    (∃ first tail, text = first :: tail ∧ isNameStart first = true) ∧ namePiece text = .token token written rest := by
  cases Piece.heads found with
  | word starts same => exact ⟨⟨_, _, rfl, starts⟩, same⟩
  | integer | decimal | quoted | mark => cases word

theorem IsIdentifier.spelled {name : String} (identifier : IsIdentifier name) :
    Spelled name.toList ∧ Keyword.ofText? name = none := by
  unfold IsIdentifier at identifier
  obtain ⟨starts, found⟩ := namePiece_of_word identifier trivial
  unfold namePiece at found
  simp only [List.span_eq_takeWhile_dropWhile] at found
  split at found
  · cases found
  · next word reserved =>
    simp only [Piece.token.injEq, Token.identifier.injEq] at found
    obtain ⟨same, all, _⟩ := found
    exact ⟨⟨starts, List.takeWhile_eq_self_iff.mp all⟩, same ▸ reserved⟩

theorem span_of_ends {keep : Char → Bool} {text : List Char} (rest : List Char) (kept : ∀ c ∈ text, keep c = true)
    (stops : ∀ c ∈ rest.head?, keep c = false) : (text ++ rest).span keep = (text, rest) := by
  have none : rest.takeWhile keep = [] ∧ rest.dropWhile keep = rest := by
    cases rest with
    | nil => exact ⟨rfl, rfl⟩
    | cons c rest =>
      have stop := stops c rfl
      exact ⟨List.takeWhile_cons_of_neg (by simp [stop]), List.dropWhile_cons_of_neg (by simp [stop])⟩
  rw [List.span_eq_takeWhile_dropWhile, List.takeWhile_append_of_pos kept, List.dropWhile_append_of_pos kept,
    none.1, none.2, List.append_nil]

theorem not_isAlpha_of_isDigit {c : Char} (digit : c.isDigit = true) : c.isAlpha = false := by
  cases letter : c.isAlpha with
  | false => rfl
  | true =>
    delta Char.isAlpha Char.isUpper Char.isLower at letter
    simp only [Char.isDigit, Bool.or_eq_true, Bool.and_eq_true, decide_eq_true_eq, UInt32.le_iff_toNat_le,
      ge_iff_le] at digit letter
    simp at digit letter
    omega

private theorem namePiece_of_start {first : Char} {text : List Char} (start : isNameStart first = true) :
    Piece.ofText (first :: text) = namePiece (first :: text) := by
  have letter : ∀ {c : Char}, isNameStart c = false → first ≠ c := fun other same => by
    rw [← same, start] at other
    cases other
  have blank : isBlank first = false := by
    unfold isBlank
    simp [letter (c := ' ') rfl, letter (c := '\t') rfl, letter (c := '\r') rfl, letter (c := '\n') rfl]
  have digit : first.isDigit = false := by
    cases number : first.isDigit with
    | false => rfl
    | true =>
      rw [isNameStart, not_isAlpha_of_isDigit number, Bool.false_or, beq_iff_eq] at start
      rw [start] at number
      cases number
  have notNumber : startsNumber (first :: text) = false := by
    unfold startsNumber
    split
    · next same => exact absurd (List.cons.inj same).1 (letter rfl)
    · next same =>
      cases same
      exact digit
    · rfl
  unfold Piece.ofText
  split
  · contradiction
  · next same => exact absurd (List.cons.inj same).1 (letter rfl)
  · next same => exact absurd (List.cons.inj same).1 (letter rfl)
  · next c tail _ _ same =>
    cases same
    rw [if_neg (by rw [blank]; decide), if_neg (by rw [notNumber]; decide), if_pos start]

theorem word_of_spelled {name : String} (spelled : Spelled name.toList) :
    Word name [match Keyword.ofText? name with
      | some word => .keyword word
      | none => .identifier name] := by
  intro rest more ends falls
  obtain ⟨⟨first, tail, same, start⟩, parts⟩ := spelled
  have span := span_of_ends rest parts fun c member => (ends c member).1
  have found : Piece.ofText (name.toList ++ rest) = namePiece (name.toList ++ rest) := by
    rw [same]
    exact namePiece_of_start start
  have shorter : rest.length < (name.toList ++ rest).length := by
    rw [same, List.length_append, List.length_cons]
    omega
  unfold namePiece at found
  simp only [span, String.ofList_toList] at found
  have whole : Piece.ofText (name.toList ++ rest) = .token (match Keyword.ofText? name with
      | some word => .keyword word
      | none => .identifier name) name.toList rest := by
    rw [found]
    cases Keyword.ofText? name <;> rfl
  exact .token whole shorter falls

theorem word_identifier {name : String} (identifier : IsIdentifier name) : Word name [.identifier name] := by
  obtain ⟨spelled, free⟩ := identifier.spelled
  have word := word_of_spelled spelled
  rwa [free] at word

theorem isIdentifier_of_spelled {name : String} (spelled : Spelled name.toList) (free : Keyword.ofText? name = none) :
    IsIdentifier name := by
  obtain ⟨⟨first, tail, same, start⟩, parts⟩ := spelled
  have span := span_of_ends [] parts (fun _ none => by cases none)
  have found : Piece.ofText name.toList = namePiece name.toList := by
    rw [same]
    exact namePiece_of_start start
  unfold namePiece at found
  rw [List.append_nil] at span
  simp only [span, String.ofList_toList, free] at found
  exact found

theorem digitsValue_toDigits (value : Nat) : Decimal.digitsValue (Nat.toDigits 10 value) = value := by
  have same : Decimal.digitsValue (Nat.toDigits 10 value) = Nat.ofDigitChars 10 (Nat.toDigits 10 value) 0 := by
    unfold Decimal.digitsValue
    rw [Nat.ofDigitChars_eq_foldl]
    simp only [Nat.mul_comm]
  rw [same, Nat.ofDigitChars_ten_toDigits]

theorem toList_toString (value : Nat) : (toString value).toList = Nat.toDigits 10 value := Nat.toList_repr

theorem isDigit_of_mem_toString (value : Nat) : ∀ c ∈ (toString value).toList, c.isDigit = true :=
  fun _ member => Nat.isDigit_of_mem_toDigits (by decide) (by decide) (toList_toString value ▸ member)

private theorem numberPiece_of_digit {first : Char} {text : List Char} (digit : first.isDigit = true) :
    Piece.ofText (first :: text) = numberPiece (first :: text) := by
  have number : ∀ {c : Char}, c.isDigit = false → first ≠ c := fun other same => by
    rw [← same, digit] at other
    cases other
  have blank : isBlank first = false := by
    unfold isBlank
    simp [number (c := ' ') rfl, number (c := '\t') rfl, number (c := '\r') rfl, number (c := '\n') rfl]
  have starts : startsNumber (first :: text) = true := by
    unfold startsNumber
    split
    · next same => exact absurd (List.cons.inj same).1 (number rfl)
    · next same =>
      cases same
      exact digit
    · contradiction
  unfold Piece.ofText
  split
  · contradiction
  · next same => exact absurd (List.cons.inj same).1 (number rfl)
  · next same => exact absurd (List.cons.inj same).1 (number rfl)
  · next c tail _ _ same =>
    cases same
    rw [if_neg (by rw [blank]; decide), if_pos starts]

theorem exponentSpan_of_ends {rest : List Char} (ends : Ends rest) : exponentSpan rest = ([], rest) := by
  unfold exponentSpan
  split
  · next mark tail =>
    have outside := (ends mark rfl).1
    rw [if_neg]
    rw [Bool.or_eq_true, beq_iff_eq, beq_iff_eq]
    rintro (rfl | rfl) <;> cases outside
  · rfl

theorem not_isDigit_of_ends {rest : List Char} (ends : Ends rest) : ∀ c ∈ rest.head?, c.isDigit = false := by
  intro c member
  have outside := (ends c member).1
  cases digit : c.isDigit with
  | false => rfl
  | true => simp [isNamePart, Char.isAlphanum, digit] at outside

structure Digits (text : List Char) : Prop where
  nonempty : text ≠ []
  each : ∀ c ∈ text, c.isDigit = true

section Runs

variable {whole fraction rest : List Char}

theorem Digits.piece (digits : Digits whole) (rest : List Char) :
    Piece.ofText (whole ++ rest) = numberPiece (whole ++ rest) := by
  obtain ⟨first, tail, rfl⟩ := List.exists_cons_of_ne_nil digits.nonempty
  exact numberPiece_of_digit (digits.each first List.mem_cons_self)

theorem numberPiece_whole (digits : Digits whole) (ends : Ends rest) : numberPiece (whole ++ rest) =
    if Decimal.digitsValue whole < longWordCount then .token (.integer (Decimal.digitsValue whole)) whole rest
    else .invalid whole := by
  have span : Decimal.spanDigits (whole ++ rest) = (whole, rest) :=
    span_of_ends rest digits.each (not_isDigit_of_ends ends)
  unfold numberPiece
  rw [span]
  dsimp only
  split
  · exact absurd rfl (ends '.' rfl).2
  · simp only [exponentSpan_of_ends ends, List.isEmpty_nil, Bool.and_self, if_true]

theorem numberPiece_fraction (digits : Digits whole) (each : ∀ c ∈ fraction, c.isDigit = true) (ends : Ends rest) :
    numberPiece (whole ++ '.' :: fraction ++ rest) =
      .token (.decimal (decimalValue (whole ++ '.' :: fraction))) (whole ++ '.' :: fraction) rest := by
  have first : Decimal.spanDigits (whole ++ ('.' :: fraction ++ rest)) = (whole, '.' :: fraction ++ rest) :=
    span_of_ends _ digits.each fun c head => by cases head; rfl
  have second : Decimal.spanDigits (fraction ++ rest) = (fraction, rest) :=
    span_of_ends rest each (not_isDigit_of_ends ends)
  unfold numberPiece
  rw [List.append_assoc, first]
  simp only [List.cons_append, second, exponentSpan_of_ends ends, List.append_nil, List.isEmpty_cons, Bool.false_and,
    Bool.false_eq_true, if_false]

theorem word_digits {text : String} (digits : Digits text.toList) :
    Word text [.integer (Decimal.digitsValue text.toList)] := by
  intro rest more ends falls
  have piece := (digits.piece rest).trans (numberPiece_whole digits ends)
  have shorter : rest.length < (text.toList ++ rest).length := by
    have length := List.length_pos_iff.mpr digits.nonempty
    rw [List.length_append]
    omega
  split at piece
  · exact .token piece shorter falls
  · exact .oversized piece (Nat.le_of_not_lt ‹_›) shorter falls

theorem word_fraction {text : String} (same : text.toList = whole ++ '.' :: fraction) (digits : Digits whole)
    (each : ∀ c ∈ fraction, c.isDigit = true) : Word text [.decimal (decimalValue text.toList)] := by
  intro rest more ends falls
  have piece := digits.piece ('.' :: fraction ++ rest)
  rw [← List.append_assoc, numberPiece_fraction digits each ends, ← same] at piece
  refine .token piece ?_ falls
  rw [same, List.length_append, List.length_append, List.length_cons]
  omega

end Runs

theorem digits_toString (value : Nat) : Digits (toString value).toList :=
  ⟨toList_toString value ▸ Nat.toDigits_ne_nil, isDigit_of_mem_toString value⟩

theorem word_number (value : Nat) : Word (toString value) [.integer value] := by
  have read : Decimal.digitsValue (toString value).toList = value := by rw [toList_toString, digitsValue_toDigits]
  have word := word_digits (digits_toString value)
  rwa [read] at word

end CircuitCloak.Qasm

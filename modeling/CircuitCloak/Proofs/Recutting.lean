import CircuitCloak.Proofs.Cutting

/-! Taking a text apart that was cut. Every piece takes the front of what is left, so the tokens of a text tell what
stands where; and the gaps before a token stay gaps when something else is written in its place. -/

namespace CircuitCloak.Qasm

/-- A piece takes the front of a text: at least one character where it is a token or there are any. -/
def Piece.Splits (text : List Char) : Piece → Prop
  | .token _ written rest => written ++ rest = text ∧ written ≠ []
  | .gap passed rest => passed ++ rest = text ∧ (text ≠ [] → passed ≠ [])
  | .invalid _ => True

theorem spanDigits_append (text : List Char) : (Decimal.spanDigits text).1 ++ (Decimal.spanDigits text).2 = text := by
  unfold Decimal.spanDigits
  rw [List.span_eq_takeWhile_dropWhile]
  exact List.takeWhile_append_dropWhile

theorem exponentSpan_append (text : List Char) : (exponentSpan text).1 ++ (exponentSpan text).2 = text := by
  unfold exponentSpan
  split
  · split
    · dsimp only
      split
      all_goals
        dsimp only
        split
        · rfl
        · simp only [List.cons_append, List.nil_append, spanDigits_append]
    · rfl
  · rfl

/-- A number that does not start with a digit starts with a point before one. -/
theorem point_of_startsNumber {text : List Char} (starts : startsNumber text = true)
    (none : (Decimal.spanDigits text).1 = []) : ∃ c rest, text = '.' :: c :: rest ∧ c.isDigit = true := by
  unfold startsNumber at starts
  split at starts
  · exact ⟨_, _, rfl, starts⟩
  · unfold Decimal.spanDigits at none
    rw [List.span_eq_takeWhile_dropWhile, List.takeWhile_cons_of_pos starts] at none
    cases none
  · cases starts

theorem whole_of_startsNumber {text : List Char} (starts : startsNumber text = true)
    (point : ∀ rest, (Decimal.spanDigits text).2 ≠ '.' :: rest) : (Decimal.spanDigits text).1 ≠ [] := by
  intro none
  obtain ⟨c, rest, same, _⟩ := point_of_startsNumber starts none
  have both := spanDigits_append text
  rw [none, List.nil_append] at both
  exact point _ (both.trans same)

theorem splits_numberPiece {text : List Char} (starts : startsNumber text = true) : (numberPiece text).Splits text := by
  have digits := spanDigits_append text
  have first := whole_of_startsNumber starts
  unfold numberPiece
  dsimp only
  generalize Decimal.spanDigits text = span at digits first
  obtain ⟨whole, left⟩ := span
  subst digits
  dsimp only at first ⊢
  split
  · next rest =>
    simp only [List.isEmpty_cons, Bool.false_and, Bool.false_eq_true, if_false]
    refine ⟨?_, by simp⟩
    rw [List.append_assoc, exponentSpan_append, List.append_assoc, List.cons_append, spanDigits_append]
  · next _ point =>
    have some := first point
    dsimp only
    split
    · next bare =>
      have none : (exponentSpan left).1 = [] := List.isEmpty_iff.mp (Bool.and_eq_true_iff.mp bare).2
      have all := exponentSpan_append left
      rw [none, List.nil_append] at all
      split
      · exact ⟨congrArg (whole ++ ·) all, some⟩
      · trivial
    · refine ⟨?_, by simp [some]⟩
      rw [List.append_nil, List.append_assoc, exponentSpan_append]

theorem splits_namePiece {c : Char} (starts : isNameStart c = true) (rest : List Char) :
    (namePiece (c :: rest)).Splits (c :: rest) := by
  have part := isNamePart_of_isNameStart starts
  unfold namePiece
  rw [List.span_eq_takeWhile_dropWhile, List.takeWhile_cons_of_pos part]
  dsimp only
  split
  all_goals
    refine ⟨?_, List.cons_ne_nil _ _⟩
    rw [← List.takeWhile_cons_of_pos part]
    exact List.takeWhile_append_dropWhile

theorem splits_quotedPiece (text : List Char) : (quotedPiece ('"' :: text)).Splits ('"' :: text) := by
  have both : text.takeWhile (· != '"') ++ text.dropWhile (· != '"') = text := List.takeWhile_append_dropWhile
  unfold quotedPiece
  rw [List.span_eq_takeWhile_dropWhile]
  dsimp only [List.tail_cons]
  split
  · next quote rest same =>
    refine ⟨?_, List.cons_ne_nil _ _⟩
    rw [same] at both
    rw [List.append_assoc, List.cons_append, List.singleton_append, both]
  · trivial

theorem commentBody?_append {text passed rest : List Char} (closed : commentBody? text = some (passed, rest)) :
    passed ++ rest = text ∧ passed ≠ [] := by
  fun_induction commentBody? text generalizing passed with
  | case1 rest =>
    cases closed
    exact ⟨rfl, List.cons_ne_nil _ _⟩
  | case2 c text _ ih =>
    obtain ⟨⟨body, _⟩, found, same⟩ := Option.map_eq_some_iff.mp closed
    cases same
    exact ⟨congrArg (c :: ·) (ih found).1, List.cons_ne_nil _ _⟩
  | case3 => cases closed

theorem mark?_append {text : List Char} {mark : Mark} {written rest : List Char}
    (found : mark? text = some (mark, written, rest)) : written ++ rest = text ∧ written ≠ [] := by
  unfold mark? at found
  split at found <;> cases found <;> exact ⟨rfl, List.cons_ne_nil _ _⟩

theorem splits_ofText (text : List Char) : (Piece.ofText text).Splits text := by
  cases piece : Piece.ofText text with
  | invalid => trivial
  | gap passed rest =>
    cases Piece.heads piece with
    | nothing => exact ⟨rfl, fun other => absurd rfl other⟩
    | line body =>
      refine ⟨?_, fun _ => List.cons_ne_nil _ _⟩
      rw [List.cons_append, List.cons_append, List.takeWhile_append_dropWhile]
    | comment closed => exact ⟨congrArg ('/' :: '*' :: ·) (commentBody?_append closed).1, fun _ => List.cons_ne_nil _ _⟩
    | blank => exact ⟨rfl, fun _ => List.cons_ne_nil _ _⟩
  | token found written rest =>
    cases Piece.heads piece with
    | integer starts found => exact found ▸ splits_numberPiece starts
    | decimal starts found => exact found ▸ splits_numberPiece starts
    | word starts found => exact found ▸ splits_namePiece starts _
    | quoted found => exact found ▸ splits_quotedPiece _
    | mark found => exact mark?_append found

theorem Piece.splits {text : List Char} {piece : Piece} (found : Piece.ofText text = piece) : piece.Splits text :=
  found ▸ splits_ofText text

/-- The lexemes of a text from a place on, piece by piece. -/
inductive Placed : Place → List Char → List Lexeme → Prop where
  | done (place : Place) : Placed place [] []
  | gap {place text passed rest found} (piece : Piece.ofText text = .gap passed rest) (some : text ≠ [])
      (later : Placed (place.advance passed) rest found) : Placed place text found
  | token {place text token written rest found} (piece : Piece.ofText text = .token token written rest)
      (later : Placed (place.advance written) rest found) : Placed place text (⟨token, place⟩ :: found)

theorem length_lt_of_append {passed rest text : List Char} (same : passed ++ rest = text) (some : passed ≠ []) :
    rest.length < text.length := by
  have positive := List.length_pos_iff.mpr some
  rw [← same, List.length_append]
  omega

theorem placed_of_lexemesFrom {fuel : Nat} {place : Place} {found tokens : List Lexeme} {text : List Char}
    (enough : text.length ≤ fuel) (done : lexemesFrom fuel place found text = .ok tokens) :
    ∃ more, tokens = found.reverse ++ more ∧ Placed place text more := by
  induction fuel generalizing place found text with
  | zero =>
    obtain rfl := List.length_eq_zero_iff.mp (Nat.le_zero.mp enough)
    cases done
    exact ⟨[], (List.append_nil _).symm, .done place⟩
  | succ fuel ih =>
    cases text with
    | nil =>
      cases done
      exact ⟨[], (List.append_nil _).symm, .done place⟩
    | cons first text =>
      have some : first :: text ≠ [] := List.cons_ne_nil _ _
      rw [lexemesFrom] at done
      · split at done
        · next passed rest piece =>
          have splits := Piece.splits piece
          have shorter := length_lt_of_append splits.1 (splits.2 some)
          obtain ⟨more, same, later⟩ := ih (by omega) done
          exact ⟨more, same, .gap piece some later⟩
        · next token written rest piece =>
          have splits := Piece.splits piece
          have shorter := length_lt_of_append splits.1 splits.2
          obtain ⟨more, same, later⟩ := ih (by omega) done
          refine ⟨⟨token, place⟩ :: more, ?_, .token piece later⟩
          rw [same, List.reverse_cons, List.append_assoc]
          rfl
        · cases done
      · exact some

theorem placed_of_lexemes {source : String} {found : List Lexeme} (done : lexemes source = .ok found) :
    Placed ⟨1, 0⟩ source.toList found := by
  obtain ⟨more, same, placed⟩ := placed_of_lexemesFrom (Nat.le_refl _) done
  rwa [same]

theorem Placed.falls {place : Place} {text : List Char} {found : List Lexeme} (placed : Placed place text found) :
    Falls text (tokensOf found) := by
  induction placed with
  | done => exact .done
  | gap piece some _ ih =>
    have splits := Piece.splits piece
    exact .gap piece (length_lt_of_append splits.1 (splits.2 some)) ih
  | token piece _ ih =>
    have splits := Piece.splits piece
    exact .token piece (length_lt_of_append splits.1 splits.2) ih

theorem cuts_of_lexemes {source : String} {tokens : List Lexeme} (done : lexemes source = .ok tokens) :
    Cuts source.toList (tokensOf tokens) := by
  have falls := (placed_of_lexemes done).falls
  exact ⟨falls, sized_of_lexemes falls done⟩

theorem ofText_of_blank {c : Char} (blank : isBlank c = true) (rest : List Char) :
    Piece.ofText (c :: rest) = .gap [c] rest := by
  simp only [isBlank, Bool.or_eq_true, beq_iff_eq] at blank
  obtain ((rfl | rfl) | rfl) | rfl := blank <;> rfl

theorem commentBody?_of_some {text passed rest : List Char} (closed : commentBody? text = some (passed, rest))
    (more : List Char) : commentBody? (passed ++ more) = some (passed, more) := by
  fun_induction commentBody? text generalizing passed with
  | case1 rest =>
    cases closed
    rfl
  | case2 c text unclosed ih =>
    obtain ⟨⟨body, _⟩, found, same⟩ := Option.map_eq_some_iff.mp closed
    cases same
    rw [List.cons_append, commentBody?, ih found]
    · rfl
    · intro tail star slash
      obtain ⟨both, some⟩ := commentBody?_append found
      obtain ⟨first, others, rfl⟩ := List.exists_cons_of_ne_nil some
      cases slash
      exact unclosed _ star both.symm
  | case3 => cases closed

/-- A gap is taken whatever follows it, or it is a comment up to the end of its line. -/
theorem gap_cases {text passed rest : List Char} (piece : Piece.ofText text = .gap passed rest) (some : rest ≠ []) :
    (∀ more, Piece.ofText (passed ++ more) = .gap passed more) ∨
      ∃ later, rest = '\n' :: later ∧ ∀ more, Piece.ofText (passed ++ '\n' :: more) = .gap passed ('\n' :: more) := by
  cases Piece.heads piece with
  | nothing => contradiction
  | line body =>
    obtain ⟨c, later, same⟩ := List.exists_cons_of_ne_nil some
    have ends := List.head?_dropWhile_not (· != '\n') body
    rw [same, List.head?_cons] at ends
    obtain rfl : c = '\n' := by simpa using ends
    refine .inr ⟨later, same, fun more => ?_⟩
    have kept : ∀ c ∈ '/' :: '/' :: body.takeWhile (· != '\n'), (c != '\n') = true := by
      refine List.forall_mem_cons.mpr ⟨rfl, List.forall_mem_cons.mpr ⟨rfl, fun c member => ?_⟩⟩
      exact List.mem_takeWhile_imp (p := (· != '\n')) member
    have span := span_of_ends ('\n' :: more) kept (by rintro c ⟨⟩; rfl)
    rw [List.cons_append, List.cons_append] at span ⊢
    rw [Piece.ofText, span]
  | comment closed =>
    refine .inl fun more => ?_
    rw [List.cons_append, List.cons_append, Piece.ofText, commentBody?_of_some closed]
  | blank blank => exact .inl (ofText_of_blank blank)

theorem ends_of_gap {text passed rest : List Char} (piece : Piece.ofText text = .gap passed rest) : Ends text := by
  cases Piece.heads piece with
  | nothing => exact nofun
  | line | comment =>
    rintro _ ⟨⟩
    decide
  | blank blank =>
    rintro _ ⟨⟩
    simp only [isBlank, Bool.or_eq_true, beq_iff_eq] at blank
    obtain ((rfl | rfl) | rfl) | rfl := blank <;> decide

theorem ends_of_mark {text : List Char} {mark : Mark} {written rest : List Char}
    (piece : Piece.ofText text = .token (.mark mark) written rest) : Ends text := by
  cases Piece.heads piece with
  | word _ _ word => cases word
  | mark found =>
    unfold mark? at found
    split at found <;> cases found <;> rintro c ⟨⟩ <;> decide

theorem Falls.ends {text : List Char} {mark : Mark} {tokens : List Token} (falls : Falls text (.mark mark :: tokens)) :
    Ends text := by
  cases falls with
  | gap piece => exact ends_of_gap piece
  | token piece => exact ends_of_mark piece

/-- The blanks and comments at the head of a text, and the rest. The fuel is the length of the text. -/
def spanGaps : Nat → List Char → List Char × List Char
  | 0, text => ([], text)
  | fuel + 1, text =>
    match Piece.ofText text with
    | .gap passed rest => (passed ++ (spanGaps fuel rest).1, (spanGaps fuel rest).2)
    | _ => ([], text)

theorem spanGaps_append (fuel : Nat) (text : List Char) : (spanGaps fuel text).1 ++ (spanGaps fuel text).2 = text := by
  fun_induction spanGaps fuel text with
  | case1 => rfl
  | case2 fuel text passed rest piece ih => rw [List.append_assoc, ih, (Piece.splits piece).1]
  | case3 => rfl

theorem spanGaps_of_gap {text passed rest : List Char} (piece : Piece.ofText text = .gap passed rest) (fuel : Nat) :
    spanGaps (fuel + 1) text = (passed ++ (spanGaps fuel rest).1, (spanGaps fuel rest).2) := by
  rw [spanGaps, piece]

theorem ends_of_append {front rest : List Char} (ends : Ends (front ++ rest)) (some : front ≠ []) (others : List Char) :
    Ends (front ++ others) := by
  obtain ⟨c, tail, rfl⟩ := List.exists_cons_of_ne_nil some
  exact ends

theorem ne_nil_of_falls {text : List Char} {token : Token} {tokens : List Token}
    (falls : Falls text (token :: tokens)) : text ≠ [] := by
  rintro rfl
  cases falls <;> exact absurd ‹_ < _› (Nat.not_lt_zero _)

theorem falls_gap_iff {text passed rest : List Char} (piece : Piece.ofText text = .gap passed rest)
    (shorter : rest.length < text.length) {tokens : List Token} : Falls text tokens ↔ Falls rest tokens := by
  refine ⟨fun falls => ?_, .gap piece shorter⟩
  cases falls with
  | done => cases shorter
  | gap other _ later =>
    cases piece.symm.trans other
    exact later
  | token other => cases piece.symm.trans other
  | oversized other => cases piece.symm.trans other

/-- The gaps before a token keep apart what stands around them, whatever comes in place of the token. -/
theorem spanGaps_of_falls {text : List Char} {token : Token} {tokens : List Token} (sized : token.Sized)
    (falls : Falls text (token :: tokens)) {fuel : Nat} (enough : text.length ≤ fuel) :
    (∀ rest more, Falls ((spanGaps fuel text).1 ++ rest) more ↔ Falls rest more) ∧
      ((spanGaps fuel text).1 ≠ [] → ∀ rest, Ends ((spanGaps fuel text).1 ++ rest)) ∧
        ∃ written rest, Piece.ofText (spanGaps fuel text).2 = .token token written rest ∧ Falls rest tokens := by
  induction fuel generalizing text with
  | zero => exact absurd (List.length_eq_zero_iff.mp (Nat.le_zero.mp enough)) (ne_nil_of_falls falls)
  | succ fuel ih =>
    cases falls with
    | @gap _ passed rest _ piece shorter later =>
      obtain ⟨keeps, _, reached⟩ := ih later (by omega)
      obtain ⟨both, taken⟩ := Piece.splits piece
      have some := taken (ne_nil_of_falls (.gap piece shorter later))
      have longer : ∀ others : List Char, others.length < (passed ++ others).length := by
        intro others
        rw [List.length_append]
        exact Nat.lt_add_of_pos_left (List.length_pos_iff.mpr some)
      rw [spanGaps_of_gap piece]
      refine ⟨fun others more => ?_, fun _ others => ?_, reached⟩
      · rw [List.append_assoc, ← keeps others more]
        obtain always | ⟨line, rfl, always⟩ := gap_cases piece (ne_nil_of_falls later)
        · exact falls_gap_iff (always _) (longer _)
        · obtain ⟨less, rfl⟩ : ∃ less, fuel = less + 1 := ⟨fuel - 1, by rw [List.length_cons] at shorter; omega⟩
          rw [spanGaps_of_gap (ofText_of_blank rfl line)]
          exact falls_gap_iff (always _) (longer _)
      · rw [List.append_assoc]
        exact ends_of_append (both ▸ ends_of_gap piece) some _
    | token piece shorter later =>
      have none : spanGaps (fuel + 1) text = ([], text) := by rw [spanGaps, piece]
      rw [none]
      exact ⟨fun _ _ => Iff.rfl, fun other => absurd rfl other, _, _, piece, later⟩
    | oversized _ large => exact absurd sized (Nat.not_lt.mpr large)

end CircuitCloak.Qasm

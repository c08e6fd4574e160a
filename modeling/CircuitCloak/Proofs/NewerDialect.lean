import CircuitCloak.Proofs.DialectSteps
import CircuitCloak.Proofs.LoadedCircuits
import CircuitCloak.Proofs.ParsedSentences
import CircuitCloak.Proofs.Recutting

/-! The two dialects side by side. The header decides which dialect a text belongs to, so no text belongs to both; and
under the header of the newer dialect, a text of the older one is the same circuit. -/

namespace CircuitCloak.Qasm

/-- A text taken apart at its header: the gaps before the keyword, the gaps before the version literal, the literal,
and what follows it. -/
structure HeaderParts where
  before : List Char
  between : List Char
  literal : List Char
  after : List Char

/-- The text with the given characters in place of the version literal. -/
def HeaderParts.withVersion (parts : HeaderParts) (version : String) : String :=
  .ofList (parts.before ++ (Keyword.header.text.toList ++ (parts.between ++ (version.toList ++ parts.after))))

/-- The parts of a text that starts with the keyword and a version, of either dialect or of none. -/
def headerParts? (source : String) : Option HeaderParts :=
  let (before, text) := spanGaps source.toList.length source.toList
  match Piece.ofText text with
  | .token (.keyword .header) _ text =>
    let (between, text) := spanGaps text.length text
    match Piece.ofText text with
    | .token version literal after =>
      if (Parser.versionNumber version).isSome then some ⟨before, between, literal, after⟩ else none
    | _ => none
  | _ => none

/-- A reserved word is spelled in its one way. -/
theorem written_of_keyword {text : List Char} {word : Keyword} {written rest : List Char}
    (piece : Piece.ofText text = .token (.keyword word) written rest) : written = word.text.toList := by
  obtain ⟨_, found⟩ := namePiece_of_word piece trivial
  unfold namePiece at found
  rw [List.span_eq_takeWhile_dropWhile] at found
  dsimp only at found
  split at found
  · next reserved =>
    cases found
    have same := List.find?_some reserved
    rw [beq_iff_eq.mp same, String.toList_ofList]
  · cases found

theorem word_version : Word "3.0" [versionToken .qasm3] := by
  have point : "3.0".toList = "3".toList ++ '.' :: "0".toList := by decide
  have digits : Digits "3".toList := ⟨by decide, List.all_eq_true.mp rfl⟩
  exact word_fraction point digits (List.all_eq_true.mp rfl)

namespace HeaderParts

/-- The parts of a text that goes on with a semicolon and the given tokens. The gaps stay gaps whatever is written
after them. -/
structure Frames (parts : HeaderParts) (tokens : List Token) : Prop where
  front : ∀ rest more, Falls (parts.before ++ rest) more ↔ Falls rest more
  middle : ∀ rest more, Falls (parts.between ++ rest) more ↔ Falls rest more
  apart : parts.between ≠ [] → ∀ rest, Ends (parts.between ++ rest)
  follow : Falls parts.after (.mark .semicolon :: tokens)

namespace Frames

variable {parts : HeaderParts} {tokens : List Token}

theorem falls (frames : parts.Frames tokens) {version : String}
    (ends : Ends (parts.between ++ (version.toList ++ parts.after))) {more : List Token}
    (literal : Falls (version.toList ++ parts.after) more) :
    Falls (parts.withVersion version).toList (.keyword .header :: more) := by
  rw [withVersion, String.toList_ofList]
  exact (frames.front _ _).mpr (word_keyword .header _ _ ends ((frames.middle _ _).mpr literal))

theorem newer (frames : parts.Frames tokens) :
    Falls ("3.0".toList ++ parts.after) (versionToken .qasm3 :: .mark .semicolon :: tokens) :=
  word_version _ _ frames.follow.ends frames.follow

theorem separate (frames : parts.Frames tokens) (some : parts.between ≠ []) :
    Falls (parts.withVersion "3.0").toList (headerTokens .qasm3 ++ tokens) :=
  frames.falls (frames.apart some _) frames.newer

theorem spaced (frames : parts.Frames tokens) :
    Falls (parts.withVersion " 3.0").toList (headerTokens .qasm3 ++ tokens) := by
  refine frames.falls ?_ (cut_space _ _ frames.newer)
  by_cases none : parts.between = []
  · rw [none]
    exact parts_space.ends _
  · exact frames.apart none _

/-- Without a gap the literal lengthens the keyword to a name. -/
theorem glued (frames : parts.Frames tokens) (none : parts.between = []) (more : List Token) :
    ¬Falls (parts.withVersion "3.0").toList (.keyword .header :: more) := by
  intro falls
  rw [withVersion, String.toList_ofList, none] at falls
  have name : Piece.ofText (Keyword.header.text.toList ++ ([] ++ ("3.0".toList ++ parts.after))) =
      .token (.identifier "OPENQASM3") "OPENQASM3".toList (".0".toList ++ parts.after) := by rfl
  cases (frames.front _ _).mp falls with
  | gap piece => cases name.symm.trans piece
  | token piece => cases name.symm.trans piece

end Frames

end HeaderParts

/-- A text with a header is put together from its parts. -/
theorem headerParts_of_cuts {source : String} {version : Token} {number : String × Nat} {tokens : List Token}
    (numbered : Parser.versionNumber version = some number)
    (cuts : Cuts source.toList (.keyword .header :: version :: .mark .semicolon :: tokens)) :
    ∃ parts, headerParts? source = some parts ∧ parts.withVersion (.ofList parts.literal) = source ∧
      parts.Frames tokens := by
  obtain ⟨word, sizes⟩ := List.forall_mem_cons.mp cuts.sized
  obtain ⟨sized, _⟩ := List.forall_mem_cons.mp sizes
  obtain ⟨front, _, written, text, keyword, falls⟩ := spanGaps_of_falls word cuts.falls (Nat.le_refl _)
  obtain ⟨middle, apart, literal, after, numeral, follow⟩ := spanGaps_of_falls sized falls (Nat.le_refl _)
  have spelled := written_of_keyword keyword
  subst spelled
  refine ⟨⟨(spanGaps source.toList.length source.toList).1, (spanGaps text.length text).1, literal, after⟩,
    ?_, ?_, front, middle, apart, follow⟩
  · unfold headerParts?
    simp only [keyword, numeral, numbered, Option.isSome_some, if_true]
  · have first := splits_ofText (spanGaps source.toList.length source.toList).2
    have second := splits_ofText (spanGaps text.length text).2
    rw [keyword] at first
    rw [numeral] at second
    rw [HeaderParts.withVersion, String.toList_ofList]
    dsimp only
    rw [second.1, spanGaps_append, first.1, spanGaps_append, String.ofList_toList]

theorem Token.eq_of_beq_keyword {token : Token} {word : Keyword} (same : (token == .keyword word) = true) :
    token = .keyword word := by
  cases token with
  | keyword other => exact congrArg Token.keyword (beq_iff_eq.mp (show (other == word) = true from same))
  | mark | integer | decimal | quoted | identifier => cases same

theorem Token.eq_of_beq_mark {token : Token} {mark : Mark} (same : (token == .mark mark) = true) :
    token = .mark mark := by
  cases token with
  | mark other => exact congrArg Token.mark (beq_iff_eq.mp (show (other == mark) = true from same))
  | keyword | integer | decimal | quoted | identifier => cases same

namespace Parser

variable {setting : Setting} {lexemes rest : List Lexeme}

theorem taken_expect {token : Token} (exact : ∀ found : Token, (found == token) = true → found = token)
    (done : expect setting token lexemes = .ok ((), rest)) : tokensOf lexemes = token :: tokensOf rest := by
  cases lexemes with
  | nil => cases done
  | cons lexeme left =>
    change (if (lexeme.token == token) = true then _ else _ : Parser Unit) (lexeme :: left) = _ at done
    split at done
    · next same =>
      cases done
      exact congrArg (· :: tokensOf rest) (exact _ same)
    · cases done

/-- A header that is taken names a version of the dialect. -/
theorem taken_header (done : header setting lexemes = .ok ((), rest)) :
    ∃ version text, tokensOf lexemes = .keyword .header :: version :: .mark .semicolon :: tokensOf rest ∧
      versionNumber version = some (text, setting.dialect.versionNumber) := by
  obtain ⟨_, afterKeyword, keyword, later⟩ := bind_eq_ok_iff.mp done
  obtain ⟨found, afterVersion, literal, closing⟩ := bind_eq_ok_iff.mp later
  have first := taken_expect (fun _ => Token.eq_of_beq_keyword) keyword
  cases afterKeyword with
  | nil =>
    cases literal
    cases closing
  | cons lexeme left =>
    cases literal
    cases numbered : versionNumber lexeme.token with
    | none =>
      simp only [numbered] at closing
      cases closing
    | some number =>
      obtain ⟨text, major⟩ := number
      simp only [numbered] at closing
      split at closing
      · cases closing
      · next same =>
        have last := taken_expect (fun _ => Token.eq_of_beq_mark) closing
        refine ⟨lexeme.token, text, ?_, ?_⟩
        · rw [first, ← last]
          rfl
        · rw [numbered, not_not.mp same]

theorem taken_program {read : List Statement} (done : program setting lexemes = .ok (read, rest)) :
    ∃ version text left, tokensOf lexemes = .keyword .header :: version :: .mark .semicolon :: tokensOf left ∧
      versionNumber version = some (text, setting.dialect.versionNumber) ∧
        (bound >>= fun fuel => statementsFrom setting fuel []) left = .ok (read, rest) := by
  obtain ⟨_, left, headed, later⟩ := bind_eq_ok_iff.mp done
  obtain ⟨version, text, same, numbered⟩ := taken_header headed
  exact ⟨version, text, left, same, numbered, later⟩

end Parser

theorem statements_eq_ok_iff {dialect : Dialect} {source : String} {read : List Statement} :
    statements dialect source = .ok read ↔ ∃ found rest, lexemes source = .ok found ∧
      Parser.program ⟨dialect, (found.getLast?.map (·.place.line)).getD 1⟩ found = .ok (read, rest) := by
  unfold statements
  cases lexemes source with
  | error fault => exact ⟨nofun, fun ⟨_, _, other, _⟩ => nomatch other⟩
  | ok found =>
    change (Parser.program _ found >>= _) = _ ↔ _
    rw [bind_eq_ok_iff]
    constructor
    · rintro ⟨⟨_, rest⟩, done, same⟩
      cases same
      exact ⟨found, rest, rfl, done⟩
    · rintro ⟨_, rest, same, done⟩
      cases same
      exact ⟨⟨read, rest⟩, done, rfl⟩

/-- What is read in the older dialect is read again from any text that is cut into the header of the newer dialect and
the same tokens after it. -/
theorem statements_again {source : String} {read : List Statement} (done : statements .qasm2 source = .ok read) :
    ∃ version number tokens, Parser.versionNumber version = some number ∧
      Cuts source.toList (.keyword .header :: version :: .mark .semicolon :: tokens) ∧
        ∀ replaced : String, Falls replaced.toList (headerTokens .qasm3 ++ tokens) →
          statements .qasm3 replaced = .ok read := by
  obtain ⟨found, rest, lexed, run⟩ := statements_eq_ok_iff.mp done
  obtain ⟨version, text, left, same, numbered, later⟩ := Parser.taken_program run
  have cuts : Cuts source.toList (.keyword .header :: version :: .mark .semicolon :: tokensOf left) :=
    same ▸ cuts_of_lexemes lexed
  refine ⟨version, _, tokensOf left, numbered, cuts, fun replaced falls => ?_⟩
  have sized : Sized (headerTokens .qasm3 ++ tokensOf left) := by
    obtain ⟨word, sizes⟩ := List.forall_mem_cons.mp cuts.sized
    obtain ⟨_, others⟩ := List.forall_mem_cons.mp sizes
    exact List.forall_mem_cons.mpr ⟨word, List.forall_mem_cons.mpr ⟨trivial, others⟩⟩
  obtain ⟨others, recut, alike⟩ := lexemes_of_cuts ⟨falls, sized⟩
  obtain ⟨front, back, rfl, header, body⟩ := List.map_eq_append_iff.mp alike
  obtain ⟨last, finished, _⟩ := Parser.within_body rfl left back read rest body.symm later
  have headed := reads_header (((front ++ back).getLast?.map (·.place.line)).getD 1) .qasm3 front back header trivial
  exact statements_eq_ok_iff.mpr ⟨_, last, recut, Parser.bind_eq_ok_iff.mpr ⟨(), back, headed, finished⟩⟩

/-- No text has statements in both dialects: its one header would name two versions. -/
theorem statements_apart {source : String} {read other : List Statement} (older : statements .qasm2 source = .ok read)
    (newer : statements .qasm3 source = .ok other) : False := by
  obtain ⟨found, _, lexed, run⟩ := statements_eq_ok_iff.mp older
  obtain ⟨_, _, again, rerun⟩ := statements_eq_ok_iff.mp newer
  cases lexed.symm.trans again
  obtain ⟨version, _, _, first, two, _⟩ := Parser.taken_program run
  obtain ⟨_, _, _, second, three, _⟩ := Parser.taken_program rerun
  obtain ⟨same, _⟩ := List.cons.inj (List.cons.inj (first.symm.trans second)).2
  subst same
  cases two.symm.trans three

/-- Loading with the newer dialect tried first. -/
def loadNewerFirst (source : String) : Except (Halt ParseError) (Circuit × Dialect) :=
  match parse .qasm3 source with
  | .ok circuit => .ok (circuit, .qasm3)
  | .error .panic => .error .panic
  | .error (.refused asQasm3) =>
    match parse .qasm2 source with
    | .ok circuit => .ok (circuit, .qasm2)
    | .error .panic => .error .panic
    | .error (.refused asQasm2) => .error (.refused (.unrecognized asQasm2 asQasm3))

/-- One of the two dialects refuses a text. -/
theorem refused_in_one (source : String) :
    (∃ fault, parse .qasm2 source = .error (.refused fault)) ∨ ∃ fault, parse .qasm3 source = .error (.refused fault) := by
  by_contra neither
  obtain ⟨older, newer⟩ := not_or.mp neither
  obtain ⟨_, first, _⟩ := exists_statements_of_parse (not_exists.mp older)
  obtain ⟨_, second, _⟩ := exists_statements_of_parse (not_exists.mp newer)
  exact statements_apart first second

/-- No text is a circuit in both dialects. -/
theorem parse_apart {source : String} {circuit other : Circuit} (older : parse .qasm2 source = .ok circuit)
    (newer : parse .qasm3 source = .ok other) : False := by
  rcases refused_in_one source with ⟨fault, refused⟩ | ⟨fault, refused⟩
  · cases older.symm.trans refused
  · cases newer.symm.trans refused

theorem loadNewerFirst_eq (source : String) : loadNewerFirst source = load source := by
  rcases refused_in_one source with ⟨fault, refused⟩ | ⟨fault, refused⟩
  · rcases newer : parse .qasm3 source with (_ | _) | _ <;> simp [loadNewerFirst, load, refused, newer]
  · rcases older : parse .qasm2 source with (_ | _) | _ <;> simp [loadNewerFirst, load, refused, older]

/-- A text of the older dialect has parts, and whatever is cut into its tokens under the header of the newer dialect
is the same circuit. -/
theorem exists_parts_of_parse {source : String} {circuit : Circuit} (parsed : parse .qasm2 source = .ok circuit) :
    ∃ parts tokens, headerParts? source = some parts ∧ parts.withVersion (.ofList parts.literal) = source ∧
      parts.Frames tokens ∧ ∀ replaced : String, Falls replaced.toList (headerTokens .qasm3 ++ tokens) →
        parse .qasm3 replaced = .ok circuit := by
  obtain ⟨read, done, made⟩ := parse_eq_ok_iff.mp parsed
  obtain ⟨version, number, tokens, numbered, cuts, again⟩ := statements_again done
  obtain ⟨parts, found, whole, frames⟩ := headerParts_of_cuts numbered cuts
  exact ⟨parts, tokens, found, whole, frames, fun replaced falls =>
    parse_eq_ok_iff.mpr ⟨read, again replaced falls, made⟩⟩

/-- A version right after the keyword leaves no header. -/
theorem parse_glued {parts : HeaderParts} {tokens : List Token} (frames : parts.Frames tokens)
    (none : parts.between = []) (circuit : Circuit) : parse .qasm3 (parts.withVersion "3.0") ≠ .ok circuit := by
  intro parsed
  obtain ⟨_, done, _⟩ := parse_eq_ok_iff.mp parsed
  obtain ⟨_, _, lexed, run⟩ := statements_eq_ok_iff.mp done
  obtain ⟨_, _, _, same, _⟩ := Parser.taken_program run
  exact frames.glued none _ (same ▸ (cuts_of_lexemes lexed).falls)

/-- A circuit in the older dialect is the same circuit in the newer one with the newer version written instead, if a
gap separates it from the keyword. No text is a circuit in both dialects, so the order in which they are tried does
not matter. -/
theorem dialects_nested (source : String) :
    (∀ circuit, parse .qasm2 source = .ok circuit → ∃ parts, headerParts? source = some parts ∧
      parts.withVersion (.ofList parts.literal) = source ∧
        (parse .qasm3 (parts.withVersion "3.0") = .ok circuit ↔ parts.between ≠ []) ∧
          parse .qasm3 (parts.withVersion " 3.0") = .ok circuit) ∧
      (∀ older newer, ¬(parse .qasm2 source = .ok older ∧ parse .qasm3 source = .ok newer)) ∧
        loadNewerFirst source = load source := by
  refine ⟨fun circuit parsed => ?_, fun older newer ⟨first, second⟩ => parse_apart first second,
    loadNewerFirst_eq source⟩
  obtain ⟨parts, tokens, found, whole, frames, again⟩ := exists_parts_of_parse parsed
  refine ⟨parts, found, whole, ⟨fun same none => ?_, fun some => ?_⟩, ?_⟩
  · exact parse_glued frames none circuit same
  · exact again _ (frames.separate some)
  · exact again _ frames.spaced

theorem exists_of_isOk {outcome : Except (Halt ParseError) Circuit} (ok : outcome.isOk = true) :
    ∃ circuit, outcome = .ok circuit := by
  cases outcome with
  | error => cases ok
  | ok circuit => exact ⟨circuit, rfl⟩

theorem dialects_nested_controlled : ∃ circuit, parse .qasm2 "OPENQASM 2;qreg q[2];CX q[0],q[1];" = .ok circuit ∧
    parse .qasm3 "OPENQASM 3.0;qreg q[2];CX q[0],q[1];" = .ok circuit := by
  have accepted : (parse .qasm2 "OPENQASM 2;qreg q[2];CX q[0],q[1];").isOk = true := by decide +kernel
  obtain ⟨circuit, older⟩ := exists_of_isOk accepted
  obtain ⟨parts, found, _, separate, _⟩ := (dialects_nested "OPENQASM 2;qreg q[2];CX q[0],q[1];").1 circuit older
  have taken : headerParts? "OPENQASM 2;qreg q[2];CX q[0],q[1];" =
      some ⟨[], [' '], ['2'], ";qreg q[2];CX q[0],q[1];".toList⟩ := by rfl
  cases taken.symm.trans found
  exact ⟨circuit, older, separate.mpr (List.cons_ne_nil _ _)⟩

/-- A version that starts with a point may follow the keyword at once; the newer one may not. -/
theorem pointed_version_not_replaced : ∃ circuit, parse .qasm2 "OPENQASM.2e1;qreg q[1];" = .ok circuit ∧
    ∃ parts, headerParts? "OPENQASM.2e1;qreg q[1];" = some parts ∧ parts.literal = ".2e1".toList ∧
      parts.withVersion "3.0" = "OPENQASM3.0;qreg q[1];" ∧
        ∀ other, parse .qasm3 (parts.withVersion "3.0") ≠ .ok other := by
  have accepted : (parse .qasm2 "OPENQASM.2e1;qreg q[1];").isOk = true := by decide +kernel
  obtain ⟨circuit, older⟩ := exists_of_isOk accepted
  obtain ⟨parts, tokens, found, _, frames, _⟩ := exists_parts_of_parse older
  have taken : headerParts? "OPENQASM.2e1;qreg q[1];" = some ⟨[], [], ".2e1".toList, ";qreg q[1];".toList⟩ := by rfl
  cases taken.symm.trans found
  exact ⟨circuit, older, _, taken, rfl, rfl, parse_glued frames rfl⟩

end CircuitCloak.Qasm

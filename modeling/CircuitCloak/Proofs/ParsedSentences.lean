import CircuitCloak.Proofs.ParsedCalls
import CircuitCloak.Qasm.Load

/-! Parsing the tokens of a listing gives its statements back, in the dialect in which it was written; in the
other one its header is refused. -/

namespace CircuitCloak.Qasm
open CircuitCloak.Qasm.Parser

theorem Reads.mapped {α β : Type} {parser : Parser α} {tokens : List Token} {value : α} {follow : Option Token → Prop}
    (reads : Reads parser tokens value follow) (function : α → β) :
    Reads (function <$> parser) tokens (function value) follow :=
  reads.returning function

/-- What can follow the name of a call. -/
def AfterName (token : Token) : Prop := token = .mark .leftParen ∨ ∃ name, token = .identifier name

/-- A call as it is written: a name and what follows it. -/
structure WritesCall (setting : Setting) (tokens : List Token) (tree : GateCall) : Prop where
  written : ∃ name token rest, tokens = [.identifier name] ++ token :: rest ∧ AfterName token ∧
    Reads (callAfterName setting name) (token :: rest) tree Anything

section Calls

variable (setting : Setting)

theorem writesCall_of_operands (name : String) (angles : List Angle)
    {tokens : Nat → List Token} {tree : Nat → Operand} {qubits : List Nat} (nonempty : qubits ≠ [])
    (operands : ∀ qubit ∈ qubits, WritesOperand setting tokens tree qubit) :
    WritesCall setting ([.identifier name] ++ argumentTokens angles ++ commas (qubits.map tokens) ++ [.mark .semicolon])
      ⟨name, angles.map angleTree, qubits.map tree⟩ := by
  have reads := reads_callAfterName setting name angles nonempty operands
  obtain ⟨qubit, rest, same⟩ := List.exists_cons_of_ne_nil nonempty
  obtain ⟨register, others, starts⟩ := (operands qubit (same ▸ List.mem_cons_self)).starts
  obtain ⟨later, found⟩ := starts_commas _ same starts
  have order : [.identifier name] ++ argumentTokens angles ++ commas (qubits.map tokens) ++ [.mark .semicolon] =
      [.identifier name] ++ (argumentTokens angles ++ (commas (qubits.map tokens) ++ [.mark .semicolon])) := by
    simp only [List.append_assoc]
  rw [order]
  cases angles with
  | nil =>
    have first : argumentTokens [] ++ (commas (qubits.map tokens) ++ [.mark .semicolon]) =
        .identifier register :: (later ++ [.mark .semicolon]) := by
      rw [found]
      rfl
    exact ⟨name, _, _, congrArg _ first, .inr ⟨register, rfl⟩, first ▸ reads⟩
  | cons angle more => exact ⟨name, _, _, rfl, .inl rfl, reads⟩

theorem writesCall {dialect : Dialect} {call : WrittenCall} (legible : call.Legible) {tokens : Nat → List Token}
    {tree : Nat → Operand} (operands : ∀ qubit ∈ call.qubits, WritesOperand setting tokens tree qubit) :
    WritesCall setting (callTokens dialect tokens call) (callTree dialect tree call) :=
  writesCall_of_operands setting _ _ legible.operands operands

theorem reads_gateName (name : String) : Reads (gateName setting) [.identifier name] name Anything :=
  .peek (reads_identifier setting name)

theorem AfterName.differs {token : Token} (after : AfterName token) (symbol : Mark) (other : symbol ≠ .leftParen) :
    Differs (.mark symbol) (some token) := by
  rcases after with rfl | ⟨name, rfl⟩
  · cases symbol <;> first | rfl | contradiction
  · rfl

theorem reads_callStatement {tokens : List Token} {tree : GateCall} (writes : WritesCall setting tokens tree) :
    Reads (statement setting) tokens (some (.gate tree)) Anything := by
  obtain ⟨name, token, rest, rfl, after, reads⟩ := writes.written
  have named : Reads (namedStatement setting) ([.identifier name] ++ token :: rest) (.gate tree) Anything := ?_
  · exact .peek (named.mapped some)
  refine (reads_gateName setting name).bind ?_ fun _ _ => trivial
  refine (reads_check_false (.mark .equal)).bind_nil ?_ fun _ _ => after.differs .equal (by decide)
  refine (reads_check_false (.mark .leftBracket)).bind_nil ?_ fun _ _ => after.differs .leftBracket (by decide)
  refine (reads_check_false (.mark .atSign)).bind_nil ?_ fun _ _ => after.differs .atSign (by decide)
  exact reads.returning Statement.gate

theorem reads_gateBody {body : List (List Token × GateCall)} (calls : ∀ call ∈ body, WritesCall setting call.1 call.2) :
    ∀ fuel, body.length < fuel → Reads (gateBody setting fuel) (body.flatMap (·.1)) (body.map (·.2))
      fun next => next = some (.mark .rightBrace) := by
  induction body with
  | nil =>
    intro fuel enough
    obtain ⟨fuel, rfl⟩ : ∃ less, fuel = less + 1 := ⟨fuel - 1, by omega⟩
    intro taken rest empty closes
    rw [List.map_eq_nil_iff.mp empty, gateBody]
    change (if rest.head?.map (·.token) == some (.mark .rightBrace) then _ else _ : Parser (List GateCall)) rest = _
    rw [closes]
    rfl
  | cons call others ih =>
    intro fuel enough
    obtain ⟨fuel, rfl⟩ : ∃ less, fuel = less + 1 := ⟨fuel - 1, by omega⟩
    obtain ⟨first, later⟩ := List.forall_mem_cons.mp calls
    obtain ⟨name, token, rest, same, _, reads⟩ := first.written
    have following := (ih later fuel (by rw [List.length_cons] at enough; omega)).returning (call.2 :: ·)
    rw [List.flatMap_cons, same, List.append_assoc, gateBody]
    refine (reads_check_false (.mark .rightBrace)).bind_nil ?_ fun _ _ => rfl
    refine .peek ?_
    refine (reads_gateName setting name).bind ?_ fun _ _ => trivial
    exact reads.bind following fun _ _ => trivial

theorem reads_identifiers {names : List String} (nonempty : names ≠ []) :
    Reads (identifiers setting) (commas (names.map fun name => [.identifier name])) names (Differs (.mark .comma)) := by
  refine .bound fun limit enough => ?_
  have count := length_le_commas (names.map fun name => [Token.identifier name])
  rw [List.length_map] at count
  have listed := reads_commaList nonempty (fun name _ => reads_identifier setting name) trivial limit (by omega)
  rw [List.map_id'] at listed
  exact listed.strengthen fun _ differs => ⟨trivial, differs⟩

theorem WritesCall.nonempty {tokens : List Token} {tree : GateCall} (writes : WritesCall setting tokens tree) :
    tokens ≠ [] := by
  obtain ⟨name, token, rest, rfl, _⟩ := writes.written
  exact List.cons_ne_nil _ _

theorem reads_definition {name : String} {qubits : List String} (nonempty : qubits ≠ [])
    {body : List (List Token × GateCall)} (calls : ∀ call ∈ body, WritesCall setting call.1 call.2) :
    Reads (statement setting) (definitionSentence name qubits body).tokens
      (some (definitionSentence name qubits body).statement) Anything := by
  obtain ⟨qubit, rest, same⟩ := List.exists_cons_of_ne_nil nonempty
  obtain ⟨later, found⟩ := starts_commas (fun qubit => [Token.identifier qubit]) same rfl
  have ended : Reads (bound >>= fun limit => gateBody setting limit >>= fun calls =>
      expect setting (.mark .rightBrace) >>= fun _ => Pure.pure (⟨name, [], qubits, calls⟩ : GateDefinition))
      (body.flatMap (·.1) ++ [.mark .rightBrace]) ⟨name, [], qubits, body.map (·.2)⟩ Anything := by
    refine .bound fun limit enough => ?_
    have count : body.length ≤ (body.flatMap (·.1)).length :=
      length_le_flatMap fun call member => (calls call member).nonempty
    rw [List.length_append] at enough
    have closed := (reads_expect setting (show (Token.mark .rightBrace == .mark .rightBrace) = true from rfl)).returning
      fun _ => (⟨name, [], qubits, body.map (·.2)⟩ : GateDefinition)
    exact (reads_gateBody setting calls limit (by omega)).bind closed fun _ _ => rfl
  have listed : Reads (identifiers setting >>= fun qubits => expect setting (.mark .leftBrace) >>= fun _ =>
      bound >>= fun limit => gateBody setting limit >>= fun calls =>
        expect setting (.mark .rightBrace) >>= fun _ => Pure.pure (⟨name, [], qubits, calls⟩ : GateDefinition))
      (commas (qubits.map fun qubit => [.identifier qubit]) ++ ([.mark .leftBrace] ++
        (body.flatMap (·.1) ++ [.mark .rightBrace]))) ⟨name, [], qubits, body.map (·.2)⟩ Anything := by
    refine (reads_identifiers setting nonempty).bind ?_ fun _ _ => rfl
    exact (reads_expect setting rfl).bind ended fun _ _ => trivial
  have defined : Reads (gateDefinition setting) (definitionSentence name qubits body).tokens
      ⟨name, [], qubits, body.map (·.2)⟩ Anything := by
    have order : (definitionSentence name qubits body).tokens = [.keyword .gate] ++ ([.identifier name] ++
        (commas (qubits.map fun qubit => [.identifier qubit]) ++ ([.mark .leftBrace] ++
          (body.flatMap (·.1) ++ [.mark .rightBrace])))) := by
      simp only [definitionSentence, List.append_assoc]
      rfl
    rw [order]
    refine (reads_expect setting rfl).bind ?_ fun _ _ => trivial
    refine (reads_gateName setting name).bind ?_ fun _ _ => trivial
    refine (reads_consume_false (.mark .leftParen)).bind_nil listed fun _ _ => ?_
    rw [found]
    rfl
  have read := defined.returning fun definition => some (Statement.define definition)
  change Reads _ (.keyword .gate :: _) _ _
  exact .peek read

theorem reads_include (dialect : Dialect) : Reads (statement setting) (includeSentence dialect).tokens
    (some (includeSentence dialect).statement) Anything := by
  have read : Reads (includeFile setting) ([.keyword .includeFile] ++ ([.quoted (includedFile dialect)] ++
      [.mark .semicolon])) (.includeFile (includedFile dialect)) Anything := by
    refine (reads_expect setting rfl).bind (.peek ?_) fun _ _ => trivial
    refine (reads_advance _).bind ?_ fun _ _ => trivial
    exact (reads_expect setting rfl).returning fun _ => Statement.includeFile (includedFile dialect)
  exact .peek (read.mapped some)

theorem reads_element (register : String) {position : Nat} (inside : position < wordCount) :
    Reads (operand setting) (elementTokens register position) (elementOperand register position)
      (Differs (.mark .leftBracket)) :=
  (writesOperand_element setting register inside).reads

theorem reads_reset {qubit : Nat} (inside : qubit < wordCount) : Reads (statement setting) (resetSentence qubit).tokens
    (some (resetSentence qubit).statement) Anything := by
  have read : Reads (reset setting) ([.keyword .reset] ++ (elementTokens "q" qubit ++ [.mark .semicolon]))
      (.reset (elementOperand "q" qubit)) Anything := by
    refine (reads_expect setting rfl).bind ((reads_element setting "q" inside).bind ?_ fun _ _ => rfl) fun _ _ => trivial
    exact (reads_expect setting rfl).returning fun _ => Statement.reset (elementOperand "q" qubit)
  exact .peek (read.mapped some)

theorem reads_barrier {qubits : List Nat} (inside : ∀ qubit ∈ qubits, qubit < wordCount) :
    Reads (statement setting) ([.keyword .barrier] ++ commas (qubits.map (elementTokens "q")) ++ [.mark .semicolon])
      (some (.barrier (qubits.map (elementOperand "q")))) Anything := by
  have closed := (reads_expect setting (show (Token.mark .semicolon == .mark .semicolon) = true from rfl)).returning
    fun _ => qubits.map (elementOperand "q")
  have read : Reads (barrier setting) ([.keyword .barrier] ++ (commas (qubits.map (elementTokens "q")) ++
      [.mark .semicolon])) (qubits.map (elementOperand "q")) Anything := by
    refine (reads_expect setting rfl).bind ?_ fun _ _ => trivial
    cases qubits with
    | nil => exact .check rfl closed
    | cons qubit rest =>
      obtain ⟨later, found⟩ := starts_commas (elementTokens "q") (rfl : qubit :: rest = qubit :: rest) rfl
      have listed := reads_operands setting (List.cons_ne_nil qubit rest)
        fun other member => writesOperand_element setting "q" (inside other member)
      refine (reads_check_false (.mark .semicolon)).bind_nil (listed.bind closed fun _ _ => ⟨rfl, rfl⟩) fun _ _ => ?_
      rw [found]
      rfl
  rw [List.append_assoc]
  exact .peek (read.returning fun qubits => some (Statement.barrier qubits))

end Calls

section Dialects

variable (lastLine : Nat)

theorem reads_measure (dialect : Dialect) {qubit clbit : Nat} (first : qubit < wordCount) (second : clbit < wordCount) :
    Reads (statement ⟨dialect, lastLine⟩) (measureSentence dialect qubit clbit).tokens
      (some (measureSentence dialect qubit clbit).statement) Anything := by
  cases dialect with
  | qasm2 =>
    have read : Reads (measure ⟨.qasm2, lastLine⟩) ([.keyword .measure] ++ (elementTokens "q" qubit ++
        ([.mark .arrow] ++ (elementTokens "c" clbit ++ [.mark .semicolon]))))
        (.measure (elementOperand "q" qubit) (elementOperand "c" clbit)) Anything := by
      refine (reads_expect _ rfl).bind ((reads_element _ "q" first).bind ?_ fun _ _ => rfl) fun _ _ => trivial
      refine (reads_expect _ rfl).bind ((reads_element _ "c" second).bind ?_ fun _ _ => rfl) fun _ _ => trivial
      exact (reads_expect _ rfl).returning fun _ => Statement.measure (elementOperand "q" qubit) (elementOperand "c" clbit)
    exact .peek (read.mapped some)
  | qasm3 =>
    have closed : Reads (operand ⟨.qasm3, lastLine⟩ >>= fun qubits => expect ⟨.qasm3, lastLine⟩ (.mark .semicolon) >>=
        fun _ => Pure.pure (Statement.measure qubits (elementOperand "c" clbit)))
        (elementTokens "q" qubit ++ [.mark .semicolon])
        (.measure (elementOperand "q" qubit) (elementOperand "c" clbit)) Anything := by
      refine (reads_element _ "q" first).bind ?_ fun _ _ => rfl
      exact (reads_expect _ rfl).returning fun _ => Statement.measure (elementOperand "q" qubit) (elementOperand "c" clbit)
    have assigned : Reads (assignment ⟨.qasm3, lastLine⟩ "c") ([.mark .leftBracket] ++ ([.integer clbit] ++
        ([.mark .rightBracket] ++ ([.mark .equal] ++ ([.keyword .measure] ++
          (elementTokens "q" qubit ++ [.mark .semicolon]))))))
        (.measure (elementOperand "q" qubit) (elementOperand "c" clbit)) Anything := by
      refine (reads_consume rfl).bind ((reads_index _ second).bind ?_ fun _ _ => trivial) fun _ _ => trivial
      refine (reads_expect _ rfl).bind (.given ?_) fun _ _ => trivial
      exact (reads_expect _ rfl).bind ((reads_consume rfl).bind closed fun _ _ => trivial) fun _ _ => trivial
    have named : Reads (namedStatement ⟨.qasm3, lastLine⟩) ([.identifier "c"] ++ ([.mark .leftBracket] ++
        ([.integer clbit] ++ ([.mark .rightBracket] ++ ([.mark .equal] ++ ([.keyword .measure] ++
          (elementTokens "q" qubit ++ [.mark .semicolon])))))))
        (.measure (elementOperand "q" qubit) (elementOperand "c" clbit)) Anything := by
      refine (reads_gateName _ "c").bind ?_ fun _ _ => trivial
      refine (reads_check_false (.mark .equal)).bind_nil ?_ fun _ _ => rfl
      exact .check rfl assigned
    exact .peek (named.mapped some)

theorem reads_sized {keyword : Keyword} {name : String} (quantum : Bool) {size : Nat} (inside : size < wordCount) :
    Reads (sizedDeclaration ⟨.qasm2, lastLine⟩ quantum)
      ([.keyword keyword] ++ elementTokens name size ++ [.mark .semicolon]) (declaration quantum name size) Anything := by
  change Reads _ ([.keyword keyword] ++ ([.identifier name] ++ ([.mark .leftBracket] ++ ([.integer size] ++
    ([.mark .rightBracket] ++ [.mark .semicolon]))))) _ _
  refine (reads_advance _).bind ((reads_identifier _ name).bind ?_ fun _ _ => trivial) fun _ _ => trivial
  refine (reads_expect _ rfl).bind ((reads_index _ inside).bind ?_ fun _ _ => trivial) fun _ _ => trivial
  refine (reads_expect _ rfl).bind ?_ fun _ _ => trivial
  exact (reads_expect _ rfl).returning fun _ => declaration quantum name size

theorem reads_typed {keyword : Keyword} {name : String} (quantum : Bool) {size : Nat} (inside : size < wordCount) :
    Reads (typedDeclaration ⟨.qasm3, lastLine⟩ quantum)
      [.keyword keyword, .mark .leftBracket, .integer size, .mark .rightBracket, .identifier name, .mark .semicolon]
      (declaration quantum name size) Anything := by
  change Reads _ ([.keyword keyword] ++ ([.mark .leftBracket] ++ ([.integer size] ++ ([.mark .rightBracket] ++
    ([.identifier name] ++ [.mark .semicolon]))))) _ _
  refine (reads_advance _).bind ((reads_consume rfl).bind ?_ fun _ _ => trivial) fun _ _ => trivial
  refine (reads_index _ inside).bind ((reads_expect _ rfl).bind (.given ?_) fun _ _ => trivial) fun _ _ => trivial
  refine (reads_identifier _ name).bind ?_ fun _ _ => trivial
  refine (reads_check_false (.mark .equal)).bind_nil ?_ fun _ _ => rfl
  exact (reads_expect _ rfl).returning fun _ => declaration quantum name size

theorem reads_quantum (dialect : Dialect) {size : Nat} (inside : size < wordCount) :
    Reads (statement ⟨dialect, lastLine⟩) (quantumSentence dialect size).tokens
      (some (quantumSentence dialect size).statement) Anything := by
  cases dialect with
  | qasm2 => exact .peek ((reads_sized lastLine true inside).mapped some)
  | qasm3 => exact .peek ((reads_typed lastLine true inside).mapped some)

theorem reads_classical (dialect : Dialect) {size : Nat} (inside : size < wordCount) :
    Reads (statement ⟨dialect, lastLine⟩) (classicalSentence dialect size).tokens
      (some (classicalSentence dialect size).statement) Anything := by
  cases dialect with
  | qasm2 => exact .peek ((reads_sized lastLine false inside).mapped some)
  | qasm3 => exact .peek ((reads_typed lastLine false inside).mapped some)

/-- The tokens of a sentence give its statement. -/
structure Sentence.Read (dialect : Dialect) (sentence : Sentence) : Prop where
  nonempty : sentence.tokens ≠ []
  reads : ∀ lastLine, Reads (Parser.statement ⟨dialect, lastLine⟩) sentence.tokens (some sentence.statement) Anything

theorem reads_statements {dialect : Dialect} {sentences : List Sentence}
    (read : ∀ sentence ∈ sentences, sentence.Read dialect) : ∀ fuel found, sentences.length < fuel →
      Reads (statementsFrom ⟨dialect, lastLine⟩ fuel found) (sentences.flatMap (·.tokens))
        (found.reverse ++ sentences.map (·.statement)) fun next => next = none := by
  induction sentences with
  | nil =>
    intro fuel found enough
    obtain ⟨fuel, rfl⟩ : ∃ less, fuel = less + 1 := ⟨fuel - 1, by omega⟩
    intro taken rest empty none
    have last : rest = [] := List.head?_eq_none_iff.mp (Option.map_eq_none_iff.mp none)
    rw [List.map_eq_nil_iff.mp empty, last, statementsFrom]
    exact congrArg (fun found => Except.ok (found, [])) (List.append_nil found.reverse).symm
  | cons sentence rest ih =>
    intro fuel found enough
    obtain ⟨fuel, rfl⟩ : ∃ less, fuel = less + 1 := ⟨fuel - 1, by omega⟩
    obtain ⟨first, others⟩ := List.forall_mem_cons.mp read
    rw [List.length_cons] at enough
    have later := ih others fuel (sentence.statement :: found) (by omega)
    rw [List.reverse_cons, List.append_assoc] at later
    have both : Reads (statement ⟨dialect, lastLine⟩ >>= fun next =>
        statementsFrom ⟨dialect, lastLine⟩ fuel (next.toList ++ found))
        (sentence.tokens ++ rest.flatMap (·.tokens)) (found.reverse ++ (sentence :: rest).map (·.statement))
        fun next => next = none := (first.reads lastLine).bind later fun _ _ => trivial
    intro taken others same none
    have more : (taken ++ others).isEmpty = false := by
      have some : tokensOf taken ≠ [] := by
        rw [same, List.flatMap_cons]
        exact fun empty => first.nonempty (List.append_eq_nil_iff.mp empty).1
      cases taken with
      | nil => contradiction
      | cons lexeme taken => rfl
    rw [statementsFrom]
    change (if (taken ++ others).isEmpty then _ else _ : Parser (List Statement)) _ = _
    rw [more]
    exact both taken others same none

theorem versionNumber_versionToken (dialect : Dialect) :
    ∃ text, versionNumber (versionToken dialect) = some (text, dialect.versionNumber) := by
  have two : (decimalValue "2.0".toList).toUInt64.toNat = 2 := by decide +kernel
  have three : (decimalValue "3.0".toList).toUInt64.toNat = 3 := by decide +kernel
  cases dialect with
  | qasm2 => exact ⟨_, congrArg (fun major => some (_, major)) two⟩
  | qasm3 => exact ⟨_, congrArg (fun major => some (_, major)) three⟩

theorem reads_header (dialect : Dialect) :
    Reads (header ⟨dialect, lastLine⟩) (headerTokens dialect) () Anything := by
  obtain ⟨text, version⟩ := versionNumber_versionToken dialect
  change Reads _ ([.keyword .header] ++ ([versionToken dialect] ++ [.mark .semicolon])) _ _
  refine (reads_expect _ rfl).bind ((reads_advance _).bind ?_ fun _ _ => trivial) fun _ _ => trivial
  dsimp only
  rw [version]
  dsimp only
  rw [if_neg (not_not_intro rfl)]
  exact reads_expect _ rfl

theorem header_refused {dialect other : Dialect} (different : dialect ≠ other) :
    Refuses (header ⟨other, lastLine⟩) (headerTokens dialect) := by
  obtain ⟨text, version⟩ := versionNumber_versionToken dialect
  have major : dialect.versionNumber ≠ other.versionNumber := by
    cases dialect <;> cases other <;> first | decide | contradiction
  change Refuses _ ([.keyword .header] ++ ([versionToken dialect] ++ [.mark .semicolon]))
  refine (reads_expect _ rfl).refuse ((reads_advance _).refuse fun taken rest _ => ?_)
  dsimp only
  rw [version]
  dsimp only
  rw [if_pos major]
  exact ⟨_, rfl⟩

theorem program_read {dialect : Dialect} {sentences : List Sentence}
    (read : ∀ sentence ∈ sentences, sentence.Read dialect) {found : List Lexeme}
    (same : tokensOf found = headerTokens dialect ++ sentences.flatMap (·.tokens)) :
    program ⟨dialect, lastLine⟩ found = .ok (sentences.map (·.statement), []) := by
  have count : sentences.length ≤ (sentences.flatMap (·.tokens)).length :=
    length_le_flatMap fun sentence member => (read sentence member).nonempty
  have whole : Reads (program ⟨dialect, lastLine⟩) (headerTokens dialect ++ sentences.flatMap (·.tokens))
      (sentences.map (·.statement)) fun next => next = none := by
    refine (reads_header lastLine dialect).bind (.bound fun limit enough => ?_) fun _ _ => trivial
    exact reads_statements lastLine read limit [] (by omega)
  have done := whole found [] same rfl
  rwa [List.append_nil] at done

end Dialects

section Listings

variable {dialect : Dialect}

theorem read_gate {gate : WrittenGate} (legible : gate.Legible) : (gate.sentence dialect).Read dialect := by
  refine ⟨List.cons_ne_nil _ _, fun lastLine => reads_definition _ ?_ fun call member => ?_⟩
  · have some : gate.formals.length ≠ 0 := by
      rw [WrittenGate.formals, List.length_map, List.length_range]
      exact Nat.ne_of_gt legible.operands
    exact fun none => some (congrArg List.length none)
  · obtain ⟨written, stored, rfl⟩ := List.mem_map.mp member
    exact writesCall _ (legible.calls written stored) fun qubit _ => writesOperand_formal _ qubit

theorem read_sxdg : sxdgSentence.Read dialect := by
  refine ⟨List.cons_ne_nil _ _, fun lastLine => reads_definition _ (List.cons_ne_nil _ _) fun call member => ?_⟩
  obtain ⟨name, _, rfl⟩ := List.mem_map.mp member
  have operand : WritesOperand ⟨dialect, lastLine⟩ (fun _ => [.identifier "a"]) (fun _ => ⟨"a", none⟩) 0 := by
    refine ⟨⟨_, _, rfl⟩, (reads_identifier _ "a").bind ?_ fun _ _ => trivial⟩
    exact (reads_consume_false _).bind_nil (.pure _) fun _ differs => differs
  exact writesCall_of_operands _ name [] (List.cons_ne_nil 0 []) (List.forall_mem_singleton.mpr operand)

theorem read_instruction {instruction : WrittenInstruction} (legible : instruction.Legible) :
    ∀ sentence ∈ instruction.sentences dialect, sentence.Read dialect := by
  cases instruction with
  | call written =>
    obtain ⟨call, inside⟩ := legible
    refine List.forall_mem_singleton.mpr ⟨?_, fun lastLine => reads_callStatement _ ?_⟩
    · exact List.cons_ne_nil _ _
    · exact writesCall _ call fun qubit member => writesOperand_element _ "q" (inside qubit member)
  | measure qubits clbits =>
    intro sentence member
    rw [WrittenInstruction.sentences, ← List.map_uncurry_zip_eq_zipWith] at member
    obtain ⟨wire, within, rfl⟩ := List.mem_map.mp member
    obtain ⟨one, other⟩ := List.of_mem_zip (show (wire.1, wire.2) ∈ _ from within)
    refine ⟨?_, fun lastLine => reads_measure _ dialect (legible.1 _ one) (legible.2 _ other)⟩
    cases dialect <;> exact List.cons_ne_nil _ _
  | reset qubits =>
    intro sentence member
    obtain ⟨qubit, within, rfl⟩ := List.mem_map.mp member
    exact ⟨List.cons_ne_nil _ _, fun lastLine => reads_reset _ (legible qubit within)⟩
  | barrier qubits =>
    exact List.forall_mem_singleton.mpr ⟨List.cons_ne_nil _ _, fun lastLine => reads_barrier _ legible⟩

theorem read_sayable {listing : Listing} (sayable : listing.Sayable) :
    ∀ sentence ∈ listing.sentences dialect, sentence.Read dialect := by
  have optional : ∀ {condition : Prop} [Decidable condition] {sentence : Sentence}, sentence.Read dialect →
      ∀ member ∈ if condition then [sentence] else [], member.Read dialect := by
    intro condition _ sentence read member within
    split at within
    · exact List.mem_singleton.mp within ▸ read
    · cases within
  refine List.forall_mem_append.mpr ⟨List.forall_mem_append.mpr ⟨List.forall_mem_append.mpr ⟨?_, ?_⟩, ?_⟩, ?_⟩
  · exact List.forall_mem_singleton.mpr ⟨List.cons_ne_nil _ _, fun lastLine => reads_include _ dialect⟩
  · refine List.forall_mem_append.mpr ⟨optional read_sxdg, fun sentence member => ?_⟩
    obtain ⟨gate, stored, rfl⟩ := List.mem_map.mp member
    exact read_gate (sayable.gates gate stored)
  · refine List.forall_mem_append.mpr ⟨optional ⟨?_, fun lastLine => reads_quantum _ dialect sayable.qubits⟩,
      optional ⟨?_, fun lastLine => reads_classical _ dialect sayable.clbits⟩⟩
    all_goals cases dialect <;> exact List.cons_ne_nil _ _
  · intro sentence member
    obtain ⟨instruction, stored, within⟩ := List.mem_flatMap.mp member
    exact read_instruction (sayable.body instruction stored) sentence within

theorem read_listing {listing : Listing} (legible : listing.Legible) :
    ∀ sentence ∈ listing.sentences dialect, sentence.Read dialect :=
  read_sayable legible.toSayable

end Listings

/-- A text that is cut into the tokens of sentences has their statements. -/
theorem statements_of_cuts {dialect : Dialect} {source : String} {sentences : List Sentence}
    (read : ∀ sentence ∈ sentences, sentence.Read dialect)
    (cuts : Cuts source.toList (headerTokens dialect ++ sentences.flatMap (·.tokens))) :
    statements dialect source = .ok (sentences.map (·.statement)) := by
  obtain ⟨found, lexed, same⟩ := lexemes_of_cuts cuts
  unfold statements
  rw [lexed]
  change (program ⟨dialect, _⟩ found >>= _) = _
  rw [program_read _ read same]
  rfl

/-- No text of one dialect has statements in the other, cut or not. -/
theorem refused_of_ne {dialect other : Dialect} (different : dialect ≠ other) {source : String} {tokens : List Token}
    (falls : Falls source.toList (headerTokens dialect ++ tokens)) : ∃ fault, statements other source = .error fault := by
  unfold statements
  cases cut : lexemes source with
  | error fault => exact ⟨_, rfl⟩
  | ok found =>
    have cuts : Cuts source.toList (headerTokens dialect ++ tokens) := ⟨falls, sized_of_lexemes falls cut⟩
    obtain ⟨again, lexed, same⟩ := lexemes_of_cuts cuts
    cases cut.symm.trans lexed
    obtain ⟨front, back, rfl, one, _⟩ := List.map_eq_append_iff.mp same
    obtain ⟨fault, refused⟩ := header_refused (((front ++ back).getLast?.map (·.place.line)).getD 1) different front back one
    refine ⟨fault, ?_⟩
    change (header ⟨other, _⟩ (front ++ back) >>= _) >>= _ = _
    rw [refused]
    rfl

theorem statements_refused {source : String} {tokens : List Token}
    (cuts : Cuts source.toList (headerTokens .qasm3 ++ tokens)) : ∃ fault, statements .qasm2 source = .error fault :=
  refused_of_ne (by decide) cuts.falls

end CircuitCloak.Qasm

import CircuitCloak.Proofs.Naming
import CircuitCloak.Proofs.ParserSteps
import CircuitCloak.Proofs.Recutting
import CircuitCloak.Qasm.Load

/-! Names in text that is read. The lexer makes a name only of letters, digits and underscores, and every name that
the parser hands on stood in a token; so whatever is read has only names that can be written again. -/

namespace CircuitCloak.Qasm

/-- A name in a token is an identifier. -/
def Token.Named : Token → Prop
  | .identifier name => IsIdentifier name
  | _ => True

def Named (lexemes : List Lexeme) : Prop := ∀ lexeme ∈ lexemes, lexeme.token.Named

theorem named_of_piece {text : List Char} {token : Token} {written rest : List Char}
    (found : Piece.ofText text = .token token written rest) : token.Named := by
  cases token with
  | identifier name =>
    obtain ⟨⟨first, tail, rfl, start⟩, piece⟩ := namePiece_of_word found trivial
    have part := isNamePart_of_isNameStart start
    unfold namePiece at piece
    simp only [List.span_eq_takeWhile_dropWhile] at piece
    split at piece
    · cases piece
    next free =>
      simp only [Piece.token.injEq, Token.identifier.injEq] at piece
      obtain ⟨same, _, _⟩ := piece
      subst same
      refine isIdentifier_of_spelled ⟨⟨first, tail.takeWhile isNamePart, ?_, start⟩, ?_⟩ free
      · rw [String.toList_ofList, List.takeWhile_cons_of_pos part]
      · rw [String.toList_ofList]
        exact fun c member => List.mem_takeWhile_imp member
  | keyword | mark | integer | decimal | quoted => trivial

theorem Placed.named {place : Place} {text : List Char} {found : List Lexeme} (placed : Placed place text found) :
    Named found := by
  induction placed with
  | done => exact List.forall_mem_nil _
  | gap _ _ _ ih => exact ih
  | token piece _ ih => exact List.forall_mem_cons.mpr ⟨named_of_piece piece, ih⟩

theorem named_lexemes {source : String} {tokens : List Lexeme} (done : lexemes source = .ok tokens) : Named tokens :=
  (placed_of_lexemes done).named

/-- A step gives only values with a property, and leaves only names that are identifiers, where there are no others. -/
def Gives {α : Type} (parser : Parser α) (property : α → Prop) : Prop :=
  ∀ lexemes value rest, Named lexemes → parser lexemes = .ok (value, rest) → property value ∧ Named rest

namespace Gives

variable {α β : Type} {parser : Parser α} {next : α → Parser β} {property : α → Prop} {result : β → Prop}

theorem pure {value : α} (held : property value) : Gives (Pure.pure value) property := by
  intro lexemes _ _ named done
  cases done
  exact ⟨held, named⟩

theorem throw (fault : ParseError) : Gives (throw fault : Parser α) property := by
  intro _ _ _ _ done
  cases done

theorem bind (first : Gives parser property) (later : ∀ value, property value → Gives (next value) result) :
    Gives (parser >>= next) result := by
  intro lexemes value rest named done
  obtain ⟨found, left, begun, ended⟩ := Parser.bind_eq_ok_iff.mp done
  obtain ⟨held, remaining⟩ := first lexemes found left named begun
  exact later found held left value rest remaining ended

theorem weaken {other : α → Prop} (gives : Gives parser property) (implies : ∀ value, property value → other value) :
    Gives parser other := by
  intro lexemes value rest named done
  obtain ⟨held, remaining⟩ := gives lexemes value rest named done
  exact ⟨implies value held, remaining⟩

theorem map {function : α → β} (gives : Gives parser property) (held : ∀ value, property value → result (function value)) :
    Gives (function <$> parser) result := by
  rw [map_eq_pure_bind]
  exact gives.bind fun value found => .pure (held value found)

end Gives

namespace Parser

variable {setting : Setting}

theorem gives_peek : Gives peek fun found => ∀ token ∈ found, token.Named := by
  intro lexemes value rest named done
  cases done
  refine ⟨fun token member => ?_, named⟩
  obtain ⟨lexeme, head, rfl⟩ := Option.mem_map.mp member
  exact named lexeme (List.mem_of_mem_head? head)

theorem gives_advance : Gives advance fun found => ∀ token ∈ found, token.Named := by
  intro lexemes value rest named done
  cases lexemes with
  | nil =>
    cases done
    exact ⟨nofun, named⟩
  | cons lexeme others =>
    cases done
    obtain ⟨first, remaining⟩ := List.forall_mem_cons.mp named
    exact ⟨fun token member => Option.mem_some.mp member ▸ first, remaining⟩

theorem gives_get {property : List Lexeme → Prop} (held : ∀ lexemes, property lexemes) :
    Gives (get : Parser (List Lexeme)) property := by
  intro lexemes value rest named done
  cases done
  exact ⟨held _, named⟩

theorem gives_check (token : Token) : Gives (check token) fun _ => True :=
  .bind gives_peek fun _ _ => .pure trivial

theorem gives_consume (token : Token) : Gives (consume token) fun _ => True := by
  refine (gives_check token).bind fun found _ => ?_
  split
  · exact .bind gives_advance fun _ _ => .pure trivial
  · exact .pure trivial

theorem gives_line : Gives (line setting) fun _ => True :=
  (gives_get fun _ => trivial).bind fun _ _ => .pure trivial

theorem gives_unexpected {α : Type} {expected : String} {property : α → Prop} :
    Gives (unexpected setting expected) property := by
  refine .bind gives_peek fun found _ => ?_
  cases found with
  | none => exact .throw _
  | some found => exact .bind gives_line fun _ _ => .throw _

theorem gives_unsupported {α : Type} {construct : String} {property : α → Prop} :
    Gives (unsupported setting construct) property :=
  .bind gives_line fun _ _ => .throw _

theorem gives_expect (token : Token) : Gives (expect setting token) fun _ => True := by
  refine .bind gives_peek fun found _ => ?_
  cases found with
  | none => exact .throw _
  | some found =>
    dsimp only
    split
    · exact .bind gives_advance fun _ _ => .pure trivial
    · exact .bind gives_line fun _ _ => .throw _

theorem gives_identifier : Gives (identifier setting) IsIdentifier := by
  refine .bind gives_peek fun found named => ?_
  split
  · exact .bind gives_advance fun _ _ => .pure (named _ rfl)
  · exact gives_unexpected

theorem gives_index : Gives (index setting) fun _ => True := by
  refine .bind gives_peek fun found _ => ?_
  split
  · split
    · exact .bind gives_advance fun _ _ => .pure trivial
    · exact .throw _
  · exact gives_unexpected

theorem gives_commaList {α : Type} {member : Parser α} {property : α → Prop} (each : Gives member property) (fuel : Nat) :
    Gives (commaList member fuel) fun members => members ≠ [] ∧ ∀ value ∈ members, property value := by
  induction fuel with
  | zero => exact .throw _
  | succ fuel ih =>
    refine each.bind fun first held => (gives_consume _).bind fun more _ => ?_
    split
    · exact ih.bind fun rest all => .pure ⟨List.cons_ne_nil _ _, List.forall_mem_cons.mpr ⟨held, all.2⟩⟩
    · exact .pure ⟨List.cons_ne_nil _ _, List.forall_mem_singleton.mpr held⟩

end Parser

/-- Names in an expression are identifiers. The arguments of a function have a value at once. -/
def Expr.Named : Expr → Prop
  | .name symbol => IsIdentifier symbol
  | .neg operand | .paren operand => operand.Named
  | .binary left _ right => left.Named ∧ right.Named
  | .int _ | .decimal _ | .pi | .tau | .euler | .call _ _ => True

namespace Parser

structure ExpressionsNamed (setting : Setting) (fuel : Nat) : Prop where
  signed : Gives (signed setting fuel) Expr.Named
  primary : Gives (primary setting fuel) Expr.Named
  climb : ∀ least, Gives (climb setting least fuel) Expr.Named
  extend : ∀ least left, left.Named → Gives (extend setting least left fuel) Expr.Named
  arguments : Gives (arguments setting fuel) fun list => ∀ expression ∈ list, expression.Named
  argumentsFrom : Gives (argumentsFrom setting fuel) fun list => ∀ expression ∈ list, expression.Named

variable {setting : Setting}

theorem expressionsNamed (fuel : Nat) : ExpressionsNamed setting fuel := by
  induction fuel with
  | zero =>
    constructor
    all_goals intros; exact .throw _
  | succ fuel ih =>
    constructor
    case signed =>
      refine (gives_consume _).bind fun minus _ => ?_
      split
      · exact ih.signed.bind fun _ named => .pure named
      · refine (gives_consume _).bind fun plus _ => ?_
        split
        · exact ih.signed
        · exact ih.primary
    case primary =>
      refine .bind gives_line fun _ _ => .bind gives_advance fun found named => ?_
      split
      case h_7 name =>
        refine (gives_consume _).bind fun opened _ => ?_
        split
        · exact ih.arguments.bind fun _ _ => (gives_expect _).bind fun _ _ => .pure trivial
        · exact .pure (named _ rfl)
      case h_8 => exact (ih.climb 0).bind fun _ held => (gives_expect _).bind fun _ _ => .pure held
      all_goals first | exact .throw _ | exact .pure trivial
    case climb => exact fun least => ih.signed.bind fun left named => ih.extend least left named
    case extend =>
      intro least left named
      refine (.bind gives_peek fun _ _ => .pure trivial : Gives peekOperator fun _ => True).bind fun found _ => ?_
      cases found with
      | none => exact .pure named
      | some operator =>
        dsimp only
        split
        · exact .pure named
        · exact .bind gives_advance fun _ _ => (ih.climb _).bind fun right held => ih.extend least _ ⟨named, held⟩
    case arguments =>
      refine (gives_check _).bind fun closed _ => ?_
      split
      · exact .pure (List.forall_mem_nil _)
      · exact ih.argumentsFrom
    case argumentsFrom =>
      refine (ih.climb 0).bind fun first held => (gives_consume _).bind fun more _ => ?_
      split
      · exact ih.argumentsFrom.bind fun rest all => .pure (List.forall_mem_cons.mpr ⟨held, all⟩)
      · exact .pure (List.forall_mem_singleton.mpr held)

theorem gives_expressionList : Gives (expressionList setting) fun list => ∀ expression ∈ list, expression.Named :=
  ((gives_get fun _ => trivial).bind fun _ _ => .pure trivial : Gives expressionBound fun _ => True).bind
    fun fuel _ => (expressionsNamed fuel).arguments

end Parser

/-- The name of a call: an identifier, or one of two reserved words. -/
def GateNamed (name : String) : Prop := IsIdentifier name ∨ name = "U" ∨ name = "CX"

def GateCall.Named (call : GateCall) : Prop := ∀ expression ∈ call.arguments, expression.Named

structure GateDefinition.Named (definition : GateDefinition) : Prop where
  name : GateNamed definition.name
  qubits : definition.qubits ≠ []
  body : ∀ call ∈ definition.body, call.Named

def Statement.Named : Statement → Prop
  | .gate call => call.Named
  | .define definition => definition.Named
  | _ => True

namespace Parser

variable {setting : Setting}

theorem gives_bound : Gives bound fun _ => True := (gives_get fun _ => trivial).bind fun _ _ => .pure trivial

theorem gives_operand : Gives (operand setting) fun _ => True := by
  refine .bind gives_identifier fun register _ => (gives_consume _).bind fun indexed _ => ?_
  split
  · exact .bind gives_index fun _ _ => (gives_expect _).bind fun _ _ => .pure trivial
  · exact .pure trivial

theorem gives_operands : Gives (operands setting) fun _ => True :=
  .bind gives_bound fun fuel _ => (gives_commaList gives_operand fuel).weaken fun _ _ => trivial

theorem gives_identifiers : Gives (identifiers setting) fun names => names ≠ [] :=
  .bind gives_bound fun fuel _ => (gives_commaList gives_identifier fuel).weaken fun _ all => all.1

theorem gives_gateName : Gives (gateName setting) GateNamed := by
  refine .bind gives_peek fun found _ => ?_
  split
  · exact .bind gives_advance fun _ _ => .pure (.inr (.inl rfl))
  · exact .bind gives_advance fun _ _ => .pure (.inr (.inr rfl))
  · exact .weaken gives_identifier fun _ named => .inl named

theorem gives_callAfterName (name : String) : Gives (callAfterName setting name) GateCall.Named := by
  have given : ∀ list : List Expr, (∀ expression ∈ list, expression.Named) →
      Gives (operands setting >>= fun targets => expect setting (.mark .semicolon) >>= fun _ =>
        Pure.pure (⟨name, list, targets⟩ : GateCall)) GateCall.Named :=
    fun list named => .bind gives_operands fun _ _ => (gives_expect _).bind fun _ _ => .pure named
  refine (gives_consume _).bind fun opened _ => ?_
  split
  · exact .bind gives_expressionList fun list named => (gives_expect _).bind fun _ _ => given list named
  · exact given [] (List.forall_mem_nil _)

theorem gives_includeFile : Gives (includeFile setting) Statement.Named := by
  refine (gives_expect _).bind fun _ _ => .bind gives_peek fun found _ => ?_
  split
  · exact .bind gives_advance fun _ _ => (gives_expect _).bind fun _ _ => .pure trivial
  · exact gives_unexpected

theorem named_declaration (quantum : Bool) (name : String) (size : Nat) : (declaration quantum name size).Named := by
  cases quantum <;> trivial

theorem gives_sizedDeclaration (quantum : Bool) : Gives (sizedDeclaration setting quantum) Statement.Named :=
  .bind gives_advance fun _ _ => .bind gives_identifier fun _ _ => (gives_expect _).bind fun _ _ =>
    .bind gives_index fun _ _ => (gives_expect _).bind fun _ _ => (gives_expect _).bind fun _ _ =>
      .pure (named_declaration _ _ _)

theorem gives_typedDeclaration (quantum : Bool) : Gives (typedDeclaration setting quantum) Statement.Named := by
  have given : ∀ size : Nat, Gives (identifier setting >>= fun name => check (.mark .equal) >>= fun initialized => do
      if initialized = true then unsupported setting "initialized declaration"
      expect setting (.mark .semicolon)
      return declaration quantum name size) Statement.Named := by
    intro size
    refine .bind gives_identifier fun _ _ => (gives_check _).bind fun initialized _ => ?_
    split
    · exact .bind gives_unsupported fun _ (_ : True) => (gives_expect _).bind fun _ _ => .pure (named_declaration _ _ _)
    · exact (gives_expect _).bind fun _ _ => .pure (named_declaration _ _ _)
  refine .bind gives_advance fun _ _ => (gives_consume _).bind fun sized _ => ?_
  split
  · exact .bind gives_index fun _ _ => (gives_expect _).bind fun _ _ => given _
  · exact given 1

theorem gives_measure : Gives (measure setting) Statement.Named :=
  (gives_expect _).bind fun _ _ => .bind gives_operand fun _ _ => (gives_expect _).bind fun _ _ =>
    .bind gives_operand fun _ _ => (gives_expect _).bind fun _ _ => .pure trivial

theorem gives_reset : Gives (reset setting) Statement.Named :=
  (gives_expect _).bind fun _ _ => .bind gives_operand fun _ _ => (gives_expect _).bind fun _ _ => .pure trivial

theorem gives_barrier : Gives (barrier setting) fun _ => True := by
  refine (gives_expect _).bind fun _ _ => (gives_check _).bind fun empty _ => ?_
  split
  · exact (gives_expect _).bind fun _ _ => .pure trivial
  · exact .bind gives_operands fun _ _ => (gives_expect _).bind fun _ _ => .pure trivial

theorem gives_gateBody (fuel : Nat) : Gives (gateBody setting fuel) fun body => ∀ call ∈ body, call.Named := by
  induction fuel with
  | zero => exact .throw _
  | succ fuel ih =>
    have called : Gives (gateName setting >>= fun name => callAfterName setting name >>= fun call =>
        gateBody setting fuel >>= fun rest => Pure.pure (call :: rest)) fun body => ∀ call ∈ body, call.Named :=
      .bind gives_gateName fun name _ => (gives_callAfterName name).bind fun call named =>
        ih.bind fun rest all => .pure (List.forall_mem_cons.mpr ⟨named, all⟩)
    refine (gives_check _).bind fun closed _ => ?_
    split
    · exact .pure (List.forall_mem_nil _)
    · refine .bind gives_peek fun found _ => ?_
      split
      · exact .bind gives_barrier fun _ _ => ih
      · exact called
      · exact called
      · exact called
      · exact gives_unsupported
      · exact gives_unsupported
      · exact gives_unexpected

theorem gives_gateDefinition : Gives (gateDefinition setting) GateDefinition.Named := by
  have given : ∀ name formals, GateNamed name → Gives (identifiers setting >>= fun qubits =>
      expect setting (.mark .leftBrace) >>= fun _ => bound >>= fun fuel => gateBody setting fuel >>= fun body =>
        expect setting (.mark .rightBrace) >>= fun _ => Pure.pure (⟨name, formals, qubits, body⟩ : GateDefinition))
      GateDefinition.Named :=
    fun name formals named => .bind gives_identifiers fun _ some => (gives_expect _).bind fun _ _ =>
      .bind gives_bound fun fuel _ => (gives_gateBody fuel).bind fun _ body => (gives_expect _).bind fun _ _ =>
        .pure ⟨named, some, body⟩
  refine (gives_expect _).bind fun _ _ => .bind gives_gateName fun name named => (gives_consume _).bind fun opened _ => ?_
  split
  · refine (gives_check _).bind fun closed _ => ?_
    split
    · exact (gives_expect _).bind fun _ _ => given name _ named
    · exact .bind gives_identifiers fun _ _ => (gives_expect _).bind fun _ _ => given name _ named
  · exact given name _ named

theorem gives_assignment (register : String) : Gives (assignment setting register) Statement.Named := by
  have given : ∀ index : Option Nat, Gives (expect setting (.mark .equal) >>= fun _ =>
      consume (.keyword .measure) >>= fun measured => if measured = true then
        operand setting >>= fun qubits => expect setting (.mark .semicolon) >>= fun _ =>
          Pure.pure (Statement.measure qubits ⟨register, index⟩)
      else unsupported setting "classical assignment") Statement.Named := by
    intro index
    refine (gives_expect _).bind fun _ _ => (gives_consume _).bind fun measured _ => ?_
    split
    · exact .bind gives_operand fun _ _ => (gives_expect _).bind fun _ _ => .pure trivial
    · exact gives_unsupported
  refine (gives_consume _).bind fun indexed _ => ?_
  split
  · exact .bind gives_index fun _ _ => (gives_expect _).bind fun _ _ => given _
  · exact given none

theorem gives_namedStatement : Gives (namedStatement setting) Statement.Named := by
  refine .bind gives_gateName fun name _ => (gives_check _).bind fun _ _ => (gives_check _).bind fun _ _ => ?_
  split
  · split
    · exact gives_unexpected
    · exact gives_assignment name
  · refine (gives_check _).bind fun modified _ => ?_
    split
    · exact gives_unsupported
    · exact (gives_callAfterName name).bind fun _ named => .pure named

theorem gives_statement : Gives (statement setting) fun found => ∀ statement ∈ found, statement.Named := by
  have single : ∀ {parser : Parser Statement}, Gives parser Statement.Named →
      Gives (some <$> parser) fun found => ∀ statement ∈ found, statement.Named :=
    fun gives => gives.map fun _ named _ member => Option.mem_some.mp member ▸ named
  refine .bind gives_peek fun found _ => ?_
  split
  · exact .throw _
  · exact .bind gives_advance fun _ _ => .pure nofun
  · exact single gives_includeFile
  · exact single (gives_sizedDeclaration _)
  · exact single (gives_sizedDeclaration _)
  · split
    · exact single (gives_typedDeclaration _)
    · exact gives_unexpected
  · split
    · exact single (gives_typedDeclaration _)
    · exact gives_unexpected
  · exact single gives_measure
  · exact single gives_reset
  · exact .bind gives_barrier fun _ _ => .pure fun _ member => Option.mem_some.mp member ▸ trivial
  · exact .bind gives_gateDefinition fun _ named => .pure fun _ member => Option.mem_some.mp member ▸ named
  all_goals first
    | exact .bind gives_peek fun _ _ => gives_unsupported
    | exact single gives_namedStatement
    | exact gives_unexpected

theorem gives_statementsFrom (fuel : Nat) {found : List Statement} (named : ∀ statement ∈ found, statement.Named) :
    Gives (statementsFrom setting fuel found) fun all => ∀ statement ∈ all, statement.Named := by
  induction fuel generalizing found with
  | zero => exact .throw _
  | succ fuel ih =>
    refine (gives_get fun _ => trivial).bind fun left _ => ?_
    split
    · exact .pure fun statement member => named statement (List.mem_reverse.mp member)
    · refine .bind gives_statement fun next held => ih ?_
      exact List.forall_mem_append.mpr ⟨fun statement member => held statement (Option.mem_toList.mp member), named⟩

theorem gives_header : Gives (header setting) fun _ => True := by
  refine (gives_expect _).bind fun _ _ => .bind gives_advance fun found _ => ?_
  split
  · exact .throw _
  · split
    · exact .throw _
    · dsimp only
      split
      · exact .throw _
      · exact gives_expect _

theorem gives_program : Gives (program setting) fun all => ∀ statement ∈ all, statement.Named :=
  .bind gives_header fun _ _ => .bind gives_bound fun fuel _ => gives_statementsFrom fuel (List.forall_mem_nil _)

end Parser

/-- Every name in the statements of a text is an identifier. -/
theorem named_statements {dialect : Dialect} {source : String} {found : List Statement}
    (done : statements dialect source = .ok found) : ∀ statement ∈ found, statement.Named := by
  unfold statements at done
  split at done
  next taken =>
    obtain ⟨_, lexed, later⟩ := bind_eq_ok_iff.mp done
    cases lexed
    obtain ⟨⟨_, rest⟩, run, same⟩ := bind_eq_ok_iff.mp later
    cases same
    exact (Parser.gives_program _ _ _ (named_lexemes taken) run).1
  next =>
    obtain ⟨_, lexed, _⟩ := bind_eq_ok_iff.mp done
    cases lexed

end CircuitCloak.Qasm

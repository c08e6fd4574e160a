import CircuitCloak.Proofs.ParserSteps

/-! What is read in the older dialect is read in the newer one. Two parsers run over lexemes of the same tokens, which
may stand at different places. As long as the older one succeeds, the newer one takes the same branches: the dialects
part only at tokens which the older one refuses. -/

namespace CircuitCloak.Qasm

/-- Where the first step succeeds, the second one does, on the same tokens at any places: with the same value, and
with the same tokens left. -/
def Within {α : Type} (first second : Parser α) : Prop :=
  ∀ lexemes others value rest, tokensOf lexemes = tokensOf others → first lexemes = .ok (value, rest) →
    ∃ left, second others = .ok (value, left) ∧ tokensOf rest = tokensOf left

namespace Within

variable {α β : Type} {first second : Parser α} {next following : α → Parser β}

theorem pure (value : α) : Within (Pure.pure value) (Pure.pure value) := by
  intro lexemes others _ _ same done
  cases done
  exact ⟨others, rfl, same⟩

theorem throw (fault : ParseError) : Within (throw fault) second := by
  intro _ _ _ _ _ done
  cases done

theorem bind (begun : Within first second) (later : ∀ value, Within (next value) (following value)) :
    Within (first >>= next) (second >>= following) := by
  intro lexemes others value rest same done
  obtain ⟨found, middle, started, ended⟩ := Parser.bind_eq_ok_iff.mp done
  obtain ⟨left, taken, alike⟩ := begun lexemes others found middle same started
  obtain ⟨last, finished, remaining⟩ := later found middle left value rest alike ended
  exact ⟨last, Parser.bind_eq_ok_iff.mpr ⟨found, left, taken, finished⟩, remaining⟩

theorem map {function : α → β} (begun : Within first second) : Within (function <$> first) (function <$> second) := by
  rw [map_eq_pure_bind, map_eq_pure_bind]
  exact begun.bind fun value => .pure (function value)

theorem get {next following : List Lexeme → Parser β}
    (later : ∀ lexemes others, tokensOf lexemes = tokensOf others → Within (next lexemes) (following others)) :
    Within (MonadState.get >>= next) (MonadState.get >>= following) :=
  fun lexemes others value rest same done => later lexemes others same lexemes others value rest same done

/-- Steps that remember where they start, each in its own text. -/
theorem line {setting other : Setting} {next following : Nat → Parser β}
    (later : ∀ place second, Within (next place) (following second)) :
    Within (Parser.line setting >>= next) (Parser.line other >>= following) :=
  fun lexemes others value rest same done => later _ _ lexemes others value rest same done

end Within

namespace Parser

theorem length_of_tokensOf {lexemes others : List Lexeme} (same : tokensOf lexemes = tokensOf others) :
    lexemes.length = others.length := by
  have lengths := congrArg List.length same
  rwa [tokensOf, tokensOf, List.length_map, List.length_map] at lengths

theorem within_peek : Within peek peek := by
  refine .get fun lexemes others same => ?_
  have head : lexemes.head?.map (·.token) = others.head?.map (·.token) := by
    rw [← List.head?_map, ← List.head?_map]
    exact congrArg List.head? same
  rw [head]
  exact .pure _

theorem within_advance : Within advance advance := by
  intro lexemes others value rest same done
  cases lexemes with
  | nil =>
    cases done
    rw [List.map_eq_nil_iff.mp same.symm]
    exact ⟨[], rfl, rfl⟩
  | cons lexeme lexemes =>
    cases done
    obtain ⟨other, left, rfl, token, tokens⟩ := List.map_eq_cons_iff.mp same.symm
    exact ⟨left, congrArg (fun token => Except.ok (some token, left)) token, tokens.symm⟩

theorem within_bound : Within bound bound := by
  refine .get fun lexemes others same => ?_
  rw [length_of_tokensOf same]
  exact .pure _

theorem within_expressionBound : Within expressionBound expressionBound := by
  refine .get fun lexemes others same => ?_
  rw [length_of_tokensOf same]
  exact .pure _

theorem within_check (token : Token) : Within (check token) (check token) := .bind within_peek fun _ => .pure _

theorem within_consume (token : Token) : Within (consume token) (consume token) := by
  refine (within_check token).bind fun found => ?_
  split
  · exact .bind within_advance fun _ => .pure true
  · exact .pure false

variable {setting other : Setting}

theorem within_unexpected {α : Type} {expected : String} {second : Parser α} :
    Within (unexpected setting expected) second := by
  intro lexemes others value rest same done
  cases lexemes <;> cases done

theorem within_unsupported {α : Type} {construct : String} {second : Parser α} :
    Within (unsupported setting construct) second := by
  intro lexemes others value rest same done
  cases done

theorem within_expect (token : Token) : Within (expect setting token) (expect other token) := by
  refine .bind within_peek fun found => ?_
  cases found with
  | none => exact .throw _
  | some found =>
    dsimp only
    split
    · exact .bind within_advance fun _ => .pure ()
    · exact .line fun _ _ => .throw _

theorem within_identifier : Within (identifier setting) (identifier other) := by
  refine .bind within_peek fun found => ?_
  split
  · exact .bind within_advance fun _ => .pure _
  · exact within_unexpected

theorem within_index : Within (index setting) (index other) := by
  refine .bind within_peek fun found => ?_
  split
  · split
    · exact .bind within_advance fun _ => .pure _
    · exact .throw _
  · exact within_unexpected

theorem within_commaList {α : Type} {member second : Parser α} (each : Within member second) (fuel : Nat) :
    Within (commaList member fuel) (commaList second fuel) := by
  induction fuel with
  | zero => exact .throw _
  | succ fuel ih =>
    refine each.bind fun first => (within_consume _).bind fun more => ?_
    split
    · exact ih.bind fun _ => .pure _
    · exact .pure _

/-- The steps of expressions read the same in both settings. -/
structure ExpressionsWithin (setting other : Setting) (fuel : Nat) : Prop where
  signed : Within (signed setting fuel) (signed other fuel)
  primary : Within (primary setting fuel) (primary other fuel)
  climb : ∀ least, Within (climb setting least fuel) (climb other least fuel)
  extend : ∀ least left, Within (extend setting least left fuel) (extend other least left fuel)
  arguments : Within (arguments setting fuel) (arguments other fuel)
  argumentsFrom : Within (argumentsFrom setting fuel) (argumentsFrom other fuel)

theorem expressionsWithin (fuel : Nat) : ExpressionsWithin setting other fuel := by
  induction fuel with
  | zero =>
    constructor
    all_goals intros; exact .throw _
  | succ fuel ih =>
    constructor
    case signed =>
      refine (within_consume _).bind fun minus => ?_
      split
      · exact ih.signed.bind fun _ => .pure _
      · refine (within_consume _).bind fun plus => ?_
        split
        · exact ih.signed
        · exact ih.primary
    case primary =>
      refine .line fun _ _ => .bind within_advance fun found => ?_
      split
      case h_7 name =>
        refine (within_consume _).bind fun opened => ?_
        split
        · exact ih.arguments.bind fun _ => (within_expect _).bind fun _ => .pure _
        · exact .pure _
      case h_8 => exact (ih.climb 0).bind fun _ => (within_expect _).bind fun _ => .pure _
      all_goals first | exact .throw _ | exact .pure _
    case climb => exact fun least => ih.signed.bind fun left => ih.extend least left
    case extend =>
      intro least left
      refine (.bind within_peek fun _ => .pure _ : Within peekOperator peekOperator).bind fun found => ?_
      cases found with
      | none => exact .pure _
      | some operator =>
        dsimp only
        split
        · exact .pure _
        · exact .bind within_advance fun _ => (ih.climb _).bind fun right => ih.extend least _
    case arguments =>
      refine (within_check _).bind fun closed => ?_
      split
      · exact .pure _
      · exact ih.argumentsFrom
    case argumentsFrom =>
      refine (ih.climb 0).bind fun first => (within_consume _).bind fun more => ?_
      split
      · exact ih.argumentsFrom.bind fun _ => .pure _
      · exact .pure _

theorem within_expressionList : Within (expressionList setting) (expressionList other) :=
  .bind within_expressionBound fun fuel => (expressionsWithin fuel).arguments

theorem within_operand : Within (operand setting) (operand other) := by
  refine .bind within_identifier fun register => (within_consume _).bind fun indexed => ?_
  split
  · exact .bind within_index fun _ => (within_expect _).bind fun _ => .pure _
  · exact .pure _

theorem within_operands : Within (operands setting) (operands other) :=
  .bind within_bound fun fuel => within_commaList within_operand fuel

theorem within_identifiers : Within (identifiers setting) (identifiers other) :=
  .bind within_bound fun fuel => within_commaList within_identifier fuel

theorem within_gateName : Within (gateName setting) (gateName other) := by
  refine .bind within_peek fun found => ?_
  split
  · exact .bind within_advance fun _ => .pure _
  · exact .bind within_advance fun _ => .pure _
  · exact within_identifier

theorem within_callAfterName (name : String) : Within (callAfterName setting name) (callAfterName other name) := by
  have called : ∀ list : List Expr, Within
      (operands setting >>= fun targets => expect setting (.mark .semicolon) >>= fun _ =>
        Pure.pure (⟨name, list, targets⟩ : GateCall))
      (operands other >>= fun targets => expect other (.mark .semicolon) >>= fun _ =>
        Pure.pure (⟨name, list, targets⟩ : GateCall)) :=
    fun list => .bind within_operands fun _ => (within_expect _).bind fun _ => .pure _
  refine (within_consume _).bind fun opened => ?_
  split
  · exact .bind within_expressionList fun list => (within_expect _).bind fun _ => called list
  · exact called []

theorem within_includeFile : Within (includeFile setting) (includeFile other) := by
  refine (within_expect _).bind fun _ => .bind within_peek fun found => ?_
  split
  · exact .bind within_advance fun _ => (within_expect _).bind fun _ => .pure _
  · exact within_unexpected

theorem within_sizedDeclaration (quantum : Bool) :
    Within (sizedDeclaration setting quantum) (sizedDeclaration other quantum) :=
  .bind within_advance fun _ => .bind within_identifier fun _ => (within_expect _).bind fun _ =>
    .bind within_index fun _ => (within_expect _).bind fun _ => (within_expect _).bind fun _ => .pure _

theorem within_measure : Within (measure setting) (measure other) :=
  (within_expect _).bind fun _ => .bind within_operand fun _ => (within_expect _).bind fun _ =>
    .bind within_operand fun _ => (within_expect _).bind fun _ => .pure _

theorem within_reset : Within (reset setting) (reset other) :=
  (within_expect _).bind fun _ => .bind within_operand fun _ => (within_expect _).bind fun _ => .pure _

theorem within_barrier : Within (barrier setting) (barrier other) := by
  refine (within_expect _).bind fun _ => (within_check _).bind fun empty => ?_
  split
  · exact (within_expect _).bind fun _ => .pure _
  · exact .bind within_operands fun _ => (within_expect _).bind fun _ => .pure _

theorem within_gateBody (fuel : Nat) : Within (gateBody setting fuel) (gateBody other fuel) := by
  induction fuel with
  | zero => exact .throw _
  | succ fuel ih =>
    have called : Within
        (gateName setting >>= fun name => callAfterName setting name >>= fun call =>
          gateBody setting fuel >>= fun rest => Pure.pure (call :: rest))
        (gateName other >>= fun name => callAfterName other name >>= fun call =>
          gateBody other fuel >>= fun rest => Pure.pure (call :: rest)) :=
      .bind within_gateName fun name => (within_callAfterName name).bind fun _ => ih.bind fun _ => .pure _
    refine (within_check _).bind fun closed => ?_
    split
    · exact .pure _
    · refine .bind within_peek fun found => ?_
      split
      · exact .bind within_barrier fun _ => ih
      · exact called
      · exact called
      · exact called
      · exact within_unsupported
      · exact within_unsupported
      · exact within_unexpected

theorem within_gateDefinition : Within (gateDefinition setting) (gateDefinition other) := by
  have defined : ∀ (name : String) (formals : List String), Within
      (identifiers setting >>= fun qubits => expect setting (.mark .leftBrace) >>= fun _ => bound >>= fun fuel =>
        gateBody setting fuel >>= fun body => expect setting (.mark .rightBrace) >>= fun _ =>
          Pure.pure (⟨name, formals, qubits, body⟩ : GateDefinition))
      (identifiers other >>= fun qubits => expect other (.mark .leftBrace) >>= fun _ => bound >>= fun fuel =>
        gateBody other fuel >>= fun body => expect other (.mark .rightBrace) >>= fun _ =>
          Pure.pure (⟨name, formals, qubits, body⟩ : GateDefinition)) :=
    fun name formals => .bind within_identifiers fun _ => (within_expect _).bind fun _ => .bind within_bound fun fuel =>
      (within_gateBody fuel).bind fun _ => (within_expect _).bind fun _ => .pure _
  refine (within_expect _).bind fun _ => .bind within_gateName fun name => (within_consume _).bind fun opened => ?_
  split
  · refine (within_check _).bind fun closed => ?_
    split
    · exact (within_expect _).bind fun _ => defined name _
    · exact .bind within_identifiers fun _ => (within_expect _).bind fun _ => defined name _
  · exact defined name _

section Dialects

variable (older : setting.dialect = .qasm2)

include older

/-- Where a name starts no gate call, the older dialect refuses what the newer one may take as an assignment. -/
theorem within_namedStatement : Within (namedStatement setting) (namedStatement other) := by
  refine .bind within_gateName fun name => (within_check _).bind fun assigned => (within_check _).bind fun indexed => ?_
  split
  · exact within_unexpected
  · refine (within_check _).bind fun modified => ?_
    split
    · exact within_unsupported
    · exact (within_callAfterName name).bind fun _ => .pure _

/-- The older dialect refuses the declarations that only the newer one has. -/
theorem within_statement : Within (statement setting) (statement other) := by
  have typed : setting.dialect ≠ .qasm3 := by
    rw [older]
    decide
  refine .bind within_peek fun found => ?_
  split
  · exact .throw _
  · exact .bind within_advance fun _ => .pure none
  · exact .map within_includeFile
  · exact (within_sizedDeclaration true).map
  · exact (within_sizedDeclaration false).map
  · rw [if_neg typed]
    exact within_unexpected
  · rw [if_neg typed]
    exact within_unexpected
  · exact .map within_measure
  · exact .map within_reset
  · exact .bind within_barrier fun _ => .pure _
  · exact .bind within_gateDefinition fun _ => .pure _
  all_goals first
    | exact .bind within_peek fun _ => within_unsupported
    | exact (within_namedStatement older).map
    | exact within_unexpected

theorem within_statementsFrom (fuel : Nat) (found : List Statement) :
    Within (statementsFrom setting fuel found) (statementsFrom other fuel found) := by
  induction fuel generalizing found with
  | zero => exact .throw _
  | succ fuel ih =>
    refine .get fun lexemes others same => ?_
    have ended : lexemes.isEmpty = others.isEmpty :=
      List.isEmpty_map.symm.trans ((congrArg List.isEmpty same).trans List.isEmpty_map)
    rw [ended]
    split
    · exact .pure _
    · exact (within_statement older).bind fun next => ih _

theorem within_body : Within (bound >>= fun fuel => statementsFrom setting fuel [])
    (bound >>= fun fuel => statementsFrom other fuel []) :=
  .bind within_bound fun fuel => within_statementsFrom older fuel []

end Dialects

end Parser

end CircuitCloak.Qasm

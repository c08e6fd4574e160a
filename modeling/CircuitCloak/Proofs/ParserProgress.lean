import CircuitCloak.Proofs.ParserSteps

/-! Progress of the parser. Wherever it starts, a step stops at a place among the lexemes that are left: it gives a
value behind the lexemes that it took, or a fault that tells what stands at the place. Every turn of a loop leaves fewer
lexemes, so the bounds on turns and on nested steps are never used up, and larger ones change nothing. -/

namespace CircuitCloak.Qasm

/-- A fault tells what stands where a step stopped; that a bound is used up is no such fault. -/
inductive ParseError.StoppedAt (setting : Setting) : List Lexeme → ParseError → Prop
  | token (lexeme : Lexeme) (rest : List Lexeme) (expected : String) :
    StoppedAt setting (lexeme :: rest) (.unexpectedToken lexeme.place.line expected lexeme.token)
  | ending (expected : String) : StoppedAt setting [] (.unexpectedEnd expected)
  | unsupported (left : List Lexeme) (construct : String) :
    StoppedAt setting left (.unsupported ((left.head?.map (·.place.line)).getD setting.lastLine) construct)
  | index {value : Nat} (large : ¬value < wordCount) (place : Place) (rest : List Lexeme) :
    StoppedAt setting (⟨.integer value, place⟩ :: rest) (.indexTooLarge value)
  | version {lexeme : Lexeme} (unread : Parser.versionNumber lexeme.token = none) (rest : List Lexeme) :
    StoppedAt setting (lexeme :: rest) (.invalidVersion lexeme.token)
  | dialect {lexeme : Lexeme} {version : String} {major : Nat}
    (read : Parser.versionNumber lexeme.token = some (version, major)) (other : major ≠ setting.dialect.versionNumber)
    (rest : List Lexeme) : StoppedAt setting (lexeme :: rest) (.wrongVersion version setting.dialect.name)

/-- A step ends among the lexemes that were left: with a value, after it took so many of them at least, or with a fault
that tells what stands where it stopped. -/
inductive Halts {α : Type} (setting : Setting) (least : Nat) (lexemes : List Lexeme) :
    Except ParseError (α × List Lexeme) → Prop
  | value {value : α} {rest : List Lexeme} (inside : rest <:+ lexemes) (taken : rest.length + least ≤ lexemes.length) :
    Halts setting least lexemes (.ok (value, rest))
  | fault {fault : ParseError} {rest : List Lexeme} (inside : rest <:+ lexemes)
    (stopped : fault.StoppedAt setting rest) : Halts setting least lexemes (.error fault)

namespace Halts

variable {α : Type} {setting : Setting} {least more : Nat} {lexemes rest : List Lexeme}
  {outcome : Except ParseError (α × List Lexeme)}

theorem mono (halts : Halts setting more lexemes outcome) (fewer : least ≤ more) :
    Halts setting least lexemes outcome := by
  cases halts with
  | value inside taken => exact .value inside (by omega)
  | fault inside stopped => exact .fault inside stopped

/-- What ends among the lexemes that a step leaves ends among those that it was given. -/
theorem later (halts : Halts setting more rest outcome) (inside : rest <:+ lexemes)
    (taken : rest.length + least ≤ lexemes.length) : Halts setting (least + more) lexemes outcome := by
  cases halts with
  | value deeper less => exact .value (deeper.trans inside) (by omega)
  | fault deeper stopped => exact .fault (deeper.trans inside) stopped

/-- What ends after a lexeme took that lexeme too. -/
theorem behind (lexeme : Lexeme) (halts : Halts setting least rest outcome) :
    Halts setting (least + 1) (lexeme :: rest) outcome :=
  (halts.later (List.suffix_cons lexeme rest) (Nat.le_refl (rest.length + 1))).mono (Nat.le_of_eq (Nat.add_comm _ _))

end Halts

/-- On so many lexemes at most, both steps do the same: they end among the lexemes, after they took so many of them at
least. Steps with different bounds are compared, or one with itself. -/
def Advances {α : Type} (setting : Setting) (limit least : Nat) (first second : Parser α) : Prop :=
  ∀ lexemes, lexemes.length ≤ limit → second lexemes = first lexemes ∧ Halts setting least lexemes (first lexemes)

/-- The same of one step. -/
abbrev Proceeds {α : Type} (setting : Setting) (limit least : Nat) (step : Parser α) : Prop :=
  Advances setting limit least step step

namespace Advances

variable {α β : Type} {setting : Setting} {limit least more : Nat} {first second : Parser α}
  {next following : α → Parser β}

theorem of_halts (halts : ∀ lexemes, lexemes.length ≤ limit → Halts setting least lexemes (first lexemes)) :
    Proceeds setting limit least first := fun lexemes few => ⟨rfl, halts lexemes few⟩

theorem mono (advances : Advances setting limit more first second) (fewer : least ≤ more) :
    Advances setting limit least first second := by
  intro lexemes few
  obtain ⟨same, halts⟩ := advances lexemes few
  exact ⟨same, halts.mono fewer⟩

theorem pure (value : α) : Proceeds setting limit 0 (Pure.pure value) :=
  of_halts fun lexemes _ => .value (List.suffix_refl lexemes) (Nat.le_refl _)

/-- The steps that follow have fewer lexemes left. -/
theorem bind_sum (begun : Advances setting limit least first second)
    (later : least ≤ limit → ∀ value, Advances setting (limit - least) more (next value) (following value)) :
    Advances setting limit (least + more) (first >>= next) (second >>= following) := by
  intro lexemes few
  obtain ⟨same, halts⟩ := begun lexemes few
  change (second lexemes >>= fun (value, left) => following value left) =
    (first lexemes >>= fun (value, left) => next value left) ∧
      Halts setting _ lexemes (first lexemes >>= fun (value, left) => next value left)
  rw [same]
  generalize first lexemes = outcome at halts
  cases halts with
  | fault inside stopped => exact ⟨rfl, .fault inside stopped⟩
  | @value value rest inside taken =>
    obtain ⟨alike, after⟩ := later (by omega) value rest (by omega)
    exact ⟨alike, after.later inside taken⟩

theorem bind (begun : Advances setting limit least first second)
    (later : least ≤ limit → ∀ value, Advances setting (limit - least) more (next value) (following value)) :
    Advances setting limit least (first >>= next) (second >>= following) :=
  (begun.bind_sum later).mono (Nat.le_add_right _ _)

/-- It does not matter how much is taken after a step that takes enough. -/
theorem bind_any (begun : Advances setting limit least first second)
    (later : least ≤ limit → ∀ value, Advances setting (limit - least) 0 (next value) (following value)) :
    Advances setting limit least (first >>= next) (second >>= following) := begun.bind later

/-- It does not matter how much is taken before a step that takes enough. -/
theorem skip (begun : Advances setting limit more first second)
    (later : ∀ value, Advances setting limit least (next value) (following value)) :
    Advances setting limit least (first >>= next) (second >>= following) := by
  have any : Advances setting limit 0 first second := begun.mono (Nat.zero_le _)
  have whole := any.bind_sum fun _ value => later value
  rwa [Nat.zero_add] at whole

theorem map {function : α → β} (advances : Advances setting limit least first second) :
    Advances setting limit least (function <$> first) (function <$> second) := by
  rw [map_eq_pure_bind, map_eq_pure_bind]
  exact advances.bind fun _ value => .pure (function value)

/-- A step whose bound depends on how many lexemes are left. -/
theorem get {next : List Lexeme → Parser β}
    (later : ∀ lexemes, lexemes.length ≤ limit → Proceeds setting lexemes.length least (next lexemes)) :
    Proceeds setting limit least (MonadState.get >>= next) :=
  of_halts fun lexemes few => (later lexemes few lexemes (Nat.le_refl _)).2

end Advances

namespace Parser

variable {α : Type} {setting : Setting} {limit least : Nat}

theorem proceeds_peek : Proceeds setting limit 0 peek :=
  .of_halts fun lexemes _ => .value (List.suffix_refl lexemes) (Nat.le_refl _)

theorem proceeds_check (token : Token) : Proceeds setting limit 0 (check token) :=
  proceeds_peek.bind fun _ _ => .pure _

theorem proceeds_advance : Proceeds setting limit 0 advance := by
  refine .of_halts fun lexemes _ => ?_
  cases lexemes with
  | nil => exact .value (List.suffix_refl []) (Nat.le_refl _)
  | cons lexeme rest => exact .value (List.suffix_cons lexeme rest) (Nat.le_succ _)

theorem advances_consume {token : Token} {next following : Bool → Parser α}
    (taken : 0 < limit → Advances setting (limit - 1) (least - 1) (next true) (following true))
    (other : Advances setting limit least (next false) (following false)) :
    Advances setting limit least (consume token >>= next) (consume token >>= following) := by
  intro lexemes few
  cases lexemes with
  | nil => exact other [] few
  | cons lexeme rest =>
    have branches : ∀ next : Bool → Parser α, (consume token >>= next) (lexeme :: rest) =
        if (some lexeme.token == some token) = true then next true rest else next false (lexeme :: rest) := by
      intro next
      change ((if (some lexeme.token == some token) = true then _ else _ : Parser Bool) >>= next) (lexeme :: rest) = _
      split <;> rfl
    rw [branches, branches]
    rw [List.length_cons] at few
    split
    · obtain ⟨same, halts⟩ := taken (by omega) rest (by omega)
      exact ⟨same, (halts.behind lexeme).mono (by omega)⟩
    · exact other (lexeme :: rest) (by rwa [List.length_cons])

theorem proceeds_consumed (token : Token) : Proceeds setting limit 0 (consume token) := by
  have taken : Proceeds setting limit 0 (consume token >>= Pure.pure) :=
    advances_consume (fun _ => .pure true) (.pure false)
  rwa [bind_pure] at taken

theorem proceeds_unexpected {expected : String} :
    Proceeds setting limit least (unexpected setting expected : Parser α) := by
  refine .of_halts fun lexemes _ => ?_
  cases lexemes with
  | nil => exact .fault (List.suffix_refl []) (.ending expected)
  | cons lexeme rest => exact .fault (List.suffix_refl _) (.token lexeme rest expected)

theorem proceeds_unsupported {construct : String} :
    Proceeds setting limit least (unsupported setting construct : Parser α) :=
  .of_halts fun lexemes _ => .fault (List.suffix_refl lexemes) (.unsupported lexemes construct)

theorem proceeds_expect (token : Token) : Proceeds setting limit 1 (expect setting token) := by
  refine .of_halts fun lexemes _ => ?_
  cases lexemes with
  | nil => exact .fault (List.suffix_refl []) (.ending _)
  | cons lexeme rest =>
    change Halts setting 1 _ ((if (lexeme.token == token) = true then _ else _ : Parser Unit) (lexeme :: rest))
    split
    · exact .value (List.suffix_cons lexeme rest) (Nat.le_refl _)
    · exact .fault (List.suffix_refl _) (.token lexeme rest token.text)

theorem proceeds_identifier : Proceeds setting limit 1 (identifier setting) := by
  refine .of_halts fun lexemes _ => ?_
  cases lexemes with
  | nil => exact .fault (List.suffix_refl []) (.ending _)
  | cons lexeme rest =>
    obtain ⟨token, place⟩ := lexeme
    cases token with
    | identifier name => exact .value (List.suffix_cons _ rest) (Nat.le_refl _)
    | keyword | mark | integer | decimal | quoted => exact .fault (List.suffix_refl _) (.token _ rest _)

theorem proceeds_index : Proceeds setting limit 1 (index setting) := by
  refine .of_halts fun lexemes _ => ?_
  cases lexemes with
  | nil => exact .fault (List.suffix_refl []) (.ending _)
  | cons lexeme rest =>
    obtain ⟨token, place⟩ := lexeme
    cases token with
    | integer value =>
      change Halts setting 1 _ ((if value < wordCount then _ else _ : Parser Nat) (_ :: rest))
      split
      next => exact .value (List.suffix_cons _ rest) (Nat.le_refl _)
      next large => exact .fault (List.suffix_refl _) (.index large place rest)
    | keyword | mark | identifier | decimal | quoted => exact .fault (List.suffix_refl _) (.token _ rest _)

theorem proceeds_gateName : Proceeds setting limit 1 (gateName setting) := by
  refine .of_halts fun lexemes few => ?_
  have named : Halts setting 1 lexemes (identifier setting lexemes) := (proceeds_identifier lexemes few).2
  cases lexemes with
  | nil => exact named
  | cons lexeme rest =>
    obtain ⟨token, place⟩ := lexeme
    cases token with
    | keyword word =>
      cases word with
      | upperU | upperCX => exact .value (List.suffix_cons _ rest) (Nat.le_refl _)
      | _ => exact named
    | mark | identifier | integer | decimal | quoted => exact named

theorem advances_commaList {member : Parser α} (each : ∀ limit, Proceeds setting limit 1 member) {fuel other : Nat}
    (enough : limit < fuel) (also : limit < other) :
    Advances setting limit 1 (commaList member fuel) (commaList member other) := by
  induction fuel generalizing limit other with
  | zero => omega
  | succ fuel ih =>
    obtain ⟨other, rfl⟩ : ∃ less, other = less + 1 := ⟨other - 1, by omega⟩
    refine (each limit).bind fun some first => advances_consume (fun more => ?_) (.pure [first])
    exact ((ih (by omega) (by omega)).mono (Nat.zero_le _)).bind fun _ rest => .pure _

theorem proceeds_bound {next : Nat → Parser α}
    (later : ∀ few ≤ limit, Proceeds setting few least (next (few + 1))) :
    Proceeds setting limit least (bound >>= next) :=
  .get fun lexemes few => later lexemes.length few

/-- What the steps of expressions do with bounds that are large enough. -/
structure ExpressionsAdvance (setting : Setting) (fuel : Nat) : Prop where
  signed : ∀ {limit other}, 4 * limit + 2 ≤ fuel → 4 * limit + 2 ≤ other →
    Advances setting limit 1 (signed setting fuel) (signed setting other)
  primary : ∀ {limit other}, 4 * limit + 1 ≤ fuel → 4 * limit + 1 ≤ other →
    Advances setting limit 1 (primary setting fuel) (primary setting other)
  climb : ∀ {limit other} least, 4 * limit + 3 ≤ fuel → 4 * limit + 3 ≤ other →
    Advances setting limit 1 (climb setting least fuel) (climb setting least other)
  extend : ∀ {limit other} least left, 4 * limit + 1 ≤ fuel → 4 * limit + 1 ≤ other →
    Advances setting limit 0 (extend setting least left fuel) (extend setting least left other)
  arguments : ∀ {limit other}, 4 * limit + 5 ≤ fuel → 4 * limit + 5 ≤ other →
    Advances setting limit 0 (arguments setting fuel) (arguments setting other)
  argumentsFrom : ∀ {limit other}, 4 * limit + 4 ≤ fuel → 4 * limit + 4 ≤ other →
    Advances setting limit 1 (argumentsFrom setting fuel) (argumentsFrom setting other)

/-- What follows a name in an expression: the arguments of a call, or nothing. -/
def afterName (setting : Setting) (name : String) (fuel : Nat) : Parser Expr := do
  if ← consume (.mark .leftParen) then
    let list ← arguments setting fuel
    expect setting (.mark .rightParen)
    return .call name list
  else return .name name

def afterParen (setting : Setting) (fuel : Nat) : Parser Expr := do
  let inner ← climb setting 0 fuel
  expect setting (.mark .rightParen)
  return .paren inner

/-- What follows an operator: its right operand, and what extends the whole. -/
def afterOperator (setting : Setting) (least : Nat) (left : Expr) (operator : Operator) (fuel : Nat) : Parser Expr := do
  let right ← climb setting operator.rightLevel fuel
  extend setting least (.binary left operator right) fuel

/-- What a primary expression does after its first token. -/
def afterToken (setting : Setting) (line fuel : Nat) : Option Token → Parser Expr
  | none => throw (.unexpectedEnd "expression")
  | some (.integer value) => Pure.pure (.int value)
  | some (.decimal value) => Pure.pure (.decimal value)
  | some (.keyword .pi) => Pure.pure .pi
  | some (.keyword .tau) => Pure.pure .tau
  | some (.keyword .euler) => Pure.pure .euler
  | some (.identifier name) => afterName setting name fuel
  | some (.mark .leftParen) => afterParen setting fuel
  | some found => throw (.unexpectedToken line "expression" found)

theorem primary_succ (fuel : Nat) :
    primary setting (fuel + 1) = line setting >>= fun line => advance >>= afterToken setting line fuel := by
  rw [primary]
  rfl

/-- Steps that follow a lexeme do the same, and they took one with it. -/
def Follow (setting : Setting) (lexeme : Lexeme) (rest : List Lexeme) (first second : Parser α) : Prop :=
  second rest = first rest ∧ Halts setting 1 (lexeme :: rest) (first rest)

theorem follow_pure (lexeme : Lexeme) (rest : List Lexeme) (value : α) :
    Follow setting lexeme rest (Pure.pure value) (Pure.pure value) :=
  ⟨rfl, .value (List.suffix_cons lexeme rest) (Nat.le_refl _)⟩

theorem follow_of_advances {first second : Parser α} (advances : 0 < limit → Advances setting (limit - 1) 0 first second)
    (lexeme : Lexeme) {rest : List Lexeme} (few : rest.length + 1 ≤ limit) :
    Follow setting lexeme rest first second := by
  obtain ⟨same, halts⟩ := advances (by omega) rest (by omega)
  exact ⟨same, halts.behind lexeme⟩

/-- A primary expression takes its first token, or it refuses it. -/
theorem advances_primary {fuel other : Nat}
    (call : ∀ name, 0 < limit → Advances setting (limit - 1) 0 (afterName setting name fuel) (afterName setting name other))
    (inner : 0 < limit → Advances setting (limit - 1) 0 (afterParen setting fuel) (afterParen setting other)) :
    Advances setting limit 1 (primary setting (fuel + 1)) (primary setting (other + 1)) := by
  intro lexemes few
  rw [primary_succ, primary_succ]
  cases lexemes with
  | nil => exact ⟨rfl, .fault (List.suffix_refl []) (.ending _)⟩
  | cons lexeme rest =>
    rw [List.length_cons] at few
    change Follow setting lexeme rest (afterToken setting lexeme.place.line fuel (some lexeme.token))
      (afterToken setting lexeme.place.line other (some lexeme.token))
    have refused : Follow setting lexeme rest
        (throw (.unexpectedToken lexeme.place.line "expression" lexeme.token) : Parser Expr)
        (throw (.unexpectedToken lexeme.place.line "expression" lexeme.token)) :=
      ⟨rfl, .fault (List.suffix_refl _) (.token lexeme rest _)⟩
    unfold afterToken
    split
    · contradiction
    · exact follow_pure lexeme rest _
    · exact follow_pure lexeme rest _
    · exact follow_pure lexeme rest _
    · exact follow_pure lexeme rest _
    · exact follow_pure lexeme rest _
    · exact follow_of_advances (call _) lexeme few
    · exact follow_of_advances inner lexeme few
    next same => exact Option.some.inj same ▸ refused

/-- An operator that extends an expression is taken. -/
theorem advances_extend {fuel other : Nat} {level : Nat} {left : Expr}
    (more : ∀ operator : Operator, 0 < limit → Advances setting (limit - 1) 0
      (afterOperator setting level left operator fuel) (afterOperator setting level left operator other)) :
    Advances setting limit 0 (extend setting level left (fuel + 1)) (extend setting level left (other + 1)) := by
  intro lexemes few
  rw [extend, extend]
  cases lexemes with
  | nil => exact ⟨rfl, .value (List.suffix_refl []) (Nat.le_refl _)⟩
  | cons lexeme rest =>
    rw [List.length_cons] at few
    have branches : ∀ next : Option Operator → Parser Expr,
        (peekOperator >>= next) (lexeme :: rest) = next (operator? lexeme.token) (lexeme :: rest) := fun _ => rfl
    rw [branches, branches]
    cases operator? lexeme.token with
    | none => exact ⟨rfl, .value (List.suffix_refl _) (Nat.le_refl _)⟩
    | some operator =>
      dsimp only
      split
      · exact ⟨rfl, .value (List.suffix_refl _) (Nat.le_refl _)⟩
      · obtain ⟨same, halts⟩ := more operator (by omega) rest (by omega)
        exact ⟨same, (halts.behind lexeme).mono (Nat.zero_le _)⟩

theorem expressionsAdvance (fuel : Nat) : ExpressionsAdvance setting fuel := by
  induction fuel with
  | zero => constructor <;> intros <;> omega
  | succ fuel ih =>
    constructor
    case signed =>
      intro limit other enough also
      obtain ⟨other, rfl⟩ : ∃ less, other = less + 1 := ⟨other - 1, by omega⟩
      rw [signed, signed]
      refine advances_consume (fun some => ?_) (advances_consume (fun some => ?_) ?_)
      · exact ((ih.signed (by omega) (by omega)).mono (Nat.zero_le _)).bind fun _ _ => .pure _
      · exact (ih.signed (by omega) (by omega)).mono (Nat.zero_le _)
      · exact ih.primary (by omega) (by omega)
    case primary =>
      intro limit other enough also
      obtain ⟨other, rfl⟩ : ∃ less, other = less + 1 := ⟨other - 1, by omega⟩
      refine advances_primary (fun name some => ?_) fun some => ?_
      · rw [afterName, afterName]
        refine advances_consume (fun more => ?_) (.pure _)
        exact (ih.arguments (by omega) (by omega)).bind fun _ _ => (proceeds_expect _).bind fun _ _ => .pure _
      · have read : Advances setting (limit - 1) 1 (Parser.climb setting 0 fuel) (Parser.climb setting 0 other) :=
          ih.climb 0 (by omega) (by omega)
        exact (read.mono (Nat.zero_le _)).bind fun _ _ => (proceeds_expect _).bind fun _ _ => .pure _
    case climb =>
      intro limit other least enough also
      obtain ⟨other, rfl⟩ : ∃ less, other = less + 1 := ⟨other - 1, by omega⟩
      exact (ih.signed (by omega) (by omega)).bind fun _ left => ih.extend least left (by omega) (by omega)
    case extend =>
      intro limit other least left enough also
      obtain ⟨other, rfl⟩ : ∃ less, other = less + 1 := ⟨other - 1, by omega⟩
      refine advances_extend fun operator some => ?_
      have read : Advances setting (limit - 1) 1 (Parser.climb setting operator.rightLevel fuel)
          (Parser.climb setting operator.rightLevel other) := ih.climb operator.rightLevel (by omega) (by omega)
      exact (read.mono (Nat.zero_le _)).bind fun _ right => ih.extend least _ (by omega) (by omega)
    case arguments =>
      intro limit other enough also
      obtain ⟨other, rfl⟩ : ∃ less, other = less + 1 := ⟨other - 1, by omega⟩
      rw [Parser.arguments, Parser.arguments]
      refine (proceeds_check _).bind_any fun _ closed => ?_
      split
      · exact .pure _
      · exact (ih.argumentsFrom (by omega) (by omega)).mono (Nat.zero_le _)
    case argumentsFrom =>
      intro limit other enough also
      obtain ⟨other, rfl⟩ : ∃ less, other = less + 1 := ⟨other - 1, by omega⟩
      refine (ih.climb 0 (by omega) (by omega)).bind fun some first => advances_consume (fun more => ?_) (.pure [first])
      exact ((ih.argumentsFrom (by omega) (by omega)).mono (Nat.zero_le _)).bind fun _ _ => .pure _

theorem proceeds_expressionBound {next : Nat → Parser α}
    (later : ∀ few ≤ limit, Proceeds setting few least (next (4 * few + 5))) :
    Proceeds setting limit least (expressionBound >>= next) :=
  .get fun lexemes few => later lexemes.length few

theorem proceeds_expression : Proceeds setting limit 1 (expression setting) :=
  proceeds_expressionBound fun few _ => (expressionsAdvance (4 * few + 5)).climb 0 (by omega) (by omega)

theorem proceeds_expressionList : Proceeds setting limit 0 (expressionList setting) :=
  proceeds_expressionBound fun few _ => (expressionsAdvance (4 * few + 5)).arguments (by omega) (by omega)

theorem proceeds_operand : Proceeds setting limit 1 (operand setting) := by
  refine proceeds_identifier.bind fun _ register => advances_consume (fun _ => ?_) (.pure _)
  exact (proceeds_index.mono (Nat.zero_le _)).bind fun _ _ => (proceeds_expect _).bind fun _ _ => .pure _

theorem proceeds_operands : Proceeds setting limit 1 (operands setting) :=
  proceeds_bound fun few _ =>
    advances_commaList (fun _ => proceeds_operand) (Nat.lt_succ_self few) (Nat.lt_succ_self few)

theorem proceeds_identifiers : Proceeds setting limit 1 (identifiers setting) :=
  proceeds_bound fun few _ =>
    advances_commaList (fun _ => proceeds_identifier) (Nat.lt_succ_self few) (Nat.lt_succ_self few)

theorem proceeds_callAfterName (name : String) : Proceeds setting limit 1 (callAfterName setting name) := by
  have called : ∀ {limit : Nat} (list : List Expr), Proceeds setting limit 1
      (operands setting >>= fun targets => expect setting (.mark .semicolon) >>= fun _ =>
        Pure.pure (⟨name, list, targets⟩ : GateCall)) :=
    fun list => proceeds_operands.bind fun _ _ => (proceeds_expect _).bind fun _ _ => .pure _
  refine advances_consume (fun _ => ?_) (called [])
  exact proceeds_expressionList.bind fun _ list => (proceeds_expect _).bind fun _ _ => called list

theorem proceeds_includeFile : Proceeds setting limit 1 (includeFile setting) := by
  refine (proceeds_expect _).bind_any fun _ _ => proceeds_peek.skip fun found => ?_
  split
  · exact proceeds_advance.bind fun _ _ => (proceeds_expect _).bind fun _ _ => .pure _
  · exact proceeds_unexpected

theorem proceeds_sizedDeclaration (quantum : Bool) : Proceeds setting limit 1 (sizedDeclaration setting quantum) :=
  proceeds_advance.skip fun _ => proceeds_identifier.bind fun _ _ => (proceeds_expect _).bind fun _ _ =>
    proceeds_index.bind fun _ _ => (proceeds_expect _).bind fun _ _ => (proceeds_expect _).bind fun _ _ => .pure _

theorem proceeds_typedDeclaration (quantum : Bool) : Proceeds setting limit 1 (typedDeclaration setting quantum) := by
  have declared : ∀ {limit : Nat} (size : Nat), Proceeds setting limit 1
      (identifier setting >>= fun name => check (.mark .equal) >>= fun initialized => do
        if initialized = true then unsupported setting "initialized declaration"
        expect setting (.mark .semicolon)
        return declaration quantum name size) := by
    intro limit size
    refine proceeds_identifier.bind_any fun _ name => (proceeds_check _).skip fun initialized => ?_
    split
    · exact proceeds_unsupported.bind fun _ _ => (proceeds_expect _).bind fun _ _ => .pure _
    · exact ((proceeds_expect _).mono (Nat.zero_le _)).bind fun _ _ => .pure _
  refine proceeds_advance.skip fun _ => advances_consume (fun _ => ?_) (declared 1)
  exact (proceeds_index.mono (Nat.zero_le _)).bind fun _ _ => (proceeds_expect _).bind fun _ _ => declared _

theorem proceeds_measure : Proceeds setting limit 1 (measure setting) :=
  (proceeds_expect _).bind fun _ _ => proceeds_operand.bind fun _ _ => (proceeds_expect _).bind fun _ _ =>
    proceeds_operand.bind fun _ _ => (proceeds_expect _).bind fun _ _ => .pure _

theorem proceeds_reset : Proceeds setting limit 1 (reset setting) :=
  (proceeds_expect _).bind fun _ _ => proceeds_operand.bind fun _ _ => (proceeds_expect _).bind fun _ _ => .pure _

theorem proceeds_barrier : Proceeds setting limit 1 (barrier setting) := by
  refine (proceeds_expect _).bind_any fun _ _ => (proceeds_check _).skip fun empty => ?_
  split
  · exact ((proceeds_expect _).mono (Nat.zero_le _)).bind fun _ _ => .pure _
  · exact (proceeds_operands.mono (Nat.zero_le _)).bind fun _ _ => (proceeds_expect _).bind fun _ _ => .pure _

theorem advances_gateBody {fuel other : Nat} (enough : limit < fuel) (also : limit < other) :
    Advances setting limit 0 (gateBody setting fuel) (gateBody setting other) := by
  induction fuel generalizing limit other with
  | zero => omega
  | succ fuel ih =>
    obtain ⟨other, rfl⟩ : ∃ less, other = less + 1 := ⟨other - 1, by omega⟩
    have called : Advances setting limit 0
        (gateName setting >>= fun name => callAfterName setting name >>= fun call =>
          gateBody setting fuel >>= fun rest => Pure.pure (call :: rest))
        (gateName setting >>= fun name => callAfterName setting name >>= fun call =>
          gateBody setting other >>= fun rest => Pure.pure (call :: rest)) := by
      refine (proceeds_gateName.bind_any fun some name => ?_).mono (Nat.zero_le 1)
      refine ((proceeds_callAfterName name).bind_any fun more call => ?_).mono (Nat.zero_le 1)
      exact (ih (by omega) (by omega)).bind fun _ rest => .pure _
    rw [gateBody, gateBody]
    refine (proceeds_check _).bind_any fun _ closed => ?_
    split
    · exact .pure _
    · refine proceeds_peek.skip fun found => ?_
      split
      · exact (proceeds_barrier.bind fun some _ => ih (by omega) (by omega)).mono (Nat.zero_le _)
      · exact called
      · exact called
      · exact called
      · exact proceeds_unsupported
      · exact proceeds_unsupported
      · exact proceeds_unexpected

theorem proceeds_gateDefinition : Proceeds setting limit 1 (gateDefinition setting) := by
  have defined : ∀ {limit : Nat} (name : String) (formals : List String), Proceeds setting limit 0
      (identifiers setting >>= fun qubits => expect setting (.mark .leftBrace) >>= fun _ => bound >>= fun fuel =>
        gateBody setting fuel >>= fun body => expect setting (.mark .rightBrace) >>= fun _ =>
          Pure.pure (⟨name, formals, qubits, body⟩ : GateDefinition)) := by
    intro limit name formals
    refine (proceeds_identifiers.mono (Nat.zero_le _)).bind fun _ _ => (proceeds_expect _).bind_any fun _ _ => ?_
    refine proceeds_bound fun few _ => ?_
    exact (advances_gateBody (Nat.lt_succ_self few) (Nat.lt_succ_self few)).bind fun _ _ =>
      (proceeds_expect _).bind fun _ _ => .pure _
  refine (proceeds_expect _).bind fun _ _ => proceeds_gateName.bind_any fun _ name =>
    advances_consume (fun _ => ?_) (defined name [])
  refine (proceeds_check _).bind_any fun _ closed => ?_
  split
  · exact ((proceeds_expect _).mono (Nat.zero_le _)).bind fun _ _ => defined name _
  · exact (proceeds_identifiers.mono (Nat.zero_le _)).bind fun _ _ => (proceeds_expect _).bind fun _ _ => defined name _

theorem proceeds_assignment (register : String) : Proceeds setting limit 1 (assignment setting register) := by
  have assigned : ∀ {limit : Nat} (index : Option Nat), Proceeds setting limit 1
      (expect setting (.mark .equal) >>= fun _ => consume (.keyword .measure) >>= fun measured => if measured = true then
        operand setting >>= fun qubits => expect setting (.mark .semicolon) >>= fun _ =>
          Pure.pure (Statement.measure qubits ⟨register, index⟩)
      else unsupported setting "classical assignment") := by
    intro limit index
    have refused : Proceeds setting (limit - 1) 0 (unsupported setting "classical assignment" : Parser Statement) :=
      proceeds_unsupported
    refine (proceeds_expect _).bind fun _ _ => advances_consume (fun _ => ?_) refused
    exact (proceeds_operand.mono (Nat.zero_le _)).bind fun _ _ => (proceeds_expect _).bind fun _ _ => .pure _
  refine advances_consume (fun _ => ?_) (assigned none)
  exact (proceeds_index.mono (Nat.zero_le _)).bind fun _ _ => (proceeds_expect _).bind fun _ _ => assigned _

theorem proceeds_namedStatement : Proceeds setting limit 1 (namedStatement setting) := by
  refine proceeds_gateName.bind_any fun _ name => (proceeds_check _).skip fun _ => (proceeds_check _).skip fun _ => ?_
  split
  · split
    · exact proceeds_unexpected
    · exact (proceeds_assignment name).mono (Nat.zero_le _)
  · refine (proceeds_check _).skip fun modified => ?_
    split
    · exact proceeds_unsupported
    · exact ((proceeds_callAfterName name).mono (Nat.zero_le _)).bind fun _ _ => .pure _

/-- A step that looks at the next token, and takes it at once if it is the given one. -/
theorem proceeds_taking (token : Token) {next : Option Token → Parser α} {value : α}
    (taken : next (some token) = advance >>= fun _ => Pure.pure value) (ending : Halts setting 1 [] (next none []))
    (other : ∀ found, found ≠ token → Proceeds setting limit 1 (next (some found))) :
    Proceeds setting limit 1 (peek >>= next) := by
  refine .of_halts fun lexemes few => ?_
  cases lexemes with
  | nil => exact ending
  | cons lexeme rest =>
    change Halts setting 1 _ (next (some lexeme.token) (lexeme :: rest))
    by_cases same : lexeme.token = token
    · rw [same, taken]
      exact .value (List.suffix_cons lexeme rest) (Nat.le_refl _)
    · exact (other _ same _ few).2

theorem proceeds_statement : Proceeds setting limit 1 (statement setting) := by
  refine proceeds_taking (.mark .semicolon) rfl (.fault (List.suffix_refl []) (.ending _)) fun found different => ?_
  split
  · contradiction
  next same => exact absurd (Option.some.inj same) different
  · exact proceeds_includeFile.map
  · exact (proceeds_sizedDeclaration true).map
  · exact (proceeds_sizedDeclaration false).map
  · split
    · exact (proceeds_typedDeclaration true).map
    · exact proceeds_unexpected
  · split
    · exact (proceeds_typedDeclaration false).map
    · exact proceeds_unexpected
  · exact proceeds_measure.map
  · exact proceeds_reset.map
  · exact proceeds_barrier.bind fun _ _ => .pure _
  · exact proceeds_gateDefinition.bind fun _ _ => .pure _
  all_goals first
    | exact proceeds_peek.skip fun _ => proceeds_unsupported
    | exact proceeds_namedStatement.map
    | exact proceeds_unexpected

theorem advances_statementsFrom {fuel other : Nat} (found : List Statement) (enough : limit < fuel)
    (also : limit < other) :
    Advances setting limit 0 (statementsFrom setting fuel found) (statementsFrom setting other found) := by
  induction fuel generalizing limit other found with
  | zero => omega
  | succ fuel ih =>
    obtain ⟨other, rfl⟩ : ∃ less, other = less + 1 := ⟨other - 1, by omega⟩
    have turn : Advances setting limit 1
        (statement setting >>= fun next => statementsFrom setting fuel (next.toList ++ found))
        (statement setting >>= fun next => statementsFrom setting other (next.toList ++ found)) :=
      proceeds_statement.bind fun some next => ih _ (by omega) (by omega)
    intro lexemes few
    cases lexemes with
    | nil => exact ⟨rfl, .value (List.suffix_refl []) (Nat.le_refl _)⟩
    | cons lexeme rest => exact turn.mono (Nat.zero_le 1) (lexeme :: rest) few

theorem proceeds_header : Proceeds setting limit 1 (header setting) := by
  refine (proceeds_expect _).bind_any fun _ _ => .of_halts fun lexemes few => ?_
  cases lexemes with
  | nil => exact .fault (List.suffix_refl []) (.ending _)
  | cons lexeme rest =>
    have taken : ∀ next : Option Token → Parser Unit,
        (advance >>= next) (lexeme :: rest) = next (some lexeme.token) rest := fun _ => rfl
    rw [taken]
    cases read : versionNumber lexeme.token with
    | none =>
      simp only [read]
      exact .fault (List.suffix_refl _) (.version read rest)
    | some named =>
      simp only [read]
      split
      next other => exact .fault (List.suffix_refl _) (.dialect read other rest)
      next =>
        have closed : Proceeds setting rest.length 1 (expect setting (.mark .semicolon)) := proceeds_expect _
        exact ((closed rest (Nat.le_refl _)).2.behind lexeme).mono (Nat.zero_le _)

theorem proceeds_program : Proceeds setting limit 1 (program setting) :=
  proceeds_header.bind_any fun _ _ => proceeds_bound fun few _ =>
    advances_statementsFrom [] (Nat.lt_succ_self few) (Nat.lt_succ_self few)

/-- A step from a position among the tokens lands at a later one, at their end at most: with a value, after it took so
many tokens at least, or with a fault that tells what stands there. -/
inductive Lands {α : Type} (setting : Setting) (tokens : List Lexeme) (position least : Nat) :
    Except ParseError (α × List Lexeme) → Prop
  | value {value : α} {later : Nat} (onward : position + least ≤ later) (inside : later ≤ max position tokens.length) :
    Lands setting tokens position least (.ok (value, tokens.drop later))
  | fault {fault : ParseError} {later : Nat} (onward : position ≤ later) (inside : later ≤ max position tokens.length)
    (stopped : fault.StoppedAt setting (tokens.drop later)) : Lands setting tokens position least (.error fault)

/-- A loop or a nest of steps ends: with every bound from some one on, it lands in the same way. -/
def Ends {α : Type} (setting : Setting) (tokens : List Lexeme) (position least enough : Nat) (step : Nat → Parser α) :
    Prop :=
  ∃ outcome, Lands setting tokens position least outcome ∧
    ∀ fuel, enough ≤ fuel → step fuel (tokens.drop position) = outcome

section Positions

variable {tokens : List Lexeme} {position enough : Nat}

/-- Those who are left of the lexemes that are left stand at a later position. -/
theorem exists_later {rest : List Lexeme} (inside : rest <:+ tokens.drop position) :
    ∃ taken, rest = tokens.drop (position + taken) ∧ taken + rest.length = tokens.length - position := by
  obtain ⟨taken, whole⟩ := inside
  refine ⟨taken.length, ?_, ?_⟩
  · rw [← List.drop_drop, ← whole, List.drop_left]
  · rw [← List.length_drop, ← whole, List.length_append]

theorem lands_of_halts {outcome : Except ParseError (α × List Lexeme)}
    (halts : Halts setting least (tokens.drop position) outcome) : Lands setting tokens position least outcome := by
  cases halts with
  | value inside taken =>
    rw [List.length_drop] at taken
    obtain ⟨some, rfl, total⟩ := exists_later inside
    exact .value (by omega) (by omega)
  | fault inside stopped =>
    obtain ⟨some, rfl, total⟩ := exists_later inside
    exact .fault (by omega) (by omega) stopped

theorem lands {step : Parser α} (proceeds : Proceeds setting (tokens.drop position).length least step) :
    Lands setting tokens position least (step (tokens.drop position)) :=
  lands_of_halts (proceeds _ (Nat.le_refl _)).2

theorem ends {step : Nat → Parser α}
    (advances : ∀ fuel, enough ≤ fuel → Advances setting (tokens.length - position) least (step enough) (step fuel)) :
    Ends setting tokens position least enough step := by
  have few : (tokens.drop position).length ≤ tokens.length - position := Nat.le_of_eq List.length_drop
  refine ⟨step enough (tokens.drop position), lands_of_halts (advances enough (Nat.le_refl _) _ few).2, ?_⟩
  intro fuel more
  exact (advances fuel more _ few).1

end Positions

/-- Progress from a position: how many tokens each step takes at least when it succeeds, and the bounds with which the
loops and the nested expressions end. -/
structure Progress (setting : Setting) (tokens : List Lexeme) (position : Nat) : Prop where
  program : Lands setting tokens position 1 (program setting (tokens.drop position))
  header : Lands setting tokens position 1 (header setting (tokens.drop position))
  statement : Lands setting tokens position 1 (statement setting (tokens.drop position))
  includeFile : Lands setting tokens position 1 (includeFile setting (tokens.drop position))
  sizedDeclaration quantum : Lands setting tokens position 1 (sizedDeclaration setting quantum (tokens.drop position))
  typedDeclaration quantum : Lands setting tokens position 1 (typedDeclaration setting quantum (tokens.drop position))
  measure : Lands setting tokens position 1 (measure setting (tokens.drop position))
  reset : Lands setting tokens position 1 (reset setting (tokens.drop position))
  barrier : Lands setting tokens position 1 (barrier setting (tokens.drop position))
  gateDefinition : Lands setting tokens position 1 (gateDefinition setting (tokens.drop position))
  namedStatement : Lands setting tokens position 1 (namedStatement setting (tokens.drop position))
  assignment register : Lands setting tokens position 1 (assignment setting register (tokens.drop position))
  callAfterName name : Lands setting tokens position 1 (callAfterName setting name (tokens.drop position))
  gateName : Lands setting tokens position 1 (gateName setting (tokens.drop position))
  operand : Lands setting tokens position 1 (operand setting (tokens.drop position))
  operands : Lands setting tokens position 1 (operands setting (tokens.drop position))
  identifier : Lands setting tokens position 1 (identifier setting (tokens.drop position))
  identifiers : Lands setting tokens position 1 (identifiers setting (tokens.drop position))
  index : Lands setting tokens position 1 (index setting (tokens.drop position))
  expression : Lands setting tokens position 1 (expression setting (tokens.drop position))
  expressionList : Lands setting tokens position 0 (expressionList setting (tokens.drop position))
  expect token : Lands setting tokens position 1 (expect setting token (tokens.drop position))
  consume token : Lands setting tokens position 0 (consume token (tokens.drop position))
  advance : Lands setting tokens position 0 (advance (tokens.drop position))
  check token : Lands setting tokens position 0 (check token (tokens.drop position))
  statementLoop found : Ends setting tokens position 0 (tokens.length - position + 1)
    fun turns => statementsFrom setting turns found
  bodyLoop : Ends setting tokens position 0 (tokens.length - position + 1) (gateBody setting)
  operandLoop : Ends setting tokens position 1 (tokens.length - position + 1) (commaList (Parser.operand setting))
  identifierLoop : Ends setting tokens position 1 (tokens.length - position + 1) (commaList (Parser.identifier setting))
  expressionLoop : Ends setting tokens position 1 (4 * (tokens.length - position) + 4) (argumentsFrom setting)
  operatorLoop level left :
    Ends setting tokens position 0 (4 * (tokens.length - position) + 1) (extend setting level left)
  climb level : Ends setting tokens position 1 (4 * (tokens.length - position) + 3) (climb setting level)
  signed : Ends setting tokens position 1 (4 * (tokens.length - position) + 2) (signed setting)
  primary : Ends setting tokens position 1 (4 * (tokens.length - position) + 1) (primary setting)

/-- Wherever the parser starts, it gets on: it never goes back or past the end, and it always ends. -/
theorem makes_progress (setting : Setting) (tokens : List Lexeme) (position : Nat) :
    Progress setting tokens position where
  program := lands proceeds_program
  header := lands proceeds_header
  statement := lands proceeds_statement
  includeFile := lands proceeds_includeFile
  sizedDeclaration quantum := lands (proceeds_sizedDeclaration quantum)
  typedDeclaration quantum := lands (proceeds_typedDeclaration quantum)
  measure := lands proceeds_measure
  reset := lands proceeds_reset
  barrier := lands proceeds_barrier
  gateDefinition := lands proceeds_gateDefinition
  namedStatement := lands proceeds_namedStatement
  assignment register := lands (proceeds_assignment register)
  callAfterName name := lands (proceeds_callAfterName name)
  gateName := lands proceeds_gateName
  operand := lands proceeds_operand
  operands := lands proceeds_operands
  identifier := lands proceeds_identifier
  identifiers := lands proceeds_identifiers
  index := lands proceeds_index
  expression := lands proceeds_expression
  expressionList := lands proceeds_expressionList
  expect token := lands (proceeds_expect token)
  consume token := lands (proceeds_consumed token)
  advance := lands proceeds_advance
  check token := lands (proceeds_check token)
  statementLoop found := ends fun _ more => advances_statementsFrom found (Nat.lt_succ_self _) more
  bodyLoop := ends fun _ more => advances_gateBody (Nat.lt_succ_self _) more
  operandLoop := ends fun _ more => advances_commaList (fun _ => proceeds_operand) (Nat.lt_succ_self _) more
  identifierLoop := ends fun _ more => advances_commaList (fun _ => proceeds_identifier) (Nat.lt_succ_self _) more
  expressionLoop := ends fun _ more => (expressionsAdvance _).argumentsFrom (Nat.le_refl _) more
  operatorLoop level left := ends fun _ more => (expressionsAdvance _).extend level left (Nat.le_refl _) more
  climb level := ends fun _ more => (expressionsAdvance _).climb level (Nat.le_refl _) more
  signed := ends fun _ more => (expressionsAdvance _).signed (Nat.le_refl _) more
  primary := ends fun _ more => (expressionsAdvance _).primary (Nat.le_refl _) more

end Parser

/-- No text is too deep: the bounds that are computed for it are never used up. -/
theorem statements_ne_tooDeep (dialect : Dialect) (source : String) : statements dialect source ≠ .error .tooDeep := by
  intro deep
  unfold statements at deep
  cases read : lexemes source with
  | error fault =>
    rw [read] at deep
    cases deep
  | ok tokens =>
    rw [read] at deep
    obtain ⟨lastLine, last⟩ : ∃ line, line = (tokens.getLast?.map (·.place.line)).getD 1 := ⟨_, rfl⟩
    have halts : Halts ⟨dialect, lastLine⟩ 1 tokens (Parser.program ⟨dialect, lastLine⟩ tokens) :=
      (Parser.proceeds_program tokens (Nat.le_refl _)).2
    change Parser.program ⟨dialect, (tokens.getLast?.map (·.place.line)).getD 1⟩ tokens >>= _ = _ at deep
    rw [← last] at deep
    generalize Parser.program ⟨dialect, lastLine⟩ tokens = outcome at deep halts
    cases halts with
    | value => cases deep
    | fault _ stopped =>
      cases deep
      cases stopped

end CircuitCloak.Qasm

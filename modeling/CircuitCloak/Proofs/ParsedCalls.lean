import CircuitCloak.Proofs.ParserSteps
import CircuitCloak.Proofs.Sentences

/-! Parsing the tokens of angles and calls gives the angles and calls back, and the bounds on nested steps, which
are computed from the number of lexemes, suffice. -/

namespace CircuitCloak.Qasm
open CircuitCloak.Qasm.Parser

/-- No operator and no opening parenthesis follows. -/
def Closes (next : Option Token) : Prop := next.bind operator? = none ∧ Differs (.mark .leftParen) next

/-- No operator of the level or above follows, and no opening parenthesis. -/
def Stops (least : Nat) (next : Option Token) : Prop :=
  (∀ operator, next.bind operator? = some operator → operator.level < least) ∧ Differs (.mark .leftParen) next

theorem Closes.stops {next : Option Token} (closes : Closes next) (least : Nat) : Stops least next :=
  ⟨fun operator found => (Option.some_ne_none operator (found.symm.trans closes.1)).elim, closes.2⟩

/-- How many nested steps a signed expression takes, and its factors after it. -/
def steps : Angle → Nat
  | .const value => (constantProduct value).headTokens.length + 1 + 5 * (constantProduct value).factors.length
  | .symbol _ | .pi => 2
  | .neg operand => steps operand + 5
  | .add left right | .sub left right | .mul left right | .div left right => steps left + steps right + 6

theorem length_factors (factors : List Factor) : (factors.flatMap (·.tokens)).length = 2 * factors.length := by
  induction factors with
  | nil => rfl
  | cons factor rest ih =>
    rw [List.flatMap_cons, List.length_append, ih, List.length_cons, Factor.tokens, List.length_cons, List.length_singleton]
    omega

theorem steps_le (angle : Angle) : steps angle + 2 ≤ 4 * (angleTokens angle).length := by
  induction angle with
  | const value =>
    have head : 1 ≤ (constantProduct value).headTokens.length := by
      rw [Product.headTokens, List.length_append]
      exact Nat.le_add_left _ _
    rw [steps, angleTokens, List.length_append, length_factors]
    omega
  | symbol | pi => exact Nat.le_refl 4
  | neg operand inner =>
    simp only [steps, angleTokens, List.length_append, List.length_cons, List.length_nil]
    omega
  | add left right one other | sub left right one other | mul left right one other | div left right one other =>
    simp only [steps, angleTokens, operationTokens, List.length_append, List.length_cons, List.length_nil]
    omega

theorem factors_le_steps (angle : Angle) : 5 * (angleFactors angle).length + 2 ≤ steps angle := by
  cases angle with
  | const value =>
    have head : 1 ≤ (constantProduct value).headTokens.length := by
      rw [Product.headTokens, List.length_append]
      exact Nat.le_add_left _ _
    rw [steps, angleFactors]
    omega
  | symbol | pi => exact Nat.le_refl 2
  | neg | add | sub | mul | div =>
    change 5 * 0 + 2 ≤ steps _
    rw [steps]
    omega

section Angles

variable (setting : Setting) {tokens more : List Token} {tree other : Expr} {follow last : Option Token → Prop}

theorem reads_paren {least : Nat} (inner : ∀ fuel, least ≤ fuel → Reads (climb setting 0 fuel) tokens tree Closes)
    {fuel : Nat} (enough : least + 2 ≤ fuel) :
    Reads (signed setting fuel) ([.mark .leftParen] ++ tokens ++ [.mark .rightParen]) (.paren tree) Anything := by
  obtain ⟨fuel, rfl⟩ : ∃ less, fuel = less + 2 := ⟨fuel - 2, by omega⟩
  rw [signed]
  refine (reads_consume_false (.mark .minus)).bind_nil ?_ fun _ _ => rfl
  refine (reads_consume_false (.mark .plus)).bind_nil ?_ fun _ _ => rfl
  change Reads (primary setting (fuel + 1)) _ _ _
  rw [primary, List.append_assoc]
  refine .line setting fun place => (reads_advance _).bind ?_ fun _ _ => trivial
  exact (inner fuel (by omega)).bind ((reads_expect setting rfl).returning fun _ => Expr.paren tree)
    fun _ _ => ⟨rfl, rfl⟩

theorem reads_literal (literal : Literal) (fuel : Nat) :
    Reads (signed setting (fuel + 2)) [literal.token] literal.tree (Differs (.mark .leftParen)) := by
  have primary : Reads (primary setting (fuel + 1)) [literal.token] literal.tree (Differs (.mark .leftParen)) := by
    rw [Parser.primary]
    refine .line setting fun place => (reads_advance _).bind ?_ fun _ _ => trivial
    cases literal with
    | integer text => exact .pure _
    | decimal text => exact .pure _
    | name given => exact (reads_consume_false _).bind_nil (.pure (Expr.name given)) fun _ differs => differs
    | pi => exact .pure Expr.pi
  have minus : Differs (.mark .minus) (some literal.token) := by cases literal <;> rfl
  have plus : Differs (.mark .plus) (some literal.token) := by cases literal <;> rfl
  rw [signed]
  refine (reads_consume_false (.mark .minus)).bind_nil ?_ fun _ _ => minus
  exact (reads_consume_false (.mark .plus)).bind_nil primary fun _ _ => plus

/-- Where no operator that binds as tightly follows, an expression ends. -/
theorem reads_extend_end (least : Nat) (left : Expr) (fuel : Nat) :
    Reads (extend setting least left (fuel + 1)) [] left (Stops least) := by
  rw [extend]
  refine .peekFollow fun token stops => ?_
  cases found : token.bind operator? with
  | none => exact .pure left
  | some operator =>
    dsimp only
    rw [if_pos (stops.1 operator found)]
    exact .pure left

/-- An operator extends an expression by its right operand. -/
theorem reads_extend {least fuel : Nat} {left : Expr} {token : Token} {operator : Operator}
    (found : operator? token = some operator) (binds : least ≤ operator.level)
    (right : Reads (climb setting operator.rightLevel fuel) tokens other follow)
    (later : Reads (extend setting least (.binary left operator other) fuel) more tree last)
    (meets : ∀ next, last next → follow (more.head?.or next)) :
    Reads (extend setting least left (fuel + 1)) ([token] ++ (tokens ++ more)) tree last := by
  rw [extend]
  refine .peekOperator ?_
  rw [found]
  dsimp only
  rw [if_neg (Nat.not_lt.mpr binds)]
  exact (reads_advance token).bind (right.bind later meets) fun _ _ => trivial

/-- A signed expression before an operator that binds less tightly. -/
theorem reads_climb_head {least fuel : Nat} (inner : Reads (signed setting (fuel + 1)) tokens tree (Differs (.mark .leftParen))) :
    Reads (climb setting least (fuel + 2)) tokens tree (Stops least) := by
  have whole : Reads (climb setting least (fuel + 2)) (tokens ++ []) tree (Stops least) := by
    rw [climb]
    exact inner.bind (reads_extend_end setting least tree fuel) fun _ stops => stops.2
  rwa [List.append_nil] at whole

theorem stops_factors {factors : List Factor} (proper : ∀ factor ∈ factors, factor.Proper)
    (follows : ∀ next, last next → Stops 3 (more.head?.or next)) :
    ∀ next, last next → Stops 3 ((factors.flatMap (·.tokens) ++ more).head?.or next) := by
  cases factors with
  | nil => exact follows
  | cons factor rest =>
    obtain ⟨one, _⟩ := List.forall_mem_cons.mp proper
    intro next _
    change Stops 3 (some (.mark factor.operator.symbol))
    rcases one.operator with same | same <;> rw [same]
    · exact ⟨fun operator found => by cases found; decide, rfl⟩
    · exact ⟨fun operator found => by cases found; decide, rfl⟩

/-- Factors extend an expression one after the other. -/
theorem reads_factors {least : Nat} (few : least ≤ 2) {factors : List Factor} (proper : ∀ factor ∈ factors, factor.Proper)
    {left : Expr} {fuel : Nat} (enough : factors ≠ [] → 4 ≤ fuel)
    (later : Reads (extend setting least (extended factors left) fuel) more tree last)
    (follows : ∀ next, last next → Stops 3 (more.head?.or next)) :
    Reads (extend setting least left (fuel + factors.length)) (factors.flatMap (·.tokens) ++ more) tree last := by
  induction factors generalizing left with
  | nil => exact later
  | cons factor rest ih =>
    obtain ⟨one, others⟩ := List.forall_mem_cons.mp proper
    have long := enough (List.cons_ne_nil _ _)
    have tail := ih others (fun _ => long) later
    obtain ⟨less, rfl⟩ : ∃ less, fuel = less + 4 := ⟨fuel - 4, by omega⟩
    have literal : ∀ level, Reads (climb setting level (less + 4 + rest.length)) [factor.literal.token]
        factor.literal.tree (Stops level) := by
      intro level
      rw [show less + 4 + rest.length = less + rest.length + 2 + 2 by omega]
      exact reads_climb_head setting (reads_literal setting factor.literal (less + rest.length + 1))
    have after := stops_factors others follows
    have order : (factor :: rest).flatMap (·.tokens) ++ more =
        [.mark factor.operator.symbol] ++ ([factor.literal.token] ++ (rest.flatMap (·.tokens) ++ more)) := by
      rw [List.flatMap_cons, List.append_assoc]
      rfl
    rw [order, List.length_cons, ← Nat.add_assoc]
    have binds : operator? (.mark factor.operator.symbol) = some factor.operator ∧ factor.operator.rightLevel = 3 ∧
        factor.operator.level = 2 := by
      rcases one.operator with same | same <;> rw [same] <;> decide
    exact reads_extend setting binds.1 (binds.2.2.symm ▸ few) (literal factor.operator.rightLevel) tail
      (binds.2.1.symm ▸ after)

/-- The tokens before the factors are read by themselves. -/
def ReadsHead (angle : Angle) : Prop :=
  ∀ fuel, steps angle ≤ fuel →
    Reads (signed setting fuel) (headTokens angle) (headTree angle) (Differs (.mark .leftParen))

variable {left right : Angle}

/-- An angle where no product or quotient goes on after it. -/
theorem reads_climb {angle : Angle} (head : ReadsHead setting angle) {least : Nat} (few : least ≤ 2) {fuel : Nat}
    (enough : steps angle + 2 ≤ fuel) : Reads (climb setting least fuel) (angleTokens angle) (angleTree angle) (Stops least) := by
  have count := factors_le_steps angle
  obtain ⟨fuel, rfl⟩ : ∃ less, fuel = less + (angleFactors angle).length + 2 :=
    ⟨fuel - (angleFactors angle).length - 2, by omega⟩
  have ended : Reads (extend setting least (extended (angleFactors angle) (headTree angle)) (fuel + 1)) [] _ (Stops least) :=
    reads_extend_end setting least _ fuel
  have loose : ∀ next, Stops least next → Stops 3 (([] : List Token).head?.or next) :=
    fun next stops => ⟨fun operator found => Nat.lt_of_lt_of_le (stops.1 operator found) (by omega), stops.2⟩
  have factors := proper_angleFactors angle
  have later := reads_factors setting few factors
    (fun some => by have := List.length_pos_iff.mpr some; omega) ended loose
  rw [angleTokens_eq, angleTree_eq, climb]
  rw [List.append_nil] at later
  refine (head _ (by omega)).bind ?_ fun next stops => ?_
  · rw [show fuel + (angleFactors angle).length + 1 = fuel + 1 + (angleFactors angle).length by omega]
    exact later
  · have after : ∀ next, Stops 3 next → Stops 3 (((angleFactors angle).flatMap Factor.tokens ++ []).head?.or next) :=
      stops_factors factors fun _ stops => stops
    rw [List.append_nil] at after
    exact (after next (loose next stops)).2

/-- An operation, once its right operand is read. -/
theorem reads_operation (head : ReadsHead setting left) {symbol : Mark} {needed : Nat}
    (low : Stops 3 (some (.mark symbol)))
    (later : ∀ fuel, needed ≤ fuel →
      Reads (extend setting 0 (angleTree left) (fuel + 1)) ([.mark symbol] ++ more) tree Closes)
    {fuel : Nat} (enough : steps left + needed + 4 ≤ fuel) :
    Reads (signed setting fuel) (operationTokens symbol (angleTokens left) more) (.paren tree) Anything := by
  have count := factors_le_steps left
  have inner : ∀ fuel, steps left + needed + 2 ≤ fuel →
      Reads (climb setting 0 fuel) (angleTokens left ++ ([.mark symbol] ++ more)) tree Closes := by
    intro fuel enough
    obtain ⟨fuel, rfl⟩ : ∃ less, fuel = less + (angleFactors left).length + 2 :=
      ⟨fuel - (angleFactors left).length - 2, by omega⟩
    have tail := later fuel (by omega)
    have next : ∀ next, Closes next → Stops 3 ((Token.mark symbol :: more).head?.or next) := fun _ _ => low
    rw [angleTree_eq] at tail
    have factors := reads_factors setting (Nat.zero_le 2) (proper_angleFactors left)
      (fun some => by have := List.length_pos_iff.mpr some; omega) tail next
    rw [angleTokens_eq, List.append_assoc, climb]
    refine (head _ (by omega)).bind ?_ fun token closes => ?_
    · rw [show fuel + (angleFactors left).length + 1 = fuel + 1 + (angleFactors left).length by omega]
      exact factors
    · exact (stops_factors (proper_angleFactors left) next token closes).2
  have whole := reads_paren setting inner (by omega)
  simp only [List.append_assoc] at whole
  simp only [operationTokens, List.append_assoc]
  exact whole

private theorem stops_operator {symbol : Mark} {operator : Operator} (found : operator? (.mark symbol) = some operator)
    {least : Nat} (low : operator.level < least) : Stops least (some (.mark symbol)) := by
  refine ⟨fun other same => ?_, ?_⟩
  · cases found.symm.trans same
    exact low
  · cases symbol <;> first | rfl | cases found

/-- A sum takes all of its right operand. -/
theorem reads_sum (first : ReadsHead setting left) (second : ReadsHead setting right) {symbol : Mark} {operator : Operator}
    (found : operator? (.mark symbol) = some operator) (level : operator.level = 1) {fuel : Nat}
    (enough : steps left + steps right + 6 ≤ fuel) :
    Reads (signed setting fuel) (operationTokens symbol (angleTokens left) (angleTokens right))
      (.paren (.binary (angleTree left) operator (angleTree right))) Anything := by
  have rightLevel : operator.rightLevel = 2 := by cases operator <;> first | rfl | cases level
  have low : Stops 3 (some (.mark symbol)) := stops_operator found (by omega)
  refine reads_operation setting first low (fun fuel enough => ?_) (by omega : steps left + (steps right + 2) + 4 ≤ fuel)
  have operand := reads_climb setting second (le_of_eq rightLevel) enough
  obtain ⟨fuel, rfl⟩ : ∃ less, fuel = less + 1 := ⟨fuel - 1, by omega⟩
  have ended := (reads_extend_end setting 0 (.binary (angleTree left) operator (angleTree right)) fuel).strengthen
    fun next (closes : Closes next) => closes.stops 0
  have whole := reads_extend setting found (Nat.zero_le _) operand ended fun _ closes => closes.stops _
  rwa [List.append_nil] at whole

/-- A product or a quotient takes the literal only. -/
theorem reads_product (first : ReadsHead setting left) (second : ReadsHead setting right) {symbol : Mark}
    {operator : Operator} (found : operator? (.mark symbol) = some operator) (level : operator.level = 2) {fuel : Nat}
    (enough : steps left + steps right + 6 ≤ fuel) :
    Reads (signed setting fuel) (operationTokens symbol (angleTokens left) (angleTokens right))
      (.paren (regrouped (angleTree left) operator right (angleTree right))) Anything := by
  have count := factors_le_steps right
  have rightLevel : operator.rightLevel = 3 := by cases operator <;> first | rfl | cases level
  have low : Stops 3 (some (.mark symbol)) := stops_operator found (by omega)
  refine reads_operation setting first low (fun fuel enough => ?_) (by omega : steps left + (steps right + 2) + 4 ≤ fuel)
  obtain ⟨fuel, rfl⟩ : ∃ less, fuel = less + (angleFactors right).length + 2 :=
    ⟨fuel - (angleFactors right).length - 2, by omega⟩
  have operand : Reads (climb setting operator.rightLevel (fuel + (angleFactors right).length + 2)) _ _ _ :=
    reads_climb_head setting (second (fuel + (angleFactors right).length + 1) (by omega))
  have ended := (reads_extend_end setting 0 (extended (angleFactors right) (.binary (angleTree left) operator (headTree right)))
    (fuel + 1)).strengthen fun next (closes : Closes next) => closes.stops 0
  have factors := reads_factors setting (Nat.zero_le 2) (proper_angleFactors right)
    (fun some => by have := List.length_pos_iff.mpr some; omega) ended fun _ (closes : Closes _) => closes.stops 3
  rw [show fuel + 1 + 1 + (angleFactors right).length = fuel + (angleFactors right).length + 2 by omega] at factors
  have after : ∀ next, Closes next → Stops operator.rightLevel
      (((angleFactors right).flatMap Factor.tokens ++ []).head?.or next) := by
    rw [rightLevel]
    exact stops_factors (proper_angleFactors right) fun _ (closes : Closes _) => closes.stops 3
  have whole := reads_extend setting found (Nat.zero_le _) operand factors after
  rw [List.append_nil] at whole
  rw [regrouped_eq, angleTokens_eq right]
  exact whole

theorem reads_signed (angle : Angle) : ReadsHead setting angle := by
  induction angle with
  | const value =>
    intro fuel enough
    rw [steps] at enough
    change Reads _ (constantProduct value).headTokens (constantProduct value).head _
    unfold Product.headTokens Product.head
    unfold Product.headTokens at enough
    generalize (constantProduct value).negative = negative at enough ⊢
    cases negative with
    | true =>
      obtain ⟨fuel, rfl⟩ : ∃ less, fuel = less + 3 := ⟨fuel - 3, by simp at enough; omega⟩
      rw [signed]
      exact (reads_consume rfl).bind ((reads_literal setting _ fuel).returning Expr.neg) fun _ _ => trivial
    | false =>
      obtain ⟨fuel, rfl⟩ : ∃ less, fuel = less + 2 := ⟨fuel - 2, by simp at enough; omega⟩
      exact reads_literal setting _ fuel
  | symbol name =>
    intro fuel enough
    obtain ⟨fuel, rfl⟩ : ∃ less, fuel = less + 2 := ⟨fuel - 2, by rw [steps] at enough; omega⟩
    exact reads_literal setting (.name name) fuel
  | pi =>
    intro fuel enough
    obtain ⟨fuel, rfl⟩ : ∃ less, fuel = less + 2 := ⟨fuel - 2, by rw [steps] at enough; omega⟩
    exact reads_literal setting .pi fuel
  | neg operand ih =>
    intro fuel enough
    rw [steps] at enough
    obtain ⟨fuel, rfl⟩ : ∃ less, fuel = less + 1 := ⟨fuel - 1, by omega⟩
    have inner : ∀ fuel, steps operand + 2 ≤ fuel →
        Reads (climb setting 0 fuel) (angleTokens operand) (angleTree operand) Closes :=
      fun fuel enough => (reads_climb setting ih (Nat.zero_le 2) enough).strengthen fun _ closes => closes.stops 0
    have negated := (reads_paren setting inner (by omega : steps operand + 4 ≤ fuel)).returning Expr.neg
    have order : angleTokens (.neg operand) =
        [.mark .minus] ++ ([.mark .leftParen] ++ angleTokens operand ++ [.mark .rightParen]) := by
      simp only [angleTokens, List.append_assoc]
      rfl
    change Reads _ (angleTokens (.neg operand)) _ _
    rw [signed, order]
    exact (reads_consume rfl).bind (negated.strengthen fun _ _ => trivial) fun _ _ => trivial
  | add left right first second =>
    exact fun fuel enough => (reads_sum setting first second rfl rfl enough).strengthen fun _ _ => trivial
  | sub left right first second =>
    exact fun fuel enough => (reads_sum setting first second rfl rfl enough).strengthen fun _ _ => trivial
  | mul left right first second =>
    exact fun fuel enough => (reads_product setting first second rfl rfl enough).strengthen fun _ _ => trivial
  | div left right first second =>
    exact fun fuel enough => (reads_product setting first second rfl rfl enough).strengthen fun _ _ => trivial

theorem reads_angle (angle : Angle) {fuel : Nat} (enough : 4 * (angleTokens angle).length ≤ fuel) :
    Reads (climb setting 0 fuel) (angleTokens angle) (angleTree angle) Closes := by
  have short := steps_le angle
  exact (reads_climb setting (reads_signed setting angle) (Nat.zero_le 2) (by omega)).strengthen
    fun _ closes => closes.stops 0

end Angles

theorem commas_cons_cons (first second : List Token) (rest : List (List Token)) :
    commas (first :: second :: rest) = first ++ ([.mark .comma] ++ commas (second :: rest)) := by
  rw [commas, List.intercalate_cons_cons, List.append_assoc]
  rfl

theorem length_le_commas (runs : List (List Token)) : runs.length ≤ (commas runs).length + 1 := by
  induction runs with
  | nil => exact Nat.zero_le _
  | cons first rest ih =>
    cases rest with
    | nil => exact Nat.le_add_left 1 _
    | cons second rest =>
      rw [commas_cons_cons, List.length_append, List.length_append, List.length_cons, List.length_singleton]
      omega

theorem length_le_flatMap {α : Type} {items : List α} {tokens : α → List Token}
    (nonempty : ∀ item ∈ items, tokens item ≠ []) : items.length ≤ (items.flatMap tokens).length := by
  induction items with
  | nil => exact Nat.le_refl _
  | cons item rest ih =>
    obtain ⟨first, others⟩ := List.forall_mem_cons.mp nonempty
    have some := List.length_pos_iff.mpr first
    have count := ih others
    rw [List.flatMap_cons, List.length_append, List.length_cons]
    omega

section Lists

variable {α β : Type} {member : Parser α} {rest : Parser (List α)} {tokens more : List Token} {value : α}
  {values : List α} {follow last : Option Token → Prop}

/-- A member and, after a comma, the others. -/
def separated (member : Parser α) (rest : Parser (List α)) : Parser (List α) := do
  let first ← member
  if ← consume (.mark .comma) then return first :: (← rest)
  else return [first]

theorem reads_last (first : Reads member tokens value follow) :
    Reads (separated member rest) tokens [value] fun next => follow next ∧ Differs (.mark .comma) next := by
  have ended : Reads (separated member rest) (tokens ++ []) [value] fun next => follow next ∧ Differs (.mark .comma) next :=
    first.bind ((reads_consume_false (.mark .comma)).bind_nil (.pure [value]) fun _ fits => fits.2) fun _ fits => fits.1
  rwa [List.append_nil] at ended

theorem reads_more (first : Reads member tokens value follow) (comma : follow (some (.mark .comma)))
    (later : Reads rest more values last) :
    Reads (separated member rest) (tokens ++ ([.mark .comma] ++ more)) (value :: values) last :=
  first.bind ((reads_consume rfl).bind (later.returning (value :: ·)) fun _ _ => trivial) fun _ _ => comma

theorem reads_commaList {items : List β} {read : β → List Token} {tree : β → α} (nonempty : items ≠ [])
    (members : ∀ item ∈ items, Reads member (read item) (tree item) follow) (comma : follow (some (.mark .comma))) :
    ∀ fuel, items.length ≤ fuel → Reads (commaList member fuel) (commas (items.map read)) (items.map tree)
      fun next => follow next ∧ Differs (.mark .comma) next := by
  induction items with
  | nil => contradiction
  | cons item rest ih =>
    intro fuel enough
    obtain ⟨first, others⟩ := List.forall_mem_cons.mp members
    obtain ⟨fuel, rfl⟩ : ∃ less, fuel = less + 1 := ⟨fuel - 1, by rw [List.length_cons] at enough; omega⟩
    rw [List.length_cons] at enough
    change Reads (separated member (commaList member fuel)) _ _ _
    cases rest with
    | nil =>
      simp only [List.map_cons, List.map_nil, commas, List.intercalate_singleton]
      exact reads_last first
    | cons next rest =>
      have later := ih (List.cons_ne_nil _ _) others fuel (by omega)
      rw [List.map_cons, List.map_cons, commas_cons_cons]
      exact reads_more first comma later

end Lists

section Calls

variable (setting : Setting)

theorem reads_argumentsFrom {angles : List Angle} (nonempty : angles ≠ []) :
    ∀ fuel, 4 * (commas (angles.map angleTokens)).length + 1 ≤ fuel →
      Reads (argumentsFrom setting fuel) (commas (angles.map angleTokens)) (angles.map angleTree)
        fun next => Closes next ∧ Differs (.mark .comma) next := by
  induction angles with
  | nil => contradiction
  | cons angle rest ih =>
    intro fuel enough
    have short := steps_le angle
    obtain ⟨fuel, rfl⟩ : ∃ less, fuel = less + 1 := ⟨fuel - 1, by omega⟩
    have first : 4 * (angleTokens angle).length ≤ fuel → Reads (climb setting 0 fuel) _ _ Closes :=
      reads_angle setting angle
    rw [argumentsFrom]
    change Reads (separated (climb setting 0 fuel) (argumentsFrom setting fuel)) _ _ _
    cases rest with
    | nil =>
      simp only [List.map_cons, List.map_nil, commas, List.intercalate_singleton] at enough ⊢
      exact reads_last (first (by omega))
    | cons next rest =>
      rw [List.map_cons, List.map_cons, commas_cons_cons, List.length_append, List.length_append] at enough
      rw [List.map_cons, List.map_cons, commas_cons_cons]
      exact reads_more (first (by omega)) ⟨rfl, rfl⟩ (ih (List.cons_ne_nil _ _) fuel (by simpa using by omega))

theorem starts_angle (angle : Angle) :
    ∃ token rest, angleTokens angle = token :: rest ∧ Differs (.mark .rightParen) (some token) := by
  cases angle with
  | const value =>
    rw [angleTokens, Product.headTokens]
    cases (constantProduct value).negative with
    | true => exact ⟨_, _, rfl, rfl⟩
    | false =>
      refine ⟨_, _, rfl, ?_⟩
      cases (constantProduct value).first <;> rfl
  | symbol | pi | neg | add | sub | mul | div => exact ⟨_, _, rfl, rfl⟩

theorem starts_commas {α : Type} (tokens : α → List Token) {items : List α} {item : α} {rest : List α} {token : Token}
    {others : List Token} (first : items = item :: rest) (starts : tokens item = token :: others) :
    ∃ later, commas (items.map tokens) = token :: later := by
  subst first
  cases rest with
  | nil => exact ⟨others, by rw [List.map_singleton, commas, List.intercalate_singleton, starts]⟩
  | cons next rest =>
    rw [List.map_cons, List.map_cons, commas_cons_cons, starts]
    exact ⟨_, rfl⟩

theorem reads_expressionList {angles : List Angle} (nonempty : angles ≠ []) :
    Reads (expressionList setting) (commas (angles.map angleTokens)) (angles.map angleTree)
      fun next => Closes next ∧ Differs (.mark .comma) next := by
  refine .expressionBound fun fuel enough => ?_
  obtain ⟨fuel, rfl⟩ : ∃ less, fuel = less + 1 := ⟨fuel - 1, by omega⟩
  obtain ⟨angle, rest, same⟩ := List.exists_cons_of_ne_nil nonempty
  obtain ⟨token, others, starts, differs⟩ := starts_angle angle
  obtain ⟨later, found⟩ := starts_commas _ same starts
  rw [arguments]
  refine (reads_check_false (.mark .rightParen)).bind_nil
    (reads_argumentsFrom setting nonempty fuel (by omega)) fun _ _ => ?_
  rw [found]
  exact differs

structure WritesOperand (tokens : Nat → List Token) (tree : Nat → Operand) (qubit : Nat) : Prop where
  starts : ∃ name rest, tokens qubit = .identifier name :: rest
  reads : Reads (operand setting) (tokens qubit) (tree qubit) (Differs (.mark .leftBracket))

theorem writesOperand_element (register : String) {position : Nat} (inside : position < wordCount) :
    WritesOperand setting (elementTokens register) (elementOperand register) position := by
  refine ⟨⟨_, _, rfl⟩, (reads_identifier setting register).bind ?_ fun _ _ => trivial⟩
  refine (reads_consume rfl).bind ?_ fun _ _ => trivial
  refine (reads_index setting inside).bind ?_ fun _ _ => trivial
  exact ((reads_expect setting rfl).returning fun _ => elementOperand register position).strengthen fun _ _ => trivial

theorem writesOperand_formal (qubit : Nat) : WritesOperand setting formalTokens formalOperand qubit := by
  refine ⟨⟨_, _, rfl⟩, (reads_identifier setting (formalText qubit)).bind ?_ fun _ _ => trivial⟩
  exact (reads_consume_false _).bind_nil (.pure (formalOperand qubit)) fun _ differs => differs

theorem reads_operands {tokens : Nat → List Token} {tree : Nat → Operand} {qubits : List Nat} (nonempty : qubits ≠ [])
    (operands : ∀ qubit ∈ qubits, WritesOperand setting tokens tree qubit) :
    Reads (Parser.operands setting) (commas (qubits.map tokens)) (qubits.map tree)
      fun next => Differs (.mark .leftBracket) next ∧ Differs (.mark .comma) next := by
  refine .bound fun limit enough => ?_
  have count := length_le_commas (qubits.map tokens)
  rw [List.length_map] at count
  exact reads_commaList nonempty (fun qubit member => (operands qubit member).reads) rfl limit (by omega)

theorem reads_callAfterName (name : String) (angles : List Angle)
    {tokens : Nat → List Token} {tree : Nat → Operand} {qubits : List Nat} (nonempty : qubits ≠ [])
    (operands : ∀ qubit ∈ qubits, WritesOperand setting tokens tree qubit) :
    Reads (callAfterName setting name) (argumentTokens angles ++ (commas (qubits.map tokens) ++ [.mark .semicolon]))
      ⟨name, angles.map angleTree, qubits.map tree⟩ Anything := by
  have ended : ∀ trees, Reads (Parser.operands setting >>= fun targets =>
      expect setting (.mark .semicolon) >>= fun _ => Pure.pure (⟨name, trees, targets⟩ : GateCall))
      (commas (qubits.map tokens) ++ [.mark .semicolon]) ⟨name, trees, qubits.map tree⟩ Anything := by
    intro trees
    have closed := (reads_expect setting (show (Token.mark .semicolon == .mark .semicolon) = true from rfl)).returning
      fun _ => (⟨name, trees, qubits.map tree⟩ : GateCall)
    exact (reads_operands setting nonempty operands).bind closed fun _ _ => ⟨rfl, rfl⟩
  obtain ⟨qubit, rest, same⟩ := List.exists_cons_of_ne_nil nonempty
  obtain ⟨register, others, starts⟩ := (operands qubit (same ▸ List.mem_cons_self)).starts
  obtain ⟨later, found⟩ := starts_commas _ same starts
  cases angles with
  | nil =>
    refine (reads_consume_false (.mark .leftParen)).bind_nil (ended []) fun _ _ => ?_
    rw [found]
    rfl
  | cons angle more =>
    have closed : Reads (expressionList setting >>= fun list => expect setting (.mark .rightParen) >>= fun _ =>
        Parser.operands setting >>= fun targets =>
          expect setting (.mark .semicolon) >>= fun _ => Pure.pure (⟨name, list, targets⟩ : GateCall))
        (commas ((angle :: more).map angleTokens) ++ ([.mark .rightParen] ++
          (commas (qubits.map tokens) ++ [.mark .semicolon])))
        ⟨name, (angle :: more).map angleTree, qubits.map tree⟩ Anything := by
      refine (reads_expressionList setting (List.cons_ne_nil _ _)).bind ?_ fun _ _ => ⟨⟨rfl, rfl⟩, rfl⟩
      exact (reads_expect setting rfl).bind (ended _) fun _ _ => trivial
    have order : argumentTokens (angle :: more) ++ (commas (qubits.map tokens) ++ [.mark .semicolon]) =
        [.mark .leftParen] ++ (commas ((angle :: more).map angleTokens) ++ ([.mark .rightParen] ++
          (commas (qubits.map tokens) ++ [.mark .semicolon]))) := by
      simp only [argumentTokens, List.append_assoc]
    rw [order]
    exact (reads_consume rfl).bind closed fun _ _ => trivial

end Calls

end CircuitCloak.Qasm

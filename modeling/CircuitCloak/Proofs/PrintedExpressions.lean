import CircuitCloak.Proofs.ParsedCalls

/-! Expressions printed with parentheses only where their operators need them are parsed back, up to the nodes that
keep the parentheses. An expression is read at every level up to its own, whatever extends it afterwards: so a chain of
operators is read from its leftmost operand on, and what stands to the right of one is read at a higher level. -/

namespace CircuitCloak.Qasm
open CircuitCloak.Qasm.Parser

namespace Operator

/-- The mark of an operator; a power has two. -/
def mark (caret : Bool) : Operator → Mark
  | add => .plus
  | sub => .minus
  | mul => .star
  | div => .slash
  | pow => if caret then .caret else .doubleStar

/-- An operation as the left operand is one of its own without parentheses: it binds more tightly, or as tightly where
the operator groups to the left. -/
def joinsLeft (operator inner : Operator) : Bool :=
  operator.level < inner.level || (operator.level == inner.level && operator != .pow)

/-- The same of an operation as the right operand, where a power groups to the right. -/
def joinsRight (operator inner : Operator) : Bool :=
  operator.level < inner.level || (operator.level == inner.level && operator == .pow)

/-- The left operand is printed in parentheses. A negation is if it is raised to a power. -/
def enclosesLeft (operator : Operator) : Expr → Bool
  | .binary _ inner _ => !operator.joinsLeft inner
  | .neg _ => operator == .pow
  | _ => false

def enclosesRight (operator : Operator) : Expr → Bool
  | .binary _ inner _ => !operator.joinsRight inner
  | _ => false

theorem joinsLeft_levels {operator inner : Operator} (joins : operator.joinsLeft inner = true) :
    operator.level ≤ inner.level ∧ operator.level < inner.rightLevel := by
  revert joins
  cases operator <;> cases inner <;> decide

theorem joinsRight_levels {operator inner : Operator} (joins : operator.joinsRight inner = true) :
    operator.rightLevel ≤ inner.level ∧ operator.rightLevel ≤ inner.rightLevel := by
  revert joins
  cases operator <;> cases inner <;> decide

end Operator

def enclose (needed : Bool) (tokens : List Token) : List Token :=
  if needed then [.mark .leftParen] ++ tokens ++ [.mark .rightParen] else tokens

namespace Expr

def isBinary : Expr → Bool
  | binary _ _ _ => true
  | _ => false

mutual

/-- The tokens of an expression, with parentheses only where they are needed. -/
def printed (caret : Bool) : Expr → List Token
  | int value => [.integer value]
  | decimal value => [.decimal value]
  | name symbol => [.identifier symbol]
  | pi => [.keyword .pi]
  | tau => [.keyword .tau]
  | euler => [.keyword .euler]
  | neg operand => [.mark .minus] ++ enclose operand.isBinary (operand.printed caret)
  | binary left operator right =>
    enclose (operator.enclosesLeft left) (left.printed caret) ++ [.mark (operator.mark caret)] ++
      enclose (operator.enclosesRight right) (right.printed caret)
  | call function arguments =>
    [.identifier function, .mark .leftParen] ++ commas (printedAll caret arguments) ++ [.mark .rightParen]
  | paren inner => [.mark .leftParen] ++ inner.printed caret ++ [.mark .rightParen]

def printedAll (caret : Bool) : List Expr → List (List Token)
  | [] => []
  | first :: rest => first.printed caret :: printedAll caret rest

end

mutual

/-- The expression without the nodes that keep parentheses. -/
def bare : Expr → Expr
  | int value => int value
  | decimal value => decimal value
  | name symbol => name symbol
  | pi => pi
  | tau => tau
  | euler => euler
  | neg operand => neg operand.bare
  | binary left operator right => binary left.bare operator right.bare
  | call function arguments => call function (bareAll arguments)
  | paren inner => inner.bare

def bareAll : List Expr → List Expr
  | [] => []
  | first :: rest => first.bare :: bareAll rest

end

mutual

def ParenFree : Expr → Prop
  | int _ | decimal _ | name _ | pi | tau | euler => True
  | neg operand => operand.ParenFree
  | binary left _ right => left.ParenFree ∧ right.ParenFree
  | call _ arguments => AllParenFree arguments
  | paren _ => False

def AllParenFree : List Expr → Prop
  | [] => True
  | first :: rest => first.ParenFree ∧ AllParenFree rest

end

def enclosed (needed : Bool) (tree : Expr) : Expr := if needed then .paren tree else tree

mutual

/-- The expression with a node for each pair of parentheses that is printed. -/
def grouped : Expr → Expr
  | int value => int value
  | decimal value => decimal value
  | name symbol => name symbol
  | pi => pi
  | tau => tau
  | euler => euler
  | neg operand => neg (operand.grouped.enclosed operand.isBinary)
  | binary left operator right =>
    binary (left.grouped.enclosed (operator.enclosesLeft left)) operator
      (right.grouped.enclosed (operator.enclosesRight right))
  | call function arguments => call function (groupedAll arguments)
  | paren inner => paren inner.grouped

def groupedAll : List Expr → List Expr
  | [] => []
  | first :: rest => first.grouped :: groupedAll rest

end

theorem bare_enclosed (needed : Bool) (tree : Expr) : (tree.enclosed needed).bare = tree.bare := by
  cases needed with
  | true => rw [enclosed, if_pos rfl, bare]
  | false => rfl

mutual

theorem bare_grouped : ∀ tree : Expr, tree.grouped.bare = tree.bare
  | int _ | decimal _ | name _ | pi | tau | euler => by rw [grouped]
  | neg operand => by rw [grouped, bare, bare, bare_enclosed, bare_grouped operand]
  | binary left operator right => by
    rw [grouped, bare, bare, bare_enclosed, bare_enclosed, bare_grouped left, bare_grouped right]
  | call function arguments => by rw [grouped, bare, bare, bareAll_groupedAll arguments]
  | paren inner => by rw [grouped, bare, bare, bare_grouped inner]

theorem bareAll_groupedAll : ∀ trees : List Expr, bareAll (groupedAll trees) = bareAll trees
  | [] => by rw [groupedAll]
  | first :: rest => by rw [groupedAll, bareAll, bareAll, bare_grouped first, bareAll_groupedAll rest]

end

mutual

theorem ParenFree.bare : ∀ {tree : Expr}, tree.ParenFree → tree.bare = tree
  | int _, _ | decimal _, _ | name _, _ | pi, _ | tau, _ | euler, _ => by rw [Expr.bare]
  | neg operand, free => by
    rw [ParenFree] at free
    rw [Expr.bare, free.bare]
  | binary left operator right, free => by
    rw [ParenFree] at free
    rw [Expr.bare, free.1.bare, free.2.bare]
  | call function arguments, free => by
    rw [ParenFree] at free
    rw [Expr.bare, AllParenFree.bare free]
  | paren inner, free => by
    rw [ParenFree] at free
    exact free.elim

theorem AllParenFree.bare : ∀ {trees : List Expr}, AllParenFree trees → bareAll trees = trees
  | [], _ => by rw [bareAll]
  | first :: rest, free => by
    rw [AllParenFree] at free
    rw [bareAll, free.1.bare, AllParenFree.bare free.2]

end

theorem printedAll_eq (caret : Bool) (trees : List Expr) : printedAll caret trees = trees.map (printed caret) := by
  induction trees with
  | nil => rw [printedAll, List.map_nil]
  | cons first rest ih => rw [printedAll, List.map_cons, ih]

theorem groupedAll_eq (trees : List Expr) : groupedAll trees = trees.map grouped := by
  induction trees with
  | nil => rw [groupedAll, List.map_nil]
  | cons first rest ih => rw [groupedAll, List.map_cons, ih]

/-- The highest level at which the expression is read without parentheses. -/
def level : Expr → Nat
  | binary _ operator _ => operator.level
  | _ => 3

/-- Operators of a lower level may follow the expression. -/
def limit : Expr → Nat
  | binary _ operator _ => operator.rightLevel
  | _ => 4

end Expr

section Reading

variable (setting : Setting)

/-- The tokens begin an expression: what extends it is read after it, at every level up to the given one. The bound on
nested steps pays four for each token. -/
structure Begins (tokens : List Token) (tree : Expr) (level limit : Nat) : Prop where
  reads : ∀ {least needed : Nat} {more : List Token} {result : Expr} {last : Option Token → Prop}, least ≤ level →
    (∀ fuel, needed ≤ fuel → Reads (extend setting least tree fuel) more result last) →
    (∀ next, last next → Stops limit (more.head?.or next)) →
    ∀ fuel, needed + 4 * tokens.length + 1 ≤ fuel → Reads (climb setting least fuel) (tokens ++ more) result last

variable {setting} {tokens first second : List Token} {tree left right : Expr} {level limit : Nat}

/-- Nothing extends an expression before an operator of a lower level. -/
theorem Begins.alone (begins : Begins setting tokens tree level limit) {least : Nat} (low : least ≤ level)
    (ends : least ≤ limit) {fuel : Nat} (enough : 4 * tokens.length + 2 ≤ fuel) :
    Reads (climb setting least fuel) tokens tree (Stops least) := by
  have extended : ∀ fuel, 1 ≤ fuel → Reads (extend setting least tree fuel) [] tree (Stops least) := by
    intro fuel positive
    obtain ⟨fuel, rfl⟩ := Nat.exists_eq_add_of_le' positive
    exact reads_extend_end setting least tree fuel
  have whole := begins.reads low extended (fun next stops => ?_) fuel (by omega)
  · rwa [List.append_nil] at whole
  · exact ⟨fun operator found => Nat.lt_of_lt_of_le (stops.1 operator found) ends, stops.2⟩

theorem begins_of_signed
    (signed : ∀ fuel, 4 * tokens.length ≤ fuel → Reads (signed setting fuel) tokens tree (Differs (.mark .leftParen))) :
    Begins setting tokens tree 3 4 := by
  constructor
  intro least needed more result last _ later meets fuel enough
  obtain ⟨fuel, rfl⟩ : ∃ less, fuel = less + 1 := ⟨fuel - 1, by omega⟩
  rw [climb]
  exact (signed fuel (by omega)).bind (later fuel (by omega)) fun next held => (meets next held).2

/-- An operator between two expressions: the left one goes on with the operator, and the right one is read at a level
at which no other operator of the same chain belongs to it. -/
theorem Begins.binary {operator : Operator} {mark : Mark} {otherLevel otherLimit : Nat}
    (one : Begins setting first left level limit) (two : Begins setting second right otherLevel otherLimit)
    (found : operator? (.mark mark) = some operator) (low : operator.level ≤ level) (next : operator.level < limit)
    (high : operator.rightLevel ≤ otherLevel) (ends : operator.rightLevel ≤ otherLimit) :
    Begins setting (first ++ [.mark mark] ++ second) (.binary left operator right) operator.level
      operator.rightLevel := by
  constructor
  intro least needed more result last few later meets fuel enough
  simp only [List.length_append, List.length_singleton] at enough
  rw [List.append_assoc, List.append_assoc]
  have extended : ∀ fuel, needed + 4 * second.length + 3 ≤ fuel →
      Reads (extend setting least left fuel) ([.mark mark] ++ (second ++ more)) result last := by
    intro fuel enough
    obtain ⟨fuel, rfl⟩ : ∃ less, fuel = less + 1 := ⟨fuel - 1, by omega⟩
    exact reads_extend setting found few (two.alone high ends (by omega)) (later fuel (by omega)) meets
  have follows : Stops limit (some (.mark mark)) := by
    constructor
    · intro other same
      cases found.symm.trans same
      exact next
    · cases mark <;> first | rfl | cases found
  exact one.reads (few.trans low) extended (fun _ _ => follows) fuel (by omega)

theorem reads_unsigned {token : Token} {rest : List Token} {follow : Option Token → Prop} {fuel : Nat}
    (minus : Differs (.mark .minus) (some token)) (plus : Differs (.mark .plus) (some token))
    (inner : Reads (primary setting fuel) (token :: rest) tree follow) :
    Reads (signed setting (fuel + 1)) (token :: rest) tree follow := by
  rw [signed]
  refine (reads_consume_false (.mark .minus)).bind_nil ?_ fun _ _ => minus
  exact (reads_consume_false (.mark .plus)).bind_nil inner fun _ _ => plus

variable (setting) in
/-- What is proved of an expression by induction. -/
structure ReadsBack (caret : Bool) (tree : Expr) : Prop where
  signed : tree.isBinary = false → ∀ fuel, 4 * (tree.printed caret).length ≤ fuel →
    Reads (Parser.signed setting fuel) (tree.printed caret) tree.grouped (Differs (.mark .leftParen))
  begins : Begins setting (tree.printed caret) tree.grouped tree.level tree.limit

namespace ReadsBack

variable {caret : Bool}

theorem of_signed (single : tree.isBinary = false)
    (signed : ∀ fuel, 4 * (tree.printed caret).length ≤ fuel →
      Reads (Parser.signed setting fuel) (tree.printed caret) tree.grouped (Differs (.mark .leftParen))) :
    ReadsBack setting caret tree := by
  refine ⟨fun _ => signed, ?_⟩
  have begins := begins_of_signed signed
  cases tree with
  | binary => cases single
  | int | decimal | name | pi | tau | euler | neg | call | paren => exact begins

theorem parenthesized (back : ReadsBack setting caret tree) {fuel : Nat}
    (enough : 4 * (tree.printed caret).length + 4 ≤ fuel) :
    Reads (Parser.signed setting fuel) ([.mark .leftParen] ++ tree.printed caret ++ [.mark .rightParen])
      (.paren tree.grouped) Anything := by
  have inner : ∀ fuel, 4 * (tree.printed caret).length + 2 ≤ fuel →
      Reads (climb setting 0 fuel) (tree.printed caret) tree.grouped Closes := fun fuel enough =>
    (back.begins.alone (Nat.zero_le _) (Nat.zero_le _) enough).strengthen fun _ closes => closes.stops 0
  exact reads_paren setting inner enough

/-- An operand that stands in parentheses unless it needs none. -/
theorem enclosed (back : ReadsBack setting caret tree) {needed : Bool} (needs : tree.isBinary = true → needed = true)
    (fuel : Nat) (enough : 4 * (enclose needed (tree.printed caret)).length ≤ fuel) :
    Reads (Parser.signed setting fuel) (enclose needed (tree.printed caret)) (tree.grouped.enclosed needed)
      (Differs (.mark .leftParen)) := by
  cases needed with
  | true =>
    simp only [enclose, Expr.enclosed, if_true, List.length_append, List.length_singleton] at enough ⊢
    exact (back.parenthesized (by omega)).strengthen fun _ _ => trivial
  | false =>
    have single : tree.isBinary = false := Bool.eq_false_iff.mpr fun binary => Bool.false_ne_true (needs binary)
    exact back.signed single fuel enough

theorem begins_enclosed (back : ReadsBack setting caret tree) :
    Begins setting (enclose true (tree.printed caret)) (tree.grouped.enclosed true) 3 4 :=
  begins_of_signed (back.enclosed fun _ => rfl)

/-- A left operand goes on with the operator. -/
theorem before (back : ReadsBack setting caret tree) (operator : Operator) : ∃ level limit,
    operator.level ≤ level ∧ operator.level < limit ∧
      Begins setting (enclose (operator.enclosesLeft tree) (tree.printed caret))
        (tree.grouped.enclosed (operator.enclosesLeft tree)) level limit := by
  have low : operator.level ≤ 3 := by cases operator <;> decide
  cases needed : operator.enclosesLeft tree with
  | true => exact ⟨3, 4, low, Nat.lt_succ_of_le low, back.begins_enclosed⟩
  | false =>
    have levels : operator.level ≤ tree.level ∧ operator.level < tree.limit := by
      cases tree with
      | binary _ inner _ => exact Operator.joinsLeft_levels ((Bool.not_eq_false' _).mp needed)
      | int | decimal | name | pi | tau | euler | neg | call | paren => exact ⟨low, Nat.lt_succ_of_le low⟩
    exact ⟨tree.level, tree.limit, levels.1, levels.2, back.begins⟩

/-- A right operand takes no operator of the same chain. -/
theorem after (back : ReadsBack setting caret tree) (operator : Operator) : ∃ level limit,
    operator.rightLevel ≤ level ∧ operator.rightLevel ≤ limit ∧
      Begins setting (enclose (operator.enclosesRight tree) (tree.printed caret))
        (tree.grouped.enclosed (operator.enclosesRight tree)) level limit := by
  have high : operator.rightLevel ≤ 3 := by cases operator <;> decide
  cases needed : operator.enclosesRight tree with
  | true => exact ⟨3, 4, high, Nat.le_succ_of_le high, back.begins_enclosed⟩
  | false =>
    have levels : operator.rightLevel ≤ tree.level ∧ operator.rightLevel ≤ tree.limit := by
      cases tree with
      | binary _ inner _ => exact Operator.joinsRight_levels ((Bool.not_eq_false' _).mp needed)
      | int | decimal | name | pi | tau | euler | neg | call | paren => exact ⟨high, Nat.le_succ_of_le high⟩
    exact ⟨tree.level, tree.limit, levels.1, levels.2, back.begins⟩

end ReadsBack

variable {caret : Bool}

theorem starts_enclose (needed : Bool)
    (starts : ∃ token rest, tokens = token :: rest ∧ Differs (.mark .rightParen) (some token)) :
    ∃ token rest, enclose needed tokens = token :: rest ∧ Differs (.mark .rightParen) (some token) := by
  cases needed with
  | true => exact ⟨.mark .leftParen, _, rfl, rfl⟩
  | false => exact starts

theorem starts_printed (caret : Bool) : ∀ tree : Expr,
    ∃ token rest, tree.printed caret = token :: rest ∧ Differs (.mark .rightParen) (some token)
  | .binary left operator right => by
    obtain ⟨token, rest, same, differs⟩ := starts_enclose (operator.enclosesLeft left) (starts_printed caret left)
    rw [Expr.printed, same]
    exact ⟨token, _, rfl, differs⟩
  | .int _ | .decimal _ | .name _ | .pi | .tau | .euler | .neg _ | .call _ _ | .paren _ => by
    rw [Expr.printed]
    exact ⟨_, _, rfl, rfl⟩

theorem reads_argumentList {trees : List Expr} (nonempty : trees ≠ [])
    (back : ∀ tree ∈ trees, ReadsBack setting caret tree) :
    ∀ fuel, 4 * (commas (trees.map (Expr.printed caret))).length + 3 ≤ fuel →
      Reads (argumentsFrom setting fuel) (commas (trees.map (Expr.printed caret))) (trees.map Expr.grouped)
        fun next => Closes next ∧ Differs (.mark .comma) next := by
  induction trees with
  | nil => contradiction
  | cons tree rest ih =>
    intro fuel enough
    obtain ⟨one, others⟩ := List.forall_mem_cons.mp back
    obtain ⟨fuel, rfl⟩ : ∃ less, fuel = less + 1 := ⟨fuel - 1, by omega⟩
    have first : 4 * (tree.printed caret).length + 2 ≤ fuel →
        Reads (climb setting 0 fuel) (tree.printed caret) tree.grouped Closes := fun enough =>
      (one.begins.alone (Nat.zero_le _) (Nat.zero_le _) enough).strengthen fun _ closes => closes.stops 0
    rw [argumentsFrom]
    change Reads (separated (climb setting 0 fuel) (argumentsFrom setting fuel)) _ _ _
    cases rest with
    | nil =>
      simp only [List.map_cons, List.map_nil, commas, List.intercalate_singleton] at enough ⊢
      exact reads_last (first (by omega))
    | cons next rest =>
      rw [List.map_cons, List.map_cons, commas_cons_cons, List.length_append, List.length_append,
        List.length_singleton] at enough
      rw [List.map_cons, List.map_cons, commas_cons_cons]
      have later := ih (List.cons_ne_nil _ _) others fuel (by rw [List.map_cons]; omega)
      exact reads_more (first (by omega)) ⟨rfl, rfl⟩ later

theorem reads_arguments {trees : List Expr} (back : ∀ tree ∈ trees, ReadsBack setting caret tree) {fuel : Nat}
    (enough : 4 * (commas (trees.map (Expr.printed caret))).length + 4 ≤ fuel) :
    Reads (arguments setting fuel) (commas (trees.map (Expr.printed caret))) (trees.map Expr.grouped)
      fun next => next = some (.mark .rightParen) := by
  obtain ⟨fuel, rfl⟩ : ∃ less, fuel = less + 1 := ⟨fuel - 1, by omega⟩
  rw [arguments]
  cases trees with
  | nil =>
    intro taken rest none next
    rw [List.map_eq_nil_iff.mp none, List.nil_append]
    change (if (rest.head?.map (·.token) == some (Token.mark .rightParen)) = true then _ else _ : Parser _) rest = _
    rw [next]
    rfl
  | cons tree rest =>
    obtain ⟨token, others, starts, differs⟩ := starts_printed caret tree
    obtain ⟨later, found⟩ := starts_commas _ rfl starts
    have list := reads_argumentList (List.cons_ne_nil tree rest) back fuel (by omega)
    refine (reads_check_false (.mark .rightParen)).bind_nil (list.strengthen fun next same => ?_) fun _ _ => ?_
    · rw [same]
      exact ⟨⟨rfl, rfl⟩, rfl⟩
    · rw [found]
      exact differs

theorem reads_single (token : Token) (printed : tree.printed caret = [token]) (single : tree.isBinary = false)
    (minus : Differs (.mark .minus) (some token)) (plus : Differs (.mark .plus) (some token))
    (inner : ∀ fuel, Reads (primary setting (fuel + 1)) [token] tree.grouped (Differs (.mark .leftParen))) :
    ReadsBack setting caret tree := by
  refine .of_signed single fun fuel enough => ?_
  rw [printed] at enough ⊢
  obtain ⟨fuel, rfl⟩ : ∃ less, fuel = less + 2 := ⟨fuel - 2, by simp at enough; omega⟩
  exact reads_unsigned minus plus (inner fuel)

mutual

theorem readsBack : ∀ tree : Expr, ReadsBack setting caret tree
  | .int _ | .decimal _ | .pi | .tau | .euler => by
    apply reads_single
    · rw [Expr.printed]
    · rfl
    · rfl
    · rfl
    · intro fuel
      rw [primary, Expr.grouped]
      exact .line setting fun _ => (reads_advance _).bind (.pure _) fun _ _ => trivial
  | .name name => by
    refine reads_single (.identifier name) (by rw [Expr.printed]) rfl rfl rfl fun fuel => ?_
    rw [primary, Expr.grouped]
    refine .line setting fun _ => (reads_advance _).bind ?_ fun _ _ => trivial
    exact (reads_consume_false _).bind_nil (.pure (Expr.name name)) fun _ differs => differs
  | .neg operand => by
    refine .of_signed rfl fun fuel enough => ?_
    rw [Expr.printed] at enough ⊢
    rw [Expr.grouped]
    rw [List.length_append, List.length_singleton] at enough
    obtain ⟨fuel, rfl⟩ : ∃ less, fuel = less + 1 := ⟨fuel - 1, by omega⟩
    have back : ReadsBack setting caret operand := readsBack operand
    have inner := back.enclosed id fuel (by omega)
    rw [signed]
    exact (reads_consume rfl).bind (inner.returning Expr.neg) fun _ _ => trivial
  | .binary left operator right => by
    refine ⟨nofun, ?_⟩
    have former : ReadsBack setting caret left := readsBack left
    have latter : ReadsBack setting caret right := readsBack right
    obtain ⟨_, _, low, next, one⟩ := former.before operator
    obtain ⟨_, _, high, ends, two⟩ := latter.after operator
    have found : operator? (.mark (operator.mark caret)) = some operator := by
      cases operator <;> cases caret <;> rfl
    rw [Expr.printed, Expr.grouped]
    exact one.binary two found low next high ends
  | .call function arguments => by
    refine .of_signed rfl fun fuel enough => ?_
    rw [Expr.printed, Expr.printedAll_eq] at enough ⊢
    rw [Expr.grouped, Expr.groupedAll_eq]
    simp only [List.length_append, List.length_cons, List.length_nil] at enough
    obtain ⟨fuel, rfl⟩ : ∃ less, fuel = less + 2 := ⟨fuel - 2, by omega⟩
    refine reads_unsigned rfl rfl ?_
    rw [primary]
    have list := reads_arguments (readsBackAll arguments) (by omega : _ ≤ fuel)
    refine .line setting fun _ => (reads_advance _).bind ?_ fun _ _ => trivial
    refine (reads_consume rfl).bind ?_ fun _ _ => trivial
    have closed := (reads_expect setting (show (Token.mark .rightParen == .mark .rightParen) = true from rfl)).returning
      fun _ => Expr.call function (arguments.map Expr.grouped)
    exact list.bind (closed.strengthen fun _ _ => trivial) fun _ _ => rfl
  | .paren inner => by
    refine .of_signed rfl fun fuel enough => ?_
    rw [Expr.printed] at enough ⊢
    rw [Expr.grouped]
    simp only [List.length_append, List.length_singleton] at enough
    exact ((readsBack inner).parenthesized (by omega)).strengthen fun _ _ => trivial

theorem readsBackAll : ∀ trees : List Expr, ∀ tree ∈ trees, ReadsBack setting caret tree
  | [] => nofun
  | first :: rest => List.forall_mem_cons.mpr ⟨readsBack first, readsBackAll rest⟩

end

end Reading

/-- An expression without nodes for parentheses is read back from its tokens, up to such nodes, and nothing after them
is taken where neither an operator nor an opening parenthesis follows. -/
theorem expression_printed (setting : Setting) (caret : Bool) {tree : Expr} (free : tree.ParenFree) :
    ∃ read : Expr, read.bare = tree ∧ Reads (expression setting) (tree.printed caret) read Closes := by
  refine ⟨tree.grouped, (Expr.bare_grouped tree).trans free.bare, ?_⟩
  have back : ReadsBack setting caret tree := readsBack tree
  refine .expressionBound fun fuel enough => ?_
  have whole : Reads (climb setting 0 fuel) (tree.printed caret) tree.grouped (Stops 0) :=
    back.begins.alone (Nat.zero_le _) (Nat.zero_le _) (by omega)
  exact whole.strengthen fun _ closes => closes.stops 0

/-- A negation to a power of a power, divided by the value of a function. -/
def mixedChain : Expr :=
  .binary
    (.binary (.neg (.name "a")) .pow (.binary (.name "b") .pow (.neg (.binary (.name "c") .sub (.int 1)))))
    .div
    (.call "f" [.binary (.name "x") .sub (.binary (.name "y") .sub (.name "z")), .tau])

theorem expression_printed_mixedChain : mixedChain.ParenFree ∧
    mixedChain.printed true =
      [.mark .leftParen, .mark .minus, .identifier "a", .mark .rightParen, .mark .caret, .identifier "b", .mark .caret,
        .mark .minus, .mark .leftParen, .identifier "c", .mark .minus, .integer 1, .mark .rightParen, .mark .slash,
        .identifier "f", .mark .leftParen, .identifier "x", .mark .minus, .mark .leftParen, .identifier "y", .mark .minus,
        .identifier "z", .mark .rightParen, .mark .comma, .keyword .tau, .mark .rightParen] ∧
    ∃ read : Expr, read.bare = mixedChain ∧
      Reads (expression ⟨.qasm2, 1⟩) (mixedChain.printed true) read Closes := by
  have free : mixedChain.ParenFree := by simp [mixedChain, Expr.ParenFree, Expr.AllParenFree]
  exact ⟨free, rfl, expression_printed ⟨.qasm2, 1⟩ true free⟩

end CircuitCloak.Qasm

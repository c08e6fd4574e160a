import CircuitCloak.Proofs.Cutting
import CircuitCloak.Qasm.Parser

/-! What parser steps read: which tokens a step takes, what it gives for them, and which token must follow. Steps
are put together as their tokens are; the places of the lexemes play no part. -/

namespace CircuitCloak.Qasm

theorem Parser.bind_eq_ok_iff {α β : Type} {parser : Parser α} {next : α → Parser β} {lexemes rest : List Lexeme}
    {result : β} : (parser >>= next) lexemes = .ok (result, rest) ↔
      ∃ value left, parser lexemes = .ok (value, left) ∧ next value left = .ok (result, rest) := by
  change parser lexemes >>= (fun (value, left) => next value left) = _ ↔ _
  rw [CircuitCloak.bind_eq_ok_iff]
  exact Prod.exists

/-- A step takes lexemes of the given tokens and gives a value, if what follows is as it should be. -/
def Reads {α : Type} (parser : Parser α) (tokens : List Token) (value : α) (follow : Option Token → Prop) : Prop :=
  ∀ taken rest, tokensOf taken = tokens → follow (rest.head?.map (·.token)) → parser (taken ++ rest) = .ok (value, rest)

def Anything (_ : Option Token) : Prop := True

def Differs (token : Token) (next : Option Token) : Prop := (next == some token) = false

namespace Reads

variable {α β : Type} {parser : Parser α} {next : α → Parser β} {tokens more : List Token} {token : Token} {value : α}
  {result : β} {follow last : Option Token → Prop}

theorem pure (value : α) : Reads (Pure.pure value) [] value follow := by
  intro taken rest none _
  rw [List.map_eq_nil_iff.mp none]
  rfl

theorem bind (first : Reads parser tokens value follow) (second : Reads (next value) more result last)
    (meets : ∀ token, last token → follow (more.head?.or token)) : Reads (parser >>= next) (tokens ++ more) result last := by
  intro taken rest same fits
  obtain ⟨front, back, rfl, one, other⟩ := List.map_eq_append_iff.mp same
  have head : (back ++ rest).head?.map (·.token) = more.head?.or (rest.head?.map (·.token)) := by
    rw [← other]
    cases back <;> rfl
  have begun := first front (back ++ rest) one (head ▸ meets _ fits)
  rw [List.append_assoc]
  change (parser (front ++ (back ++ rest)) >>= fun (found, left) => next found left) = _
  rw [begun]
  exact second back rest other fits

theorem bind_nil (first : Reads parser [] value follow) (second : Reads (next value) tokens result last)
    (meets : ∀ token, last token → follow (tokens.head?.or token)) : Reads (parser >>= next) tokens result last :=
  first.bind second meets

theorem given {next : α → Parser β} (known : Reads (next value) tokens result last) :
    Reads (Pure.pure value >>= next) tokens result last := known

theorem returning (first : Reads parser tokens value follow) (function : α → β) :
    Reads (parser >>= fun value => Pure.pure (function value)) tokens (function value) follow := by
  have mapped : Reads (parser >>= fun value => Pure.pure (function value)) (tokens ++ []) (function value) follow :=
    first.bind (pure (function value)) fun _ fits => fits
  rwa [List.append_nil] at mapped

theorem strengthen (reads : Reads parser tokens value follow) (fits : ∀ token, last token → follow token) :
    Reads parser tokens value last :=
  fun taken rest same meets => reads taken rest same (fits _ meets)

theorem peek {next : Option Token → Parser β} (known : Reads (next (some token)) (token :: tokens) result last) :
    Reads (Parser.peek >>= next) (token :: tokens) result last := by
  intro taken rest same fits
  obtain ⟨lexeme, others, rfl, one, other⟩ := List.map_eq_cons_iff.mp same
  subst one
  exact known (lexeme :: others) rest same fits

theorem peekOperator {next : Option Operator → Parser β}
    (known : Reads (next (Parser.operator? token)) (token :: tokens) result last) :
    Reads (Parser.peekOperator >>= next) (token :: tokens) result last := by
  intro taken rest same fits
  obtain ⟨lexeme, others, rfl, one, other⟩ := List.map_eq_cons_iff.mp same
  subst one
  exact known (lexeme :: others) rest same fits

/-- Where the tokens are over, what follows them is next. -/
theorem peekFollow {next : Option Operator → Parser β}
    (known : ∀ token, last token → Reads (next (token.bind Parser.operator?)) [] result fun next => next = token) :
    Reads (Parser.peekOperator >>= next) [] result last := by
  intro taken rest same fits
  have empty : taken = [] := List.map_eq_nil_iff.mp same
  rw [empty, List.nil_append]
  exact known _ fits [] rest rfl rfl

/-- A step that depends on whether the next token is the given one, and it is. -/
theorem check {next : Bool → Parser β} (self : (token == token) = true)
    (known : Reads (next true) (token :: tokens) result last) :
    Reads (Parser.check token >>= next) (token :: tokens) result last := by
  intro taken rest same fits
  obtain ⟨lexeme, others, rfl, one, other⟩ := List.map_eq_cons_iff.mp same
  subst one
  have found : (some lexeme.token == some lexeme.token) = true := self
  change next (some lexeme.token == some lexeme.token) _ = _
  rw [found]
  exact known (lexeme :: others) rest same fits

theorem line {next : Nat → Parser β} (setting : Setting) (known : ∀ place, Reads (next place) tokens result last) :
    Reads (Parser.line setting >>= next) tokens result last :=
  fun taken rest same fits => known _ taken rest same fits

theorem bound {next : Nat → Parser β} (enough : ∀ limit, tokens.length < limit → Reads (next limit) tokens result last) :
    Reads (Parser.bound >>= next) tokens result last := by
  intro taken rest same fits
  refine enough _ ?_ taken rest same fits
  rw [← same, tokensOf, List.length_map, List.length_append]
  omega

theorem expressionBound {next : Nat → Parser β}
    (enough : ∀ limit, 4 * tokens.length + 4 ≤ limit → Reads (next limit) tokens result last) :
    Reads (Parser.expressionBound >>= next) tokens result last := by
  intro taken rest same fits
  refine enough _ ?_ taken rest same fits
  rw [← same, tokensOf, List.length_map, List.length_append]
  omega

end Reads

/-- A step fails on lexemes of the given tokens. -/
def Refuses {α : Type} (parser : Parser α) (tokens : List Token) : Prop :=
  ∀ taken rest, tokensOf taken = tokens → ∃ fault, parser (taken ++ rest) = .error fault

theorem Reads.refuse {α β : Type} {parser : Parser α} {next : α → Parser β} {tokens more : List Token} {value : α}
    (first : Reads parser tokens value Anything) (second : Refuses (next value) more) :
    Refuses (parser >>= next) (tokens ++ more) := by
  intro taken rest same
  obtain ⟨front, back, rfl, one, other⟩ := List.map_eq_append_iff.mp same
  obtain ⟨fault, failed⟩ := second back rest other
  refine ⟨fault, ?_⟩
  rw [List.append_assoc]
  change (parser (front ++ (back ++ rest)) >>= fun (found, left) => next found left) = _
  rw [first front _ one trivial]
  exact failed

section Tokens

variable {token : Token} (setting : Setting)

theorem reads_advance (token : Token) : Reads Parser.advance [token] (some token) Anything := by
  intro taken rest same _
  obtain ⟨lexeme, rfl, one⟩ := List.map_eq_singleton_iff.mp same
  subst one
  rfl

theorem reads_check_false (token : Token) : Reads (Parser.check token) [] false (Differs token) := by
  intro taken rest none differs
  rw [List.map_eq_nil_iff.mp none]
  exact congrArg (fun found => Except.ok (found, rest)) differs

theorem reads_consume_false (token : Token) : Reads (Parser.consume token) [] false (Differs token) :=
  (reads_check_false token).bind_nil (.pure false) fun _ differs => differs

theorem reads_consume {token : Token} (self : (token == token) = true) :
    Reads (Parser.consume token) [token] true Anything :=
  .check self ((reads_advance token).bind (.pure true) fun _ _ => trivial)

theorem reads_expect {token : Token} (self : (token == token) = true) :
    Reads (Parser.expect setting token) [token] () Anything := by
  refine .peek ?_
  dsimp only
  rw [if_pos self]
  exact (reads_advance token).bind (.pure ()) fun _ _ => trivial

theorem reads_identifier (name : String) : Reads (Parser.identifier setting) [.identifier name] name Anything :=
  .peek ((reads_advance _).bind (.pure name) fun _ _ => trivial)

theorem reads_index {value : Nat} (inside : value < wordCount) :
    Reads (Parser.index setting) [.integer value] value Anything := by
  refine .peek ?_
  dsimp only
  rw [if_pos inside]
  exact (reads_advance _).bind (.pure value) fun _ _ => trivial

end Tokens

end CircuitCloak.Qasm

import CircuitCloak.Proofs.PrintableNumbers
import CircuitCloak.Proofs.RoundTrip
import CircuitCloak.Proofs.SayableCircuits

/-! Which texts are loaded again. The text of a circuit that was loaded fails in one way only: a finite number of 2^64
or more is written with more digits than the lexer takes. -/

namespace CircuitCloak

namespace Qasm

/-- A text with the header of a dialect can be loaded in that dialect only. -/
theorem load_eq_ok_iff {dialect other : Dialect} {source : String} {tokens : List Token}
    (falls : Falls source.toList (headerTokens dialect ++ tokens)) {circuit : Circuit} :
    load source = .ok (circuit, other) ↔ other = dialect ∧ parse dialect source = .ok circuit := by
  have refused : ∀ {different : Dialect}, dialect ≠ different →
      ∃ fault, parse different source = .error (.refused fault) := by
    intro different apart
    obtain ⟨fault, refused⟩ := refused_of_ne apart falls
    refine ⟨fault, ?_⟩
    unfold parse
    rw [refused]
    rfl
  constructor
  · intro loaded
    have parsed := parse_of_load loaded
    have same : other = dialect := by
      by_contra apart
      obtain ⟨fault, failed⟩ := refused (Ne.symm apart)
      cases parsed.symm.trans failed
    exact ⟨same, same ▸ parsed⟩
  · rintro ⟨rfl, parsed⟩
    cases other with
    | qasm2 =>
      unfold load
      rw [parsed]
    | qasm3 =>
      have different : Dialect.qasm3 ≠ .qasm2 := by decide
      obtain ⟨fault, older⟩ := refused different
      unfold load
      rw [older]
      dsimp only
      rw [parsed]

end Qasm

namespace Circuit
open Qasm

theorem numGates_of_readFor {loaded circuit : Circuit} (same : List.Forall₂ Instruction.ReadFor
    loaded.instructions.toList (circuit.instructions.toList.flatMap (·.split))) : loaded.numGates = circuit.numGates := by
  have alike : ∀ {reads instructions : List Instruction}, List.Forall₂ Instruction.ReadFor reads instructions →
      reads.countP (·.isGate) = instructions.countP (·.isGate) := by
    intro reads instructions all
    induction all with
    | nil => rfl
    | cons first _ ih => rw [List.countP_cons, List.countP_cons, ih, first.gate]
  have split : ∀ instruction : Instruction, instruction.split.countP (·.isGate) = [instruction].countP (·.isGate) := by
    intro instruction
    cases instruction with
    | gate | barrier => rfl
    | measure | reset =>
      refine List.countP_eq_zero.mpr fun part member => ?_
      obtain ⟨_, _, rfl⟩ := List.mem_map.mp member
      exact Bool.false_ne_true
  have every : ∀ instructions : List Instruction,
      (instructions.flatMap (·.split)).countP (·.isGate) = instructions.countP (·.isGate) := by
    intro instructions
    induction instructions with
    | nil => rfl
    | cons instruction rest ih =>
      rw [List.flatMap_cons, List.countP_append, ih, split, ← List.countP_append, List.singleton_append]
  rw [numGates, numGates, ← Array.countP_toList, ← Array.countP_toList, alike same, every]

theorem parse_write {circuit : Circuit} (sayable : circuit.Sayable)
    (printable : ∀ number ∈ circuit.numbers, Printable number) (dialect : Dialect) :
    ∃ loaded, parse dialect (write dialect circuit) = .ok loaded ∧ loaded.numQubits = circuit.numQubits ∧
      loaded.numClbits = circuit.numClbits ∧ loaded.numGates = circuit.numGates := by
  have legible : (Listing.ofCircuit circuit).Legible :=
    ⟨sayable.sayable, sayable.sized_iff.mpr (sized_iff_printable.mpr printable)⟩
  obtain ⟨loaded, made, qubits, clbits, same⟩ := circuitOf_sayable sayable dialect
  exact ⟨loaded, parse_eq_ok_iff.mpr ⟨_, statements_of_cuts (read_listing legible) (cuts_write dialect legible), made⟩,
    qubits, clbits, numGates_of_readFor same⟩

/-- Text that can be parsed was written for a circuit with numbers that are not too large. -/
theorem printable_of_parse {circuit : Circuit} (sayable : circuit.Sayable) {dialect : Dialect} {loaded : Circuit}
    (parsed : parse dialect (write dialect circuit) = .ok loaded) : ∀ number ∈ circuit.numbers, Printable number := by
  obtain ⟨found, read, _⟩ := parse_eq_ok_iff.mp parsed
  have falls := falls_write dialect sayable.sayable
  have sized : Sized (headerTokens dialect ++ sentenceTokens ((Listing.ofCircuit circuit).sentences dialect)) := by
    cases cut : lexemes (write dialect circuit) with
    | ok tokens => exact sized_of_lexemes falls cut
    | error fault =>
      unfold statements at read
      rw [cut] at read
      cases read
  exact sized_iff_printable.mp (sayable.sized_iff.mp ((sized_listing dialect sayable.sayable).mp sized))

/-- The text of a circuit is loaded again, in its dialect and with the same registers and as many gates, just if no
number in an angle is too large. -/
theorem load_write_sayable_iff {circuit : Circuit} (sayable : circuit.Sayable) (dialect : Dialect) :
    (∃ loaded, load (write dialect circuit) = .ok (loaded, dialect) ∧ loaded.numQubits = circuit.numQubits ∧
        loaded.numClbits = circuit.numClbits ∧ loaded.numGates = circuit.numGates) ↔
      ∀ number ∈ circuit.numbers, Printable number := by
  have falls := falls_write dialect sayable.sayable
  constructor
  · rintro ⟨loaded, done, _⟩
    exact printable_of_parse sayable (parse_of_load done)
  · intro printable
    obtain ⟨loaded, parsed, same⟩ := parse_write sayable printable dialect
    exact ⟨loaded, (load_eq_ok_iff falls).mpr ⟨rfl, parsed⟩, same⟩

end Circuit

namespace Qasm

/-- What was loaded can be written and loaded again with the same registers, in either dialect, just if no number in its
angles is too large. -/
theorem load_write_of_load_iff {source : String} {circuit : Circuit} {origin : Dialect}
    (loaded : load source = .ok (circuit, origin)) (dialect : Dialect) :
    (∃ again, load (write dialect circuit) = .ok (again, dialect) ∧ again.numQubits = circuit.numQubits ∧
        again.numClbits = circuit.numClbits) ↔
      ∀ number ∈ circuit.numbers, Printable number := by
  have sayable := sayable_of_load loaded
  constructor
  · rintro ⟨again, done, _⟩
    exact Circuit.printable_of_parse sayable (parse_of_load done)
  · intro printable
    obtain ⟨again, done, qubits, clbits, _⟩ := (Circuit.load_write_sayable_iff sayable dialect).mpr printable
    exact ⟨again, done, qubits, clbits⟩

deriving instance DecidableEq for Token, Lexeme

instance decidableEqOutcome {fault value : Type} [DecidableEq fault] [DecidableEq value] : DecidableEq (Except fault value)
  | .ok first, .ok second => decidable_of_iff (first = second) (Except.ok.injEq first second).to_iff.symm
  | .error first, .error second => decidable_of_iff (first = second) (Except.error.injEq first second).to_iff.symm
  | .ok _, .error _ => isFalse nofun
  | .error _, .ok _ => isFalse nofun

def turn (value : Float) : Circuit := ⟨"circuit", 1, 0, #[.apply (.ofKind (.rx (.const value))) [0]]⟩

def placedOnFirstLine : Token × Nat → Lexeme
  | (token, offset) => ⟨token, ⟨1, offset⟩⟩

/-- The lexemes of a turn by a number of four characters. -/
def turnLexemes (value : Float) : List Lexeme :=
  [(.keyword .header, 0), (.integer 2, 9), (.mark .semicolon, 10), (.keyword .qreg, 11), (.identifier "q", 16),
    (.mark .leftBracket, 17), (.integer 1, 18), (.mark .rightBracket, 19), (.mark .semicolon, 20), (.identifier "rx", 21),
    (.mark .leftParen, 23), (.decimal value, 24), (.mark .rightParen, 28), (.identifier "q", 30), (.mark .leftBracket, 31),
    (.integer 0, 32), (.mark .rightBracket, 33), (.mark .semicolon, 34)].map
      placedOnFirstLine

theorem load_turn {source : String} {value : Float} (cut : lexemes source = .ok (turnLexemes value)) :
    load source = .ok (turn value, .qasm2) := by
  have read : statements .qasm2 source =
      .ok [.quantumRegister "q" 1, .gate ⟨"rx", [.decimal value], [elementOperand "q" 0]⟩] := by
    unfold statements
    rw [cut]
    rfl
  have parsed : parse .qasm2 source = .ok (turn value) := parse_eq_ok_iff.mpr ⟨_, read, rfl⟩
  unfold load
  rw [parsed]

theorem reading_quarter : Decimal.Reading.ofFloat 0.25 = .finite false (Decimal.double (2 ^ 52) (-54)) := by decide +kernel

theorem load_write_of_load_quarter : load "OPENQASM 2;qreg q[1];rx(0.25) q[0];" = .ok (turn 0.25, .qasm2) ∧
    ∃ again, load (write .qasm3 (turn 0.25)) = .ok (again, .qasm3) ∧ again.numQubits = 1 ∧ again.numClbits = 0 := by
  have loaded : load "OPENQASM 2;qreg q[1];rx(0.25) q[0];" = .ok (turn 0.25, .qasm2) := load_turn (by decide +kernel)
  refine ⟨loaded, (load_write_of_load_iff loaded .qasm3).mpr ?_⟩
  refine List.forall_mem_singleton.mpr fun negative magnitude read => ?_
  cases reading_quarter.symm.trans read
  norm_num [Decimal.value_double]

/-- A turn by 1e30 is loaded, and what is written for it is not. -/
theorem load_write_large : load "OPENQASM 2;qreg q[1];rx(1e30) q[0];" = .ok (turn 1e30, .qasm2) ∧
    ¬∃ again dialect, load (write .qasm2 (turn 1e30)) = .ok (again, dialect) := by
  have loaded : load "OPENQASM 2;qreg q[1];rx(1e30) q[0];" = .ok (turn 1e30, .qasm2) := load_turn (by decide +kernel)
  have reading : Decimal.Reading.ofFloat 1e30 = .finite false (Decimal.double 7105427357601002 47) := by decide +kernel
  refine ⟨loaded, ?_⟩
  rintro ⟨again, dialect, done⟩
  have sayable := sayable_of_load loaded
  obtain ⟨rfl, parsed⟩ := (load_eq_ok_iff (falls_write .qasm2 sayable.sayable)).mp done
  have printable := Circuit.printable_of_parse sayable parsed
  have small := printable 1e30 (List.mem_singleton_self _) false _ reading
  norm_num [Decimal.value_double] at small

end Qasm

end CircuitCloak

import CircuitCloak.Proofs.LoadedCircuits
import CircuitCloak.Proofs.Reloading

/-! How declared registers are laid out. Each one starts where those before it end, so the registers of a kind are apart
from each other and fill what the circuit has. A register that would end past the last word is a panic. -/

namespace CircuitCloak.Qasm

namespace Statement

def quantumRegister? : Statement → Option (String × Nat)
  | .quantumRegister name size => some (name, size)
  | _ => none

def classicalRegister? : Statement → Option (String × Nat)
  | .classicalRegister name size => some (name, size)
  | _ => none

end Statement

/-- The quantum registers that statements declare, in order. -/
def quantumRegisters (statements : List Statement) : List (String × Nat) := statements.filterMap (·.quantumRegister?)

/-- The classical registers that statements declare, in order. -/
def classicalRegisters (statements : List Statement) : List (String × Nat) :=
  statements.filterMap (·.classicalRegister?)

theorem quantumRegisters_append (statements others : List Statement) :
    quantumRegisters (statements ++ others) = quantumRegisters statements ++ quantumRegisters others :=
  List.filterMap_append

theorem classicalRegisters_append (statements others : List Statement) :
    classicalRegisters (statements ++ others) = classicalRegisters statements ++ classicalRegisters others :=
  List.filterMap_append

theorem registers_of_plain {statement : Statement} (plain : statement.declaresRegister = false) :
    quantumRegisters [statement] = [] ∧ classicalRegisters [statement] = [] := by
  cases statement with
  | quantumRegister | classicalRegister => cases plain
  | includeFile | gate | measure | reset | barrier | define => exact ⟨rfl, rfl⟩

def totalSize (declared : List (String × Nat)) : Nat :=
  (declared.map Prod.snd).sum

theorem totalSize_append (declared others : List (String × Nat)) :
    totalSize (declared ++ others) = totalSize declared + totalSize others := by
  rw [totalSize, List.map_append, List.sum_append, totalSize, totalSize]

/-- Registers of one kind, last first, and how many places they have: each is added where the places so far end, and
ends before the last word. -/
inductive Laid : List (String × Nat) → Registers → Nat → Prop
  | none : Laid [] [] 0
  | add {declared registers width name size} (laid : Laid declared registers width)
      (fresh : registers.lookup name = none) (word : width + size < wordCount) :
      Laid (declared ++ [(name, size)]) ((name, ⟨width, size⟩) :: registers) (width + size)

/-- Registers of one kind that lie one after the other as they were declared, in as many places as they have
together. -/
structure Flat (declared : List (String × Nat)) (registers : Registers) (width : Nat) : Prop where
  listed : registers.reverse.map (fun register => (register.1, register.2.size)) = declared
  total : width = totalSize declared
  apart : registers.Pairwise fun one other => one.2.positions.Disjoint other.2.positions
  covered : registers.reverse.flatMap (·.2.positions) = List.range width
  /-- Neither the end of a register nor a place in it is past the last word. -/
  words : ∀ register ∈ registers, register.2.start + register.2.size < wordCount
  whole : ∀ register ∈ registers, registers.resolve ⟨register.1, none⟩ = .ok register.2.positions
  element : ∀ register ∈ registers, ∀ index < register.2.size,
    registers.resolve ⟨register.1, some index⟩ = .ok [register.2.start + index]

namespace Laid

variable {declared : List (String × Nat)} {registers : Registers} {width : Nat}

theorem listed (laid : Laid declared registers width) :
    registers.reverse.map (fun register => (register.1, register.2.size)) = declared := by
  induction laid with
  | none => rfl
  | add _ _ _ ih => rw [List.reverse_cons, List.map_append, ih, List.map_singleton]

theorem total (laid : Laid declared registers width) : width = totalSize declared := by
  induction laid with
  | none => rfl
  | add _ _ _ ih =>
    rw [totalSize_append, ← ih]
    rfl

/-- No name is declared twice, so each finds its own register. -/
theorem lookup (laid : Laid declared registers width) :
    ∀ register ∈ registers, registers.lookup register.1 = some register.2 := by
  induction laid with
  | none => exact List.forall_mem_nil _
  | @add _ registers width name size _ fresh _ ih =>
    refine List.forall_mem_cons.mpr ⟨List.lookup_cons_self, fun register member => ?_⟩
    have other : register.1 ≠ name := by
      rintro rfl
      cases fresh.symm.trans (ih register member)
    rw [List.lookup_cons, beq_false_of_ne other]
    exact ih register member

theorem words (laid : Laid declared registers width) :
    ∀ register ∈ registers, register.2.start + register.2.size < wordCount := by
  induction laid with
  | none => exact List.forall_mem_nil _
  | add _ _ word ih => exact List.forall_mem_cons.mpr ⟨word, ih⟩

/-- The registers fill the places, in the order in which they were declared. -/
theorem covered (laid : Laid declared registers width) :
    registers.reverse.flatMap (·.2.positions) = List.range width := by
  induction laid with
  | none => rfl
  | add _ _ _ ih =>
    rw [List.reverse_cons, List.flatMap_append, ih, List.flatMap_singleton, Extent.positions,
      List.range_eq_range', List.range_eq_range', ← List.range'_append_1, Nat.zero_add]

/-- Registers that fill a range one after the other share no place. -/
theorem apart (laid : Laid declared registers width) :
    registers.Pairwise fun one other => one.2.positions.Disjoint other.2.positions := by
  have once : (registers.reverse.flatMap (·.2.positions)).Nodup := laid.covered ▸ List.nodup_range
  have forward := List.pairwise_reverse.mp (List.nodup_flatMap.mp once).2
  exact forward.imp fun disjoint => disjoint.symm

theorem flat (laid : Laid declared registers width) : Flat declared registers width where
  listed := laid.listed
  total := laid.total
  apart := laid.apart
  covered := laid.covered
  words := laid.words
  whole register member := by simp only [Registers.resolve, laid.lookup register member]
  element register member index inside := by
    simp only [Registers.resolve, laid.lookup register member, if_pos inside]

end Laid

namespace Scope

/-- The registers of a scope are those that statements declared, as many places as the circuit has. -/
structure LaidOut (statements : List Statement) (scope : Scope) : Prop where
  qubits : Laid (quantumRegisters statements) scope.qubits scope.circuit.numQubits
  clbits : Laid (classicalRegisters statements) scope.clbits scope.circuit.numClbits

theorem lookup_of_fresh {scope : Scope} {name : String} (fresh : scope.isDeclared name = false) :
    scope.qubits.lookup name = none ∧ scope.clbits.lookup name = none := by
  have missing : ∀ {found : Option Extent}, found.isSome = false → found = none :=
    fun none => Option.not_isSome_iff_eq_none.mp (Bool.eq_false_iff.mp none)
  exact (Bool.or_eq_false_iff.mp fresh).imp missing missing

theorem laidOut_read {statements : List Statement} {scope next : Scope} {statement : Statement}
    (laid : LaidOut statements scope) (done : scope.read statement = .ok next) :
    LaidOut (statements ++ [statement]) next := by
  have unchanged : statement.declaresRegister = false → ∀ definitions instructions,
      LaidOut (statements ++ [statement]) { scope with definitions, circuit := { scope.circuit with instructions } } := by
    intro plain definitions instructions
    obtain ⟨noQubits, noClbits⟩ := registers_of_plain plain
    constructor
    · rw [quantumRegisters_append, noQubits, List.append_nil]
      exact laid.qubits
    · rw [classicalRegisters_append, noClbits, List.append_nil]
      exact laid.clbits
  cases effect_of_read done with
  | quantumRegister fresh word =>
    constructor
    · rw [quantumRegisters_append]
      exact laid.qubits.add (lookup_of_fresh fresh).1 word
    · rw [classicalRegisters_append]
      exact (List.append_nil _).symm ▸ laid.clbits
  | classicalRegister fresh word =>
    constructor
    · rw [quantumRegisters_append]
      exact (List.append_nil _).symm ▸ laid.qubits
    · rw [classicalRegisters_append]
      exact laid.clbits.add (lookup_of_fresh fresh).2 word
  | includeFile | shadowing | define => exact unchanged rfl _ _
  | instructions denotes pushed =>
    obtain ⟨_, rfl⟩ := Circuit.pushAll_eq_ok_iff.mp pushed
    exact unchanged denotes.plain _ _

theorem laidOut_of_reads {earlier later : List Statement} {scope last : Scope} (laid : LaidOut earlier scope)
    (done : later.foldlM read scope = .ok last) : LaidOut (earlier ++ later) last :=
  foldlM_follows (fun _ _ _ _ laid done => laidOut_read laid done) laid done

theorem laidOut_empty : LaidOut [] .empty := ⟨.none, .none⟩

end Scope

/-- However far the statements are read, the registers declared so far lie flat, in all the places that the circuit
has. -/
def StaysFlat (read : List Statement) : Prop :=
  ∀ before, before <+: read → ∃ scope, before.foldlM Scope.read .empty = .ok scope ∧
    Flat (quantumRegisters before) scope.qubits scope.circuit.numQubits ∧
    Flat (classicalRegisters before) scope.clbits scope.circuit.numClbits

/-- An accepted program was read through each of its statements, each time with registers that lie flat. -/
theorem staysFlat_of_circuitOf {read : List Statement} {circuit : Circuit} (accepted : circuitOf read = .ok circuit) :
    StaysFlat read := by
  rintro before ⟨later, rfl⟩
  obtain ⟨last, done, _⟩ := bind_eq_ok_iff.mp accepted
  rw [List.foldlM_append] at done
  obtain ⟨scope, reached, _⟩ := bind_eq_ok_iff.mp done
  have laid := Scope.laidOut_of_reads Scope.laidOut_empty reached
  exact ⟨scope, reached, laid.qubits.flat, laid.clbits.flat⟩

/-- A register of a new name that runs past the last word, after those declared before it. -/
inductive Overgrows (before : List Statement) (scope : Scope) : Statement → Prop
  | quantum {name : String} {size : Nat} (fresh : scope.isDeclared name = false)
      (large : wordCount ≤ totalSize (quantumRegisters before) + size) :
      Overgrows before scope (.quantumRegister name size)
  | classical {name : String} {size : Nat} (fresh : scope.isDeclared name = false)
      (large : wordCount ≤ totalSize (classicalRegisters before) + size) :
      Overgrows before scope (.classicalRegister name size)

/-- A declaration is refused for its name first, so it is a panic if the name is new and growing the circuit is. -/
private theorem declare_eq_panic_iff {taken : Bool} {fault : ParseError} {grown : Except (Halt ParseError) Circuit}
    {extended : Circuit → Scope} :
    (if taken then .error (.refused fault) else grown >>= fun circuit => .ok (extended circuit)) =
      (.error .panic : Except (Halt ParseError) Scope) ↔ taken = false ∧ grown = .error .panic := by
  cases taken <;> cases grown <;> simp [bind, Except.bind]

/-- Reading a statement is a panic exactly if it is such a register. -/
theorem read_eq_panic_iff {before : List Statement} {scope : Scope} (laid : scope.LaidOut before)
    {statement : Statement} : scope.read statement = .error .panic ↔ Overgrows before scope statement := by
  cases statement with
  | quantumRegister name size =>
    have same : scope.read (.quantumRegister name size) = .error .panic ↔
        scope.isDeclared name = false ∧ wordCount ≤ totalSize (quantumRegisters before) + size := by
      rw [← laid.qubits.total, ← Circuit.growQubits_eq_panic_iff (ε := ParseError)]
      exact declare_eq_panic_iff
    rw [same]
    exact ⟨fun both => .quantum both.1 both.2, fun | .quantum fresh large => ⟨fresh, large⟩⟩
  | classicalRegister name size =>
    have same : scope.read (.classicalRegister name size) = .error .panic ↔
        scope.isDeclared name = false ∧ wordCount ≤ totalSize (classicalRegisters before) + size := by
      rw [← laid.clbits.total, ← Circuit.growClbits_eq_panic_iff (ε := ParseError)]
      exact declare_eq_panic_iff
    rw [same]
    exact ⟨fun both => .classical both.1 both.2, fun | .classical fresh large => ⟨fresh, large⟩⟩
  | includeFile => exact iff_of_false nofun nofun
  | gate | measure | reset | barrier | define => exact iff_of_false (refusing_ne_panic _) nofun

theorem circuitOf_eq_panic_iff {read : List Statement} :
    circuitOf read = .error .panic ↔ ∃ before statement after scope, read = before ++ statement :: after ∧
      before.foldlM Scope.read .empty = .ok scope ∧ Overgrows before scope statement := by
  have whole : circuitOf read = .error .panic ↔ read.foldlM Scope.read .empty = .error .panic := by
    unfold circuitOf
    cases read.foldlM Scope.read .empty <;> simp [bind, Except.bind, pure, Except.pure]
  rw [whole, foldlM_eq_error_iff]
  refine exists_congr fun before => exists_congr fun statement => exists_congr fun after => exists_congr fun scope =>
    and_congr_right fun _ => and_congr_right fun reached => ?_
  exact read_eq_panic_iff (Scope.laidOut_of_reads Scope.laidOut_empty reached)

/-- The registers of an accepted program lie flat after every declaration, and no sum of their sizes passes the last
word. A program is a panic exactly if it gets to a register, of a new name, for which such a sum would. -/
theorem flat_or_panic (dialect : Dialect) (source : String) :
    (∀ circuit, parse dialect source = .ok circuit → ∃ read, statements dialect source = .ok read ∧ StaysFlat read) ∧
      (parse dialect source = .error .panic ↔ ∃ read, statements dialect source = .ok read ∧
        ∃ before statement after scope, read = before ++ statement :: after ∧
          before.foldlM Scope.read .empty = .ok scope ∧ Overgrows before scope statement) := by
  refine ⟨fun circuit accepted => ?_, ?_⟩
  · obtain ⟨read, found, made⟩ := parse_eq_ok_iff.mp accepted
    exact ⟨read, found, staysFlat_of_circuitOf made⟩
  · simp only [← circuitOf_eq_panic_iff]
    unfold parse
    cases found : statements dialect source with
    | error fault => simp [refusing, Except.mapError, bind, Except.bind]
    | ok read => simp [refusing, Except.mapError, bind, Except.bind]

/-- Two quantum registers around a classical one. -/
theorem flat_around : parse .qasm2 "OPENQASM 2;qreg a[2];creg c[1];qreg b[3];" = .ok (.empty "circuit" 5 1) ∧
    StaysFlat [.quantumRegister "a" 2, .classicalRegister "c" 1, .quantumRegister "b" 3] := by
  have cut : lexemes "OPENQASM 2;qreg a[2];creg c[1];qreg b[3];" = .ok ([(.keyword .header, 0), (.integer 2, 9),
      (.mark .semicolon, 10), (.keyword .qreg, 11), (.identifier "a", 16), (.mark .leftBracket, 17), (.integer 2, 18),
      (.mark .rightBracket, 19), (.mark .semicolon, 20), (.keyword .creg, 21), (.identifier "c", 26),
      (.mark .leftBracket, 27), (.integer 1, 28), (.mark .rightBracket, 29), (.mark .semicolon, 30),
      (.keyword .qreg, 31), (.identifier "b", 36), (.mark .leftBracket, 37), (.integer 3, 38), (.mark .rightBracket, 39),
      (.mark .semicolon, 40)].map placedOnFirstLine) := by decide +kernel
  have found : statements .qasm2 "OPENQASM 2;qreg a[2];creg c[1];qreg b[3];" =
      .ok [.quantumRegister "a" 2, .classicalRegister "c" 1, .quantumRegister "b" 3] := by
    unfold statements
    rw [cut]
    rfl
  have accepted : parse .qasm2 "OPENQASM 2;qreg a[2];creg c[1];qreg b[3];" = .ok (.empty "circuit" 5 1) :=
    parse_eq_ok_iff.mpr ⟨_, found, rfl⟩
  obtain ⟨read, same, flat⟩ := (flat_or_panic .qasm2 _).1 _ accepted
  cases found.symm.trans same
  exact ⟨accepted, flat⟩

/-- A second register runs past the last word. -/
theorem overlong_panics : parse .qasm2 "OPENQASM 2;qreg a[2];qreg b[4294967295];" = .error .panic := by
  have cut : lexemes "OPENQASM 2;qreg a[2];qreg b[4294967295];" = .ok ([(.keyword .header, 0), (.integer 2, 9),
      (.mark .semicolon, 10), (.keyword .qreg, 11), (.identifier "a", 16), (.mark .leftBracket, 17), (.integer 2, 18),
      (.mark .rightBracket, 19), (.mark .semicolon, 20), (.keyword .qreg, 21), (.identifier "b", 26),
      (.mark .leftBracket, 27), (.integer 4294967295, 28), (.mark .rightBracket, 38),
      (.mark .semicolon, 39)].map placedOnFirstLine) := by decide +kernel
  have found : statements .qasm2 "OPENQASM 2;qreg a[2];qreg b[4294967295];" =
      .ok [.quantumRegister "a" 2, .quantumRegister "b" 4294967295] := by
    unfold statements
    rw [cut]
    rfl
  unfold parse
  rw [found]
  rfl

end CircuitCloak.Qasm

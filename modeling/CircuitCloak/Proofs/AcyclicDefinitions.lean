import CircuitCloak.Proofs.ReplacedNames

/-! Definitions without cycles. A definition is taken only if its body calls gates that are known by then, so a call in
a body leads to an earlier definition. Look-ups in one table of all the definitions then end: they go no deeper than the
table is long, and they make the gates that are made of each definition and those before it. -/

namespace CircuitCloak.Qasm

/-- A call of the name is one of a gate with a fixed meaning, or one of a definition. -/
def Knows (definitions : List GateDefinition) (name : String) : Prop :=
  isBuiltin name = true ∨ ∃ definition ∈ definitions, definition.name = name

/-- Definitions, last first, of which each was new and called what was known when it was read. -/
inductive Layered : List GateDefinition → Prop
  | nil : Layered []
  | cons {definition : GateDefinition} {earlier : List GateDefinition} (own : isBuiltin definition.name = false)
    (fresh : ∀ other ∈ earlier, other.name ≠ definition.name) (known : ∀ call ∈ definition.body, Knows earlier call.name)
    (layered : Layered earlier) : Layered (definition :: earlier)

/-- The definition of a name, looked up among all of them. -/
def definition? (table : List GateDefinition) (name : String) : Option GateDefinition := table.find? (·.name == name)

section Table

variable {table : List GateDefinition} {definition : GateDefinition} {name : String}

theorem mem_of_definition? (found : definition? table name = some definition) : definition ∈ table :=
  List.mem_of_find?_eq_some found

theorem name_of_definition? (found : definition? table name = some definition) : definition.name = name :=
  beq_iff_eq.mp (List.find?_some (p := fun definition : GateDefinition => definition.name == name) found)

theorem definition?_eq_none (absent : ∀ definition ∈ table, definition.name ≠ name) : definition? table name = none :=
  List.find?_eq_none.mpr fun definition member same => absent definition member (beq_iff_eq.mp same)

theorem definition?_self (definition : GateDefinition) (table : List GateDefinition) :
    definition? (definition :: table) definition.name = some definition :=
  List.find?_cons_of_pos (beq_self_eq_true definition.name)

theorem definition?_other (different : definition.name ≠ name) (table : List GateDefinition) :
    definition? (definition :: table) name = definition? table name :=
  List.find?_cons_of_neg fun same => different (beq_iff_eq.mp same)

end Table

/-- What comes of a definition, given what was known before it. -/
inductive Scope.Defining (scope : Scope) (definition : GateDefinition) : Except ParseError Scope → Prop
  | shadowing (fixed : isBuiltin definition.name = true) : Defining scope definition (.ok scope)
  | duplicate {other : GateDefinition} (own : isBuiltin definition.name = false) (member : other ∈ scope.definitions)
    (same : other.name = definition.name) : Defining scope definition (.error (.duplicateDeclaration definition.name))
  | unknown {call : GateCall} (own : isBuiltin definition.name = false)
    (fresh : ∀ other ∈ scope.definitions, other.name ≠ definition.name) (member : call ∈ definition.body)
    (unknown : ¬Knows scope.definitions call.name) : Defining scope definition (.error (.unknownGate call.name))
  | added (own : isBuiltin definition.name = false) (fresh : ∀ other ∈ scope.definitions, other.name ≠ definition.name)
    (known : ∀ call ∈ definition.body, Knows scope.definitions call.name) :
    Defining scope definition (.ok { scope with definitions := definition :: scope.definitions })

namespace Scope

variable {scope next : Scope}

theorem isDefined_iff {name : String} : scope.isDefined name = true ↔ ∃ other ∈ scope.definitions, other.name = name := by
  simp only [isDefined, List.any_eq_true, beq_iff_eq]

theorem fresh_iff {name : String} :
    scope.isDefined name = false ↔ ∀ other ∈ scope.definitions, other.name ≠ name := by
  rw [← Bool.not_eq_true, isDefined_iff]
  exact ⟨fun fresh other member same => fresh ⟨other, member, same⟩, fun all ⟨other, member, same⟩ => all other member same⟩

theorem knows_iff {name : String} : Knows scope.definitions name ↔ (isBuiltin name || scope.isDefined name) = true := by
  rw [Knows, Bool.or_eq_true, isDefined_iff]

theorem define_defining (scope : Scope) (definition : GateDefinition) :
    scope.Defining definition (scope.define definition) := by
  unfold define
  split
  next fixed => exact .shadowing fixed
  next own =>
    have own := Bool.eq_false_iff.mpr own
    split
    next defined =>
      obtain ⟨other, member, same⟩ := isDefined_iff.mp defined
      exact .duplicate own member same
    next fresh =>
      have fresh := fresh_iff.mp (Bool.eq_false_iff.mpr fresh)
      split
      next call found =>
        refine .unknown own fresh (List.mem_of_find?_eq_some found) fun known => ?_
        have neither := List.find?_some found
        rw [← Bool.not_or, knows_iff.mp known] at neither
        cases neither
      next all =>
        refine .added own fresh fun call member => knows_iff.mpr ?_
        have either := List.find?_eq_none.mp all call member
        rwa [← Bool.not_or, Bool.not_eq_true, Bool.not_eq_false'] at either

/-- A statement adds no definition, or one that calls what is known. -/
theorem read_layered {statement : Statement} (layered : Layered scope.definitions)
    (done : scope.read statement = .ok next) : Layered next.definitions := by
  cases effect_of_read done with
  | includeFile | quantumRegister | classicalRegister | instructions | shadowing => exact layered
  | define own fresh known =>
    exact .cons own (fresh_iff.mp fresh) (fun call member => knows_iff.mpr (known call member)) layered

/-- A definition that was found is found ever after: no other one takes its name. -/
theorem read_definition? {statement : Statement} (done : scope.read statement = .ok next) {name : String}
    {found : GateDefinition} (before : definition? scope.definitions name = some found) :
    definition? next.definitions name = some found := by
  cases effect_of_read done with
  | includeFile | quantumRegister | classicalRegister | instructions | shadowing => exact before
  | @define definition own fresh =>
    have other : definition.name ≠ name := fun same =>
      fresh_iff.mp fresh found (mem_of_definition? before) ((name_of_definition? before).trans same.symm)
    exact (definition?_other other scope.definitions).trans before

theorem foldlM_layered {program : List Statement} (layered : Layered scope.definitions)
    (done : program.foldlM read scope = .ok next) : Layered next.definitions :=
  foldlM_preserves (fun (scope : Scope) _ _ (layered : Layered scope.definitions) done => read_layered layered done)
    layered done

theorem foldlM_definition? {program : List Statement} (done : program.foldlM read scope = .ok next) {name : String}
    {found : GateDefinition} (before : definition? scope.definitions name = some found) :
    definition? next.definitions name = some found :=
  foldlM_preserves (fun (scope : Scope) _ _ (before : definition? scope.definitions name = some found) done =>
    read_definition? done before) before done

end Scope

/-- How many definitions were read before the one of the name. -/
def rankIn : List GateDefinition → String → Nat
  | [], _ => 0
  | definition :: earlier, name => if definition.name = name then earlier.length else rankIn earlier name

/-- Definitions without cycles: each calls, besides gates with a fixed meaning, definitions of lower rank only. -/
structure Acyclic (definitions : List GateDefinition) (rank : String → Nat) : Prop where
  own : ∀ definition ∈ definitions, isBuiltin definition.name = false
  distinct : (definitions.map (·.name)).Nodup
  below : ∀ definition ∈ definitions, rank definition.name < definitions.length
  calls : ∀ definition ∈ definitions, ∀ call ∈ definition.body, isBuiltin call.name = false →
    ∃ callee ∈ definitions, callee.name = call.name ∧ rank callee.name < rank definition.name

theorem rankIn_lt {definitions : List GateDefinition} :
    ∀ definition ∈ definitions, rankIn definitions definition.name < definitions.length := by
  induction definitions with
  | nil => exact nofun
  | cons first earlier ih =>
    intro definition member
    rw [rankIn, List.length_cons]
    split
    next => exact Nat.lt_succ_self _
    next other =>
      obtain rfl | member := List.mem_cons.mp member
      · exact absurd rfl other
      · exact Nat.lt_succ_of_lt (ih definition member)

theorem Layered.acyclic {definitions : List GateDefinition} (layered : Layered definitions) :
    Acyclic definitions (rankIn definitions) := by
  induction layered with
  | nil => exact ⟨nofun, List.nodup_nil, nofun, nofun⟩
  | @cons definition earlier own fresh known layered ih =>
    have first : rankIn (definition :: earlier) definition.name = earlier.length := if_pos rfl
    have later : ∀ other ∈ earlier, rankIn (definition :: earlier) other.name = rankIn earlier other.name :=
      fun other member => if_neg fun same => fresh other member same.symm
    refine ⟨List.forall_mem_cons.mpr ⟨own, ih.own⟩, List.nodup_cons.mpr ⟨fun member => ?_, ih.distinct⟩, rankIn_lt,
      List.forall_mem_cons.mpr ⟨fun call member called => ?_, fun other listed call member called => ?_⟩⟩
    · obtain ⟨other, listed, same⟩ := List.mem_map.mp member
      exact fresh other listed same
    · obtain fixed | ⟨callee, listed, named⟩ := known call member
      · rw [fixed] at called
        cases called
      · refine ⟨callee, List.mem_cons_of_mem _ listed, named, ?_⟩
        rw [later callee listed, first]
        exact rankIn_lt callee listed
    · obtain ⟨callee, within, named, lower⟩ := ih.calls other listed call member called
      refine ⟨callee, List.mem_cons_of_mem _ within, named, ?_⟩
      rwa [later callee within, later other listed]

/-- What may lie deeper than was allowed; then it has no outcome. -/
abbrev Search := ExceptT ParseError Option

def settled {α : Type} (outcome : Except ParseError α) : Search α := ExceptT.mk (some outcome)

/-- The gate of a name at given angles, with every name looked up among all definitions, and bodies entered one inside
another no deeper than a limit. -/
def gateWithin (table : List GateDefinition) : Nat → String → List Angle → Search Gate
  | limit, name, angles =>
    match builtin? name with
    | some builtin =>
      if angles.length = builtin.parameters then settled (.ok (.ofKind (builtin.make angles)))
      else settled (.error (.wrongParameterCount name builtin.parameters angles.length))
    | none =>
      match definition? table name with
      | none => settled (.error (.unknownGate name))
      | some definition =>
        if angles.length ≠ definition.formals.length then
          settled (.error (.wrongParameterCount name definition.formals.length angles.length))
        else
          match limit with
          | 0 => ExceptT.mk none
          | limit + 1 => do
            let bindings := definition.formals.zip angles
            let body ← definition.body.mapM fun call => do
              let gate ← gateWithin table limit call.name (← settled (call.arguments.mapM (·.angle bindings)))
              settled (ensureArity gate call.operands.length)
              let locals ← settled (call.operands.mapM (formalPosition definition))
              return Instruction.apply gate locals
            return .composite
              (← settled (ofCircuit (Composite.ofInstructions name definition.qubits.length body))) none

theorem settled_bind {α β : Type} (outcome : Except ParseError α) (next : α → Except ParseError β) :
    (settled outcome >>= fun value => settled (next value)) = settled (outcome >>= next) := by
  cases outcome <;> rfl

theorem settled_mapM {α β : Type} {items : List α} {search : α → Search β} {outcome : α → Except ParseError β}
    (each : ∀ item ∈ items, search item = settled (outcome item)) : items.mapM search = settled (items.mapM outcome) := by
  induction items with
  | nil => rfl
  | cons item rest ih =>
    obtain ⟨first, others⟩ := List.forall_mem_cons.mp each
    rw [List.mapM_cons, List.mapM_cons, first, ih others, ← settled_bind]
    refine congrArg (settled (outcome item) >>= ·) (funext fun value => ?_)
    exact settled_bind (rest.mapM outcome) fun values => pure (value :: values)

theorem instantiate_unknown {definitions : List GateDefinition} {name : String} (unknown : ¬Knows definitions name)
    (angles : List Angle) : instantiate definitions name angles = .error (.unknownGate name) := by
  have own : isBuiltin name = false := Bool.eq_false_iff.mpr fun fixed => unknown (.inl fixed)
  induction definitions with
  | nil => rw [instantiate, builtin_eq_none own]
  | cons definition earlier ih =>
    rw [instantiate_other earlier own fun same => unknown (.inr ⟨definition, List.mem_cons_self, same⟩)]
    refine ih fun known => unknown (known.imp_right ?_)
    rintro ⟨other, member, same⟩
    exact ⟨other, List.mem_cons_of_mem _ member, same⟩

theorem Layered.definition? {definitions : List GateDefinition} (layered : Layered definitions) :
    ∀ definition ∈ definitions, Qasm.definition? definitions definition.name = some definition := by
  induction layered with
  | nil => exact nofun
  | @cons definition earlier own fresh known layered ih =>
    refine List.forall_mem_cons.mpr ⟨definition?_self definition earlier, fun other member => ?_⟩
    exact (definition?_other (fresh other member).symm earlier).trans (ih other member)

theorem gateWithin_builtin {name : String} (fixed : isBuiltin name = true) (table definitions : List GateDefinition)
    (limit : Nat) (angles : List Angle) :
    gateWithin table limit name angles = settled (instantiate definitions name angles) := by
  obtain ⟨builtin, known⟩ := Option.isSome_iff_exists.mp (builtin_isSome fixed)
  rw [gateWithin.eq_def, instantiate.eq_def]
  dsimp only
  rw [known]
  dsimp only
  split <;> rfl

/-- The call of a definition is searched for in its body, one level deeper. -/
theorem gateWithin_body {table earlier : List GateDefinition} {limit : Nat} {definition : GateDefinition}
    (own : isBuiltin definition.name = false) (found : definition? table definition.name = some definition)
    (body : ∀ call ∈ definition.body, ∀ angles,
      gateWithin table limit call.name angles = settled (instantiate earlier call.name angles)) (angles : List Angle) :
    gateWithin table (limit + 1) definition.name angles =
      settled (instantiate (definition :: earlier) definition.name angles) := by
  rw [gateWithin, instantiate, builtin_eq_none own, found]
  dsimp only
  rw [if_neg (not_not_intro rfl)]
  split
  · rfl
  · have inner : ∀ call ∈ definition.body, (do
        let gate ← gateWithin table limit call.name
          (← settled (call.arguments.mapM (·.angle (definition.formals.zip angles))))
        settled (ensureArity gate call.operands.length)
        let locals ← settled (call.operands.mapM (formalPosition definition))
        return Instruction.apply gate locals) = settled (readInner earlier definition angles call) := by
      intro call member
      unfold readInner
      simp only [body call member, ← settled_bind]
      rfl
    rw [settled_mapM inner]
    simp only [← settled_bind]
    rfl

/-- What is known in a part of the table, up to any definition, is found as deep as the part is long. -/
theorem gateWithin_part {table part : List GateDefinition} (layered : Layered part)
    (found : ∀ definition ∈ part, definition? table definition.name = some definition) {limit : Nat}
    (deep : part.length ≤ limit) {name : String} (known : Knows part name) (angles : List Angle) :
    gateWithin table limit name angles = settled (instantiate part name angles) := by
  induction layered generalizing limit name angles with
  | nil =>
    obtain fixed | ⟨_, member, _⟩ := known
    · exact gateWithin_builtin fixed table [] limit angles
    · cases member
  | @cons definition earlier own fresh calls layered ih =>
    obtain ⟨first, others⟩ := List.forall_mem_cons.mp found
    obtain fixed | ⟨callee, member, rfl⟩ := known
    · exact gateWithin_builtin fixed table _ limit angles
    · obtain rfl | member := List.mem_cons.mp member
      · obtain ⟨less, rfl⟩ := Nat.exists_eq_add_of_le' deep
        refine gateWithin_body own first (fun call listed angles => ?_) angles
        exact ih others (Nat.le_add_left _ less) (calls call listed) angles
      · rw [instantiate_other earlier (layered.acyclic.own callee member) (fresh callee member).symm]
        exact ih others (Nat.le_of_succ_le deep) (.inr ⟨callee, member, rfl⟩) angles

/-- Look-ups of any name end no deeper than there are definitions. -/
theorem Layered.gateWithin {definitions : List GateDefinition} (layered : Layered definitions) {limit : Nat}
    (deep : definitions.length ≤ limit) (name : String) (angles : List Angle) :
    Qasm.gateWithin definitions limit name angles = settled (instantiate definitions name angles) := by
  by_cases known : Knows definitions name
  · exact gateWithin_part layered layered.definition? deep known angles
  · have own : isBuiltin name = false := Bool.eq_false_iff.mpr fun fixed => known (.inl fixed)
    have absent : Qasm.definition? definitions name = none :=
      definition?_eq_none fun definition member same => known (.inr ⟨definition, member, same⟩)
    rw [instantiate_unknown known, Qasm.gateWithin.eq_def]
    dsimp only
    rw [builtin_eq_none own, absent]

/-- How the definitions that were read so far bound the search for a gate. -/
structure Scope.Founded (scope : Scope) : Prop where
  acyclic : ∃ rank, Acyclic scope.definitions rank
  kept : ∀ (more : List Statement) (later : Scope), more.foldlM Scope.read scope = .ok later →
    (∀ name definition, definition? scope.definitions name = some definition →
      definition? later.definitions name = some definition) ∧
    ∀ name, Knows scope.definitions name → ∀ angles,
      instantiate later.definitions name angles = instantiate scope.definitions name angles
  ends : ∀ limit, scope.definitions.length ≤ limit → ∀ name angles,
    gateWithin scope.definitions limit name angles = settled (instantiate scope.definitions name angles)
  fixed : ∀ name, isBuiltin name = true → ∀ angles,
    instantiate scope.definitions name angles = instantiate [] name angles
  unknown : ∀ name, ¬Knows scope.definitions name → ∀ angles,
    instantiate scope.definitions name angles = .error (.unknownGate name)
  defining : ∀ definition, scope.Defining definition (scope.define definition)

/-- Later statements do not change the gates of names that are known. -/
theorem Scope.foldlM_instantiate {scope next : Scope} {program : List Statement} (layered : Layered scope.definitions)
    (done : program.foldlM read scope = .ok next) {name : String} (known : Knows scope.definitions name)
    (angles : List Angle) : instantiate next.definitions name angles = instantiate scope.definitions name angles := by
  have found : ∀ definition ∈ scope.definitions, definition? next.definitions definition.name = some definition :=
    fun definition member => foldlM_definition? done (layered.definition? definition member)
  have later := (foldlM_layered layered done).gateWithin
    (Nat.le_add_left next.definitions.length scope.definitions.length) name angles
  have before := gateWithin_part layered found
    (Nat.le_add_right scope.definitions.length next.definitions.length) known angles
  exact Option.some.inj (later.symm.trans before)

/-- Whatever statements were read, every search for a gate ends. -/
theorem founded_of_read {program : List Statement} {scope : Scope}
    (done : program.foldlM Scope.read .empty = .ok scope) : scope.Founded := by
  have layered : Layered scope.definitions := Scope.foldlM_layered .nil done
  exact {
    acyclic := ⟨_, layered.acyclic⟩
    kept := fun _ _ more =>
      ⟨fun _ _ before => Scope.foldlM_definition? more before, fun _ known => Scope.foldlM_instantiate layered more known⟩
    ends := fun _ deep name angles => layered.gateWithin deep name angles
    fixed := fun _ fixed angles => instantiate_builtin fixed scope.definitions angles
    unknown := fun _ unknown angles => instantiate_unknown unknown angles
    defining := scope.define_defining }

/-- One definition calls another one; between them stands one with the name of a fixed gate, which it calls. -/
def shadowedProgram : List Statement :=
  [.quantumRegister "q" 1, .define ⟨"turn", [], ["a"], [⟨"h", [], [⟨"a", none⟩]⟩]⟩,
    .define ⟨"h", [], ["a"], [⟨"h", [], [⟨"a", none⟩]⟩]⟩,
    .define ⟨"twice", [], ["a"], [⟨"turn", [], [⟨"a", none⟩]⟩, ⟨"turn", [], [⟨"a", none⟩]⟩]⟩,
    .gate ⟨"twice", [], [⟨"q", some 0⟩]⟩]

theorem founded_of_read_shadowed : ∃ scope, shadowedProgram.foldlM Scope.read .empty = .ok scope ∧
    scope.Founded ∧ scope.definitions.map (·.name) = ["twice", "turn"] := by
  obtain ⟨scope, done, named⟩ : ∃ scope, shadowedProgram.foldlM Scope.read .empty = .ok scope ∧
      scope.definitions.map (·.name) = ["twice", "turn"] := ⟨_, rfl, rfl⟩
  exact ⟨scope, done, founded_of_read done, named⟩

end CircuitCloak.Qasm

import CircuitCloak.Proofs.EqualGates
import CircuitCloak.Proofs.Listings

/-! The names that a listing gives. Definitions have different names and are made for different composites, each after
those that it calls. Following the calls of the text into its definitions, every composite of the circuit is reached,
at every depth, and two of them by one name exactly if they are equal. A composite that differs from itself, because an
angle in it has no value, gets a definition of its own wherever it stands. -/

namespace CircuitCloak

mutual

/-- The composites in a gate, at every depth, each before those inside it. -/
def Gate.units : Gate → List Composite
  | .elementary _ _ => []
  | .composite ⟨name, arity, body⟩ _ => ⟨name, arity, body⟩ :: Application.unitsBody body

def Application.unitsBody : List Application → List Composite
  | [] => []
  | ⟨gate, _⟩ :: rest => gate.units ++ Application.unitsBody rest

end

def Instruction.units : Instruction → List Composite
  | .gate call _ => call.gate.units
  | _ => []

namespace Qasm

/-- A composite and the name by which it is called. -/
structure NamedUnit where
  name : String
  unit : Composite

mutual

/-- The composites of a gate with the names by which the text calls them: each call is followed into the definition of
its name. -/
def namedUnits (gates : List WrittenGate) : Callee → Gate → List NamedUnit
  | .defined name, .composite ⟨base, arity, body⟩ _ =>
    ⟨name, ⟨base, arity, body⟩⟩ ::
      match gates.find? (·.name == name) with
      | some gate => namedUnitsBody gates gate.calls body
      | none => []
  | _, _ => []

def namedUnitsBody (gates : List WrittenGate) : List WrittenCall → List Application → List NamedUnit
  | call :: calls, ⟨gate, _⟩ :: rest => namedUnits gates call.callee gate ++ namedUnitsBody gates calls rest
  | _, _ => []

end

def WrittenInstruction.namedUnits (gates : List WrittenGate) : WrittenInstruction → Instruction → List NamedUnit
  | .call written, .gate ⟨gate, _⟩ _ => Qasm.namedUnits gates written.callee gate
  | _, _ => []

/-- All composites of a circuit with the names by which its listing calls them. -/
def Listing.namedUnits (listing : Listing) (circuit : Circuit) : List NamedUnit :=
  (List.zipWith (WrittenInstruction.namedUnits listing.gates) listing.body circuit.instructions.toList).flatten

/-- Two composites are called by one name exactly if they are equal. -/
def Consistent (first second : NamedUnit) : Prop :=
  first.name = second.name ↔ (first.unit == second.unit) = true

theorem Alike.beq {first second : Composite} (alike : Alike first second) (self : (second == second) = true) :
    (first == second) = true := by
  rcases alike with rfl | same
  · exact self
  · exact same

/-- What differs from itself shares no definition. -/
theorem Alike.own {first second : Composite} (alike : Alike first second) (apart : (second == second) = false) :
    first = second := by
  rcases alike with rfl | same
  · rfl
  · exact absurd (BEq.trans (BEq.symm same) same) (Bool.eq_false_iff.mp apart)

/-- A callee stands for a gate. -/
inductive Refers (gates : List WrittenGate) : Callee → Gate → Prop
  | elementary (kind : Elementary) (label : Option String) : Refers gates (.elementary kind) (.elementary kind label)
  | defined (gate : WrittenGate) {composite : Composite} (label : Option String) (listed : gate ∈ gates)
    (alike : Alike gate.composite composite) : Refers gates (.defined gate.name) (.composite composite label)

theorem Refers.extend {gates more : List WrittenGate} {callee : Callee} {gate : Gate}
    (refers : Refers gates callee gate) (included : gates ⊆ more) : Refers more callee gate := by
  cases refers with
  | elementary kind label => exact .elementary kind label
  | defined gate label listed alike => exact .defined gate label (included listed) alike

theorem Refers.known {gates : List WrittenGate} {callee : Callee} {gate : Gate}
    (refers : Refers gates.reverse callee gate) (dialect : Dialect) : isBuiltin (calleeName dialect callee) = true ∨
      ∃ definition ∈ gates, definition.name = calleeName dialect callee := by
  cases refers with
  | elementary kind label =>
    left
    cases dialect <;> cases kind <;> rfl
  | defined gate label listed alike => exact .inr ⟨gate, List.mem_reverse.mp listed, rfl⟩

/-- A definition that can be added to earlier ones. -/
structure Enters (earlier : List WrittenGate) (gate : WrittenGate) : Prop where
  named : gate.name = freeName earlier gate.composite.name
  fresh : ∀ other ∈ earlier, (other.composite == gate.composite) = false
  calls : List.Forall₂ (fun call application => Refers earlier call.callee application.gate) gate.calls
    gate.composite.body

theorem Enters.free {earlier : List WrittenGate} {gate : WrittenGate} (enters : Enters earlier gate) :
    isTaken earlier gate.name = false := by
  rw [enters.named]
  exact isTaken_freeName earlier gate.composite.name

/-- Definitions in the order in which they were added, last first. -/
inductive Table : List WrittenGate → Prop
  | nil : Table []
  | cons {earlier : List WrittenGate} {gate : WrittenGate} (enters : Enters earlier gate) (table : Table earlier) :
    Table (gate :: earlier)

namespace Table

variable {table front back : List WrittenGate} {first second gate : WrittenGate}

theorem suffix (whole : Table table) (part : back <:+ table) : Table back := by
  induction whole with
  | nil => exact List.suffix_nil.mp part ▸ .nil
  | cons enters earlier ih =>
    rcases List.suffix_cons_iff.mp part with rfl | inner
    · exact .cons enters earlier
    · exact ih inner

theorem enters (whole : Table (front ++ gate :: back)) : Enters back gate := by
  cases whole.suffix (List.suffix_append front (gate :: back)) with
  | cons enters _ => exact enters

theorem own (whole : Table table) (listed : gate ∈ table) : isBuiltin gate.name = false := by
  obtain ⟨front, back, rfl⟩ := List.append_of_mem listed
  exact isBuiltin_of_free whole.enters.free

theorem calls (whole : Table table) (listed : gate ∈ table) : List.Forall₂
    (fun call application => Refers table call.callee application.gate) gate.calls gate.composite.body := by
  obtain ⟨front, back, rfl⟩ := List.append_of_mem listed
  refine whole.enters.calls.imp fun _ _ refers => refers.extend fun other member => ?_
  exact List.mem_append_right front (List.mem_cons_of_mem _ member)

theorem distinct (whole : Table table) : (table.map (·.name)).Nodup := by
  induction whole with
  | nil => exact List.nodup_nil
  | cons enters _ ih =>
    refine List.nodup_cons.mpr ⟨fun member => ?_, ih⟩
    obtain ⟨other, listed, same⟩ := List.mem_map.mp member
    exact ne_of_free enters.free other listed same

theorem eq_of_name (whole : Table table) (one : first ∈ table) (two : second ∈ table)
    (same : first.name = second.name) : first = second :=
  List.inj_on_of_nodup_map whole.distinct one two same

theorem eq_of_composite (whole : Table table) (one : first ∈ table) (two : second ∈ table)
    (same : (first.composite == second.composite) = true) : first = second := by
  induction whole with
  | nil => cases one
  | @cons earlier gate enters _ ih =>
    rcases List.mem_cons.mp one with rfl | former
    · rcases List.mem_cons.mp two with rfl | latter
      · rfl
      · exact absurd (BEq.symm same) (Bool.eq_false_iff.mp (enters.fresh second latter))
    · rcases List.mem_cons.mp two with rfl | latter
      · exact absurd same (Bool.eq_false_iff.mp (enters.fresh first former))
      · exact ih former latter

theorem apart (whole : Table (front ++ back)) (one : first ∈ front) (two : second ∈ back) :
    first.name ≠ second.name := by
  have nodup := whole.distinct
  rw [List.map_append] at nodup
  intro same
  exact (List.nodup_append.mp nodup).2.2 _ (List.mem_map_of_mem one) _ (List.mem_map_of_mem two) same

theorem find (whole : Table table) (listed : gate ∈ table) :
    table.reverse.find? (·.name == gate.name) = some gate := by
  cases found : table.reverse.find? (·.name == gate.name) with
  | none =>
    have missed := List.find?_eq_none.mp found gate (List.mem_reverse.mpr listed)
    exact absurd (beq_self_eq_true gate.name) missed
  | some other =>
    have member := List.mem_reverse.mp (List.mem_of_find?_eq_some found)
    have same := List.find?_some found
    exact congrArg some (whole.eq_of_name member listed (eq_of_beq same))

end Table

/-- How a composite has its name: by a definition that was made for an equal one, or by one of its own among those
that were added, if it differs from itself. -/
inductive Given (table added : List WrittenGate) : NamedUnit → Prop
  | shared (gate : WrittenGate) {unit : Composite} (listed : gate ∈ table) (same : (gate.composite == unit) = true) :
    Given table added ⟨gate.name, unit⟩
  | own (gate : WrittenGate) (listed : gate ∈ added) (apart : (gate.composite == gate.composite) = false) :
    Given table added ⟨gate.name, gate.composite⟩

theorem Given.extend {table added more : List WrittenGate} {named : NamedUnit} (given : Given table added named)
    (included : added ⊆ more) : Given table more named := by
  cases given with
  | shared gate listed same => exact .shared gate listed same
  | own gate listed apart => exact .own gate (included listed) apart

/-- Names that are given in different parts of a table are consistent. -/
theorem consistent_of_given {table former latter : List WrittenGate} {first second : NamedUnit} (whole : Table table)
    (one : Given table former first) (two : Given table latter second)
    (before : former ⊆ table) (after : latter ⊆ table)
    (apart : ∀ gate ∈ former, ∀ other ∈ latter, gate.name ≠ other.name) : Consistent first second := by
  cases one with
  | shared gate listed same =>
    cases two with
    | shared other member equal =>
      constructor
      · intro name
        cases whole.eq_of_name listed member name
        exact BEq.trans (BEq.symm same) equal
      · intro units
        have composites : (gate.composite == other.composite) = true :=
          BEq.trans same (BEq.trans units (BEq.symm equal))
        rw [whole.eq_of_composite listed member composites]
    | own other member differs =>
      constructor
      · intro name
        cases whole.eq_of_name listed (after member) name
        exact absurd (BEq.trans same (BEq.symm same)) (Bool.eq_false_iff.mp differs)
      · intro units
        exact absurd (BEq.trans (BEq.symm units) units) (Bool.eq_false_iff.mp differs)
  | own gate listed differs =>
    cases two with
    | shared other member equal =>
      constructor
      · intro name
        cases whole.eq_of_name (before listed) member name
        exact absurd (BEq.trans equal (BEq.symm equal)) (Bool.eq_false_iff.mp differs)
      · intro units
        exact absurd (BEq.trans units (BEq.symm units)) (Bool.eq_false_iff.mp differs)
    | own other member _ =>
      constructor
      · intro name
        exact absurd name (apart gate listed other member)
      · intro units
        exact absurd (BEq.trans units (BEq.symm units)) (Bool.eq_false_iff.mp differs)

mutual

/-- Below a definition that was made for an equal gate, every name is that of a definition made for an equal one. -/
theorem shared_namedUnits {table : List WrittenGate} (whole : Table table) : ∀ {callee : Callee} {other gate : Gate},
    Refers table callee other → other.beq gate = true →
    (namedUnits table.reverse callee gate).map (·.unit) = gate.units ∧
      ∀ named ∈ namedUnits table.reverse callee gate, Given table [] named
  | _, _, .elementary kind label, refers, same => by
    cases refers with
    | elementary =>
      rw [namedUnits, Gate.units]
      · exact ⟨rfl, List.forall_mem_nil _⟩
      · exact nofun
    | @defined _ composite =>
      obtain ⟨_, _, _⟩ := composite
      simp [Gate.beq] at same
  | _, _, .composite ⟨base, arity, body⟩ label, refers, same => by
    cases refers with
    | elementary => simp [Gate.beq] at same
    | @defined definition composite _ listed alike =>
      obtain ⟨name, size, run⟩ := composite
      rw [Gate.beq, Bool.and_eq_true] at same
      have equal : ((⟨name, size, run⟩ : Composite) == ⟨base, arity, body⟩) = true := same.1
      have made : (definition.composite == ⟨base, arity, body⟩) = true :=
        BEq.trans (alike.beq (BEq.trans equal (BEq.symm equal))) equal
      obtain ⟨units, given⟩ := shared_namedUnitsBody whole (whole.calls listed) (Composite.beq_iff.mp made).2.2
      rw [namedUnits, whole.find listed, Gate.units]
      refine ⟨by rw [List.map_cons, units], List.forall_mem_cons.mpr ⟨.shared definition listed made, given⟩⟩

theorem shared_namedUnitsBody {table : List WrittenGate} (whole : Table table) : ∀ {calls : List WrittenCall}
    {run body : List Application},
    List.Forall₂ (fun call application => Refers table call.callee application.gate) calls run →
    Application.beqList run body = true →
    (namedUnitsBody table.reverse calls body).map (·.unit) = Application.unitsBody body ∧
      ∀ named ∈ namedUnitsBody table.reverse calls body, Given table [] named
  | _, _, [], refers, same => by
    cases refers with
    | nil =>
      rw [namedUnitsBody, Application.unitsBody]
      · exact ⟨rfl, List.forall_mem_nil _⟩
      · exact nofun
    | cons => simp [Application.beqList] at same
  | _, _, ⟨gate, qubits⟩ :: rest, refers, same => by
    cases refers with
    | nil => simp [Application.beqList] at same
    | @cons call application calls run first others =>
      obtain ⟨other, operands⟩ := application
      rw [Application.beqList] at same
      simp only [Bool.and_eq_true] at same
      obtain ⟨units, given⟩ := shared_namedUnits whole first same.1.1
      obtain ⟨later, all⟩ := shared_namedUnitsBody whole others same.2
      rw [namedUnitsBody, Application.unitsBody, List.map_append, units, later]
      exact ⟨rfl, List.forall_mem_append.mpr ⟨given, all⟩⟩

end

mutual

/-- What is added for a gate is nested no deeper than the gate. -/
theorem shallow_callee : ∀ {gate : Gate} {gates : List WrittenGate}, ∀ definition ∈ (Gate.callee gate gates).2,
    definition ∈ gates ∨ definition.composite.depth ≤ gate.depth
  | .elementary _ _, _, definition, member => by
    rw [Gate.callee] at member
    exact .inl member
  | .composite ⟨base, arity, body⟩ _, gates, definition, member => by
    rw [Gate.callee] at member
    rw [Gate.depth]
    split at member
    next => exact .inl member
    next =>
      rcases List.mem_cons.mp member with rfl | inner
      · exact .inr (Nat.le_refl _)
      · exact (shallow_callees definition inner).imp_right fun within => Nat.le_succ_of_le within

theorem shallow_callees : ∀ {body : List Application} {gates : List WrittenGate},
    ∀ definition ∈ (Application.callees body gates).2,
      definition ∈ gates ∨ definition.composite.depth ≤ Application.depthBody body
  | [], _, definition, member => by
    rw [Application.callees] at member
    exact .inl member
  | ⟨gate, _⟩ :: rest, gates, definition, member => by
    rw [Application.callees] at member
    rw [Application.depthBody]
    rcases shallow_callees definition member with former | within
    · exact (shallow_callee definition former).imp_right fun within => Nat.le_trans within (Nat.le_max_left _ _)
    · exact .inr (Nat.le_trans within (Nat.le_max_right _ _))

end

theorem callee_of_absent {base : String} {arity : Nat} {body : List Application} {label : Option String}
    {gates : List WrittenGate} (absent : gates.reverse.find? (·.composite == ⟨base, arity, body⟩) = none) :
    Gate.callee (.composite ⟨base, arity, body⟩ label) gates =
      (.defined (freeName (Application.callees body gates).2 base),
        ⟨⟨base, arity, body⟩, freeName (Application.callees body gates).2 base, (Application.callees body gates).1⟩ ::
          (Application.callees body gates).2) := by
  rw [Gate.callee, absent]

theorem callees_cons (gate : Gate) (qubits : List Nat) (rest : List Application) (gates : List WrittenGate) :
    Application.callees (⟨gate, qubits⟩ :: rest) gates =
      (⟨(Gate.callee gate gates).1, qubits⟩ :: (Application.callees rest (Gate.callee gate gates).2).1,
        (Application.callees rest (Gate.callee gate gates).2).2) := by
  rw [Application.callees]

/-- A part of the text reaches all its composites, and names them consistently. -/
structure Reaches (whole added : List WrittenGate) (trace : List NamedUnit) (units : List Composite) : Prop where
  units : trace.map (·.unit) = units
  given : ∀ named ∈ trace, Given whole added named
  consistent : trace.Pairwise Consistent

/-- Definitions that are added to others, for a part of the text that then names its composites in every table that
this grows into. -/
structure Grows (gates added : List WrittenGate) (trace : List WrittenGate → List NamedUnit) (units : List Composite) :
    Prop where
  table : Table (added ++ gates)
  reaches : ∀ {whole : List WrittenGate}, Table whole → added ++ gates <:+ whole →
    Reaches whole added (trace whole.reverse) units

namespace Grows

variable {gates added more : List WrittenGate} {trace other : List WrittenGate → List NamedUnit}
  {units others : List Composite}

theorem nil (table : Table gates) : Grows gates [] (fun _ => []) [] :=
  ⟨table, fun _ _ => ⟨rfl, nofun, .nil⟩⟩

theorem append {result : List WrittenGate} (first : Grows gates added trace units)
    (second : Grows result more other others) (same : result = added ++ gates) :
    Grows gates (more ++ added) (fun whole => trace whole ++ other whole) (units ++ others) := by
  subst same
  refine ⟨List.append_assoc more added gates ▸ second.table, fun {whole} table suffix => ?_⟩
  rw [List.append_assoc] at suffix
  have one := first.reaches table ((List.suffix_append more _).trans suffix)
  have two := second.reaches table suffix
  refine ⟨by rw [List.map_append, one.units, two.units], List.forall_mem_append.mpr ⟨?_, ?_⟩,
    List.pairwise_append.mpr ⟨one.consistent, two.consistent, ?_⟩⟩
  · exact fun named member => (one.given named member).extend (List.subset_append_right more added)
  · exact fun named member => (two.given named member).extend (List.subset_append_left more added)
  intro former member latter later
  refine consistent_of_given table (one.given former member) (two.given latter later) ?_ ?_ ?_
  · exact fun gate listed => suffix.subset (List.mem_append_right more (List.mem_append_left gates listed))
  · exact fun gate listed => suffix.subset (List.mem_append_left _ listed)
  · intro gate listed definition last
    exact (second.table.apart last (List.mem_append_left gates listed)).symm

/-- A definition that is added last names its composite, and each inside it by an earlier name. -/
theorem define {body : List Application} {calls : List WrittenCall} {base name : String} {arity : Nat}
    (enters : Enters (added ++ gates) ⟨⟨base, arity, body⟩, name, calls⟩)
    (inner : Grows gates added (fun whole => namedUnitsBody whole calls body) units) (label : Option String) :
    Grows gates (⟨⟨base, arity, body⟩, name, calls⟩ :: added)
      (fun whole => namedUnits whole (.defined name) (.composite ⟨base, arity, body⟩ label))
      (⟨base, arity, body⟩ :: units) := by
  refine ⟨.cons enters inner.table, fun {whole} table suffix => ?_⟩
  have listed : ⟨⟨base, arity, body⟩, name, calls⟩ ∈ whole := suffix.subset List.mem_cons_self
  have below := inner.reaches table ((List.suffix_cons _ _).trans suffix)
  have own : Given whole [⟨⟨base, arity, body⟩, name, calls⟩] ⟨name, ⟨base, arity, body⟩⟩ := by
    cases same : ((⟨base, arity, body⟩ : Composite) == ⟨base, arity, body⟩) with
    | true => exact .shared ⟨⟨base, arity, body⟩, name, calls⟩ listed same
    | false => exact .own ⟨⟨base, arity, body⟩, name, calls⟩ List.mem_cons_self same
  rw [namedUnits, table.find listed]
  refine ⟨by rw [List.map_cons, below.units], List.forall_mem_cons.mpr ⟨?_, ?_⟩,
    List.pairwise_cons.mpr ⟨?_, below.consistent⟩⟩
  · exact own.extend (List.cons_subset_cons _ (List.nil_subset added))
  · exact fun named member => (below.given named member).extend (List.subset_cons_self _ added)
  intro named member
  refine consistent_of_given table own (below.given named member) ?_ ?_ ?_
  · exact List.cons_subset.mpr ⟨listed, List.nil_subset whole⟩
  · exact fun gate inside => suffix.subset (List.mem_cons_of_mem _ (List.mem_append_left gates inside))
  · intro gate last definition inside
    rw [List.mem_singleton.mp last]
    exact (ne_of_free enters.free definition (List.mem_append_left gates inside)).symm

end Grows

mutual

/-- A call that was found shares its definition; one that was not gets a definition, added after those of its body. -/
theorem grows_callee : ∀ (gate : Gate) {gates : List WrittenGate}, Table gates → ∃ added,
    (Gate.callee gate gates).2 = added ++ gates ∧ Refers (added ++ gates) (Gate.callee gate gates).1 gate ∧
      Grows gates added (fun whole => namedUnits whole (Gate.callee gate gates).1 gate) gate.units
  | .elementary kind label, gates, table => by
    refine ⟨[], ?_, ?_, ?_⟩
    · rw [Gate.callee, List.nil_append]
    · rw [Gate.callee]
      exact .elementary kind label
    · rw [Gate.callee, Gate.units]
      refine ⟨table, fun _ _ => ?_⟩
      rw [namedUnits]
      · exact ⟨rfl, nofun, .nil⟩
      · exact nofun
  | .composite ⟨base, arity, body⟩ label, gates, table => by
    cases found : gates.reverse.find? (·.composite == ⟨base, arity, body⟩) with
    | some definition =>
      have member : definition ∈ gates := List.mem_reverse.mp (List.mem_of_find?_eq_some found)
      have same := List.find?_some found
      have refers : ∀ {whole : List WrittenGate}, definition ∈ whole →
          Refers whole (.defined definition.name) (.composite ⟨base, arity, body⟩ label) :=
        fun listed => .defined definition label listed (.inr same)
      rw [Gate.callee, found]
      refine ⟨[], rfl, refers member, table, fun {whole} finished suffix => ?_⟩
      have proper : Gate.beq (.composite ⟨base, arity, body⟩ label) (.composite ⟨base, arity, body⟩ label) = true :=
        beq_composite (BEq.trans (BEq.symm same) same) label
      obtain ⟨units, given⟩ := shared_namedUnits finished (refers (suffix.subset member)) proper
      refine ⟨units, given, List.pairwise_of_forall_mem_list fun first one second two => ?_⟩
      exact consistent_of_given finished (given first one) (given second two) (List.nil_subset whole)
        (List.nil_subset whole) nofun
    | none =>
      obtain ⟨added, result, calls, inner⟩ := grows_callees body table
      rw [callee_of_absent found, result, Gate.units]
      have enters : Enters (added ++ gates)
          ⟨⟨base, arity, body⟩, freeName (added ++ gates) base, (Application.callees body gates).1⟩ := by
        refine ⟨rfl, fun other member => ?_, calls⟩
        have added : other ∈ (Application.callees body gates).2 := result ▸ member
        rcases shallow_callees other added with former | inside
        · exact Bool.eq_false_iff.mpr (List.find?_eq_none.mp found other (List.mem_reverse.mpr former))
        · refine Bool.eq_false_iff.mpr fun same => ?_
          rw [Composite.depth_eq_of_beq same] at inside
          exact Nat.not_succ_le_self _ inside
      exact ⟨_, rfl, .defined _ label List.mem_cons_self (.inl rfl), inner.define enters label⟩

theorem grows_callees : ∀ (body : List Application) {gates : List WrittenGate}, Table gates → ∃ added,
    (Application.callees body gates).2 = added ++ gates ∧
      List.Forall₂ (fun call application => Refers (added ++ gates) call.callee application.gate)
        (Application.callees body gates).1 body ∧
      Grows gates added (fun whole => namedUnitsBody whole (Application.callees body gates).1 body)
        (Application.unitsBody body)
  | [], gates, table => by
    refine ⟨[], ?_, ?_, ?_⟩
    · rw [Application.callees, List.nil_append]
    · rw [Application.callees]
      exact .nil
    · rw [Application.callees, Application.unitsBody]
      exact .nil table
  | ⟨gate, qubits⟩ :: rest, gates, table => by
    obtain ⟨added, result, refers, grows⟩ := grows_callee gate table
    obtain ⟨more, later, calls, grown⟩ := grows_callees rest grows.table
    rw [callees_cons, result]
    refine ⟨more ++ added, ?_, ?_, ?_⟩
    · rw [later, List.append_assoc]
    · rw [List.append_assoc]
      exact .cons (refers.extend (List.subset_append_right _ _)) calls
    · rw [Application.unitsBody]
      exact grows.append grown rfl

end

theorem grows_written (instruction : Instruction) {gates : List WrittenGate} (table : Table gates) : ∃ added,
    (Instruction.written instruction gates).2 = added ++ gates ∧
      (∀ call, (Instruction.written instruction gates).1 = .call call →
        ∃ gate, Refers (added ++ gates) call.callee gate) ∧
      Grows gates added (fun whole => (Instruction.written instruction gates).1.namedUnits whole instruction)
        instruction.units := by
  cases instruction with
  | gate call =>
    obtain ⟨gate, qubits⟩ := call
    obtain ⟨added, result, refers, grows⟩ := grows_callee gate table
    refine ⟨added, result, fun call same => ⟨gate, ?_⟩, grows⟩
    cases same
    exact refers
  | measure | reset | barrier => exact ⟨[], rfl, nofun, .nil table⟩

/-- Instructions that were written, with the definitions that they needed. -/
structure Noted (gates : List WrittenGate) (body : List WrittenInstruction) (instructions : List Instruction) :
    Prop where
  length : body.length = instructions.length
  calls : ∀ call, .call call ∈ body → ∃ gate, Refers gates call.callee gate
  grows : Grows [] gates (fun whole => (List.zipWith (WrittenInstruction.namedUnits whole) body instructions).flatten)
    (instructions.flatMap Instruction.units)

theorem Noted.table {gates : List WrittenGate} {body : List WrittenInstruction} {instructions : List Instruction}
    (noted : Noted gates body instructions) : Table gates := List.append_nil gates ▸ noted.grows.table

theorem Noted.push {gates : List WrittenGate} {body : List WrittenInstruction} {instructions : List Instruction}
    (noted : Noted gates body instructions) (instruction : Instruction) :
    Noted (Instruction.written instruction gates).2 (body ++ [(Instruction.written instruction gates).1])
      (instructions ++ [instruction]) := by
  obtain ⟨added, result, calls, grows⟩ := grows_written instruction noted.table
  rw [result]
  refine ⟨?_, fun call member => ?_, ?_⟩
  · rw [List.length_append, List.length_append, noted.length, List.length_singleton, List.length_singleton]
  · rcases List.mem_append.mp member with former | last
    · obtain ⟨gate, refers⟩ := noted.calls call former
      exact ⟨gate, refers.extend (List.subset_append_right added gates)⟩
    · exact calls call (List.mem_singleton.mp last).symm
  · have both := noted.grows.append grows (List.append_nil gates).symm
    simp only [List.zipWith_append noted.length, List.flatten_append, List.flatMap_append, List.zipWith_cons_cons,
      List.zipWith_nil_left, List.flatten_cons, List.flatten_nil, List.append_nil, List.flatMap_cons, List.flatMap_nil]
    exact both

theorem noted_foldl (instructions : List Instruction) {done : List Instruction} {body : List WrittenInstruction}
    {gates : List WrittenGate} (noted : Noted gates body.reverse done) :
    let result := instructions.foldl (fun (state : List WrittenInstruction × List WrittenGate) instruction =>
      ((Instruction.written instruction state.2).1 :: state.1, (Instruction.written instruction state.2).2))
      (body, gates)
    Noted result.2 result.1.reverse (done ++ instructions) := by
  induction instructions generalizing done body gates with
  | nil =>
    rw [List.append_nil]
    exact noted
  | cons instruction rest ih =>
    have next : Noted (Instruction.written instruction gates).2
        ((Instruction.written instruction gates).1 :: body).reverse (done ++ [instruction]) := by
      rw [List.reverse_cons]
      exact noted.push instruction
    have later := ih next
    rwa [List.append_assoc] at later

theorem noted_ofCircuit (circuit : Circuit) :
    Noted (Listing.ofCircuit circuit).gates.reverse (Listing.ofCircuit circuit).body circuit.instructions.toList := by
  have empty : Noted [] (List.reverse []) [] := ⟨rfl, nofun, .nil .nil⟩
  have whole := noted_foldl circuit.instructions.toList empty
  unfold Listing.ofCircuit writeAll
  rw [List.reverse_reverse]
  exact whole

theorem suffixedName_least (gates : List WrittenGate) (base : String) (fuel number : Nat) :
    ∃ found, number ≤ found ∧ suffixedName gates base fuel number = numbered base found ∧
      ∀ smaller, number ≤ smaller → smaller < found → isTaken gates (numbered base smaller) = true := by
  induction fuel generalizing number with
  | zero => exact ⟨number, Nat.le_refl _, rfl, fun smaller start below => absurd below (Nat.not_lt.mpr start)⟩
  | succ fuel ih =>
    rw [suffixedName]
    split
    next taken =>
      obtain ⟨found, past, same, least⟩ := ih (number + 1)
      refine ⟨found, Nat.le_of_succ_le past, same, fun smaller start below => ?_⟩
      rcases Nat.eq_or_lt_of_le start with rfl | later
      · exact taken
      · exact least smaller later below
    next => exact ⟨number, Nat.le_refl _, rfl, fun smaller start below => absurd below (Nat.not_lt.mpr start)⟩

/-- A name that is taken gets the first number with which it is free: the search for it ends. -/
theorem freeName_of_taken {gates : List WrittenGate} {base : String} (taken : isTaken gates base = true) :
    ∃ number, 0 < number ∧ freeName gates base = numbered base number ∧ isTaken gates (numbered base number) = false ∧
      ∀ smaller, 0 < smaller → smaller < number → isTaken gates (numbered base smaller) = true := by
  obtain ⟨number, positive, same, least⟩ := suffixedName_least gates base gates.length 1
  have given : freeName gates base = numbered base number := by
    rw [freeName, if_pos taken, same]
  exact ⟨number, positive, given, given ▸ isTaken_freeName gates base, least⟩

theorem paragraph_eq (lines : List String) : ∃ blank, paragraph lines = lines ++ blank ∧ ∀ line ∈ blank, line = "" := by
  unfold paragraph
  split
  next empty => exact ⟨[], by rw [List.isEmpty_iff.mp empty, List.append_nil], nofun⟩
  next => exact ⟨[""], rfl, fun line => List.mem_singleton.mp⟩

/-- Definitions stand in the text before the body, after a header and perhaps a fixed definition of `sxdg`. -/
theorem lines_eq (dialect : Dialect) (listing : Listing) : ∃ header registers,
    listing.lines dialect = header ++ listing.gates.flatMap (WrittenGate.lines dialect) ++ registers ++
      listing.body.flatMap (WrittenInstruction.lines dialect) ∧
    (∀ line ∈ header, line ∈ headerLines dialect ∨ line = "gate sxdg a \x7b h a; sdg a; h a; \x7d") ∧
    (∀ line ∈ registers, line ∈ listing.registerLines dialect ∨ line = "") := by
  have prelude : ∀ line ∈ if listing.needsSxdg dialect then ["gate sxdg a \x7b h a; sdg a; h a; \x7d"] else [],
      line = "gate sxdg a \x7b h a; sdg a; h a; \x7d" := by
    split
    · exact fun line => List.mem_singleton.mp
    · exact nofun
  obtain ⟨blank, definitions, empty⟩ := paragraph_eq
    ((if listing.needsSxdg dialect then ["gate sxdg a \x7b h a; sdg a; h a; \x7d"] else []) ++
      listing.gates.flatMap (WrittenGate.lines dialect))
  obtain ⟨last, registers, ends⟩ := paragraph_eq (listing.registerLines dialect)
  refine ⟨headerLines dialect ++ (if listing.needsSxdg dialect then ["gate sxdg a \x7b h a; sdg a; h a; \x7d"] else []),
    blank ++ (listing.registerLines dialect ++ last), ?_, ?_, ?_⟩
  · rw [Listing.lines, definitions, registers]
    simp only [List.append_assoc]
  · exact List.forall_mem_append.mpr ⟨fun line => .inl, fun line member => .inr (prelude line member)⟩
  · refine List.forall_mem_append.mpr ⟨fun line member => .inr (empty line member), ?_⟩
    exact List.forall_mem_append.mpr ⟨fun line => .inl, fun line member => .inr (ends line member)⟩

structure Listing.Named (dialect : Dialect) (circuit : Circuit) (listing : Listing) : Prop where
  distinct : (listing.gates.map (·.name)).Nodup
  own : ∀ gate ∈ listing.gates, isBuiltin gate.name = false
  chosen : ∀ before gate after, listing.gates = before ++ gate :: after →
    gate.name = freeName before.reverse gate.composite.name
  earlier : ∀ before gate after, listing.gates = before ++ gate :: after → ∀ call ∈ gate.calls,
    isBuiltin (calleeName dialect call.callee) = true ∨
      ∃ definition ∈ before, definition.name = calleeName dialect call.callee
  defined : ∀ call, .call call ∈ listing.body → isBuiltin (calleeName dialect call.callee) = true ∨
    ∃ definition ∈ listing.gates, definition.name = calleeName dialect call.callee
  reached : (listing.namedUnits circuit).map (·.unit) = circuit.instructions.toList.flatMap Instruction.units
  consistent : (listing.namedUnits circuit).Pairwise Consistent

theorem named_ofCircuit (dialect : Dialect) (circuit : Circuit) :
    (Listing.ofCircuit circuit).Named dialect circuit := by
  have noted := noted_ofCircuit circuit
  have table := noted.table
  have ends : (Listing.ofCircuit circuit).gates.reverse ++ [] <:+ (Listing.ofCircuit circuit).gates.reverse := by
    rw [List.append_nil]
  have reaches := noted.grows.reaches table ends
  have enters : ∀ before gate after, (Listing.ofCircuit circuit).gates = before ++ gate :: after →
      Enters before.reverse gate := by
    intro before gate after same
    rw [same, List.reverse_append, List.reverse_cons, List.append_assoc] at table
    exact table.enters
  rw [List.reverse_reverse] at reaches
  refine ⟨?_, ?_, ?_, ?_, ?_, reaches.units, reaches.consistent⟩
  · exact List.nodup_reverse.mp (List.map_reverse ▸ table.distinct)
  · exact fun gate listed => table.own (List.mem_reverse.mpr listed)
  · exact fun before gate after same => (enters before gate after same).named
  · intro before gate after same call member
    obtain ⟨application, _, refers⟩ := exists_mem_of_forall₂ (enters before gate after same).calls.flip member
    exact refers.known dialect
  · intro call member
    obtain ⟨gate, refers⟩ := noted.calls call member
    exact refers.known dialect

end Qasm

end CircuitCloak

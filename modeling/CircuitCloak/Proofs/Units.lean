import CircuitCloak.Proofs.Wrapping

/-! Composites that are well formed at every depth. Making or wrapping a composite checks one level, and
its parts were checked before; so an expansion never leaves the operands of the call, and each gate in it
has as many of them as it takes. -/

namespace CircuitCloak

mutual

/-- Every call in a gate, however deep, fits the local qubits of the composite that holds it. -/
def Gate.WellFormed : Gate → Prop
  | .elementary _ _ => True
  | .composite ⟨_, arity, body⟩ _ => Application.WellFormedBody arity body

def Application.WellFormedBody (arity : Nat) : List Application → Prop
  | [] => True
  | ⟨gate, qubits⟩ :: rest =>
    (qubits.length = gate.arity ∧ Operands arity qubits ∧ gate.WellFormed) ∧
      Application.WellFormedBody arity rest

end

/-- A gate that fits a register, with parts that are well formed. -/
structure Application.Valid (limit : Nat) (call : Application) : Prop where
  length : call.qubits.length = call.gate.arity
  operands : Operands limit call.qubits
  gate : call.gate.WellFormed

theorem Application.wellFormedBody_iff {arity : Nat} {body : List Application} :
    Application.WellFormedBody arity body ↔ ∀ call ∈ body, call.Valid arity := by
  induction body with
  | nil => simp [WellFormedBody]
  | cons call rest ih =>
    obtain ⟨gate, qubits⟩ := call
    rw [WellFormedBody, ih, List.forall_mem_cons]
    exact and_congr_left' ⟨fun ⟨length, operands, parts⟩ => ⟨length, operands, parts⟩,
      fun valid => ⟨valid.length, valid.operands, valid.gate⟩⟩

theorem Composite.wellFormed_of_ofInstructions {name : String} {arity : Nat} {body : List Instruction}
    {composite : Composite}
    (parts : ∀ call, .gate call [] ∈ body → call.qubits.length = call.gate.arity ∧ call.gate.WellFormed)
    (made : ofInstructions name arity body = .ok composite) (label : Option String) :
    (Gate.composite composite label).WellFormed := by
  obtain ⟨calls, rfl, fits, rfl⟩ := ofInstructions_eq_ok_iff.mp made
  rw [Gate.WellFormed, Application.wellFormedBody_iff]
  intro call member
  obtain ⟨length, deep⟩ := parts call (List.mem_map_of_mem member)
  exact ⟨length, (fits call member).operands, deep⟩

/-- An elementary gate of an expansion, on operands of the call. -/
structure Application.Leaf (limit : Nat) (operands : List Nat) (call : Application) : Prop where
  elementary : ∃ kind label, call.gate = .elementary kind label
  length : call.qubits.length = call.gate.arity
  inside : Operands limit call.qubits
  among : ∀ qubit ∈ call.qubits, qubit ∈ operands

theorem mapOperands_mem {operands locals : List Nat} (inside : ∀ place ∈ locals, place < operands.length) :
    ∀ qubit ∈ mapOperands operands locals, qubit ∈ operands := by
  intro qubit member
  obtain ⟨place, within, rfl⟩ := List.mem_map.mp member
  rw [getD_of_lt (inside place within)]
  exact List.getElem_mem _

mutual

theorem Gate.leaf_of_expand {limit : Nat} : ∀ {gate : Gate} {operands : List Nat}, gate.WellFormed →
    operands.length = gate.arity → Operands limit operands →
    ∀ call ∈ gate.expand operands, call.Leaf limit operands
  | .elementary kind label, operands, _, length, inside => by
    rw [Gate.expand]
    exact List.forall_mem_singleton.mpr ⟨⟨kind, label, rfl⟩, length, inside, fun _ member => member⟩
  | .composite ⟨_, arity, body⟩ _, operands, parts, length, inside => by
    rw [Gate.expand]
    rw [Gate.WellFormed] at parts
    exact Application.leaf_of_expandBody parts length inside

theorem Application.leaf_of_expandBody {limit arity : Nat} : ∀ {body : List Application} {operands : List Nat},
    Application.WellFormedBody arity body → operands.length = arity → Operands limit operands →
    ∀ call ∈ Application.expandBody body operands, call.Leaf limit operands
  | [], _, _, _, _ => by
    rw [Application.expandBody]
    exact nofun
  | ⟨gate, qubits⟩ :: rest, operands, parts, length, inside => by
    rw [Application.WellFormedBody] at parts
    obtain ⟨⟨fits, locals, deep⟩, others⟩ := parts
    rw [Application.expandBody]
    refine List.forall_mem_append.mpr ⟨fun call member => ?_, Application.leaf_of_expandBody others length inside⟩
    have positions : Operands operands.length qubits := length ▸ locals
    have mapped : (mapOperands operands qubits).length = gate.arity := by rw [mapOperands, List.length_map, fits]
    have leaf := Gate.leaf_of_expand deep mapped (mapOperands_operands inside positions) call member
    exact ⟨leaf.elementary, leaf.length, leaf.inside,
      fun qubit named => mapOperands_mem positions.inside qubit (leaf.among qubit named)⟩

end

theorem Application.Valid.leaves {limit : Nat} {call : Application} (valid : call.Valid limit) :
    ∀ leaf ∈ call.expand, leaf.Leaf limit call.qubits :=
  Gate.leaf_of_expand valid.gate valid.length valid.operands

namespace Circuit

/-- Every instruction fits the registers, whose sizes are words, and every composite is well formed. -/
structure Valid (circuit : Circuit) : Prop where
  sound : circuit.Sound
  gates : ∀ call clbits, .gate call clbits ∈ circuit.instructions.toList → call.gate.WellFormed

theorem Valid.fits {circuit : Circuit} (valid : circuit.Valid) : circuit.Fits := valid.sound.fits

theorem Valid.call {circuit : Circuit} (valid : circuit.Valid) {call : Application} {clbits : List Nat}
    (member : .gate call clbits ∈ circuit.instructions.toList) : call.Valid circuit.numQubits := by
  have fits := valid.fits _ member
  exact ⟨fits.length_eq valid.sound.qubits, fits.operands, valid.gates call clbits member⟩

end Circuit

end CircuitCloak

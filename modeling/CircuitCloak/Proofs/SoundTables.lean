import CircuitCloak.Proofs.AcceptedTables

/-! What accepted tables promise: every gate in them is discrete, and every step has as many
operands as its gate, each once. Operands are compared as words, so that they lie below the arity of
the target is a promise of its own. -/

namespace CircuitCloak

namespace Elementary

/-- The arity of a gate depends on its kind alone. -/
theorem arity_eq_of_sameKind {first second : Elementary} (same : first.sameKind second = true) :
    first.arity = second.arity := by
  have named : ∀ gate : Elementary, gate.arity =
      if gate.name ∈ ["cx", "cy", "cz", "ch", "swap", "crz", "cp"] then 2
      else if gate.name ∈ ["ccx", "cswap"] then 3 else 1 := by
    intro gate
    cases gate <;> rfl
  rw [named first, named second, beq_iff_eq.mp same]

theorem inverse_of_isSelfInverse {gate : Elementary} (selfInverse : gate.isSelfInverse = true) :
    gate.inverse? = some gate := by
  cases gate <;> first | rfl | cases selfInverse

/-- Every discrete gate has an inverse of the same size, which is discrete too. -/
theorem inverse_of_discrete {gate : Elementary} (discrete : gate.isDiscrete = true) :
    ∃ inverse, gate.inverse? = some inverse ∧ inverse.isDiscrete = true ∧ inverse.arity = gate.arity := by
  cases gate <;> first | exact ⟨_, rfl, rfl, rfl⟩ | cases discrete

theorem discrete_of_inverse {gate inverse : Elementary} (found : gate.inverse? = some inverse) :
    gate.isDiscrete = true := by
  cases gate <;> first | rfl | cases found

end Elementary

namespace PlacedGate

/-- A step of an alternative fits its operands. -/
structure Sound (step : PlacedGate) : Prop where
  discrete : step.gate.isDiscrete = true
  length : step.operands.length = step.gate.arity
  distinct : step.operands.Nodup

/-- A step that words show to fit does so if its operands are inside. -/
theorem Suits.sound {step : PlacedGate} {target : Elementary} (suits : step.Suits wordSize target.arity)
    (inside : ∀ operand ∈ step.operands, operand < target.arity) : step.Sound :=
  ⟨suits.discrete, (wordSize_length suits.distinct inside).symm.trans suits.length, suits.distinct⟩

end PlacedGate

namespace EquivalenceRule

/-- A rule with an alternative, all of whose steps fit their operands. -/
structure Sound (rule : EquivalenceRule) : Prop where
  target : rule.target.isDiscrete = true
  alternatives : rule.alternatives ≠ []
  steps : ∀ alternative ∈ rule.alternatives, ∀ step ∈ alternative, step.Sound

end EquivalenceRule

namespace Library

/-- What a library must promise for every strategy to be safe with it. -/
structure Sound (library : Library) : Prop where
  rules : ∀ rule ∈ library.rules, rule.Sound
  identities : ∀ sequence ∈ library.identities, ∀ step ∈ sequence.steps, step.Sound
  injections : ∀ gate ∈ library.injections, gate.isDiscrete = true
  camouflage : ∀ gate ∈ library.camouflage, gate.isDiscrete = true ∧ gate.arity = 1

/-- Every step of a rule names operands that its target has. -/
def OperandsInside (library : Library) : Prop :=
  ∀ rule ∈ library.rules, ∀ alternative ∈ rule.alternatives, ∀ step ∈ alternative,
    ∀ operand ∈ step.operands, operand < rule.target.arity

theorem sound_of_validate {library : Library} (accepted : library.validate = .ok ())
    (inside : library.OperandsInside) : library.Sound := by
  have formed : library.WellFormedAs wordSize := validate_ok_iff.mp accepted
  refine ⟨?_, fun sequence member => (formed.identities sequence member).2, formed.injections, formed.camouflage⟩
  intro rule member
  obtain ⟨target, inhabited, alternatives⟩ := formed.rules rule member
  refine ⟨target, inhabited, fun alternative listed step within => ?_⟩
  exact ((alternatives alternative listed).2 step within).sound (inside rule member alternative listed step within)

theorem rule_of_found {library : Library} {gate : Elementary} {rule : EquivalenceRule}
    (found : library.rule? gate = some rule) :
    rule ∈ library.rules ∧ rule.target.arity = gate.arity := by
  have same := List.find?_some found
  exact ⟨List.mem_of_find?_eq_some found, Elementary.arity_eq_of_sameKind same⟩

/-- The gates that undo the camouflage are one-qubit gates without angles if those of the camouflage are. -/
theorem restore_of_camouflage {library : Library}
    (camouflage : ∀ gate ∈ library.camouflage, gate.isDiscrete = true ∧ gate.arity = 1) :
    ∀ gate ∈ library.restore, gate.isDiscrete = true ∧ gate.arity = 1 := by
  intro inverse member
  obtain ⟨gate, within, undone⟩ := List.mem_filterMap.mp member
  obtain ⟨discrete, arity⟩ := camouflage gate (List.mem_reverse.mp within)
  obtain ⟨other, found, otherDiscrete, otherArity⟩ := Elementary.inverse_of_discrete discrete
  cases undone.symm.trans found
  exact ⟨otherDiscrete, otherArity.trans arity⟩

theorem Sound.restore {library : Library} (sound : library.Sound) :
    ∀ gate ∈ library.restore, gate.isDiscrete = true ∧ gate.arity = 1 :=
  restore_of_camouflage sound.camouflage

theorem builtin_operandsInside : builtin.OperandsInside := by
  unfold OperandsInside
  decide

end Library

end CircuitCloak

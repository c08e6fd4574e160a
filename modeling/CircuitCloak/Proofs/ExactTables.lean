import CircuitCloak.Library.Builtin
import CircuitCloak.Proofs.Locality
import CircuitCloak.Proofs.SoundTables

/-! Tables that are exact: every alternative realises its target, and every sequence and block the
identity, up to a phase. What acts on the operands of a single gate is computed; sequences across pairs
are exact if the gates across the pairs undo each other from the outside in. -/

namespace CircuitCloak

open PlacedGate

def Elementary.placed (gate : Elementary) : PlacedGate := ⟨gate, List.range gate.arity⟩

/-- Every alternative does what the target does. -/
def EquivalenceRule.Exact (rule : EquivalenceRule) : Prop :=
  ∀ alternative ∈ rule.alternatives, Agree rule.target.arity alternative [rule.target.placed]

/-- Gates on one qubit that do nothing together. -/
def Idle (gates : List Elementary) : Prop := Agree 1 (onTarget gates) []

/-- A sequence does nothing if its gates on the qubit do, or if it stands between equal gates across the
pairs and the rest does nothing. -/
inductive Cancels : List IdentityStep → Prop where
  | onQubit (gates) (idle : Idle gates) : Cancels (gates.map .onQubit)
  | between (gate inner) (rest : Cancels inner) :
      Cancels (.acrossPairs gate :: inner ++ [.acrossPairs gate])

namespace Library

/-- Tables that leave the meaning of a program as it is. -/
structure Exact (library : Library) : Prop where
  rules : ∀ rule ∈ library.rules, rule.Exact
  identities : ∀ sequence ∈ library.identities, Cancels sequence.steps
  camouflage : Idle library.camouflage
  restore : Idle library.restore

instance (gates : List Elementary) : Decidable (Idle gates) :=
  inferInstanceAs (Decidable (Agree 1 (onTarget gates) []))

private theorem cancels_local (name : String) {gates : List Elementary} (idle : Idle gates) :
    Cancels (localSequence name gates).steps :=
  .onQubit gates idle

private theorem standardRules_exact : ∀ rule ∈ standardRules, rule.Exact := by
  unfold EquivalenceRule.Exact
  decide +kernel

private theorem standardIdentities_cancel : ∀ sequence ∈ standardIdentities, Cancels sequence.steps := by
  have ladder : ∀ gate, Cancels [.acrossPairs gate, .acrossPairs gate] :=
    fun gate => .between gate [] (.onQubit [] (by decide +kernel))
  have sandwich : Cancels [.acrossPairs .cz, .onQubit .h, .onQubit .h, .acrossPairs .cz] :=
    .between .cz [.onQubit .h, .onQubit .h] (.onQubit [.h, .h] (by decide +kernel))
  simp only [standardIdentities, List.forall_mem_cons]
  refine ⟨?_, ?_, ?_, ?_, ?_, ?_, ?_, ?_, ?_, ?_, ?_, ?_, ?_, ladder .cx, ladder .swap, sandwich, nofun⟩
  all_goals exact cancels_local _ (by decide +kernel)

theorem builtin_exact : builtin.Exact where
  rules := standardRules_exact
  identities := standardIdentities_cancel
  camouflage := by decide +kernel
  restore := by decide +kernel

end Library

theorem Elementary.agreeBy_of_inverse {gate inverse : Elementary} (undone : gate.inverse? = some inverse) :
    AgreeBy 0 gate.arity [gate.placed, inverse.placed] [] := by
  cases gate <;> cases undone <;> decide +kernel

theorem Elementary.eq_of_sameKind {first second : Elementary} (same : first.sameKind second = true)
    (one : first.isDiscrete = true) (other : second.isDiscrete = true) : first = second := by
  have named : ∀ gate : Elementary, gate.isDiscrete = true → ofName? gate.name = some gate := by
    intro gate discrete
    cases gate <;> first | rfl | cases discrete
  have found := named first one
  rw [beq_iff_eq.mp same, named second other] at found
  exact (Option.some.inj found).symm

end CircuitCloak

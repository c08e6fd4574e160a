import CircuitCloak.Proofs.BoundarySafety
import Mathlib.Algebra.BigOperators.Ring.List
import Mathlib.Tactic.Ring

/-! What padding puts around a body. Chance orders the sequences of a qubit and does nothing else: every output
is a rearrangement of the one where they stand as in the catalog, so that its size is known in advance. -/

namespace CircuitCloak

namespace IdentityStep

def isOnQubit : IdentityStep → Bool
  | onQubit _ => true
  | acrossPairs _ => false

def isAcrossPairs : IdentityStep → Bool
  | onQubit _ => false
  | acrossPairs _ => true

end IdentityStep

namespace Padding
open CircuitCloak.Random

/-- All sequences for every qubit, as the catalog lists them. -/
def unshuffled (library : Library) (frame : Frame) : List Instruction :=
  frame.qubits.flatMap fun qubit => library.identities.flatMap (emit frame qubit)

theorem perm_unshuffled {library : Library} {frame : Frame} {output : List Instruction}
    (padded : Concatenation (Padded library frame) frame.qubits output) : output.Perm (unshuffled library frame) := by
  refine padded.congruence (.refl []) List.Perm.append fun qubit _ run emitted => ?_
  obtain ⟨order, permuted, rfl⟩ := emitted
  exact permuted.flatMap_right _

theorem length_emit (frame : Frame) (qubit : Nat) (sequence : IdentitySequence) :
    (emit frame qubit sequence).length =
      sequence.steps.countP (·.isOnQubit) + frame.numQubits / 2 * sequence.steps.countP (·.isAcrossPairs) := by
  unfold emit
  induction sequence.steps with
  | nil => rfl
  | cons step rest ih =>
    rw [List.flatMap_cons, List.length_append, ih, List.countP_cons, List.countP_cons]
    cases step with
    | onQubit gate =>
      simp [emitStep, IdentityStep.isOnQubit, IdentityStep.isAcrossPairs]
      ring
    | acrossPairs gate =>
      simp [emitStep, pairs, IdentityStep.isOnQubit, IdentityStep.isAcrossPairs]
      ring

/-- The gates of one side: a step puts one on its qubit or one on every pair, for each of the qubits. -/
def sideSize (library : Library) (frame : Frame) : Nat :=
  (library.identities.map fun sequence =>
    frame.numQubits * sequence.steps.countP (·.isOnQubit) +
      frame.numQubits * (frame.numQubits / 2) * sequence.steps.countP (·.isAcrossPairs)).sum

theorem length_unshuffled (library : Library) (frame : Frame) :
    (unshuffled library frame).length = sideSize library frame := by
  have onQubit (qubit : Nat) : (library.identities.flatMap (emit frame qubit)).length =
      (library.identities.map fun sequence => sequence.steps.countP (·.isOnQubit) +
        frame.numQubits / 2 * sequence.steps.countP (·.isAcrossPairs)).sum := by
    simp only [List.length_flatMap, length_emit]
  rw [unshuffled, List.length_flatMap, List.map_congr_left fun qubit _ => onQubit qubit, List.map_const',
    List.sum_replicate_nat, Frame.qubits, List.length_range, ← List.sum_map_mul_left, sideSize]
  exact congrArg List.sum (List.map_congr_left fun sequence _ => by rw [Nat.mul_add, Nat.mul_assoc])

theorem perm_of_surrounded {library : Library} {body output : List Instruction} {frame : Frame}
    (surrounded : Surrounded library body frame output) :
    output.Perm (unshuffled library frame ++ body ++ unshuffled library frame) := by
  obtain ⟨leading, trailing, rfl, before, after⟩ := surrounded
  exact ((perm_unshuffled before).append_right body).append (perm_unshuffled after)

theorem length_of_surrounded {library : Library} {body output : List Instruction} {frame : Frame}
    (surrounded : Surrounded library body frame output) :
    output.length = body.length + 2 * sideSize library frame := by
  rw [(perm_of_surrounded surrounded).length_eq, List.length_append, List.length_append, length_unshuffled]
  ring

/-- Padding fails only where an instruction does not fit; what it builds has the body between two paddings. -/
theorem apply_taken {library : Library}
    (identities : ∀ sequence ∈ library.identities, ∀ step ∈ sequence.steps, step.Sound) (circuit : Circuit)
    {σ : Type} [WordSource σ] (source : σ) :
    ((∃ output, ((apply circuit library : Transform σ Circuit).run source).1 = .ok output) ↔ circuit.Fits) ∧
      ∀ output, ((apply circuit library : Transform σ Circuit).run source).1 = .ok output →
        output = circuit.rebuilt output.body ∧ Surrounded library circuit.body circuit.frame output.body := by
  obtain ⟨body, surrounded, reached⟩ := apply_outcomes circuit library source
  have made : ((apply circuit library : Transform σ Circuit).run source).1 = circuit.withBody body := reached
  have kept := mem_of_surrounded surrounded
  have placeable := fun fits : circuit.Fits => placeable_of_surrounded identities (placeable_body fits) surrounded
  rw [made]
  refine ⟨Circuit.withBody_ok_iff_fits kept placeable, fun output done => ?_⟩
  obtain ⟨built, same⟩ := Circuit.body_of_kept kept placeable done
  rw [same]
  exact ⟨built, surrounded⟩

/-- Padding surrounds the body with the whole catalog, once on each side for every qubit; how much it puts in,
and which instructions, does not depend on the words that are drawn. -/
theorem apply_rearranged {library : Library} (validated : library.validate = .ok ()) (circuit : Circuit)
    {σ τ : Type} [WordSource σ] [WordSource τ] (source : σ) (other : τ) :
    ((∃ output, ((apply circuit library : Transform σ Circuit).run source).1 = .ok output) ↔ circuit.Fits) ∧
      (∀ output, ((apply circuit library : Transform σ Circuit).run source).1 = .ok output →
        (∃ leading trailing, output.body = leading ++ circuit.body ++ trailing ∧
          Concatenation (Padded library circuit.frame) circuit.frame.qubits leading ∧
          Concatenation (Padded library circuit.frame) circuit.frame.qubits trailing) ∧
        output.body.length = circuit.body.length + 2 * (library.identities.map fun sequence =>
          circuit.numQubits * sequence.steps.countP (·.isOnQubit) +
            circuit.numQubits * (circuit.numQubits / 2) * sequence.steps.countP (·.isAcrossPairs)).sum) ∧
      ∀ first second, ((apply circuit library : Transform σ Circuit).run source).1 = .ok first →
        ((apply circuit library : Transform τ Circuit).run other).1 = .ok second →
        first.instructions.toList.Perm second.instructions.toList := by
  have identities := fun sequence member => ((Library.validate_ok_iff.mp validated).identities sequence member).2
  obtain ⟨taken, built⟩ := apply_taken identities circuit source
  refine ⟨taken, fun output done => ?_, fun first second here there => ?_⟩
  · obtain ⟨_, surrounded⟩ := built output done
    exact ⟨surrounded, length_of_surrounded surrounded⟩
  · obtain ⟨left, surrounded⟩ := built first here
    obtain ⟨right, otherwise⟩ := (apply_taken identities circuit other).2 second there
    rw [left, right]
    exact ((perm_of_surrounded surrounded).trans (perm_of_surrounded otherwise).symm).append_right _

/-- A sequence on one qubit, and one on all pairs of qubits. -/
def ladders : Library where
  rules := []
  identities := [⟨"hh", [.onQubit .h, .onQubit .h]⟩, ⟨"cx-ladder", [.acrossPairs .cx, .acrossPairs .cx]⟩]
  injections := []
  camouflage := [.h]

/-- An odd register: its last qubit has no partner. -/
def odd : Circuit := ⟨"odd", 3, 0, #[.elementary .x [2]]⟩

theorem apply_rearranged_ladders : ladders.validate = .ok () ∧
    ∃ first second, ((apply odd ladders : Transform SplitMix Circuit).run ⟨0⟩).1 = .ok first ∧
      ((apply odd ladders : Transform SplitMix Circuit).run ⟨1⟩).1 = .ok second ∧
      first.body.length = 1 + 2 * (3 * 2 + 3 * 1 * 2) ∧
      first.instructions.toList.Perm second.instructions.toList := by
  have validated : ladders.validate = .ok () := by decide
  have fits : odd.Fits := by
    intro instruction member
    have same : instruction = .elementary .x [2] := by simpa [odd] using member
    rw [same]
    exact (placeable_elementary rfl (operands_singleton (by decide)) : Placeable odd.frame _).fits
  obtain ⟨taken, sizes, rearranged⟩ := apply_rearranged validated odd (⟨0⟩ : SplitMix) (⟨1⟩ : SplitMix)
  obtain ⟨first, here⟩ := taken.mpr fits
  obtain ⟨second, there⟩ := (apply_rearranged validated odd (⟨1⟩ : SplitMix) (⟨0⟩ : SplitMix)).1.mpr fits
  exact ⟨validated, first, second, here, there, (sizes first here).2, rearranged first second here there⟩

end Padding
end CircuitCloak

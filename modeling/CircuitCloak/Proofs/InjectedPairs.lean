import CircuitCloak.Proofs.UnitaryPreservation

/-! Injection changes a program in text only. What stands between the instructions of the body is made of
gates that their inverses follow at once, on the same operands; without these pairs the output is the body,
and with them it does exactly the same to every state, whatever the catalog of gates. -/

namespace CircuitCloak.Injection
open CircuitCloak.Random

variable {library : Library} {frame : Frame}

/-- The second run is the first one without some adjacent pairs of a gate to inject and its inverse, on
operands that fit the register. -/
inductive Erased (library : Library) (frame : Frame) : List Instruction → List Instruction → Prop where
  | nil : Erased library frame [] []
  | kept {output body} (instruction : Instruction) (rest : Erased library frame output body) :
      Erased library frame (instruction :: output) (instruction :: body)
  | pair {output body gate inverse operands} (listed : gate ∈ library.injections)
      (undone : gate.inverse? = some inverse) (length : operands.length = gate.arity)
      (fits : Operands frame.numQubits operands) (rest : Erased library frame output body) :
      Erased library frame (.elementary gate operands :: .elementary inverse operands :: output) body

namespace Erased

theorem append {first second third fourth : List Instruction} (one : Erased library frame first second)
    (two : Erased library frame third fourth) : Erased library frame (first ++ third) (second ++ fourth) := by
  induction one with
  | nil => exact two
  | kept instruction _ ih => exact .kept instruction ih
  | pair listed undone length fits _ ih => exact .pair listed undone length fits ih

theorem nil_of_concatenation {α : Type} {part : α → List Instruction → Prop} {items : List α}
    {output : List Instruction} (whole : Concatenation part items output)
    (pairs : ∀ item ∈ items, ∀ run, part item run → Erased library frame run []) : Erased library frame output [] := by
  have together : Erased library frame output (items.flatMap fun _ => []) := whole.congruence .nil append pairs
  rwa [List.flatMap_eq_nil_iff.mpr fun _ _ => rfl] at together

end Erased

theorem erased_of_pair {qubit : Nat} (inside : qubit < frame.numQubits) {gate : Elementary}
    (listed : gate ∈ library.injections) {run : List Instruction} (pair : Pair frame qubit gate run) :
    Erased library frame run [] := by
  cases pair with
  | absent => exact .nil
  | onQubit undone single => exact .pair listed undone single.symm (operands_singleton inside) .nil
  | sampled undone sample => exact .pair listed undone sample.length ⟨sample.inside, sample.distinct⟩ .nil

theorem erased_of_passed {output : List Instruction} (passed : Passed library frame output) :
    Erased library frame output [] := by
  refine Erased.nil_of_concatenation passed fun qubit member run injected => ?_
  obtain ⟨order, permuted, parts⟩ := injected
  exact Erased.nil_of_concatenation parts fun gate listed _ pair =>
    erased_of_pair (Frame.mem_qubits.mp member) (permuted.mem_iff.mp listed) pair

/-- What a pass puts in front of an instruction or behind it: pairs only, and none where no pass is made. -/
structure Pairs (library : Library) (frame : Frame) (made : Bool) (run : List Instruction) : Prop where
  erased : Erased library frame run []
  absent : made = false → run = []

theorem pairs_of_passedIf {condition : Bool} {output : List Instruction}
    (passed : PassedIf library frame condition output) : Pairs library frame condition output := by
  unfold PassedIf at passed
  split at passed
  next made => exact ⟨erased_of_passed passed, fun absent => absurd made (Bool.eq_false_iff.mp absent)⟩
  next =>
    subst passed
    exact ⟨.nil, fun _ => rfl⟩

/-- An instruction between the pairs of the passes at the boundaries of its segment. -/
def Bordered (library : Library) (frame : Frame) (length : Nat) (entry : Instruction × Nat) (run : List Instruction) :
    Prop :=
  ∃ before after, run = before ++ entry.1 :: after ∧ Pairs library frame (opens length entry.2) before ∧
    Pairs library frame (closes length entry.2) after

theorem bordered_of_segmented {body output : List Instruction} (segmented : Segmented library body frame output) :
    Concatenation (Bordered library frame (segmentSize body.length)) body.zipIdx output := by
  refine segmented.mono fun entry _ run surrounded => ?_
  obtain ⟨before, after, rfl, opened, closed⟩ := surrounded
  exact ⟨before, after, rfl, pairs_of_passedIf opened, pairs_of_passedIf closed⟩

theorem erased_of_bordered {length : Nat} {body output : List Instruction}
    (bordered : Concatenation (Bordered library frame length) body.zipIdx output) :
    Erased library frame output body := by
  have together : Erased library frame output (body.zipIdx.flatMap fun entry => [entry.1]) := by
    refine bordered.congruence .nil Erased.append fun entry _ run parts => ?_
    obtain ⟨before, after, rfl, opened, closed⟩ := parts
    exact opened.erased.append (.kept entry.1 closed.erased)
  rwa [← List.map_eq_flatMap, List.zipIdx_map_fst] at together

/-- With any tables and any words drawn, injection succeeds; the output does exactly what the body does to every
state, whatever its gates with angles and its resets mean; and the passes put in pairs of a gate and its inverse
only, at the boundaries of segments, so that without these pairs the body is left as it was. -/
theorem apply_coincides {circuit : Circuit} (fits : circuit.Fits) (library : Library) {σ : Type} [WordSource σ]
    (source : σ) :
    ∃ output, ((Injection.apply circuit library : Transform σ Circuit).run source).1 = .ok output ∧
      (∀ (reading : Reading) (state : Statevector ℂ), state.numQubits = circuit.numQubits →
        reading.run 0 output.body state = reading.run 0 circuit.body state) ∧
      Concatenation (Bordered library circuit.frame (segmentSize circuit.body.length)) circuit.body.zipIdx output.body ∧
      Erased library circuit.frame output.body circuit.body := by
  obtain ⟨body, segmented, made⟩ := apply_outcomes circuit library source
  have placeable := placeable_of_segmented (placeable_body fits) segmented
  have plain := fun instruction member => (placeable instruction member).body
  have fitting : ∀ instruction ∈ body ++ circuit.measurements, instruction.Fits circuit.numQubits circuit.numClbits :=
    List.forall_mem_append.mpr ⟨fun instruction member => (placeable instruction member).fits,
      fun instruction member => fits instruction (List.mem_filter.mp member).1⟩
  have bordered := bordered_of_segmented segmented
  refine ⟨_, made.trans ((Circuit.withBody_eq_ok_iff plain).mpr ⟨fitting, rfl⟩), ?_⟩
  rw [Circuit.body_rebuilt plain]
  exact ⟨fun reading state => (coincide_of_segmented segmented).run reading 0 state, bordered,
    erased_of_bordered bordered⟩

/-- A three-qubit gate is injected into a program of one rotation and one reset. -/
theorem apply_coincides_turned : ∃ output,
    ((Injection.apply ⟨"turned", 3, 0, #[.elementary (.rx .pi) [1], .reset [0] []]⟩ ⟨[], [], [.ccx, .t], []⟩ :
      Transform SplitMix Circuit).run ⟨7⟩).1 = .ok output ∧
      Erased ⟨[], [], [.ccx, .t], []⟩ ⟨3, 0⟩ output.body [.elementary (.rx .pi) [1], .reset [0] []] := by
  have fits : Circuit.Fits ⟨"turned", 3, 0, #[.elementary (.rx .pi) [1], .reset [0] []]⟩ := by
    simp only [Circuit.Fits, List.forall_mem_cons]
    exact ⟨rfl, rfl, nofun⟩
  obtain ⟨output, done, _, _, erased⟩ := apply_coincides fits ⟨[], [], [.ccx, .t], []⟩ (⟨7⟩ : SplitMix)
  exact ⟨output, done, erased⟩

end CircuitCloak.Injection

import CircuitCloak.Circuit.Depth
import Mathlib.Data.List.Chain
import Mathlib.Order.Bounds.Defs
import Mathlib.Order.MinMax

/-! The depth of a circuit is the length of its longest dependency chain. The table of levels holds, for every wire,
the length of the longest chain whose last instruction touches that wire. An instruction prolongs the longest of the
chains that end at its wires, so one level for each wire is enough. -/

namespace CircuitCloak

variable {first second instruction : Instruction} {run chain front back : List Instruction}

/-- The instructions touch a common qubit or a common classical bit. -/
def Instruction.Shares (first second : Instruction) : Prop :=
  (∃ qubit ∈ first.qubits, qubit ∈ second.qubits) ∨ ∃ clbit ∈ first.clbits, clbit ∈ second.clbits

theorem Instruction.shares_iff : first.Shares second ↔ ∃ wire ∈ first.wires, wire ∈ second.wires := by
  simp only [Shares, wires, List.mem_append, List.mem_map]
  constructor
  · rintro (⟨qubit, one, other⟩ | ⟨clbit, one, other⟩)
    · exact ⟨.qubit qubit, .inl ⟨qubit, one, rfl⟩, .inl ⟨qubit, other, rfl⟩⟩
    · exact ⟨.clbit clbit, .inr ⟨clbit, one, rfl⟩, .inr ⟨clbit, other, rfl⟩⟩
  · rintro ⟨wire, ⟨qubit, one, rfl⟩ | ⟨clbit, one, rfl⟩, ⟨other, two, same⟩ | ⟨other, two, same⟩⟩
    all_goals cases same
    · exact .inl ⟨qubit, one, two⟩
    · exact .inr ⟨clbit, one, two⟩

/-- The instruction takes a layer, and the wire is one of those that it touches. -/
def Instruction.uses (wire : Wire) (instruction : Instruction) : Bool :=
  !instruction.isBarrier && decide (wire ∈ instruction.wires)

/-- Instructions of a run in its order, none of them a barrier, each of which shares a wire with the next. -/
structure Chained (run chain : List Instruction) : Prop where
  ordered : chain.Sublist run
  unbarred : ∀ instruction ∈ chain, instruction.isBarrier = false
  linked : chain.IsChain Instruction.Shares

namespace Chained

theorem nil (run : List Instruction) : Chained run [] := ⟨List.nil_sublist run, nofun, .nil⟩

/-- A chain in a run of two parts is a chain in the first part and then one in the second. -/
theorem split (chained : Chained (front ++ back) chain) :
    ∃ early late, chain = early ++ late ∧ Chained front early ∧ Chained back late := by
  obtain ⟨early, late, rfl, before, after⟩ := List.sublist_append_iff.mp chained.ordered
  obtain ⟨unbarredEarly, unbarredLate⟩ := List.forall_mem_append.mp chained.unbarred
  exact ⟨early, late, rfl, ⟨before, unbarredEarly, chained.linked.left_of_append⟩,
    ⟨after, unbarredLate, chained.linked.right_of_append⟩⟩

theorem widen (chained : Chained front chain) (back : List Instruction) : Chained (front ++ back) chain :=
  ⟨chained.ordered.trans (List.sublist_append_left front back), chained.unbarred, chained.linked⟩

theorem of_wire (run : List Instruction) (wire : Wire) : Chained run (run.filter (·.uses wire)) := by
  have used {instruction : Instruction} (member : instruction ∈ run.filter (·.uses wire)) :
      instruction.isBarrier = false ∧ wire ∈ instruction.wires := by
    simpa [Instruction.uses] using (List.mem_filter.mp member).2
  refine ⟨List.filter_sublist, fun instruction member => (used member).1, List.Pairwise.isChain ?_⟩
  apply List.pairwise_of_forall_mem_list
  intro one first other second
  exact Instruction.shares_iff.mpr ⟨wire, (used first).2, (used second).2⟩

/-- One more instruction prolongs a chain that ends at one of its wires. -/
theorem snoc {last : Instruction} (chained : Chained run (chain ++ [last])) (unbarred : instruction.isBarrier = false)
    (shares : last.Shares instruction) : Chained (run ++ [instruction]) (chain ++ [last] ++ [instruction]) := by
  refine ⟨chained.ordered.append (List.Sublist.refl _), ?_, ?_⟩
  · intro other member
    rcases List.mem_append.mp member with earlier | same
    · exact chained.unbarred other earlier
    · exact List.mem_singleton.mp same ▸ unbarred
  · apply chained.linked.append (.singleton instruction)
    intro before ends after starts
    rw [List.getLast?_concat, Option.mem_some_iff] at ends
    rw [List.head?_singleton, Option.mem_some_iff] at starts
    exact ends ▸ starts ▸ shares

theorem single (run : List Instruction) (unbarred : instruction.isBarrier = false) :
    Chained (run ++ [instruction]) [instruction] := by
  refine ⟨List.sublist_append_right run [instruction], ?_, .singleton instruction⟩
  intro other same
  exact List.mem_singleton.mp same ▸ unbarred

/-- A chain in a longer run is an old one, or its last instruction is the new one. -/
theorem cases_snoc (chained : Chained (run ++ [instruction]) chain) :
    Chained run chain ∨ ∃ rest, chain = rest ++ [instruction] ∧ instruction.isBarrier = false ∧ Chained run rest ∧
      ∀ last ∈ rest.getLast?, last.Shares instruction := by
  obtain ⟨early, late, rfl, before, after⟩ := chained.split
  rcases List.sublist_singleton.mp after.ordered with rfl | rfl
  · exact .inl ((List.append_nil early).symm ▸ before)
  · refine .inr ⟨early, rfl, after.unbarred instruction List.mem_cons_self, before, ?_⟩
    intro last ends
    exact (List.isChain_append.mp chained.linked).2.2 last ends instruction rfl

end Chained

namespace Levels

variable {levels : Levels} {wires : List Wire}

theorem getD_raise (levels : Levels) (wires : List Wire) (level : Nat) (wire : Wire) :
    (levels.raise wires level).getD wire 0 = if wire ∈ wires then level else levels.getD wire 0 := by
  unfold raise
  induction wires generalizing levels with
  | nil => simp
  | cons first rest ih =>
    rw [List.foldl_cons, ih, Std.HashMap.getD_insert]
    by_cases later : wire ∈ rest
    · simp [later]
    · by_cases same : first = wire
      · simp [same]
      · simp [later, same, Ne.symm same]

/-- The next level lies just above the highest of the wires. -/
theorem next_le_iff {bound : Nat} : levels.next wires ≤ bound + 1 ↔ ∀ wire ∈ wires, levels.getD wire 0 ≤ bound := by
  have highest (top : Nat) : wires.foldl (fun top wire => max top (levels.getD wire 0)) top ≤ bound ↔
      top ≤ bound ∧ ∀ wire ∈ wires, levels.getD wire 0 ≤ bound := by
    induction wires generalizing top with
    | nil => simp
    | cons first rest ih => rw [List.foldl_cons, ih, max_le_iff, and_assoc, List.forall_mem_cons]
  unfold next
  rw [Nat.add_le_add_iff_right, highest]
  exact and_iff_right (Nat.zero_le bound)

theorem lt_next {wire : Wire} (touched : wire ∈ wires) : levels.getD wire 0 < levels.next wires :=
  Nat.lt_succ_of_le (next_le_iff.mp (Nat.le_refl _) wire touched)

/-- Only the first level stands above no wire. -/
theorem next_cases (levels : Levels) (wires : List Wire) :
    levels.next wires = 1 ∨ ∃ wire ∈ wires, levels.next wires = levels.getD wire 0 + 1 ∧ levels.getD wire 0 ≠ 0 := by
  obtain ⟨top, same⟩ : ∃ top, levels.next wires = top + 1 := ⟨_, rfl⟩
  cases top with
  | zero => exact .inl same
  | succ top =>
    have beyond : ¬levels.next wires ≤ top + 1 := by omega
    rw [next_le_iff, not_forall] at beyond
    obtain ⟨wire, high⟩ := beyond
    obtain ⟨touched, above⟩ := Classical.not_imp.mp high
    have below : levels.getD wire 0 < levels.next wires := lt_next touched
    exact .inr ⟨wire, touched, by omega, by omega⟩

end Levels

/-- The levels of a run are the lengths of its longest chains. -/
structure Levelled (run : List Instruction) (state : Levels × Nat) : Prop where
  reached : ∀ wire, state.1.getD wire 0 ≠ 0 → ∃ chain last, Chained run (chain ++ [last]) ∧ wire ∈ last.wires ∧
    chain.length + 1 = state.1.getD wire 0
  bounded : ∀ chain last, Chained run (chain ++ [last]) → ∀ wire ∈ last.wires, chain.length + 1 ≤ state.1.getD wire 0
  longest : IsGreatest {length | ∃ chain, Chained run chain ∧ chain.length = length} state.2

namespace Levelled

variable {state : Levels × Nat}

theorem nil : Levelled [] (∅, 0) := by
  have none {chain : List Instruction} (chained : Chained [] chain) : chain = [] :=
    List.sublist_nil.mp chained.ordered
  refine ⟨fun wire some => ?_, fun chain last chained => ?_, ⟨[], .nil [], rfl⟩, ?_⟩
  · exact absurd Std.HashMap.getD_empty some
  · exact absurd (none chained) (List.append_ne_nil_of_right_ne_nil chain (List.cons_ne_nil last []))
  · rintro length ⟨chain, chained, rfl⟩
    rw [none chained]
    exact le_rfl

/-- The instruction ends a chain as long as its level. -/
theorem chain_of_next (levelled : Levelled run state) (unbarred : instruction.isBarrier = false) :
    ∃ chain, Chained (run ++ [instruction]) (chain ++ [instruction]) ∧
      chain.length + 1 = state.1.next instruction.wires := by
  rcases state.1.next_cases instruction.wires with first | ⟨wire, touched, next, some⟩
  · exact ⟨[], .single run unbarred, first.symm⟩
  · obtain ⟨chain, last, chained, ends, length⟩ := levelled.reached wire some
    have shares : last.Shares instruction := Instruction.shares_iff.mpr ⟨wire, ends, touched⟩
    refine ⟨chain ++ [last], chained.snoc unbarred shares, ?_⟩
    rw [List.length_append, List.length_singleton, length, next]

theorem le_next (levelled : Levelled run state) (chained : Chained run chain)
    (shares : ∀ last ∈ chain.getLast?, last.Shares instruction) : chain.length + 1 ≤ state.1.next instruction.wires := by
  rcases chain.eq_nil_or_concat with rfl | ⟨rest, last, rfl⟩
  · exact Nat.succ_pos _
  · have ends : last ∈ (rest.concat last).getLast? := by simp
    obtain ⟨wire, one, other⟩ := Instruction.shares_iff.mp (shares last ends)
    rw [List.concat_eq_append] at chained ⊢
    have level := levelled.bounded rest last chained wire one
    rw [List.length_append, List.length_singleton]
    exact Nat.succ_le_of_lt (Nat.lt_of_le_of_lt level (Levels.lt_next other))

theorem skip (levelled : Levelled run state) (barred : instruction.isBarrier = true) :
    Levelled (run ++ [instruction]) state := by
  have old {chain : List Instruction} (chained : Chained (run ++ [instruction]) chain) : Chained run chain := by
    rcases chained.cases_snoc with old | ⟨rest, -, unbarred, -⟩
    · exact old
    · exact absurd (barred.symm.trans unbarred) (by decide)
  refine ⟨?_, ?_, ?_, ?_⟩
  · intro wire some
    obtain ⟨chain, last, chained, ends⟩ := levelled.reached wire some
    exact ⟨chain, last, chained.widen _, ends⟩
  · intro chain last chained
    exact levelled.bounded chain last (old chained)
  · obtain ⟨chain, chained, length⟩ := levelled.longest.1
    exact ⟨chain, chained.widen _, length⟩
  · rintro length ⟨chain, chained, rfl⟩
    exact levelled.longest.2 ⟨chain, old chained, rfl⟩

theorem add (levelled : Levelled run state) (unbarred : instruction.isBarrier = false) :
    Levelled (run ++ [instruction]) (state.1.raise instruction.wires (state.1.next instruction.wires),
      max state.2 (state.1.next instruction.wires)) := by
  obtain ⟨grown, chained, length⟩ := levelled.chain_of_next unbarred
  refine ⟨?_, ?_, ?_, ?_⟩
  · intro wire some
    rw [Levels.getD_raise] at some ⊢
    split at some
    next touched =>
      rw [if_pos touched]
      exact ⟨grown, instruction, chained, touched, length⟩
    next apart =>
      rw [if_neg apart]
      obtain ⟨chain, last, old, ends⟩ := levelled.reached wire some
      exact ⟨chain, last, old.widen _, ends⟩
  · intro chain last found wire touched
    rw [Levels.getD_raise]
    rcases found.cases_snoc with old | ⟨rest, same, -, old, shares⟩
    · have before := levelled.bounded chain last old wire touched
      split
      next both => exact Nat.le_trans before (Nat.le_of_lt (Levels.lt_next both))
      next => exact before
    · obtain ⟨rfl, ends⟩ := List.append_inj' same rfl
      obtain rfl : last = instruction := List.singleton_inj.mp ends
      rw [if_pos touched]
      exact levelled.le_next old shares
  · rcases max_choice state.2 (state.1.next instruction.wires) with same | same
    · obtain ⟨chain, old, reached⟩ := levelled.longest.1
      exact ⟨chain, old.widen _, reached.trans same.symm⟩
    · refine ⟨grown ++ [instruction], chained, ?_⟩
      rw [List.length_append, List.length_singleton, length, same]
  · rintro _ ⟨chain, found, rfl⟩
    rcases found.cases_snoc with old | ⟨rest, rfl, -, old, shares⟩
    · exact Nat.le_trans (levelled.longest.2 ⟨chain, old, rfl⟩) (Nat.le_max_left ..)
    · rw [List.length_append, List.length_singleton]
      exact Nat.le_trans (levelled.le_next old shares) (Nat.le_max_right ..)

theorem place (levelled : Levelled run state) (instruction : Instruction) :
    Levelled (run ++ [instruction]) (Levels.place state instruction) := by
  unfold Levels.place
  split
  next barred => exact levelled.skip barred
  next unbarred => exact levelled.add (Bool.eq_false_iff.mpr unbarred)

theorem foldl (levelled : Levelled run state) (rest : List Instruction) :
    Levelled (run ++ rest) (rest.foldl Levels.place state) := by
  induction rest generalizing run state with
  | nil => exact (List.append_nil run).symm ▸ levelled
  | cons instruction rest ih =>
    have next := ih (levelled.place instruction)
    rwa [List.append_assoc, List.singleton_append] at next

end Levelled

namespace Circuit

theorem isGreatest_depth (circuit : Circuit) :
    IsGreatest {length | ∃ chain, Chained circuit.instructions.toList chain ∧ chain.length = length} circuit.depth :=
  (Levelled.nil.foldl circuit.instructions.toList).longest

theorem countP_uses_le_depth (circuit : Circuit) (wire : Wire) :
    circuit.instructions.toList.countP (·.uses wire) ≤ circuit.depth :=
  circuit.isGreatest_depth.2 ⟨_, .of_wire _ wire, List.countP_eq_length_filter.symm⟩

/-- Ascending positions of instructions other than barriers, each of which shares a qubit or a classical bit with the
next. -/
structure DependencyChain (circuit : Circuit) (positions : List (Fin circuit.instructions.size)) : Prop where
  ascending : positions.Pairwise (· < ·)
  unbarred : ∀ place ∈ positions, circuit.instructions[place].isBarrier = false
  linked : positions.IsChain fun before after => circuit.instructions[before].Shares circuit.instructions[after]

theorem exists_dependencyChain_iff {circuit : Circuit} {length : Nat} :
    (∃ positions, circuit.DependencyChain positions ∧ positions.length = length) ↔
      ∃ chain, Chained circuit.instructions.toList chain ∧ chain.length = length := by
  constructor
  · rintro ⟨positions, chain, rfl⟩
    refine ⟨positions.map (circuit.instructions[·]), ⟨?_, ?_, ?_⟩, List.length_map ..⟩
    · exact List.map_getElem_sublist chain.ascending
    · exact List.forall_mem_map.mpr chain.unbarred
    · exact (List.isChain_map _).mpr chain.linked
  · rintro ⟨chain, chained, rfl⟩
    obtain ⟨positions, rfl, ascending⟩ := List.sublist_eq_map_getElem chained.ordered
    refine ⟨positions, ⟨ascending, ?_, ?_⟩, (List.length_map ..).symm⟩
    · exact List.forall_mem_map.mp chained.unbarred
    · exact (List.isChain_map _).mp chained.linked

/-- The depth is the length of the longest dependency chain. It is zero only where every instruction is a barrier. -/
theorem depth_longest (circuit : Circuit) :
    IsGreatest {length | ∃ positions, circuit.DependencyChain positions ∧ positions.length = length} circuit.depth ∧
      (circuit.depth = 0 ↔ ∀ instruction ∈ circuit.instructions.toList, instruction.isBarrier = true) := by
  have greatest := circuit.isGreatest_depth
  refine ⟨?_, ?_⟩
  · simp only [exists_dependencyChain_iff]
    exact greatest
  · constructor
    · intro flat instruction member
      by_contra unbarred
      have chained : Chained circuit.instructions.toList [instruction] :=
        ⟨List.singleton_sublist.mpr member, by simpa using unbarred, .singleton instruction⟩
      have length := greatest.2 ⟨_, chained, rfl⟩
      rw [flat] at length
      exact absurd length (Nat.not_succ_le_zero 0)
    · intro barred
      obtain ⟨chain, chained, length⟩ := greatest.1
      rw [← length, List.length_eq_zero_iff, List.eq_nil_iff_forall_not_mem]
      intro instruction member
      have unbarred := chained.unbarred instruction member
      rw [barred instruction (chained.ordered.subset member)] at unbarred
      cases unbarred

end Circuit

end CircuitCloak

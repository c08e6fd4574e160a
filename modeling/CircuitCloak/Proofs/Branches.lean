import CircuitCloak.Execution.Sampling
import CircuitCloak.Proofs.BoundarySafety
import CircuitCloak.Proofs.ExactScalars
import CircuitCloak.Proofs.Motions
import CircuitCloak.Proofs.Units
import Mathlib.Data.List.Monad
import Mathlib.Data.Multiset.Bind

/-! The branches of a shot: one for every choice of outcomes, each with the amplitudes that its
outcomes leave, not brought back to norm one. Every operation takes the same branches from every shot, and
a branch changes amplitudes at its qubits only. So a measurement may be made after any
gates and resets of other qubits: the branches come in another order, but they are the same. -/

namespace CircuitCloak

namespace Unscaled

/-- Outcomes have no probability here: both are taken. -/
scoped instance : Weight Unit where
  zero := ()
  one := ()
  add _ _ := ()
  sub _ _ := ()
  less _ _ := false
  recipSqrt _ := ()

/-- A projection keeps the amplitudes of its outcome as they are. -/
scoped instance : Amplitude ℂ Unit where
  normSq _ := ()
  scale amplitude _ := amplitude

end Unscaled

open scoped Unscaled

def bothOutcomes (_ : Unit) : List Bool := [false, true]

noncomputable section

variable [GateScalar ℂ]

def Shot.branches (shot : Shot ℂ) (instruction : Instruction) : List (Shot ℂ) := shot.step bothOutcomes instruction

/-- The shots that instructions may lead to, one for every choice of outcomes. -/
def Shot.allBranches (shot : Shot ℂ) (instructions : List Instruction) : List (Shot ℂ) :=
  instructions.foldlM Shot.branches shot

def Statevector.normSq (state : Statevector ℂ) : ℝ := (state.amplitudes.toList.map Complex.normSq).sum

namespace Circuit

/-- The shot before the first instruction. -/
def opening (circuit : Circuit) (start : Statevector ℂ) : Shot ℂ := ⟨start, List.replicate circuit.numClbits false⟩

def branches (circuit : Circuit) (start : Statevector ℂ) : List (Shot ℂ) :=
  (circuit.opening start).allBranches circuit.instructions.toList

/-- The total weight of the branches that record given bits. -/
def weightOf (circuit : Circuit) (start : Statevector ℂ) (bits : List Bool) : ℝ :=
  (((circuit.branches start).filter (·.bits = bits)).map (·.state.normSq)).sum

/-- The branches record what a shot records when both outcomes of every measurement are taken. -/
theorem shot_bothOutcomes (circuit : Circuit) (start : Statevector ℂ) :
    circuit.shot bothOutcomes start = (circuit.branches start).map (·.bits) :=
  bind_pure_comp _ _

end Circuit

end

/-- A change of states that moves amplitudes at some qubits only. -/
structure Acts (numQubits : Nat) (qubits : List Nat) (act : Statevector ℂ → Statevector ℂ) : Prop where
  size : ∀ state, state.numQubits = numQubits → (act state).numQubits = numQubits
  moves : ∃ motions : List (Motion ℂ), (∀ motion ∈ motions, ∀ qubit ∈ motion.qubits, qubit ∈ qubits) ∧
    ∀ state, state.numQubits = numQubits →
      (act state).wave = motions.foldl (fun wave motion => motion.change wave) state.wave

namespace Acts

variable {numQubits : Nat} {qubits others : List Nat} {act another : Statevector ℂ → Statevector ℂ}

theorem still : Acts numQubits qubits id := ⟨fun _ size => size, [], nofun, fun _ _ => rfl⟩

theorem motion (motion : Motion ℂ) (among : ∀ qubit ∈ motion.qubits, qubit ∈ qubits)
    (size : ∀ state, (act state).numQubits = state.numQubits)
    (wave : ∀ state, state.numQubits = numQubits → (act state).wave = motion.change state.wave) :
    Acts numQubits qubits act :=
  ⟨fun state same => (size state).trans same, [motion], List.forall_mem_singleton.mpr among, wave⟩

theorem widen (acts : Acts numQubits qubits act) (among : ∀ qubit ∈ qubits, qubit ∈ others) :
    Acts numQubits others act := by
  obtain ⟨size, motions, inside, wave⟩ := acts
  exact ⟨size, motions, fun motion member qubit named => among qubit (inside motion member qubit named), wave⟩

theorem comp (first : Acts numQubits qubits act) (second : Acts numQubits qubits another) :
    Acts numQubits qubits (another ∘ act) := by
  obtain ⟨size, motions, inside, wave⟩ := first
  obtain ⟨later, more, within, next⟩ := second
  refine ⟨fun state same => later _ (size state same), motions ++ more,
    List.forall_mem_append.mpr ⟨inside, within⟩, fun state same => ?_⟩
  rw [List.foldl_append, ← wave state same]
  exact next _ (size state same)

private theorem change_foldl_comm {motion : Motion ℂ} {motions : List (Motion ℂ)}
    (apart : ∀ other ∈ motions, ∀ qubit ∈ motion.qubits, qubit ∉ other.qubits) (wave : Wave ℂ) :
    motions.foldl (fun wave other => other.change wave) (motion.change wave) =
      motion.change (motions.foldl (fun wave other => other.change wave) wave) := by
  induction motions generalizing wave with
  | nil => rfl
  | cons other rest ih =>
    obtain ⟨first, others⟩ := List.forall_mem_cons.mp apart
    rw [List.foldl_cons, List.foldl_cons, ← Motion.change_comm first, ih others]

private theorem foldl_foldl_comm {first second : List (Motion ℂ)}
    (apart : ∀ motion ∈ first, ∀ other ∈ second, ∀ qubit ∈ motion.qubits, qubit ∉ other.qubits) (wave : Wave ℂ) :
    second.foldl (fun wave other => other.change wave) (first.foldl (fun wave motion => motion.change wave) wave) =
      first.foldl (fun wave motion => motion.change wave)
        (second.foldl (fun wave other => other.change wave) wave) := by
  induction first generalizing wave with
  | nil => rfl
  | cons motion rest ih =>
    obtain ⟨one, others⟩ := List.forall_mem_cons.mp apart
    rw [List.foldl_cons, List.foldl_cons, ih others, change_foldl_comm one]

/-- Changes at different qubits may be made in either order. -/
theorem comm (first : Acts numQubits qubits act) (second : Acts numQubits others another)
    (apart : ∀ qubit ∈ qubits, qubit ∉ others) {state : Statevector ℂ} (same : state.numQubits = numQubits) :
    act (another state) = another (act state) := by
  obtain ⟨size, motions, inside, wave⟩ := first
  obtain ⟨later, more, within, next⟩ := second
  refine Statevector.eq_of_wave ((size _ (later _ same)).trans (later _ (size _ same)).symm) ?_
  rw [wave _ (later _ same), next _ same, next _ (size _ same), wave _ same]
  refine foldl_foldl_comm (fun motion member other among qubit named met => ?_) _
  exact apart qubit (inside other among qubit met) (within motion member qubit named)

end Acts
section Operations

variable {numQubits qubit : Nat}

def projector (outcome : Bool) : QubitMatrix ℂ := if outcome then ⟨0, 0, 0, 1⟩ else ⟨1, 0, 0, 0⟩

theorem turned_projector (qubit : Nat) (outcome : Bool) (wave : Wave ℂ) (index : Nat) :
    (Motion.turn [] qubit (projector outcome)).change wave index =
      if index.testBit qubit == outcome then wave index else 0 := by
  have active : (Motion.turn [] qubit (projector outcome)).change wave index =
      (projector outcome).entry (index.testBit qubit) false * wave (withBit index qubit false) +
        (projector outcome).entry (index.testBit qubit) true * wave (withBit index qubit true) := rfl
  rw [active]
  cases bit : index.testBit qubit <;> cases outcome <;>
    simp [projector, QubitMatrix.entry, withBit_eq_self bit]

theorem Kernel.wave_project {size : Nat} (qubit : Nat) (outcome : Bool) (amplitudes : Vector ℂ size) :
    wave (project qubit () outcome amplitudes) =
      (Motion.turn [] qubit (projector outcome)).change (wave amplitudes) := by
  refine wave_eq (fun place => ?_) (fun index outside => ?_)
  · rw [turned_projector, wave_of_lt amplitudes place.isLt]
    exact Vector.getElem_mapIdx ..
  · rw [turned_projector, wave_of_le amplitudes outside, ite_self]

theorem acts_project (outcome : Bool) : Acts numQubits [qubit] fun state => state.project qubit () outcome :=
  .motion (.turn [] qubit (projector outcome)) (fun _ member => member) (fun _ => rfl)
    fun state _ => Kernel.wave_project qubit outcome state.amplitudes

theorem acts_flip (inside : qubit < numQubits) :
    Acts numQubits [qubit] fun state => state.applyTo 0 qubit (some flipMatrix) :=
  .motion (.turn [] qubit flipMatrix) (fun _ member => member)
    (fun state => Statevector.numQubits_applyTo 0 qubit _ state)
    fun _ same => Statevector.wave_applyTo [] rfl (same ▸ operands_singleton inside) _

variable [GateScalar ℂ]

theorem acts_leaf {operands : List Nat} {leaf : Application} (valid : leaf.Leaf numQubits operands) :
    Acts numQubits operands (Statevector.applyCall · leaf) := by
  obtain ⟨gate, qubits⟩ := leaf
  obtain ⟨⟨kind, label, rfl⟩, length, inside, among⟩ := valid
  refine .motion (kind.motion qubits) (fun qubit named => ?_)
    (fun state => Statevector.numQubits_applyElementary kind qubits state)
    fun state same => Statevector.wave_applyElementary length (same ▸ inside)
  rcases Elementary.motion_qubits (α := ℂ) kind qubits with all | none
  · exact among qubit (all ▸ named)
  · rw [none] at named
    cases named

theorem acts_call {call : Application} (valid : call.Valid numQubits) :
    Acts numQubits call.qubits (Statevector.apply · call) := by
  have leaves := valid.leaves
  unfold Statevector.apply
  generalize call.expand = run at leaves
  induction run with
  | nil => exact .still
  | cons leaf rest ih =>
    obtain ⟨first, others⟩ := List.forall_mem_cons.mp leaves
    exact (acts_leaf first).comp (ih others)

end Operations

/-- One branch of an operation: what it makes of the state and of the classical bits. -/
structure Branch where
  act : Statevector ℂ → Statevector ℂ
  record : List Bool → List Bool

def Branch.take (branch : Branch) (shot : Shot ℂ) : Shot ℂ := ⟨branch.act shot.state, branch.record shot.bits⟩

def Branch.next (first second : Branch) : Branch := ⟨second.act ∘ first.act, second.record ∘ first.record⟩

/-- An operation takes the same branches from every shot, and they change some qubits only. -/
structure Branching (numQubits : Nat) (qubits : List Nat) (operation : Shot ℂ → List (Shot ℂ))
    (branches : List Branch) : Prop where
  acts : ∀ branch ∈ branches, Acts numQubits qubits branch.act
  taken : ∀ shot, operation shot = branches.map (·.take shot)

def Unrecorded (branches : List Branch) : Prop := ∀ branch ∈ branches, branch.record = id

theorem Branch.record_next {first second : Branch} (one : first.record = id) (other : second.record = id) :
    (first.next second).record = id := by
  unfold next
  rw [one, other]
  rfl

namespace Branching

variable {numQubits : Nat} {qubits others : List Nat} {operation another : Shot ℂ → List (Shot ℂ)}
  {branches more : List Branch}

theorem one {act : Statevector ℂ → Statevector ℂ} (acts : Acts numQubits qubits act) :
    Branching numQubits qubits (fun shot => [⟨act shot.state, shot.bits⟩]) [⟨act, id⟩] :=
  ⟨List.forall_mem_singleton.mpr acts, fun _ => rfl⟩

theorem widen (branching : Branching numQubits qubits operation branches)
    (among : ∀ qubit ∈ qubits, qubit ∈ others) : Branching numQubits others operation branches :=
  ⟨fun branch member => (branching.acts branch member).widen among, branching.taken⟩

theorem bind (first : Branching numQubits qubits operation branches)
    (second : Branching numQubits qubits another more) :
    Branching numQubits qubits (fun shot => operation shot >>= another)
      (branches.flatMap fun branch => more.map branch.next) := by
  refine ⟨fun branch member => ?_, fun shot => ?_⟩
  · obtain ⟨earlier, stored, within⟩ := List.mem_flatMap.mp member
    obtain ⟨later, follows, rfl⟩ := List.mem_map.mp within
    exact (first.acts earlier stored).comp (second.acts later follows)
  · rw [first.taken, List.map_flatMap]
    change (branches.map _).flatMap another = _
    rw [List.flatMap_map]
    refine congrArg branches.flatMap (funext fun branch => ?_)
    rw [second.taken, List.map_map]
    rfl

theorem foldlM {item : Type} {step : Shot ℂ → item → List (Shot ℂ)} {items : List item} (property : Branch → Prop)
    (still : property ⟨id, id⟩)
    (closed : ∀ first second, property first → property second → property (first.next second))
    (steps : ∀ entry ∈ items, ∃ branches, Branching numQubits qubits (step · entry) branches ∧
      ∀ branch ∈ branches, property branch) :
    ∃ branches, Branching numQubits qubits (fun shot => items.foldlM step shot) branches ∧
      ∀ branch ∈ branches, property branch := by
  induction items with
  | nil => exact ⟨[⟨id, id⟩], one .still, List.forall_mem_singleton.mpr still⟩
  | cons entry rest ih =>
    obtain ⟨⟨branches, first, held⟩, others⟩ := List.forall_mem_cons.mp steps
    obtain ⟨more, later, kept⟩ := ih others
    refine ⟨_, first.bind later, fun branch member => ?_⟩
    obtain ⟨earlier, stored, within⟩ := List.mem_flatMap.mp member
    obtain ⟨next, follows, rfl⟩ := List.mem_map.mp within
    exact closed earlier next (held earlier stored) (kept next follows)

theorem size (branching : Branching numQubits qubits operation branches) {shot next : Shot ℂ}
    (same : shot.state.numQubits = numQubits) (member : next ∈ operation shot) :
    next.state.numQubits = numQubits := by
  rw [branching.taken] at member
  obtain ⟨branch, stored, rfl⟩ := List.mem_map.mp member
  exact (branching.acts branch stored).size _ same

/-- Operations on different qubits may be made in either order, if only one of them records. -/
theorem comm (first : Branching numQubits qubits operation branches)
    (second : Branching numQubits others another more) (silent : Unrecorded more)
    (apart : ∀ qubit ∈ qubits, qubit ∉ others) {shot : Shot ℂ} (same : shot.state.numQubits = numQubits) :
    (operation shot >>= another).Perm (another shot >>= operation) := by
  have forth : operation shot >>= another =
      branches.flatMap fun branch => more.map fun later => later.take (branch.take shot) := by
    rw [first.taken]
    change (branches.map _).flatMap another = _
    rw [List.flatMap_map]
    exact congrArg branches.flatMap (funext fun branch => second.taken _)
  have back : another shot >>= operation =
      more.flatMap fun later => branches.map fun branch => branch.take (later.take shot) := by
    rw [second.taken]
    change (more.map _).flatMap operation = _
    rw [List.flatMap_map]
    exact congrArg more.flatMap (funext fun later => first.taken _)
  have turned : ∀ branch ∈ branches, ∀ later ∈ more,
      later.take (branch.take shot) = branch.take (later.take shot) := by
    intro branch stored later follows
    unfold Branch.take
    rw [silent later follows, (first.acts branch stored).comm (second.acts later follows) apart same]
    rfl
  rw [forth, back]
  refine Multiset.coe_eq_coe.mp ?_
  rw [List.flatMap_congr fun branch stored => List.map_congr_left (turned branch stored), ← Multiset.coe_bind,
    ← Multiset.coe_bind]
  exact Multiset.bind_map_comm (branches : Multiset Branch) (more : Multiset Branch)

end Branching

namespace Instruction

/-- The qubits that an instruction works on. -/
def touched : Instruction → List Nat
  | .barrier _ _ => []
  | instruction => instruction.qubits

variable [GateScalar ℂ] {numQubits numClbits : Nat}

/-- The branches of an instruction on the qubits that it touches; only a measurement records. -/
structure Branches (numQubits : Nat) (instruction : Instruction) (branches : List Branch) : Prop where
  branching : Branching numQubits instruction.touched (·.branches instruction) branches
  unrecorded : instruction.isMeasure = false → Unrecorded branches

theorem branches_measure (qubits clbits : List Nat) :
    ∃ branches, (Instruction.measure qubits clbits).Branches numQubits branches := by
  have wire : ∀ wire ∈ qubits.zip clbits, ∃ branches,
      Branching numQubits qubits (Shot.measureInto bothOutcomes · wire) branches ∧ ∀ branch ∈ branches, True := by
    intro wire member
    have within : ∀ qubit ∈ [wire.1], qubit ∈ qubits :=
      List.forall_mem_singleton.mpr (List.of_mem_zip (show (wire.1, wire.2) ∈ _ from member)).1
    refine ⟨[⟨(·.project wire.1 () false), (·.set wire.2 false)⟩,
      ⟨(·.project wire.1 () true), (·.set wire.2 true)⟩],
      ⟨?_, fun _ => rfl⟩, fun _ _ => trivial⟩
    exact List.forall_mem_cons.mpr ⟨(acts_project false).widen within,
      List.forall_mem_singleton.mpr ((acts_project true).widen within)⟩
  obtain ⟨branches, branching, _⟩ := Branching.foldlM (fun _ => True) trivial (fun _ _ _ _ => trivial) wire
  exact ⟨branches, branching, nofun⟩

theorem branches_reset {qubits clbits : List Nat} (inside : ∀ qubit ∈ qubits, qubit < numQubits) :
    ∃ branches, (Instruction.reset qubits clbits).Branches numQubits branches := by
  have clear : ∀ qubit ∈ qubits, ∃ branches,
      Branching numQubits qubits (Shot.clear bothOutcomes · qubit) branches ∧ Unrecorded branches := by
    intro qubit member
    have within : ∀ other ∈ [qubit], other ∈ qubits := List.forall_mem_singleton.mpr member
    refine ⟨[⟨(·.project qubit () false), id⟩,
      ⟨fun state => (state.project qubit () true).applyTo 0 qubit (some flipMatrix), id⟩],
      ⟨?_, fun _ => rfl⟩, ?_⟩
    · refine List.forall_mem_cons.mpr ⟨(acts_project false).widen within, List.forall_mem_singleton.mpr ?_⟩
      exact ((acts_project true).comp (acts_flip (inside qubit member))).widen within
    · exact List.forall_mem_cons.mpr ⟨rfl, List.forall_mem_singleton.mpr rfl⟩
  obtain ⟨branches, branching, unrecorded⟩ := Branching.foldlM (·.record = id) rfl (fun _ _ => Branch.record_next) clear
  exact ⟨branches, branching, fun _ => unrecorded⟩

theorem branches_of_fits {instruction : Instruction} (fits : instruction.Fits numQubits numClbits)
    (small : numQubits < wordCount) (parts : ∀ call clbits, instruction = .gate call clbits → call.gate.WellFormed) :
    ∃ branches, instruction.Branches numQubits branches := by
  cases instruction with
  | gate call clbits =>
    have acts := acts_call ⟨fits.length_eq small, fits.operands, parts call clbits rfl⟩
    exact ⟨_, .one acts, fun _ => List.forall_mem_singleton.mpr rfl⟩
  | measure qubits clbits => exact branches_measure qubits clbits
  | reset qubits clbits => exact branches_reset fits.operands.inside
  | barrier qubits clbits => exact ⟨_, .one .still, fun _ => List.forall_mem_singleton.mpr rfl⟩

theorem branches_run {body : List Instruction}
    (placed : ∀ instruction ∈ body, ∃ branches, instruction.Branches numQubits branches)
    (plain : ∀ instruction ∈ body, instruction.isMeasure = false) :
    ∃ branches, Branching numQubits (body.flatMap touched) (Shot.allBranches · body) branches ∧ Unrecorded branches := by
  refine Branching.foldlM (·.record = id) rfl (fun _ _ => Branch.record_next) fun instruction member => ?_
  obtain ⟨branches, branching, unrecorded⟩ := placed instruction member
  have within : ∀ qubit ∈ instruction.touched, qubit ∈ body.flatMap touched :=
    fun qubit named => List.mem_flatMap.mpr ⟨instruction, member, named⟩
  exact ⟨branches, branching.widen within, unrecorded (plain instruction member)⟩

end Instruction

/-- A gate or a reset acts on a qubit that was measured before. -/
def reusesMeasured : List Nat → List Instruction → Bool
  | _, [] => false
  | measured, .measure qubits _ :: rest => reusesMeasured (measured ++ qubits) rest
  | measured, .barrier _ _ :: rest => reusesMeasured measured rest
  | measured, instruction :: rest =>
    instruction.qubits.any (measured.contains ·) || reusesMeasured measured rest

private theorem apart_of_not_any {measured qubits : List Nat} (none : qubits.any (measured.contains ·) = false) :
    ∀ qubit ∈ measured, qubit ∉ qubits :=
  fun qubit known named => List.any_eq_false.mp none qubit named (List.contains_iff_mem.mpr known)

/-- The gates and resets that follow leave the measured qubits alone. -/
theorem untouched_of_not_reused {measured : List Nat} {instructions : List Instruction}
    (silent : reusesMeasured measured instructions = false) :
    ∀ instruction ∈ instructions.filter (!·.isMeasure), ∀ qubit ∈ measured, qubit ∉ instruction.touched := by
  induction instructions generalizing measured with
  | nil => exact nofun
  | cons instruction rest ih =>
    cases instruction with
    | measure qubits clbits =>
      intro other member qubit known
      exact ih silent other member qubit (List.mem_append_left _ known)
    | barrier qubits clbits => exact List.forall_mem_cons.mpr ⟨fun _ _ => nofun, ih silent⟩
    | gate call clbits =>
      obtain ⟨none, later⟩ := Bool.or_eq_false_iff.mp silent
      exact List.forall_mem_cons.mpr ⟨apart_of_not_any none, ih later⟩
    | reset qubits clbits =>
      obtain ⟨none, later⟩ := Bool.or_eq_false_iff.mp silent
      exact List.forall_mem_cons.mpr ⟨apart_of_not_any none, ih later⟩

section Deferral

variable [GateScalar ℂ] {numQubits : Nat}

theorem Shot.allBranches_cons (shot : Shot ℂ) (instruction : Instruction) (rest : List Instruction) :
    shot.allBranches (instruction :: rest) = shot.branches instruction >>= (·.allBranches rest) :=
  List.foldlM_cons

theorem Shot.allBranches_singleton (shot : Shot ℂ) (instruction : Instruction) :
    shot.allBranches [instruction] = shot.branches instruction :=
  bind_pure _

theorem Shot.allBranches_append (shot : Shot ℂ) (first second : List Instruction) :
    shot.allBranches (first ++ second) = shot.allBranches first >>= (·.allBranches second) :=
  List.foldlM_append

/-- The branches of a run are those of the run with its measurements last. -/
theorem Shot.allBranches_deferred (shot : Shot ℂ) {instructions : List Instruction} {measured : List Nat}
    (placed : ∀ instruction ∈ instructions, ∃ branches, instruction.Branches numQubits branches)
    (silent : reusesMeasured measured instructions = false) (same : shot.state.numQubits = numQubits) :
    (shot.allBranches (instructions.filter (!·.isMeasure) ++ instructions.filter (·.isMeasure))).Perm
      (shot.allBranches instructions) := by
  induction instructions generalizing measured shot with
  | nil => exact .refl _
  | cons instruction rest ih =>
    obtain ⟨⟨branches, first⟩, others⟩ := List.forall_mem_cons.mp placed
    have inner : ∀ measured, reusesMeasured measured rest = false →
        (shot.branches instruction >>= fun next =>
          next.allBranches (rest.filter (!·.isMeasure) ++ rest.filter (·.isMeasure))).Perm
        (shot.allBranches (instruction :: rest)) := by
      intro measured silent
      rw [Shot.allBranches_cons]
      exact List.Perm.flatMap_left _ fun next member => ih next others silent (first.branching.size same member)
    cases instruction with
    | measure qubits clbits =>
      have later : reusesMeasured (measured ++ qubits) rest = false := silent
      have plain : ∀ other ∈ rest.filter (!·.isMeasure), other.isMeasure = false :=
        fun other member => by simpa using (List.mem_filter.mp member).2
      obtain ⟨more, run, unrecorded⟩ := Instruction.branches_run
        (fun other member => others other (List.mem_filter.mp member).1) plain
      have apart : ∀ qubit ∈ qubits, qubit ∉ (rest.filter (!·.isMeasure)).flatMap Instruction.touched := by
        intro qubit named met
        obtain ⟨other, member, touched⟩ := List.mem_flatMap.mp met
        exact untouched_of_not_reused later other member qubit (List.mem_append_right _ named) touched
      have passed := first.branching.comm run unrecorded apart same
      have order : (Instruction.measure qubits clbits :: rest).filter (!·.isMeasure) ++
          (Instruction.measure qubits clbits :: rest).filter (·.isMeasure) =
          rest.filter (!·.isMeasure) ++ ([.measure qubits clbits] ++ rest.filter (·.isMeasure)) := rfl
      refine .trans ?_ (inner _ later)
      simp only [order, Shot.allBranches_append, Shot.allBranches_singleton]
      rw [← bind_assoc, ← bind_assoc]
      exact List.Perm.flatMap_right _ passed.symm
    | gate call clbits => exact inner measured (Bool.or_eq_false_iff.mp silent).2
    | reset qubits clbits => exact inner measured (Bool.or_eq_false_iff.mp silent).2
    | barrier qubits clbits => exact inner measured silent

end Deferral

namespace Circuit

/-- A gate or a reset follows a measurement of its qubit somewhere in the circuit. -/
def reuses (circuit : Circuit) : Bool := reusesMeasured [] circuit.instructions.toList

section Moved

variable [GateScalar ℂ]

theorem branches_rebuilt {circuit : Circuit} (valid : circuit.Valid) (silent : circuit.reuses = false)
    {start : Statevector ℂ} (size : start.numQubits = circuit.numQubits) :
    ((circuit.rebuilt circuit.body).branches start).Perm (circuit.branches start) := by
  refine Shot.allBranches_deferred (circuit.opening start) (fun instruction member => ?_) silent size
  exact Instruction.branches_of_fits (valid.fits instruction member) valid.sound.qubits
    fun call clbits same => valid.gates call clbits (same ▸ member)

/-- Where no gate and no reset follows a measurement of its qubit, making the measurements last gives
every outcome the weight that it had. -/
theorem weightOf_deferred {circuit : Circuit} (valid : circuit.Valid) (silent : circuit.reuses = false) :
    ∃ moved, (circuit.mapBody fun body _ => pure body : ExceptT TransformError Id Circuit).run = .ok moved ∧
      ∀ start bits, start.numQubits = circuit.numQubits → moved.weightOf start bits = circuit.weightOf start bits := by
  have plain := fun instruction member => (placeable_body valid.fits instruction member).body
  have fits : ∀ instruction ∈ circuit.body ++ circuit.measurements,
      instruction.Fits circuit.numQubits circuit.numClbits :=
    List.forall_mem_append.mpr ⟨fun instruction member => (placeable_body valid.fits instruction member).fits,
      fun instruction member => valid.fits instruction (List.mem_filter.mp member).1⟩
  refine ⟨circuit.rebuilt circuit.body, (withBody_eq_ok_iff plain).mpr ⟨fits, rfl⟩, fun start bits size => ?_⟩
  have same := branches_rebuilt valid silent size
  exact ((same.filter _).map _).sum_eq

end Moved

/-- One qubit is measured first; the other one is turned, cleared and measured into the same bit. -/
def early : Circuit := ⟨"early", 2, 1, #[.measure [0] [0], .elementary .h [1], .reset [1] [],
  .measure [1] [0]]⟩

theorem weightOf_early_deferred : early.Valid ∧ early.reuses = false ∧
    ∃ moved, (early.mapBody fun body _ => pure body : ExceptT TransformError Id Circuit).run = .ok moved ∧
      ∀ bits, moved.weightOf (.ground 2) bits = early.weightOf (.ground 2) bits := by
  have fits : early.Fits := (ofInstructions_eq_ok_iff.mp (show ofInstructions "early" 2 1
    [.measure [0] [0], .elementary .h [1], .reset [1] [], .measure [1] [0]] = .ok early from rfl)).1
  have parts : ∀ call clbits, .gate call clbits ∈ early.instructions.toList → call.gate.WellFormed := by
    intro call clbits member
    have turned : call = ⟨.elementary .h none, [1]⟩ ∧ clbits = [] := by
      simpa [early, Instruction.elementary, Instruction.apply, Gate.ofKind] using member
    rw [turned.1, Gate.WellFormed]
    trivial
  have valid : early.Valid := ⟨⟨by decide, by decide, fits⟩, parts⟩
  obtain ⟨moved, made, same⟩ := weightOf_deferred valid rfl
  exact ⟨valid, rfl, moved, made, fun bits => same _ bits rfl⟩

end Circuit

end CircuitCloak

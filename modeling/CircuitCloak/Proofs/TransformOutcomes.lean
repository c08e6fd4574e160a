import CircuitCloak.Proofs.DrawOutcomes
import CircuitCloak.Proofs.SoundTables
import CircuitCloak.Proofs.Wrapping
import CircuitCloak.Transform.Obfuscator
import Mathlib.Algebra.GroupWithZero.Nat

/-! What each strategy can turn a body into. A strategy draws; its outcomes are described here once, as
relations between a body and what takes its place, so that every property of a strategy is read off
its relation and no other proof opens the draws. -/

namespace CircuitCloak
open CircuitCloak.Random

variable {σ α β : Type}

/-- A run for every item, one after the other. -/
inductive Concatenation (part : α → List β → Prop) : List α → List β → Prop where
  | nil : Concatenation part [] []
  | cons {item items run rest} (first : part item run) (others : Concatenation part items rest) :
      Concatenation part (item :: items) (run ++ rest)

namespace Concatenation

theorem of_forall₂ {part : α → List β → Prop} {items : List α} {runs : List (List β)}
    (parts : List.Forall₂ part items runs) : Concatenation part items runs.flatten := by
  induction parts with
  | nil => exact .nil
  | cons first _ ih => exact .cons first ih

theorem mono {part other : α → List β → Prop} {items : List α} {output : List β}
    (whole : Concatenation part items output)
    (implies : ∀ item ∈ items, ∀ run, part item run → other item run) : Concatenation other items output := by
  induction whole with
  | nil => exact .nil
  | @cons item items run rest first _ ih =>
    exact .cons (implies item (by simp) run first) (ih fun later member => implies later (by simp [member]))

/-- What holds of every run holds of all members put together. -/
theorem forall_mem {part : α → List β → Prop} {items : List α} {output : List β}
    (whole : Concatenation part items output) {property : β → Prop}
    (held : ∀ item ∈ items, ∀ run, part item run → ∀ member ∈ run, property member) :
    ∀ member ∈ output, property member := by
  induction whole with
  | nil => simp
  | @cons item items run rest first _ ih =>
    intro member within
    rcases List.mem_append.mp within with here | later
    · exact held item (by simp) run first member here
    · exact ih (fun other inside => held other (by simp [inside])) member later

/-- A relation between runs that passes to runs put together passes to the whole. -/
theorem congruence {part : α → List β → Prop} {image : α → List β} {items : List α} {output : List β}
    {relation : List β → List β → Prop} (whole : Concatenation part items output) (nil : relation [] [])
    (append : ∀ {first second third fourth}, relation first second → relation third fourth →
      relation (first ++ third) (second ++ fourth))
    (parts : ∀ item ∈ items, ∀ run, part item run → relation run (image item)) :
    relation output (items.flatMap image) := by
  induction whole with
  | nil => exact nil
  | @cons item items run rest first _ ih =>
    exact append (parts item (by simp) run first) (ih fun other member => parts other (by simp [member]))

theorem length_eq {part : α → List β → Prop} {size : α → Nat} {items : List α} {output : List β}
    (whole : Concatenation part items output) (parts : ∀ item ∈ items, ∀ run, part item run → run.length = size item) :
    output.length = (items.map size).sum := by
  induction whole with
  | nil => rfl
  | @cons item items run rest first _ ih =>
    rw [List.length_append, List.map_cons, List.sum_cons, parts item List.mem_cons_self run first,
      ih fun other member => parts other (List.mem_cons_of_mem item member)]

theorem exists_run {part : α → List β → Prop} {items : List α} {output : List β}
    (whole : Concatenation part items output) {item : α} (member : item ∈ items) :
    ∃ run, part item run ∧ ∀ other ∈ run, other ∈ output := by
  induction whole with
  | nil => cases member
  | @cons head items run rest first _ ih =>
    rcases List.mem_cons.mp member with rfl | later
    · exact ⟨run, first, fun other within => List.mem_append_left rest within⟩
    · obtain ⟨found, belongs, inside⟩ := ih later
      exact ⟨found, belongs, fun other within => List.mem_append_right run (inside other within)⟩

end Concatenation

/-- A run goes on with the words that are left, unless it was refused. -/
theorem run_bind (transform : Transform σ α) (next : α → Transform σ β) (source : σ) :
    ((transform >>= next).run.run source).1 = (transform.run.run source).1 >>= fun value =>
      ((next value).run.run (transform.run.run source).2).1 := by
  rw [ExceptT.run_bind, StateT.run_bind]
  rcases StateT.run transform.run source with ⟨_ | _, _⟩ <;> rfl

/-- A transformed circuit is given another body, if the transform gives one. -/
theorem mapBody_run (circuit : Circuit) (transform : List Instruction → Frame → Transform σ (List Instruction))
    (source : σ) : ((Circuit.mapBody circuit transform : Transform σ Circuit).run source).1 =
      ((transform circuit.body circuit.frame).run source).1 >>= circuit.withBody :=
  run_bind _ _ source

/-- Every outcome of a circuit that is transformed by draws is a body of the transform before the measurements. -/
theorem mapBody_outcomes (circuit : Circuit) {transform : List Instruction → Frame → Draw σ (List Instruction)}
    {property : List Instruction → Prop} (held : Always (transform circuit.body circuit.frame) property) :
    Always (Circuit.mapBody circuit fun body frame => liftM (transform body frame) : Transform σ Circuit).run
      fun outcome => ∃ body, property body ∧ outcome = circuit.withBody body :=
  fun source => ⟨_, held source, mapBody_run circuit _ source⟩

variable [WordSource σ]

namespace Substitution

/-- An instruction stays, or gives way to an alternative of the rule for its gate. -/
inductive Replaced (library : Library) (instruction : Instruction) : List Instruction → Prop where
  | kept : Replaced library instruction [instruction]
  | placed {kind rule alternative} (gate : instruction.kind? = some kind)
      (discrete : kind.isDiscrete = true) (found : library.rule? kind = some rule)
      (member : alternative ∈ rule.alternatives) :
      Replaced library instruction (place alternative instruction.qubits)

theorem replace_outcomes (library : Library) (instruction : Instruction) :
    Always (replace library instruction : Draw σ (List Instruction)) (Replaced library instruction) := by
  unfold replace
  split
  next => exact Always.pure .kept
  next rule found =>
    obtain ⟨kind, filtered, found⟩ := Option.bind_eq_some_iff.mp found
    obtain ⟨gate, discrete⟩ := Option.filter_eq_some_iff.mp filtered
    have chosen : Always (choose rule.alternatives.toArray : Draw σ (Option (List PlacedGate)))
        fun choice => ∀ alternative, choice = some alternative → alternative ∈ rule.alternatives := by
      by_cases empty : rule.alternatives = []
      · rw [empty]
        exact Always.pure nofun
      · refine (choose_mem _ empty).mono fun choice reached alternative same => ?_
        obtain ⟨item, member, rfl⟩ := reached
        exact Option.some.inj same ▸ member
    refine Always.bind chosen fun choice members => ?_
    split
    next => exact Always.pure .kept
    next alternative => exact Always.pure (.placed gate discrete found (members alternative rfl))

/-- A body whose instructions were replaced one by one. -/
def Replacement (library : Library) : List Instruction → List Instruction → Prop :=
  Concatenation (Replaced library)

theorem replaceAll_outcomes (library : Library) (instructions : List Instruction) :
    Always (replaceAll library instructions : Draw σ (List Instruction))
      (Replacement library instructions) := by
  refine Always.bind (Always.mapM fun instruction _ => replace_outcomes library instruction) fun runs parts => ?_
  exact Always.pure (Concatenation.of_forall₂ parts)

/-- A replaced body between two replaced decoy blocks. -/
def Surrounded (library : Library) (decoys : DecoyMode) (body : List Instruction) (frame : Frame)
    (output : List Instruction) : Prop :=
  ∃ leading replaced trailing, output = leading ++ replaced ++ trailing ∧
    Replacement library (decoyPattern decoys frame) leading ∧
    Replacement library body replaced ∧
    Replacement library (decoyPattern decoys frame) trailing

theorem transform_outcomes (library : Library) (decoys : DecoyMode) (body : List Instruction)
    (frame : Frame) :
    Always (transform library decoys body frame : Draw σ (List Instruction))
      (Surrounded library decoys body frame) := by
  refine Always.bind (replaceAll_outcomes library _) fun leading before => ?_
  refine Always.bind (replaceAll_outcomes library _) fun replaced between => ?_
  refine Always.bind (replaceAll_outcomes library _) fun trailing after => ?_
  exact Always.pure ⟨leading, replaced, trailing, rfl, before, between, after⟩

end Substitution

namespace Padding

/-- All sequences for a qubit, each once. -/
def Padded (library : Library) (frame : Frame) (qubit : Nat) (run : List Instruction) : Prop :=
  ∃ order : List IdentitySequence, order.Perm library.identities ∧ run = order.flatMap (emit frame qubit)

theorem padAll_outcomes (library : Library) (frame : Frame) :
    Always (padAll library frame : Draw σ (List Instruction))
      (Concatenation (Padded library frame) frame.qubits) := by
  refine Always.bind (Always.mapM fun qubit _ => ?_) fun runs parts =>
    Always.pure (Concatenation.of_forall₂ parts)
  refine Always.bind (shuffle_perm _) fun order permuted => Always.pure ?_
  exact ⟨order.toList, permuted, rfl⟩

/-- A body between two paddings of every qubit. -/
def Surrounded (library : Library) (body : List Instruction) (frame : Frame)
    (output : List Instruction) : Prop :=
  ∃ leading trailing, output = leading ++ body ++ trailing ∧
    Concatenation (Padded library frame) frame.qubits leading ∧
    Concatenation (Padded library frame) frame.qubits trailing

theorem transform_outcomes (library : Library) (body : List Instruction) (frame : Frame) :
    Always (transform library body frame : Draw σ (List Instruction))
      (Surrounded library body frame) := by
  refine Always.bind (padAll_outcomes library frame) fun leading before => ?_
  refine Always.bind (padAll_outcomes library frame) fun trailing after => ?_
  exact Always.pure ⟨leading, trailing, rfl, before, after⟩

theorem apply_outcomes (circuit : Circuit) (library : Library) :
    Always (Padding.apply circuit library : Transform σ Circuit).run fun outcome =>
      ∃ body, Surrounded library circuit.body circuit.frame body ∧ outcome = circuit.withBody body :=
  mapBody_outcomes circuit (transform_outcomes _ _ _)

theorem mem_of_surrounded {library : Library} {body output : List Instruction} {frame : Frame}
    (surrounded : Surrounded library body frame output) : ∀ instruction ∈ body, instruction ∈ output := by
  obtain ⟨leading, trailing, rfl, _, _⟩ := surrounded
  exact fun instruction member => List.mem_append_left _ (List.mem_append_right _ member)

end Padding

namespace Injection

/-- A gate and its inverse on the same operands, or nothing where the gate does not fit. -/
inductive Pair (frame : Frame) (qubit : Nat) (gate : Elementary) : List Instruction → Prop where
  | absent (none : gate.inverse? = none ∨ frame.numQubits < gate.arity) : Pair frame qubit gate []
  | onQubit {inverse} (undone : gate.inverse? = some inverse) (single : gate.arity = 1) :
      Pair frame qubit gate [.elementary gate [qubit], .elementary inverse [qubit]]
  | sampled {inverse operands} (undone : gate.inverse? = some inverse)
      (sample : Sample frame.numQubits gate.arity operands) :
      Pair frame qubit gate [.elementary gate operands, .elementary inverse operands]

theorem injectPair_outcomes (frame : Frame) (qubit : Nat) (gate : Elementary) :
    Always (injectPair frame qubit gate : Draw σ (List Instruction)) (Pair frame qubit gate) := by
  unfold injectPair
  split
  next none => exact Always.pure (.absent (.inl none))
  next inverse undone =>
    have drawn : Always (drawOperands frame qubit gate : Draw σ (Option (List Nat))) fun operands =>
        (operands = none ∧ frame.numQubits < gate.arity) ∨
          (operands = some [qubit] ∧ gate.arity = 1) ∨
          ∃ sample, operands = some sample ∧ Sample frame.numQubits gate.arity sample := by
      unfold drawOperands
      split
      next single => exact Always.pure (.inr (.inl ⟨rfl, single⟩))
      next =>
        split
        next fits =>
          refine Always.bind (sampleIndices_sample fits) fun sample held => Always.pure ?_
          exact .inr (.inr ⟨sample, rfl, held⟩)
        next large => exact Always.pure (.inl ⟨rfl, Nat.lt_of_not_le large⟩)
    refine Always.bind drawn fun operands cases => ?_
    rcases cases with ⟨rfl, large⟩ | ⟨rfl, single⟩ | ⟨sample, rfl, held⟩
    · exact Always.pure (.absent (.inr large))
    · exact Always.pure (.onQubit undone single)
    · exact Always.pure (.sampled undone held)

/-- All pairs for a qubit, each once. -/
def Injected (library : Library) (frame : Frame) (qubit : Nat) (run : List Instruction) : Prop :=
  ∃ order : List Elementary, order.Perm library.injections ∧ Concatenation (Pair frame qubit) order run

/-- All pairs for every qubit. -/
def Passed (library : Library) (frame : Frame) : List Instruction → Prop :=
  Concatenation (Injected library frame) frame.qubits

theorem pass_outcomes (library : Library) (frame : Frame) :
    Always (pass library frame : Draw σ (List Instruction)) (Passed library frame) := by
  refine Always.bind (Always.mapM fun qubit _ => ?_) fun runs parts =>
    Always.pure (Concatenation.of_forall₂ parts)
  refine Always.bind (shuffle_perm _) fun order permuted => ?_
  refine Always.bind (Always.mapM fun gate _ => injectPair_outcomes frame qubit gate) fun runs parts => ?_
  exact Always.pure ⟨order.toList, permuted, Concatenation.of_forall₂ parts⟩

/-- A pass where a condition holds, and nothing elsewhere. -/
def PassedIf (library : Library) (frame : Frame) (condition : Bool) (run : List Instruction) : Prop :=
  if condition then Passed library frame run else run = []

theorem PassedIf.of_passed {library : Library} {frame : Frame} {condition : Bool} {run : List Instruction}
    (holds : condition = true) (passed : Passed library frame run) : PassedIf library frame condition run := by
  unfold PassedIf
  rwa [if_pos holds]

theorem PassedIf.of_absent {library : Library} {frame : Frame} {condition : Bool}
    (fails : ¬condition = true) : PassedIf library frame condition [] := by
  unfold PassedIf
  rw [if_neg fails]

/-- An instruction with the passes at the boundaries of its segment. -/
def Surrounded (library : Library) (frame : Frame) (length : Nat) (entry : Instruction × Nat)
    (run : List Instruction) : Prop :=
  ∃ before after, run = before ++ entry.1 :: after ∧
    PassedIf library frame (opens length entry.2) before ∧
    PassedIf library frame (closes length entry.2) after

private theorem after_outcomes {library : Library} {frame : Frame} {length : Nat} {before : List Instruction}
    (entry : Instruction × Nat) (opened : PassedIf library frame (opens length entry.2) before) :
    Always (do
        let after ← if closes length entry.2 then pass library frame else pure []
        return before ++ entry.1 :: after : Draw σ (List Instruction))
      (Surrounded library frame length entry) := by
  split
  next closed =>
    refine Always.bind (pass_outcomes library frame) fun after passed => Always.pure ?_
    exact ⟨before, after, rfl, opened, PassedIf.of_passed closed passed⟩
  next closed => exact Always.pure ⟨before, [], rfl, opened, PassedIf.of_absent closed⟩

theorem surround_outcomes (library : Library) (frame : Frame) (length : Nat) (entry : Instruction × Nat) :
    Always (surround library frame length entry : Draw σ (List Instruction))
      (Surrounded library frame length entry) := by
  unfold surround
  by_cases opened : opens length entry.2 = true
  · rw [if_pos opened]
    exact Always.bind (pass_outcomes library frame) fun before passed =>
      after_outcomes entry (PassedIf.of_passed opened passed)
  · rw [if_neg opened]
    exact after_outcomes entry (PassedIf.of_absent opened)

/-- Every instruction of a body with the passes around it. -/
def Segmented (library : Library) (body : List Instruction) (frame : Frame) :
    List Instruction → Prop :=
  Concatenation (Surrounded library frame (segmentSize body.length)) body.zipIdx

theorem transform_outcomes (library : Library) (body : List Instruction) (frame : Frame) :
    Always (transform library body frame : Draw σ (List Instruction))
      (Segmented library body frame) := by
  refine Always.bind (Always.mapM fun entry _ => surround_outcomes library frame _ entry) fun runs parts => ?_
  exact Always.pure (Concatenation.of_forall₂ parts)

theorem apply_outcomes (circuit : Circuit) (library : Library) :
    Always (Injection.apply circuit library : Transform σ Circuit).run fun outcome =>
      ∃ body, Segmented library circuit.body circuit.frame body ∧ outcome = circuit.withBody body :=
  mapBody_outcomes circuit (transform_outcomes _ _ _)

theorem mem_of_segmented {library : Library} {body output : List Instruction} {frame : Frame}
    (segmented : Segmented library body frame output) : ∀ instruction ∈ body, instruction ∈ output := by
  intro instruction member
  obtain ⟨index, within, rfl⟩ := List.getElem_of_mem member
  have entry : (body[index], index) ∈ body.zipIdx := by simp [List.mem_zipIdx_iff_getElem?, within]
  obtain ⟨run, ⟨before, after, rfl, _, _⟩, inside⟩ := segmented.exists_run entry
  exact inside _ (by simp)

end Injection

namespace Encapsulation

/-- The call of the composite that wraps a run of gates. -/
def wrapping (name : String) (calls : List Application) : Application :=
  ⟨.composite ⟨name, (Composite.wrapOperands calls).length,
    calls.map (·.localized (Composite.wrapOperands calls))⟩ none, Composite.wrapOperands calls⟩

/-- Gates that can be wrapped together: each is formed, and their operands are counted by a word. -/
structure Wrappable (calls : List Application) : Prop where
  formed : ∀ call ∈ calls, call.Formed
  small : (Composite.wrapOperands calls).length < wordCount

/-- Wrapping takes gates that can be wrapped together and have no classical bits. -/
theorem wrap_eq_ok_iff {name : String} {run : List Instruction} {result : Instruction} :
    wrap name run = .ok result ↔
      ∃ calls, run = calls.map (.gate · []) ∧ Wrappable calls ∧ result = .gate (wrapping name calls) [] := by
  have lifted {outcome : Except CircuitError (Composite × List Nat)} {value : Composite × List Nat} :
      transformResult outcome = .ok value ↔ outcome = .ok value := by
    cases outcome <;> simp [transformResult]
  unfold wrap
  rw [bind_eq_ok_iff]
  constructor
  · rintro ⟨⟨unit, operands⟩, made, same⟩
    obtain ⟨calls, rfl, formed, small, rfl, rfl⟩ := Composite.wrap_eq_ok_iff.mp (lifted.mp made)
    exact ⟨calls, rfl, ⟨formed, small⟩, (Except.ok.inj same).symm⟩
  · rintro ⟨calls, rfl, ⟨formed, small⟩, rfl⟩
    exact ⟨_, lifted.mpr (Composite.wrap_eq_ok name formed small), rfl⟩

/-- A call in the body of a composite that wraps gates is one of them on local qubits. -/
theorem Wrappable.original {calls : List Application} (wrappable : Wrappable calls) {operands : List Nat}
    {call : Application} (member : .gate call [] ∈ (calls.map (·.localized operands)).map (Instruction.gate · [])) :
    call.qubits.length = call.gate.arity ∧ ∃ original ∈ calls, original.gate = call.gate := by
  obtain ⟨_, within, same⟩ := List.mem_map.mp member
  obtain ⟨original, stored, rfl⟩ := List.mem_map.mp within
  cases same
  exact ⟨(List.length_map _).trans (wrappable.formed original stored).1, original, stored, rfl⟩

theorem expand_wrapping (name : String) (calls : List Application) :
    (wrapping name calls).expand = calls.flatMap (·.expand) :=
  Composite.expandBody_localized fun _ member => Composite.mem_wrapOperands member

def blockCalls (gates : List Elementary) (qubit : Nat) : List Application :=
  gates.map fun gate => ⟨.ofKind gate, [qubit]⟩

theorem gates_blockCalls (gates : List Elementary) (qubit : Nat) :
    (gates.map fun gate => Instruction.elementary gate [qubit]) = (blockCalls gates qubit).map (.gate · []) := by
  rw [blockCalls, List.map_map]
  rfl

theorem small_blockCalls (gates : List Elementary) (qubit : Nat) :
    (Composite.wrapOperands (blockCalls gates qubit)).length < wordCount := by
  have within : Composite.wrapOperands (blockCalls gates qubit) ⊆ [qubit] := by
    intro other named
    obtain ⟨call, member, placed⟩ := List.mem_flatMap.mp (mem_firstAppearances.mp named)
    obtain ⟨gate, _, rfl⟩ := List.mem_map.mp member
    exact placed
  calc (Composite.wrapOperands (blockCalls gates qubit)).length
    _ ≤ 1 := (List.subperm_of_subset (firstAppearances_nodup _) within).length_le
    _ < wordCount := by decide

theorem wrappable_blockCalls {gates : List Elementary} (single : ∀ gate ∈ gates, gate.arity = 1)
    (qubit : Nat) : Wrappable (blockCalls gates qubit) := by
  refine ⟨fun call member => ?_, small_blockCalls gates qubit⟩
  obtain ⟨gate, within, rfl⟩ := List.mem_map.mp member
  exact ⟨(single gate within).symm, List.nodup_singleton qubit⟩

/-- The same gates on every qubit, each block wrapped. -/
def blockRow (name : String) (gates : List Elementary) (frame : Frame) : List Instruction :=
  frame.qubits.map fun qubit => .gate (wrapping name (blockCalls gates qubit)) []

theorem blocks_eq_ok (name : String) {gates : List Elementary} (single : ∀ gate ∈ gates, gate.arity = 1)
    (frame : Frame) : blocks name gates frame = .ok (blockRow name gates frame) := by
  refine mapM_ok_of_forall fun qubit _ => ?_
  rw [gates_blockCalls]
  exact wrap_eq_ok_iff.mpr ⟨_, rfl, wrappable_blockCalls single qubit, rfl⟩

/-- An instruction stays, or is wrapped if it can be. -/
inductive Wrapped (label : String) : Instruction → Instruction → Prop where
  | kept {instruction} : Wrapped label instruction instruction
  | wrapped {call} (able : canWrap (.gate call []) = true) (wrappable : Wrappable [call]) :
      Wrapped label (.gate call []) (.gate (wrapping label [call]) [])

theorem gate_of_canWrap {instruction : Instruction} (able : canWrap instruction = true) :
    ∃ call clbits, instruction = .gate call clbits := by
  cases instruction with
  | gate call clbits => exact ⟨call, clbits, rfl⟩
  | measure => cases able
  | reset => cases able
  | barrier => cases able

/-- Whether an instruction is to be wrapped: a coin decides, if it can be. -/
def choice (options : TransformOptions) (instruction : Instruction) : Draw σ Bool :=
  if canWrap instruction then coin options.probability else return false

/-- What becomes of an instruction once that is decided. -/
def settled (label : String) (entry : Instruction × Bool) : Except TransformError Instruction :=
  if entry.2 then wrap label [entry.1] else .ok entry.1

/-- The instructions of a body, each with what a source decides for it. -/
def choices (options : TransformOptions) (body : List Instruction) (source : σ) : List (Instruction × Bool) :=
  body.zip ((body.mapM (choice options) : Draw σ (List Bool)).run source).1

theorem choices_cons (options : TransformOptions) (instruction : Instruction) (rest : List Instruction)
    (source : σ) : choices options (instruction :: rest) source =
      (instruction, ((choice options instruction : Draw σ Bool).run source).1) ::
        choices options rest ((choice options instruction : Draw σ Bool).run source).2 := by
  unfold choices
  rw [List.mapM_cons]
  rfl

theorem map_fst_choices (options : TransformOptions) (body : List Instruction) (source : σ) :
    (choices options body source).map Prod.fst = body := by
  induction body generalizing source with
  | nil => rfl
  | cons instruction rest ih => rw [choices_cons, List.map_cons, ih]

theorem mem_of_choices {options : TransformOptions} {body : List Instruction} {source : σ} {entry : Instruction × Bool}
    (member : entry ∈ choices options body source) : entry.1 ∈ body :=
  map_fst_choices options body source ▸ List.mem_map_of_mem member

/-- An instruction that is to be wrapped can be wrapped. -/
theorem canWrap_of_choices {options : TransformOptions} {body : List Instruction} {source : σ}
    {entry : Instruction × Bool} (member : entry ∈ choices options body source) (chosen : entry.2 = true) :
    canWrap entry.1 = true := by
  induction body generalizing source with
  | nil => cases member
  | cons instruction rest ih =>
    rw [choices_cons] at member
    rcases List.mem_cons.mp member with rfl | later
    · unfold choice at chosen
      by_contra unable
      rw [if_neg unable] at chosen
      cases chosen
    · exact ih later

theorem perhapsWrap_run (options : TransformOptions) (instruction : Instruction) (source : σ) :
    (perhapsWrap options instruction : Transform σ Instruction).run.run source =
      (settled options.label (instruction, ((choice options instruction : Draw σ Bool).run source).1),
        ((choice options instruction : Draw σ Bool).run source).2) := by
  unfold perhapsWrap choice settled
  split
  · change ((if (StateT.run (coin options.probability) source).1 = true then _ else _ : Transform σ Instruction).run.run
      (StateT.run (coin options.probability) source).2) = _
    split <;> rfl
  · rfl

/-- The words decide what is wrapped; with that decided, each instruction stands for itself. -/
theorem mapM_perhapsWrap_run (options : TransformOptions) (body : List Instruction) (source : σ) :
    ((body.mapM (perhapsWrap options) : Transform σ (List Instruction)).run.run source).1 =
      (choices options body source).mapM (settled options.label) := by
  induction body generalizing source with
  | nil => rfl
  | cons instruction rest ih =>
    rw [List.mapM_cons, run_bind, perhapsWrap_run, choices_cons, List.mapM_cons]
    refine bind_congr fun first => ?_
    rw [run_bind, ih]
    rfl

/-- A body between the blocks, with some of its gates wrapped. An empty one stays empty. -/
def Enclosed (library : Library) (label : String) (body : List Instruction) (frame : Frame)
    (output : List Instruction) : Prop :=
  (body = [] ∧ output = []) ∨
    ∃ wrapped, List.Forall₂ (Wrapped label) body wrapped ∧
      output = blockRow auxiliaryName library.camouflage frame ++ wrapped ++
        blockRow restoreName library.restore frame

/-- What a body becomes: it stands between the blocks once its instructions are settled. -/
theorem transform_run {library : Library}
    (camouflage : ∀ gate ∈ library.camouflage, gate.isDiscrete = true ∧ gate.arity = 1)
    (options : TransformOptions) {body : List Instruction} (some : body ≠ []) (frame : Frame) (source : σ) :
    ((transform library options body frame : Transform σ (List Instruction)).run.run source).1 =
      (choices options body source).mapM (settled options.label) >>= fun wrapped =>
        .ok (blockRow auxiliaryName library.camouflage frame ++ wrapped ++
          blockRow restoreName library.restore frame) := by
  unfold transform
  rw [if_neg (by simpa using some),
    blocks_eq_ok _ (fun gate member => (camouflage gate member).2),
    blocks_eq_ok _ (fun gate member => (Library.restore_of_camouflage camouflage gate member).2), run_bind]
  change ((body.mapM (perhapsWrap options) >>= _ : Transform σ (List Instruction)).run.run source).1 = _
  rw [run_bind, mapM_perhapsWrap_run]
  rfl

theorem wrapped_of_settled {label : String} {entry : Instruction × Bool} {result : Instruction}
    (able : entry.2 = true → canWrap entry.1 = true) (done : settled label entry = .ok result) :
    Wrapped label entry.1 result := by
  unfold settled at done
  split at done
  next chosen =>
    obtain ⟨calls, run, wrappable, rfl⟩ := wrap_eq_ok_iff.mp done
    obtain ⟨call, rfl, same⟩ := List.map_eq_singleton_iff.mp run.symm
    rw [← same] at able ⊢
    exact .wrapped (able chosen) wrappable
  next =>
    cases done
    exact .kept

theorem transform_enclosed {library : Library}
    (camouflage : ∀ gate ∈ library.camouflage, gate.isDiscrete = true ∧ gate.arity = 1)
    {options : TransformOptions} {body output : List Instruction} {frame : Frame} {source : σ}
    (done : ((transform library options body frame : Transform σ (List Instruction)).run.run source).1 = .ok output) :
    Enclosed library options.label body frame output := by
  by_cases empty : body = []
  · subst empty
    cases done
    exact .inl ⟨rfl, rfl⟩
  · rw [transform_run camouflage options empty, bind_eq_ok_iff] at done
    obtain ⟨wrapped, each, same⟩ := done
    refine .inr ⟨wrapped, ?_, (Except.ok.inj same).symm⟩
    have parts := ((List.forall₂_and_left _ _).mpr ⟨fun _ => canWrap_of_choices, mapM_eq_ok_iff.mp each⟩).imp
      fun _ _ both => wrapped_of_settled both.1 both.2
    rwa [← List.forall₂_map_left_iff, map_fst_choices] at parts

/-- No instruction that is to be wrapped has classical bits. -/
def Bare (options : TransformOptions) (body : List Instruction) (source : σ) : Prop :=
  ∀ entry ∈ choices options body source, entry.2 = true → entry.1.clbits = []

theorem settled_of_bare (label : String) {entry : Instruction × Bool} (able : entry.2 = true → canWrap entry.1 = true)
    (wrappable : ∀ call clbits, entry.1 = .gate call clbits → Wrappable [call])
    (bare : entry.2 = true → entry.1.clbits = []) : ∃ result, settled label entry = .ok result := by
  unfold settled
  split
  next chosen =>
    obtain ⟨call, clbits, same⟩ := gate_of_canWrap (able chosen)
    obtain rfl : clbits = [] := (congrArg Instruction.clbits same).symm.trans (bare chosen)
    rw [same]
    exact ⟨_, wrap_eq_ok_iff.mpr ⟨[call], rfl, wrappable call [] same, rfl⟩⟩
  next => exact ⟨entry.1, rfl⟩

/-- An instruction with classical bits is not wrapped, for the first of them. -/
theorem settled_of_carrier (label : String) {entry : Instruction × Bool} (able : entry.2 = true → canWrap entry.1 = true)
    (wrappable : ∀ call clbits, entry.1 = .gate call clbits → Wrappable [call])
    (carrier : ¬(entry.2 = true → entry.1.clbits = [])) :
    ∃ call clbit others, entry.1 = .gate call (clbit :: others) ∧
      settled label entry = .error (.circuit (.clbitNotFound clbit call.gate.name)) := by
  obtain ⟨chosen, some⟩ := Classical.not_imp.mp carrier
  obtain ⟨call, clbits, same⟩ := gate_of_canWrap (able chosen)
  obtain ⟨clbit, others, rfl⟩ : ∃ clbit others, clbits = clbit :: others :=
    List.exists_cons_of_ne_nil fun none => some ((congrArg Instruction.clbits same).trans none)
  refine ⟨call, clbit, others, same, ?_⟩
  have able := wrappable call _ same
  have alone : [Instruction.gate call (clbit :: others)] = [].map (.gate · []) ++ .gate call (clbit :: others) :: [] := rfl
  have refused := Composite.wrap_carrier label others alone (List.forall_mem_nil _) (able.formed call List.mem_cons_self) able.small
  unfold settled wrap
  rw [if_pos chosen, same, refused]
  rfl

variable {library : Library} {options : TransformOptions} {body : List Instruction} {frame : Frame} {source : σ}

private theorem wrappable_of_choices (wrappable : ∀ call clbits, .gate call clbits ∈ body → Wrappable [call]) :
    ∀ entry ∈ choices options body source, ∀ call clbits, entry.1 = .gate call clbits → Wrappable [call] :=
  fun _ member call clbits same => wrappable call clbits (same ▸ mem_of_choices member)

variable (frame) in
/-- The transform succeeds on gates that can be wrapped, if none that it wraps has classical bits. -/
theorem transform_of_bare (camouflage : ∀ gate ∈ library.camouflage, gate.isDiscrete = true ∧ gate.arity = 1)
    (wrappable : ∀ call clbits, .gate call clbits ∈ body → Wrappable [call]) (bare : Bare options body source) :
    ∃ output, ((transform library options body frame : Transform σ (List Instruction)).run.run source).1 = .ok output := by
  by_cases empty : body = []
  · subst empty
    exact ⟨[], rfl⟩
  · rw [transform_run camouflage options empty]
    obtain ⟨wrapped, each⟩ := exists_mapM_ok_iff.mpr fun entry member =>
      settled_of_bare options.label (canWrap_of_choices member) (wrappable_of_choices wrappable entry member)
        (bare entry member)
    rw [each]
    exact ⟨_, rfl⟩

variable (frame) in
/-- Otherwise it refuses the first classical bit of a gate that it wraps. -/
theorem transform_of_carrier (camouflage : ∀ gate ∈ library.camouflage, gate.isDiscrete = true ∧ gate.arity = 1)
    (wrappable : ∀ call clbits, .gate call clbits ∈ body → Wrappable [call]) (carried : ¬Bare options body source) :
    ∃ call clbit others, .gate call (clbit :: others) ∈ body ∧
      ((transform library options body frame : Transform σ (List Instruction)).run.run source).1 =
        .error (.circuit (.clbitNotFound clbit call.gate.name)) := by
  have some : body ≠ [] := by
    rintro rfl
    exact carried nofun
  have answers (entry : Instruction × Bool) (member : entry ∈ choices options body source) :=
    settled_of_carrier options.label (canWrap_of_choices member) (wrappable_of_choices wrappable entry member)
  rw [transform_run camouflage options some]
  cases settling : (choices options body source).mapM (settled options.label) with
  | ok wrapped =>
    refine absurd (fun entry member => ?_) carried
    by_contra carrier
    obtain ⟨_, _, _, _, refused⟩ := answers entry member carrier
    obtain ⟨_, done⟩ := exists_mapM_ok_iff.mp ⟨wrapped, settling⟩ entry member
    cases refused.symm.trans done
  | error fault =>
    obtain ⟨entry, member, refused⟩ := mem_of_mapM_error settling
    have carrier : ¬(entry.2 = true → entry.1.clbits = []) := by
      intro bare
      obtain ⟨_, done⟩ := settled_of_bare options.label (canWrap_of_choices member)
        (wrappable_of_choices wrappable entry member) bare
      cases refused.symm.trans done
    obtain ⟨call, clbit, others, same, failed⟩ := answers entry member carrier
    cases refused.symm.trans failed
    exact ⟨call, clbit, others, same ▸ mem_of_choices member, rfl⟩

theorem apply_run (circuit : Circuit) (library : Library) (options : TransformOptions) (source : σ) :
    ((Encapsulation.apply circuit library options : Transform σ Circuit).run source).1 =
      options.validate >>= fun _ =>
        ((transform library options circuit.body circuit.frame : Transform σ (List Instruction)).run.run source).1 >>=
          circuit.withBody := by
  unfold Encapsulation.apply
  cases options.validate with
  | ok => exact mapBody_run circuit (transform library options) source
  | error => rfl

end Encapsulation

theorem TransformOptions.validate_standard : validate {} = .ok () := if_pos (by decide +kernel)

/-- Every gate can be wrapped by itself, if it has no classical bits. -/
def Circuit.Wrappable (circuit : Circuit) : Prop :=
  ∀ call clbits, .gate call clbits ∈ circuit.instructions.toList → Encapsulation.Wrappable [call]

theorem Circuit.Wrappable.body {circuit : Circuit} (wrappable : circuit.Wrappable) :
    ∀ call clbits, .gate call clbits ∈ circuit.body → Encapsulation.Wrappable [call] :=
  fun call clbits member => wrappable call clbits (List.mem_filter.mp member).1

theorem Circuit.Sound.wrappable {circuit : Circuit} (sound : circuit.Sound) : circuit.Wrappable := by
  intro call clbits member
  have fits := sound.fits _ member
  have formed : call.Formed := ⟨fits.length_eq sound.qubits, fits.operands.distinct⟩
  refine ⟨List.forall_mem_singleton.mpr formed, ?_⟩
  have among : Composite.wrapOperands [call] ⊆ call.qubits := by
    intro qubit named
    simpa [Composite.wrapOperands] using named
  calc (Composite.wrapOperands [call]).length
    _ ≤ call.qubits.length := (List.subperm_of_subset (firstAppearances_nodup _) among).length_le
    _ ≤ circuit.numQubits := Operands.length_le fits.operands
    _ < wordCount := sound.qubits

namespace Strategy

/-- The bodies that a strategy can give a circuit. -/
def Outcome (strategy : Strategy) (library : Library) (options : TransformOptions)
    (circuit : Circuit) (output : List Instruction) : Prop :=
  match strategy with
  | .substitution => Substitution.Surrounded library options.decoys circuit.body circuit.frame output
  | .composite => Encapsulation.Enclosed library options.label circuit.body circuit.frame output
  | .padding => Padding.Surrounded library circuit.body circuit.frame output
  | .segmented => Injection.Segmented library circuit.body circuit.frame output

/-- No gate that is wrapped has classical bits. Only encapsulation wraps. -/
def WrapsBare (strategy : Strategy) (options : TransformOptions) (circuit : Circuit) (source : σ) : Prop :=
  strategy = .composite → Encapsulation.Bare options circuit.body source

variable {strategy : Strategy} {library : Library} {options : TransformOptions} {circuit output : Circuit} {source : σ}

/-- What a strategy returns is a circuit with one of its outcomes. -/
theorem outcome_of_apply (sound : library.Sound)
    (done : ((strategy.apply circuit library options : Transform σ Circuit).run source).1 = .ok output) :
    ∃ body, strategy.Outcome library options circuit body ∧ circuit.withBody body = .ok output := by
  have drawn {property : List Instruction → Prop}
      (held : Always (strategy.apply circuit library options : Transform σ Circuit).run fun outcome =>
        ∃ body, property body ∧ outcome = circuit.withBody body) :
      ∃ body, property body ∧ circuit.withBody body = .ok output :=
    (held source).imp fun _ both => ⟨both.1, both.2.symm.trans done⟩
  cases strategy with
  | substitution => exact drawn (mapBody_outcomes circuit (Substitution.transform_outcomes _ _ _ _))
  | composite =>
    obtain ⟨_, _, done⟩ := bind_eq_ok_iff.mp ((Encapsulation.apply_run circuit library options source).symm.trans done)
    obtain ⟨body, transformed, same⟩ := bind_eq_ok_iff.mp done
    exact ⟨body, Encapsulation.transform_enclosed sound.camouflage transformed, same⟩
  | padding => exact drawn (Padding.apply_outcomes circuit library)
  | segmented => exact drawn (Injection.apply_outcomes circuit library)

/-- A strategy that wraps no classical bits comes to one of its outcomes. -/
theorem apply_of_wrapsBare (sound : library.Sound) (accepted : options.validate = .ok ()) (wrappable : circuit.Wrappable)
    (bare : strategy.WrapsBare options circuit source) :
    ∃ body, strategy.Outcome library options circuit body ∧
      ((strategy.apply circuit library options : Transform σ Circuit).run source).1 = circuit.withBody body := by
  cases strategy with
  | substitution => exact mapBody_outcomes circuit (Substitution.transform_outcomes _ _ _ _) source
  | composite =>
    obtain ⟨body, transformed⟩ := Encapsulation.transform_of_bare circuit.frame sound.camouflage
      wrappable.body (bare rfl)
    refine ⟨body, Encapsulation.transform_enclosed sound.camouflage transformed, ?_⟩
    refine (Encapsulation.apply_run circuit library options source).trans ?_
    rw [accepted, transformed]
    rfl
  | padding => exact Padding.apply_outcomes circuit library source
  | segmented => exact Injection.apply_outcomes circuit library source

/-- A strategy that would wrap a classical bit refuses it. -/
theorem apply_of_carrier (sound : library.Sound) (accepted : options.validate = .ok ()) (wrappable : circuit.Wrappable)
    (carried : ¬strategy.WrapsBare options circuit source) :
    ∃ call clbit others, .gate call (clbit :: others) ∈ circuit.body ∧
      ((strategy.apply circuit library options : Transform σ Circuit).run source).1 =
        .error (.circuit (.clbitNotFound clbit call.gate.name)) := by
  obtain ⟨rfl, carrier⟩ := Classical.not_imp.mp carried
  obtain ⟨call, clbit, others, member, refused⟩ := Encapsulation.transform_of_carrier circuit.frame
    sound.camouflage wrappable.body carrier
  refine ⟨call, clbit, others, member, (Encapsulation.apply_run circuit library options source).trans ?_⟩
  rw [accepted, refused]
  rfl

/-- A strategy wraps no classical bits where no gate has any. -/
theorem wrapsBare_of_bare
    (bare : ∀ instruction ∈ circuit.instructions.toList, instruction.isGate = true → instruction.clbits = []) :
    strategy.WrapsBare options circuit source := by
  intro _ entry member chosen
  obtain ⟨call, clbits, same⟩ := Encapsulation.gate_of_canWrap (Encapsulation.canWrap_of_choices member chosen)
  rw [same]
  exact bare _ (List.mem_filter.mp (same ▸ Encapsulation.mem_of_choices member)).1 rfl

end Strategy

end CircuitCloak

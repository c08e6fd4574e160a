import CircuitCloak.Library.Document
import CircuitCloak.Proofs.Fitting

/-! Which tables are accepted. Validation reads operands, and how many there are, as words, so that
it accepts exactly the tables that are well formed as far as words show. Tables whose operands are
words are accepted exactly if they are well formed. -/

namespace CircuitCloak

theorem checkDiscrete_ok_iff {place : TablePlace} {gate : Elementary} :
    checkDiscrete place gate = .ok () ↔ gate.isDiscrete = true := by
  unfold checkDiscrete
  split <;> simp_all

theorem checkArity_ok_iff {place : TablePlace} {gate : Elementary} {available : Nat} :
    checkArity place gate available = .ok () ↔ gate.arity = available := by
  unfold checkArity
  split <;> simp_all

private theorem firstRepeated_eq_none_iff {seen items : List Nat} :
    firstRepeated? seen items = none ↔ items.Nodup ∧ ∀ item ∈ items, item ∉ seen := by
  induction items generalizing seen with
  | nil => simp [firstRepeated?]
  | cons item rest ih =>
    unfold firstRepeated?
    split
    next repeated => simp [repeated]
    next fresh =>
      rw [ih, List.nodup_cons, List.forall_mem_cons]
      constructor
      · rintro ⟨distinct, apart⟩
        exact ⟨⟨fun member => apart item member (by simp), distinct⟩, fresh,
          fun other member seen => apart other member (by simp [seen])⟩
      · rintro ⟨⟨absent, distinct⟩, _, apart⟩
        refine ⟨distinct, fun other member seen => ?_⟩
        rcases List.mem_append.mp seen with seen | last
        · exact apart other member seen
        · exact absent (List.mem_singleton.mp last ▸ member)

/-- A gate of an alternative fits a target that acts on `arity` qubits. The numbers of a step are looked at through
`read`: as they are, or as the words that they become. -/
structure PlacedGate.Suits (read : Nat → Nat) (arity : Nat) (step : PlacedGate) : Prop where
  discrete : step.gate.isDiscrete = true
  length : read step.operands.length = step.gate.arity
  inside : ∀ operand ∈ step.operands, read operand < arity
  distinct : step.operands.Nodup

/-- A rule with a discrete target and an alternative, each of which has a step and fits. -/
structure EquivalenceRule.Suits (read : Nat → Nat) (rule : EquivalenceRule) : Prop where
  target : rule.target.isDiscrete = true
  inhabited : rule.alternatives ≠ []
  alternatives : ∀ alternative ∈ rule.alternatives,
    alternative ≠ [] ∧ ∀ step ∈ alternative, step.Suits read rule.target.arity

/-- A step of a sequence that does nothing is discrete; across pairs it undoes itself. -/
def IdentityStep.Sound : IdentityStep → Prop
  | onQubit gate => gate.isDiscrete = true ∧ gate.arity = 1
  | acrossPairs gate => gate.isSelfInverse = true ∧ gate.arity = 2

def IdentitySequence.Sound (sequence : IdentitySequence) : Prop :=
  sequence.steps ≠ [] ∧ ∀ step ∈ sequence.steps, step.Sound

namespace Library

/-- Tables that are well formed, their numbers looked at through `read`. -/
structure WellFormedAs (read : Nat → Nat) (library : Library) : Prop where
  rules : ∀ rule ∈ library.rules, rule.Suits read
  targets : library.rules.Pairwise fun first second => ¬ first.target.sameKind second.target
  identities : ∀ sequence ∈ library.identities, sequence.Sound
  injections : ∀ gate ∈ library.injections, gate.isDiscrete = true
  camouflaged : library.camouflage ≠ []
  camouflage : ∀ gate ∈ library.camouflage, gate.isDiscrete = true ∧ gate.arity = 1

def WellFormed (library : Library) : Prop := library.WellFormedAs id

/-- Every operand of a rule is a word. -/
def OperandsAreWords (library : Library) : Prop :=
  ∀ rule ∈ library.rules, ∀ alternative ∈ rule.alternatives, ∀ step ∈ alternative,
    ∀ operand ∈ step.operands, operand < wordCount

end Library

theorem PlacedGate.check_ok_iff {place : TablePlace} {arity : Nat} {step : PlacedGate} :
    step.check place arity = .ok () ↔ step.Suits wordSize arity := by
  have within : step.operands.find? (arity ≤ wordSize ·) = none ↔ ∀ operand ∈ step.operands, wordSize operand < arity := by
    simp only [List.find?_eq_none, decide_eq_true_eq, Nat.not_le]
  unfold check
  rw [check_bind_eq_ok_iff, checkDiscrete_ok_iff, ite_error_eq_ok_iff, Classical.not_not]
  constructor
  · rintro ⟨discrete, counted, checked⟩
    split at checked
    next =>
      obtain ⟨_, _, refused⟩ := bind_eq_ok_iff.mp checked
      cases refused
    next inside =>
      split at checked
      next => cases checked
      next once => exact ⟨discrete, counted, within.mp inside, (firstRepeated_eq_none_iff.mp once).1⟩
  · rintro ⟨discrete, counted, inside, distinct⟩
    have once : firstRepeated? [] step.operands = none :=
      firstRepeated_eq_none_iff.mpr ⟨distinct, fun _ _ => List.not_mem_nil⟩
    refine ⟨discrete, counted, ?_⟩
    rw [within.mpr inside]
    simp only [once]

private theorem checkAlternative_ok_iff {target : Elementary} {entry : List PlacedGate × Nat} :
    checkAlternative target entry = .ok () ↔
      entry.1 ≠ [] ∧ ∀ step ∈ entry.1, step.Suits wordSize target.arity := by
  unfold checkAlternative
  simp only [List.isEmpty_iff, ite_error_eq_ok_iff, forM_eq_ok_iff, PlacedGate.check_ok_iff, ne_eq]

theorem EquivalenceRule.check_ok_iff {before : List EquivalenceRule} {rule : EquivalenceRule} :
    rule.check before = .ok () ↔
      rule.Suits wordSize ∧ ∀ earlier ∈ before, ¬ earlier.target.sameKind rule.target := by
  have entries : rule.alternatives.zipIdx.forM (checkAlternative rule.target) = .ok () ↔
      ∀ alternative ∈ rule.alternatives,
        alternative ≠ [] ∧ ∀ step ∈ alternative, step.Suits wordSize rule.target.arity := by
    rw [forM_eq_ok_iff]
    constructor
    · intro checked alternative member
      obtain ⟨index, inside, rfl⟩ := List.mem_iff_getElem.mp member
      exact checkAlternative_ok_iff.mp (checked (rule.alternatives[index], index)
        (List.mem_iff_getElem.mpr ⟨index, by simpa using inside, by simp⟩))
    · intro formed entry member
      exact checkAlternative_ok_iff.mpr (formed entry.1 (List.fst_mem_of_mem_zipIdx member))
  unfold check
  simp only [check_bind_eq_ok_iff, checkDiscrete_ok_iff, ite_error_eq_ok_iff, entries]
  constructor
  · rintro ⟨discrete, fresh, inhabited, alternatives⟩
    exact ⟨⟨discrete, by simpa using inhabited, alternatives⟩, by simpa using fresh⟩
  · rintro ⟨⟨discrete, inhabited, alternatives⟩, fresh⟩
    exact ⟨discrete, by simpa using fresh, by simpa using inhabited, alternatives⟩

private theorem checkRules_ok_iff {before rules : List EquivalenceRule} :
    checkRules before rules = .ok () ↔
      (∀ rule ∈ rules, rule.Suits wordSize) ∧
      (rules.Pairwise fun first second => ¬ first.target.sameKind second.target) ∧
      ∀ earlier ∈ before, ∀ rule ∈ rules, ¬ earlier.target.sameKind rule.target := by
  induction rules generalizing before with
  | nil => simp [checkRules]
  | cons rule rest ih =>
    unfold checkRules
    simp only [check_bind_eq_ok_iff, EquivalenceRule.check_ok_iff, ih, List.forall_mem_append,
      List.forall_mem_singleton, List.forall_mem_cons, List.pairwise_cons]
    constructor
    · rintro ⟨⟨suits, fresh⟩, others, apart, later, next⟩
      exact ⟨⟨suits, others⟩, ⟨next, apart⟩, fun earlier member => ⟨fresh earlier member, later earlier member⟩⟩
    · rintro ⟨⟨suits, others⟩, ⟨next, apart⟩, fresh⟩
      exact ⟨⟨suits, fun earlier member => (fresh earlier member).1⟩, others, apart,
        fun earlier member => (fresh earlier member).2, next⟩

theorem Elementary.discrete_of_isSelfInverse {gate : Elementary} (selfInverse : gate.isSelfInverse = true) :
    gate.isDiscrete = true := by
  cases gate <;> first | rfl | cases selfInverse

theorem IdentityStep.check_ok_iff {place : TablePlace} {step : IdentityStep} :
    step.check place = .ok () ↔ step.Sound := by
  cases step with
  | onQubit gate => simp only [check, Sound, check_bind_eq_ok_iff, checkDiscrete_ok_iff, checkArity_ok_iff]
  | acrossPairs gate =>
    simp only [check, Sound, check_bind_eq_ok_iff, checkDiscrete_ok_iff, checkArity_ok_iff]
    constructor
    · rintro ⟨_, arity, checked⟩
      split at checked
      next selfInverse => exact ⟨selfInverse, arity⟩
      next => cases checked
    · rintro ⟨selfInverse, arity⟩
      exact ⟨Elementary.discrete_of_isSelfInverse selfInverse, arity, if_pos selfInverse⟩

theorem IdentitySequence.check_ok_iff {sequence : IdentitySequence} :
    sequence.check = .ok () ↔ sequence.Sound := by
  unfold check Sound
  simp only [List.isEmpty_iff, ite_error_eq_ok_iff, forM_eq_ok_iff, IdentityStep.check_ok_iff, ne_eq]

theorem checkCamouflage_ok_iff {gates : List Elementary} :
    checkCamouflage gates = .ok () ↔
      gates ≠ [] ∧ ∀ gate ∈ gates, gate.isDiscrete = true ∧ gate.arity = 1 := by
  unfold checkCamouflage
  simp only [List.isEmpty_iff, ite_error_eq_ok_iff, forM_eq_ok_iff, check_bind_eq_ok_iff, checkDiscrete_ok_iff,
    checkArity_ok_iff, ne_eq]

namespace Library

variable {library : Library}

theorem validate_ok_iff : library.validate = .ok () ↔ library.WellFormedAs wordSize := by
  unfold validate
  simp only [check_bind_eq_ok_iff, checkRules_ok_iff, forM_eq_ok_iff, IdentitySequence.check_ok_iff,
    checkDiscrete_ok_iff, checkCamouflage_ok_iff]
  constructor
  · rintro ⟨⟨rules, targets, _⟩, identities, injections, camouflaged, camouflage⟩
    exact ⟨rules, targets, identities, injections, camouflaged, camouflage⟩
  · rintro ⟨rules, targets, identities, injections, camouflaged, camouflage⟩
    exact ⟨⟨rules, targets, fun _ absent => absurd absent List.not_mem_nil⟩, identities, injections, camouflaged,
      camouflage⟩

end Library

namespace PlacedGate

variable {target : Elementary} {step : PlacedGate}

/-- Operands that lie below the arity of a gate are so few that their number is a word. -/
theorem wordSize_length (distinct : step.operands.Nodup)
    (inside : ∀ operand ∈ step.operands, operand < target.arity) :
    wordSize step.operands.length = step.operands.length := by
  have few := (Operands.mk inside distinct).length_le
  have small := target.arity_le
  exact wordSize_of_lt (by unfold wordCount; omega)

theorem suits_iff : step.Suits id target.arity ↔
    step.Suits wordSize target.arity ∧ ∀ operand ∈ step.operands, operand < wordCount := by
  have small := target.arity_le
  constructor
  · rintro ⟨discrete, length, inside, distinct⟩
    have words : ∀ operand ∈ step.operands, operand < wordCount := by
      intro operand member
      have below : operand < target.arity := inside operand member
      unfold wordCount
      omega
    refine ⟨⟨discrete, (wordSize_length distinct inside).trans length, ?_, distinct⟩, words⟩
    intro operand member
    rw [wordSize_of_lt (words operand member)]
    exact inside operand member
  · rintro ⟨⟨discrete, length, inside, distinct⟩, words⟩
    have below : ∀ operand ∈ step.operands, operand < target.arity := by
      intro operand member
      rw [← wordSize_of_lt (words operand member)]
      exact inside operand member
    exact ⟨discrete, (wordSize_length distinct below).symm.trans length, below, distinct⟩

end PlacedGate

namespace Library

variable {library : Library}

/-- Tables are well formed exactly if words show them so and their operands are words. -/
theorem wellFormed_iff : library.WellFormed ↔ library.WellFormedAs wordSize ∧ library.OperandsAreWords := by
  constructor
  · rintro ⟨rules, targets, identities, injections, camouflaged, camouflage⟩
    refine ⟨⟨?_, targets, identities, injections, camouflaged, camouflage⟩, ?_⟩
    · intro rule member
      obtain ⟨target, inhabited, alternatives⟩ := rules rule member
      refine ⟨target, inhabited, fun alternative listed => ⟨(alternatives alternative listed).1, ?_⟩⟩
      exact fun step within => (PlacedGate.suits_iff.mp ((alternatives alternative listed).2 step within)).1
    · intro rule member alternative listed step within
      exact (PlacedGate.suits_iff.mp (((rules rule member).alternatives alternative listed).2 step within)).2
  · rintro ⟨⟨rules, targets, identities, injections, camouflaged, camouflage⟩, words⟩
    refine ⟨?_, targets, identities, injections, camouflaged, camouflage⟩
    intro rule member
    obtain ⟨target, inhabited, alternatives⟩ := rules rule member
    refine ⟨target, inhabited, fun alternative listed => ⟨(alternatives alternative listed).1, ?_⟩⟩
    intro step within
    exact PlacedGate.suits_iff.mpr
      ⟨(alternatives alternative listed).2 step within, words rule member alternative listed step within⟩

/-- Among rules for different kinds, at most one is for the kind of a given gate. -/
private theorem filter_sameKind {rules : List EquivalenceRule} (gate : Elementary)
    (targets : rules.Pairwise fun first second => ¬ first.target.sameKind second.target) :
    rules.filter (·.target.sameKind gate) = (rules.find? (·.target.sameKind gate)).toList := by
  induction targets with
  | nil => rfl
  | @cons rule rest apart _ ih =>
    by_cases same : rule.target.sameKind gate
    · have others : rest.filter (·.target.sameKind gate) = [] := by
        refine List.filter_eq_nil_iff.mpr fun other member matched => apart other member ?_
        exact beq_iff_eq.mpr ((beq_iff_eq.mp same).trans (beq_iff_eq.mp matched).symm)
      simp [same, others]
    · simpa [same] using ih

/-- The rule that is found is the only entry for its kind. -/
theorem rule_eq_some_iff {gate : Elementary} {rule : EquivalenceRule}
    (targets : library.rules.Pairwise fun first second => ¬ first.target.sameKind second.target) :
    library.rule? gate = some rule ↔ library.rules.filter (·.target.sameKind gate) = [rule] := by
  rw [filter_sameKind gate targets, rule?]
  cases library.rules.find? (·.target.sameKind gate) <;> simp

/-- Validation accepts exactly the tables that words show to be well formed. So tables are well
formed exactly if they are accepted and all their operands are words, and in accepted tables a rule
is found for a gate exactly if it is the only entry for gates of that kind. -/
theorem validate_exact (library : Library) :
    (library.validate = .ok () ↔ library.WellFormedAs wordSize) ∧
    (library.WellFormed ↔ library.validate = .ok () ∧ library.OperandsAreWords) ∧
    (library.validate = .ok () → ∀ gate rule,
      library.rule? gate = some rule ↔ library.rules.filter (·.target.sameKind gate) = [rule]) := by
  refine ⟨validate_ok_iff, ?_, ?_⟩
  · rw [wellFormed_iff, validate_ok_iff]
  · intro accepted gate rule
    exact rule_eq_some_iff (validate_ok_iff.mp accepted).targets

theorem builtin_validates : builtin.validate = .ok () := by decide +kernel

/-- In the standard library, a rule is found exactly if it is the only entry for its kind. -/
theorem validate_exact_builtin :
    builtin.validate = .ok () ∧ ∀ gate rule,
      builtin.rule? gate = some rule ↔ builtin.rules.filter (·.target.sameKind gate) = [rule] :=
  ⟨builtin_validates, (validate_exact builtin).2.2 builtin_validates⟩

/-- The operands that the rules name. -/
def operands (library : Library) : List Nat :=
  library.rules.flatMap fun rule => rule.alternatives.flatMap fun alternative => alternative.flatMap (·.operands)

theorem OperandsAreWords.lt (words : library.OperandsAreWords) : ∀ operand ∈ library.operands, operand < wordCount := by
  intro operand member
  obtain ⟨rule, stored, member⟩ := List.mem_flatMap.mp member
  obtain ⟨alternative, listed, member⟩ := List.mem_flatMap.mp member
  obtain ⟨step, within, named⟩ := List.mem_flatMap.mp member
  exact words rule stored alternative listed step within operand named

/-- The tables of a document that is read were validated. -/
theorem validate_of_ofYaml {text : String} (read : ofYaml text = .ok library) : library.validate = .ok () := by
  unfold ofYaml at read
  split at read
  next => cases read
  next document _ =>
    cases resolved : document.resolve with
    | error fault =>
      rw [resolved] at read
      cases read
    | ok found =>
      rw [resolved] at read
      cases read
      obtain ⟨_, _, checked⟩ := bind_eq_ok_iff.mp resolved
      obtain ⟨_, valid, same⟩ := bind_eq_ok_iff.mp checked
      cases same
      exact valid

/-- Accepted tables need not be well formed: cut to a word, the operand of this document is the first. -/
theorem wide_accepted : ∃ library,
    ofYaml "rules: [{target: x, alternatives: [[{gate: h, on: [4294967296]}]]}]" = .ok library ∧
      library.validate = .ok () ∧ ¬library.WellFormed := by
  have named : ((ofYaml "rules: [{target: x, alternatives: [[{gate: h, on: [4294967296]}]]}]").toOption.map
      operands) = some [4294967296] := by decide +kernel
  cases read : ofYaml "rules: [{target: x, alternatives: [[{gate: h, on: [4294967296]}]]}]" with
  | error fault =>
    rw [read] at named
    cases named
  | ok library =>
    rw [read] at named
    refine ⟨library, rfl, validate_of_ofYaml read, fun formed => ?_⟩
    have words : library.OperandsAreWords := (wellFormed_iff.mp formed).2
    have beyond : 4294967296 ∈ library.operands := Option.some.inj named ▸ List.mem_singleton_self _
    exact Nat.lt_irrefl _ (words.lt _ beyond)

end Library

end CircuitCloak

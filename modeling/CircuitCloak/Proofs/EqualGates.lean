import CircuitCloak.Gate.Composite
import Mathlib

/-! Equality of gates. Numbers in angles compare as doubles do, so a gate without a value need not equal itself; but
equality is symmetric and transitive at every depth, and equal gates are nested equally deep. -/

namespace CircuitCloak

instance partialEquiv_float : PartialEquivBEq Float where
  symm := by
    intro first second same
    rw [Float.beq_iff_ne_nan_and_eq] at same ⊢
    obtain ⟨one, two, equal | ⟨zero, negative⟩ | ⟨negative, zero⟩⟩ := same
    · exact ⟨two, one, .inl equal.symm⟩
    · exact ⟨two, one, .inr (.inr ⟨negative, zero⟩)⟩
    · exact ⟨two, one, .inr (.inl ⟨zero, negative⟩)⟩
  trans := by
    intro first second third former latter
    rw [Float.beq_iff_ne_nan_and_eq] at former latter ⊢
    obtain ⟨one, _, same⟩ := former
    obtain ⟨_, two, other⟩ := latter
    refine ⟨one, two, ?_⟩
    rcases same with rfl | ⟨zero, negative⟩ | ⟨negative, zero⟩
    · exact other
    · rcases other with rfl | ⟨_, last⟩ | ⟨_, last⟩
      · exact .inr (.inl ⟨zero, negative⟩)
      · exact .inr (.inl ⟨zero, last⟩)
      · exact .inl (zero.trans last.symm)
    · rcases other with rfl | ⟨_, last⟩ | ⟨_, last⟩
      · exact .inr (.inr ⟨negative, zero⟩)
      · exact .inl (negative.trans last.symm)
      · exact .inr (.inr ⟨negative, last⟩)

namespace Angle

/-- Angles of the same form, whose numbers compare equal place by place. -/
inductive Equals : Angle → Angle → Prop
  | const {value other : Float} (same : (value == other) = true) : Equals (.const value) (.const other)
  | symbol (name : String) : Equals (.symbol name) (.symbol name)
  | pi : Equals .pi .pi
  | neg {operand other : Angle} (same : Equals operand other) : Equals (.neg operand) (.neg other)
  | add {left right first second : Angle} (one : Equals left first) (two : Equals right second) :
      Equals (.add left right) (.add first second)
  | sub {left right first second : Angle} (one : Equals left first) (two : Equals right second) :
      Equals (.sub left right) (.sub first second)
  | mul {left right first second : Angle} (one : Equals left first) (two : Equals right second) :
      Equals (.mul left right) (.mul first second)
  | div {left right first second : Angle} (one : Equals left first) (two : Equals right second) :
      Equals (.div left right) (.div first second)

theorem equals_of_beq {first second : Angle} (same : (first == second) = true) : Equals first second := by
  induction first generalizing second with
  | const value =>
    cases second with
    | const other => exact .const same
    | _ => cases same
  | symbol name =>
    cases second with
    | symbol other => exact eq_of_beq (show (name == other) = true from same) ▸ .symbol name
    | _ => cases same
  | pi =>
    cases second with
    | pi => exact .pi
    | _ => cases same
  | neg operand ih =>
    cases second with
    | neg other => exact .neg (ih same)
    | _ => cases same
  | add left right one two | sub left right one two | mul left right one two | div left right one two =>
    cases second
    all_goals first
      | cases same
      | obtain ⟨former, latter⟩ := Bool.and_eq_true_iff.mp same
        constructor
        · exact one former
        · exact two latter

theorem beq_iff_equals {first second : Angle} : (first == second) = true ↔ Equals first second := by
  refine ⟨equals_of_beq, fun equals => ?_⟩
  induction equals with
  | const same => exact same
  | symbol name => exact beq_self_eq_true name
  | pi => rfl
  | neg _ ih => exact ih
  | add _ _ one two | sub _ _ one two | mul _ _ one two | div _ _ one two => exact Bool.and_eq_true_iff.mpr ⟨one, two⟩

namespace Equals

variable {first second third : Angle}

theorem symm (equals : Equals first second) : Equals second first := by
  induction equals with
  | const same => exact .const (BEq.symm same)
  | symbol name => exact .symbol name
  | pi => exact .pi
  | neg _ ih => exact .neg ih
  | add _ _ one two => exact .add one two
  | sub _ _ one two => exact .sub one two
  | mul _ _ one two => exact .mul one two
  | div _ _ one two => exact .div one two

theorem trans (former : Equals first second) (latter : Equals second third) : Equals first third := by
  induction former generalizing third with
  | const same =>
    cases latter with
    | const other => exact .const (BEq.trans same other)
  | symbol => exact latter
  | pi => exact latter
  | neg _ ih =>
    cases latter with
    | neg other => exact .neg (ih other)
  | add _ _ one two | sub _ _ one two | mul _ _ one two | div _ _ one two =>
    cases latter
    next before after =>
      constructor
      · exact one before
      · exact two after

end Equals

instance partialEquiv : PartialEquivBEq Angle where
  symm same := beq_iff_equals.mpr (equals_of_beq same).symm
  trans former latter := beq_iff_equals.mpr ((equals_of_beq former).trans (equals_of_beq latter))

end Angle

namespace Elementary

theorem beq_symm {first second : Elementary} (same : (first == second) = true) : (second == first) = true := by
  change instBEqElementary.beq first second = true at same
  unfold instBEqElementary.beq at same
  split at same
  next =>
    split at same
    case u =>
      obtain ⟨theta, others⟩ := Bool.and_eq_true_iff.mp same
      obtain ⟨phi, lambda⟩ := Bool.and_eq_true_iff.mp others
      exact Bool.and_eq_true_iff.mpr ⟨BEq.symm theta, Bool.and_eq_true_iff.mpr ⟨BEq.symm phi, BEq.symm lambda⟩⟩
    all_goals first | rfl | exact Angle.beq_iff_equals.mpr (Angle.equals_of_beq same).symm
  next => cases same

theorem beq_trans {first second third : Elementary} (former : (first == second) = true)
    (latter : (second == third) = true) : (first == third) = true := by
  change instBEqElementary.beq first second = true at former
  unfold instBEqElementary.beq at former
  split at former
  next =>
    split at former
    case u =>
      cases third
      all_goals first
        | cases latter
        | obtain ⟨theta, others⟩ := Bool.and_eq_true_iff.mp former
          obtain ⟨phi, lambda⟩ := Bool.and_eq_true_iff.mp others
          obtain ⟨one, later⟩ := Bool.and_eq_true_iff.mp latter
          obtain ⟨two, three⟩ := Bool.and_eq_true_iff.mp later
          exact Bool.and_eq_true_iff.mpr
            ⟨BEq.trans theta one, Bool.and_eq_true_iff.mpr ⟨BEq.trans phi two, BEq.trans lambda three⟩⟩
    all_goals first
      | exact latter
      | cases third
        all_goals first
          | cases latter
          | exact Angle.beq_iff_equals.mpr ((Angle.equals_of_beq former).trans (Angle.equals_of_beq latter))
  next => cases former

end Elementary

mutual

theorem Gate.beq_symm : ∀ {first second : Gate}, first.beq second = true → second.beq first = true
  | .elementary _ _, .elementary _ _, same => by
    rw [Gate.beq, Bool.and_eq_true] at same ⊢
    exact ⟨Elementary.beq_symm same.1, BEq.symm same.2⟩
  | .composite ⟨_, _, _⟩ _, .composite ⟨_, _, _⟩ _, same => by
    rw [Gate.beq] at same ⊢
    simp only [Bool.and_eq_true] at same ⊢
    obtain ⟨⟨⟨name, arity⟩, body⟩, label⟩ := same
    exact ⟨⟨⟨BEq.symm name, BEq.symm arity⟩, Application.beqList_symm body⟩, BEq.symm label⟩
  | .elementary _ _, .composite ⟨_, _, _⟩ _, same => by
    simp [Gate.beq] at same
  | .composite ⟨_, _, _⟩ _, .elementary _ _, same => by
    simp [Gate.beq] at same

theorem Application.beqList_symm : ∀ {first second : List Application},
    Application.beqList first second = true → Application.beqList second first = true
  | [], [], same => same
  | ⟨_, _⟩ :: _, ⟨_, _⟩ :: _, same => by
    rw [Application.beqList] at same ⊢
    simp only [Bool.and_eq_true] at same ⊢
    obtain ⟨⟨gate, qubits⟩, rest⟩ := same
    exact ⟨⟨Gate.beq_symm gate, BEq.symm qubits⟩, Application.beqList_symm rest⟩
  | [], ⟨_, _⟩ :: _, same => by
    simp [Application.beqList] at same
  | ⟨_, _⟩ :: _, [], same => by
    simp [Application.beqList] at same

end

mutual

theorem Gate.beq_trans : ∀ {first second third : Gate}, first.beq second = true → second.beq third = true →
    first.beq third = true
  | .elementary _ _, .elementary _ _, .elementary _ _, former, latter => by
    rw [Gate.beq, Bool.and_eq_true] at former latter ⊢
    exact ⟨Elementary.beq_trans former.1 latter.1, BEq.trans former.2 latter.2⟩
  | .composite ⟨_, _, _⟩ _, .composite ⟨_, _, _⟩ _, .composite ⟨_, _, _⟩ _, former, latter => by
    rw [Gate.beq] at former latter ⊢
    simp only [Bool.and_eq_true] at former latter ⊢
    obtain ⟨⟨⟨name, arity⟩, body⟩, label⟩ := former
    obtain ⟨⟨⟨other, size⟩, run⟩, tag⟩ := latter
    exact ⟨⟨⟨BEq.trans name other, BEq.trans arity size⟩, Application.beqList_trans body run⟩, BEq.trans label tag⟩
  | .elementary _ _, .composite ⟨_, _, _⟩ _, _, former, _ => by
    simp [Gate.beq] at former
  | .composite ⟨_, _, _⟩ _, .elementary _ _, _, former, _ => by
    simp [Gate.beq] at former
  | .elementary _ _, .elementary _ _, .composite ⟨_, _, _⟩ _, _, latter => by
    simp [Gate.beq] at latter
  | .composite ⟨_, _, _⟩ _, .composite ⟨_, _, _⟩ _, .elementary _ _, _, latter => by
    simp [Gate.beq] at latter

theorem Application.beqList_trans : ∀ {first second third : List Application},
    Application.beqList first second = true → Application.beqList second third = true →
      Application.beqList first third = true
  | [], [], _, _, latter => latter
  | ⟨_, _⟩ :: _, ⟨_, _⟩ :: _, ⟨_, _⟩ :: _, former, latter => by
    rw [Application.beqList] at former latter ⊢
    simp only [Bool.and_eq_true] at former latter ⊢
    obtain ⟨⟨gate, qubits⟩, rest⟩ := former
    obtain ⟨⟨other, operands⟩, tail⟩ := latter
    exact ⟨⟨Gate.beq_trans gate other, BEq.trans qubits operands⟩, Application.beqList_trans rest tail⟩
  | [], ⟨_, _⟩ :: _, _, former, _ => by
    simp [Application.beqList] at former
  | ⟨_, _⟩ :: _, [], _, former, _ => by
    simp [Application.beqList] at former
  | ⟨_, _⟩ :: _, ⟨_, _⟩ :: _, [], _, latter => by
    simp [Application.beqList] at latter

end

theorem Composite.beq_iff {first second : Composite} : (first == second) = true ↔
    first.name = second.name ∧ first.arity = second.arity ∧ Application.beqList first.body second.body = true := by
  change (first.name == second.name && first.arity == second.arity &&
    Application.beqList first.body second.body) = true ↔ _
  simp only [Bool.and_eq_true, beq_iff_eq, and_assoc]

instance Composite.partialEquiv : PartialEquivBEq Composite where
  symm := by
    intro first second same
    obtain ⟨name, arity, body⟩ := beq_iff.mp same
    exact beq_iff.mpr ⟨name.symm, arity.symm, Application.beqList_symm body⟩
  trans := by
    intro first second third former latter
    obtain ⟨name, arity, body⟩ := beq_iff.mp former
    obtain ⟨other, size, run⟩ := beq_iff.mp latter
    exact beq_iff.mpr ⟨name.trans other, arity.trans size, Application.beqList_trans body run⟩

mutual

def Gate.depth : Gate → Nat
  | .elementary _ _ => 0
  | .composite ⟨_, _, body⟩ _ => Application.depthBody body + 1

def Application.depthBody : List Application → Nat
  | [] => 0
  | ⟨gate, _⟩ :: rest => max gate.depth (Application.depthBody rest)

end

def Composite.depth (composite : Composite) : Nat := Application.depthBody composite.body + 1

mutual

theorem Gate.depth_eq_of_beq : ∀ {first second : Gate}, first.beq second = true → first.depth = second.depth
  | .elementary _ _, .elementary _ _, _ => by rw [Gate.depth, Gate.depth]
  | .composite ⟨_, _, _⟩ _, .composite ⟨_, _, _⟩ _, same => by
    rw [Gate.beq] at same
    simp only [Bool.and_eq_true] at same
    rw [Gate.depth, Gate.depth, Application.depthBody_eq_of_beq same.1.2]
  | .elementary _ _, .composite ⟨_, _, _⟩ _, same => by
    simp [Gate.beq] at same
  | .composite ⟨_, _, _⟩ _, .elementary _ _, same => by
    simp [Gate.beq] at same

theorem Application.depthBody_eq_of_beq : ∀ {first second : List Application}, Application.beqList first second = true →
    Application.depthBody first = Application.depthBody second
  | [], [], _ => rfl
  | ⟨_, _⟩ :: _, ⟨_, _⟩ :: _, same => by
    rw [Application.beqList] at same
    simp only [Bool.and_eq_true] at same
    rw [Application.depthBody, Application.depthBody, Gate.depth_eq_of_beq same.1.1,
      Application.depthBody_eq_of_beq same.2]
  | [], ⟨_, _⟩ :: _, same => by
    simp [Application.beqList] at same
  | ⟨_, _⟩ :: _, [], same => by
    simp [Application.beqList] at same

end

theorem Composite.depth_eq_of_beq {first second : Composite} (same : (first == second) = true) :
    first.depth = second.depth := by
  rw [depth, depth, Application.depthBody_eq_of_beq (beq_iff.mp same).2.2]

end CircuitCloak

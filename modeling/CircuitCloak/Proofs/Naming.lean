import CircuitCloak.Proofs.EqualGates
import CircuitCloak.Proofs.WrittenText
import Mathlib.Data.List.Nodup
import Mathlib.Data.List.Perm.Subperm

/-! Names for gate definitions. A free name is always found, because as many names as there are definitions can be
taken and one more is tried; and gates are told apart exactly, as long as their angles have no numbers. -/

namespace CircuitCloak.Qasm

theorem eq_of_beq_angle {first second : Angle} (plain : Plain second) (same : (first == second) = true) :
    first = second := by
  have equals := Angle.equals_of_beq same
  clear same
  induction equals with
  | const => cases plain
  | symbol | pi => rfl
  | neg _ ih => rw [ih plain]
  | add _ _ one two | sub _ _ one two | mul _ _ one two | div _ _ one two => rw [one plain.1, two plain.2]

theorem eq_of_beq_elementary {first second : Elementary} (plain : ∀ angle ∈ second.angles, Plain angle)
    (same : (first == second) = true) : first = second := by
  change instBEqElementary.beq first second = true at same
  unfold instBEqElementary.beq at same
  split at same
  next =>
    split at same
    case u =>
      obtain ⟨theta, others⟩ := Bool.and_eq_true_iff.mp same
      obtain ⟨phi, lambda⟩ := Bool.and_eq_true_iff.mp others
      rw [eq_of_beq_angle (plain _ (by simp [Elementary.angles])) theta,
        eq_of_beq_angle (plain _ (by simp [Elementary.angles])) phi,
        eq_of_beq_angle (plain _ (by simp [Elementary.angles])) lambda]
    all_goals first | rfl | rw [eq_of_beq_angle (plain _ List.mem_cons_self) same]
  next => cases same

mutual

/-- A gate that can be written: its angles have no numbers, and each composite in it has a qubit and a name. -/
def Writable : Gate → Prop
  | .elementary kind _ => ∀ angle ∈ kind.angles, Plain angle
  | .composite ⟨name, arity, body⟩ _ =>
    (IsIdentifier name ∨ name = "U" ∨ name = "CX") ∧ 0 < arity ∧ WritableBody body

def WritableBody : List Application → Prop
  | [] => True
  | ⟨gate, _⟩ :: rest => Writable gate ∧ WritableBody rest

end

mutual

theorem eq_of_beq_gate : ∀ {first second : Gate}, Writable second → Gate.beq first second = true → first = second
  | .elementary _ _, .elementary _ _, writable, same => by
    rw [Gate.beq, Bool.and_eq_true] at same
    rw [Writable] at writable
    rw [eq_of_beq_elementary writable same.1, eq_of_beq same.2]
  | .composite ⟨_, _, _⟩ _, .composite ⟨_, _, _⟩ _, writable, same => by
    rw [Gate.beq] at same
    rw [Writable] at writable
    simp only [Bool.and_eq_true, beq_iff_eq] at same
    obtain ⟨⟨⟨name, arity⟩, body⟩, label⟩ := same
    rw [name, arity, label, eq_of_beq_body writable.2.2 body]
  | .elementary _ _, .composite ⟨_, _, _⟩ _, _, same => by
    simp [Gate.beq] at same
  | .composite ⟨_, _, _⟩ _, .elementary _ _, _, same => by
    simp [Gate.beq] at same

theorem eq_of_beq_body : ∀ {first second : List Application}, WritableBody second →
    Application.beqList first second = true → first = second
  | [], [], _, _ => rfl
  | ⟨gate, qubits⟩ :: rest, ⟨other, operands⟩ :: tail, writable, same => by
    rw [Application.beqList] at same
    rw [WritableBody] at writable
    simp only [Bool.and_eq_true, beq_iff_eq] at same
    obtain ⟨⟨one, two⟩, three⟩ := same
    rw [eq_of_beq_gate writable.1 one, two, eq_of_beq_body writable.2 three]
  | [], ⟨_, _⟩ :: _, _, same => by
    simp [Application.beqList] at same
  | ⟨_, _⟩ :: _, [], _, same => by
    simp [Application.beqList] at same

end

mutual

/-- A gate that can be written but for numbers that are too large. -/
def SayableGate : Gate → Prop
  | .elementary kind _ => ∀ angle ∈ kind.angles, Sayable angle
  | .composite ⟨name, arity, body⟩ _ =>
    (IsIdentifier name ∨ name = "U" ∨ name = "CX") ∧ 0 < arity ∧ SayableBody body

def SayableBody : List Application → Prop
  | [] => True
  | ⟨gate, _⟩ :: rest => SayableGate gate ∧ SayableBody rest

end

mutual

theorem Writable.sayable : ∀ {gate : Gate}, Writable gate → SayableGate gate
  | .elementary _ _, writable => by
    rw [Writable] at writable
    rw [SayableGate]
    exact fun angle member => (writable angle member).sayable
  | .composite ⟨_, _, _⟩ _, writable => by
    rw [Writable] at writable
    rw [SayableGate]
    exact ⟨writable.1, writable.2.1, WritableBody.sayable writable.2.2⟩

theorem WritableBody.sayable : ∀ {body : List Application}, WritableBody body → SayableBody body
  | [], _ => by
    rw [SayableBody]
    trivial
  | ⟨_, _⟩ :: _, writable => by
    rw [WritableBody] at writable
    rw [SayableBody]
    exact ⟨writable.1.sayable, WritableBody.sayable writable.2⟩

end

def numbered (base : String) (number : Nat) : String := base ++ "_" ++ toString number

theorem toList_numbered (base : String) (number : Nat) :
    (numbered base number).toList = base.toList ++ '_' :: (toString number).toList := by
  rw [numbered, String.toList_append, String.toList_append, List.append_assoc]
  rfl

theorem eq_of_digits {first second : Nat} (same : (toString first).toList = (toString second).toList) :
    first = second := by
  rw [toList_toString, toList_toString] at same
  rw [← Nat.ofDigitChars_ten_toDigits (n := first), same, Nat.ofDigitChars_ten_toDigits]

theorem numbered_injective {base : String} {first second : Nat} (same : numbered base first = numbered base second) :
    first = second := by
  have texts := congrArg String.toList same
  rw [toList_numbered, toList_numbered] at texts
  exact eq_of_digits (List.cons.inj (List.append_cancel_left texts)).2

theorem formalText_injective {first second : Nat} (same : formalText first = formalText second) : first = second := by
  have texts := congrArg String.toList same
  rw [formalText, formalText, String.toList_append, String.toList_append] at texts
  exact eq_of_digits (List.append_cancel_left texts)

/-- No name with a fixed meaning has an underscore. -/
theorem not_isBuiltin_of_underscore {name : String} (underscore : '_' ∈ name.toList) : isBuiltin name = false := by
  have plain : ∀ other ∈ parameterizedNames, '_' ∉ other.toList := by decide
  have discrete : Elementary.ofName? name = none := by
    unfold Elementary.ofName?
    split <;> first | rfl | exact absurd underscore (by decide)
  unfold isBuiltin
  rw [discrete, Bool.or_eq_false_iff, Bool.or_eq_false_iff]
  refine ⟨⟨?_, rfl⟩, ?_⟩
  · refine beq_false_of_ne fun same => ?_
    subst same
    exact absurd underscore (by decide)
  · cases known : parameterizedNames.contains name with
    | false => rfl
    | true => exact absurd underscore (plain name (List.contains_iff_mem.mp known))

theorem mem_of_isTaken_numbered {gates : List WrittenGate} {base : String} {number : Nat}
    (taken : isTaken gates (numbered base number) = true) : numbered base number ∈ gates.map (·.name) := by
  have underscore : '_' ∈ (numbered base number).toList := by
    rw [toList_numbered]
    exact List.mem_append_right _ List.mem_cons_self
  have other : (numbered base number == "sxdg") = false := by
    refine beq_false_of_ne fun same => ?_
    rw [same] at underscore
    exact absurd underscore (by decide)
  rw [isTaken, not_isBuiltin_of_underscore underscore, other, Bool.false_or, Bool.false_or, List.any_eq_true] at taken
  obtain ⟨gate, member, same⟩ := taken
  exact List.mem_map.mpr ⟨gate, member, beq_iff_eq.mp same⟩

/-- The name that is tried last is given only if all others are taken. -/
theorem suffixedName_spec (gates : List WrittenGate) (base : String) (fuel number : Nat) :
    (∃ found, suffixedName gates base fuel number = numbered base found) ∧
      (isTaken gates (suffixedName gates base fuel number) = true →
        ∀ step ≤ fuel, isTaken gates (numbered base (number + step)) = true) := by
  induction fuel generalizing number with
  | zero =>
    refine ⟨⟨number, rfl⟩, fun taken step within => ?_⟩
    rw [Nat.le_zero.mp within]
    exact taken
  | succ fuel ih =>
    obtain ⟨found, later⟩ := ih (number + 1)
    rw [suffixedName]
    split
    next now =>
      refine ⟨found, fun taken step within => ?_⟩
      cases step with
      | zero => exact now
      | succ step =>
        have next := later taken step (Nat.le_of_succ_le_succ within)
        rwa [Nat.add_assoc, Nat.add_comm 1 step] at next
    next free => exact ⟨⟨number, rfl⟩, fun taken => absurd taken free⟩

theorem isBuiltin_of_free {gates : List WrittenGate} {name : String} (free : isTaken gates name = false) :
    isBuiltin name = false := by
  rw [isTaken, Bool.or_eq_false_iff, Bool.or_eq_false_iff] at free
  exact free.1.1

theorem ne_of_free {gates : List WrittenGate} {name : String} (free : isTaken gates name = false) :
    ∀ gate ∈ gates, gate.name ≠ name := by
  rw [isTaken, Bool.or_eq_false_iff, List.any_eq_false] at free
  exact fun gate member same => free.2 gate member (beq_iff_eq.mpr same)

theorem isTaken_freeName (gates : List WrittenGate) (base : String) : isTaken gates (freeName gates base) = false := by
  unfold freeName
  split
  · cases taken : isTaken gates (suffixedName gates base gates.length 1) with
    | false => rfl
    | true =>
      have all := (suffixedName_spec gates base gates.length 1).2 taken
      have distinct : ((List.range (gates.length + 1)).map fun step => numbered base (1 + step)).Nodup :=
        List.Nodup.map (fun first second same => Nat.add_left_cancel (numbered_injective same)) List.nodup_range
      have inside : ((List.range (gates.length + 1)).map fun step => numbered base (1 + step)) ⊆ gates.map (·.name) := by
        intro name member
        obtain ⟨step, within, rfl⟩ := List.mem_map.mp member
        exact mem_of_isTaken_numbered (all step (Nat.le_of_lt_succ (List.mem_range.mp within)))
      have count := (List.subperm_of_subset distinct inside).length_le
      rw [List.length_map, List.length_map, List.length_range] at count
      omega
  · next free => exact eq_false_of_ne_true free

/-- A composite's name, or one with a number, is an identifier. -/
theorem isIdentifier_freeName (gates : List WrittenGate) {base : String}
    (named : IsIdentifier base ∨ base = "U" ∨ base = "CX") : IsIdentifier (freeName gates base) := by
  have spelled : Spelled base.toList := by
    rcases named with identifier | rfl | rfl
    · exact identifier.spelled.1
    · exact ⟨⟨_, _, rfl, rfl⟩, List.all_eq_true.mp rfl⟩
    · exact ⟨⟨_, _, rfl, rfl⟩, List.all_eq_true.mp rfl⟩
  unfold freeName
  split
  · obtain ⟨number, same⟩ := (suffixedName_spec gates base gates.length 1).1
    obtain ⟨⟨first, rest, start, letter⟩, parts⟩ := spelled
    have underscore : '_' ∈ (numbered base number).toList := by
      rw [toList_numbered]
      exact List.mem_append_right _ List.mem_cons_self
    rw [same]
    refine isIdentifier_of_spelled ⟨⟨first, rest ++ '_' :: (toString number).toList, ?_, letter⟩, ?_⟩
      (ofText?_of_not_letter underscore rfl)
    · rw [toList_numbered, start]
      rfl
    · rw [toList_numbered]
      exact List.forall_mem_append.mpr ⟨parts, List.forall_mem_cons.mpr ⟨rfl, isNamePart_of_mem_toString⟩⟩
  · next free =>
    rcases named with identifier | rfl | rfl
    · exact identifier
    · exact absurd (by rfl) free
    · exact absurd (by rfl) free

end CircuitCloak.Qasm

import CircuitCloak.Proofs.BoundarySafety

/-! What becomes of a circuit under an arbitrary transform of its body. The answer depends on the new
body alone: an instruction that does not fit is refused, an added measurement is noticed, and any other
body is taken as it is. -/

namespace CircuitCloak

/-- A check of every member of a list passes, or fails first at one of them. -/
theorem forall_or_first_error {ε α : Type} (check : α → Except ε Unit) (items : List α) :
    (∀ item ∈ items, check item = .ok ()) ∨
      ∃ before item after fault, items = before ++ item :: after ∧
        (∀ earlier ∈ before, check earlier = .ok ()) ∧ check item = .error fault := by
  induction items with
  | nil => exact .inl nofun
  | cons head rest ih =>
    cases first : check head with
    | error fault => exact .inr ⟨[], head, rest, fault, rfl, nofun, first⟩
    | ok =>
      rcases ih with passed | ⟨before, item, after, fault, rfl, earlier, failed⟩
      · exact .inl (List.forall_mem_cons.mpr ⟨first, passed⟩)
      · exact .inr ⟨head :: before, item, after, fault, rfl, List.forall_mem_cons.mpr ⟨first, earlier⟩, failed⟩

namespace Circuit

variable {circuit : Circuit} {body : List Instruction}

/-- Building stops at the first instruction that does not fit. -/
theorem pushAll_refused {before after : List Instruction} {instruction : Instruction} {fault : CircuitError}
    (earlier : ∀ other ∈ before, other.Fits circuit.numQubits circuit.numClbits)
    (refused : instruction.validate circuit.numQubits circuit.numClbits = .error fault) :
    circuit.pushAll (before ++ instruction :: after) = .error fault := by
  induction before generalizing circuit with
  | nil =>
    have stopped : circuit.push instruction = .error fault := by
      unfold push
      rw [refused]
      rfl
    rw [List.nil_append, pushAll_cons, stopped]
    rfl
  | cons other rest ih =>
    obtain ⟨first, others⟩ := List.forall_mem_cons.mp earlier
    have taken := push_eq_ok_iff.mpr ⟨first, rfl⟩
    rw [List.cons_append, pushAll_cons, taken]
    exact ih others refused

/-- What a circuit with another body is, by what the body holds. -/
inductive Answers (circuit : Circuit) (body : List Instruction) : Except TransformError Circuit → Prop where
  | misfit {before instruction after fault} (split : body = before ++ instruction :: after)
      (earlier : ∀ other ∈ before, other.Fits circuit.numQubits circuit.numClbits)
      (refused : instruction.validate circuit.numQubits circuit.numClbits = .error fault) :
      Answers circuit body (.error (.circuit fault))
  | measured (fits : ∀ instruction ∈ body, instruction.Fits circuit.numQubits circuit.numClbits)
      (added : 0 < body.countP (·.isMeasure)) :
      Answers circuit body (.error (.measurementLost circuit.measurements.length
        (circuit.measurements.length + body.countP (·.isMeasure))))
  | taken (fits : ∀ instruction ∈ body, instruction.Fits circuit.numQubits circuit.numClbits)
      (plain : body.countP (·.isMeasure) = 0) : Answers circuit body (.ok (circuit.rebuilt body))

theorem withBody_of_error {fault : CircuitError} (refused : ofInstructions circuit.name circuit.numQubits
    circuit.numClbits (body ++ circuit.measurements) = .error fault) :
    circuit.withBody body = .error (.circuit fault) := by
  unfold withBody
  rw [refused]
  rfl

/-- Added measurements stand beside those of the circuit, so that there are too many. -/
theorem checkBoundary_of_measured (added : 0 < body.countP (·.isMeasure)) :
    checkBoundary circuit (circuit.rebuilt body) = .error (.measurementLost circuit.measurements.length
      (circuit.measurements.length + body.countP (·.isMeasure))) := by
  have found : (circuit.rebuilt body).measurements.length =
      circuit.measurements.length + body.countP (·.isMeasure) := by
    have kept : circuit.measurements.filter (·.isMeasure) = circuit.measurements :=
      List.filter_eq_self.mpr isMeasure_of_measurements
    change ((body ++ circuit.measurements).filter (·.isMeasure)).length = _
    rw [List.filter_append, kept, List.length_append, List.countP_eq_length_filter, Nat.add_comm]
  have longer : circuit.measurements.length ≠ (circuit.rebuilt body).measurements.length := by omega
  have differ : ¬(circuit.measurements == (circuit.rebuilt body).measurements) = true :=
    fun same => longer (List.length_eq_of_beq same)
  have frame : circuit.frame = (circuit.rebuilt body).frame := rfl
  unfold checkBoundary
  rw [if_neg (not_not_intro frame), if_neg differ, if_neg longer, found]

/-- A body that fits, together with the measurements, is taken if it adds none. -/
theorem withBody_of_fits (fits : ∀ instruction ∈ body ++ circuit.measurements,
    instruction.Fits circuit.numQubits circuit.numClbits) :
    circuit.withBody body = if body.countP (·.isMeasure) = 0 then .ok (circuit.rebuilt body)
      else .error (.measurementLost circuit.measurements.length
        (circuit.measurements.length + body.countP (·.isMeasure))) := by
  have made : ofInstructions circuit.name circuit.numQubits circuit.numClbits
      (body ++ circuit.measurements) = .ok (circuit.rebuilt body) :=
    ofInstructions_eq_ok_iff.mpr ⟨fits, rfl⟩
  have checked : circuit.withBody body =
      (checkBoundary circuit (circuit.rebuilt body) >>= fun _ => .ok (circuit.rebuilt body)) := by
    unfold withBody
    rw [made]
    rfl
  rw [checked]
  split
  next plain =>
    have unmeasured : ∀ instruction ∈ body, instruction.isMeasure = false :=
      fun instruction member => Bool.eq_false_iff.mpr (List.countP_eq_zero.mp plain instruction member)
    rw [checkBoundary_rebuilt unmeasured]
    rfl
  next added =>
    rw [checkBoundary_of_measured (Nat.pos_of_ne_zero added)]
    rfl

/-- Where the measurements of a circuit fit, the answer for another body is known from the body. -/
theorem answers_withBody (kept : ∀ instruction ∈ circuit.measurements,
    instruction.Fits circuit.numQubits circuit.numClbits) (body : List Instruction) :
    circuit.Answers body (circuit.withBody body) := by
  rcases forall_or_first_error (·.validate circuit.numQubits circuit.numClbits) body with
    fits | ⟨before, instruction, after, fault, rfl, earlier, refused⟩
  · rw [withBody_of_fits (List.forall_mem_append.mpr ⟨fits, kept⟩)]
    split
    next plain => exact .taken fits plain
    next added => exact .measured fits (Nat.pos_of_ne_zero added)
  · have stopped : ofInstructions circuit.name circuit.numQubits circuit.numClbits
        (before ++ instruction :: after ++ circuit.measurements) = .error fault := by
      rw [List.append_assoc, List.cons_append]
      exact pushAll_refused earlier refused
    rw [withBody_of_error stopped]
    exact .misfit rfl earlier refused

theorem withBody_ne_shapeChanged (circuit : Circuit) (body : List Instruction)
    (qubits clbits otherQubits otherClbits : Nat) :
    circuit.withBody body ≠ .error (.shapeChanged qubits clbits otherQubits otherClbits) := by
  intro answer
  cases made : ofInstructions circuit.name circuit.numQubits circuit.numClbits (body ++ circuit.measurements) with
  | error fault =>
    rw [withBody_of_error made] at answer
    cases answer
  | ok output =>
    rw [withBody_of_fits (ofInstructions_eq_ok_iff.mp made).1] at answer
    split at answer <;> cases answer

variable {m : Type → Type} [Monad m] [LawfulMonad m]

/-- A transform is run once, and its answer is carried on. -/
theorem run_mapBody (circuit : Circuit)
    (transform : List Instruction → Frame → ExceptT TransformError m (List Instruction)) :
    (circuit.mapBody transform).run =
      (fun outcome => outcome >>= circuit.withBody) <$> (transform circuit.body circuit.frame).run := by
  unfold mapBody
  rw [ExceptT.run_bind, map_eq_pure_bind]
  refine bind_congr fun outcome => ?_
  cases outcome with
  | ok body => rfl
  | error fault => rfl

/-- Whatever a transform makes of the body of a circuit that steps built, and with whatever effects: its own error
is given back, and otherwise the answer is the one for the new body. It never is that the registers have
changed. -/
theorem mapBody_answers (reached : circuit.Reachable)
    (transform : List Instruction → Frame → ExceptT TransformError m (List Instruction)) :
    ∃ answer : List Instruction → Except TransformError Circuit,
      (∀ body, circuit.Answers body (answer body)) ∧
      (∀ body qubits clbits otherQubits otherClbits,
        answer body ≠ .error (.shapeChanged qubits clbits otherQubits otherClbits)) ∧
      (circuit.mapBody transform).run =
        (fun outcome => outcome >>= answer) <$> (transform circuit.body circuit.frame).run := by
  have kept : ∀ instruction ∈ circuit.measurements, instruction.Fits circuit.numQubits circuit.numClbits :=
    fun instruction member => reached.sound.fits instruction (List.mem_filter.mp member).1
  exact ⟨circuit.withBody, answers_withBody kept, circuit.withBody_ne_shapeChanged, circuit.run_mapBody transform⟩

/-- A measurement alone. -/
def read : Circuit := ⟨"read", 1, 1, #[.measure [0] [0]]⟩

theorem mapBody_answers_doubled : read.Reachable ∧
    (read.mapBody fun _ _ => pure [.measure [0] [0]] : ExceptT TransformError Id Circuit).run =
      .error (.measurementLost 1 2) := by
  have reached : read.Reachable := reachable_of_ofInstructions (by decide) (by decide)
    (show ofInstructions "read" 1 1 [.measure [0] [0]] = _ from rfl)
  obtain ⟨answer, answers, _, run⟩ := mapBody_answers reached fun _ _ =>
    (pure [.measure [0] [0]] : ExceptT TransformError Id _)
  refine ⟨reached, run.trans (show answer [.measure [0] [0]] = _ from ?_)⟩
  have found := answers [.measure [0] [0]]
  generalize answer [.measure [0] [0]] = result at found
  cases found with
  | @misfit before instruction after fault split _ refused =>
    have member : instruction ∈ [Instruction.measure [0] [0]] := split ▸ List.mem_append_right _ List.mem_cons_self
    rw [List.mem_singleton.mp member] at refused
    cases refused
  | measured => rfl
  | taken _ plain => cases plain

end Circuit

end CircuitCloak

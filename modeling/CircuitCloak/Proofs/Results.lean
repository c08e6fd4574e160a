import CircuitCloak.Word
import Mathlib.Data.List.Forall2

/-! Computations that may fail: a sequence succeeds exactly if its parts do. -/

namespace CircuitCloak

variable {ε α β : Type}

theorem bind_eq_ok_iff {first : Except ε α} {next : α → Except ε β} {result : β} :
    first >>= next = .ok result ↔ ∃ value, first = .ok value ∧ next value = .ok result := by
  cases first <;> simp [bind, Except.bind]

/-- A check, and what is done after it. -/
theorem check_bind_eq_ok_iff {check : Except ε Unit} {next : Unit → Except ε β} {result : β} :
    check >>= next = .ok result ↔ check = .ok () ∧ next () = .ok result := by
  cases check <;> simp [bind, Except.bind]

@[simp]
theorem refusing_eq_ok_iff {result : Except ε α} {value : α} :
    refusing result = .ok value ↔ result = .ok value := by
  cases result <;> simp [refusing, Except.mapError]

/-- A refusal is not a panic. -/
theorem refusing_ne_panic (result : Except ε α) : refusing result ≠ .error .panic := by
  cases result <;> simp [refusing, Except.mapError]

theorem addSizes_eq_ok_iff {first second total : Nat} :
    (addSizes first second : Except (Halt ε) Nat) = .ok total ↔
      first + second < wordCount ∧ total = first + second := by
  unfold addSizes
  split <;> simp [*, eq_comm]

theorem addSizes_eq_panic_iff {first second : Nat} :
    (addSizes first second : Except (Halt ε) Nat) = .error .panic ↔ wordCount ≤ first + second := by
  unfold addSizes
  split
  next within => simpa using within
  next beyond => simpa using beyond

/-- A condition that is refused, and what is done otherwise. -/
theorem ite_error_eq_ok_iff {refused : Prop} [Decidable refused] {fault : ε} {rest : Except ε α} {result : α} :
    (if refused then .error fault else rest) = .ok result ↔ ¬refused ∧ rest = .ok result := by
  split <;> simp [*]

/-- A check of every member of a list. -/
theorem forM_eq_ok_iff {items : List α} {check : α → Except ε Unit} :
    items.forM check = .ok () ↔ ∀ item ∈ items, check item = .ok () := by
  induction items with
  | nil => simp [pure, Except.pure]
  | cons item items ih =>
    rw [List.forM_eq_forM, List.forM_cons, bind_eq_ok_iff, List.forall_mem_cons, ← ih]
    exact ⟨fun ⟨_, first, rest⟩ => ⟨first, rest⟩, fun ⟨first, rest⟩ => ⟨(), first, rest⟩⟩

/-- Results for the members of a list stand in the order of the members. -/
theorem mapM_eq_ok_iff {items : List α} {body : α → Except ε β} {results : List β} :
    items.mapM body = .ok results ↔
      List.Forall₂ (fun item result => body item = .ok result) items results := by
  induction items generalizing results with
  | nil => simp [pure, Except.pure, eq_comm]
  | cons item items ih =>
    simp only [List.mapM_cons, bind_eq_ok_iff, ih, pure, Except.pure, Except.ok.injEq]
    constructor
    · rintro ⟨result, first, rest, later, rfl⟩
      exact .cons first later
    · rintro (_ | ⟨first, later⟩)
      exact ⟨_, first, _, later, rfl⟩

theorem mapM_ok_of_forall {items : List α} {body : α → Except ε β} {expected : α → β}
    (succeeds : ∀ item ∈ items, body item = .ok (expected item)) :
    items.mapM body = .ok (items.map expected) := by
  rw [mapM_eq_ok_iff, List.forall₂_map_right_iff]
  exact List.forall₂_same.mpr succeeds

theorem exists_mapM_ok_iff {items : List α} {body : α → Except ε β} :
    (∃ results, items.mapM body = .ok results) ↔ ∀ item ∈ items, ∃ result, body item = .ok result := by
  induction items with
  | nil => exact ⟨fun _ => nofun, fun _ => ⟨[], rfl⟩⟩
  | cons item items ih =>
    rw [List.forall_mem_cons, ← ih]
    simp only [List.mapM_cons, bind_eq_ok_iff, pure, Except.pure, Except.ok.injEq]
    constructor
    · rintro ⟨_, result, first, results, rest, _⟩
      exact ⟨⟨result, first⟩, results, rest⟩
    · rintro ⟨⟨result, first⟩, results, rest⟩
      exact ⟨_, result, first, results, rest, rfl⟩

/-- A sequence fails as one of its parts does. -/
theorem mem_of_mapM_error {items : List α} {body : α → Except ε β} {fault : ε}
    (failed : items.mapM body = .error fault) : ∃ item ∈ items, body item = .error fault := by
  induction items with
  | nil => cases failed
  | cons item items ih =>
    rw [List.mapM_cons] at failed
    cases first : body item with
    | error other =>
      rw [first] at failed
      cases failed
      exact ⟨item, List.mem_cons_self, first⟩
    | ok result =>
      rw [first] at failed
      cases rest : items.mapM body with
      | error other =>
        rw [rest] at failed
        cases failed
        obtain ⟨found, member, same⟩ := ih rest
        exact ⟨found, List.mem_cons_of_mem item member, same⟩
      | ok results =>
        rw [rest] at failed
        cases failed

/-- A run over a list keeps what each of its steps keeps for one more member. -/
theorem foldlM_follows {step : β → α → Except ε β} {property : List α → β → Prop}
    (follows : ∀ before value item next, property before value → step value item = .ok next →
      property (before ++ [item]) next)
    {before items : List α} {start result : β} (initial : property before start)
    (done : items.foldlM step start = .ok result) : property (before ++ items) result := by
  induction items generalizing before start with
  | nil =>
    cases done
    rwa [List.append_nil]
  | cons item rest ih =>
    rw [List.foldlM_cons, bind_eq_ok_iff] at done
    obtain ⟨next, first, later⟩ := done
    have whole := ih (follows before start item next initial first) later
    rwa [List.append_assoc] at whole

/-- A fold fails at the first step that fails. -/
theorem foldlM_eq_error_iff {step : β → α → Except ε β} {items : List α} {start : β} {fault : ε} :
    items.foldlM step start = .error fault ↔ ∃ before item after value, items = before ++ item :: after ∧
      before.foldlM step start = .ok value ∧ step value item = .error fault := by
  constructor
  · intro failed
    induction items generalizing start with
    | nil => cases failed
    | cons item rest ih =>
      cases first : step start item with
      | error _ =>
        rw [List.foldlM_cons, first] at failed
        cases failed
        exact ⟨[], item, rest, start, rfl, rfl, first⟩
      | ok next =>
        rw [List.foldlM_cons, first] at failed
        obtain ⟨before, last, after, value, rfl, reached, refused⟩ := ih failed
        refine ⟨item :: before, last, after, value, rfl, ?_, refused⟩
        rw [List.foldlM_cons, first]
        exact reached
  · rintro ⟨before, item, after, value, rfl, reached, refused⟩
    rw [List.foldlM_append, reached]
    change (item :: after).foldlM step value = _
    rw [List.foldlM_cons, refused]
    rfl

theorem foldlM_preserves_of_mem {step : β → α → Except ε β} {property : β → Prop} {items : List α} {start result : β}
    (preserves : ∀ item ∈ items, ∀ value next, property value → step value item = .ok next → property next)
    (initial : property start) (done : items.foldlM step start = .ok result) : property result := by
  induction items generalizing start with
  | nil =>
    cases done
    exact initial
  | cons item rest ih =>
    obtain ⟨one, others⟩ := List.forall_mem_cons.mp preserves
    rw [List.foldlM_cons, bind_eq_ok_iff] at done
    obtain ⟨next, first, later⟩ := done
    exact ih others (one start next initial first) later

/-- What every step of a run over a list preserves holds at its end. -/
theorem foldlM_preserves {step : β → α → Except ε β} {property : β → Prop}
    (preserves : ∀ value item next, property value → step value item = .ok next → property next)
    {items : List α} {start result : β} (initial : property start)
    (done : items.foldlM step start = .ok result) : property result :=
  foldlM_preserves_of_mem (fun item _ value next => preserves value item next) initial done

/-- What a list became member by member came from its members. -/
theorem exists_mem_of_forall₂ {relation : α → β → Prop} {items : List α} {results : List β} {result : β}
    (related : List.Forall₂ relation items results) (member : result ∈ results) :
    ∃ item ∈ items, relation item result := by
  induction related with
  | nil => cases member
  | cons first _ ih =>
    rcases List.mem_cons.mp member with rfl | later
    · exact ⟨_, List.mem_cons_self, first⟩
    · obtain ⟨item, within, held⟩ := ih later
      exact ⟨item, List.mem_cons_of_mem _ within, held⟩

end CircuitCloak

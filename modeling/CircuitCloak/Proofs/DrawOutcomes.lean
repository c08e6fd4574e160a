import CircuitCloak.Random.Draw
import Mathlib.Data.List.Perm.Basic
import Mathlib.Data.List.Forall2
import Mathlib.Data.List.Range

/-! What every outcome of a draw satisfies, whatever words its source yields. The rules follow the
shape of the computation, so a property of a transform needs no reasoning about sources. -/

namespace CircuitCloak.Random

variable {σ α β : Type}

/-- Every outcome of a draw has a property. -/
def Always (draw : Draw σ α) (property : α → Prop) : Prop :=
  ∀ source, property (draw.run source).1

namespace Always

theorem pure {property : α → Prop} {value : α} (holds : property value) :
    Always (Pure.pure value : Draw σ α) property :=
  fun _ => holds

theorem trivial (draw : Draw σ α) : Always draw fun _ => True := fun _ => True.intro

theorem mono {draw : Draw σ α} {first second : α → Prop} (held : Always draw first)
    (implies : ∀ value, first value → second value) : Always draw second :=
  fun source => implies _ (held source)

theorem bind {draw : Draw σ α} {next : α → Draw σ β} {first : α → Prop} {second : β → Prop}
    (held : Always draw first) (resume : ∀ value, first value → Always (next value) second) :
    Always (draw >>= next) second :=
  fun source => resume _ (held source) _

theorem map {draw : Draw σ α} {first : α → Prop} {second : β → Prop} {f : α → β}
    (held : Always draw first) (implies : ∀ value, first value → second (f value)) :
    Always (f <$> draw) second :=
  fun source => implies _ (held source)

/-- Outcomes for the members of a list stand in the order of the members. -/
theorem mapM {items : List α} {body : α → Draw σ β} {property : α → β → Prop}
    (held : ∀ item ∈ items, Always (body item) (property item)) :
    Always (items.mapM body) (List.Forall₂ property items) := by
  induction items with
  | nil => exact Always.pure .nil
  | cons item items ih =>
    rw [List.mapM_cons]
    refine bind (held item (by simp)) fun value first => ?_
    refine bind (ih fun other member => held other (by simp [member])) fun values rest => ?_
    exact Always.pure (.cons first rest)

/-- What every step of a run over a list preserves holds at its end. -/
theorem foldlM {items : List α} {body : β → α → Draw σ β} {property : β → Prop} {start : β}
    (initial : property start)
    (step : ∀ value item, item ∈ items → property value → Always (body value item) property) :
    Always (items.foldlM body start) property := by
  induction items generalizing start with
  | nil => exact Always.pure initial
  | cons item items ih =>
    rw [List.foldlM_cons]
    refine bind (step start item (by simp) initial) fun value held => ?_
    exact ih held fun value other member => step value other (by simp [member])

end Always

/-- A draw of words that stay below a bound. -/
def Words (draw : Draw σ Nat) (width : Nat) : Prop := Always draw (· < Nat.pow 2 width)

theorem redraw_words {draw : Draw σ Nat} {width : Nat} (words : Words draw width)
    (accept : Nat → Bool) (bound : Nat) : Words (redraw draw accept bound) width := by
  induction bound with
  | zero => exact words
  | succ bound ih =>
    refine Always.bind words fun word small => ?_
    split
    · exact Always.pure small
    · exact ih

/-- The quotient of a word by the width spreads over the integers below `n`. -/
theorem uniform_below {draw : Draw σ Nat} {width : Nat} (words : Words draw width) {n : Nat}
    (positive : 0 < n) : Always (uniform draw width n) (· < n) := by
  refine Always.bind (redraw_words words _ _) fun word small => Always.pure ?_
  apply Nat.div_lt_of_lt_mul
  exact Nat.mul_lt_mul_of_pos_right small positive

variable [WordSource σ]

theorem word32_words : Words (word32 : Draw σ Nat) 32 := fun source =>
  (WordSource.next32 source).1.toNat_lt

theorem below_lt {n : Nat} (positive : 0 < n) : Always (below n : Draw σ Nat) (· < n) :=
  uniform_below word32_words positive

theorem word64_words : Words (word64 : Draw σ Nat) 64 := fun source =>
  (WordSource.next64 source).1.toNat_lt

theorem belowLong_lt {n : Nat} (positive : 0 < n) : Always (belowLong n : Draw σ Nat) (· < n) :=
  uniform_below word64_words positive

theorem choose_mem (items : List α) (inhabited : items ≠ []) :
    Always (choose items.toArray : Draw σ (Option α)) fun chosen => ∃ item ∈ items, chosen = some item := by
  have full : items.toArray.isEmpty = false := by simpa using inhabited
  have positive : 0 < items.toArray.size := List.length_pos_iff.mpr inhabited
  unfold choose
  rw [full]
  refine Always.bind (below_lt positive) fun index inside => Always.pure ?_
  exact ⟨items.get ⟨index, by simpa using inside⟩, List.getElem_mem _, by simp⟩

private theorem shuffleDown_perm (position : Nat) (items : Array α) :
    Always (shuffleDown position items : Draw σ (Array α)) (·.toList.Perm items.toList) := by
  induction position generalizing items with
  | zero => exact Always.pure (List.Perm.refl _)
  | succ position ih =>
    refine Always.bind (Always.trivial _) fun other _ => ?_
    refine (ih _).mono fun result permuted => permuted.trans ?_
    unfold Array.swapIfInBounds
    split
    · split
      · exact Array.perm_iff_toList_perm.mp (Array.swap_perm _ _)
      · exact List.Perm.refl _
    · exact List.Perm.refl _

theorem shuffle_perm (items : Array α) :
    Always (shuffle items : Draw σ (Array α)) (·.toList.Perm items.toList) :=
  shuffleDown_perm _ _

/-- Distinct indices below a bound, in any order. -/
structure Sample (bound count : Nat) (indices : List Nat) : Prop where
  length : indices.length = count
  distinct : indices.Nodup
  inside : ∀ index ∈ indices, index < bound

/-- A repeated index makes room for the bound itself, which no smaller sample contains. -/
theorem extendSample_sample {bound count : Nat} {indices : List Nat}
    (sample : Sample bound count indices) :
    Always (extendSample bound indices : Draw σ (List Nat)) (Sample (bound + 1) (count + 1)) := by
  have fresh : bound ∉ indices := fun member => absurd (sample.inside _ member) (Nat.lt_irrefl _)
  refine Always.bind (below_lt (Nat.succ_pos bound)) fun index inside => ?_
  split
  next place found =>
    obtain ⟨within, _, _⟩ := List.idxOf?_eq_some_iff.mp found
    have permuted := List.perm_insertIdx bound indices (Nat.le_of_lt within)
    refine Always.pure ⟨by simp [permuted.length_eq, sample.length], ?_, ?_⟩
    · exact permuted.nodup_iff.mpr (List.nodup_cons.mpr ⟨fresh, sample.distinct⟩)
    · intro other member
      rcases List.mem_cons.mp (permuted.mem_iff.mp member) with rfl | earlier
      · exact Nat.lt_succ_self _
      · exact Nat.lt_succ_of_lt (sample.inside _ earlier)
  next absent =>
    have new : index ∉ indices := List.idxOf?_eq_none_iff.mp absent
    refine Always.pure ⟨by simp [sample.length], ?_, ?_⟩
    · exact List.nodup_append.mpr ⟨sample.distinct, by simp, fun first member second last => by
        rw [List.mem_singleton.mp last]
        exact fun same => new (same ▸ member)⟩
    · intro other member
      rcases List.mem_append.mp member with earlier | last
      · exact Nat.lt_succ_of_lt (sample.inside _ earlier)
      · rw [List.mem_singleton.mp last]
        exact inside

theorem sampleIndices_sample {size count : Nat} (fits : count ≤ size) :
    Always (sampleIndices size count : Draw σ (List Nat)) (Sample size count) := by
  have grown : ∀ steps, steps ≤ count → Always ((List.range steps).foldlM
      (fun sample step => extendSample (size - count + step) sample) [] : Draw σ (List Nat))
      (Sample (size - count + steps) steps) := by
    intro steps
    induction steps with
    | zero => exact fun _ => Always.pure ⟨rfl, List.nodup_nil, by simp⟩
    | succ steps ih =>
      intro within
      rw [List.range_succ, List.foldlM_append]
      refine Always.bind (ih (Nat.le_of_succ_le within)) fun sample held => ?_
      rw [List.foldlM_cons]
      exact Always.bind (extendSample_sample held) fun _ extended => Always.pure extended
  have whole := grown count (Nat.le_refl _)
  rwa [Nat.sub_add_cancel fits] at whole

/-- A search ends within its bounds, however its values are ordered. -/
theorem countUpTo_le (sums : Array Float) (value : Float) {low high : Nat} (ordered : low ≤ high) :
    countUpTo sums value low high ≤ high := by
  induction low, high using countUpTo.induct sums value with
  | case1 low high apart middle fits ih =>
    rw [countUpTo, if_pos apart, if_pos fits]
    exact ih (by omega)
  | case2 low high apart middle beyond ih =>
    rw [countUpTo, if_pos apart, if_neg beyond]
    exact Nat.le_trans (ih (by omega)) (by omega)
  | case3 low high met =>
    rw [countUpTo, if_neg met]
    exact ordered

/-- Where the sums are all alike, a search ends at one of its bounds. -/
theorem countUpTo_of_alike {sums : Array Float} {value : Float} {low high : Nat} {fits : Bool} (ordered : low ≤ high)
    (alike : ∀ place < high, sums[place]?.any (· ≤ value) = fits) :
    countUpTo sums value low high = if fits then high else low := by
  induction low, high using countUpTo.induct sums value with
  | case1 low high apart middle fit ih =>
    have raised : fits = true := (alike middle (by omega)).symm.trans fit
    rw [countUpTo, if_pos apart, if_pos fit, ih (by omega) alike, if_pos raised, if_pos raised]
  | case2 low high apart middle beyond ih =>
    have lowered : fits ≠ true := fun raised => beyond ((alike middle (by omega)).trans raised)
    rw [countUpTo, if_pos apart, if_neg beyond, ih (by omega) fun place inside => alike place (by omega),
      if_neg lowered, if_neg lowered]
  | case3 low high met =>
    have same : low = high := by omega
    rw [countUpTo, if_neg met, same, ite_self]

/-- Adds a weight to the sums so far, of which the last is the total. -/
def addWeight (state : Array Float × Float) (weight : Float) : Array Float × Float :=
  (state.1.push (state.2 + weight), state.2 + weight)

theorem Weights.ofArray_eq (weights : Array Float) : Weights.ofArray weights =
    if weights.all (· ≥ 0) then
      if (weights.foldl addWeight (#[], 0)).2 == 0 then .error .allZero
      else .ok ⟨(weights.foldl addWeight (#[], 0)).1.pop, (weights.foldl addWeight (#[], 0)).2⟩
    else .error .invalidWeight := rfl

theorem Weights.ofArray_of_sums {weights : Array Float} {sums : Array Float} {total : Float}
    (nonneg : ∀ weight ∈ weights, weight ≥ 0) (added : weights.foldl addWeight (#[], 0) = (sums, total))
    (some : (total == 0) = false) : Weights.ofArray weights = .ok ⟨sums.pop, total⟩ := by
  have all : weights.all (· ≥ 0) = true := by
    rw [Array.all_eq_true_iff_forall_mem]
    exact fun weight member => decide_eq_true (nonneg weight member)
  rw [ofArray_eq, if_pos all, added, some]
  rfl

theorem Weights.size_of_ofArray {weights : Array Float} {prepared : Weights}
    (made : Weights.ofArray weights = .ok prepared) : prepared.partialSums.size = weights.size - 1 := by
  have grown : (weights.foldl addWeight (#[], 0)).1.size = weights.size := by
    refine Array.foldl_induction (fun place (state : Array Float × Float) => state.1.size = place) rfl ?_
    intro place state held
    exact (Array.size_push _).trans (congrArg (· + 1) held)
  rw [ofArray_eq] at made
  split at made
  · split at made
    · cases made
    · cases made
      exact Array.size_pop.trans (congrArg (· - 1) grown)
  · cases made

theorem Weights.sample_lt {weights : Array Float} {prepared : Weights}
    (made : Weights.ofArray weights = .ok prepared) (some : 0 < weights.size) :
    Always (prepared.sample : Draw σ Nat) (· < weights.size) := by
  refine Always.bind (Always.trivial _) fun share _ => Always.pure ?_
  have within := countUpTo_le prepared.partialSums (share * prepared.total) (Nat.zero_le prepared.partialSums.size)
  have fewer := Weights.size_of_ofArray made
  omega

end CircuitCloak.Random

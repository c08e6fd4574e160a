import CircuitCloak.Evaluation.Accuracy
import CircuitCloak.Proofs.Histograms
import Mathlib.Algebra.BigOperators.Ring.Finset
import Mathlib.Algebra.Order.BigOperators.Group.Finset
import Mathlib.Algebra.Order.Group.Unbundled.Abs

/-! What two histograms share. The sum runs over the entries of one histogram, but an outcome without an entry counts
zero; so it is the sum of the smaller counts over any outcomes that cover the entries, and what each histogram has
beyond it is half the distance between them. -/

namespace CircuitCloak.Counts

variable {counts first second : Counts} {outcome : String} {count : UInt64}

/-- No outcome has two entries. The entries may stand in any order. -/
def Distinct (counts : Counts) : Prop := (counts.entries.map Prod.fst).Nodup

def outcomes (counts : Counts) : Finset String := (counts.entries.map Prod.fst).toFinset

theorem get_of_mem (distinct : counts.Distinct) {entry : String × UInt64} (member : entry ∈ counts.entries) :
    counts.get entry.1 = entry.2 := by
  obtain ⟨front, back, same⟩ := List.mem_iff_append.mp member
  have found : counts.entries.lookup entry.1 = some entry.2 := by
    refine List.lookup_eq_some_iff.mpr ⟨front, back, same, ?_⟩
    intro earlier before
    unfold Distinct at distinct
    rw [same, List.map_append, List.map_cons, List.nodup_append] at distinct
    have different := distinct.2.2 earlier.1 (List.mem_map_of_mem before) entry.1 List.mem_cons_self
    exact bne_iff_ne.mpr different.symm
  rw [get, found, Option.getD_some]

theorem get_of_notMem (absent : outcome ∉ counts.outcomes) : counts.get outcome = 0 := by
  have missing : counts.entries.lookup outcome = none := by
    refine List.lookup_eq_none_iff.mpr fun entry member => bne_iff_ne.mpr ?_
    rintro rfl
    exact absent (List.mem_toFinset.mpr (List.mem_map_of_mem member))
  rw [get, missing, Option.getD_none]

theorem insertEntry_ascending {entries : List (String × UInt64)} (ascending : entries.Pairwise (·.1 < ·.1)) :
    (insertEntry outcome count entries).Pairwise (·.1 < ·.1) := by
  induction entries with
  | nil => exact List.pairwise_singleton ..
  | cons entry rest ih =>
    obtain ⟨first, seen⟩ := entry
    have lower := List.pairwise_cons.mp ascending
    unfold insertEntry
    split
    next below =>
      refine List.pairwise_cons.mpr ⟨List.forall_mem_cons.mpr ⟨below, ?_⟩, ascending⟩
      intro later member
      exact String.lt_trans below (lower.1 later member)
    next notBelow =>
      split
      next => exact List.pairwise_cons.mpr lower
      next different =>
        refine List.pairwise_cons.mpr ⟨?_, ih lower.2⟩
        intro entry member
        have above : first < outcome := Std.lt_of_le_of_ne notBelow (Ne.symm different)
        rcases (inserted outcome count rest).mem member with old | rfl | ⟨seen, old, rfl⟩
        · exact lower.1 entry old
        · exact above
        · exact above

/-- The entries stand in ascending order, each outcome once. -/
def Ascending (counts : Counts) : Prop := counts.entries.Pairwise (·.1 < ·.1)

theorem ascending_empty : empty.Ascending := List.Pairwise.nil

theorem Ascending.insert (ascending : counts.Ascending) (outcome : String) (count : UInt64) :
    (counts.insert outcome count).Ascending :=
  insertEntry_ascending ascending

theorem Ascending.distinct (ascending : counts.Ascending) : counts.Distinct := by
  refine List.pairwise_map.mpr (ascending.imp ?_)
  intro before after below same
  exact String.lt_irrefl _ (same ▸ below)

theorem ascending_ofList (observations : List (String × UInt64)) : (ofList observations).Ascending :=
  List.foldlRecOn observations _ ascending_empty fun _ ascending entry _ => ascending.insert entry.1 entry.2

theorem distinct_ofList (observations : List (String × UInt64)) : (ofList observations).Distinct :=
  (ascending_ofList observations).distinct

/-- A sum over the entries is a sum over any outcomes that cover them. -/
theorem sum_entries (distinct : counts.Distinct) {covering : Finset String} (covered : counts.outcomes ⊆ covering)
    (weight : String → UInt64 → Nat) (none : ∀ outcome, weight outcome 0 = 0) :
    (counts.entries.map fun entry => weight entry.1 entry.2).sum =
      ∑ outcome ∈ covering, weight outcome (counts.get outcome) := by
  have listed : counts.entries.map (fun entry => weight entry.1 entry.2) =
      (counts.entries.map Prod.fst).map fun outcome => weight outcome (counts.get outcome) := by
    rw [List.map_map]
    apply List.map_congr_left
    intro entry member
    exact congrArg (weight entry.1) (get_of_mem distinct member).symm
  rw [listed, ← List.sum_toFinset _ distinct]
  apply Finset.sum_subset covered
  intro outcome _ absent
  rw [get_of_notMem absent, none]

theorem observed_eq_sum (distinct : counts.Distinct) {covering : Finset String}
    (covered : counts.outcomes ⊆ covering) : counts.observed = ∑ outcome ∈ covering, (counts.get outcome).toNat :=
  sum_entries distinct covered (fun _ => UInt64.toNat) fun _ => rfl

theorem toNat_total_of_lt (word : counts.observed < 2 ^ 64) : counts.total.toNat = counts.observed := by
  rw [toNat_total, Nat.mod_eq_of_lt word]

/-- Two counts differ by what each has beyond the smaller one. -/
theorem sum_apart (covering : Finset String) (one other : String → Nat) :
    ∑ outcome ∈ covering, |(one outcome : ℤ) - other outcome| =
      ∑ outcome ∈ covering, (one outcome : ℤ) + ∑ outcome ∈ covering, (other outcome : ℤ) -
        2 * ∑ outcome ∈ covering, ((min (one outcome) (other outcome) : ℕ) : ℤ) := by
  rw [← Finset.sum_add_distrib, Finset.mul_sum, ← Finset.sum_sub_distrib]
  apply Finset.sum_congr rfl
  intro outcome _
  rcases Nat.le_total (one outcome) (other outcome) with below | above
  · rw [Nat.min_eq_left below, abs_of_nonpos (by omega)]
    omega
  · rw [Nat.min_eq_right above, abs_of_nonneg (by omega)]
    omega

/-- What is shared is never more than what was observed, so its sum does not overflow either. -/
theorem toNat_shared (distinct : first.Distinct) (word : first.observed < 2 ^ 64) (second : Counts)
    {covering : Finset String} (covered : first.outcomes ⊆ covering) : (first.shared second).toNat =
      ∑ outcome ∈ covering, min (first.get outcome).toNat (second.get outcome).toNat := by
  have summed : (first.entries.map fun entry => (min entry.2 (second.get entry.1)).toNat).sum =
      ∑ outcome ∈ covering, min (first.get outcome).toNat (second.get outcome).toNat := by
    simp only [UInt64.toNat_min]
    exact sum_entries distinct covered (fun outcome count => min count.toNat (second.get outcome).toNat)
      fun outcome => Nat.zero_min _
  have within : ∑ outcome ∈ covering, min (first.get outcome).toNat (second.get outcome).toNat ≤ first.observed := by
    rw [observed_eq_sum distinct covered]
    apply Finset.sum_le_sum
    intro outcome _
    exact Nat.min_le_left ..
  refine (toNat_foldr (fun entry => min entry.2 (second.get entry.1)) first.entries).trans ?_
  rw [summed, Nat.mod_eq_of_lt (Nat.lt_of_le_of_lt within word)]

/-- While no total overflows, what a histogram shares with another one is at most its total, and all of it only if no
outcome was seen more often than in the other; it does not matter which of the two comes first; and between equal
totals it falls short by half their distance. -/
theorem shared_distance (distinctFirst : first.Distinct) (distinctSecond : second.Distinct)
    (wordFirst : first.observed < 2 ^ 64) (wordSecond : second.observed < 2 ^ 64) :
    first.shared second ≤ first.total ∧
      (first.shared second = first.total ↔ ∀ outcome, first.get outcome ≤ second.get outcome) ∧
      first.shared second = second.shared first ∧
      ∀ total, first.total = total → second.total = total →
        2 * ((total.toNat : ℤ) - (first.shared second).toNat) = ∑ outcome ∈ first.outcomes ∪ second.outcomes,
          |((first.get outcome).toNat : ℤ) - (second.get outcome).toNat| := by
  have left : first.outcomes ⊆ first.outcomes ∪ second.outcomes := Finset.subset_union_left
  have right : second.outcomes ⊆ first.outcomes ∪ second.outcomes := Finset.subset_union_right
  have shared := toNat_shared distinctFirst wordFirst second left
  have back := toNat_shared distinctSecond wordSecond first right
  have ours := observed_eq_sum distinctFirst left
  have theirs := observed_eq_sum distinctSecond right
  rw [← toNat_total_of_lt wordFirst] at ours
  rw [← toNat_total_of_lt wordSecond] at theirs
  have smaller : ∀ outcome ∈ first.outcomes ∪ second.outcomes,
      min (first.get outcome).toNat (second.get outcome).toNat ≤ (first.get outcome).toNat :=
    fun outcome _ => Nat.min_le_left ..
  refine ⟨?_, ?_, ?_, ?_⟩
  · rw [UInt64.le_iff_toNat_le, shared, ours]
    exact Finset.sum_le_sum smaller
  · rw [← UInt64.toNat_inj, shared, ours, Finset.sum_eq_sum_iff_of_le smaller]
    constructor
    · intro whole outcome
      by_cases listed : outcome ∈ first.outcomes ∪ second.outcomes
      · exact UInt64.le_iff_toNat_le.mpr (min_eq_left_iff.mp (whole outcome listed))
      · have none : first.get outcome = 0 := get_of_notMem fun member => listed (Finset.mem_union_left _ member)
        rw [none]
        exact UInt64.zero_le
    · intro below outcome _
      exact Nat.min_eq_left (UInt64.le_iff_toNat_le.mp (below outcome))
  · rw [← UInt64.toNat_inj, shared, back]
    apply Finset.sum_congr rfl
    intro outcome _
    exact Nat.min_comm ..
  · rintro total rfl same
    rw [sum_apart, ← Nat.cast_sum, ← Nat.cast_sum, ← Nat.cast_sum, ← ours, ← theirs, ← shared, same]
    omega

/-- Ten observations each, of which six are shared. -/
def firstRun : Counts := ofList [("11", 2), ("00", 5), ("01", 3)]

def secondRun : Counts := ofList [("10", 3), ("00", 6), ("01", 1)]

theorem shared_distance_runs : firstRun.Distinct ∧ secondRun.Distinct ∧ firstRun.observed < 2 ^ 64 ∧
    secondRun.observed < 2 ^ 64 ∧ firstRun.total = 10 ∧ secondRun.total = 10 ∧ secondRun.shared firstRun = 6 ∧
    ∑ outcome ∈ firstRun.outcomes ∪ secondRun.outcomes,
      |((firstRun.get outcome).toNat : ℤ) - (secondRun.get outcome).toNat| = 8 := by
  have distinctFirst : firstRun.Distinct := distinct_ofList _
  have distinctSecond : secondRun.Distinct := distinct_ofList _
  have wordFirst : firstRun.observed < 2 ^ 64 := by decide
  have wordSecond : secondRun.observed < 2 ^ 64 := by decide
  have totalFirst : firstRun.total = 10 := by decide
  have totalSecond : secondRun.total = 10 := by decide
  have six : firstRun.shared secondRun = 6 := by decide
  obtain ⟨-, -, same, distance⟩ := shared_distance distinctFirst distinctSecond wordFirst wordSecond
  refine ⟨distinctFirst, distinctSecond, wordFirst, wordSecond, totalFirst, totalSecond, same.symm.trans six, ?_⟩
  rw [← distance 10 totalFirst totalSecond, six]
  decide

end CircuitCloak.Counts

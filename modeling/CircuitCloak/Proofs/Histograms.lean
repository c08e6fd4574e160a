import CircuitCloak.Execution.Counts
import Mathlib.Algebra.GroupWithZero.Nat
import Mathlib.Algebra.Order.BigOperators.Group.List
import Mathlib.Algebra.Order.Group.Nat

/-! What histograms hold. An insertion raises the entry of its outcome or puts one there, and touches no other;
so as long as no sum overflows its word, observations add up and no outcome is listed without one. -/

namespace CircuitCloak

namespace Counts

variable {outcome : String} {count : UInt64} {before after : List (String × UInt64)} {counts : Counts}

/-- Entries before and after an insertion. -/
inductive Inserted (outcome : String) (count : UInt64) :
    List (String × UInt64) → List (String × UInt64) → Prop where
  | added (front back : List (String × UInt64)) :
      Inserted outcome count (front ++ back) (front ++ (outcome, count) :: back)
  | raised (front back : List (String × UInt64)) (seen : UInt64) :
      Inserted outcome count (front ++ (outcome, seen) :: back) (front ++ (outcome, seen + count) :: back)

theorem Inserted.cons (inserted : Inserted outcome count before after) (first : String × UInt64) :
    Inserted outcome count (first :: before) (first :: after) := by
  cases inserted with
  | added front back => exact .added (first :: front) back
  | raised front back seen => exact .raised (first :: front) back seen

theorem inserted (outcome : String) (count : UInt64) (entries : List (String × UInt64)) :
    Inserted outcome count entries (insertEntry outcome count entries) := by
  induction entries with
  | nil => exact .added [] []
  | cons entry rest ih =>
    obtain ⟨first, seen⟩ := entry
    unfold insertEntry
    split
    next => exact .added [] _
    next =>
      split
      next same => exact same ▸ .raised [] rest seen
      next => exact ih.cons _

theorem Inserted.mem (inserted : Inserted outcome count before after) {entry : String × UInt64}
    (member : entry ∈ after) : entry ∈ before ∨ entry = (outcome, count) ∨
      ∃ seen, (outcome, seen) ∈ before ∧ entry = (outcome, seen + count) := by
  cases inserted with
  | added front back =>
    rcases List.mem_append.mp member with early | late
    · exact .inl (List.mem_append_left _ early)
    · rcases List.mem_cons.mp late with same | later
      · exact .inr (.inl same)
      · exact .inl (List.mem_append_right _ later)
  | raised front back seen =>
    rcases List.mem_append.mp member with early | late
    · exact .inl (List.mem_append_left _ early)
    · rcases List.mem_cons.mp late with same | later
      · exact .inr (.inr ⟨seen, List.mem_append_right _ List.mem_cons_self, same⟩)
      · exact .inl (List.mem_append_right _ (List.mem_cons_of_mem _ later))

/-- How many observations there are, of any outcome. -/
def observed (counts : Counts) : Nat := (counts.entries.map (·.2.toNat)).sum

theorem le_observed {entry : String × UInt64} (member : entry ∈ counts.entries) :
    entry.2.toNat ≤ counts.observed :=
  List.le_sum_of_mem (List.mem_map_of_mem (f := (·.2.toNat)) member)

/-- A sum of words is the word of the sum. -/
theorem toNat_foldr (weight : String × UInt64 → UInt64) (entries : List (String × UInt64)) :
    (entries.foldr (fun entry sum => weight entry + sum) 0).toNat =
      (entries.map fun entry => (weight entry).toNat).sum % 2 ^ 64 := by
  induction entries with
  | nil => rfl
  | cons entry rest ih =>
    rw [List.foldr_cons, List.map_cons, List.sum_cons, UInt64.toNat_add, ih, Nat.add_mod_mod]

theorem toNat_total (counts : Counts) : counts.total.toNat = counts.observed % 2 ^ 64 :=
  toNat_foldr Prod.snd counts.entries

theorem toNat_add {seen : UInt64} (word : seen.toNat + count.toNat < 2 ^ 64) :
    (seen + count).toNat = seen.toNat + count.toNat := by
  rw [UInt64.toNat_add, Nat.mod_eq_of_lt word]

theorem Inserted.observed (inserted : Inserted outcome count before after)
    (word : Counts.observed ⟨before⟩ + count.toNat < 2 ^ 64) :
    Counts.observed ⟨after⟩ = Counts.observed ⟨before⟩ + count.toNat := by
  cases inserted with
  | added front back =>
    simp only [Counts.observed, List.map_append, List.map_cons, List.sum_append, List.sum_cons]
    omega
  | raised front back seen =>
    simp only [Counts.observed, List.map_append, List.map_cons, List.sum_append, List.sum_cons] at word ⊢
    rw [toNat_add (by omega)]
    omega

/-- So many observations, all of outcomes with a property, and no outcome is listed that was not seen. -/
structure Tallies (property : String → Prop) (shots : Nat) (counts : Counts) : Prop where
  observed : counts.observed = shots
  seen : ∀ entry ∈ counts.entries, entry.2 ≠ 0
  outcomes : ∀ entry ∈ counts.entries, property entry.1

namespace Tallies

variable {property : String → Prop} {shots : Nat}

theorem empty : Tallies property 0 empty := ⟨rfl, nofun, nofun⟩

theorem total (tallies : Tallies property shots counts) (word : shots < 2 ^ 64) : counts.total.toNat = shots := by
  rw [toNat_total, tallies.observed, Nat.mod_eq_of_lt word]

theorem insert (tallies : Tallies property shots counts) (recorded : property outcome) (some : count ≠ 0)
    (word : shots + count.toNat < 2 ^ 64) : Tallies property (shots + count.toNat) (counts.insert outcome count) := by
  have inserted := inserted outcome count counts.entries
  refine ⟨?_, ?_, ?_⟩
  · rw [← tallies.observed] at word ⊢
    exact inserted.observed word
  · intro entry member
    rcases inserted.mem member with old | rfl | ⟨seen, old, rfl⟩
    · exact tallies.seen entry old
    · exact some
    · intro none
      have fits : seen.toNat + count.toNat < 2 ^ 64 := by
        have within : seen.toNat ≤ counts.observed := le_observed old
        rw [tallies.observed] at within
        omega
      have vanished : seen.toNat + count.toNat = 0 := (toNat_add fits).symm.trans (congrArg UInt64.toNat none)
      exact some (UInt64.toNat_inj.mp (Nat.eq_zero_of_add_eq_zero_left vanished))
  · intro entry member
    rcases inserted.mem member with old | rfl | ⟨seen, old, rfl⟩
    · exact tallies.outcomes entry old
    · exact recorded
    · exact recorded

/-- An outcome that was not seen is left out. -/
theorem insertSome (tallies : Tallies property shots counts) {times : Nat} (recorded : times ≠ 0 → property outcome)
    (word : shots + times < 2 ^ 64) : Tallies property (shots + times)
      (if times = 0 then counts else counts.insert outcome (UInt64.ofNat times)) := by
  split
  next none => exact none ▸ tallies
  next some =>
    have same : (UInt64.ofNat times).toNat = times :=
      UInt64.toNat_ofNat_of_lt' (Nat.lt_of_le_of_lt (Nat.le_add_left ..) word)
    have seen : UInt64.ofNat times ≠ 0 := fun none => some (same.symm.trans (congrArg UInt64.toNat none))
    have inserted := tallies.insert (recorded some) seen (same.symm ▸ word)
    rwa [same] at inserted

end Tallies

end Counts

end CircuitCloak

import CircuitCloak.Proofs.SharedObservations

/-! Histograms as multisets. An outcome was seen as often as observations of it add up to, so neither the order of the
observations nor the way they came plays a part; and what is told of a histogram can be told from its entries in any
order, since of two entries that were seen as often the comparison prefers the smaller outcome. -/

namespace CircuitCloak.Counts

variable {counts first second : Counts} {outcome other : String} {count : UInt64}
  {observations listing : List (String × UInt64)}

theorem mem_entries_iff (distinct : counts.Distinct) {entry : String × UInt64} :
    entry ∈ counts.entries ↔ entry.1 ∈ counts.outcomes ∧ counts.get entry.1 = entry.2 := by
  constructor
  · intro member
    exact ⟨List.mem_toFinset.mpr (List.mem_map_of_mem member), get_of_mem distinct member⟩
  · rintro ⟨listed, same⟩
    obtain ⟨found, member, named⟩ := List.mem_map.mp (List.mem_toFinset.mp listed)
    have entire : found = entry := Prod.ext named ((get_of_mem distinct member).symm.trans (named ▸ same))
    exact entire ▸ member

theorem eq_of_perm {entries listing : List (String × UInt64)} (ascending : entries.Pairwise (·.1 < ·.1))
    (sorted : listing.Pairwise (·.1 < ·.1)) (perm : listing.Perm entries) : listing = entries :=
  perm.eq_of_pairwise (fun _ _ _ _ below above => absurd (String.lt_trans below above) (String.lt_irrefl _)) sorted
    ascending

theorem eq_of_get (ascendingFirst : first.Ascending) (ascendingSecond : second.Ascending)
    (outcomes : ∀ outcome, outcome ∈ first.outcomes ↔ outcome ∈ second.outcomes)
    (same : ∀ outcome, first.get outcome = second.get outcome) : first = second := by
  have perm : first.entries.Perm second.entries := by
    apply (List.perm_ext_iff_of_nodup ascendingFirst.distinct.of_map ascendingSecond.distinct.of_map).mpr
    intro entry
    rw [mem_entries_iff ascendingFirst.distinct, mem_entries_iff ascendingSecond.distinct, outcomes, same]
  exact congrArg mk (eq_of_perm ascendingSecond ascendingFirst perm)

theorem mem_outcomes_insert :
    other ∈ (counts.insert outcome count).outcomes ↔ other = outcome ∨ other ∈ counts.outcomes := by
  have inserted := inserted outcome count counts.entries
  unfold outcomes
  rw [List.mem_toFinset, List.mem_toFinset]
  change other ∈ (insertEntry outcome count counts.entries).map Prod.fst ↔ _
  generalize insertEntry outcome count counts.entries = after at inserted ⊢
  generalize counts.entries = before at inserted ⊢
  cases inserted with
  | added front back => grind
  | raised front back seen => grind

theorem lookup_insertEntry_of_ne (differ : other ≠ outcome) (entries : List (String × UInt64)) :
    (insertEntry outcome count entries).lookup other = entries.lookup other := by
  induction entries with
  | nil => rw [insertEntry, List.lookup_cons, beq_false_of_ne differ]
  | cons entry rest ih =>
    obtain ⟨first, seen⟩ := entry
    unfold insertEntry
    split
    next => rw [List.lookup_cons, beq_false_of_ne differ]
    next =>
      split
      next same => rw [List.lookup_cons, List.lookup_cons, ← same, beq_false_of_ne differ]
      next => rw [List.lookup_cons, List.lookup_cons, ih]

theorem lookup_insertEntry_self {entries : List (String × UInt64)} (ascending : entries.Pairwise (·.1 < ·.1)) :
    (insertEntry outcome count entries).lookup outcome = some ((entries.lookup outcome).getD 0 + count) := by
  induction entries with
  | nil => simp [insertEntry]
  | cons entry rest ih =>
    obtain ⟨first, seen⟩ := entry
    obtain ⟨lower, others⟩ := List.pairwise_cons.mp ascending
    unfold insertEntry
    split
    next below =>
      have absent : ((first, seen) :: rest).lookup outcome = none := by
        refine List.lookup_eq_none_iff.mpr (List.forall_mem_cons.mpr ⟨?_, fun entry member => ?_⟩)
        · exact bne_iff_ne.mpr (String.ne_of_lt below)
        · exact bne_iff_ne.mpr (String.ne_of_lt (String.lt_trans below (lower entry member)))
      rw [absent, List.lookup_cons_self, Option.getD_none, UInt64.zero_add]
    next =>
      split
      next same => rw [same, List.lookup_cons_self, List.lookup_cons_self, Option.getD_some]
      next differ => rw [List.lookup_cons, List.lookup_cons, beq_false_of_ne differ, ih others]

theorem get_insert (ascending : counts.Ascending) : (counts.insert outcome count).get other =
    if other = outcome then counts.get outcome + count else counts.get other := by
  unfold get insert
  split
  next same => rw [same, lookup_insertEntry_self ascending, Option.getD_some]
  next differ => rw [lookup_insertEntry_of_ne differ]

def fill (counts : Counts) (observations : List (String × UInt64)) : Counts :=
  observations.foldl (fun counts entry => counts.insert entry.1 entry.2) counts

theorem Ascending.fill (ascending : counts.Ascending) (observations : List (String × UInt64)) :
    (counts.fill observations).Ascending :=
  List.foldlRecOn observations _ ascending fun _ ascending entry _ => ascending.insert entry.1 entry.2

theorem mem_outcomes_fill : outcome ∈ (counts.fill observations).outcomes ↔
    outcome ∈ counts.outcomes ∨ outcome ∈ observations.map Prod.fst := by
  induction observations generalizing counts with
  | nil => simp [fill]
  | cons entry rest ih =>
    rw [fill, List.foldl_cons, ← fill, ih, mem_outcomes_insert, List.map_cons, List.mem_cons, or_assoc, or_left_comm]

/-- How often an outcome was observed. -/
def given (outcome : String) (observations : List (String × UInt64)) : Nat :=
  ((observations.filter (·.1 = outcome)).map (·.2.toNat)).sum

theorem given_cons (entry : String × UInt64) (rest : List (String × UInt64)) :
    given outcome (entry :: rest) = (if outcome = entry.1 then entry.2.toNat else 0) + given outcome rest := by
  unfold given
  rw [List.filter_cons]
  split
  next same => rw [if_pos (of_decide_eq_true same).symm, List.map_cons, List.sum_cons]
  next differ => rw [if_neg (by simpa [eq_comm] using differ), Nat.zero_add]

theorem given_perm (same : listing.Perm observations) :
    given outcome listing = given outcome observations :=
  ((same.filter _).map _).sum_nat

theorem given_le (outcome : String) (observations : List (String × UInt64)) :
    given outcome observations ≤ (observations.map (·.2.toNat)).sum :=
  (List.filter_sublist.map _).sum_le_sum fun _ _ => Nat.zero_le _

/-- Observations of an outcome add up, in words. -/
theorem toNat_get_fill (ascending : counts.Ascending) (outcome : String) (observations : List (String × UInt64)) :
    ((counts.fill observations).get outcome).toNat =
      ((counts.get outcome).toNat + given outcome observations) % 2 ^ 64 := by
  induction observations generalizing counts with
  | nil => exact (Nat.mod_eq_of_lt (UInt64.toNat_lt _)).symm
  | cons entry rest ih =>
    rw [fill, List.foldl_cons, ← fill, ih (ascending.insert _ _), get_insert ascending, given_cons]
    split
    next same => rw [same, UInt64.toNat_add, Nat.mod_add_mod, Nat.add_assoc]
    next => rw [Nat.zero_add]

theorem toNat_get_ofList (outcome : String) (observations : List (String × UInt64)) :
    ((ofList observations).get outcome).toNat = given outcome observations % 2 ^ 64 :=
  (toNat_get_fill ascending_empty outcome observations).trans (congrArg (· % _) (Nat.zero_add _))

theorem observed_fill (word : counts.observed + (observations.map (·.2.toNat)).sum < 2 ^ 64) :
    (counts.fill observations).observed = counts.observed + (observations.map (·.2.toNat)).sum := by
  induction observations generalizing counts with
  | nil => rfl
  | cons entry rest ih =>
    rw [List.map_cons, List.sum_cons, ← Nat.add_assoc] at word ⊢
    have first : (counts.insert entry.1 entry.2).observed = counts.observed + entry.2.toNat :=
      (inserted entry.1 entry.2 counts.entries).observed (Nat.lt_of_le_of_lt (Nat.le_add_right _ _) word)
    rw [fill, List.foldl_cons, ← fill, ih (first.symm ▸ word), first]

/-- It does not matter in which order observations come, nor which of them were there at first. -/
theorem fill_perm {before after observations : List (String × UInt64)} (same : (before ++ after).Perm observations) :
    (ofList before).fill after = ofList observations := by
  have ascending (list : List (String × UInt64)) : (ofList list).Ascending := ascending_empty.fill list
  have joined : (ofList before).fill after = ofList (before ++ after) := (List.foldl_append ..).symm
  rw [joined]
  refine eq_of_get (ascending _) (ascending _) (fun outcome => ?_) fun outcome => UInt64.toNat_inj.mp ?_
  · exact mem_outcomes_fill.trans ((or_congr_right (same.map _).mem_iff).trans mem_outcomes_fill.symm)
  · rw [toNat_get_ofList, toNat_get_ofList, given_perm same]

/-- An entry was seen more often than another one, or as often and is not greater. -/
def Leads (entry other : String × UInt64) : Prop := other.2 < entry.2 ∨ other.2 = entry.2 ∧ entry.1 ≤ other.1

theorem Leads.refl (entry : String × UInt64) : Leads entry entry := .inr ⟨rfl, String.le_refl _⟩

theorem Leads.trans {first second third : String × UInt64} (one : Leads first second) (other : Leads second third) :
    Leads first third := by
  rcases one with more | ⟨same, smaller⟩
  · rcases other with again | ⟨equal, _⟩
    · exact .inl (UInt64.lt_trans again more)
    · exact .inl (equal ▸ more)
  · rcases other with again | ⟨equal, below⟩
    · exact .inl (same ▸ again)
    · exact .inr ⟨equal.trans same, String.le_trans smaller below⟩

theorem Leads.antisymm {first second : String × UInt64} (one : Leads first second) (other : Leads second first) :
    first = second := by
  rcases one with more | ⟨same, smaller⟩
  · rcases other with less | ⟨equal, _⟩
    · exact absurd (UInt64.lt_trans more less) (UInt64.lt_irrefl _)
    · exact absurd more (equal ▸ UInt64.lt_irrefl _)
  · rcases other with more | ⟨_, greater⟩
    · exact absurd more (same ▸ UInt64.lt_irrefl _)
    · exact Prod.ext (String.le_antisymm smaller greater) same.symm

/-- A run that keeps the leading one of two entries ends with the one that leads all. -/
theorem leads_foldl {relation : String × UInt64 → String × UInt64 → Prop}
    {pick : String × UInt64 → String × UInt64 → String × UInt64}
    (picks : ∀ best entry, relation best entry →
      pick best entry = best ∧ Leads best entry ∨ pick best entry = entry ∧ Leads entry best)
    {first : String × UInt64} {rest : List (String × UInt64)} (related : (first :: rest).Pairwise relation) :
    rest.foldl pick first ∈ first :: rest ∧ ∀ entry ∈ first :: rest, Leads (rest.foldl pick first) entry := by
  induction rest generalizing first with
  | nil => exact ⟨List.mem_singleton_self _, List.forall_mem_singleton.mpr (.refl _)⟩
  | cons second rest ih =>
    obtain ⟨lower, others⟩ := List.pairwise_cons.mp related
    rw [List.foldl_cons]
    rcases picks first second (lower second List.mem_cons_self) with ⟨same, leads⟩ | ⟨same, leads⟩
    · rw [same]
      obtain ⟨member, all⟩ := ih (related.sublist (.cons_cons _ (List.sublist_cons_self _ _)))
      obtain ⟨overFirst, overRest⟩ := List.forall_mem_cons.mp all
      refine ⟨?_, List.forall_mem_cons.mpr ⟨overFirst, List.forall_mem_cons.mpr ⟨overFirst.trans leads, overRest⟩⟩⟩
      rcases List.mem_cons.mp member with here | later
      · exact here.symm ▸ List.mem_cons_self
      · exact List.mem_cons_of_mem _ (List.mem_cons_of_mem _ later)
    · rw [same]
      obtain ⟨member, all⟩ := ih others
      exact ⟨List.mem_cons_of_mem _ member,
        List.forall_mem_cons.mpr ⟨(all second List.mem_cons_self).trans leads, all⟩⟩

theorem mode?_eq_some_iff (ascending : counts.Ascending) {entry : String × UInt64} :
    counts.mode? = some entry ↔ entry ∈ counts.entries ∧ ∀ other ∈ counts.entries, Leads entry other := by
  unfold mode?
  cases listed : counts.entries with
  | nil => simp
  | cons first rest =>
    have picks : ∀ best entry : String × UInt64, best.1 < entry.1 →
        moreFrequent best entry = best ∧ Leads best entry ∨ moreFrequent best entry = entry ∧ Leads entry best := by
      intro best entry below
      unfold moreFrequent
      split
      next more => exact .inr ⟨rfl, .inl more⟩
      next notMore =>
        refine .inl ⟨rfl, ?_⟩
        rcases UInt64.lt_or_eq_of_le (UInt64.not_lt.mp notMore) with less | same
        · exact .inl less
        · exact .inr ⟨same, Std.le_of_lt below⟩
    have related : (first :: rest).Pairwise (·.1 < ·.1) := listed ▸ ascending
    obtain ⟨member, all⟩ := leads_foldl picks related
    rw [Option.some.injEq]
    constructor
    · rintro rfl
      exact ⟨member, all⟩
    · rintro ⟨within, leads⟩
      exact (all entry within).antisymm (leads _ member)

/-- The later of two entries, unless the earlier one was seen more often, or as often and is the smaller outcome. -/
def later (best entry : String × UInt64) : String × UInt64 :=
  if entry.2 < best.2 ∨ entry.2 = best.2 ∧ best.1 < entry.1 then best else entry

/-- Entries in any order tell the same of a histogram. -/
structure Rearranges (arranged counts : Counts) : Prop where
  get : ∀ outcome, arranged.get outcome = counts.get outcome
  total : arranged.total = counts.total
  size : arranged.size = counts.size
  mode : ∀ first rest, arranged.entries = first :: rest → counts.mode? = some (rest.foldl later first)
  sorted : arranged.entries.mergeSort (fun first second => first.1 ≤ second.1) = counts.entries

theorem later_leads (best entry : String × UInt64) :
    later best entry = best ∧ Leads best entry ∨ later best entry = entry ∧ Leads entry best := by
  unfold later
  split
  next first =>
    refine .inl ⟨rfl, ?_⟩
    rcases first with more | ⟨same, smaller⟩
    · exact .inl more
    · exact .inr ⟨same, Std.le_of_lt smaller⟩
  next other =>
    obtain ⟨notMore, notSmaller⟩ := not_or.mp other
    refine .inr ⟨rfl, ?_⟩
    rcases UInt64.lt_or_eq_of_le (UInt64.not_lt.mp notMore) with less | same
    · exact .inl less
    · exact .inr ⟨same, String.not_lt.mp fun smaller => notSmaller ⟨same.symm, smaller⟩⟩

theorem get_of_perm {arranged : Counts} (distinct : counts.Distinct) (same : arranged.entries.Perm counts.entries)
    (outcome : String) : arranged.get outcome = counts.get outcome := by
  have other : arranged.Distinct := (same.map _).nodup_iff.mpr distinct
  by_cases listed : outcome ∈ counts.outcomes
  · have member : (outcome, counts.get outcome) ∈ counts.entries := (mem_entries_iff distinct).mpr ⟨listed, rfl⟩
    exact get_of_mem other (same.mem_iff.mpr member)
  · have missing : outcome ∉ arranged.outcomes := by
      rwa [outcomes, List.mem_toFinset, (same.map _).mem_iff, ← List.mem_toFinset]
    rw [get_of_notMem listed, get_of_notMem missing]

theorem rearranges {arranged : Counts} (ascending : counts.Ascending) (same : arranged.entries.Perm counts.entries) :
    arranged.Rearranges counts := by
  refine ⟨get_of_perm ascending.distinct same, ?total, same.length_eq, ?mode, ?sorted⟩
  case total =>
    rw [← UInt64.toNat_inj, toNat_total, toNat_total, observed, observed, (same.map _).sum_nat]
  case mode =>
    intro first rest listed
    rw [listed] at same
    have any : (first :: rest).Pairwise fun _ _ => True := List.pairwise_of_forall fun _ _ => trivial
    obtain ⟨member, all⟩ := leads_foldl (fun best entry _ => later_leads best entry) any
    refine (mode?_eq_some_iff ascending).mpr ⟨same.mem_iff.mp member, fun other within => ?_⟩
    exact all other (same.mem_iff.mpr within)
  case sorted =>
    have weakly : (arranged.entries.mergeSort (fun first second => first.1 ≤ second.1)).Pairwise (·.1 ≤ ·.1) := by
      refine (List.pairwise_mergeSort ?_ ?_ _).imp of_decide_eq_true
      · intro first second third one other
        exact decide_eq_true (String.le_trans (of_decide_eq_true one) (of_decide_eq_true other))
      · intro first second
        simpa using String.le_total first.1 second.1
    have perm : (arranged.entries.mergeSort (fun first second => first.1 ≤ second.1)).Perm counts.entries :=
      (List.mergeSort_perm ..).trans same
    have different := List.pairwise_map.mp ((perm.map Prod.fst).nodup_iff.mpr ascending.distinct)
    exact eq_of_perm ascending ((weakly.and different).imp fun both => Std.lt_of_le_of_ne both.1 both.2) perm

/-- A histogram holds observations: each outcome as often as it was observed, in order, and the most frequent one is the
smallest of those that were observed most often. -/
structure Holds (counts : Counts) (observations : List (String × UInt64)) : Prop where
  get : ∀ outcome, (counts.get outcome).toNat = given outcome observations
  total : counts.total.toNat = (observations.map (·.2.toNat)).sum
  size : counts.size = (observations.map Prod.fst).toFinset.card
  sorted : counts.entries.Pairwise (·.1 < ·.1)
  listed : ∀ outcome count, (outcome, count) ∈ counts.entries ↔
    outcome ∈ observations.map Prod.fst ∧ counts.get outcome = count
  unobserved : counts.mode? = none ↔ observations = []
  mode : ∀ outcome count, counts.mode? = some (outcome, count) ↔
    outcome ∈ observations.map Prod.fst ∧ counts.get outcome = count ∧
      ∀ other ∈ observations.map Prod.fst, counts.get other < count ∨ counts.get other = count ∧ outcome ≤ other

theorem mode?_eq_none_iff : counts.mode? = none ↔ counts.entries = [] := by
  unfold mode?
  cases counts.entries with
  | nil => simp
  | cons => simp

theorem holds_ofList (word : (observations.map (·.2.toNat)).sum < 2 ^ 64) :
    (ofList observations).Holds observations := by
  have ascending : (ofList observations).Ascending := ascending_empty.fill observations
  have outcomes (outcome : String) : outcome ∈ (ofList observations).outcomes ↔ outcome ∈ observations.map Prod.fst :=
    mem_outcomes_fill.trans (or_iff_right (List.not_mem_nil ∘ List.mem_toFinset.mp))
  have observed : (ofList observations).observed = (observations.map (·.2.toNat)).sum := by
    have filled : (empty.fill observations).observed = 0 + _ := observed_fill ((Nat.zero_add _).symm ▸ word)
    rwa [Nat.zero_add] at filled
  have listed (outcome : String) (count : UInt64) : (outcome, count) ∈ (ofList observations).entries ↔
      outcome ∈ observations.map Prod.fst ∧ (ofList observations).get outcome = count :=
    (mem_entries_iff ascending.distinct).trans (and_congr_left fun _ => outcomes outcome)
  refine ⟨fun outcome => ?get, ?total, ?size, ascending, listed, ?unobserved, fun outcome count => ?mode⟩
  case get =>
    exact (toNat_get_ofList outcome observations).trans
      (Nat.mod_eq_of_lt (Nat.lt_of_le_of_lt (given_le outcome observations) word))
  case total => rw [toNat_total_of_lt (observed ▸ word), observed]
  case size =>
    have same : (ofList observations).outcomes = (observations.map Prod.fst).toFinset := by
      ext outcome
      rw [outcomes, List.mem_toFinset]
    rw [← same, Counts.outcomes, List.toFinset_card_of_nodup ascending.distinct, List.length_map]
    rfl
  case unobserved =>
    rw [mode?_eq_none_iff, List.eq_nil_iff_forall_not_mem, List.eq_nil_iff_forall_not_mem]
    constructor
    · intro none entry member
      exact none (entry.1, _) ((listed entry.1 _).mpr ⟨List.mem_map_of_mem member, rfl⟩)
    · intro none entry member
      obtain ⟨observation, within, _⟩ := List.mem_map.mp ((listed entry.1 entry.2).mp member).1
      exact none observation within
  case mode =>
    rw [mode?_eq_some_iff ascending, listed, and_assoc]
    refine and_congr_right fun _ => and_congr_right fun _ => ⟨fun leads other within => ?_, ?_⟩
    · exact leads (other, _) ((listed other _).mpr ⟨within, rfl⟩)
    · intro leads entry member
      obtain ⟨within, same⟩ := (listed entry.1 entry.2).mp member
      have leading := leads entry.1 within
      rwa [same] at leading

/-- As long as observations fit a word, a histogram tells of them what a multiset does: it does not matter in which
order they came, all at once or one by one, nor in which order the entries stand that are told of. -/
theorem ofList_multiset (word : (observations.map (·.2.toNat)).sum < 2 ^ 64) :
    (ofList observations).Holds observations ∧
      (∀ before after, (before ++ after).Perm observations → (ofList before).fill after = ofList observations) ∧
      ∀ arranged : Counts, arranged.entries.Perm (ofList observations).entries →
        arranged.Rearranges (ofList observations) :=
  ⟨holds_ofList word, fun _ _ => fill_perm, fun _ => rearranges (ascending_empty.fill observations)⟩

/-- Two outcomes are observed as often, one of them in two parts. -/
def tiedRun : List (String × UInt64) := [("10", 4), ("01", 1), ("00", 2), ("01", 3)]

theorem ofList_multiset_tied : (tiedRun.map (·.2.toNat)).sum < 2 ^ 64 ∧
    (ofList [("01", 3), ("00", 2)]).fill [("10", 4), ("01", 1)] = ofList tiedRun ∧
    (ofList tiedRun).get "01" = 4 ∧ (ofList tiedRun).mode? = some ("01", 4) ∧
    [("01", 4), ("00", 2)].foldl later ("10", 4) = ("01", 4) := by
  have word : (tiedRun.map (·.2.toNat)).sum < 2 ^ 64 := by decide
  obtain ⟨holds, orderless, arranged⟩ := ofList_multiset word
  have seen : (ofList tiedRun).get "01" = 4 := UInt64.toNat_inj.mp (holds.get "01")
  have most := (arranged ⟨[("10", 4), ("01", 4), ("00", 2)]⟩ (by decide)).mode _ _ rfl
  have mode : (ofList tiedRun).mode? = some ("01", 4) := (holds.mode "01" 4).mpr ⟨by decide, seen, by decide⟩
  exact ⟨word, orderless _ _ (by decide), seen, mode, Option.some.inj (most.symm.trans mode)⟩

end CircuitCloak.Counts

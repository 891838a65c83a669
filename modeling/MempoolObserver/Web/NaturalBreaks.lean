import MempoolObserver.Web.JenksTable

/-!
# Natural breaks

## Main results

* `naturalBreaks_optimal` — the breaks are the maxima of an optimal segmentation, the
  backtrack stays inside the tables, and a scale has a value in each tier
-/

namespace MempoolObserver

open Deviation Segments

/-! ### Natural breaks -/

/-- The breaks are the maxima of a cheapest segmentation. -/
theorem jenksBreaks_optimal {sorted : List ℚ} {nClasses : ℕ}
    (ascending : sorted.Pairwise (· ≤ ·)) (some_ : 0 < nClasses) (more : nClasses < sorted.length)
    (values : nClasses ≤ sorted.toFinset.card) :
    ∃ classes, Optimal deviation sorted classes ∧ classes.length = nClasses ∧
      (jenksBreaks sorted nClasses).map some = classes.dropLast.map List.max? ∧
      ∀ read ∈ jenksReads (jenksTable sorted nClasses) sorted.length nClasses nClasses
        sorted.length, read.Inside sorted.length nClasses := by
  -- The table gives one segmentation, read back through the lower limits, and bounds every other.
  have filled : JenksFilled sorted nClasses sorted.length (jenksTable sorted nClasses) :=
    jenksTable_filled (List.length_pos_iff.mp (by omega))
  obtain ⟨classes, cut, few, cost, traced⟩ :=
    filled.exists_segmentation (l := sorted.length) (by omega) le_rfl some_ le_rfl
  rw [List.take_length] at cut
  have least : ∀ others, Segmentation sorted others → others.length = nClasses →
      total deviation classes ≤ total deviation others := by
    intro others cutOthers length
    rw [← List.take_length (l := sorted)] at cutOthers
    have bound := filled.le_total (by omega) le_rfl some_ le_rfl cutOthers length
    rw [cost] at bound
    exact WithTop.coe_le_coe.mp bound
  obtain ⟨best, length⟩ := optimal_of_le deviation_separating ascending values cut few least
  have trace := traced length
  refine ⟨classes, best, length, ?_, trace.inside⟩
  have natural : ¬ (sorted.length ≤ nClasses ∨ distinctCount sorted < nClasses) := by
    rw [distinctCount_eq ascending]
    omega
  rw [jenksBreaks]
  simp only [natural, if_false]
  rw [trace.breaks]
  apply List.map_congr_left
  intro c member
  exact (max?_eq_getLast? (cut.sorted_class ascending (List.mem_of_mem_dropLast member))).symm

/-! ### Values in every tier -/

/-- The breaks lie between representatives, one for each tier. -/
structure Interleaved (reps breaks : List ℚ) : Prop where
  length : reps.length = breaks.length + 1
  le : ∀ i < breaks.length, reps.getD i 0 ≤ breaks.getD i 0
  lt : ∀ i < breaks.length, breaks.getD i 0 < reps.getD (i + 1) 0

section Interleaved

variable {reps breaks : List ℚ}

theorem Interleaved.ascending (interleaved : Interleaved reps breaks) :
    breaks.Pairwise (· < ·) := by
  rw [← List.isChain_iff_pairwise, List.isChain_iff_getElem]
  intro i inside
  rw [← List.getD_eq_getElem breaks 0 (by omega), ← List.getD_eq_getElem breaks 0 inside]
  calc breaks.getD i 0 < reps.getD (i + 1) 0 := interleaved.lt i (by omega)
    _ ≤ breaks.getD (i + 1) 0 := interleaved.le (i + 1) inside

theorem Interleaved.below (interleaved : Interleaved reps breaks) {i j : ℕ} (before : j < i)
    (inside : i ≤ breaks.length) : breaks.getD j 0 < reps.getD i 0 := by
  induction i, Nat.succ_le_of_lt before using Nat.le_induction with
  | base => exact interleaved.lt j (by omega)
  | succ i later ih =>
    calc breaks.getD j 0 < reps.getD i 0 := ih (by omega) (by omega)
      _ ≤ breaks.getD i 0 := interleaved.le i (by omega)
      _ < reps.getD (i + 1) 0 := interleaved.lt i (by omega)

/-- Each representative lands in its own tier. -/
theorem Interleaved.tierOf_eq (interleaved : Interleaved reps breaks) {i : ℕ}
    (inside : i ≤ breaks.length) : tierOf breaks (reps.getD i 0) = i := by
  -- Every break before position i lies below its representative, so the index search passes it.
  have lower : ∀ j (h : j < breaks.length), j < i → decide (reps.getD i 0 ≤ breaks[j]) = false := by
    intro j h before
    have below := interleaved.below before inside
    rw [List.getD_eq_getElem breaks 0 h] at below
    simpa using below
  rcases Nat.eq_or_lt_of_le inside with last | inner
  · rw [last]
    apply List.findIdx_eq_length.mpr
    intro b member
    obtain ⟨j, h, rfl⟩ := List.mem_iff_getElem.mp member
    rw [← last]
    exact lower j h (by omega)
  · apply (List.findIdx_eq inner).mpr
    constructor
    · have upper := interleaved.le i inner
      rw [List.getD_eq_getElem breaks 0 inner] at upper
      simpa using upper
    · intro j before
      exact lower j (before.trans inner) before

theorem Interleaved.fills (interleaved : Interleaved reps breaks) {i : ℕ}
    (inside : i < breaks.length + 1) : ∃ v ∈ reps, tierOf breaks v = i := by
  have index : i < reps.length := by
    rw [interleaved.length]
    exact inside
  have member : reps.getD i 0 ∈ reps := by
    rw [List.getD_eq_getElem reps 0 index]
    exact List.getElem_mem index
  exact ⟨reps.getD i 0, member, interleaved.tierOf_eq (by omega)⟩

end Interleaved

/-- Ascending values represent the tiers between all of them but the last. -/
theorem interleaved_dropLast {tops : List ℚ} (some_ : tops ≠ [])
    (ascending : tops.Pairwise (· < ·)) : Interleaved tops tops.dropLast := by
  have positive := List.length_pos_iff.mpr some_
  have length : tops.dropLast.length = tops.length - 1 := List.length_dropLast
  have entry : ∀ i < tops.dropLast.length, tops.dropLast.getD i 0 = tops.getD i 0 := by
    intro i inside
    rw [List.getD_eq_getElem _ 0 inside, List.getElem_dropLast, List.getD_eq_getElem tops 0]
  constructor
  · omega
  · intro i inside
    exact (entry i inside).ge
  · intro i inside
    rw [entry i inside, List.getD_eq_getElem tops 0 (by omega),
      List.getD_eq_getElem tops 0 (by omega)]
    exact List.pairwise_iff_getElem.mp ascending i (i + 1) (by omega) (by omega) (by omega)

/-- The rank of the quantile at `i / n` lies between two neighbouring indices. -/
theorem quantile_rank {n i : ℕ} (inside : i + 1 < n) :
    (i : ℚ) < ((i : ℚ) + 1) / n * ((n : ℚ) - 1) ∧
      ((i : ℚ) + 1) / n * ((n : ℚ) - 1) < (i : ℚ) + 1 := by
  have positive : (0 : ℚ) < n := by exact_mod_cast (by omega : 0 < n)
  have less : (i : ℚ) + 1 < n := by exact_mod_cast inside
  have nonneg : (0 : ℚ) ≤ i := Nat.cast_nonneg i
  rw [div_mul_eq_mul_div, lt_div_iff₀ positive, div_lt_iff₀ positive]
  constructor <;> nlinarith

/-- A quantile at `i / n` of `n` ascending values lies between two neighbours. -/
theorem quantile_between {sorted : List ℚ} (ascending : sorted.Pairwise (· < ·)) {i : ℕ}
    (inside : i + 1 < sorted.length) :
    sorted.getD i 0 < quantile sorted (((i : ℚ) + 1) / sorted.length) ∧
      quantile sorted (((i : ℚ) + 1) / sorted.length) < sorted.getD (i + 1) 0 := by
  obtain ⟨lower, upper⟩ := quantile_rank inside
  -- The quantile of this share falls strictly between two neighbouring ranks.
  have base : ⌊((i : ℚ) + 1) / sorted.length * ((sorted.length : ℚ) - 1)⌋ = (i : ℤ) := by
    rw [Int.floor_eq_iff]
    exact ⟨by exact_mod_cast lower.le, by exact_mod_cast upper⟩
  have step : sorted.getD i 0 < sorted.getD (i + 1) 0 := by
    rw [List.getD_eq_getElem sorted 0 (by omega), List.getD_eq_getElem sorted 0 inside]
    exact List.pairwise_iff_getElem.mp ascending i (i + 1) (by omega) inside (by omega)
  have next : (sorted[i + 1]?).getD (sorted.getD i 0) = sorted.getD (i + 1) 0 := by
    rw [List.getElem?_eq_getElem inside, Option.getD_some, List.getD_eq_getElem sorted 0 inside]
  have several : sorted.length ≠ 0 ∧ sorted.length ≠ 1 := by omega
  have value : quantile sorted (((i : ℚ) + 1) / sorted.length) = sorted.getD i 0 +
      (sorted.getD (i + 1) 0 - sorted.getD i 0) *
        (((i : ℚ) + 1) / sorted.length * ((sorted.length : ℚ) - 1) - i) := by
    unfold quantile
    simp only [several.1, several.2, if_false, base, Int.toNat_natCast, next, Int.cast_natCast]
  rw [value]
  generalize ((i : ℚ) + 1) / sorted.length * ((sorted.length : ℚ) - 1) = pos at lower upper
  constructor
  · nlinarith
  · nlinarith

theorem interleaved_quantileBreaks {sorted : List ℚ} (some_ : sorted ≠ [])
    (ascending : sorted.Pairwise (· < ·)) :
    Interleaved sorted (quantileBreaks sorted (sorted.length - 1)) := by
  have positive := List.length_pos_iff.mpr some_
  have length : (quantileBreaks sorted (sorted.length - 1)).length = sorted.length - 1 := by
    simp [quantileBreaks]
  have whole : ((sorted.length - 1 : ℕ) : ℚ) + 1 = sorted.length := by
    exact_mod_cast Nat.sub_add_cancel positive
  -- The share at index i is (i + 1) / length, whose place falls between ranks i and i + 1.
  have entry : ∀ i < sorted.length - 1, (quantileBreaks sorted (sorted.length - 1)).getD i 0 =
      quantile sorted (((i : ℚ) + 1) / sorted.length) := by
    intro i inside
    rw [List.getD_eq_getElem _ 0 (by omega)]
    simp only [quantileBreaks, List.getElem_map, List.getElem_range', whole]
    push_cast
    ring_nf
  constructor
  · omega
  · intro i inside
    rw [entry i (by omega)]
    exact (quantile_between ascending (by omega)).1.le
  · intro i inside
    rw [entry i (by omega)]
    exact (quantile_between ascending (by omega)).2

/-- The breaks into no more classes than values leave a value in each tier. -/
theorem jenksBreaks_interleaved {sorted : List ℚ} {nClasses : ℕ}
    (ascending : sorted.Pairwise (· ≤ ·)) (some_ : 0 < nClasses)
    (values : nClasses ≤ sorted.toFinset.card) :
    ∃ reps, (∀ v ∈ reps, v ∈ sorted) ∧ Interleaved reps (jenksBreaks sorted nClasses) ∧
      reps.length = nClasses := by
  have most := List.toFinset_card_le sorted
  rcases Nat.lt_or_ge nClasses sorted.length with more | all
  · obtain ⟨classes, best, length, breaks, -⟩ :=
      jenksBreaks_optimal ascending some_ more values
    obtain ⟨tops, maxima⟩ := best.segmentation.exists_maxima
    have sizes := congrArg List.length maxima
    rw [List.length_map, List.length_map, length] at sizes
    have ends : jenksBreaks sorted nClasses = tops.dropLast := by
      apply List.map_injective_iff.mpr (Option.some_injective ℚ)
      rw [breaks, List.map_dropLast, List.map_dropLast, maxima]
    have rising := best.maxima_ascending deviation_separating ascending (by omega) maxima
    rw [ends]
    refine ⟨tops, ?_, interleaved_dropLast (List.length_pos_iff.mp (by omega)) rising, sizes⟩
    intro v member
    have top : some v ∈ classes.map List.max? := maxima ▸ List.mem_map_of_mem member
    obtain ⟨c, inClasses, top⟩ := List.mem_map.mp top
    rw [← best.segmentation.flatten]
    exact List.mem_flatten.mpr ⟨c, inClasses, (List.max?_eq_some_iff.mp top).1⟩
  · -- Every value is there once, and the breaks are quantiles between neighbours.
    have length : nClasses = sorted.length := by omega
    have nodup : sorted.Nodup := by
      have full : sorted.toFinset.card = sorted.length := by omega
      exact Multiset.toFinset_card_eq_card_iff_nodup.mp full
    have rising : sorted.Pairwise (· < ·) := by
      apply (ascending.and nodup).imp
      intro a b both
      exact lt_of_le_of_ne both.1 both.2
    have breaks : jenksBreaks sorted nClasses = quantileBreaks sorted (sorted.length - 1) := by
      rw [length]
      exact if_pos (Or.inl le_rfl)
    rw [breaks]
    exact ⟨sorted, fun v member => member,
      interleaved_quantileBreaks (List.length_pos_iff.mp (by omega)) rising, length.symm⟩

theorem length_ramp {n : ℕ} (some_ : 1 ≤ n) (most : n ≤ tierColors.length) :
    (ramp n).length = n := by
  unfold ramp
  split_ifs with one all
  · simp only [List.length_singleton]
    omega
  · exact le_antisymm all most
  · simp

/-! ### A scale -/

section Scale

variable (vals : List (Option ℚ))

theorem sortedFinite_ascending : (sortedFinite vals).Pairwise (· ≤ ·) :=
  List.pairwise_insertionSort (· ≤ ·) vals.reduceOption

theorem toFinset_sortedFinite : (sortedFinite vals).toFinset = vals.reduceOption.toFinset :=
  List.toFinset_eq_of_perm _ _ (List.perm_insertionSort _ _)

/-- A scale of some values has as many tiers as there are values, up to the colours, and
a value in each. -/
theorem scale_tiers {vals : List (Option ℚ)} (some_ : vals.reduceOption ≠ []) :
    (scale vals defaultMethod).colors.length =
        min tierColors.length vals.reduceOption.toFinset.card ∧
      ∃ reps, (∀ v ∈ reps, v ∈ vals.reduceOption) ∧
        Interleaved reps (scale vals defaultMethod).breaks ∧
        reps.length = (scale vals defaultMethod).colors.length := by
  have ascending := sortedFinite_ascending vals
  have positive : 0 < vals.reduceOption.toFinset.card :=
    Finset.card_pos.mpr (List.toFinset_nonempty_iff _ |>.mpr some_)
  obtain ⟨nClasses, classes⟩ :
      ∃ n, n = min tierColors.length vals.reduceOption.toFinset.card := ⟨_, rfl⟩
  have count : min tierColors.length (max 1 (distinctCount (sortedFinite vals))) = nClasses := by
    rw [distinctCount_eq ascending, toFinset_sortedFinite, max_eq_right positive, classes]
  have colours : tierColors.length = 6 := rfl
  have ramped : (ramp nClasses).length = nClasses := length_ramp (by omega) (by omega)
  have values : nClasses ≤ (sortedFinite vals).toFinset.card := by
    rw [toFinset_sortedFinite]
    omega
  -- Each tier has a representative value, and the breaks lie between neighbouring representatives.
  obtain ⟨reps, inside, interleaved, length⟩ :=
    jenksBreaks_interleaved ascending (by omega) values
  have members : ∀ v ∈ reps, v ∈ vals.reduceOption := by
    intro v member
    exact (List.mem_insertionSort (· ≤ ·)).mp (inside v member)
  rw [← classes]
  unfold scale
  simp only [count]
  split_ifs with one
  · have none : jenksBreaks (sortedFinite vals) nClasses = [] := by
      apply List.length_eq_zero_iff.mp
      have sizes := interleaved.length
      omega
    rw [none] at interleaved
    exact ⟨ramped, reps, members, interleaved, length.trans ramped.symm⟩
  · have sorted : (jenksBreaks (sortedFinite vals) nClasses).insertionSort (· ≤ ·) =
        jenksBreaks (sortedFinite vals) nClasses :=
      (interleaved.ascending.imp fun less => less.le).insertionSort_eq
    exact ⟨ramped, reps, members, by rw [defaultMethod, sorted]; exact interleaved,
      length.trans ramped.symm⟩

end Scale

/-- Natural breaks are optimal, and leave a value in every tier of a scale. -/
theorem naturalBreaks_optimal :
    (∀ (sorted : List ℚ) (nClasses : ℕ), sorted.Pairwise (· ≤ ·) → 0 < nClasses →
      nClasses < sorted.length → nClasses ≤ sorted.toFinset.card →
        (∃ classes, Optimal deviation sorted classes ∧ classes.length = nClasses ∧
          (jenksBreaks sorted nClasses).map some = classes.dropLast.map List.max?) ∧
        (jenksBreaks sorted nClasses).Pairwise (· < ·) ∧
        ∀ read ∈ jenksReads (jenksTable sorted nClasses) sorted.length nClasses nClasses
          sorted.length, read.Inside sorted.length nClasses ∧ read.id < sorted.length) ∧
    ∀ vals : List (Option ℚ), vals.reduceOption ≠ [] →
      (scale vals defaultMethod).colors.length = min 6 vals.reduceOption.toFinset.card ∧
      (scale vals defaultMethod).breaks.length + 1 = (scale vals defaultMethod).colors.length ∧
      (scale vals defaultMethod).breaks.Pairwise (· < ·) ∧
      ∀ i < (scale vals defaultMethod).colors.length,
        ∃ v ∈ vals.reduceOption, tierOf (scale vals defaultMethod).breaks v = i := by
  constructor
  · intro sorted nClasses ascending some_ more values
    obtain ⟨classes, best, length, breaks, reads⟩ :=
      jenksBreaks_optimal ascending some_ more values
    obtain ⟨reps, -, interleaved, -⟩ := jenksBreaks_interleaved ascending some_ values
    exact ⟨⟨classes, best, length, breaks⟩, interleaved.ascending,
      fun read member => ⟨reads read member, (reads read member).id_lt⟩⟩
  · intro vals some_
    obtain ⟨colours, reps, members, interleaved, length⟩ := scale_tiers some_
    have tiers := interleaved.length
    refine ⟨colours, by omega, interleaved.ascending, ?_⟩
    intro i inside
    obtain ⟨v, member, tier⟩ := interleaved.fills (i := i) (by omega)
    exact ⟨v, members v member, tier⟩

/-- Four values fall into three classes, and a scale of two has two tiers. -/
theorem four_naturalBreaks :
    (jenksBreaks [1, 1, 2, 5] 3).Pairwise (· < ·) ∧
      (scale [some 2, none, some 1, some 2] defaultMethod).colors.length =
        min 6 ([some 2, none, some 1, some 2] : List (Option ℚ)).reduceOption.toFinset.card := by
  constructor
  · exact (naturalBreaks_optimal.1 [1, 1, 2, 5] 3 (by decide) (by decide) (by decide)
      (by decide)).2.1
  · exact (naturalBreaks_optimal.2 [some 2, none, some 1, some 2] (by decide)).1

/-- Without a value there is one tier, and nothing in it. -/
theorem scale_without_values :
    (scale [] defaultMethod).colors.length = 1 ∧
      (scale [] defaultMethod).colors.length ≠
        min 6 ([] : List (Option ℚ)).reduceOption.toFinset.card := by
  decide

end MempoolObserver

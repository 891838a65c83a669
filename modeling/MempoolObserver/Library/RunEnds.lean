import Mathlib
import MempoolObserver.Library.Grouping

/-!
# The last elements of the runs of a list

`runEnds key xs` keeps of each run of neighbours with one key the last element. Where the keys
ascend, it keeps the last element of every key.
-/

namespace MempoolObserver

namespace RunEnds

variable {α κ : Type*}

section Keys

variable [DecidableEq κ] (key : α → κ)

def runEnds : List α → List α
  | [] => []
  | [a] => [a]
  | a :: b :: rest => if key a = key b then runEnds (b :: rest) else a :: runEnds (b :: rest)

variable {key} {xs : List α} {a b : α}

theorem runEnds_cons_of_eq (same : key a = key b) :
    runEnds key (a :: b :: xs) = runEnds key (b :: xs) := by
  rw [runEnds, if_pos same]

theorem runEnds_cons_of_ne (apart : key a ≠ key b) :
    runEnds key (a :: b :: xs) = a :: runEnds key (b :: xs) := by
  rw [runEnds, if_neg apart]

theorem runEnds_sublist (xs : List α) : (runEnds key xs).Sublist xs := by
  induction xs using runEnds.induct key with
  | case1 => exact List.Sublist.refl []
  | case2 a => exact List.Sublist.refl [a]
  | case3 a b rest same ih =>
    rw [runEnds_cons_of_eq same]
    exact ih.cons a
  | case4 a b rest apart ih =>
    rw [runEnds_cons_of_ne apart]
    exact ih.cons_cons a

theorem getLast?_runEnds (xs : List α) : (runEnds key xs).getLast? = xs.getLast? := by
  induction xs using runEnds.induct key with
  | case1 => rfl
  | case2 a => rfl
  | case3 a b rest same ih => rw [runEnds_cons_of_eq same, ih, List.getLast?_cons_cons]
  | case4 a b rest apart ih =>
    rw [runEnds_cons_of_ne apart, List.getLast?_cons_cons]
    cases ends : runEnds key (b :: rest) with
    | nil =>
      rw [ends] at ih
      cases List.getLast?_eq_none_iff.mp ih.symm
    | cons c others => rw [List.getLast?_cons_cons, ← ends, ih]

theorem map_runEnds {β : Type*} (f : β → α) (ys : List β) :
    runEnds key (ys.map f) = (runEnds (key ∘ f) ys).map f := by
  induction ys using runEnds.induct (key ∘ f) with
  | case1 => rfl
  | case2 b => rfl
  | case3 a b rest same ih =>
    rw [runEnds_cons_of_eq same, ← ih]
    exact runEnds_cons_of_eq same
  | case4 a b rest apart ih =>
    have head : key (f a) ≠ key (f b) := apart
    rw [runEnds_cons_of_ne apart, List.map_cons, List.map_cons, runEnds_cons_of_ne head,
      ← List.map_cons, ih, List.map_cons]

end Keys

section Ascending

variable [LinearOrder κ] {key : α → κ} {xs : List α}

/-- One element of each key is left. -/
theorem pairwise_runEnds (ascending : xs.Pairwise fun a b => key a ≤ key b) :
    (runEnds key xs).Pairwise fun a b => key a < key b := by
  induction xs using runEnds.induct key with
  | case1 => exact List.Pairwise.nil
  | case2 a => exact List.pairwise_singleton _ a
  | case3 a b rest same ih =>
    rw [runEnds_cons_of_eq same]
    exact ih ascending.tail
  | case4 a b rest apart ih =>
    rw [runEnds_cons_of_ne apart]
    refine List.pairwise_cons.mpr ⟨fun c kept => ?_, ih ascending.tail⟩
    have below := lt_of_le_of_ne ((List.pairwise_cons.mp ascending).1 b List.mem_cons_self) apart
    rcases List.mem_cons.mp ((runEnds_sublist (b :: rest)).subset kept) with rfl | later
    · exact below
    · exact below.trans_le ((List.pairwise_cons.mp ascending.tail).1 c later)

/-- The last element of a key is left. -/
theorem mem_runEnds_of_getLast? (ascending : xs.Pairwise fun a b => key a ≤ key b) {k : κ} {b : α}
    (last : (xs.filter fun a => key a = k).getLast? = some b) : b ∈ runEnds key xs := by
  induction xs using runEnds.induct key with
  | case1 => cases last
  | case2 a =>
    have listed := List.mem_of_getLast? last
    exact (List.mem_filter.mp listed).1
  | case3 first second rest same ih =>
    rw [runEnds_cons_of_eq same]
    refine ih ascending.tail ?_
    by_cases keyed : key second = k
    · rwa [List.filter_cons_of_pos (by simpa using same.trans keyed),
        List.filter_cons_of_pos (by simpa using keyed), List.getLast?_cons_cons,
        ← List.filter_cons_of_pos (p := fun a => decide (key a = k)) (by simpa using keyed)]
        at last
    · rwa [List.filter_cons_of_neg (by simpa [same] using keyed)] at last
  | case4 first second rest apart ih =>
    rw [runEnds_cons_of_ne apart]
    by_cases keyed : key first = k
    · -- the keys after it are greater
      have others : (second :: rest).filter (fun a => key a = k) = [] := by
        obtain ⟨lower, ascends⟩ := List.pairwise_cons.mp ascending
        rw [List.filter_eq_nil_iff]
        intro c listed
        have below := lt_of_le_of_ne (lower second List.mem_cons_self) apart
        have above : key first < key c := by
          rcases List.mem_cons.mp listed with rfl | later
          · exact below
          · exact below.trans_le ((List.pairwise_cons.mp ascends).1 c later)
        simpa [← keyed] using above.ne'
      rw [List.filter_cons_of_pos (by simpa using keyed), others] at last
      obtain rfl : first = b := Option.some.inj last
      exact List.mem_cons_self
    · rw [List.filter_cons_of_neg (by simpa using keyed)] at last
      exact List.mem_cons_of_mem first (ih ascending.tail last)

end Ascending

/-- With integer keys between two bounds, no more elements are left than keys lie between. -/
theorem length_le_of_keys {key : α → ℤ} {xs : List α} {lower upper : ℤ}
    (apart : xs.Pairwise fun a b => key a < key b)
    (bounded : ∀ a ∈ xs, lower ≤ key a ∧ key a ≤ upper) :
    xs.length ≤ (upper + 1 - lower).toNat := by
  have distinct : (xs.map key).Nodup := List.pairwise_map.mpr (apart.imp ne_of_lt)
  have counted := Grouping.length_le_card_Icc distinct (List.forall_mem_map.mpr bounded)
  rwa [List.length_map, Int.card_Icc] at counted

end RunEnds

end MempoolObserver

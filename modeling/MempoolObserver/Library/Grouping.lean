import Mathlib.Data.Finset.Sort
import Mathlib.Data.List.Dedup
import Mathlib.Data.List.Sort
import Mathlib.Order.Interval.Finset.Defs

/-!
# Rows grouped by a key

Rows are grouped by a key of a linear order, and the groups are listed in the
order of their keys. Every row is in the group of its key and no other, no group is
empty, and there are at most as many groups as the keys have room for.
-/

namespace MempoolObserver.Grouping

variable {α κ : Type*} [LinearOrder κ] (key : α → κ)

/-- The keys of the rows, each once and in order. -/
def keys (rows : List α) : List κ := (rows.map key).dedup.insertionSort (· ≤ ·)

/-- The rows with the key, in their order. -/
def group (rows : List α) (k : κ) : List α := rows.filter fun row => key row = k

variable {key} {rows : List α} {row : α} {k : κ}

@[simp] theorem mem_keys : k ∈ keys key rows ↔ ∃ row ∈ rows, key row = k := by
  rw [keys, List.mem_insertionSort, List.mem_dedup, List.mem_map]

@[simp] theorem mem_group : row ∈ group key rows k ↔ row ∈ rows ∧ key row = k := by
  simp [group]

theorem group_ne_nil (listed : k ∈ keys key rows) : group key rows k ≠ [] := by
  obtain ⟨row, member, same⟩ := mem_keys.mp listed
  exact List.ne_nil_of_mem (mem_group.mpr ⟨member, same⟩)

theorem nodup_keys (key : α → κ) (rows : List α) : (keys key rows).Nodup :=
  (List.perm_insertionSort _ _).nodup_iff.mpr (List.nodup_dedup _)

theorem pairwise_keys (key : α → κ) (rows : List α) : (keys key rows).Pairwise (· < ·) := by
  have sorted : (keys key rows).Pairwise (· ≤ ·) := List.pairwise_insertionSort _ _
  exact sorted.imp₂ (fun _ _ le ne => lt_of_le_of_ne le ne) (nodup_keys key rows)

/-- As many groups as rows, if no two rows share a key. -/
theorem length_keys (distinct : (rows.map key).Nodup) : (keys key rows).length = rows.length := by
  rw [keys, List.length_insertionSort, distinct.dedup, List.length_map]

/-- Distinct keys of an interval are no more than the interval has. -/
theorem length_le_card_Icc [LocallyFiniteOrder κ] {list : List κ} {low high : κ}
    (distinct : list.Nodup) (inside : ∀ k ∈ list, low ≤ k ∧ k ≤ high) :
    list.length ≤ (Finset.Icc low high).card := by
  rw [← List.toFinset_card_of_nodup distinct]
  apply Finset.card_le_card
  intro k listed
  exact Finset.mem_Icc.mpr (inside k (List.mem_toFinset.mp listed))

end MempoolObserver.Grouping

import Mathlib

/-!
# Neighbours in a list

`Adjacent a b xs` says that `b` follows `a` in `xs`. Cutting a list between neighbours with
`List.splitBy` keeps exactly the pairs of neighbours that the relation joins.
-/

namespace MempoolObserver

namespace Neighbours

variable {α : Type*} {a b : α} {xs ys : List α}

/-- Somewhere in the list `b` comes right after `a`. -/
def Adjacent (a b : α) : List α → Prop
  | [] => False
  | x :: xs => (x = a ∧ xs.head? = some b) ∨ Adjacent a b xs

theorem Adjacent.mem (adjacent : Adjacent a b xs) : a ∈ xs ∧ b ∈ xs := by
  induction xs with
  | nil => cases adjacent
  | cons x xs ih =>
    rcases adjacent with ⟨rfl, next⟩ | later
    · exact ⟨List.mem_cons_self, List.mem_cons_of_mem x (List.mem_of_head? next)⟩
    · obtain ⟨first, second⟩ := ih later
      exact ⟨List.mem_cons_of_mem x first, List.mem_cons_of_mem x second⟩

theorem adjacent_append : Adjacent a b (xs ++ ys) ↔
    Adjacent a b xs ∨ Adjacent a b ys ∨ (xs.getLast? = some a ∧ ys.head? = some b) := by
  induction xs with
  | nil => simp [Adjacent]
  | cons x xs ih =>
    rw [List.cons_append, Adjacent, ih, Adjacent]
    cases xs with
    | nil => simp [Adjacent, or_comm]
    | cons y xs =>
      rw [List.getLast?_cons_cons, List.cons_append, List.head?_cons, List.head?_cons]
      tauto

theorem Adjacent.rel (relation : α → α → Prop) (chain : xs.IsChain relation)
    (adjacent : Adjacent a b xs) : relation a b := by
  induction xs with
  | nil => cases adjacent
  | cons x xs ih =>
    obtain ⟨first, rest⟩ := List.isChain_cons.mp chain
    rcases adjacent with ⟨rfl, next⟩ | later
    · exact first b next
    · exact ih rest later

/-- The neighbours that a cut separates are those on its two sides. -/
theorem Adjacent.of_flatten {r : α → α → Bool} {segments : List (List α)}
    (cuts : segments.IsChain fun segment next =>
      ∃ ends begins, r (segment.getLast ends) (next.head begins) = false)
    (full : [] ∉ segments) (adjacent : Adjacent a b segments.flatten) (joined : r a b = true) :
    ∃ segment ∈ segments, Adjacent a b segment := by
  induction segments with
  | nil => cases adjacent
  | cons segment segments ih =>
    obtain ⟨first, rest⟩ := List.isChain_cons.mp cuts
    obtain ⟨filled, others⟩ := not_or.mp (fun member => full (List.mem_cons.mpr member))
    rw [List.flatten_cons, adjacent_append] at adjacent
    rcases adjacent with inside | later | ⟨last, next⟩
    · exact ⟨segment, List.mem_cons_self, inside⟩
    · obtain ⟨other, listed, inside⟩ := ih rest others later
      exact ⟨other, List.mem_cons_of_mem segment listed, inside⟩
    · -- the two sides of the first cut are not joined
      cases segments with
      | nil => cases next
      | cons other segments =>
        obtain ⟨ends, begins, apart⟩ := first other rfl
        rw [List.flatten_cons, List.head?_append_of_ne_nil _ begins,
          List.head?_eq_some_head begins] at next
        rw [List.getLast?_eq_some_getLast ends] at last
        rw [Option.some.inj last, Option.some.inj next, joined] at apart
        cases apart

theorem exists_adjacent_splitBy {r : α → α → Bool} :
    (∃ segment ∈ xs.splitBy r, Adjacent a b segment) ↔ Adjacent a b xs ∧ r a b = true := by
  constructor
  · rintro ⟨segment, listed, adjacent⟩
    refine ⟨?_, Adjacent.rel (fun x y => r x y = true) (List.isChain_of_mem_splitBy listed)
      adjacent⟩
    obtain ⟨front, back, split⟩ := List.append_of_mem listed
    rw [← List.flatten_splitBy r xs, split, List.flatten_append, List.flatten_cons,
      adjacent_append, adjacent_append]
    exact .inr (.inl (.inl adjacent))
  · rintro ⟨adjacent, joined⟩
    rw [← List.flatten_splitBy r xs] at adjacent
    exact adjacent.of_flatten (List.isChain_getLast_head_splitBy r xs)
      (fun empty => List.ne_nil_of_mem_splitBy empty rfl) joined

end Neighbours

end MempoolObserver

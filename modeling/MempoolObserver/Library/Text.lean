import Mathlib.Data.List.DropRight
import Mathlib.Data.List.Infix

/-!
# Cutting and trimming lists

A list is cut at the first occurrence of a pattern, and rid of an element at its
ends. A cut is characterised by what stands before it: the pattern does not occur
there. That makes the cut unique when the pattern cannot overlap itself.
-/

namespace MempoolObserver.Text

variable {α : Type*}

/-- What stands before and after the first occurrence of the pattern. -/
def splitFirst [DecidableEq α] (pattern : List α) : List α → Option (List α × List α)
  | [] => if pattern = [] then some ([], []) else none
  | a :: rest =>
    if pattern <+: a :: rest then some ([], (a :: rest).drop pattern.length)
    else (splitFirst pattern rest).map fun parts => (a :: parts.1, parts.2)

/-- The list without the element at either end. -/
def trimMatches [DecidableEq α] (a : α) (s : List α) : List α :=
  (s.dropWhile fun b => b = a).rdropWhile fun b => b = a

/-! ### Cuts -/

section Cuts

variable {pattern s before after : List α} {a b : α}

theorem splitFirst_eq_none [DecidableEq α] (cuts : splitFirst pattern s = none) :
    ¬ pattern <:+: s := by
  induction s with
  | nil =>
    simp only [splitFirst] at cuts
    split_ifs at cuts with empty
    rwa [List.infix_nil]
  | cons c rest ih =>
    simp only [splitFirst] at cuts
    split_ifs at cuts with here
    rw [List.infix_cons_iff, not_or]
    exact ⟨here, ih (Option.map_eq_none_iff.mp cuts)⟩

theorem splitFirst_eq_some [DecidableEq α] (some_ : pattern ≠ [])
    (cuts : splitFirst pattern s = some (before, after)) :
    s = before ++ pattern ++ after ∧ ¬ pattern <:+: before := by
  induction s generalizing before with
  | nil =>
    rw [splitFirst, if_neg some_] at cuts
    cases cuts
  | cons c rest ih =>
    simp only [splitFirst] at cuts
    split_ifs at cuts with here
    · cases cuts
      obtain ⟨tail, split⟩ := here
      refine ⟨?_, by rwa [List.infix_nil]⟩
      rw [← split, List.drop_left, List.nil_append]
    · obtain ⟨⟨front, back⟩, found, same⟩ := Option.map_eq_some_iff.mp cuts
      -- No occurrence starts here, and none lies in the part before the one found.
      cases same
      obtain ⟨split, absent⟩ := ih found
      refine ⟨by rw [split, List.cons_append, List.cons_append], ?_⟩
      rw [List.infix_cons_iff, not_or]
      refine ⟨fun opening => here ?_, absent⟩
      rw [split, List.append_assoc, ← List.cons_append]
      exact opening.trans (List.prefix_append _ _)

/-- Two cuts at a pair of different elements are the same. -/
theorem cut_unique (different : a ≠ b) {first second front back : List α}
    (absent : ¬ [a, b] <:+: first) (other : ¬ [a, b] <:+: second)
    (same : first ++ [a, b] ++ front = second ++ [a, b] ++ back) :
    first = second ∧ front = back := by
  induction first generalizing second with
  | nil =>
    -- Either side may end inside the separator, whose two characters differ.
    match second, same with
    | [], same => simpa using same
    | [c], same =>
      simp only [List.nil_append, List.cons_append, List.cons.injEq] at same
      exact absurd same.2.1.symm different
    | c :: d :: rest, same =>
      simp only [List.nil_append, List.cons_append, List.cons.injEq] at same
      obtain ⟨rfl, rfl, -⟩ := same
      exact absurd (List.infix_append [] [_, _] rest) other
  | cons c first ih =>
    match second, same with
    | [], same =>
      match first, same with
      | [], same =>
        simp only [List.nil_append, List.cons_append, List.cons.injEq] at same
        exact absurd same.2.1 different
      | d :: rest, same =>
        simp only [List.nil_append, List.cons_append, List.cons.injEq] at same
        obtain ⟨rfl, rfl, -⟩ := same
        exact absurd (List.infix_append [] [_, _] rest) absent
    | d :: second, same =>
      simp only [List.cons_append, List.cons.injEq] at same
      obtain ⟨rfl, same⟩ := same
      rw [List.infix_cons_iff, not_or] at absent other
      obtain ⟨rfl, rfl⟩ := ih absent.2 other.2 same
      exact ⟨rfl, rfl⟩

/-- Two cuts at one element are the same. -/
theorem cut_at_unique {first second front back : List α} (absent : a ∉ first) (other : a ∉ second)
    (same : first ++ a :: front = second ++ a :: back) : first = second ∧ front = back := by
  induction first generalizing second with
  | nil =>
    cases second with
    | nil => simpa using same
    | cons c second =>
      simp only [List.nil_append, List.cons_append, List.cons.injEq] at same
      exact absurd (same.1 ▸ List.mem_cons_self) other
  | cons c first ih =>
    cases second with
    | nil =>
      simp only [List.nil_append, List.cons_append, List.cons.injEq] at same
      exact absurd (same.1 ▸ List.mem_cons_self) absent
    | cons d second =>
      simp only [List.cons_append, List.cons.injEq] at same
      obtain ⟨rfl, same⟩ := same
      obtain ⟨rfl, rfl⟩ := ih (List.not_mem_of_not_mem_cons absent)
        (List.not_mem_of_not_mem_cons other) same
      exact ⟨rfl, rfl⟩

end Cuts

/-! ### Trimming -/

section Trimming

variable [DecidableEq α] {a : α} {s : List α}

/-- What is trimmed off stands at the two ends, and is made of the element. -/
theorem exists_trimMatches (a : α) (s : List α) : ∃ front back : List α,
    s = front ++ trimMatches a s ++ back ∧ (∀ b ∈ front, b = a) ∧ ∀ b ∈ back, b = a := by
  refine ⟨s.takeWhile fun b => b = a, (s.dropWhile fun b => b = a).rtakeWhile fun b => b = a,
    ?_, ?_, ?_⟩
  · rw [trimMatches, List.append_assoc, List.rdropWhile_append_rtakeWhile,
      List.takeWhile_append_dropWhile]
  · intro b member
    simpa using List.mem_takeWhile_imp member
  · intro b member
    simpa using List.mem_rtakeWhile_imp member

theorem length_trimMatches_le (a : α) (s : List α) : (trimMatches a s).length ≤ s.length := by
  obtain ⟨front, back, split, -⟩ := exists_trimMatches a s
  have whole := congrArg List.length split
  simp only [List.length_append] at whole
  omega

theorem head?_ne_iff : s.head? ≠ some a ↔ (s.dropWhile fun b => b = a) = s := by
  cases s with
  | nil => simp
  | cons b rest =>
    by_cases same : b = a
    · subst same
      simp only [List.head?_cons, ne_eq, not_true_eq_false, decide_true, List.dropWhile_cons_of_pos,
        false_iff]
      intro shrinks
      have shorter := (List.dropWhile_suffix (l := rest) fun c => c = b).length_le
      rw [shrinks, List.length_cons] at shorter
      omega
    · simp [same]

theorem getLast?_ne_iff : s.getLast? ≠ some a ↔ (s.rdropWhile fun b => b = a) = s := by
  rw [List.rdropWhile_eq_self_iff]
  cases s using List.reverseRecOn with
  | nil => simp
  | append_singleton front b => simp

/-- Nothing is trimmed off a list that has other ends. -/
theorem trimMatches_eq_self : trimMatches a s = s ↔ s.head? ≠ some a ∧ s.getLast? ≠ some a := by
  rw [head?_ne_iff, getLast?_ne_iff]
  constructor
  · intro same
    have dropped : (s.dropWhile fun b => b = a) = s := by
      apply (List.dropWhile_suffix _).eq_of_length_le
      have shorter : (trimMatches a s).length ≤ (s.dropWhile fun b => b = a).length :=
        (List.rdropWhile_prefix _ _).length_le
      rwa [same] at shorter
    refine ⟨dropped, ?_⟩
    rwa [trimMatches, dropped] at same
  · rintro ⟨front, back⟩
    rw [trimMatches, front, back]

/-- A list that keeps its length is not trimmed. -/
theorem trimMatches_eq_self_of_length (kept : s.length ≤ (trimMatches a s).length) :
    trimMatches a s = s := by
  obtain ⟨front, back, split, -⟩ := exists_trimMatches a s
  have whole := congrArg List.length split
  simp only [List.length_append] at whole
  obtain rfl : front = [] := List.length_eq_zero_iff.mp (by omega)
  obtain rfl : back = [] := List.length_eq_zero_iff.mp (by omega)
  simpa using split.symm

theorem trimMatches_surrounded (a : α) (s : List α) :
    trimMatches a (a :: s ++ [a]) = trimMatches a s := by
  have opens : ((a :: s ++ [a]).dropWhile fun b => b = a) =
    (s ++ [a]).dropWhile fun b => b = a := by
    simp
  rw [trimMatches, opens, List.dropWhile_append]
  split_ifs with all
  · rw [List.isEmpty_iff] at all
    simp [trimMatches, all]
  · rw [List.rdropWhile_concat_pos _ _ _ (by simp), trimMatches]

end Trimming

end MempoolObserver.Text

import Mathlib.Data.Finset.Card
import Mathlib.Data.List.Sort

/-!
# Hash iteration order, slices, windows and partial folds

Facts about a program's collections that a model has to leave open or spell out:
the order in which a hash set hands out its elements, which is arbitrary but
lists each element once; the cutting of a list into consecutive slices of a
bounded size; the windows between neighbours of an increasing list; and what a fold
keeps whose steps may fail.
-/

namespace MempoolObserver.Collections

/-- An order in which a hash set may be iterated: every element once. -/
structure Enumeration (α : Type*) where
  toList : Finset α → List α
  nodup : ∀ s, (toList s).Nodup
  mem_toList : ∀ {s a}, a ∈ toList s ↔ a ∈ s

namespace Enumeration

variable {α : Type*}

/-- Iteration in increasing order, which can be computed with. -/
def sorted (α : Type*) [LinearOrder α] : Enumeration α where
  toList s := Quot.liftOn s.val (List.insertionSort (· ≤ ·)) fun first second same =>
    have perm := (List.perm_insertionSort (· ≤ ·) first).trans
      (same.trans (List.perm_insertionSort (· ≤ ·) second).symm)
    perm.eq_of_pairwise' (List.pairwise_insertionSort _ first)
      (List.pairwise_insertionSort _ second)
  nodup s := by
    obtain ⟨val, distinct⟩ := s
    induction val using Quot.inductionOn with
    | h list => exact (List.perm_insertionSort _ list).nodup_iff.mpr distinct
  mem_toList {s a} := by
    obtain ⟨val, distinct⟩ := s
    induction val using Quot.inductionOn with
    | h list => exact (List.perm_insertionSort _ list).mem_iff

attribute [simp] mem_toList

@[simp] theorem length_toList [DecidableEq α] (order : Enumeration α) (s : Finset α) :
    (order.toList s).length = s.card := by
  have same : (order.toList s).toFinset = s := by
    ext a
    simp
  rw [← List.toFinset_card_of_nodup (order.nodup s), same]

@[simp] theorem toList_empty (order : Enumeration α) : order.toList ∅ = [] :=
  List.eq_nil_iff_forall_not_mem.mpr fun a => by simp

end Enumeration

section Slices

variable {α : Type*}

/-- Consecutive slices of `size` elements, the last one possibly shorter; the
first argument bounds the number of slices. -/
def slicesUpTo (size : ℕ) : ℕ → List α → List (List α)
  | 0, _ => []
  | _ + 1, [] => []
  | bound + 1, a :: rest =>
    (a :: rest).take size :: slicesUpTo size bound ((a :: rest).drop size)

/-- A list cut into consecutive slices of at most `size` elements. -/
def slices (size : ℕ) (list : List α) : List (List α) := slicesUpTo size list.length list

private theorem slicesUpTo_flatten {size : ℕ} (positive : 0 < size) (bound : ℕ) (list : List α)
    (enough : list.length ≤ bound) : (slicesUpTo size bound list).flatten = list := by
  induction bound generalizing list with
  | zero =>
    obtain rfl : list = [] := List.length_eq_zero_iff.mp (Nat.le_zero.mp enough)
    rfl
  | succ bound ih =>
    cases list with
    | nil => rfl
    | cons a rest =>
      have shorter : ((a :: rest).drop size).length ≤ bound := by
        simp only [List.length_drop, List.length_cons] at enough ⊢
        omega
      rw [slicesUpTo, List.flatten_cons, ih _ shorter, List.take_append_drop]

/-- The slices of a list put together again are the list. -/
theorem slices_flatten {size : ℕ} (positive : 0 < size) (list : List α) :
    (slices size list).flatten = list :=
  slicesUpTo_flatten positive _ _ le_rfl

private theorem length_of_mem_slicesUpTo {size : ℕ} (positive : 0 < size) (bound : ℕ)
    (list : List α) : ∀ slice ∈ slicesUpTo size bound list, slice ≠ [] ∧ slice.length ≤ size := by
  induction bound generalizing list with
  | zero => simp [slicesUpTo]
  | succ bound ih =>
    cases list with
    | nil => simp [slicesUpTo]
    | cons a rest =>
      simp only [slicesUpTo, List.mem_cons, forall_eq_or_imp]
      refine ⟨⟨?_, List.length_take_le _ _⟩, ih _⟩
      rw [Ne, List.take_eq_nil_iff]
      simp [positive.ne']

/-- No slice is empty or longer than asked. -/
theorem length_of_mem_slices {size : ℕ} (positive : 0 < size) {list slice : List α}
    (member : slice ∈ slices size list) : slice ≠ [] ∧ slice.length ≤ size :=
  length_of_mem_slicesUpTo positive _ list slice member

theorem exists_mem_slices_iff {size : ℕ} (positive : 0 < size) {list : List α} {a : α} :
    (∃ slice ∈ slices size list, a ∈ slice) ↔ a ∈ list := by
  rw [← List.mem_flatten, slices_flatten positive]

/-- A list longer than one slice has a second slice. -/
theorem slices_of_lt {size : ℕ} (positive : 0 < size) {list : List α}
    (longer : size < list.length) :
    ∃ second rest, slices size list = list.take size :: second :: rest := by
  obtain ⟨bound, length_eq⟩ : ∃ bound, list.length = bound + 2 := ⟨list.length - 2, by omega⟩
  cases list with
  | nil => simp at longer
  | cons a tail =>
    have left : (a :: tail).drop size ≠ [] := by
      rw [Ne, List.drop_eq_nil_iff]
      omega
    obtain ⟨b, rest, drop_eq⟩ := List.exists_cons_of_ne_nil left
    rw [slices, length_eq, slicesUpTo, drop_eq, slicesUpTo]
    exact ⟨_, _, rfl⟩

end Slices

section Windows

variable {α β : Type*} {list : List α}

/-- What holds along a list holds of its neighbours. -/
theorem forall_consecutivePairs {r : α → α → Prop} (chain : list.IsChain r) :
    ∀ pair ∈ list.consecutivePairs, r pair.1 pair.2 := by
  intro pair member
  obtain ⟨i, placed⟩ := List.getElem?_of_mem member
  obtain ⟨first, second⟩ := List.getElem?_zip_eq_some.mp placed
  rw [List.getElem?_tail] at second
  obtain ⟨bound, later⟩ := List.getElem?_eq_some_iff.mp second
  obtain ⟨_, earlier⟩ := List.getElem?_eq_some_iff.mp first
  rw [← later, ← earlier]
  exact List.isChain_iff_getElem.mp chain i bound

/-- The half-open windows between increasing keys cover what lies between the first key
and the last, each point once. -/
theorem existsUnique_window [LinearOrder β] {key : α → β}
    (increasing : list.Pairwise fun a b => key a < key b) {first last : α}
    (head : list.head? = some first) (final : list.getLast? = some last) {b : β}
    (after : key first < b) (upTo : b ≤ key last) :
    ∃! pair, pair ∈ list.consecutivePairs ∧ key pair.1 < b ∧ b ≤ key pair.2 := by
  induction list generalizing first with
  | nil => cases head
  | cons a rest ih =>
    obtain rfl : a = first := Option.some.inj head
    cases rest with
    | nil =>
      obtain rfl : a = last := Option.some.inj final
      exact absurd after (not_lt.mpr upTo)
    | cons c rest =>
      obtain ⟨_, increasing⟩ := List.pairwise_cons.mp increasing
      have here : ∀ pair, pair ∈ (a :: c :: rest).consecutivePairs ↔
          pair = (a, c) ∨ pair ∈ (c :: rest).consecutivePairs := by
        simp [List.consecutivePairs]
      by_cases inside : b ≤ key c
      · refine ⟨(a, c), ⟨(here _).mpr (.inl rfl), after, inside⟩, ?_⟩
        intro pair window
        obtain ⟨member, below, -⟩ := window
        refine ((here pair).mp member).resolve_right fun later => absurd below (not_lt.mpr ?_)
        -- a later window starts at `c` or after it
        rcases List.mem_cons.mp (List.of_mem_zip later).1 with same | beyond
        · exact same ▸ inside
        · exact inside.trans ((List.pairwise_cons.mp increasing).1 _ beyond).le
      · have final : (c :: rest).getLast? = some last := by rw [← final, List.getLast?_cons_cons]
        obtain ⟨pair, ⟨member, window⟩, only⟩ := ih increasing rfl final (not_le.mp inside)
        refine ⟨pair, ⟨(here pair).mpr (.inr member), window⟩, ?_⟩
        intro other found
        rcases (here other).mp found.1 with rfl | later
        · exact absurd found.2.2 inside
        · exact only other ⟨later, found.2⟩

end Windows

/-- Elementwise relations compose. -/
theorem forall₂_trans {α : Type*} {r : α → α → Prop}
    (trans : ∀ a b c, r a b → r b c → r a c) {first second third : List α}
    (left : List.Forall₂ r first second) (right : List.Forall₂ r second third) :
    List.Forall₂ r first third := by
  induction left generalizing third with
  | nil => exact right
  | cons head _ ih =>
    cases right with
    | cons next rest => exact .cons (trans _ _ _ head next) (ih rest)

/-- What a filter picks out of a list of keys, by the key of each. -/
theorem map_filterMap_sublist {α β : Type*} {pick : α → Option β} {key : β → α}
    (keyed : ∀ a b, pick a = some b → key b = a) (list : List α) :
    ((list.filterMap pick).map key).Sublist list := by
  induction list with
  | nil => exact .slnil
  | cons a list ih =>
    cases picked : pick a with
    | none => simpa [List.filterMap_cons, picked] using ih.cons a
    | some b => simpa [List.filterMap_cons, picked, keyed a b picked] using ih.cons_cons a

/-- What every step of a partial fold keeps, the fold keeps. -/
theorem foldlM_option_induction {α β : Type*} {f : β → α → Option β} {motive : β → Prop}
    {list : List α} (keeps : ∀ b, ∀ a ∈ list, ∀ b', motive b → f b a = some b' → motive b')
    {first last : β} (base : motive first) (folded : list.foldlM f first = some last) :
    motive last := by
  induction list generalizing first with
  | nil =>
    obtain rfl : first = last := by simpa using folded
    exact base
  | cons a list ih =>
    rw [List.foldlM_cons, Option.bind_eq_bind] at folded
    obtain ⟨mid, stepped, folded⟩ := Option.bind_eq_some_iff.mp folded
    refine ih (fun b a member => keeps b a (List.mem_cons_of_mem _ member)) ?_ folded
    exact keeps first a List.mem_cons_self mid base stepped

/-- A partial fold whose steps are all accepted is accepted. -/
theorem foldlM_option_isSome {α β : Type*} {f : β → α → Option β} {motive : β → Prop}
    {list : List α} (keeps : ∀ b, ∀ a ∈ list, ∀ b', motive b → f b a = some b' → motive b')
    (accepts : ∀ b, ∀ a ∈ list, motive b → (f b a).isSome = true) {first : β}
    (base : motive first) : (list.foldlM f first).isSome = true := by
  induction list generalizing first with
  | nil => rfl
  | cons a list ih =>
    obtain ⟨mid, stepped⟩ := Option.isSome_iff_exists.mp (accepts first a List.mem_cons_self base)
    rw [List.foldlM_cons, stepped]
    exact ih (fun b a member => keeps b a (List.mem_cons_of_mem _ member))
      (fun b a member => accepts b a (List.mem_cons_of_mem _ member))
      (keeps first a List.mem_cons_self mid base stepped)

/-- Erasing one position loses no other element. -/
theorem mem_eraseIdx_or_eq {α : Type*} {list : List α} {index : ℕ} {a b : α} (member : a ∈ list)
    (located : list[index]? = some b) : a ∈ list.eraseIdx index ∨ a = b := by
  obtain ⟨position, found⟩ := List.mem_iff_getElem?.mp member
  by_cases same : position = index
  · subst same
    exact .inr (Option.some.inj (found.symm.trans located))
  · exact .inl (List.mem_eraseIdx_iff_getElem?.mpr ⟨position, same, found⟩)

/-- Nor does overwriting it. -/
theorem mem_set_or_eq {α : Type*} {list : List α} {index : ℕ} {a b : α} (other : α)
    (member : a ∈ list) (located : list[index]? = some b) : a ∈ list.set index other ∨ a = b := by
  obtain ⟨position, found⟩ := List.mem_iff_getElem?.mp member
  by_cases same : position = index
  · subst same
    exact .inr (Option.some.inj (found.symm.trans located))
  · left
    apply List.mem_iff_getElem?.mpr
    exact ⟨position, by rw [List.getElem?_set_ne (Ne.symm same), found]⟩

/-- And what is written stands there. -/
theorem mem_set_self {α : Type*} {list : List α} {index : ℕ} {b : α} (other : α)
    (located : list[index]? = some b) : other ∈ list.set index other := by
  obtain ⟨bound, -⟩ := List.getElem?_eq_some_iff.mp located
  exact List.mem_set bound other

end MempoolObserver.Collections

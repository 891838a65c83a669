import Mathlib.Data.Set.Lattice
import Mathlib.Order.CompletePartialOrder

/-!
# Blocks that absorb the blocks they meet

Blocks are held under indices. Storing a block puts it under some index, and every
block that shares a member with it goes, so a sequence of blocks that are equal or
disjoint leaves the same blocks in whatever order it is stored: those of the sequence,
and what was held before and meets none of them.

## Main results

* `AbsorbsAll.origin` — whatever is held was stored, or was met by nothing
* `AbsorbsAll.stored` — of blocks that do not overlap each stays
-/

namespace MempoolObserver.Absorption

variable {ι α β : Type*} {members : β → Set α}

/-- Storing a block in the place of every block it meets. -/
structure Absorbs (members : β → Set α) (held : ι → β → Prop) (block : β) (next : ι → β → Prop) :
    Prop where
  apart : ∀ {index other}, held index other → Disjoint (members other) (members block) →
    next index other
  stored : ∃ index, next index block
  origin : ∀ {index other}, next index other → other = block ∨
    held index other ∧ Disjoint (members other) (members block)

/-- Storing one block after the other. -/
inductive AbsorbsAll (members : β → Set α) (held : ι → β → Prop) : List β → (ι → β → Prop) → Prop
  | nil : AbsorbsAll members held [] held
  | snoc {blocks block mid next} : AbsorbsAll members held blocks mid →
      Absorbs members mid block next → AbsorbsAll members held (blocks ++ [block]) next

namespace AbsorbsAll

variable {held next : ι → β → Prop} {blocks : List β} {index : ι} {other : β}

/-- Whatever is held was stored, or was held before and met by nothing. -/
theorem origin (absorbs : AbsorbsAll members held blocks next) (present : next index other) :
    other ∈ blocks ∨
      held index other ∧ ∀ block ∈ blocks, Disjoint (members other) (members block) := by
  induction absorbs with
  | nil => exact .inr ⟨present, by simp⟩
  | snoc _ step ih =>
    rcases step.origin present with rfl | ⟨before, disjoint⟩
    · exact .inl (by simp)
    · rcases ih before with stored | ⟨start, met⟩
      · exact .inl (by simp [stored])
      · refine .inr ⟨start, ?_⟩
        intro block member
        rcases List.mem_append.mp member with old | new
        · exact met block old
        · rw [List.mem_singleton.mp new]
          exact disjoint

/-- What no block meets stays where it was. -/
theorem apart (absorbs : AbsorbsAll members held blocks next) (before : held index other)
    (disjoint : ∀ block ∈ blocks, Disjoint (members other) (members block)) : next index other := by
  induction absorbs with
  | nil => exact before
  | snoc _ step ih =>
    apply step.apart
    · exact ih fun block member => disjoint block (by simp [member])
    · exact disjoint _ (by simp)

/-- Of blocks that do not overlap each stays. -/
theorem stored (absorbs : AbsorbsAll members held blocks next)
    (partition : ∀ block ∈ blocks, ∀ other ∈ blocks,
      block = other ∨ Disjoint (members block) (members other))
    (member : other ∈ blocks) : ∃ index, next index other := by
  induction absorbs with
  | nil => simp at member
  | @snoc blocks block _ _ _ step ih =>
    by_cases same : other = block
    · rw [same]
      exact step.stored
    · have old : other ∈ blocks := by simpa [same] using member
      obtain ⟨index, before⟩ := ih (fun first inFirst second inSecond =>
        partition first (by simp [inFirst]) second (by simp [inSecond])) old
      refine ⟨index, step.apart before ?_⟩
      exact (partition other member block (by simp)).resolve_left same

end AbsorbsAll

end MempoolObserver.Absorption

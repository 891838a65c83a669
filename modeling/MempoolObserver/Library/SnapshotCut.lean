import Mathlib.Data.Finset.SymmDiff
import MempoolObserver.Library.SetLog

/-!
# Copies cut from a log

A reader copies the set a log of edits stands for, `seen` edits into the log, and is
then told, batch by batch from the front of the log, which keys each batch moved. A key
that was named since the copy was cut is where the batches left it; any other key is
where it was at the cut. Once everything is told, the copy is the set, unless the cut
went through a batch: a key moved before the cut and back after it, both in one batch,
is not named.

## Main results

* `CutAt.tell` — what telling one batch does to the copy
* `CutAt.eq_of_told` — with the log told to its end, the copy is the set
-/

namespace MempoolObserver.SetLog

variable {α : Type*} [DecidableEq α]

/-- The keys that the log leaves on the other side of the set. -/
def moved (s : Finset α) (log : List (Edit α)) : Finset α := symmDiff s (replay s log)

theorem mem_moved {s : Finset α} {log : List (Edit α)} {a : α} :
    a ∈ moved s log ↔ ¬ (a ∈ s ↔ a ∈ replay s log) := by
  rw [moved, Finset.mem_symmDiff]
  tauto

/-- A copy that was cut `seen` edits into the log and has been told about `named` since. -/
structure CutAt (s : Finset α) (log : List (Edit α)) (seen : ℕ) (named copy : Finset α) :
    Prop where
  within : seen ≤ log.length
  told : ∀ a ∈ named, (a ∈ copy ↔ a ∈ s)
  untold : ∀ a ∉ named, (a ∈ copy ↔ a ∈ replay s (log.take seen))

namespace CutAt

variable {s named copy : Finset α} {log : List (Edit α)} {seen : ℕ}

theorem append (cut : CutAt s log seen named copy) (more : List (Edit α)) :
    CutAt s (log ++ more) seen named copy where
  within := by
    rw [List.length_append]
    exact cut.within.trans (Nat.le_add_right ..)
  told := cut.told
  untold := by
    rw [List.take_append_of_le_length cut.within]
    exact cut.untold

/-- The batch at the front of the log is told. No key that is still to be named may have
moved before the cut and moved back after it. -/
theorem tell {batch rest : List (Edit α)} (cut : CutAt s (batch ++ rest) seen named copy)
    (whole : ∀ a ∈ moved s (batch.take seen),
      a ∈ moved (replay s (batch.take seen)) (batch.drop seen) → a ∈ named)
    {next : Finset α} (toldBatch : ∀ a ∈ moved s batch, (a ∈ next ↔ a ∈ replay s batch))
    (kept : ∀ a ∉ moved s batch, (a ∈ next ↔ a ∈ copy)) :
    CutAt (replay s batch) rest (seen - batch.length) (named ∪ moved s batch) next := by
  have within := cut.within
  rw [List.length_append] at within
  refine ⟨by omega, ?_, ?_⟩
  -- Told by this batch, or told before and not moved by it.
  · intro a member
    by_cases now : a ∈ moved s batch
    · exact toldBatch a now
    · have before : a ∈ named := (Finset.mem_union.mp member).resolve_right now
      rw [kept a now, cut.told a before]
      exact not_not.mp (mt mem_moved.mpr now)
  · intro a unnamed
    rw [Finset.mem_union, not_or] at unnamed
    obtain ⟨unnamed, still⟩ := unnamed
    have unmoved : a ∈ s ↔ a ∈ replay s batch := not_not.mp (mt mem_moved.mpr still)
    rw [kept a still, cut.untold a unnamed]
    by_cases inside : seen < batch.length
    · -- the cut goes through the batch
      rw [List.take_append_of_le_length inside.le, Nat.sub_eq_zero_of_le inside.le, List.take_zero,
        replay_nil, ← unmoved]
      by_contra apart
      have before : a ∈ moved s (batch.take seen) := mem_moved.mpr fun same => apart same.symm
      refine unnamed (whole a before (mem_moved.mpr ?_))
      rw [← replay_append, List.take_append_drop, ← unmoved]
      exact apart
    -- The snapshot came after the batch, so the batch is all in it.
    · rw [List.take_append, replay_append, List.take_of_length_le (not_lt.mp inside)]

theorem eq_of_told (cut : CutAt s [] seen named copy) : copy = s := by
  ext a
  by_cases member : a ∈ named
  · exact cut.told a member
  · simpa using cut.untold a member

end CutAt

end MempoolObserver.SetLog

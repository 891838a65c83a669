import Mathlib.Logic.Relation
import MempoolObserver.Shared.MempoolLedger

/-!
# The removals the journal still owes

A txid that leaves the live set leaves a remove entry in the journal, unless the
journal refuses it. So as long as none is refused, whoever was live once is live
or has a removal queued, until a flush takes the entry out.

## Main definitions

* `MempoolLedger.Owes` — a removal of the txid is queued
* `MempoolLedger.Tracks` — the txid is live, or its removal is queued
* `MempoolLedger.Produced` — what any calls of the producers make of a ledger

## Main results

* `MempoolLedger.Produced.tracks` — a tracked txid stays tracked
-/

namespace MempoolObserver

open Relation SetLog

theorem Producer.exists_appends (producer : Producer) (ledger : MempoolLedger) :
    ∃ entries, ledger.Appends entries (producer.apply ledger) := by
  cases producer with
  | submitAuthoritative call txids => exact ⟨_, ledger.submitAuthoritative_appends call txids⟩
  | assertPresent call txids => exact ⟨_, ledger.assertPresent_appends call txids⟩
  | assertAbsent call txids => exact ⟨_, ledger.assertAbsent_appends call txids⟩

namespace MempoolLedger

/-- A removal of the txid is queued. -/
def Owes (ledger : MempoolLedger) (txid : Txid) : Prop :=
  ∃ entry ∈ ledger.journal, entry.direction = .remove ∧ entry.txid = txid

/-- The txid is live, or its removal is queued. -/
def Tracks (ledger : MempoolLedger) (txid : Txid) : Prop := txid ∈ ledger.live ∨ ledger.Owes txid

/-- `after` is what some producers made of the ledger. -/
def Produced : MempoolLedger → MempoolLedger → Prop :=
  ReflTransGen fun ledger after => ∃ producer : Producer, after = producer.apply ledger

variable {ledger mid after : MempoolLedger} {entries : List JournalEntry} {txid : Txid}

theorem Tracks.owes (tracks : ledger.Tracks txid) (gone : txid ∉ ledger.live) :
    ledger.Owes txid :=
  tracks.resolve_left gone

theorem Owes.of_subset (owes : ledger.Owes txid) (grown : ledger.journal ⊆ after.journal) :
    after.Owes txid := by
  obtain ⟨entry, queued, removes⟩ := owes
  exact ⟨entry, grown queued, removes⟩

namespace Appends

theorem journal_subset (h : ledger.Appends entries after) : ledger.journal ⊆ after.journal := by
  rw [h.journal_eq]
  exact List.subset_append_left ..

/-- Whoever a producer takes out of the live set has its removal queued. -/
theorem tracks (h : ledger.Appends entries after) (sound : after.degraded = false)
    (tracks : ledger.Tracks txid) : after.Tracks txid := by
  rcases tracks with live | owes
  · by_cases stays : txid ∈ after.live
    · exact .inl stays
    rw [h.live_eq] at stays
    obtain ⟨entry, queued, erases⟩ := List.mem_map.mp (erase_mem_of_lost live stays)
    refine .inr ⟨entry, ?_, ?_⟩
    · rw [h.journal_eq_of_sound sound]
      exact List.mem_append_right _ queued
    · cases direction : entry.direction <;>
        simp_all [JournalEntry.edit, DeltaDirection.edit]
  · exact .inr (owes.of_subset h.journal_subset)

end Appends

namespace Produced

theorem refl (ledger : MempoolLedger) : Produced ledger ledger := ReflTransGen.refl

theorem trans (first : Produced ledger mid) (second : Produced mid after) : Produced ledger after :=
  ReflTransGen.trans first second

theorem single (producer : Producer) (ledger : MempoolLedger) :
    Produced ledger (producer.apply ledger) :=
  ReflTransGen.single ⟨producer, rfl⟩

theorem foldl (producers : List Producer) (ledger : MempoolLedger) :
    Produced ledger (producers.foldl Producer.apply ledger) := by
  induction producers generalizing ledger with
  | nil => exact .refl ledger
  | cons producer producers ih => exact (single producer ledger).trans (ih _)

/-- A refusal is remembered. -/
theorem sound_before (produced : Produced ledger after) (sound : after.degraded = false) :
    ledger.degraded = false := by
  induction produced with
  | refl => exact sound
  | tail _ step ih =>
    obtain ⟨producer, rfl⟩ := step
    obtain ⟨entries, appends⟩ := producer.exists_appends _
    exact ih (appends.sound_before sound)

theorem owes (produced : Produced ledger after) (owes : ledger.Owes txid) : after.Owes txid := by
  induction produced with
  | refl => exact owes
  | tail _ step ih =>
    obtain ⟨producer, rfl⟩ := step
    obtain ⟨entries, appends⟩ := producer.exists_appends _
    exact ih.of_subset appends.journal_subset

theorem tracks (produced : Produced ledger after) (sound : after.degraded = false)
    (tracks : ledger.Tracks txid) : after.Tracks txid := by
  induction produced with
  | refl => exact tracks
  | tail _ step ih =>
    obtain ⟨producer, rfl⟩ := step
    obtain ⟨entries, appends⟩ := producer.exists_appends _
    exact appends.tracks sound (ih (appends.sound_before sound))

end Produced

/-! ### What the node's answers do -/

theorem live_assertPresent (call : Call) (ledger : MempoolLedger) (txids : List Txid) :
    (ledger.assertPresent call txids).live = ledger.live ∪ txids.toFinset := by
  induction txids generalizing ledger with
  | nil => simp [assertPresent]
  | cons first txids ih =>
    rw [assertPresent, List.foldl_cons, ← assertPresent, ih, List.toFinset_cons]
    split_ifs with present
    · rw [Finset.union_insert, Finset.insert_eq_of_mem (Finset.mem_union_left _ present)]
    · rw [push_live, Finset.insert_union, Finset.union_insert]

theorem live_assertAbsent (call : Call) (ledger : MempoolLedger) (txids : List Txid) :
    (ledger.assertAbsent call txids).live = ledger.live \ txids.toFinset := by
  induction txids generalizing ledger with
  | nil => simp [assertAbsent]
  | cons first txids ih =>
    rw [assertAbsent, List.foldl_cons, ← assertAbsent, ih, List.toFinset_cons]
    split_ifs with present
    · rw [push_live, Finset.sdiff_insert, Finset.erase_sdiff_comm]
    · rw [Finset.sdiff_insert, Finset.erase_eq_of_notMem]
      exact fun member => present (Finset.mem_sdiff.mp member).1

end MempoolLedger

end MempoolObserver

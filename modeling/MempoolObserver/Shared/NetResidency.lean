import MempoolObserver.Shared.FlushAgreement

/-!
# What a flush batch amounts to

Every entry of the journal changes the residency that the entries before it
amount to, so long as none is refused. A batch is the front of the journal, and
so its first and its last entry for a txid tell what the whole batch does to it.
-/

namespace MempoolObserver

open SetLog Collections Relation

/-- A step that has no push refused. -/
def FlushState.AcceptingStep (s next : FlushState) : Prop :=
  ∃ op, s.step op = some next ∧ ¬ op.Refused s

theorem MempoolLedger.gapEntries_self (call : Call) (base : Finset Txid) :
    gapEntries call base base = [] := by
  simp [gapEntries]

/-- The journal takes what is settled to `live`, every entry changing it. -/
structure JournalInv (s : FlushState) : Prop where
  inPlace : s.BatchInPlace
  effective : Effective (residency s.settled) (edits s.ledger.journal)
  live : replay (residency s.settled) (edits s.ledger.journal) = s.ledger.live

/-- What is settled and the journal are the log. -/
theorem FlushState.BatchInPlace.settled_append_journal {s : FlushState} (inPlace : s.BatchInPlace) :
    s.settled ++ s.ledger.journal = s.log := by
  rw [← inPlace.overlap_append_unwritten, ← List.append_assoc, inPlace.settled_append_overlap, log]

theorem JournalInv.seeded {ledger : MempoolLedger} (empty : ledger.journal = [])
    (rows : List JournalEntry) : JournalInv (.seeded ledger rows) := by
  have settled : (FlushState.seeded ledger rows).settled = rows := by
    simp [FlushState.settled, FlushState.seeded, FlushState.overlap]
  refine ⟨trivial, ?_, ?_⟩
  · simp [FlushState.seeded, MempoolLedger.seed, empty]
  · rw [settled]
    simp [FlushState.seeded, MempoolLedger.seed, empty]

/-- What an operation adds to the journal takes `live` to the next `live`. -/
theorem JournalInv.appended {s next : FlushState} {op : FlushOp} (inv : JournalInv s)
    (h : s.step op = some next) (accepted : ¬ op.Refused s) :
    Effective s.ledger.live (edits (next.ledger.journal.drop s.ledger.journal.length)) ∧
      replay s.ledger.live (edits (next.ledger.journal.drop s.ledger.journal.length)) =
        next.ledger.live := by
  obtain ⟨after, appends, rfl⟩ | ⟨call, dbImage, rfl, isView, rfl⟩ | ⟨rfl, -⟩ | ⟨-, -, rfl⟩ |
    ⟨batch, -, -, rfl | rfl⟩ | ⟨batch, -, -, rfl⟩ := FlushState.step_cases h
  -- Nothing was refused, so the journal took all that was queued.
  · have kept : after.journal = s.ledger.journal ++ op.queued s := by
      rw [appends.journal_eq, List.take_of_length_le (not_lt.mp accepted)]
    rw [kept, List.drop_left]
    exact ⟨appends.effective, appends.live_eq.symm⟩
  · -- the journal takes the image to `live` already
    have image : s.ledger.eventual dbImage = s.ledger.live := by
      rw [MempoolLedger.eventual_eq_replay, FlushState.replay_view inv.inPlace isView,
        ← inv.inPlace.settled_append_journal, residency_append, inv.live]
    have same : (s.ledger.reconcileAgainst call dbImage).live = s.ledger.live := by
      rw [MempoolLedger.reconcileAgainst_eq, MempoolLedger.pushAll_eq]
      simp only
      split_ifs <;> rfl
    have nothing : (s.ledger.reconcileAgainst call dbImage).journal = s.ledger.journal := by
      rw [s.ledger.journal_reconcileAgainst, image, MempoolLedger.gapEntries_self]
      simp
    simp [nothing, same]
  all_goals simp

theorem JournalInv.step {s next : FlushState} {op : FlushOp} (inv : JournalInv s)
    (h : s.step op = some next) (accepted : ¬ op.Refused s) : JournalInv next := by
  obtain ⟨inPlace, ⟨moved, settled⟩, log⟩ := FlushState.log_step inv.inPlace h
  obtain ⟨effective, live⟩ := inv.appended h accepted
  -- the entries that became settled are the front of the journal
  have front : s.ledger.journal ++ next.ledger.journal.drop s.ledger.journal.length =
      moved ++ next.ledger.journal := by
    rw [← inPlace.settled_append_journal, ← inv.inPlace.settled_append_journal, ← settled,
      List.append_assoc, List.append_assoc] at log
    exact (List.append_cancel_left log).symm
  have whole : Effective (residency s.settled) (edits (moved ++ next.ledger.journal)) := by
    rw [← front, edits_append, effective_append, inv.live]
    exact ⟨inv.effective, effective⟩
  have ends : replay (residency s.settled) (edits (moved ++ next.ledger.journal)) =
      next.ledger.live := by
    rw [← front, edits_append, replay_append, inv.live, live]
  rw [edits_append, effective_append] at whole
  rw [edits_append, replay_append] at ends
  refine ⟨inPlace, ?_, ?_⟩
  · rw [← settled, residency_append]
    exact whole.2
  · rw [← settled, residency_append]
    exact ends

theorem JournalInv.run {s last : FlushState} (inv : JournalInv s)
    (run : ReflTransGen FlushState.AcceptingStep s last) : JournalInv last := by
  induction run with
  | refl => exact inv
  | tail _ step ih =>
    obtain ⟨op, step, accepted⟩ := step
    exact ih.step step accepted

/-- A batch that `begin_flush` hands out, or has handed out. -/
def FlushState.Batch (s : FlushState) (batch : List JournalEntry) : Prop :=
  s.ledger.beginFlush = some batch ∨ s.flight = .taken batch ∨ s.flight = .written batch

theorem FlushState.BatchInPlace.front {s : FlushState} (inPlace : s.BatchInPlace)
    {batch : List JournalEntry} (isBatch : s.Batch batch) : batch <+: s.ledger.journal := by
  rcases isBatch with handed | taken | written
  · obtain ⟨rfl, -⟩ := MempoolLedger.beginFlush_eq_some.mp handed
    exact List.prefix_rfl
  · rw [BatchInPlace, taken] at inPlace
    exact inPlace
  · rw [BatchInPlace, written] at inPlace
    exact inPlace.1

theorem nodup_residencyDelta (order : Enumeration Txid) (entries : List JournalEntry) :
    (residencyDelta order entries).1.Nodup ∧ (residencyDelta order entries).2.Nodup :=
  ⟨(order.nodup _).filter _, (order.nodup _).filter _⟩

/-- **Net residency of a batch.** From a seeded ledger with an empty journal, and
with no push refused, the pair a batch reports is what the batch adds to the
residency before it and what it takes away. -/
theorem residencyDelta_nets {ledger : MempoolLedger} {rows batch : List JournalEntry}
    {s : FlushState} (empty : ledger.journal = [])
    (run : ReflTransGen FlushState.AcceptingStep (.seeded ledger rows) s)
    (isBatch : s.Batch batch) (order : Enumeration Txid) :
    (residencyDelta order batch).1.Nodup ∧ (residencyDelta order batch).2.Nodup ∧
    (∀ txid ∈ (residencyDelta order batch).1, txid ∉ residency s.settled) ∧
    (∀ txid ∈ (residencyDelta order batch).2, txid ∈ residency s.settled) ∧
    (residencyDelta order batch).1.Disjoint (residencyDelta order batch).2 ∧
    (residency s.settled ∪ (residencyDelta order batch).1.toFinset) \
      (residencyDelta order batch).2.toFinset = replay (residency s.settled) (edits batch) := by
  have inv := (JournalInv.seeded empty rows).run run
  -- The batch is the oldest part of the journal, so it is effective over what is settled.
  obtain ⟨rest, front⟩ := inv.inPlace.front isBatch
  have effective : Effective (residency s.settled) (edits batch) := by
    have whole := inv.effective
    rw [← front, edits_append, effective_append] at whole
    exact whole.1
  have added (txid : Txid) := (mem_residencyDelta effective order txid).1
  have removed (txid : Txid) := (mem_residencyDelta effective order txid).2
  have fresh (txid : Txid) (member : txid ∈ (residencyDelta order batch).1) :
      txid ∉ residency s.settled := (Finset.mem_sdiff.mp ((added txid).mp member)).2
  have held (txid : Txid) (member : txid ∈ (residencyDelta order batch).2) :
      txid ∈ residency s.settled := (Finset.mem_sdiff.mp ((removed txid).mp member)).1
  refine ⟨(nodup_residencyDelta order batch).1, (nodup_residencyDelta order batch).2, fresh, held,
    fun txid first second => fresh txid first (held txid second), ?_⟩
  -- Taken apart, the delta is the difference between the two residencies.
  ext txid
  rw [Finset.mem_sdiff, Finset.mem_union, List.mem_toFinset, List.mem_toFinset, added, removed,
    Finset.mem_sdiff, Finset.mem_sdiff]
  tauto

/-- A batch in which `b` comes, goes and comes again, and the resident `a` goes. -/
theorem churn_residencyDelta_nets :
    (residency [⟨"a", .add, 0⟩] ∪ {"b"}) \ {"a"} = replay (residency [⟨"a", .add, 0⟩])
      (edits [⟨"b", .add, 1⟩, ⟨"b", .remove, 2⟩, ⟨"b", .add, 1⟩, ⟨"a", .remove, 2⟩]) := by
  have accepting {s next : FlushState} (op : FlushOp) (step : s.step op = some next)
      (fits : ¬ op.Refused s) : FlushState.AcceptingStep s next := ⟨op, step, fits⟩
  have run : ReflTransGen FlushState.AcceptingStep (.seeded .default [⟨"a", .add, 0⟩])
      ⟨⟨{"b"}, [⟨"b", .add, 1⟩, ⟨"b", .remove, 2⟩, ⟨"b", .add, 1⟩, ⟨"a", .remove, 2⟩], false⟩,
        [⟨"a", .add, 0⟩], .idle⟩ :=
    .tail (.tail (.tail (.single
      (accepting (.assertPresent ⟨fun _ => 1, .sorted _⟩ ["b"]) rfl (by decide)))
      (accepting (.assertAbsent ⟨fun _ => 2, .sorted _⟩ ["b"]) rfl (by decide)))
      (accepting (.assertPresent ⟨fun _ => 1, .sorted _⟩ ["b"]) rfl (by decide)))
      (accepting (.assertAbsent ⟨fun _ => 2, .sorted _⟩ ["a"]) rfl (by decide))
  exact (residencyDelta_nets rfl run (.inl rfl) (.sorted _)).2.2.2.2.2

end MempoolObserver

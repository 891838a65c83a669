import MempoolObserver.Library.Runs
import MempoolObserver.Library.SnapshotCut
import MempoolObserver.Services.FlushHistory

/-!
# Streaming mempool changes

A reader of `mempool.delta` subscribes, is then sent the live set as its first event,
and after that every event published since the subscription. A tick publishes the
residency delta of its batch once the batch is dropped from the journal, so the live set
the reader is sent is ahead of the events by whatever is queued or about to be
published.

The published residency, with everything unpublished replayed on it, is the live set; the
reader's copy is cut somewhere in what is unpublished. The cut goes through a batch when
entries from before and after the snapshot are flushed together.

## Main results

* `DeltaInv.step` — what every step keeps
* `live_eq_of_drained` — a reader that has caught up holds the live set
* `not_live_eq_of_undone` — a transaction that leaves before it is flushed stays with the
  reader
-/

namespace MempoolObserver

open SetLog Collections Runs

structure MempoolDeltaEvent where
  added : List Txid
  removed : List Txid
  deriving DecidableEq, Repr

namespace MempoolDeltaEvent

def edits (event : MempoolDeltaEvent) : List (Edit Txid) :=
  event.added.map .insert ++ event.removed.map .erase

/-- The event of a batch. -/
def ofBatch (order : Enumeration Txid) (entries : List JournalEntry) : MempoolDeltaEvent :=
  ⟨(residencyDelta order entries).1, (residencyDelta order entries).2⟩

/-- The txids the event mentions. -/
def txids (event : MempoolDeltaEvent) : Finset Txid := (event.added ++ event.removed).toFinset

/-- The reader inserts what is added and deletes what is removed. -/
def fold (live : Finset Txid) (event : MempoolDeltaEvent) : Finset Txid := replay live event.edits

end MempoolDeltaEvent

/-- Where the reader stands. -/
inductive DeltaReader where
  | absent
  /-- Subscribed, the snapshot not read yet. -/
  | subscribed (queue : List MempoolDeltaEvent)
  | streaming (queue : List MempoolDeltaEvent) (live : Finset Txid)

/-- The bus delivers an event. -/
def DeltaReader.deliver (event : MempoolDeltaEvent) : DeltaReader → DeltaReader
  | absent => .absent
  | subscribed queue => .subscribed (queue ++ [event])
  | streaming queue live => .streaming (queue ++ [event]) live

structure DeltaWorld where
  system : System
  /-- The batch a tick has dropped from the journal and is about to publish. -/
  committed : Option (List JournalEntry)
  reader : DeltaReader
  /-- How many of the unpublished entries the reader's snapshot has seen. -/
  seen : ℕ
  /-- The txids the events since the subscription mention. -/
  named : Finset Txid

inductive DeltaOp where
  | system (op : SystemOp)
  | publish (order : Enumeration Txid)
  | subscribe
  | snapshot (order : Enumeration Txid)
  | receive

namespace DeltaWorld

def initial (now : ℕ) (ledger : MempoolLedger) (db : Db) : DeltaWorld :=
  ⟨.initial now ledger db, none, .absent, 0, ∅⟩

/-- What no event has told yet, in order. -/
def unpublished (w : DeltaWorld) : List JournalEntry :=
  w.committed.getD [] ++ w.system.ledger.journal

/-- The tick goes on when its event is published. -/
def allowed (w : DeltaWorld) : SystemOp → Bool
  | .tick _ => w.committed.isNone
  | _ => true

/-- The batch an operation drops from the journal. -/
def commits (w : DeltaWorld) : SystemOp → Option (List JournalEntry)
  | .tick .commitBatch =>
    match w.system.tick with
    | .written batch _ => some batch
    | _ => none
  | _ => w.committed

/-- One step, `none` when the operation is not possible. -/
def step (w : DeltaWorld) : DeltaOp → Option DeltaWorld
  | .system op =>
    if w.allowed op then (w.system.step op).map fun system =>
      { w with system := system, committed := w.commits op }
    else none
  -- The event goes to whoever is subscribed at that moment.
  | .publish order =>
    match w.committed with
    | some batch =>
      let event := MempoolDeltaEvent.ofBatch order batch
      some { w with
        committed := none
        reader := w.reader.deliver event
        -- The batch is no longer unpublished, and a prefix of that part is what was seen.
        seen := w.seen - batch.length
        named := w.named ∪ event.txids }
    | none => none
  | .subscribe =>
    match w.reader with
    | .absent => some { w with reader := .subscribed [], seen := 0, named := ∅ }
    | _ => none
  | .snapshot order =>
    match w.reader with
    -- Subscribed first, so the live set read now goes in front of what has queued up since.
    | .subscribed queue =>
      let first : MempoolDeltaEvent := ⟨order.toList w.system.ledger.live, []⟩
      some { w with reader := .streaming (first :: queue) ∅, seen := w.unpublished.length }
    | _ => none
  | .receive =>
    match w.reader with
    | .streaming (event :: queue) live =>
      some { w with reader := .streaming queue (event.fold live) }
    | _ => none

end DeltaWorld

/-! ### What an event tells -/

namespace MempoolDeltaEvent

variable {residents : Finset Txid} {entries : List JournalEntry}

/-- The event of a batch mentions the txids the batch moves. -/
theorem txids_ofBatch (effective : Effective residents (MempoolObserver.edits entries))
    (order : Enumeration Txid) :
    (ofBatch order entries).txids = moved residents (MempoolObserver.edits entries) := by
  ext txid
  obtain ⟨added, removed⟩ := mem_residencyDelta effective order txid
  rw [txids, List.mem_toFinset, List.mem_append, ofBatch, added, removed, mem_moved]
  simp only [Finset.mem_sdiff]
  by_cases before : txid ∈ residents
  · simp [before]
  · simp [before]

/-- A reader that folds it has these txids where the batch left them, and no other
changed. -/
theorem mem_fold_ofBatch (effective : Effective residents (MempoolObserver.edits entries))
    (order : Enumeration Txid) (live : Finset Txid) (txid : Txid) :
    txid ∈ fold live (ofBatch order entries) ↔
      if txid ∈ moved residents (MempoolObserver.edits entries) then
        txid ∈ replay residents (MempoolObserver.edits entries)
      else txid ∈ live := by
  obtain ⟨added, removed⟩ := mem_residencyDelta effective order txid
  rw [fold, edits, replay_append, replay_map_insert, replay_map_erase, Finset.mem_sdiff,
    Finset.mem_union, List.mem_toFinset, List.mem_toFinset, ofBatch, added, removed]
  simp only [Finset.mem_sdiff]
  by_cases before : txid ∈ residents
  · by_cases after : txid ∈ replay residents (MempoolObserver.edits entries)
    · simp [mem_moved, before, after]
    · simp [mem_moved, before, after]
  · by_cases after : txid ∈ replay residents (MempoolObserver.edits entries)
    · simp [mem_moved, before, after]
    · simp [mem_moved, before, after]

end MempoolDeltaEvent

open MempoolDeltaEvent (fold ofBatch)

/-- What a reader holds once it has folded the queue. -/
def foldAll (live : Finset Txid) (queue : List MempoolDeltaEvent) : Finset Txid :=
  queue.foldl fold live

@[simp] theorem foldAll_cons (live : Finset Txid) (event : MempoolDeltaEvent)
    (queue : List MempoolDeltaEvent) :
    foldAll live (event :: queue) = foldAll (fold live event) queue := rfl

@[simp] theorem foldAll_append_singleton (live : Finset Txid) (queue : List MempoolDeltaEvent)
    (event : MempoolDeltaEvent) :
    foldAll live (queue ++ [event]) = fold (foldAll live queue) event := by
  simp [foldAll]

/-- Only one operation of the schedule drops a batch from the journal. -/
theorem SystemOp.eq_commitBatch {s : System} {op : SystemOp} (h : op.flushOp s = some .commit) :
    op = .tick .commitBatch := by
  unfold flushOp at h
  split at h
  · rename_i producer
    cases producer <;> simp [Producer.flushOp] at h
  · simp at h
  · split_ifs at h
    simp at h
  · simp at h
  · simp at h
  · rfl
  · split at h <;> simp at h
  · simp at h

instance (op : SystemOp) (s : System) : Decidable (op.Refused s) :=
  decidable_of_iff (∃ flushOp ∈ op.flushOp s, flushOp.Refused s.flush) Iff.rfl

/-! ### The invariant -/

namespace DeltaWorld

/-- What the reader holds, seen from the published residency. -/
def ReaderInv (w : DeltaWorld) (residents : Finset Txid) : Prop :=
  match w.reader with
  | .absent => True
  | .subscribed queue =>
    -- the queue decides the txids it mentions, whatever it is folded onto
    w.seen = 0 ∧ ∀ live txid, txid ∈ foldAll live queue ↔
      if txid ∈ w.named then txid ∈ residents else txid ∈ live
  | .streaming queue live =>
    CutAt residents (edits w.unpublished) w.seen w.named (foldAll live queue)

structure DeltaInv (w : DeltaWorld) (residents : Finset Txid) : Prop where
  system : SystemInv w.system
  inPlace : w.system.flush.BatchInPlace
  effective : Effective residents (edits w.unpublished)
  live : replay residents (edits w.unpublished) = w.system.ledger.live
  reader : w.ReaderInv residents

/-- No push is refused, and no batch about to be published undoes, after the snapshot,
what it does to a transaction before it, unless an event has mentioned the transaction. -/
def Unbroken (w : DeltaWorld) : DeltaOp → Prop
  | .system op => ¬ op.Refused w.system
  | .publish order =>
    ∀ batch ∈ w.committed, ∀ txid ∈ (ofBatch order (batch.take w.seen)).txids,
      txid ∈ (ofBatch order (batch.drop w.seen)).txids → txid ∈ w.named
  | _ => True

instance (w : DeltaWorld) : (op : DeltaOp) → Decidable (w.Unbroken op)
  | .system op => inferInstanceAs (Decidable (¬ op.Refused w.system))
  | .publish order => inferInstanceAs (Decidable (∀ batch ∈ w.committed,
      ∀ txid ∈ (ofBatch order (batch.take w.seen)).txids,
        txid ∈ (ofBatch order (batch.drop w.seen)).txids → txid ∈ w.named))
  | .subscribe | .snapshot _ | .receive => .isTrue trivial

variable {w next : DeltaWorld} {residents : Finset Txid}

theorem DeltaInv.subscribe (inv : w.DeltaInv residents) :
    { w with reader := .subscribed [], seen := 0, named := ∅ }.DeltaInv residents :=
  ⟨inv.system, inv.inPlace, inv.effective, inv.live, rfl, fun live txid => by simp [foldAll]⟩

theorem DeltaInv.snapshot (inv : w.DeltaInv residents) {queue : List MempoolDeltaEvent}
    (here : w.reader = .subscribed queue) (order : Enumeration Txid) :
    { w with
      reader := .streaming (⟨order.toList w.system.ledger.live, []⟩ :: queue) ∅
      seen := w.unpublished.length }.DeltaInv residents := by
  have known := inv.reader
  rw [ReaderInv, here] at known
  refine ⟨inv.system, inv.inPlace, inv.effective, inv.live, ?_⟩
  -- Folding the first event over nothing gives the live set itself.
  have first : fold ∅ ⟨order.toList w.system.ledger.live, []⟩ = w.system.ledger.live := by
    rw [fold, MempoolDeltaEvent.edits, List.map_nil, List.append_nil, replay_map_insert]
    ext txid
    simp [order.mem_toList]
  refine ⟨by simp [edits, unpublished], ?_, ?_⟩
  · intro txid member
    rw [foldAll_cons, known.2, if_pos member]
  -- The snapshot has seen everything that is unpublished at this moment.
  · intro txid unnamed
    have all : (edits w.unpublished).take w.unpublished.length = edits w.unpublished :=
      List.take_of_length_le (by simp [edits])
    have same : replay residents ((edits w.unpublished).take w.unpublished.length) =
        w.system.ledger.live := by rw [all, inv.live]
    rw [foldAll_cons, known.2, if_neg unnamed, first]
    exact iff_of_eq (congrArg (txid ∈ ·) same.symm)

/-- The tick publishes the batch it has dropped from the journal. -/
theorem DeltaInv.publish (inv : w.DeltaInv residents) {batch : List JournalEntry}
    (here : w.committed = some batch) {order : Enumeration Txid}
    (unbroken : w.Unbroken (.publish order)) :
    { w with
      committed := none
      reader := w.reader.deliver (ofBatch order batch)
      seen := w.seen - batch.length
      named := w.named ∪ (ofBatch order batch).txids }.DeltaInv
        (replay residents (edits batch)) := by
  -- The batch is the oldest part of what is unpublished.
  have split : edits w.unpublished = edits batch ++ edits w.system.ledger.journal := by
    simp [unpublished, here]
  have effective := inv.effective
  rw [split, effective_append] at effective
  obtain ⟨batchEffective, restEffective⟩ := effective
  have live := inv.live
  rw [split, replay_append] at live
  refine ⟨inv.system, inv.inPlace, restEffective, live, ?_⟩
  have known := inv.reader
  have names := MempoolDeltaEvent.txids_ofBatch batchEffective order
  have folded := MempoolDeltaEvent.mem_fold_ofBatch batchEffective order
  unfold ReaderInv at known ⊢
  cases reader : w.reader <;> rw [reader] at known
  case absent => trivial
  case subscribed queue =>
    -- Not streaming yet: the names in the queue are decided by the batch, in or out.
    obtain ⟨unseen, decided⟩ := known
    refine ⟨by simp [unseen], fun live txid => ?_⟩
    rw [foldAll_append_singleton, folded, names, decided]
    simp only [Finset.mem_union]
    by_cases changed : txid ∈ moved residents (edits batch)
    · simp only [changed, or_true, if_true]
    · have unmoved := not_not.mp (mt mem_moved.mpr changed)
      simp only [changed, or_false, if_false, unmoved]
  case streaming queue live =>
    rw [split] at known
    -- The cut at the part already seen does not break a txid's changes in two.
    have whole : ∀ txid ∈ moved residents ((edits batch).take w.seen),
        txid ∈ moved (replay residents ((edits batch).take w.seen)) ((edits batch).drop w.seen) →
          txid ∈ w.named := by
      have parts := batchEffective
      rw [← List.take_append_drop w.seen batch, edits_append, effective_append] at parts
      have taken : (edits batch).take w.seen = edits (batch.take w.seen) := List.map_take.symm
      have dropped : (edits batch).drop w.seen = edits (batch.drop w.seen) := List.map_drop.symm
      rw [taken, dropped, ← MempoolDeltaEvent.txids_ofBatch parts.1 order,
        ← MempoolDeltaEvent.txids_ofBatch parts.2 order]
      exact unbroken batch here
    -- A streaming reader tells each changed txid and is silent about the rest.
    have told := known.tell whole
      (fun txid changed => by rw [folded, if_pos changed])
      (fun txid same => by rw [folded, if_neg same])
    simp only [DeltaReader.deliver, foldAll_append_singleton, names]
    simpa [edits, unpublished] using told

/-- The journal grows at its end, and what is unpublished with it. -/
theorem DeltaInv.grow (inv : w.DeltaInv residents) {system : System}
    (systemInv : SystemInv system) (inPlace : system.flush.BatchInPlace)
    {entries : List JournalEntry}
    (journal : system.ledger.journal = w.system.ledger.journal ++ entries)
    (effective : Effective w.system.ledger.live (edits entries))
    (live : system.ledger.live = replay w.system.ledger.live (edits entries)) :
    { w with system := system }.DeltaInv residents := by
  have grown : DeltaWorld.unpublished { w with system := system } = w.unpublished ++ entries := by
    simp [unpublished, journal]
  refine ⟨systemInv, inPlace, ?_, ?_, ?_⟩
  · rw [grown, edits_append, effective_append, inv.live]
    exact ⟨inv.effective, effective⟩
  · rw [grown, edits_append, replay_append, inv.live, live]
  · have known := inv.reader
    unfold ReaderInv at known ⊢
    cases reader : w.reader <;> rw [reader] at known
    case absent => trivial
    case subscribed queue => exact known
    -- The cut of a streaming reader stays where it is while the journal grows behind it.
    case streaming queue live =>
      have longer := CutAt.append known (edits entries)
      rw [← edits_append, ← grown] at longer
      exact longer

/-- The batch at the front of the journal is dropped from it, to be published. -/
theorem DeltaInv.commitBatch (inv : w.DeltaInv residents) {batch : List JournalEntry}
    {outcome : FlushOutcome} (nothing : w.committed = none)
    (written : w.system.tick = .written batch outcome) :
    { w with
      system := { w.system with ledger := w.system.ledger.commit batch, tick := .syncing }
      committed := some batch }.DeltaInv residents := by
  have inPlace := inv.inPlace
  simp only [FlushState.BatchInPlace, System.flush, TickPc.flight, written] at inPlace
  obtain ⟨⟨rest, journal⟩, -⟩ := inPlace
  -- The batch moves from the journal to the publisher, so nothing is gained or lost.
  have same : DeltaWorld.unpublished { w with
      system := { w.system with ledger := w.system.ledger.commit batch, tick := .syncing }
      committed := some batch } = w.unpublished := by
    simp [unpublished, nothing, MempoolLedger.commit, ← journal]
  have systemInv : SystemInv { w.system with
      ledger := w.system.ledger.commit batch, tick := .syncing } :=
    inv.system.withTick (by simp [written]) (by simp) _ w.system.db (by simp)
  refine ⟨systemInv, trivial, by rw [same]; exact inv.effective, by rw [same]; exact inv.live, ?_⟩
  have known := inv.reader
  unfold ReaderInv at known ⊢
  rw [same]
  exact known

theorem DeltaInv.system_step {op : SystemOp} {system : System} (inv : w.DeltaInv residents)
    (allowed : w.allowed op = true) (accepted : ¬ op.Refused w.system)
    (h : w.system.step op = some system) :
    { w with system := system, committed := w.commits op }.DeltaInv residents := by
  by_cases committing : op = .tick .commitBatch
  · subst committing
    have nothing : w.committed = none := Option.isNone_iff_eq_none.mp allowed
    have commits : w.system.stepTick .commitBatch = some system := h
    cases System.stepTick_cases commits with
    | commitBatch written =>
      simp only [DeltaWorld.commits, written]
      exact inv.commitBatch nothing written
  · obtain ⟨inPlace, -, -⟩ := System.log_step inv.system inv.inPlace h
    have unpublished : w.commits op = w.committed := by
      -- Only the commit of a batch hands something over.
      unfold commits
      split
      · exact absurd rfl committing
      · rfl
    rw [unpublished]
    have simulated := System.flush_step inv.system h
    -- What the step does to the ledger is one operation of the flush, or nothing.
    cases flushed : op.flushOp w.system with
    | none =>
      rw [flushed] at simulated
      have ledger : system.ledger = w.system.ledger := congrArg FlushState.ledger simulated
      have same : system.ledger.journal = w.system.ledger.journal ++ [] := by simp [ledger]
      exact inv.grow (inv.system.step h) inPlace same trivial (by simp [ledger])
    | some flushOp =>
      rw [flushed] at simulated
      obtain ⟨entries, journal, effective, live⟩ := FlushState.grows_step simulated
        (fun refused => accepted ⟨flushOp, flushed, refused⟩)
        (fun same => committing (SystemOp.eq_commitBatch (same ▸ flushed)))
        (SystemOp.flushOp_ne_reconcileAgainst flushed)
      exact inv.grow (inv.system.step h) inPlace journal effective live

theorem DeltaInv.step {op : DeltaOp} (inv : w.DeltaInv residents) (unbroken : w.Unbroken op)
    (h : w.step op = some next) : ∃ residents, next.DeltaInv residents := by
  cases op with
  | system op =>
    simp only [DeltaWorld.step] at h
    split_ifs at h with allowed
    obtain ⟨system, stepped, rfl⟩ := Option.map_eq_some_iff.mp h
    exact ⟨residents, inv.system_step allowed unbroken stepped⟩
  | publish order =>
    simp only [DeltaWorld.step] at h
    split at h
    · rename_i batch here
      cases h
      exact ⟨_, inv.publish here unbroken⟩
    · cases h
  | subscribe =>
    simp only [DeltaWorld.step] at h
    split at h <;> cases h
    exact ⟨residents, inv.subscribe⟩
  | snapshot order =>
    simp only [DeltaWorld.step] at h
    split at h
    · rename_i queue here
      cases h
      exact ⟨residents, inv.snapshot here order⟩
    · cases h
  | receive =>
    simp only [DeltaWorld.step] at h
    split at h
    · rename_i event queue live here
      cases h
      have known := inv.reader
      rw [ReaderInv, here] at known
      exact ⟨residents, inv.system, inv.inPlace, inv.effective, inv.live, known⟩
    · cases h

theorem DeltaInv.initial {now : ℕ} {ledger : MempoolLedger} {db : Db}
    (empty : ledger.journal = []) :
    (DeltaWorld.initial now ledger db).DeltaInv ledger.live where
  system := .initial now ledger db
  inPlace := trivial
  effective := by simp [DeltaWorld.initial, unpublished, System.initial, empty]
  live := by simp [DeltaWorld.initial, unpublished, System.initial, empty]
  reader := trivial

end DeltaWorld

open DeltaWorld in
/-- In every run in which no push is refused and no batch undoes after the snapshot what it
did to a transaction before it, a reader that has folded everything it was sent holds the
live set whenever the journal is empty and nothing is about to be published. -/
theorem live_eq_of_drained {now : ℕ} {ledger : MempoolLedger} {db : Db} {ops : List DeltaOp}
    {w : DeltaWorld} {live : Finset Txid} (empty : ledger.journal = [])
    (unbroken : Along step Unbroken (initial now ledger db) ops)
    (ran : run step (initial now ledger db) ops = some w)
    (journal : w.system.ledger.journal = []) (published : w.committed = none)
    (drained : w.reader = .streaming [] live) : live = w.system.ledger.live := by
  obtain ⟨residents, inv⟩ : ∃ residents, w.DeltaInv residents := by
    refine run_induction_along (motive := fun w : DeltaWorld => ∃ residents, w.DeltaInv residents)
      (fun s op next holds unbroken stepped => ?_) ⟨ledger.live, .initial empty⟩ unbroken ran
    obtain ⟨residents, inv⟩ := holds
    exact inv.step unbroken stepped
  have nothing : w.unpublished = [] := by simp [unpublished, journal, published]
  have cut := inv.reader
  rw [ReaderInv, drained, nothing] at cut
  have settled := inv.live
  rw [nothing] at settled
  exact (CutAt.eq_of_told cut).trans settled

/-! ### A snapshot in the middle of a batch -/

/-- The clock and the hash order of the calls below. -/
def streamCall : Call := ⟨fun _ => 0, .sorted _⟩

/-- `a` is seen, the reader subscribes and is sent the live set, and then `later` happens. -/
def snapshotMidBatch (later : Producer) : List DeltaOp :=
  [.system (.produce (.assertPresent streamCall ["a"])), .subscribe, .snapshot (.sorted _),
    .system (.produce later)]

/-- A tick writes the batch, in as many statements, and publishes it. -/
def flushAndPublish (statements : List TickOp) : List DeltaOp :=
  let ops := [TickOp.tryLock, .checkHeld, .beginFlush streamCall] ++ statements ++
    [.bailIf, .commitDb, .commitBatch]
  ops.map (fun op => .system (.tick op)) ++ [.publish (.sorted _), .receive, .receive]

/-- The statements of a batch of adds; one with removes looks up the mined ones first. -/
def writeAdds : List TickOp :=
  [.proceed, .bailIf, .exec, .proceed, .bailIf, .exec, .proceed, .bailIf, .exec, .proceed]

def writeRemoves : List TickOp := [.bailIf, .exec] ++ writeAdds

open DeltaWorld in
/-- Another transaction is seen after the snapshot. -/
theorem live_eq_of_mid_batch_snapshot :
    ∃ w live, run step (initial 0 .default .empty)
        (snapshotMidBatch (.assertPresent streamCall ["b"]) ++ flushAndPublish writeAdds) = some w ∧
      w.system.ledger.journal = [] ∧ w.reader = .streaming [] live ∧
      live = w.system.ledger.live ∧ live = {"a", "b"} := by
  obtain ⟨w, ran⟩ : ∃ w, run step (initial 0 .default .empty)
      (snapshotMidBatch (.assertPresent streamCall ["b"]) ++ flushAndPublish writeAdds) = some w :=
    Option.isSome_iff_exists.mp (by decide)
  have unbroken : Along step Unbroken (initial 0 .default .empty)
      (snapshotMidBatch (.assertPresent streamCall ["b"]) ++ flushAndPublish writeAdds) := by
    decide
  obtain rfl : _ = w := Option.some.inj ran
  exact ⟨_, _, rfl, rfl, rfl, live_eq_of_drained rfl unbroken rfl rfl rfl rfl, by decide⟩

open DeltaWorld in
/-- `a` leaves after the snapshot and before the flush: the batch leaves it as it was, its
event does not mention it, and the reader keeps it. -/
theorem not_live_eq_of_undone :
    ∃ w live, run step (initial 0 .default .empty)
        (snapshotMidBatch (.assertAbsent streamCall ["a"]) ++ flushAndPublish writeRemoves) =
          some w ∧
      w.system.ledger.journal = [] ∧ w.committed = none ∧ w.reader = .streaming [] live ∧
      live = {"a"} ∧ w.system.ledger.live = ∅ := by
  obtain ⟨w, ran⟩ : ∃ w, run step (initial 0 .default .empty)
      (snapshotMidBatch (.assertAbsent streamCall ["a"]) ++ flushAndPublish writeRemoves) =
        some w :=
    Option.isSome_iff_exists.mp (by decide)
  obtain rfl : _ = w := Option.some.inj ran
  exact ⟨_, _, rfl, rfl, rfl, rfl, by decide, by decide⟩

end MempoolObserver

import Mathlib.Algebra.Group.Int.Defs
import MempoolObserver.Db.Transactions
import MempoolObserver.Shared.FlushAgreement

/-!
# Writing and replaying the delta rows

`write_batch` is one database transaction of many statements: it looks up which
removed txids are mined, inserts one delta row per journal entry, looks up which
added txids have a row, and inserts hollow rows for the rest, each in slices.
Before every statement, and once more before the commit, it asks whether a block
arrived. `BatchTx` is that transaction between two of its statements, so that
anything may happen in between; its own writes are kept in it until it commits.

`reconstruct_snapshot` is the other end: the residency the stored rows amount to.
-/

namespace MempoolObserver

open SetLog Collections

/-- The distinct txids among `entries` moving in `direction`. -/
def distinctTxids (order : Enumeration Txid) (entries : List JournalEntry)
    (direction : DeltaDirection) : List Txid :=
  order.toList ((entries.filter (fun entry => entry.direction = direction)).map
    JournalEntry.txid).toFinset

@[simp] theorem mem_distinctTxids {order : Enumeration Txid} {entries : List JournalEntry}
    {direction : DeltaDirection} {txid : Txid} :
    txid ∈ distinctTxids order entries direction ↔
      ∃ entry ∈ entries, entry.direction = direction ∧ entry.txid = txid := by
  simp [distinctTxids, and_assoc]

structure FlushOutcome where
  newTxids : List Txid
  existing : List (Txid × StoredTxFill)
  confirmed : List Txid
  evicted : List Txid
  deriving DecidableEq, Repr

/-- Which loop of `write_batch` is running, with the slices it has still to do. -/
inductive BatchStage where
  | classify (todo : List (List Txid))
  | insertDeltas (todo : List (List MempoolDelta))
  | lookUp (todo : List (List Txid))
  | insertHollow (todo : List (List NewTransaction))
  | finished

structure BatchTx where
  /-- The clock and the hash orders of this transaction. -/
  call : Call
  entries : List JournalEntry
  stage : BatchStage
  /-- `preempted` was asked since the last statement, and said no. -/
  cleared : Bool
  confirmed : Finset Txid
  /-- Delta rows inserted so far. -/
  deltas : List MempoolDelta
  existing : List (Txid × StoredTxFill)
  /-- Hollow rows inserted so far. -/
  hollow : List NewTransaction

/-- The row of one entry, a remove being classified by the lookup. -/
def JournalEntry.row (confirmed : Finset Txid) (entry : JournalEntry) : MempoolDelta :=
  { txid := entry.txid
    reason :=
      match entry.direction with
      | .add => .addMempool
      | .remove => if entry.txid ∈ confirmed then .removeConfirmed else .removeEvicted
    createdAt := entry.observedAt }

namespace BatchTx

def begin (call : Call) (entries : List JournalEntry) : BatchTx where
  call := call
  entries := entries
  stage := .classify
    (slices mempoolDeltaInsertChunkSize (distinctTxids call.order entries .remove))
  cleared := false
  confirmed := ∅
  deltas := []
  existing := []
  hollow := []

def rows (tx : BatchTx) : List MempoolDelta := tx.entries.map (JournalEntry.row tx.confirmed)

/-- The added txids without a row. -/
def newTxids (tx : BatchTx) : List Txid :=
  (distinctTxids tx.call.order tx.entries .add).filter
    (fun txid => txid ∉ tx.existing.map Prod.fst)

/-- The removed txids the lookup did not find mined. -/
def evicted (tx : BatchTx) : Finset Txid :=
  ((tx.entries.filter (fun entry => entry.direction = .remove ∧ entry.txid ∉ tx.confirmed)).map
    JournalEntry.txid).toFinset

/-- A statement or the commit comes next. -/
def awaits (tx : BatchTx) : Bool :=
  match tx.stage with
  | .classify [] | .insertDeltas [] | .lookUp [] | .insertHollow [] => false
  | _ => true

/-- What the function computes between two of its loops. -/
def proceed (tx : BatchTx) : Option BatchTx :=
  match tx.stage with
  | .classify [] =>
    some { tx with stage := .insertDeltas (slices mempoolDeltaInsertChunkSize tx.rows) }
  | .insertDeltas [] =>
    some { tx with
      stage := .lookUp (slices mempoolDeltaInsertChunkSize
        (distinctTxids tx.call.order tx.entries .add)) }
  | .lookUp [] =>
    some { tx with
      stage := .insertHollow (slices transactionInsertChunkSize
        (NewTransaction.sortedByTxid
          (tx.newTxids.map fun txid => .hollow (tx.call.now txid) txid))) }
  | .insertHollow [] => some { tx with stage := .finished }
  | _ => none

/-- The next statement. Every statement reads the database as it is by then. -/
def exec (db : Db) (tx : BatchTx) : Option BatchTx :=
  -- A statement runs only after the check of the gate just before it.
  match tx.cleared, tx.stage with
  | true, .classify (slice :: todo) =>
    some { tx with
      stage := .classify todo
      cleared := false
      confirmed := tx.confirmed ∪ (slice.filter (fun txid => db.isConfirmed txid)).toFinset }
  | true, .insertDeltas (slice :: todo) =>
    some { tx with
      stage := .insertDeltas todo
      cleared := false
      deltas := tx.deltas ++ slice }
  | true, .lookUp (slice :: todo) =>
    some { tx with
      stage := .lookUp todo
      cleared := false
      existing := tx.existing ++ slice.filterMap fun txid =>
        (db.transactions txid).map fun row => (txid, row.fill) }
  | true, .insertHollow (slice :: todo) =>
    some { tx with
      stage := .insertHollow todo
      cleared := false
      hollow := tx.hollow ++ slice }
  | _, _ => none

/-- The last check passed and everything is inserted. -/
def ready (tx : BatchTx) : Bool :=
  match tx.cleared, tx.stage with
  | true, .finished => true
  | _, _ => false

/-- The database with the transaction committed. -/
def commit (tx : BatchTx) (db : Db) : Db :=
  { db with mempoolDeltas := db.mempoolDeltas ++ tx.deltas }.insertOrIgnore tx.hollow

def outcome (tx : BatchTx) : FlushOutcome where
  newTxids := tx.newTxids
  existing := tx.existing
  confirmed := tx.call.order.toList tx.confirmed
  evicted := tx.call.order.toList tx.evicted

/-! ### What the transaction holds between two statements -/

/-- The delta rows inserted and the ones still to insert are the batch's rows. -/
def InOrder (tx : BatchTx) : Prop :=
  match tx.stage with
  | .classify _ => tx.deltas = []
  | .insertDeltas todo => tx.deltas ++ todo.flatten = tx.rows
  | _ => tx.deltas = tx.rows

/-- The transaction inserts hollow rows only. -/
def HollowOnly (tx : BatchTx) : Prop :=
  (∀ new ∈ tx.hollow, new.IsHollow) ∧
    match tx.stage with
    | .insertHollow todo => ∀ new ∈ todo.flatten, new.IsHollow
    | _ => True

/-- The lookups of removed txids that have not run yet. -/
def unclassified (tx : BatchTx) : List Txid :=
  match tx.stage with
  | .classify todo => todo.flatten
  | _ => []

/-- The lookups that ran found exactly the mined txids. -/
structure Classified (db : Db) (tx : BatchTx) : Prop where
  sound : ∀ txid ∈ tx.confirmed, db.isConfirmed txid = true
  complete : ∀ txid ∈ distinctTxids tx.call.order tx.entries .remove, txid ∉ tx.unclassified →
    db.isConfirmed txid = true → txid ∈ tx.confirmed

/-- What holds of a transaction whatever happens around it. -/
structure Sound (tx : BatchTx) : Prop where
  inOrder : tx.InOrder
  hollowOnly : tx.HollowOnly

section Invariants

variable {tx next : BatchTx} {db : Db}

theorem Sound.begin (call : Call) (entries : List JournalEntry) : (begin call entries).Sound :=
  ⟨rfl, by simp [BatchTx.begin], trivial⟩

theorem Classified.begin (call : Call) (entries : List JournalEntry) (db : Db) :
    (begin call entries).Classified db where
  sound := by simp [BatchTx.begin]
  complete txid removed pending := by
    simp only [BatchTx.begin, unclassified, slices_flatten mempoolDeltaInsertChunkSize_pos]
      at removed pending
    exact absurd removed pending

theorem Sound.proceed (sound : tx.Sound) (h : tx.proceed = some next) : next.Sound := by
  obtain ⟨inOrder, hollow, todo⟩ := sound
  unfold BatchTx.proceed at h
  split at h <;> rename_i stage <;> cases h
  · simp only [InOrder, stage] at inOrder
    refine ⟨?_, hollow, trivial⟩
    simp [InOrder, inOrder, rows, slices_flatten mempoolDeltaInsertChunkSize_pos]
  · simp only [InOrder, stage, List.flatten_nil, List.append_nil] at inOrder
    exact ⟨inOrder, hollow, trivial⟩
  · simp only [InOrder, stage] at inOrder
    refine ⟨inOrder, hollow, fun new pending => ?_⟩
    rw [slices_flatten transactionInsertChunkSize_pos, NewTransaction.mem_sortedByTxid,
      List.mem_map] at pending
    obtain ⟨txid, -, rfl⟩ := pending
    exact ⟨_, rfl⟩
  · simp only [InOrder, stage] at inOrder
    exact ⟨inOrder, hollow, trivial⟩

theorem Sound.exec (sound : tx.Sound) (h : tx.exec db = some next) : next.Sound := by
  obtain ⟨inOrder, hollow, todo⟩ := sound
  unfold BatchTx.exec at h
  split at h <;> rename_i stage <;> cases h
  · simp only [InOrder, stage] at inOrder
    exact ⟨inOrder, hollow, trivial⟩
  · simp only [InOrder, stage, List.flatten_cons] at inOrder
    exact ⟨by simpa [InOrder, rows] using inOrder, hollow, trivial⟩
  · simp only [InOrder, stage] at inOrder
    exact ⟨inOrder, hollow, trivial⟩
  · simp only [InOrder, stage] at inOrder
    simp only [stage, List.flatten_cons, List.mem_append] at todo
    refine ⟨inOrder, fun new inserted => ?_, fun new pending => todo new (.inr pending)⟩
    rcases List.mem_append.mp inserted with earlier | now
    · exact hollow new earlier
    · exact todo new (.inl now)

theorem Classified.proceed (classified : tx.Classified db) (h : tx.proceed = some next) :
    next.Classified db := by
  unfold BatchTx.proceed at h
  split at h <;> rename_i stage <;> cases h
  all_goals exact ⟨classified.sound, by simpa [unclassified, stage] using classified.complete⟩

theorem Classified.exec (classified : tx.Classified db) (h : tx.exec db = some next) :
    next.Classified db := by
  unfold BatchTx.exec at h
  split at h <;> rename_i stage <;> cases h
  · refine ⟨fun txid found => ?_, fun txid removed pending mined => ?_⟩
    · rcases Finset.mem_union.mp found with earlier | now
      · exact classified.sound txid earlier
      · exact (List.mem_filter.mp (List.mem_toFinset.mp now)).2
    · by_cases here : txid ∈ tx.confirmed
      · exact Finset.mem_union_left _ here
      · have asked := mt (classified.complete txid removed · mined) here
        simp only [unclassified, stage, List.flatten_cons, List.mem_append, not_or, not_and,
          not_not] at asked pending
        refine Finset.mem_union_right _ (List.mem_toFinset.mpr (List.mem_filter.mpr ⟨?_, mined⟩))
        by_contra absent
        exact pending (asked absent)
  all_goals exact ⟨classified.sound, by simpa [unclassified, stage] using classified.complete⟩

theorem entries_proceed (h : tx.proceed = some next) : next.entries = tx.entries := by
  unfold BatchTx.proceed at h
  split at h <;> cases h <;> rfl

theorem entries_exec (h : tx.exec db = some next) : next.entries = tx.entries := by
  unfold BatchTx.exec at h
  split at h <;> cases h <;> rfl

/-- A transaction ready to commit has inserted one row per entry, in order. -/
theorem Sound.deltas_eq (sound : tx.Sound) (ready : tx.ready = true) : tx.deltas = tx.rows := by
  have inOrder := sound.inOrder
  unfold BatchTx.ready at ready
  split at ready
  · rename_i finished
    simpa [InOrder, finished] using inOrder
  · cases ready

theorem Classified.mem_confirmed_iff (classified : tx.Classified db) (ready : tx.ready = true)
    {entry : JournalEntry} (member : entry ∈ tx.entries) (removed : entry.direction = .remove) :
    entry.txid ∈ tx.confirmed ↔ db.isConfirmed entry.txid = true := by
  refine ⟨classified.sound _, classified.complete _ ?_ ?_⟩
  · exact mem_distinctTxids.mpr ⟨entry, member, removed, rfl⟩
  · unfold BatchTx.ready at ready
    split at ready
    · rename_i finished
      simp [unclassified, finished]
    · cases ready

end Invariants

end BatchTx

@[simp] theorem JournalEntry.entry_row (confirmed : Finset Txid) (entry : JournalEntry) :
    (entry.row confirmed).entry = entry := by
  obtain ⟨txid, direction, observedAt⟩ := entry
  cases direction with
  | add => rfl
  | remove =>
    simp only [row, MempoolDelta.entry]
    split_ifs <;> rfl

@[simp] theorem BatchTx.map_entry_rows (tx : BatchTx) :
    tx.rows.map MempoolDelta.entry = tx.entries := by
  simp [rows, Function.comp_def]

/-- **Labels.** Of the rows a transaction commits, a remove is labelled
confirmed exactly when its txid was mined by the time the lookups are judged by. -/
theorem BatchTx.reason_iff_isConfirmed {tx : BatchTx} {db : Db} (sound : tx.Sound)
    (classified : tx.Classified db) (ready : tx.ready = true) {row : MempoolDelta}
    (committed : row ∈ tx.deltas) (removed : row.reason.direction = .remove) :
    row.reason = .removeConfirmed ↔ db.isConfirmed row.txid = true := by
  rw [sound.deltas_eq ready, rows, List.mem_map] at committed
  obtain ⟨entry, member, rfl⟩ := committed
  cases direction : entry.direction with
  | add => simp [JournalEntry.row, direction, DeltaReason.direction] at removed
  | remove =>
    rw [show (entry.row tx.confirmed).txid = entry.txid from rfl,
      ← classified.mem_confirmed_iff ready member direction]
    simp [JournalEntry.row, direction]

/-! ### The database after the commit -/

@[simp] theorem BatchTx.mempoolDeltas_commit (tx : BatchTx) (db : Db) :
    (tx.commit db).mempoolDeltas = db.mempoolDeltas ++ tx.deltas := rfl

theorem BatchTx.confirmation_commit {tx : BatchTx} (sound : tx.Sound) (db : Db) (txid : Txid) :
    (tx.commit db).confirmation txid = db.confirmation txid :=
  Db.confirmation_insertOrIgnore sound.hollowOnly.1 _ txid

theorem BatchTx.isConfirmed_commit {tx : BatchTx} (sound : tx.Sound) (db : Db) (txid : Txid) :
    (tx.commit db).isConfirmed txid = db.isConfirmed txid :=
  Db.isConfirmed_congr (tx.confirmation_commit sound db txid)

/-! ### Replaying the rows -/

/-- Replay horizon for snapshot reconstruction, 15 days in microseconds. -/
def snapshotReplayWindow : Int := 15 * 24 * 60 * 60 * 10 ^ 6

/-- The rows a replay at `now` reads. -/
def Db.replayWindow (now : OffsetDateTime) (db : Db) : List MempoolDelta :=
  db.mempoolDeltas.filter (fun row => now - snapshotReplayWindow ≤ row.createdAt)

def Db.reconstructSnapshot (now : OffsetDateTime) (db : Db) : Finset Txid :=
  (db.replayWindow now).foldl (fun snapshot row =>
    match row.reason.direction with
    | .add => insert row.txid snapshot
    | .remove => snapshot.erase row.txid) ∅

/-- Reconstruction replays the rows of the window. -/
theorem Db.reconstructSnapshot_eq (now : OffsetDateTime) (db : Db) :
    db.reconstructSnapshot now = residency ((db.replayWindow now).map MempoolDelta.entry) := by
  rw [reconstructSnapshot, residency, replay, edits, List.map_map, List.foldl_map]
  congr 1
  funext snapshot row
  cases direction : row.reason.direction <;>
    simp [MempoolDelta.entry, JournalEntry.edit, DeltaDirection.edit, direction, Edit.apply]

end MempoolObserver

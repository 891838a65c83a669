import MempoolObserver.Db.MempoolDeltas

/-!
# A whole call of write_batch

`BatchTx` is the transaction between two statements. Here it is run to its end on
one database: the four loops one after the other, with an answer at each check,
which may be that a block has arrived, or that the statement fails. Either the
transaction is rolled back, or everything in it is committed.

## Main definitions

* `Db.writeBatch` — the call, and the database after it
* `FlushOutcome.Classifies` — what a committed batch stored and reports

## Main results

* `BatchTx.Settles` — what the loops have found out so far, kept by each statement
* `writeBatch_classifies`
-/

namespace MempoolObserver

open Collections

/-- What comes of a check and the statement after it. -/
inductive BatchAnswer where
  | runs
  /-- `preempted` says yes. -/
  | preempted
  | fails
  deriving DecidableEq

/-- How a transaction ends that does not commit. -/
inductive BatchEnd where
  | rolledBack
  | failed
  deriving DecidableEq

namespace BatchTx

/-- The statements of the running loop that are left. -/
def statements (tx : BatchTx) : ℕ :=
  match tx.stage with
  | .classify todo | .lookUp todo => todo.length
  | .insertDeltas todo => todo.length
  | .insertHollow todo => todo.length
  | .finished => 0

/-- The loops that are over. -/
def loops (tx : BatchTx) : ℕ :=
  match tx.stage with
  | .classify _ => 0
  | .insertDeltas _ => 1
  | .lookUp _ => 2
  | .insertHollow _ => 3
  | .finished => 4

/-- A check that says go ahead. -/
def clear (tx : BatchTx) : BatchTx := { tx with cleared := true }

/-- A check, and the next statement. -/
def statement (answer : BatchAnswer) (db : Db) (tx : BatchTx) : Except BatchEnd BatchTx :=
  match answer with
  | .runs => (tx.clear.exec db).elim (.error .failed) .ok
  | .preempted => .error .rolledBack
  | .fails => .error .failed

/-- The rest of a loop, with the answers by the number of statements left, and what
is computed after it. -/
def loop (answers : ℕ → BatchAnswer) (db : Db) : ℕ → BatchTx → Except BatchEnd BatchTx
  | 0, tx => tx.proceed.elim (.error .failed) .ok
  | left + 1, tx => (tx.statement (answers left) db).bind (loop answers db left)

/-- The check before the commit, and the commit. -/
def close (answer : BatchAnswer) (tx : BatchTx) : Except BatchEnd BatchTx :=
  match answer with
  | .runs => .ok tx.clear
  | .preempted => .error .rolledBack
  | .fails => .error .failed

/-- The transaction as it commits, with the answers by loop. -/
def transact (answers : ℕ → ℕ → BatchAnswer) (db : Db) (tx : BatchTx) :
    Except BatchEnd BatchTx := do
  let tx ← tx.loop (answers 0) db tx.statements
  let tx ← tx.loop (answers 1) db tx.statements
  let tx ← tx.loop (answers 2) db tx.statements
  let tx ← tx.loop (answers 3) db tx.statements
  tx.close (answers 4 0)

end BatchTx

/-- `write_batch`, with the database after it. -/
def Db.writeBatch (call : Call) (answers : ℕ → ℕ → BatchAnswer) (entries : List JournalEntry)
    (db : Db) : Except Unit (Option FlushOutcome) × Db :=
  if entries = [] then (.ok (some ⟨[], [], [], []⟩), db)
  else
    match (BatchTx.begin call entries).transact answers db with
    | .ok tx => (.ok (some tx.outcome), tx.commit db)
    | .error .rolledBack => (.ok none, db)
    | .error .failed => (.error (), db)

/-! ### What the loops find out -/

/-- The txids that are stored, with what their rows carry. -/
def Db.lookUp (db : Db) (txids : List Txid) : List (Txid × StoredTxFill) :=
  txids.filterMap fun txid => (db.transactions txid).map fun row => (txid, row.fill)

namespace BatchTx

/-- The hollow rows of the added txids without a row, as they are inserted. -/
def hollowRows (tx : BatchTx) : List NewTransaction :=
  NewTransaction.sortedByTxid (tx.newTxids.map fun txid => .hollow (tx.call.now txid) txid)

/-- Only removed txids are looked up, and found mined. -/
structure Asks (tx : BatchTx) : Prop where
  pending : ∀ txid ∈ tx.unclassified, txid ∈ distinctTxids tx.call.order tx.entries .remove
  found : ∀ txid ∈ tx.confirmed, txid ∈ distinctTxids tx.call.order tx.entries .remove

/-- The lookups of added txids found what is stored. -/
def LooksUp (db : Db) (tx : BatchTx) : Prop :=
  match tx.stage with
  | .classify _ | .insertDeltas _ => tx.existing = []
  | .lookUp todo => tx.existing ++ db.lookUp todo.flatten =
      db.lookUp (distinctTxids tx.call.order tx.entries .add)
  | _ => tx.existing = db.lookUp (distinctTxids tx.call.order tx.entries .add)

/-- The hollow rows inserted and the ones still to insert are those of the new txids. -/
def FillsIn (tx : BatchTx) : Prop :=
  match tx.stage with
  | .insertHollow todo => tx.hollow ++ todo.flatten = tx.hollowRows
  | .finished => tx.hollow = tx.hollowRows
  | _ => tx.hollow = []

/-- What holds between two statements of the call on one database. -/
structure Settles (call : Call) (entries : List JournalEntry) (db : Db) (tx : BatchTx) : Prop where
  call : tx.call = call
  entries : tx.entries = entries
  sound : tx.Sound
  classified : tx.Classified db
  asks : tx.Asks
  looksUp : tx.LooksUp db
  fillsIn : tx.FillsIn

section Statements

variable {call : Call} {entries : List JournalEntry} {db : Db} {tx next : BatchTx}

theorem Settles.begin (call : Call) (entries : List JournalEntry) (db : Db) :
    (BatchTx.begin call entries).Settles call entries db where
  call := rfl
  entries := rfl
  sound := .begin call entries
  classified := .begin call entries db
  asks := by
    refine ⟨fun txid pending => ?_, fun txid found => ?_⟩
    · simp only [BatchTx.begin, unclassified, slices_flatten mempoolDeltaInsertChunkSize_pos]
        at pending
      exact pending
    · simp [BatchTx.begin] at found
  looksUp := rfl
  fillsIn := rfl

theorem Settles.clear (settles : tx.Settles call entries db) : tx.clear.Settles call entries db :=
  ⟨settles.call, settles.entries, ⟨settles.sound.inOrder, settles.sound.hollowOnly⟩,
    ⟨settles.classified.sound, settles.classified.complete⟩,
    ⟨settles.asks.pending, settles.asks.found⟩, settles.looksUp, settles.fillsIn⟩

theorem Asks.proceed (asks : tx.Asks) (h : tx.proceed = some next) : next.Asks := by
  unfold BatchTx.proceed at h
  split at h <;> rename_i stage <;> cases h
  all_goals exact ⟨by simp [unclassified], asks.found⟩

theorem Asks.exec (asks : tx.Asks) (h : tx.exec db = some next) : next.Asks := by
  unfold BatchTx.exec at h
  split at h <;> rename_i stage <;> cases h
  · have pending := asks.pending
    simp only [unclassified, stage, List.flatten_cons, List.mem_append] at pending
    refine ⟨fun txid later => pending txid (.inr later), fun txid found => ?_⟩
    rcases Finset.mem_union.mp found with earlier | now
    · exact asks.found txid earlier
    · exact pending txid (.inl (List.mem_filter.mp (List.mem_toFinset.mp now)).1)
  all_goals exact ⟨by simp [unclassified], asks.found⟩

theorem LooksUp.proceed (looksUp : tx.LooksUp db) (h : tx.proceed = some next) :
    next.LooksUp db := by
  unfold BatchTx.proceed at h
  split at h <;> rename_i stage <;> cases h <;> simp only [LooksUp, stage] at looksUp
  · exact looksUp
  · simp [LooksUp, looksUp, slices_flatten mempoolDeltaInsertChunkSize_pos]
  · simpa [LooksUp, Db.lookUp] using looksUp
  · exact looksUp

theorem LooksUp.exec (looksUp : tx.LooksUp db) (h : tx.exec db = some next) :
    next.LooksUp db := by
  unfold BatchTx.exec at h
  split at h <;> rename_i stage <;> cases h <;> simp only [LooksUp, stage] at looksUp
  · exact looksUp
  · exact looksUp
  · simpa [LooksUp, Db.lookUp] using looksUp
  · exact looksUp

theorem FillsIn.proceed (fillsIn : tx.FillsIn) (h : tx.proceed = some next) : next.FillsIn := by
  unfold BatchTx.proceed at h
  split at h <;> rename_i stage <;> cases h <;> simp only [FillsIn, stage] at fillsIn
  · exact fillsIn
  · exact fillsIn
  · simp [FillsIn, fillsIn, slices_flatten transactionInsertChunkSize_pos, hollowRows, newTxids]
  · simpa [FillsIn, hollowRows, newTxids] using fillsIn

theorem FillsIn.exec (fillsIn : tx.FillsIn) (h : tx.exec db = some next) : next.FillsIn := by
  unfold BatchTx.exec at h
  split at h <;> rename_i stage <;> cases h <;> simp only [FillsIn, stage] at fillsIn
  · exact fillsIn
  · exact fillsIn
  · exact fillsIn
  · simpa [FillsIn, hollowRows, newTxids] using fillsIn

theorem call_proceed (h : tx.proceed = some next) : next.call = tx.call := by
  unfold BatchTx.proceed at h
  split at h <;> cases h <;> rfl

theorem call_exec (h : tx.exec db = some next) : next.call = tx.call := by
  unfold BatchTx.exec at h
  split at h <;> cases h <;> rfl

theorem Settles.proceed (settles : tx.Settles call entries db) (h : tx.proceed = some next) :
    next.Settles call entries db where
  call := (call_proceed h).trans settles.call
  entries := (entries_proceed h).trans settles.entries
  sound := settles.sound.proceed h
  classified := settles.classified.proceed h
  asks := settles.asks.proceed h
  looksUp := settles.looksUp.proceed h
  fillsIn := settles.fillsIn.proceed h

theorem Settles.exec (settles : tx.Settles call entries db) (h : tx.exec db = some next) :
    next.Settles call entries db where
  call := (call_exec h).trans settles.call
  entries := (entries_exec h).trans settles.entries
  sound := settles.sound.exec h
  classified := settles.classified.exec h
  asks := settles.asks.exec h
  looksUp := settles.looksUp.exec h
  fillsIn := settles.fillsIn.exec h

/-! ### The loops -/

/-- While a loop has statements left, the next one can be executed. -/
theorem exec_of_statements {left : ℕ} (more : tx.statements = left + 1) (db : Db) :
    ∃ next, tx.clear.exec db = some next ∧ next.statements = left ∧ next.loops = tx.loops := by
  obtain ⟨call, entries, stage, cleared, confirmed, deltas, existing, hollow⟩ := tx
  cases stage with
  | classify todo | lookUp todo | insertDeltas todo | insertHollow todo =>
    cases todo with
    | nil => cases more
    | cons slice todo => exact ⟨_, rfl, Nat.succ.inj more, rfl⟩
  | finished => cases more

/-- A loop without a statement left is over. -/
theorem proceed_of_statements (none : tx.statements = 0) (running : tx.loops < 4) :
    ∃ next, tx.proceed = some next ∧ next.loops = tx.loops + 1 := by
  obtain ⟨call, entries, stage, cleared, confirmed, deltas, existing, hollow⟩ := tx
  cases stage with
  | classify todo | lookUp todo | insertDeltas todo | insertHollow todo =>
    cases todo with
    | nil => exact ⟨_, rfl, rfl⟩
    | cons slice todo => cases none
  | finished => exact absurd running (lt_irrefl 4)

/-- How a run of the transaction can end: with what `good` says, or without a commit for
the reason that some answer gives. -/
def Ends (good : BatchTx → Prop) (asked : BatchAnswer → Prop) : Except BatchEnd BatchTx → Prop
  | .ok tx => good tx
  | .error .rolledBack => asked .preempted
  | .error .failed => asked .fails

theorem Ends.bind {good better : BatchTx → Prop} {asked : BatchAnswer → Prop}
    {result : Except BatchEnd BatchTx} {rest : BatchTx → Except BatchEnd BatchTx}
    (ends : Ends good asked result) (goes : ∀ tx, good tx → Ends better asked (rest tx)) :
    Ends better asked (result.bind rest) := by
  cases result with
  | ok tx => exact goes tx ends
  | error ended =>
    cases ended
    · exact ends
    · exact ends

/-- A loop ends with the next one, or where an answer ends it. -/
theorem loop_ends {answers : ℕ → BatchAnswer} {asked : BatchAnswer → Prop}
    (heard : ∀ left, asked (answers left)) {left : ℕ} (settles : tx.Settles call entries db)
    (count : tx.statements = left) (running : tx.loops < 4) :
    Ends (fun next => next.Settles call entries db ∧ next.loops = tx.loops + 1) asked
      (tx.loop answers db left) := by
  -- Induction on the statements left; the answers beyond them do not matter.
  induction left generalizing tx with
  | zero =>
    obtain ⟨next, proceeds, further⟩ := proceed_of_statements count running
    simp only [loop, proceeds, Option.elim_some]
    exact ⟨settles.proceed proceeds, further⟩
  | succ left ih =>
    obtain ⟨next, executes, fewer, same⟩ := exec_of_statements count db
    have rest := ih (settles.clear.exec executes) fewer (same ▸ running)
    rw [same] at rest
    have answered := heard left
    rw [loop]
    cases answer : answers left with
    | runs =>
      -- A statement that runs leaves one less to come and the same loop.
      simp only [statement, executes, Option.elim_some]
      exact rest
    | preempted =>
      rw [answer] at answered
      exact answered
    | fails =>
      rw [answer] at answered
      exact answered

theorem transact_ends {answers : ℕ → ℕ → BatchAnswer} {asked : BatchAnswer → Prop}
    (heard : ∀ loop left, asked (answers loop left)) (settles : tx.Settles call entries db)
    (first : tx.loops = 0) :
    Ends (fun next => next.Settles call entries db ∧ next.ready = true) asked
      (tx.transact answers db) := by
  refine (loop_ends (heard 0) settles rfl (by omega)).bind fun second ⟨settles, once⟩ => ?_
  refine (loop_ends (heard 1) settles rfl (by omega)).bind fun third ⟨settles, twice⟩ => ?_
  refine (loop_ends (heard 2) settles rfl (by omega)).bind fun fourth ⟨settles, thrice⟩ => ?_
  refine (loop_ends (heard 3) settles rfl (by omega)).bind fun last ⟨settles, fourTimes⟩ => ?_
  -- Four loops done, so only the commit is left to be answered.
  have finished : last.loops = 4 := by omega
  have answered := heard 4 0
  cases answer : answers 4 0 with
  | runs =>
    refine ⟨settles.clear, ?_⟩
    obtain ⟨call, entries, stage, cleared, confirmed, deltas, existing, hollow⟩ := last
    cases stage with
    | finished => rfl
    | classify | insertDeltas | lookUp | insertHollow => cases finished
  | preempted =>
    rw [answer] at answered
    exact answered
  | fails =>
    rw [answer] at answered
    exact answered

end Statements

end BatchTx

/-! ### What is committed -/

/-- The row of one entry, its removal being classified by the stored transactions. -/
def Db.deltaRow (db : Db) (entry : JournalEntry) : MempoolDelta :=
  { txid := entry.txid
    reason :=
      match entry.direction with
      | .add => .addMempool
      | .remove => if db.isConfirmed entry.txid then .removeConfirmed else .removeEvicted
    createdAt := entry.observedAt }

/-- Some entry moves the txid in the direction. -/
def HasEntry (entries : List JournalEntry) (direction : DeltaDirection) (txid : Txid) : Prop :=
  ∃ entry ∈ entries, entry.direction = direction ∧ entry.txid = txid

/-- What a batch stores on the database, and reports. -/
structure FlushOutcome.Classifies (call : Call) (entries : List JournalEntry) (db next : Db)
    (outcome : FlushOutcome) : Prop where
  /-- One row per entry, and nothing else but the rows of transactions. -/
  stored : next = { db with
    mempoolDeltas := db.mempoolDeltas ++ entries.map db.deltaRow
    transactions := next.transactions }
  kept : ∀ txid row, db.transactions txid = some row → next.transactions txid = some row
  hollow : ∀ txid, db.transactions txid = none → HasEntry entries .add txid →
    next.transactions txid = some (NewTransaction.hollow (call.now txid) txid).row
  absent : ∀ txid, db.transactions txid = none → ¬ HasEntry entries .add txid →
    next.transactions txid = none
  newTxids_nodup : outcome.newTxids.Nodup
  existing_nodup : (outcome.existing.map Prod.fst).Nodup
  confirmed_nodup : outcome.confirmed.Nodup
  evicted_nodup : outcome.evicted.Nodup
  mem_newTxids : ∀ txid, txid ∈ outcome.newTxids ↔
    HasEntry entries .add txid ∧ db.transactions txid = none
  mem_existing : ∀ txid fill, (txid, fill) ∈ outcome.existing ↔
    HasEntry entries .add txid ∧ (db.transactions txid).map Transaction.fill = some fill
  mem_confirmed : ∀ txid, txid ∈ outcome.confirmed ↔
    HasEntry entries .remove txid ∧ db.isConfirmed txid = true
  mem_evicted : ∀ txid, txid ∈ outcome.evicted ↔
    HasEntry entries .remove txid ∧ db.isConfirmed txid = false

theorem Db.mem_lookUp {db : Db} {txids : List Txid} {txid : Txid} {fill : StoredTxFill} :
    (txid, fill) ∈ db.lookUp txids ↔
      txid ∈ txids ∧ (db.transactions txid).map Transaction.fill = some fill := by
  simp only [lookUp, List.mem_filterMap, Option.map_eq_some_iff, Prod.mk.injEq]
  constructor
  · rintro ⟨other, listed, row, stored, rfl, rfl⟩
    exact ⟨listed, row, stored, rfl⟩
  · rintro ⟨listed, row, stored, rfl⟩
    exact ⟨txid, listed, row, stored, rfl, rfl⟩

theorem Db.nodup_lookUp (db : Db) {txids : List Txid} (distinct : txids.Nodup) :
    ((db.lookUp txids).map Prod.fst).Nodup := by
  refine List.Nodup.sublist (map_filterMap_sublist (fun txid found picked => ?_) txids) distinct
  obtain ⟨row, -, rfl⟩ := Option.map_eq_some_iff.mp picked
  rfl

namespace BatchTx

variable {call : Call} {entries : List JournalEntry} {db : Db} {tx : BatchTx}

theorem stage_of_ready (ready : tx.ready = true) : tx.stage = .finished := by
  unfold BatchTx.ready at ready
  split at ready
  · assumption
  · cases ready

theorem Settles.existing_eq (settles : tx.Settles call entries db) (ready : tx.ready = true) :
    tx.existing = db.lookUp (distinctTxids call.order entries .add) := by
  have looksUp := settles.looksUp
  simp only [LooksUp, stage_of_ready ready] at looksUp
  rw [looksUp, settles.call, settles.entries]

theorem Settles.mem_existing (settles : tx.Settles call entries db) (ready : tx.ready = true)
    (txid : Txid) (fill : StoredTxFill) : (txid, fill) ∈ tx.existing ↔
      HasEntry entries .add txid ∧ (db.transactions txid).map Transaction.fill = some fill := by
  rw [settles.existing_eq ready, Db.mem_lookUp, mem_distinctTxids, HasEntry]

theorem Settles.mem_newTxids (settles : tx.Settles call entries db) (ready : tx.ready = true)
    (txid : Txid) :
    txid ∈ tx.newTxids ↔ HasEntry entries .add txid ∧ db.transactions txid = none := by
  have listed : txid ∈ tx.existing.map Prod.fst ↔
      HasEntry entries .add txid ∧ (db.transactions txid).isSome = true := by
    simp only [List.mem_map, Prod.exists, settles.mem_existing ready, exists_and_right,
      exists_eq_right, exists_and_left, Option.map_eq_some_iff, Option.isSome_iff_exists]
    simp
  rw [newTxids, List.mem_filter, decide_eq_true_eq, listed, settles.call, settles.entries,
    mem_distinctTxids, ← HasEntry]
  cases db.transactions txid <;> simp

/-- The row that the commit gives a txid without one. -/
theorem Settles.transactions_commit (settles : tx.Settles call entries db)
    (ready : tx.ready = true) {txid : Txid} (absent : db.transactions txid = none) :
    (tx.commit db).transactions txid =
      if txid ∈ tx.newTxids then some (NewTransaction.hollow (call.now txid) txid).row
      else none := by
  have fillsIn := settles.fillsIn
  simp only [FillsIn, stage_of_ready ready, hollowRows, settles.call] at fillsIn
  simp only [commit, Db.insertOrIgnore, absent, fillsIn]
  split_ifs with new
  · -- whichever row is found first, it is the one of the txid
    have some_ : ((NewTransaction.sortedByTxid (tx.newTxids.map fun txid =>
        .hollow (call.now txid) txid)).find? (fun new => new.txid = txid)).isSome = true := by
      rw [List.find?_isSome]
      refine ⟨.hollow (call.now txid) txid, ?_, by simp [NewTransaction.hollow]⟩
      exact NewTransaction.mem_sortedByTxid.mpr (List.mem_map.mpr ⟨txid, new, rfl⟩)
    obtain ⟨row, found⟩ := Option.isSome_iff_exists.mp some_
    rw [found]
    obtain ⟨other, -, rfl⟩ :=
      List.mem_map.mp (NewTransaction.mem_sortedByTxid.mp (List.mem_of_find?_eq_some found))
    have named : (NewTransaction.hollow (call.now other) other).txid = txid := by
      simpa using List.find?_some found
    obtain rfl : other = txid := named
    rfl
  · rw [Option.map_eq_none_iff, List.find?_eq_none]
    intro row inserted
    obtain ⟨other, listed, rfl⟩ := List.mem_map.mp (NewTransaction.mem_sortedByTxid.mp inserted)
    have different : other ≠ txid := by
      rintro rfl
      exact new listed
    simp [NewTransaction.hollow, different]

/-- Among the entries' txids, the ones found mined are the removed ones that are. -/
theorem Settles.mem_confirmed (settles : tx.Settles call entries db) (ready : tx.ready = true)
    (txid : Txid) :
    txid ∈ tx.confirmed ↔ HasEntry entries .remove txid ∧ db.isConfirmed txid = true := by
  constructor
  · intro found
    have removed := settles.asks.found txid found
    rw [settles.call, settles.entries, mem_distinctTxids] at removed
    exact ⟨removed, settles.classified.sound txid found⟩
  · rintro ⟨⟨entry, listed, removes, rfl⟩, mined⟩
    exact (settles.classified.mem_confirmed_iff ready (settles.entries.symm ▸ listed)
      removes).mpr mined

theorem Settles.mem_evicted (settles : tx.Settles call entries db) (ready : tx.ready = true)
    (txid : Txid) :
    txid ∈ tx.evicted ↔ HasEntry entries .remove txid ∧ db.isConfirmed txid = false := by
  simp only [evicted, List.mem_toFinset, List.mem_map, List.mem_filter, decide_eq_true_eq,
    settles.entries]
  constructor
  · rintro ⟨entry, ⟨listed, removes, notFound⟩, rfl⟩
    have moves : HasEntry entries .remove entry.txid := ⟨entry, listed, removes, rfl⟩
    refine ⟨moves, ?_⟩
    by_contra mined
    exact notFound ((settles.mem_confirmed ready _).mpr ⟨moves, by simpa using mined⟩)
  · rintro ⟨⟨entry, listed, removes, rfl⟩, unmined⟩
    refine ⟨entry, ⟨listed, removes, fun found => ?_⟩, rfl⟩
    have mined := ((settles.mem_confirmed ready _).mp found).2
    rw [unmined] at mined
    cases mined

theorem Settles.deltas_eq (settles : tx.Settles call entries db) (ready : tx.ready = true) :
    tx.deltas = entries.map db.deltaRow := by
  rw [settles.sound.deltas_eq ready, rows, settles.entries]
  apply List.map_congr_left
  intro entry listed
  have found := settles.mem_confirmed ready entry.txid
  simp only [JournalEntry.row, Db.deltaRow, MempoolDelta.mk.injEq, true_and, and_true]
  cases direction : entry.direction with
  | add => rfl
  | remove =>
    have moves : HasEntry entries .remove entry.txid := ⟨entry, listed, direction, rfl⟩
    simp [found, moves]

/-- A transaction that is ready to commit has found out what the batch is. -/
theorem Settles.classifies (settles : tx.Settles call entries db) (ready : tx.ready = true) :
    tx.outcome.Classifies call entries db (tx.commit db) where
  stored := by
    rw [commit, settles.deltas_eq ready]
    rfl
  kept txid row stored := by simp [commit, Db.insertOrIgnore, stored]
  -- A hollow row for an absent txid that moves; whatever was stored stays as it was.
  hollow txid absent moves := by
    rw [settles.transactions_commit ready absent,
      if_pos ((settles.mem_newTxids ready txid).mpr ⟨moves, absent⟩)]
  absent txid absent still := by
    rw [settles.transactions_commit ready absent,
      if_neg fun new => still ((settles.mem_newTxids ready txid).mp new).1]
  newTxids_nodup := (tx.call.order.nodup _).filter _
  existing_nodup := by
    rw [outcome, settles.existing_eq ready]
    exact db.nodup_lookUp (call.order.nodup _)
  confirmed_nodup := tx.call.order.nodup _
  evicted_nodup := tx.call.order.nodup _
  mem_newTxids := settles.mem_newTxids ready
  mem_existing := settles.mem_existing ready
  mem_confirmed txid := tx.call.order.mem_toList.trans (settles.mem_confirmed ready txid)
  mem_evicted txid := tx.call.order.mem_toList.trans (settles.mem_evicted ready txid)

end BatchTx

/-- Without entries there is nothing to store. -/
theorem FlushOutcome.classifies_nil (call : Call) (db : Db) :
    FlushOutcome.Classifies call [] db db ⟨[], [], [], []⟩ := by
  have nobody (direction : DeltaDirection) (txid : Txid) : ¬ HasEntry [] direction txid := by
    simp [HasEntry]
  constructor <;> simp [nobody]

/-- **Batch classification.** A call of `write_batch` is rolled back because a
check or a statement said so, and the database is unchanged, or it stores and
reports exactly what the batch amounts to. -/
theorem writeBatch_classifies (call : Call) (answers : ℕ → ℕ → BatchAnswer)
    (entries : List JournalEntry) (db : Db) :
    (db.writeBatch call answers entries = (.ok none, db) ∧
      ∃ loop left, answers loop left = .preempted) ∨
    (db.writeBatch call answers entries = (.error (), db) ∧
      ∃ loop left, answers loop left = .fails) ∨
    ∃ outcome, (db.writeBatch call answers entries).1 = .ok (some outcome) ∧
      outcome.Classifies call entries db (db.writeBatch call answers entries).2 := by
  by_cases empty : entries = []
  · subst empty
    rw [Db.writeBatch, if_pos rfl]
    exact .inr (.inr ⟨_, rfl, FlushOutcome.classifies_nil call db⟩)
  · let asked (answer : BatchAnswer) : Prop := ∃ loop left, answers loop left = answer
    have heard (loop left : ℕ) : asked (answers loop left) := ⟨loop, left, rfl⟩
    have ends := BatchTx.transact_ends heard (.begin call entries db) rfl
    rw [Db.writeBatch, if_neg empty]
    -- Committed, rolled back for the gate, or failed: the last two leave the tables alone.
    cases ran : (BatchTx.begin call entries).transact answers db with
    | ok tx =>
      rw [ran] at ends
      exact .inr (.inr ⟨tx.outcome, rfl, ends.1.classifies ends.2⟩)
    | error ended =>
      rw [ran] at ends
      cases ended with
      | rolledBack => exact .inl ⟨rfl, ends⟩
      | failed => exact .inr (.inl ⟨rfl, ends⟩)

end MempoolObserver

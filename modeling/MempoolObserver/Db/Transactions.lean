import MempoolObserver.Db.Models

/-!
# The block and transaction repositories

Rows are written in sorted slices. A slice that names a txid twice is rejected,
as the database rejects an upsert that would touch a row twice.
-/

namespace MempoolObserver

open Collections

def NewTransaction.sortedByTxid (rows : List NewTransaction) : List NewTransaction :=
  rows.insertionSort (fun a b => a.txid ≤ b.txid)

@[simp] theorem NewTransaction.mem_sortedByTxid {new : NewTransaction}
    {rows : List NewTransaction} :
    new ∈ sortedByTxid rows ↔ new ∈ rows :=
  List.mem_insertionSort _

/-- What a block says of an already stored transaction. -/
def Transaction.confirm (row new : Transaction) : Transaction :=
  { row with
    confirmedAt := new.confirmedAt
    fee := new.fee
    weight := new.weight
    confirmedAtBlock := new.confirmedAtBlock
    inputTxids := new.inputTxids }

/-- A fee the row lacks is filled from the incoming one. -/
def Transaction.fillFee (row new : Transaction) : Transaction :=
  if row.fee.isNone ∧ new.fee.isSome then { row with fee := new.fee } else row

namespace Db

/-- `INSERT INTO transactions ... ON CONFLICT (txid) DO UPDATE SET ...` on one slice. -/
def upsertSlice (update : Transaction → Transaction → Transaction) (slice : List NewTransaction)
    (db : Db) : Option Db :=
  if (slice.map NewTransaction.txid).Nodup then
    some { db with transactions := fun txid =>
      match slice.find? (fun new => new.txid = txid), db.transactions txid with
      | some new, some row => some (update row new.row)
      | some new, none => some new.row
      | none, stored => stored }
  else none

def upsertMany (update : Transaction → Transaction → Transaction) (txs : List NewTransaction)
    (db : Db) : Option Db :=
  (slices transactionInsertChunkSize (NewTransaction.sortedByTxid txs)).foldlM
    (fun db slice => db.upsertSlice update slice) db

/-- Inserts the transactions, or overwrites the confirmation and body of the
ones already stored. -/
def insertOrConfirmMany (txs : List NewTransaction) (db : Db) : Option Db :=
  db.upsertMany Transaction.confirm txs

/-- Inserts the transactions; one already stored keeps its row, except for a
missing fee. -/
def insertMany (txs : List NewTransaction) (db : Db) : Option Db :=
  db.upsertMany Transaction.fillFee txs

def insertWithTransactions (block : Block) (txs : List NewTransaction) (db : Db) : Option Db :=
  let inserted :=
    if block.hash ∈ db.blocks.map Block.hash then db
    else { db with blocks := db.blocks ++ [block] }
  inserted.insertOrConfirmMany txs

def latestHeight (db : Db) : Option Int := (db.blocks.map Block.height).max?

/-- Heights absent between the lowest and highest block stored. -/
def missingHeights (db : Db) : Int :=
  match (db.blocks.map Block.height).min?, (db.blocks.map Block.height).max? with
  | some min, some max => max - min + 1 - db.blocks.length
  | _, _ => 0

/-- The mined transactions among `txids`, each with its block's height and time. -/
def findMinedByTxids (txids : List Txid) (db : Db) :
    List (Txid × Transaction × Int × OffsetDateTime) :=
  txids.dedup.filterMap fun txid => do
    let row ← db.transactions txid
    let hash ← row.confirmedAtBlock
    let block ← db.blocks.find? fun block => block.hash = hash
    return (txid, row, block.height, block.minedAt)

def backfillRaw (txid : Txid) (inputTxids : List Txid) (weight : Int64) (db : Db) : Db :=
  db.updateTransactions fun stored row =>
    if stored = txid ∧ (row.inputTxids.isNone ∨ row.weight = 0) then
      { row with inputTxids := some inputTxids, weight := weight }
    else row

def backfillFee (txid : Txid) (fee : Int64) (db : Db) : Db :=
  db.updateTransactions fun stored row =>
    if stored = txid ∧ row.fee.isNone then { row with fee := some fee } else row

/-! ### What the writes leave alone -/

/-- `next` has the delta rows, the blocks and the confirmations of `db`. -/
structure SameRecords (db next : Db) : Prop where
  mempoolDeltas : next.mempoolDeltas = db.mempoolDeltas
  blocks : next.blocks = db.blocks
  confirmation : ∀ txid, next.confirmation txid = db.confirmation txid

/-- `next` has the clusters, their chunks and their links of `db`. -/
structure SameClusters (db next : Db) : Prop where
  clusters : next.clusters = db.clusters
  clusterSeq : next.clusterSeq = db.clusterSeq
  clusterChunks : next.clusterChunks = db.clusterChunks
  link : ∀ txid, next.link txid = db.link txid

theorem SameRecords.refl (db : Db) : SameRecords db db := ⟨rfl, rfl, fun _ => rfl⟩

theorem SameRecords.trans {a b c : Db} (first : SameRecords a b) (second : SameRecords b c) :
    SameRecords a c :=
  ⟨second.mempoolDeltas.trans first.mempoolDeltas, second.blocks.trans first.blocks,
    fun txid => (second.confirmation txid).trans (first.confirmation txid)⟩

theorem SameRecords.isConfirmed {db next : Db} (same : SameRecords db next) (txid : Txid) :
    next.isConfirmed txid = db.isConfirmed txid :=
  isConfirmed_congr (same.confirmation txid)

theorem SameClusters.refl (db : Db) : SameClusters db db := ⟨rfl, rfl, rfl, fun _ => rfl⟩

theorem SameClusters.trans {a b c : Db} (first : SameClusters a b) (second : SameClusters b c) :
    SameClusters a c :=
  ⟨second.clusters.trans first.clusters, second.clusterSeq.trans first.clusterSeq,
    second.clusterChunks.trans first.clusterChunks,
    fun txid => (second.link txid).trans (first.link txid)⟩

section Updates

variable {update : Txid → Transaction → Transaction}

theorem sameRecords_updateTransactions
    (keeps : ∀ txid row, (update txid row).confirmedAt = row.confirmedAt ∧
      (update txid row).confirmedAtBlock = row.confirmedAtBlock) (db : Db) :
    SameRecords db (db.updateTransactions update) where
  mempoolDeltas := rfl
  blocks := rfl
  confirmation txid := by
    unfold Db.confirmation updateTransactions
    cases stored : db.transactions txid <;> simp [stored, keeps]

theorem sameRecords_backfillRaw (txid : Txid) (inputTxids : List Txid) (weight : Int64) (db : Db) :
    SameRecords db (db.backfillRaw txid inputTxids weight) :=
  sameRecords_updateTransactions (fun _ _ => by split_ifs <;> exact ⟨rfl, rfl⟩) db

theorem sameRecords_backfillFee (txid : Txid) (fee : Int64) (db : Db) :
    SameRecords db (db.backfillFee txid fee) :=
  sameRecords_updateTransactions (fun _ _ => by split_ifs <;> exact ⟨rfl, rfl⟩) db

theorem sameClusters_updateTransactions
    (keeps : ∀ txid row, (update txid row).clusterId = row.clusterId) (db : Db) :
    SameClusters db (db.updateTransactions update) where
  clusters := rfl
  clusterSeq := rfl
  clusterChunks := rfl
  link txid := by
    unfold link updateTransactions
    cases stored : db.transactions txid <;> simp [stored, keeps]

theorem sameClusters_backfillRaw (txid : Txid) (inputTxids : List Txid) (weight : Int64) (db : Db) :
    SameClusters db (db.backfillRaw txid inputTxids weight) :=
  sameClusters_updateTransactions (fun _ _ => by split_ifs <;> rfl) db

theorem sameClusters_backfillFee (txid : Txid) (fee : Int64) (db : Db) :
    SameClusters db (db.backfillFee txid fee) :=
  sameClusters_updateTransactions (fun _ _ => by split_ifs <;> rfl) db

/-- Upserts write no delta row and no block. -/
theorem tables_upsertMany {update : Transaction → Transaction → Transaction}
    {txs : List NewTransaction} {db next : Db} (h : db.upsertMany update txs = some next) :
    next.mempoolDeltas = db.mempoolDeltas ∧ next.blocks = db.blocks := by
  refine foldlM_option_induction (motive := fun after =>
    after.mempoolDeltas = db.mempoolDeltas ∧ after.blocks = db.blocks) ?_ ⟨rfl, rfl⟩ h
  intro before slice _ after kept stepped
  unfold upsertSlice at stepped
  split_ifs at stepped
  cases stepped
  exact kept

theorem blocks_insertWithTransactions {block : Block} {txs : List NewTransaction}
    {db next : Db} (h : db.insertWithTransactions block txs = some next) :
    next.blocks = if block.hash ∈ db.blocks.map Block.hash then db.blocks
      else db.blocks ++ [block] := by
  rw [(tables_upsertMany h).2]
  split_ifs <;> rfl

theorem mempoolDeltas_insertWithTransactions {block : Block} {txs : List NewTransaction}
    {db next : Db} (h : db.insertWithTransactions block txs = some next) :
    next.mempoolDeltas = db.mempoolDeltas := by
  rw [(tables_upsertMany h).1]
  split_ifs <;> rfl

end Updates

/-- Storing a block links no transaction and moves no link. -/
theorem sameClusters_insertWithTransactions {block : Block} {txs : List NewTransaction}
    {db next : Db} (unlinked : ∀ new ∈ txs, new.row.clusterId = none)
    (h : db.insertWithTransactions block txs = some next) : SameClusters db next := by
  -- The block's own row touches no cluster.
  have start : SameClusters db (if block.hash ∈ db.blocks.map Block.hash then db
      else { db with blocks := db.blocks ++ [block] }) := by
    split_ifs
    · exact .refl db
    · exact ⟨rfl, rfl, rfl, fun _ => rfl⟩
  refine foldlM_option_induction (motive := SameClusters db) ?_ start h
  intro before slice member after same stepped
  apply same.trans
  unfold upsertSlice at stepped
  split_ifs at stepped
  cases stepped
  refine ⟨rfl, rfl, rfl, fun txid => ?_⟩
  -- A slice updates rows in place; those it adds belong to no cluster.
  cases found : slice.find? (fun new => new.txid = txid) with
  | none => simp [link, found]
  | some new =>
    have listed : new ∈ txs := by
      apply NewTransaction.mem_sortedByTxid.mp
      apply (exists_mem_slices_iff transactionInsertChunkSize_pos).mp
      exact ⟨slice, member, List.mem_of_find?_eq_some found⟩
    cases stored : before.transactions txid <;>
      simp [link, found, stored, Transaction.confirm, unlinked new listed]

section Confirmations

variable {db next : Db}

/-- A slice of mined transactions confirms its own txids and keeps the rest. -/
theorem isConfirmed_upsertSlice {slice : List NewTransaction}
    (mined : ∀ new ∈ slice, new.row.confirmedAt.isSome = true)
    (h : db.upsertSlice Transaction.confirm slice = some next) (txid : Txid) :
    next.isConfirmed txid = true ↔
      (∃ new ∈ slice, new.txid = txid) ∨ db.isConfirmed txid = true := by
  unfold upsertSlice at h
  split_ifs at h
  cases h
  cases found : slice.find? (fun new => new.txid = txid) with
  | none =>
    have absent : ¬ ∃ new ∈ slice, new.txid = txid := by
      simpa using List.find?_eq_none.mp found
    simp [isConfirmed, found, absent]
  | some new =>
    have member := List.mem_of_find?_eq_some found
    have named : new.txid = txid := by simpa using List.find?_some found
    have confirmed := mined new member
    have present : ∃ new ∈ slice, new.txid = txid := ⟨new, member, named⟩
    cases stored : db.transactions txid <;>
      simp [isConfirmed, found, stored, Transaction.confirm, confirmed, present]

/-- Slice by slice: what one slice confirms stays confirmed by the others. -/
theorem isConfirmed_upsertSlices {parts : List (List NewTransaction)}
    (mined : ∀ slice ∈ parts, ∀ new ∈ slice, new.row.confirmedAt.isSome = true)
    (h : parts.foldlM (fun db slice => db.upsertSlice Transaction.confirm slice) db = some next)
    (txid : Txid) :
    next.isConfirmed txid = true ↔
      (∃ slice ∈ parts, ∃ new ∈ slice, new.txid = txid) ∨ db.isConfirmed txid = true := by
  induction parts generalizing db with
  | nil =>
    obtain rfl : db = next := by simpa using h
    simp
  | cons slice parts ih =>
    rw [List.foldlM_cons, Option.bind_eq_bind] at h
    obtain ⟨mid, stepped, rest⟩ := Option.bind_eq_some_iff.mp h
    have later := ih (fun slice member => mined slice (List.mem_cons_of_mem _ member)) rest
    have first := isConfirmed_upsertSlice (mined slice List.mem_cons_self) stepped txid
    rw [later, first]
    simp only [List.mem_cons, exists_eq_or_imp]
    rw [or_left_comm, or_assoc]

/-- Mined transactions end up confirmed, and nothing loses its confirmation. -/
theorem isConfirmed_insertOrConfirmMany {txs : List NewTransaction}
    (mined : ∀ new ∈ txs, new.row.confirmedAt.isSome = true)
    (h : db.insertOrConfirmMany txs = some next) (txid : Txid) :
    next.isConfirmed txid = true ↔ (∃ new ∈ txs, new.txid = txid) ∨ db.isConfirmed txid = true := by
  have inSlices (new : NewTransaction) : (∃ slice ∈ slices transactionInsertChunkSize
      (NewTransaction.sortedByTxid txs), new ∈ slice) ↔ new ∈ txs := by
    rw [exists_mem_slices_iff transactionInsertChunkSize_pos, NewTransaction.mem_sortedByTxid]
  rw [isConfirmed_upsertSlices (fun slice member new inSlice =>
    mined new ((inSlices new).mp ⟨slice, member, inSlice⟩)) h]
  refine or_congr_left ?_
  constructor
  · rintro ⟨slice, member, new, inSlice, named⟩
    exact ⟨new, (inSlices new).mp ⟨slice, member, inSlice⟩, named⟩
  · rintro ⟨new, member, named⟩
    obtain ⟨slice, inParts, inSlice⟩ := (inSlices new).mpr member
    exact ⟨slice, inParts, new, inSlice, named⟩

/-- A slice of transactions of one block writes the confirmation of its txids. -/
theorem confirmation_upsertSlice {slice : List NewTransaction}
    {mined : Option OffsetDateTime × Option String}
    (same : ∀ new ∈ slice, (new.row.confirmedAt, new.row.confirmedAtBlock) = mined)
    (h : db.upsertSlice Transaction.confirm slice = some next) (txid : Txid) :
    next.confirmation txid =
      if txid ∈ slice.map NewTransaction.txid then mined else db.confirmation txid := by
  unfold upsertSlice at h
  split_ifs at h
  cases h
  cases found : slice.find? (fun new => new.txid = txid) with
  | none =>
    have absent : txid ∉ slice.map NewTransaction.txid := by
      simpa using List.find?_eq_none.mp found
    simp [confirmation, found, absent]
  | some new =>
    have member := List.mem_of_find?_eq_some found
    have named : new.txid = txid := by simpa using List.find?_some found
    have present : txid ∈ slice.map NewTransaction.txid := List.mem_map.mpr ⟨new, member, named⟩
    rw [if_pos present, ← same new member]
    cases stored : db.transactions txid <;>
      simp [confirmation, found, stored, Transaction.confirm]

theorem confirmation_upsertSlices {parts : List (List NewTransaction)}
    {mined : Option OffsetDateTime × Option String}
    (same : ∀ slice ∈ parts, ∀ new ∈ slice, (new.row.confirmedAt, new.row.confirmedAtBlock) = mined)
    (h : parts.foldlM (fun db slice => db.upsertSlice Transaction.confirm slice) db = some next)
    (txid : Txid) :
    next.confirmation txid =
      if txid ∈ parts.flatten.map NewTransaction.txid then mined else db.confirmation txid := by
  induction parts generalizing db with
  | nil =>
    obtain rfl : db = next := by simpa using h
    simp
  | cons slice parts ih =>
    rw [List.foldlM_cons, Option.bind_eq_bind] at h
    obtain ⟨mid, stepped, rest⟩ := Option.bind_eq_some_iff.mp h
    rw [ih (fun slice member => same slice (List.mem_cons_of_mem _ member)) rest,
      confirmation_upsertSlice (same slice List.mem_cons_self) stepped]
    simp only [List.flatten_cons, List.map_append, List.mem_append]
    -- Later slices carry the same stamp, so it does not matter which of them names the transaction.
    by_cases later : txid ∈ parts.flatten.map NewTransaction.txid
    · rw [if_pos later, if_pos (Or.inr later)]
    · rw [if_neg later]
      simp only [later, or_false]

/-- Storing a block confirms its transactions by it, and no others. -/
theorem confirmation_insertWithTransactions {block : Block} {txs : List NewTransaction}
    {mined : Option OffsetDateTime × Option String}
    (same : ∀ new ∈ txs, (new.row.confirmedAt, new.row.confirmedAtBlock) = mined)
    (h : db.insertWithTransactions block txs = some next) (txid : Txid) :
    next.confirmation txid =
      if txid ∈ txs.map NewTransaction.txid then mined else db.confirmation txid := by
  have listed (new : NewTransaction) : new ∈ (slices transactionInsertChunkSize
      (NewTransaction.sortedByTxid txs)).flatten ↔ new ∈ txs := by
    rw [slices_flatten transactionInsertChunkSize_pos, NewTransaction.mem_sortedByTxid]
  have before : Db.confirmation (if block.hash ∈ db.blocks.map Block.hash then db
      else { db with blocks := db.blocks ++ [block] }) txid = db.confirmation txid := by
    split_ifs <;> rfl
  rw [confirmation_upsertSlices (fun slice member new inSlice => same new
    ((listed new).mp (List.mem_flatten.mpr ⟨slice, member, inSlice⟩))) h, before]
  simp only [List.mem_map, listed]

theorem isConfirmed_insertWithTransactions {block : Block} {txs : List NewTransaction}
    (mined : ∀ new ∈ txs, new.row.confirmedAt.isSome = true)
    (h : db.insertWithTransactions block txs = some next) (txid : Txid) :
    next.isConfirmed txid = true ↔ (∃ new ∈ txs, new.txid = txid) ∨ db.isConfirmed txid = true := by
  rw [isConfirmed_insertOrConfirmMany mined h]
  split_ifs <;> rfl

end Confirmations

end Db

end MempoolObserver

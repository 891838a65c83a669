import MempoolObserver.Db.TransactionRows
import MempoolObserver.Services.Bootstrap
import MempoolObserver.Services.MinedSplit

/-!
# Confirming blocks late

A flush that records transactions as mined confirms the clusters they are still in,
from what the store says of the blocks that mined them. The store's rows, grouped by
height and hash, are the blocks as they were fetched, as far as the members of those
clusters go: so the flush does what confirming the blocks in height order would have
done, whatever their timestamps and in whatever order the rows come.

## Main definitions

* `MinedBlock.Same` — two blocks that no confirmation tells apart
* `Db.LateBlocks` — blocks whose transactions are stored, the clusters of which may
  not be confirmed yet

## Main results

* `Db.LateBlocks.commit` — committing a block that is not confirmed makes one more
* `ClusterService.confirmBlocks_congr` — blocks that are the same are confirmed the same
* `MinedBlock.same_byBlock` — the stored rows make up the blocks that were fetched
-/

namespace MempoolObserver

open Relation Collections

/-! ### Blocks that no confirmation tells apart -/

/-- Two blocks with the same transactions, for the same value and at the same time. -/
structure MinedBlock.Same (block other : MinedBlock) : Prop where
  txids : ∀ txid, txid ∈ block.txids ↔ txid ∈ other.txids
  fees : ∀ txid ∈ block.txids, block.fees txid = other.fees txid
  weights : ∀ txid ∈ block.txids, block.weights txid = other.weights txid
  confirmedAt : block.confirmedAt = other.confirmedAt

/-- What a block mined of some txids. -/
def MinedBlock.restrict (members : List Txid) (block : MinedBlock) : MinedBlock :=
  { block with txids := block.txids.filter (· ∈ members) }

@[simp] theorem MinedBlock.mem_restrict {members : List Txid} {block : MinedBlock} {txid : Txid} :
    txid ∈ (block.restrict members).txids ↔ txid ∈ block.txids ∧ txid ∈ members := by
  simp [restrict]

namespace MinedBlock.Same

variable {block other : MinedBlock}

theorem filter_mined (same : block.Same other) (txids : List Txid) :
    txids.filter (· ∈ block.txids) = txids.filter (· ∈ other.txids) := by
  apply List.filter_congr
  intro txid _
  simp only [same.txids]

theorem filter_pending (same : block.Same other) (txids : List Txid) :
    txids.filter (· ∉ block.txids) = txids.filter (· ∉ other.txids) := by
  apply List.filter_congr
  intro txid _
  simp only [same.txids]

theorem splitChunk (same : block.Same other) {txids : List Txid}
    (mined : ∀ txid ∈ txids, txid ∈ block.txids) :
    block.splitChunk txids = other.splitChunk txids := by
  have fees : txids.filterMap block.fees = txids.filterMap other.fees :=
    List.filterMap_congr fun txid member => same.fees txid (mined txid member)
  have weights : txids.filterMap block.weights = txids.filterMap other.weights :=
    List.filterMap_congr fun txid member => same.weights txid (mined txid member)
  rw [MinedBlock.splitChunk, MinedBlock.splitChunk, fees, weights]

theorem minedPart (same : block.Same other) :
    MinedTrim.minedPart block = MinedTrim.minedPart other := by
  funext chunk
  have mined : ∀ txid ∈ chunk.txids.filter (· ∈ block.txids), txid ∈ block.txids := by
    intro txid member
    simpa using (List.mem_filter.mp member).2
  have split := same.splitChunk mined
  rw [same.filter_mined] at split
  simp only [MinedTrim.minedPart, same.filter_mined, same.filter_pending, split]

theorem trim (same : block.Same other) (cluster : Cluster) :
    MinedTrim.new cluster block = MinedTrim.new cluster other := by
  simp only [MinedTrim.new, same.minedPart, same.filter_pending]

theorem isFull (same : block.Same other) :
    ClusterService.isFull block = ClusterService.isFull other := by
  funext cluster
  simp only [ClusterService.isFull, same.txids]

end MinedBlock.Same

theorem Db.findByIds_congr {db : Db} {ids others : List ClusterId}
    (same : ∀ id, id ∈ ids ↔ id ∈ others) : db.findByIds ids = db.findByIds others := by
  simp only [findByIds, same]

namespace ClusterService

variable {env : ClusterEnv} {s mid next : ClusterService} {changes : ClusterDeltaSet} {fuel : ℕ}
  {block other : MinedBlock}

/-- Only which txids are looked up matters. -/
theorem findActiveClustersContaining_congr (reliable : env.Reliable) (inv : Db.StoreInv [] s.db)
    {txids others : List Txid} (same : ∀ txid, txid ∈ txids ↔ txid ∈ others) :
    s.findActiveClustersContaining env txids = s.findActiveClustersContaining env others := by
  have nobody : txids = [] ↔ others = [] := by
    simp only [List.eq_nil_iff_forall_not_mem, same]
  have ids (id : ClusterId) : id ∈ s.db.findActiveIdsByTxids txids ↔
      id ∈ s.db.findActiveIdsByTxids others := by
    rw [inv.mem_findActiveIdsByTxids, inv.mem_findActiveIdsByTxids]
    simp only [same]
  have none : s.db.findActiveIdsByTxids txids = [] ↔ s.db.findActiveIdsByTxids others = [] := by
    simp only [List.eq_nil_iff_forall_not_mem, ids]
  -- The two lists name the same ids, so each early return is taken on both sides or on neither.
  unfold findActiveClustersContaining findActiveIdsByTxids
  by_cases empty : others = []
  · rw [if_pos (nobody.mpr empty), if_pos empty]
  · rw [if_neg (mt nobody.mp empty), if_neg empty, query_of_reliable reliable,
      query_of_reliable reliable]
    dsimp only
    by_cases unmet : s.db.findActiveIdsByTxids others = []
    · rw [if_pos (none.mpr unmet), if_pos unmet]
    · rw [if_neg (mt none.mp unmet), if_neg unmet, query_of_reliable reliable,
        query_of_reliable reliable, show (s.called env).db.findByIds _ = _ from
          Db.findByIds_congr ids]

theorem confirmPartial_congr (same : block.Same other) (partly : List Cluster) :
    s.confirmPartial env fuel block partly = s.confirmPartial env fuel other partly := by
  simp only [confirmPartial, same.trim, same.confirmedAt]

/-- Confirming a block does not tell it from one that is the same. -/
theorem confirmMinedInner_congr (reliable : env.Reliable) (inv : Db.StoreInv [] s.db)
    (same : block.Same other) :
    s.confirmMinedInner env fuel block = s.confirmMinedInner env fuel other := by
  rw [confirmMinedInner, confirmMinedInner,
    findActiveClustersContaining_congr reliable inv same.txids, same.isFull, same.confirmedAt]
  simp only [confirmPartial_congr same]

/-- A block that mined nobody is confirmed by doing nothing. -/
theorem confirmMinedInner_of_empty (nobody : block.txids = []) :
    s.confirmMinedInner env fuel block = some (.default, s) := by
  simp [confirmMinedInner, findActiveClustersContaining, findActiveIdsByTxids, nobody, confirmFull,
    confirmPartial, ClusterDeltaSet.merge, ClusterDeltaSet.default]

theorem confirmBlocks_congr (reliable : env.Reliable) (small : env.SmallAnswers)
    (inv : Db.StoreInv [] s.db) {blocks others : List MinedBlock}
    (same : List.Forall₂ MinedBlock.Same blocks others) (before : ClusterDeltaSet) :
    s.confirmBlocks env fuel blocks before = s.confirmBlocks env fuel others before := by
  induction same generalizing s before with
  | nil => rfl
  | cons head _ ih =>
    rw [confirmBlocks, confirmBlocks, confirmMinedInner_congr reliable inv head]
    apply Option.bind_congr
    rintro ⟨confirmed, mid⟩ inner
    exact ih (keeps_confirmMinedInner small inv inner).inv _

/-- Blocks that mined nobody can be left out. -/
theorem confirmBlocks_filter (blocks : List MinedBlock) (before : ClusterDeltaSet) :
    s.confirmBlocks env fuel (blocks.filter (·.txids ≠ [])) before =
      s.confirmBlocks env fuel blocks before := by
  induction blocks generalizing s before with
  | nil => rfl
  | cons block blocks ih =>
    by_cases nobody : block.txids = []
    · rw [List.filter_cons_of_neg (by simpa using nobody), ih, confirmBlocks,
        confirmMinedInner_of_empty nobody]
      rfl
    · rw [List.filter_cons_of_pos (by simpa using nobody), confirmBlocks, confirmBlocks]
      apply Option.bind_congr
      rintro ⟨confirmed, mid⟩ _
      exact ih _

end ClusterService

/-! ### What the store says of blocks -/

namespace Db

variable {db : Db} {members : List Txid} {rows : List (Txid × Transaction × Int × OffsetDateTime)}

/-- The block's transactions are stored as mined by it. -/
structure Holds (db : Db) (block : GetBlockModel) : Prop where
  stored : db.blocks.find? (fun stored => stored.hash = block.hash) = some block.toBlock
  rows : ∀ tx ∈ block.txs, ∃ row, db.transactions tx.txid = some row ∧
    row.confirmedAtBlock = some block.hash ∧ row.fee = some tx.feeSats ∧ row.weight = tx.weight
  only : ∀ txid row, db.transactions txid = some row → row.confirmedAtBlock = some block.hash →
    txid ∈ block.txids

/-- The row of a block's transaction says what the fetched block does. -/
theorem Holds.row {block : GetBlockModel} (holds : db.Holds block) {txid : Txid}
    (mined : txid ∈ block.txids) : ∃ row, db.transactions txid = some row ∧
      row.confirmedAtBlock = some block.hash ∧ row.fee = block.mined.fees txid ∧
      some row.weight = block.mined.weights txid := by
  obtain ⟨first, inBlock, isFirst⟩ := List.mem_map.mp mined
  obtain ⟨tx, found⟩ := Option.isSome_iff_exists.mp (show
      (block.txs.reverse.find? fun tx => tx.txid = txid).isSome = true from
    List.find?_isSome.mpr ⟨first, List.mem_reverse.mpr inBlock, by simpa using isFirst⟩)
  obtain rfl : tx.txid = txid := by simpa using List.find?_some found
  obtain ⟨row, stored, atBlock, fee, weight⟩ :=
    holds.rows tx (List.mem_reverse.mp (List.mem_of_find?_eq_some found))
  refine ⟨row, stored, atBlock, ?_, ?_⟩
  · simp only [GetBlockModel.mined, found, fee, Option.map_some]
  · simp only [GetBlockModel.mined, found, weight, Option.map_some]

/-- Blocks whose transactions are stored, in height order; nobody that any other block
mined is in an active cluster. -/
structure LateBlocks (db : Db) (blocks : List GetBlockModel) : Prop where
  holds : ∀ block ∈ blocks, db.Holds block
  ordered : blocks.Pairwise fun block later =>
    block.height < later.height ∨ block.height = later.height ∧ block.hash < later.hash
  others : ∀ txid, db.Clustered txid → ∀ row hash, db.transactions txid = some row →
    row.confirmedAtBlock = some hash → ∃ block ∈ blocks, block.hash = hash

/-- The block that the store says mined the txid. -/
def minedBy (db : Db) (txid : Txid) : Option String := (db.confirmation txid).2

theorem minedBy_of_row {txid : Txid} {row : Transaction} {hash : String}
    (stored : db.transactions txid = some row) (atBlock : row.confirmedAtBlock = some hash) :
    db.minedBy txid = some hash :=
  Option.bind_eq_some_iff.mpr ⟨row, stored, atBlock⟩

section Commit

variable {next : Db} {new : List NewTransaction} {update : Transaction → Transaction → Transaction}
  {block : GetBlockModel} {seenAt : OffsetDateTime}

/-- Of rows with distinct txids one touches its row. -/
theorem foldl_touch_of_mem {one : NewTransaction} (distinct : (new.map NewTransaction.txid).Nodup)
    (member : one ∈ new) (stored : Option Transaction) :
    new.foldl (touch update one.txid) stored =
      some (stored.elim one.row fun row => update row one.row) := by
  induction new generalizing stored with
  | nil => cases member
  | cons first new ih =>
    obtain ⟨fresh, distinct⟩ := List.nodup_cons.mp distinct
    rw [List.foldl_cons]
    rcases List.mem_cons.mp member with rfl | later
    · rw [foldl_touch_of_absent fresh, touch, if_pos rfl]
    · have other : first.txid ≠ one.txid := fun same => fresh (same ▸ List.mem_map_of_mem later)
      rw [touch, if_neg other]
      exact ih distinct later stored

theorem txids_newTransactions :
    (block.newTransactions seenAt).map NewTransaction.txid = block.txids := by
  simp [GetBlockModel.newTransactions, GetBlockModel.txids, Function.comp_def]

/-- A committed block is stored as it was fetched, and nothing else of the rows changes. -/
theorem holds_insertWithTransactions (fresh : block.hash ∉ db.blocks.map Block.hash)
    (unused : ∀ txid, db.minedBy txid ≠ some block.hash)
    (distinct : block.txids.Nodup)
    (h : db.insertWithTransactions block.toBlock (block.newTransactions seenAt) = some next) :
    next.Holds block ∧ next.blocks = db.blocks ++ [block.toBlock] ∧
      ∀ txid, txid ∉ block.txids → next.transactions txid = db.transactions txid := by
  have sorted : (NewTransaction.sortedByTxid (block.newTransactions seenAt)).Perm
      (block.newTransactions seenAt) := List.perm_insertionSort _ _
  have nodup : ((NewTransaction.sortedByTxid (block.newTransactions seenAt)).map
      NewTransaction.txid).Nodup := by
    rw [(sorted.map _).nodup_iff, txids_newTransactions]
    exact distinct
  rw [insertWithTransactions, if_neg (show block.toBlock.hash ∉ _ from fresh)] at h
  have done := transactions_upsertInSlices transactionInsertChunkSize_pos h
  subst done
  -- The upsert touches the rows of the block's txids alone.
  have elsewhere (txid : Txid) (absent : txid ∉ block.txids) :
      (NewTransaction.sortedByTxid (block.newTransactions seenAt)).foldl
        (touch Transaction.confirm txid) (db.transactions txid) = db.transactions txid := by
    apply foldl_touch_of_absent
    rw [(sorted.map _).mem_iff, txids_newTransactions]
    exact absent
  refine ⟨⟨?_, ?_, ?_⟩, rfl, elsewhere⟩
  -- The block's hash is new, so the search passes the stored ones and ends at it.
  · have none : db.blocks.find? (fun stored => stored.hash = block.hash) = none := by
      apply List.find?_eq_none.mpr
      intro stored listed same
      exact fresh (List.mem_map.mpr ⟨stored, listed, by simpa using same⟩)
    rw [List.find?_append, none, Option.none_or, List.find?_cons_of_pos]
    simp [GetBlockModel.toBlock]
  · intro tx inBlock
    have member : _ ∈ block.newTransactions seenAt := List.mem_map_of_mem inBlock
    refine ⟨_, foldl_touch_of_mem nodup (NewTransaction.mem_sortedByTxid.mpr member) _, ?_⟩
    cases db.transactions tx.txid <;> exact ⟨rfl, rfl, rfl⟩
  -- A row that carries the hash was written by this block, since none carried it before.
  · intro txid row stored atBlock
    by_contra absent
    simp only [elsewhere txid absent] at stored
    exact unused txid (minedBy_of_row stored atBlock)

theorem minedBy_insertWithTransactions
    (h : db.insertWithTransactions block.toBlock (block.newTransactions seenAt) = some next)
    (txid : Txid) :
    next.minedBy txid = if txid ∈ block.txids then some block.hash else db.minedBy txid := by
  have mined : next.confirmation txid =
      if txid ∈ (block.newTransactions seenAt).map NewTransaction.txid then
        (some block.minedAt, some block.hash) else db.confirmation txid :=
    confirmation_insertWithTransactions (by simp [GetBlockModel.newTransactions]) h txid
  rw [txids_newTransactions] at mined
  rw [minedBy, mined, minedBy]
  split_ifs <;> rfl

theorem lateBlocks_nil (none : ∀ txid, db.Clustered txid → db.minedBy txid = none) :
    db.LateBlocks [] where
  holds := by simp
  ordered := .nil
  others txid clustered row hash stored atBlock := by
    have unmined := none txid clustered
    rw [minedBy_of_row stored atBlock] at unmined
    cases unmined

/-- A block that is committed and not confirmed is one more late block. -/
theorem LateBlocks.commit {lower higher : List GetBlockModel}
    (late : db.LateBlocks (lower ++ higher))
    (ordered : (lower ++ block :: higher).Pairwise fun block later =>
      block.height < later.height ∨ block.height = later.height ∧ block.hash < later.hash)
    (fresh : block.hash ∉ db.blocks.map Block.hash)
    (unused : ∀ txid, db.minedBy txid ≠ some block.hash)
    (distinct : block.txids.Nodup)
    (apart : ∀ other ∈ lower ++ higher, ∀ txid ∈ other.txids, txid ∉ block.txids)
    (h : db.insertWithTransactions block.toBlock (block.newTransactions seenAt) = some next) :
    next.LateBlocks (lower ++ block :: higher) := by
  obtain ⟨holds, blocks, elsewhere⟩ := holds_insertWithTransactions fresh unused distinct h
  have same := sameClusters_insertWithTransactions (by simp [GetBlockModel.newTransactions]) h
  have earlier (other : GetBlockModel) (listed : other ∈ lower ++ higher) : next.Holds other := by
    obtain ⟨stored, rows, only⟩ := late.holds other listed
    refine ⟨?_, ?_, ?_⟩
    · rw [blocks, List.find?_append, stored]
      rfl
    · intro tx inBlock
      rw [elsewhere tx.txid (apart other listed _ (List.mem_map_of_mem inBlock))]
      exact rows tx inBlock
    · intro txid row found atBlock
      by_cases inBlock : txid ∈ block.txids
      · -- the new block has a hash of its own
        obtain ⟨stamped, found', atBlock', -⟩ := holds.row inBlock
        obtain rfl : stamped = row := Option.some.inj (found'.symm.trans found)
        have hash : block.hash = other.hash := Option.some.inj (atBlock'.symm.trans atBlock)
        refine absurd ?_ fresh
        rw [hash]
        exact List.mem_map.mpr ⟨_, List.mem_of_find?_eq_some stored, rfl⟩
      · exact only txid row (elsewhere txid inBlock ▸ found) atBlock
  -- The clauses: each listed block still holds, the order, and who carries a foreign hash.
  refine ⟨fun other listed => ?_, ordered, ?_⟩
  · rcases List.mem_append.mp listed with before | after
    · exact earlier other (List.mem_append_left _ before)
    · rcases List.mem_cons.mp after with rfl | after
      · exact holds
      · exact earlier other (List.mem_append_right _ after)
  · intro txid clustered row hash found atBlock
    -- A row of the new block names it; any other row is as it was before the insert.
    by_cases inBlock : txid ∈ block.txids
    · obtain ⟨stamped, found', atBlock', -⟩ := holds.row inBlock
      obtain rfl : stamped = row := Option.some.inj (found'.symm.trans found)
      exact ⟨block, by simp, Option.some.inj (atBlock'.symm.trans atBlock)⟩
    · have before : db.Clustered txid := by
        simpa only [Clustered, IsActive, members, current, chunksOf, same.clusters,
          same.clusterChunks] using clustered
      obtain ⟨other, listed, known⟩ := late.others txid before row hash
        (elsewhere txid inBlock ▸ found) atBlock
      refine ⟨other, ?_, known⟩
      rcases List.mem_append.mp listed with before | after
      · exact List.mem_append_left _ before
      · exact List.mem_append_right _ (List.mem_cons_of_mem _ after)

end Commit

theorem mem_findMinedByTxids {txid : Txid} {row : Transaction} {height : Int}
    {minedAt : OffsetDateTime} : (txid, row, height, minedAt) ∈ db.findMinedByTxids members ↔
      txid ∈ members ∧ db.transactions txid = some row ∧ ∃ hash,
        row.confirmedAtBlock = some hash ∧ ∃ block,
          db.blocks.find? (fun stored => stored.hash = hash) = some block ∧
            block.height = height ∧ block.minedAt = minedAt := by
  simp only [findMinedByTxids, List.mem_filterMap, List.mem_dedup, Option.bind_eq_bind,
    Option.bind_eq_some_iff, Option.pure_def, Option.some.injEq, Prod.mk.injEq]
  constructor
  · rintro ⟨listed, member, stored, present, hash, atBlock, block, found, rfl, rfl, rfl, rfl⟩
    exact ⟨member, present, hash, atBlock, block, found, rfl, rfl⟩
  · rintro ⟨member, present, hash, atBlock, block, found, rfl, rfl⟩
    exact ⟨txid, member, row, present, hash, atBlock, block, found, rfl, rfl, rfl, rfl⟩

/-- The key that a block's rows are grouped under. -/
def key (block : GetBlockModel) : Int × String := (block.height, block.hash)

/-- The rows under a block's key are those of its transactions. -/
theorem Holds.mem_group {block : GetBlockModel} (holds : db.Holds block) {txid : Txid}
    {row : Transaction} {height : Int} {minedAt : OffsetDateTime} :
    (txid, row, height, minedAt) ∈ db.findMinedByTxids members ∧
        minedKey (txid, row, height, minedAt) = some (key block) ↔
      txid ∈ members ∧ txid ∈ block.txids ∧ db.transactions txid = some row ∧
        height = block.height ∧ minedAt = block.minedAt := by
  rw [mem_findMinedByTxids]
  constructor
  -- A row keyed by the block carries its hash, and only rows of its own txids do.
  · rintro ⟨⟨member, present, hash, atBlock, stored, found, rfl, rfl⟩, keyed⟩
    obtain ⟨rfl, -⟩ : block.hash = hash ∧ stored.height = block.height := by
      simpa [minedKey, atBlock, key, eq_comm, and_comm] using keyed
    obtain rfl : block.toBlock = stored := Option.some.inj (holds.stored.symm.trans found)
    exact ⟨member, holds.only txid row present atBlock, present, rfl, rfl⟩
  · rintro ⟨member, mined, present, rfl, rfl⟩
    obtain ⟨other, stored, atBlock, -, -⟩ := holds.row mined
    obtain rfl : other = row := Option.some.inj (stored.symm.trans present)
    refine ⟨⟨member, present, block.hash, atBlock, block.toBlock, holds.stored, rfl, rfl⟩, ?_⟩
    simp [minedKey, atBlock, key]

end Db

namespace MinedBlock

variable {db : Db} {members : List Txid} {rows : List (Txid × Transaction × Int × OffsetDateTime)}

/-- The block that `byBlock` makes of the rows with one key. -/
def ofKey (rows : List (Txid × Transaction × Int × OffsetDateTime)) (key : Int × String) :
    Option MinedBlock :=
  let mined := rows.filter fun row => minedKey row = some key
  mined.head?.map fun first => ofRows mined first.2.2.2

theorem byBlock_eq (rows : List (Txid × Transaction × Int × OffsetDateTime)) :
    byBlock rows = ((rows.filterMap minedKey).dedup.insertionSort fun a b =>
      a.1 < b.1 ∨ a.1 = b.1 ∧ a.2 ≤ b.2).filterMap (ofKey rows) := rfl

/-- The rows of a block make up the block, as far as the members go. -/
theorem same_ofKey (listed : ∀ row, row ∈ rows ↔ row ∈ db.findMinedByTxids members)
    {block : GetBlockModel} (holds : db.Holds block)
    (met : ∃ txid ∈ block.txids, txid ∈ members) :
    ∃ late, ofKey rows (Db.key block) = some late ∧ late.Same (block.mined.restrict members) := by
  have inGroup {txid : Txid} {row : Transaction} {height : Int} {minedAt : OffsetDateTime} :
      (txid, row, height, minedAt) ∈ rows.filter (fun row => minedKey row = some (Db.key block)) ↔
        txid ∈ members ∧ txid ∈ block.txids ∧ db.transactions txid = some row ∧
          height = block.height ∧ minedAt = block.minedAt := by
    rw [List.mem_filter, listed, decide_eq_true_eq, holds.mem_group]
  rw [ofKey]
  generalize rows.filter (fun row => minedKey row = some (Db.key block)) = group at inGroup
  obtain ⟨one, oneMined, oneMember⟩ := met
  obtain ⟨oneRow, oneStored, -⟩ := holds.row oneMined
  have member := inGroup.mpr ⟨oneMember, oneMined, oneStored, rfl, rfl⟩
  obtain ⟨⟨head, headRow, height, minedAt⟩, isHead⟩ : ∃ head, group.head? = some head :=
    Option.isSome_iff_exists.mp (List.isSome_head?.mpr (List.ne_nil_of_mem member))
  obtain ⟨-, -, -, -, rfl⟩ := inGroup.mp (List.mem_of_head? isHead)
  refine ⟨ofRows group block.minedAt, by rw [isHead]; rfl, ?_⟩
  have mined (txid : Txid) : txid ∈ group.map Prod.fst ↔ txid ∈ block.txids ∧ txid ∈ members := by
    constructor
    · intro inTxids
      obtain ⟨⟨_, row, _, _⟩, inRows, rfl⟩ := List.mem_map.mp inTxids
      obtain ⟨isMember, isMined, -⟩ := inGroup.mp inRows
      exact ⟨isMined, isMember⟩
    · rintro ⟨isMined, isMember⟩
      obtain ⟨row, stored, -⟩ := holds.row isMined
      exact List.mem_map.mpr ⟨_, inGroup.mpr ⟨isMember, isMined, stored, rfl, rfl⟩, rfl⟩
  -- whichever row of the txid is found first, it is the stored one
  have found {txid : Txid} (inTxids : txid ∈ group.map Prod.fst) :
      ∃ entry, group.find? (fun row => row.1 = txid) = some entry ∧
        entry.2.1.fee = block.mined.fees txid ∧
        some entry.2.1.weight = block.mined.weights txid := by
    obtain ⟨row, inRows, same⟩ := List.mem_map.mp inTxids
    obtain ⟨entry, isFound⟩ := Option.isSome_iff_exists.mp (show
        (group.find? fun row => row.1 = txid).isSome = true from
      List.find?_isSome.mpr ⟨row, inRows, by simpa using same⟩)
    obtain rfl : entry.1 = txid := by simpa using List.find?_some isFound
    obtain ⟨isMined, -⟩ := (mined _).mp inTxids
    obtain ⟨stored, present, -, fee, weight⟩ := holds.row isMined
    obtain ⟨-, -, inStore, -⟩ := inGroup.mp (List.mem_of_find?_eq_some isFound)
    obtain rfl : stored = entry.2.1 := Option.some.inj (present.symm.trans inStore)
    exact ⟨entry, isFound, fee, weight⟩
  constructor
  · intro txid
    rw [mem_restrict]
    exact mined txid
  · intro txid inTxids
    obtain ⟨entry, isFound, fee, -⟩ := found inTxids
    change (group.find? _).bind _ = block.mined.fees txid
    rw [isFound, ← fee]
    rfl
  · intro txid inTxids
    obtain ⟨entry, isFound, -, weight⟩ := found inTxids
    change (group.find? _).map _ = block.mined.weights txid
    rw [isFound, ← weight]
    rfl
  · rfl

/-- The order of keys: by height, then by hash. -/
def KeyLe (a b : Int × String) : Prop := a.1 < b.1 ∨ a.1 = b.1 ∧ a.2 ≤ b.2

instance : DecidableRel KeyLe :=
  fun a b => inferInstanceAs (Decidable (a.1 < b.1 ∨ a.1 = b.1 ∧ a.2 ≤ b.2))

theorem keyLe_iff {a b : Int × String} : KeyLe a b ↔ toLex a ≤ toLex b := Prod.Lex.le_iff.symm

instance : Std.Total KeyLe :=
  ⟨fun a b => by simpa only [keyLe_iff] using le_total (toLex a) (toLex b)⟩

instance : IsTrans (Int × String) KeyLe :=
  ⟨fun a b c => by simpa only [keyLe_iff] using le_trans⟩

instance : Std.Antisymm KeyLe :=
  ⟨fun a b => by simpa only [keyLe_iff] using fun first second =>
    toLex.injective (le_antisymm first second)⟩

/-- Keys in height order, each once, are the sorted keys. -/
theorem insertionSort_keys {keys sorted : List (Int × String)}
    (same : ∀ key, key ∈ keys ↔ key ∈ sorted)
    (ordered : sorted.Pairwise fun a b => a.1 < b.1 ∨ a.1 = b.1 ∧ a.2 < b.2) :
    keys.dedup.insertionSort KeyLe = sorted := by
  have distinct : sorted.Nodup := by
    apply ordered.imp
    rintro a b (below | ⟨-, below⟩) rfl
    · exact lt_irrefl _ below
    · exact lt_irrefl _ below
  have perm : (keys.dedup.insertionSort KeyLe).Perm sorted := by
    apply (List.perm_insertionSort _ _).trans
    rw [List.perm_ext_iff_of_nodup (List.nodup_dedup keys) distinct]
    intro key
    rw [List.mem_dedup, same]
  apply perm.eq_of_pairwise' (List.pairwise_insertionSort KeyLe _)
  exact ordered.imp fun below => below.imp id (And.imp id le_of_lt)

theorem restrict_ne_nil {block : GetBlockModel} :
    (block.mined.restrict members).txids ≠ [] ↔ ∃ txid ∈ block.txids, txid ∈ members := by
  constructor
  · intro some_
    obtain ⟨txid, member⟩ := List.exists_mem_of_ne_nil _ some_
    exact ⟨txid, mem_restrict.mp member⟩
  · rintro ⟨txid, both⟩
    exact List.ne_nil_of_mem (mem_restrict.mpr both)

/-- The keys of the rows are those of the blocks that mined a member. -/
theorem mem_minedKeys {blocks : List GetBlockModel} (late : db.LateBlocks blocks)
    (clustered : ∀ txid ∈ members, db.Clustered txid)
    (listed : ∀ row, row ∈ rows ↔ row ∈ db.findMinedByTxids members) (key : Int × String) :
    key ∈ rows.filterMap minedKey ↔
      ∃ block ∈ blocks, (∃ txid ∈ block.txids, txid ∈ members) ∧ Db.key block = key := by
  rw [List.mem_filterMap]
  constructor
  -- A mined row leads to a listed block through the hash it carries.
  · rintro ⟨⟨txid, row, height, minedAt⟩, inRows, keyed⟩
    obtain ⟨member, present, hash, atBlock, stored, found, rfl, rfl⟩ :=
      Db.mem_findMinedByTxids.mp ((listed _).mp inRows)
    obtain ⟨block, inBlocks, rfl⟩ :=
      late.others txid (clustered txid member) row hash present atBlock
    have holds := late.holds block inBlocks
    obtain rfl : block.toBlock = stored := Option.some.inj (holds.stored.symm.trans found)
    obtain rfl : (block.toBlock.height, block.hash) = key := by
      simpa [minedKey, atBlock] using keyed
    exact ⟨block, inBlocks, ⟨txid, holds.only txid row present atBlock, member⟩, rfl⟩
  -- A listed block that meets the members has a row among them, keyed by the block.
  · rintro ⟨block, inBlocks, ⟨txid, mined, member⟩, rfl⟩
    have holds := late.holds block inBlocks
    obtain ⟨row, present, -⟩ := holds.row mined
    obtain ⟨inRows, keyed⟩ := holds.mem_group.mpr ⟨member, mined, present, rfl, rfl⟩
    exact ⟨_, (listed _).mpr inRows, keyed⟩

/-- The stored rows of some txids are the blocks that mined them, as far as they go. -/
theorem same_byBlock {blocks : List GetBlockModel} (late : db.LateBlocks blocks)
    (clustered : ∀ txid ∈ members, db.Clustered txid)
    (listed : ∀ row, row ∈ rows ↔ row ∈ db.findMinedByTxids members) :
    List.Forall₂ Same (byBlock rows)
      ((blocks.map fun block => block.mined.restrict members).filter (·.txids ≠ [])) := by
  rw [List.filter_map]
  set hit := blocks.filter ((fun block : MinedBlock => decide (block.txids ≠ [])) ∘
    fun block => block.mined.restrict members) with hit_eq
  have inHit (block : GetBlockModel) : block ∈ hit ↔
      block ∈ blocks ∧ ∃ txid ∈ block.txids, txid ∈ members := by
    rw [hit_eq, List.mem_filter, Function.comp_apply, decide_eq_true_eq, restrict_ne_nil]
  -- The keys of the rows, sorted and deduplicated, are the keys of the blocks that meet the
  -- members.
  have keys : ((rows.filterMap minedKey).dedup.insertionSort fun a b =>
      a.1 < b.1 ∨ a.1 = b.1 ∧ a.2 ≤ b.2) = hit.map Db.key := by
    apply insertionSort_keys
    · intro key
      rw [mem_minedKeys late clustered listed, List.mem_map]
      simp only [inHit, and_assoc]
    · rw [List.pairwise_map]
      exact late.ordered.filter _
  rw [byBlock_eq, keys, List.filterMap_map]
  have each : ∀ block ∈ hit, ∃ late, ofKey rows (Db.key block) = some late ∧
      late.Same (block.mined.restrict members) := by
    intro block member
    obtain ⟨inBlocks, met⟩ := (inHit block).mp member
    exact same_ofKey listed (late.holds block inBlocks) met
  -- What is left is a walk over the blocks, one late block built for each.
  clear_value hit
  clear hit_eq inHit keys
  induction hit with
  | nil => exact .nil
  | cons block hit ih =>
    obtain ⟨first, built, same⟩ := each block List.mem_cons_self
    have rest := ih fun other member => each other (List.mem_cons_of_mem block member)
    rw [List.filterMap_cons_some (by exact built), List.map_cons]
    exact .cons same rest

end MinedBlock

end MempoolObserver
